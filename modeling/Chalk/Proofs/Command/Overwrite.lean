import Chalk.Command.Session
import Chalk.Proofs.Command.Path

/-!
# When a run writes over its input

Without an output path the C text gets the name of the input with the extension `c`, and the
executable then has the name of the input without its extension (`executable_withExtension`). So
the first is the input where that is its extension already, and the second where it has none
(`overwrites_input_iff`).
-/

namespace Chalk.Command.Options

open Chalk.Path

variable {path : String} {folder name s e : List Char}

/-! ## The two paths of a run -/

theorem executable_of_isExtension (hsplits : Splits path folder name) (h : IsExtension name s e)
    (hs : s ≠ ['.']) : executable path = String.ofList (folder ++ s) := by
  have hbare : withExtension path "" = String.ofList (folder ++ s) := by
    rw [hsplits.withExtension_eq, rename_of_isExtension h hs, suffix_empty, List.append_nil]
  have hne : String.ofList (folder ++ s) ≠ path := by
    intro heq
    have htext := congrArg String.toList heq
    rw [String.toList_ofList, hsplits.text] at htext
    exact h.stem_ne (List.append_cancel_left htext)
  simp only [executable, hbare, if_neg hne]

theorem executable_of_dots (hsplits : Splits path folder ['.', '.']) : executable path = path := by
  have hsame (extension : String) : withExtension path extension = path := by
    rw [hsplits.withExtension_eq, ← String.toList_inj, String.toList_ofList, hsplits.text]
    rfl
  rw [executable]
  simp only [hsame, if_pos]

/-- The executable of a C text has the name of what the C text comes from, without its extension. -/
theorem executable_withExtension (hsplits : Splits path folder name) (hnil : name ≠ [])
    (hdot : name ≠ ['.']) : executable (withExtension path "c") = withExtension path "" := by
  have houtput := hsplits.withExtension (by decide : '/' ∉ "c".toList)
  rcases isExtension_rename (by decide : "c" ≠ "") (by decide) hnil hdot with
    ⟨hdots, hdots'⟩ | ⟨hbare, hext⟩
  · -- the C text would go to the directory above, which has no extension to take away
    rw [hdots] at houtput
    rw [executable_of_dots houtput, hsplits.withExtension_eq, hsplits.withExtension_eq, hdots,
      hdots']
  · rw [executable_of_isExtension houtput hext hbare, hsplits.withExtension_eq]

/-! ## The input among them -/

/-- A path whose last name is one of its own, as it is in the path of a file: it ends in no slash,
and in none of the names for the directory itself and the one above. -/
def NamesFile (path : String) : Prop :=
  lastName path.toList ∉ [[], ['.'], ['.', '.']]

instance (path : String) : Decidable (NamesFile path) :=
  inferInstanceAs (Decidable (_ ∉ _))

/-- The C text goes to the input where the input has its extension, and the executable where the
input has none. -/
theorem overwrites_input_iff (o : Options) (hdefault : o.output = none)
    (hname : NamesFile o.input) :
    (o.outputPath = o.input ↔
        ∃ s, s ≠ ['.'] ∧ IsExtension (lastName o.input.toList) s ['c']) ∧
      (executable o.outputPath = o.input ↔
        ∀ s e, ¬ IsExtension (lastName o.input.toList) s e) := by
  obtain ⟨folder, hsplits⟩ := exists_splits o.input
  simp only [NamesFile, List.mem_cons, List.not_mem_nil, or_false, not_or] at hname
  obtain ⟨hnil, hdot, hdots⟩ := hname
  have hpath : o.outputPath = withExtension o.input "c" := by
    rw [outputPath, hdefault]
    rfl
  have houtput := hsplits.withExtension (by decide : '/' ∉ "c".toList)
  have hbare := hsplits.withExtension (by decide : '/' ∉ "".toList)
  rw [hpath]
  constructor
  · rw [houtput.eq_iff hsplits]
    exact rename_eq_self_iff (by decide : "c" ≠ "") (by decide) hdots
  · rw [executable_withExtension hsplits hnil hdot, hbare.eq_iff hsplits]
    exact rename_empty_eq_self_iff hdots

/-- The options of a run that is given an input and nothing else. -/
def ofInput (input : String) : Options :=
  { input, output := none, dumpAst := false, check := false, cc := none, verbose := 0 }

/-- A source with an extension of its own is safe, wherever it is and whatever dots are in front of
it. -/
theorem spares_input_ch :
    (ofInput "/home/../sub.c/a.b.ch").output = none ∧ NamesFile "/home/../sub.c/a.b.ch" ∧
      (ofInput "/home/../sub.c/a.b.ch").outputPath ≠ "/home/../sub.c/a.b.ch" ∧
      executable (ofInput "/home/../sub.c/a.b.ch").outputPath ≠ "/home/../sub.c/a.b.ch" := by
  have hnames : NamesFile "/home/../sub.c/a.b.ch" := by decide +kernel
  have hext : IsExtension (lastName "/home/../sub.c/a.b.ch".toList) "a.b".toList "ch".toList :=
    ⟨by decide +kernel, by decide, by decide⟩
  obtain ⟨houtput, hexecutable⟩ :=
    overwrites_input_iff (ofInput "/home/../sub.c/a.b.ch") rfl hnames
  refine ⟨rfl, hnames, fun heq => ?_, fun heq => hexecutable.1 heq _ _ hext⟩
  obtain ⟨s, -, hc⟩ := houtput.1 heq
  exact absurd (hext.unique hc).2 (by decide)

/-- The C text can go to the input, and so can the executable. -/
theorem overwrites_input_c_and_bare :
    (¬ ∀ o : Options, o.output = none → NamesFile o.input → o.outputPath ≠ o.input) ∧
      ¬ ∀ o : Options, o.output = none → NamesFile o.input →
        executable o.outputPath ≠ o.input := by
  constructor
  · intro h
    exact h (ofInput "a.c") rfl (by decide +kernel) (by decide +kernel)
  · intro h
    exact h (ofInput "noext") rfl (by decide +kernel) (by decide +kernel)

end Chalk.Command.Options
