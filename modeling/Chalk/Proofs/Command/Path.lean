import Chalk.Command.Path
import Chalk.Proofs.Text.Lines

/-!
# The parts of a path

A path is a folder, up to its last slash, and the name behind it (`Splits`). Another extension
changes this last name only (`Splits.withExtension_eq`). A name has an extension when there is a dot
in it behind its first character; the extension is what follows the last dot (`IsExtension`).
-/

namespace Chalk.Path

/-! ## Folder and name -/

/-- A path is the text of a folder, with its slash, and a name. -/
structure Splits (path : String) (folder name : List Char) : Prop where
  text : path.toList = folder ++ name
  name : '/' ∉ name
  folder : folder = [] ∨ ∃ front, folder = front ++ ['/']

variable {path : String} {folder name : List Char}

theorem bne_of_not_mem {c : Char} {cs : List Char} (h : c ∉ cs) :
    ∀ d ∈ cs.reverse, (d != c) = true := by
  intro d hd
  rw [bne_iff_ne]
  rintro rfl
  exact h (List.mem_reverse.1 hd)

theorem exists_splits (path : String) : ∃ folder, Splits path folder (lastName path.toList) := by
  refine ⟨(path.toList.reverse.dropWhile (· != '/')).reverse, ?_, ?_, ?_⟩
  · exact (Text.reverse_dropWhile_append _ _).symm
  · intro hmem
    exact absurd (List.mem_takeWhile_imp (List.mem_reverse.1 hmem)) (by simp)
  · cases hback : path.toList.reverse.dropWhile (· != '/') with
    | nil => exact .inl rfl
    | cons c back =>
      have hc : (c != '/') = false :=
        Text.eq_false_of_head?_dropWhile (p := (· != '/')) (by rw [hback]; rfl)
      refine .inr ⟨back.reverse, ?_⟩
      rw [List.reverse_cons, bne_eq_false_iff_eq.1 hc]

namespace Splits

theorem lastName_eq (h : Splits path folder name) : lastName path.toList = name := by
  have hfolder : folder.reverse.takeWhile (· != '/') = [] := by
    rcases h.folder with hnil | ⟨front, hfront⟩
    · rw [hnil]
      rfl
    · rw [hfront, List.reverse_append]
      rfl
  rw [lastName, h.text, List.reverse_append, List.takeWhile_append_of_pos (bne_of_not_mem h.name),
    hfolder, List.append_nil, List.reverse_reverse]

theorem eq_iff {path' : String} {name' : List Char} (h : Splits path folder name)
    (h' : Splits path' folder name') : path = path' ↔ name = name' := by
  rw [← String.toList_inj, h.text, h'.text, List.append_right_inj]

end Splits

/-! ## Extensions -/

/-- A name ends in a dot and an extension, behind a stem that is not empty. -/
structure IsExtension (name stem extension : List Char) : Prop where
  text : name = stem ++ '.' :: extension
  stem : stem ≠ []
  extension : '.' ∉ extension

theorem exists_isExtension (h : '.' ∈ name.tail) : ∃ s e, IsExtension name s e := by
  cases name with
  | nil => cases h
  | cons c cs =>
    obtain ⟨front, back, hcs, hfront⟩ := List.eq_append_cons_of_mem (List.mem_reverse.2 h)
    refine ⟨c :: back.reverse, front.reverse, ?_, List.cons_ne_nil _ _, by simpa using hfront⟩
    have htail : cs = back.reverse ++ '.' :: front.reverse := by
      rw [← List.reverse_inj]
      simpa using hcs
    rw [htail, List.cons_append]

theorem dropWhile_reverse_of_isExtension {s e : List Char} (h : IsExtension name s e) :
    (name.reverse.dropWhile (· != '.')).drop 1 = s.reverse := by
  rw [h.text, List.reverse_append, List.reverse_cons, List.append_assoc,
    List.dropWhile_append_of_pos (bne_of_not_mem h.extension)]
  rfl

theorem IsExtension.unique {s e s' e' : List Char} (h : IsExtension name s e)
    (h' : IsExtension name s' e') : s = s' ∧ e = e' := by
  have hs : s = s' := List.reverse_inj.1
    ((dropWhile_reverse_of_isExtension h).symm.trans (dropWhile_reverse_of_isExtension h'))
  have htext := h.text.symm.trans h'.text
  rw [hs] at htext
  exact ⟨hs, (List.cons.inj (List.append_cancel_left htext)).2⟩

theorem IsExtension.stem_ne {s e : List Char} (h : IsExtension name s e) : s ≠ name := by
  intro heq
  have hlength := congrArg List.length (heq.trans h.text)
  simp at hlength

theorem IsExtension.mem_tail {s e : List Char} (h : IsExtension name s e) : '.' ∈ name.tail := by
  obtain ⟨rfl, hs, -⟩ := h
  cases s with
  | nil => exact absurd rfl hs
  | cons c s => simp

theorem stem_of_isExtension {s e : List Char} (h : IsExtension name s e)
    (hname : name ≠ ['.', '.']) : stem name = s := by
  rw [stem, dropWhile_reverse_of_isExtension h]
  split
  · next hnil => exact absurd (List.reverse_eq_nil_iff.1 hnil) h.stem
  · rw [if_neg hname, List.reverse_reverse]

theorem stem_eq_self (h : '.' ∉ name.tail) : stem name = name := by
  have hnone : (name.reverse.dropWhile (· != '.')).drop 1 = [] := by
    cases name with
    | nil => rfl
    | cons c cs =>
      rw [List.tail_cons] at h
      rw [List.reverse_cons, List.dropWhile_append_of_pos (bne_of_not_mem h)]
      by_cases hc : c = '.'
      · rw [hc]
        rfl
      · rw [List.dropWhile_cons_of_pos (by simpa using hc)]
        rfl
  rw [stem, hnone]

/-! ## Another extension -/

/-- What an extension adds to a name. -/
def suffix (extension : String) : List Char :=
  if extension = "" then [] else '.' :: extension.toList

theorem suffix_empty : suffix "" = [] :=
  rfl

/-- A name with another extension. -/
def rename (name : List Char) (extension : String) : List Char :=
  if bare name = ['.', '.'] then ['.', '.'] else stem name ++ suffix extension

theorem Splits.withExtension_eq (h : Splits path folder name) (extension : String) :
    withExtension path extension = String.ofList (folder ++ rename name extension) := by
  have hlength : (folder ++ name).length - name.length = folder.length := by
    rw [List.length_append, Nat.add_sub_cancel]
  simp only [withExtension, h.lastName_eq, rename, suffix]
  rw [h.text, hlength, List.take_left]

variable {s e : List Char} {extension : String}

theorem IsExtension.ne_dots (h : IsExtension name s e) (hs : s ≠ ['.']) : name ≠ ['.', '.'] := by
  have hdots : IsExtension ['.', '.'] ['.'] [] := ⟨rfl, List.cons_ne_nil _ _, List.not_mem_nil⟩
  intro hname
  exact hs (h.unique (hname ▸ hdots)).1

theorem IsExtension.bare_eq (h : IsExtension name s e) (hname : name ≠ ['.', '.']) :
    bare name = s ++ ['.'] := by
  rw [bare, stem_of_isExtension h hname, if_neg h.stem_ne]

theorem rename_of_isExtension (h : IsExtension name s e) (hs : s ≠ ['.']) (extension : String) :
    rename name extension = s ++ suffix extension := by
  have hname := h.ne_dots hs
  have hbare : bare name ≠ ['.', '.'] := by
    rw [h.bare_eq hname]
    intro hdots
    exact hs (List.append_cancel_right (hdots : s ++ ['.'] = ['.'] ++ ['.']))
  rw [rename, if_neg hbare, stem_of_isExtension h hname]

/-- A dot and an extension behind a dot: without the extension, the dots lead to the directory
above. -/
theorem rename_of_isExtension_dot (h : IsExtension name ['.'] e) (extension : String) :
    rename name extension = ['.', '.'] := by
  have hbare : bare name = ['.', '.'] := by
    by_cases hname : name = ['.', '.']
    · rw [hname]
      rfl
    · exact h.bare_eq hname
  rw [rename, if_pos hbare]

theorem rename_of_not_mem_tail (h : '.' ∉ name.tail) (extension : String) :
    rename name extension = name ++ suffix extension := by
  have hbare : bare name ≠ ['.', '.'] := by
    rw [bare, if_pos (stem_eq_self h)]
    rintro rfl
    exact h (List.mem_singleton.2 rfl)
  rw [rename, if_neg hbare, stem_eq_self h]

/-- The three ways in which a name takes another extension. -/
theorem cases_of_rename (name : List Char) :
    (∃ e, IsExtension name ['.'] e ∧ ∀ extension, rename name extension = ['.', '.']) ∨
      (∃ s e, IsExtension name s e ∧ s ≠ ['.'] ∧
        ∀ extension, rename name extension = s ++ suffix extension) ∨
      ((∀ s e, ¬ IsExtension name s e) ∧
        ∀ extension, rename name extension = name ++ suffix extension) := by
  by_cases h : '.' ∈ name.tail
  · obtain ⟨s, e, hext⟩ := exists_isExtension h
    by_cases hs : s = ['.']
    · subst hs
      exact .inl ⟨e, hext, rename_of_isExtension_dot hext⟩
    · exact .inr (.inl ⟨s, e, hext, hs, rename_of_isExtension hext hs⟩)
  · refine .inr (.inr ⟨?_, rename_of_not_mem_tail h⟩)
    intro s e hext
    exact h hext.mem_tail

theorem not_mem_rename {c : Char} (hname : c ∉ name) (hdot : c ≠ '.')
    (hextension : c ∉ extension.toList) : c ∉ rename name extension := by
  have hsuffix : c ∉ suffix extension := by
    rw [suffix]
    split
    · exact List.not_mem_nil
    · exact List.not_mem_cons_of_ne_of_not_mem hdot hextension
  rcases cases_of_rename name with ⟨e, -, hrename⟩ | ⟨s, e, hext, -, hrename⟩ | ⟨-, hrename⟩
  · rw [hrename]
    simp [hdot]
  · have hstem : c ∉ s := fun hmem => hname (hext.text ▸ List.mem_append_left _ hmem)
    rw [hrename]
    exact List.not_mem_append hstem hsuffix
  · rw [hrename]
    exact List.not_mem_append hname hsuffix

/-- Another extension leaves the folder. -/
theorem Splits.withExtension (h : Splits path folder name)
    (hextension : '/' ∉ extension.toList) :
    Splits (withExtension path extension) folder (rename name extension) where
  text := by rw [h.withExtension_eq, String.toList_ofList]
  name := not_mem_rename h.name (by decide) hextension
  folder := h.folder

/-! ## Names that an extension leaves as they are -/

/-- A name without its extension is the same only if it has none. -/
theorem rename_empty_eq_self_iff (hname : name ≠ ['.', '.']) :
    rename name "" = name ↔ ∀ s e, ¬ IsExtension name s e := by
  rcases cases_of_rename name with ⟨e, hext, hrename⟩ | ⟨s, e, hext, -, hrename⟩ | ⟨hnone, hrename⟩
  · rw [hrename]
    exact iff_of_false (Ne.symm hname) fun hnone => hnone _ _ hext
  · rw [hrename, suffix_empty, List.append_nil]
    exact iff_of_false hext.stem_ne fun hnone => hnone _ _ hext
  · rw [hrename, suffix_empty, List.append_nil]
    exact iff_of_true rfl hnone

section Extension

variable (hempty : extension ≠ "") (hextension : '.' ∉ extension.toList)

include hempty

theorem suffix_of_ne : suffix extension = '.' :: extension.toList := by
  rw [suffix, if_neg hempty]

include hextension

/-- A name keeps its own extension, and no name but the one for the directory above keeps
another. -/
theorem rename_eq_self_iff (hname : name ≠ ['.', '.']) :
    rename name extension = name ↔ ∃ s, s ≠ ['.'] ∧ IsExtension name s extension.toList := by
  constructor
  · intro heq
    rcases cases_of_rename name with ⟨e, -, hrename⟩ | ⟨s, e, hext, hs, hrename⟩ | ⟨-, hrename⟩
    · exact absurd (heq.symm.trans (hrename extension)) hname
    · rw [hrename, suffix_of_ne hempty] at heq
      exact ⟨s, hs, heq.symm, hext.stem, hextension⟩
    · rw [hrename, suffix_of_ne hempty] at heq
      have hlength := congrArg List.length heq
      simp at hlength
  · rintro ⟨s, hs, hext⟩
    rw [rename_of_isExtension hext hs, suffix_of_ne hempty, ← hext.text]

/-- A name with another extension has it, and is without it what it was without its own. -/
theorem isExtension_rename (hnil : name ≠ []) (hdot : name ≠ ['.']) :
    (rename name extension = ['.', '.'] ∧ rename name "" = ['.', '.']) ∨
      (rename name "" ≠ ['.'] ∧
        IsExtension (rename name extension) (rename name "") extension.toList) := by
  rcases cases_of_rename name with ⟨e, -, hrename⟩ | ⟨s, e, hext, hs, hrename⟩ | ⟨-, hrename⟩
  · exact .inl ⟨hrename extension, hrename ""⟩
  · rw [hrename, hrename, suffix_of_ne hempty, suffix_empty, List.append_nil]
    exact .inr ⟨hs, rfl, hext.stem, hextension⟩
  · rw [hrename, hrename, suffix_of_ne hempty, suffix_empty, List.append_nil]
    exact .inr ⟨hdot, rfl, hnil, hextension⟩

end Extension

end Chalk.Path
