import Chalk.Text.Blank
import Chalk.Text.Lines
import Mathlib.Data.List.TakeWhile

/-!
# Lines around a place

A line of a text lies between two newlines, or between one of them and an end of the text
(`IsLine`). Each place in a text is on one, whose number counts the newlines before the place
(`exists_wholeLine`). What `line?` finds under that number is this line without its end, except that
it finds nothing behind a newline that ends the text (`WholeLine.line?_eq`).

`IsTrimmed` says what is left of a line when the blanks around it are taken away; a character that
is not blank is left (`IsTrimmed.contains`).
-/

namespace Chalk.Text

theorem newlines_append (cs ds : List Char) : newlines (cs ++ ds) = newlines cs + newlines ds :=
  List.count_append

theorem newlines_eq_zero {cs : List Char} : newlines cs = 0 ↔ '\n' ∉ cs :=
  List.count_eq_zero

theorem newlines_append_eq {a : List Char} (ha : '\n' ∉ a) (before : List Char) :
    newlines (before ++ a) = newlines before := by
  rw [newlines_append, newlines_eq_zero.2 ha, Nat.add_zero]

/-! ## Parts that a test cuts off -/

section Parts

variable {p : Char → Bool} {cs : List Char} {c : Char}

theorem eq_false_of_head?_dropWhile (h : c ∈ (cs.dropWhile p).head?) : p c = false := by
  have hstop := List.head?_dropWhile_not p cs
  rw [Option.mem_def.1 h] at hstop
  exact hstop

theorem reverse_dropWhile_append (p : Char → Bool) (cs : List Char) :
    (cs.reverse.dropWhile p).reverse ++ (cs.reverse.takeWhile p).reverse = cs := by
  rw [← List.reverse_append, List.takeWhile_append_dropWhile, List.reverse_reverse]

theorem eq_false_of_getLast?_dropWhile (h : c ∈ (cs.reverse.dropWhile p).reverse.getLast?) :
    p c = false := by
  rw [List.getLast?_reverse] at h
  exact eq_false_of_head?_dropWhile h

end Parts

/-! ## Whole lines -/

/-- What stands between `before` and `after` is a whole line. -/
structure WholeLine (before line after : List Char) : Prop where
  inside : '\n' ∉ line
  begins : ∀ c ∈ before.getLast?, c = '\n'
  ends : ∀ c ∈ after.head?, c = '\n'

/-- The line of the given number, counted from 1. -/
def IsLine (cs : List Char) (n : Nat) (line : List Char) : Prop :=
  ∃ before after, cs = before ++ (line ++ after) ∧ n = 1 + newlines before ∧
    WholeLine before line after

/-- The first line with its newline; only the empty text has none. -/
theorem head?_lines {line after : List Char} (inside : '\n' ∉ line)
    (ends : ∀ c ∈ after.head?, c = '\n') :
    (lines (line ++ after)).head? =
      if line = [] ∧ after = [] then none else some (line ++ after.take 1) := by
  induction line with
  | nil =>
    cases after with
    | nil => rfl
    | cons c after =>
      obtain rfl : c = '\n' := ends c rfl
      rfl
  | cons d line ih =>
    obtain ⟨hd, hline⟩ : '\n' ≠ d ∧ '\n' ∉ line := by simpa using inside
    have hrest := ih hline
    rw [List.cons_append, lines, if_neg hd.symm]
    cases hlines : lines (line ++ after) with
    | nil =>
      have hnil : line = [] ∧ after = [] := by
        by_contra hne
        simp [hlines, hne] at hrest
      simp [hnil]
    | cons l rest =>
      have hne : ¬ (line = [] ∧ after = []) := by
        rintro ⟨rfl, rfl⟩
        cases hlines
      simp only [hlines, if_neg hne, List.head?_cons, Option.some.injEq] at hrest
      simp [hrest]

/-- A character in front of a line that is not the first belongs to another line. -/
theorem getElem?_lines_cons {c : Char} (hc : c ≠ '\n') (cs : List Char) (n : Nat) :
    (lines (c :: cs))[n + 1]? = (lines cs)[n + 1]? := by
  rw [lines, if_neg hc]
  cases lines cs with
  | nil => rfl
  | cons l rest => rfl

/-- The newlines in front of a line count the lines before it. -/
theorem getElem?_lines {before line after : List Char} (inside : '\n' ∉ line)
    (begins : ∀ c ∈ before.getLast?, c = '\n') (ends : ∀ c ∈ after.head?, c = '\n') :
    (lines (before ++ (line ++ after)))[newlines before]? =
      if line = [] ∧ after = [] then none else some (line ++ after.take 1) := by
  induction before with
  | nil =>
    rw [← head?_lines inside ends, List.head?_eq_getElem?]
    rfl
  | cons c before ih =>
    have hrest := ih fun d hd => begins d (by simp [List.getLast?_cons, Option.mem_def.1 hd])
    rw [← hrest, List.cons_append]
    by_cases hc : c = '\n'
    · rw [hc, lines, if_pos rfl, newlines, List.count_cons_self]
      rfl
    · have hmem : '\n' ∈ before := by
        cases before with
        | nil => exact absurd (begins c rfl) hc
        | cons d before =>
          have hlast := begins _ (List.getLast?_eq_some_getLast (List.cons_ne_nil c _))
          rw [List.getLast_cons (List.cons_ne_nil d _)] at hlast
          exact hlast ▸ List.getLast_mem _
      obtain ⟨n, hn⟩ := Nat.exists_eq_succ_of_ne_zero (mt newlines_eq_zero.1 (not_not.2 hmem))
      have hsame : newlines (c :: before) = newlines before := List.count_cons_of_ne hc
      rw [hsame, hn]
      exact getElem?_lines_cons hc _ n

/-- A line is found under its number, without its end, unless it is empty and the text is over. -/
theorem WholeLine.line?_eq {before line after : List Char} (h : WholeLine before line after) :
    line? (before ++ (line ++ after)) (1 + newlines before) =
      if line = [] ∧ after = [] then none else some (dropLineEnd line) := by
  rw [Nat.add_comm, line?, getElem?_lines h.inside h.begins h.ends]
  by_cases hnil : line = [] ∧ after = []
  · rw [if_pos hnil, if_pos hnil]
    rfl
  · rw [if_neg hnil, if_neg hnil, Option.map_some]
    congr 1
    cases after with
    | nil => rw [List.take_nil, List.append_nil]
    | cons c after =>
      obtain rfl : c = '\n' := h.ends c rfl
      simp [dropLineEnd]

/-- Each place is on a line. -/
theorem exists_wholeLine (pre post : List Char) : ∃ before a b after,
    pre = before ++ a ∧ post = b ++ after ∧ WholeLine before (a ++ b) after := by
  let p : Char → Bool := (· != '\n')
  refine ⟨(pre.reverse.dropWhile p).reverse, (pre.reverse.takeWhile p).reverse, post.takeWhile p,
    post.dropWhile p, (reverse_dropWhile_append p pre).symm,
    (List.takeWhile_append_dropWhile ..).symm, ?_, ?_, ?_⟩
  · intro hmem
    rcases List.mem_append.1 hmem with hmem | hmem
    · exact absurd (List.mem_takeWhile_imp (List.mem_reverse.1 hmem)) (by simp [p])
    · exact absurd (List.mem_takeWhile_imp hmem) (by simp [p])
  · intro c hc
    simpa [p] using eq_false_of_getLast?_dropWhile hc
  · intro c hc
    simpa [p] using eq_false_of_head?_dropWhile hc

/-! ## Blanks at the ends -/

/-- The text without the blanks around it. -/
structure IsTrimmed (cs ds : List Char) : Prop where
  blanks : ∃ l r, cs = l ++ (ds ++ r) ∧ (∀ c ∈ l ++ r, isBlank c = true)
  first : ∀ c ∈ ds.head?, isBlank c = false
  last : ∀ c ∈ ds.getLast?, isBlank c = false

theorem isTrimmed_trim (cs : List Char) : IsTrimmed cs (trim cs) := by
  let ds := cs.dropWhile isBlank
  have hds : trim cs ++ (ds.reverse.takeWhile isBlank).reverse = ds :=
    reverse_dropWhile_append isBlank ds
  refine ⟨⟨cs.takeWhile isBlank, (ds.reverse.takeWhile isBlank).reverse, ?_, ?_⟩, ?_, ?_⟩
  · rw [hds, List.takeWhile_append_dropWhile]
  · intro c hc
    rcases List.mem_append.1 hc with hc | hc
    · exact List.mem_takeWhile_imp hc
    · exact List.mem_takeWhile_imp (List.mem_reverse.1 hc)
  · intro c hc
    have hhead : c ∈ ds.head? := by
      rw [← hds, List.head?_append, Option.mem_def.1 hc]
      rfl
    exact eq_false_of_head?_dropWhile hhead
  · intro c hc
    exact eq_false_of_getLast?_dropWhile hc

namespace IsTrimmed

variable {cs ds : List Char}

theorem append_blanks (h : IsTrimmed cs ds) {r : List Char} (hr : ∀ c ∈ r, isBlank c = true) :
    IsTrimmed (cs ++ r) ds := by
  obtain ⟨l, r', rfl, hblanks⟩ := h.blanks
  refine ⟨⟨l, r' ++ r, by simp only [List.append_assoc], fun c hc => ?_⟩, h.first, h.last⟩
  rw [← List.append_assoc] at hc
  rcases List.mem_append.1 hc with hc | hc
  · exact hblanks c hc
  · exact hr c hc

/-- Taking the end of a line away first makes no difference. -/
theorem trim_dropLineEnd (line : List Char) : IsTrimmed line (trim (dropLineEnd line)) := by
  let p : Char → Bool := fun c => c == '\n' || c == '\r'
  have hline : dropLineEnd line ++ (line.reverse.takeWhile p).reverse = line :=
    reverse_dropWhile_append p line
  have hends : ∀ c ∈ (line.reverse.takeWhile p).reverse, isBlank c = true := by
    intro c hc
    have hp : c = '\n' ∨ c = '\r' := by
      simpa [p] using List.mem_takeWhile_imp (List.mem_reverse.1 hc)
    rcases hp with rfl | rfl <;> decide
  have htrimmed := (isTrimmed_trim (dropLineEnd line)).append_blanks hends
  rwa [hline] at htrimmed

/-- A character that is not blank is left, with what is left before and behind it. -/
theorem contains {a b : List Char} {c : Char} (h : IsTrimmed (a ++ c :: b) ds)
    (hc : isBlank c = false) : ∃ u v, ds = u ++ c :: v ∧ u <:+ a ∧ v <+: b := by
  obtain ⟨l, r, heq, hblanks⟩ := h.blanks
  have hvisible : c ∉ l ++ r := fun hmem => absurd (hblanks c hmem) (by simp [hc])
  obtain ⟨hl, hr⟩ : c ∉ l ∧ c ∉ r := by simpa using hvisible
  obtain ⟨u, rfl, hrest⟩ : ∃ u, a = l ++ u ∧ ds ++ r = u ++ c :: b := by
    rcases List.append_eq_append_iff.1 heq with ⟨w, hw, hrest⟩ | hsplit
    · cases w with
      | nil => exact ⟨[], by simpa using hw.symm, by simpa using hrest.symm⟩
      | cons d w =>
        cases hrest
        exact absurd (hw ▸ by simp) hl
    · exact hsplit
  rcases List.append_eq_append_iff.1 hrest with ⟨w, -, hw⟩ | ⟨w, rfl, hw⟩
  · exact absurd (hw ▸ by simp) hr
  · cases w with
    | nil =>
      have hmem : c ∈ [] ++ r := hw ▸ List.mem_cons_self
      exact absurd hmem hr
    | cons d v =>
      cases hw
      exact ⟨u, v, rfl, List.suffix_append .., List.prefix_append ..⟩

end IsTrimmed

/-! ## Lines of places -/

/-- The line of a character that is not blank is found, and shows the character. -/
theorem exists_line_of_visible {c : Char} (pre post : List Char) (hc : isBlank c = false) :
    ∃ line, IsLine (pre ++ c :: post) (1 + newlines pre) line ∧
      line? (pre ++ c :: post) (1 + newlines pre) = some (dropLineEnd line) ∧
      ∃ u v, trim (dropLineEnd line) = u ++ c :: v ∧ u <:+ pre ∧ v <+: post := by
  obtain ⟨before, a, b, after, rfl, hpost, hline⟩ := exists_wholeLine pre (c :: post)
  have hcount : newlines (before ++ a) = newlines before :=
    newlines_append_eq (fun hmem => hline.inside (List.mem_append_left _ hmem)) before
  have hsource : before ++ a ++ c :: post = before ++ ((a ++ b) ++ after) := by
    rw [hpost]
    simp only [List.append_assoc]
  cases b with
  | nil =>
    have hnewline : c = '\n' := hline.ends c (by rw [← List.nil_append after, ← hpost]; rfl)
    subst hnewline
    exact absurd hc (by decide)
  | cons d b =>
    cases hpost
    rw [hsource, hcount]
    refine ⟨a ++ c :: b, ⟨before, after, rfl, rfl, hline⟩, ?_, ?_⟩
    · rw [hline.line?_eq, if_neg (by simp)]
    · obtain ⟨u, v, hshown, hu, hv⟩ :=
        (IsTrimmed.trim_dropLineEnd (a ++ c :: b)).contains hc
      exact ⟨u, v, hshown, hu.trans (List.suffix_append ..), hv.trans (List.prefix_append ..)⟩

/-- The line of the end is found unless a newline ends the text. -/
theorem exists_line_of_end {cs : List Char} (hne : cs ≠ []) :
    ∃ line, IsLine cs (1 + newlines cs) line ∧
      line? cs (1 + newlines cs) =
        if cs.getLast? = some '\n' then none else some (dropLineEnd line) := by
  obtain ⟨before, a, b, after, rfl, hnil, hline⟩ := exists_wholeLine cs []
  obtain ⟨rfl, rfl⟩ := List.append_eq_nil_iff.1 hnil.symm
  rw [List.append_nil] at hline
  have hcount : newlines (before ++ a) = newlines before := newlines_append_eq hline.inside before
  have hsource : before ++ a = before ++ (a ++ []) := by rw [List.append_nil]
  refine ⟨a, ⟨before, [], hsource, by rw [hcount], hline⟩, ?_⟩
  have hlast : (before ++ a).getLast? = some '\n' ↔ a = [] := by
    rw [List.getLast?_append]
    cases ha : a.getLast? with
    | none =>
      cases List.getLast?_eq_none_iff.1 ha
      rw [List.append_nil] at hne
      simp only [Option.none_or, iff_true]
      rw [List.getLast?_eq_some_getLast hne]
      exact congrArg some (hline.begins _ (List.getLast?_eq_some_getLast hne))
    | some d =>
      have hmem := List.mem_of_getLast? ha
      have hd : d ≠ '\n' := fun heq => hline.inside (heq ▸ hmem)
      simp [hd, List.ne_nil_of_mem hmem]
  rw [hcount, hsource, hline.line?_eq, ← hsource]
  simp only [hlast, and_true]

end Chalk.Text
