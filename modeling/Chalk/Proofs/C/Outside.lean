import Chalk.Proofs.C.Literal
import Mathlib.Data.List.Chain

/-!
# Text outside of literals

What remains of a C text when the insides of its string literals are taken out. The quotes stay, so
that two characters are neighbours in what remains only if they are neighbours in the text.
-/

namespace Chalk.C

/-- The text outside of string literals with the quotes around them, read from a place that is
inside of a literal or not. -/
def outside : Bool → List Char → List Char
  | _, [] => []
  | false, c :: cs => c :: outside (c == '"') cs
  | true, '\\' :: _ :: cs => outside true cs
  | true, c :: cs => if c = '"' then c :: outside false cs else outside true cs

theorem outside_append {cs : List Char} (h : '"' ∉ cs) (rest : List Char) :
    outside false (cs ++ rest) = cs ++ outside false rest := by
  induction cs with
  | nil => rfl
  | cons c cs ih =>
    have hquote : (c == '"') = false := by simpa using (List.ne_of_not_mem_cons h).symm
    rw [List.cons_append, outside, hquote, ih (List.not_mem_of_not_mem_cons h), List.cons_append]

theorem outside_escapeByte {b : UInt8} (h : IsPlainByte b) (cs : List Char) :
    outside true (escapeByte b ++ cs) = outside true cs := by
  rcases escapeByte_cases h with ⟨d, heq, -, -, -⟩ | ⟨c, heq, hbackslash, hquote, -⟩
  · rw [heq, List.cons_append, List.cons_append, List.nil_append, outside]
  · rw [heq, List.cons_append, List.nil_append, outside, if_neg hquote]
    simp [hbackslash]

theorem outside_escape {bytes : List UInt8} (h : ∀ b ∈ bytes, IsPlainByte b) (rest : List Char) :
    outside true (escape bytes ++ '"' :: rest) = '"' :: outside false rest := by
  induction bytes with
  | nil => simp [escape, outside]
  | cons b bytes ih =>
    obtain ⟨hb, hbytes⟩ := List.forall_mem_cons.1 h
    rw [escape, List.flatMap_cons, List.append_assoc, outside_escapeByte hb]
    exact ih hbytes

/-- Not both of two neighbours are dashes. -/
def NotDashes (c d : Char) : Prop :=
  ¬ (c = '-' ∧ d = '-')

/-- A text that may stand anywhere outside of literals: no two dashes in it are neighbours, and none
stands at its ends. -/
structure Tidy (text : List Char) (body : List Char) : Prop where
  outside (rest : List Char) : outside false (text ++ rest) = body ++ outside false rest
  chain : body.IsChain NotDashes
  first : ∀ c ∈ body.head?, c ≠ '-'
  last : ∀ c ∈ body.getLast?, c ≠ '-'

namespace Tidy

variable {text text' body body' : List Char}

theorem append (h : Tidy text body) (h' : Tidy text' body') :
    Tidy (text ++ text') (body ++ body') where
  outside rest := by rw [List.append_assoc, h.outside, h'.outside, List.append_assoc]
  chain := List.isChain_append.2 ⟨h.chain, h'.chain, fun c hc _ _ hdash => h.last c hc hdash.1⟩
  first c hc := by
    rw [List.head?_append] at hc
    rcases Option.or_eq_some_iff.1 hc with hc | ⟨-, hc⟩
    · exact h.first c hc
    · exact h'.first c hc
  last c hc := by
    rw [List.getLast?_append] at hc
    rcases Option.or_eq_some_iff.1 hc with hc | ⟨-, hc⟩
    · exact h'.last c hc
    · exact h.last c hc

/-- A text without dashes and literals. -/
theorem of_not_mem (hdash : '-' ∉ text) (hquote : '"' ∉ text) : Tidy text text where
  outside := outside_append hquote
  chain := by
    induction text with
    | nil => exact .nil
    | cons c text ih =>
      refine List.isChain_cons.2 ⟨fun _ _ h => List.ne_of_not_mem_cons hdash h.1.symm, ?_⟩
      exact ih (List.not_mem_of_not_mem_cons hdash) (List.not_mem_of_not_mem_cons hquote)
  first c hc := fun heq => hdash (heq ▸ List.mem_of_mem_head? hc)
  last c hc := fun heq => hdash (heq ▸ List.mem_of_mem_getLast? hc)

/-- One dash in front of a text, in parentheses. -/
theorem negate (h : Tidy text body) :
    Tidy ('(' :: '-' :: (text ++ [')'])) ('(' :: '-' :: (body ++ [')'])) := by
  have hclose : Tidy [')'] [')'] := of_not_mem (by decide) (by decide)
  have hinside := h.append hclose
  refine ⟨fun rest => ?_, ?_, ?_, ?_⟩
  · have hcons : C.outside false ('(' :: '-' :: (text ++ [')']) ++ rest) =
        '(' :: '-' :: C.outside false (text ++ [')'] ++ rest) := rfl
    rw [hcons, hinside.outside]
    rfl
  · refine List.isChain_cons.2 ⟨fun _ _ hdash => absurd hdash.1 (by decide), ?_⟩
    exact List.isChain_cons.2 ⟨fun c hc hdash => hinside.first c hc hdash.2, hinside.chain⟩
  · simp
  · intro c hc
    rw [← List.cons_append, ← List.cons_append, List.getLast?_append] at hc
    simp at hc
    simp [← hc]

end Tidy

end Chalk.C
