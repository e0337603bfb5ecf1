import Chalk.Proofs.Token.Lossless

/-!
# The first piece is the longest

The classes are tried in order, and the first that has a piece is taken. The order is such that this
piece is also the longest there is (`Lexeme.longest_of_first?`): where two classes have a piece, that
of the earlier one goes on with that of the later one (`Lexeme.Class.pairwise_outranks`), and each
class by itself takes as much as it can (`Lexeme.Class.isPrefix_of_forms`).

In a round of cutting the cursor goes over a piece by a number of bytes. This brings it behind the
piece and never into a character, so the rounds end, at the end of the text or at a character that
begins no piece (`first_piece_longest`).
-/

namespace Chalk

namespace Text

theorem length_utf8_le_of_isPrefix {start text : List Char} (h : start <+: text) :
    (utf8 start).length ≤ (utf8 text).length := by
  obtain ⟨more, rfl⟩ := h
  simp [length_utf8]

theorem length_utf8_lt_of_isPrefix {start text : List Char} (h : start <+: text)
    (hne : start ≠ text) : (utf8 start).length < (utf8 text).length := by
  obtain ⟨more, rfl⟩ := h
  have hmore : more ≠ [] := by
    rintro rfl
    exact hne (List.append_nil start).symm
  have hpos := utf8Length_pos hmore
  rw [length_utf8, length_utf8, utf8Length_append]
  omega

end Text

open Text

namespace Lexeme

variable {cs text rest : List Char}

namespace Class

/-! ## Each class takes as much as it can -/

theorem mem_all (k : Class) : k ∈ all := by
  cases k with
  | name | number | blank | string | comment => decide
  | sign s => exact List.mem_append_right _ (List.mem_map_of_mem s.mem_all)

theorem ends_nil (k : Class) (text : List Char) : k.Ends text [] := by
  cases k <;> simp [Ends]

/-- A text of the form of a class is a piece of it if nothing follows. -/
theorem cut?_of_forms {k : Class} (h : k.Forms text) : k.cut? text = some (text, []) :=
  cut?_eq_some_iff.2 ⟨(List.append_nil text).symm, h, k.ends_nil text⟩

/-- What a text begins with and has the form of a class is not longer than the piece of the class. -/
theorem isPrefix_of_forms {k : Class} {start : List Char} (h : k.cut? cs = some (text, rest))
    (hstart : k.Forms start) (hcs : start <+: cs) : start <+: text := by
  obtain ⟨rfl, htext, hends⟩ := cut?_eq_some_iff.1 h
  rcases List.prefix_or_prefix_of_prefix hcs (List.prefix_append text rest) with hle | hle
  · exact hle
  · -- The longer text would be cut in two ways if nothing followed it.
    obtain ⟨more, rfl⟩ := hle
    have hmore : more <+: rest := (List.prefix_append_right_inj text).1 hcs
    have hshort : k.cut? (text ++ more) = some (text, more) :=
      cut?_eq_some_iff.2 ⟨rfl, htext, hends.of_isPrefix hmore⟩
    have hnil : more = [] := by
      have heq := (cut?_of_forms hstart).symm.trans hshort
      exact (congrArg Prod.snd (Option.some.inj heq)).symm
    rw [hnil, List.append_nil]

/-- A class has a piece where the text begins with something of its form. -/
theorem exists_cut?_of_forms {k : Class} {start : List Char} (hstart : k.Forms start)
    (hcs : start <+: cs) : ∃ text rest, k.cut? cs = some (text, rest) := by
  have hcut := cut?_of_forms hstart
  obtain ⟨c, ds, rfl⟩ := List.exists_cons_of_ne_nil (ne_nil_of_cut? hcut)
  obtain ⟨more, rfl⟩ := hcs
  exact ((begins_of_cut? hcut).of_isPrefix (List.prefix_append ds more)).exists_cut?

/-! ## The order of the classes -/

/-- Where both classes have a piece, that of the first goes on with that of the second. -/
def Outranks (j k : Class) : Prop :=
  ∀ ⦃cs text rest text' rest' : List Char⦄, j.cut? cs = some (text, rest) →
    k.cut? cs = some (text', rest') → text' <+: text ∧ text' ≠ text

/-- Only a comment begins with the same character as a sign. -/
theorem comment_of_codes {k : Class} (hk : k ∈ simple) {s : Sign} {c : Char} {ds : List Char}
    (hspelling : s.spelling = c :: ds) (hcode : k.Codes c.toNat) :
    k = comment ∧ s = .slash := by
  cases s <;> cases hspelling <;> cases k <;> simp [Codes, simple] at hcode hk ⊢

theorem outranks_sign {k : Class} (hk : k ∈ simple) (s : Sign) : k.Outranks (sign s) := by
  intro cs text rest text' rest' hcut hsign
  obtain ⟨hcs, htext, -⟩ := cut?_eq_some_iff.1 hcut
  obtain ⟨hcs', htext', -⟩ := cut?_eq_some_iff.1 hsign
  obtain ⟨c, ds, hspelling⟩ := List.exists_cons_of_ne_nil s.spelling_ne_nil
  have hcons : cs = c :: (ds ++ rest') := by
    rw [hcs', show text' = s.spelling from htext', hspelling, List.cons_append]
  rw [hcons] at hcut
  obtain ⟨rfl, rfl⟩ := comment_of_codes hk hspelling (begins_of_cut? hcut).codes
  -- a comment begins with two slashes
  obtain ⟨body, -, rfl⟩ := htext
  cases htext'
  exact ⟨⟨'/' :: body, rfl⟩, by simp [Sign.spelling]⟩

/-- No sign is the beginning of a later one. -/
theorem pairwise_spelling : Sign.all.Pairwise fun s t => ¬ s.spelling <+: t.spelling := by
  decide

theorem sign_outranks {s t : Sign} (h : ¬ s.spelling <+: t.spelling) :
    (sign s).Outranks (sign t) := by
  intro cs text rest text' rest' hs ht
  obtain ⟨hcs, rfl, -⟩ := cut?_eq_some_iff.1 hs
  obtain ⟨hcs', rfl, -⟩ := cut?_eq_some_iff.1 ht
  have hle : s.spelling <+: t.spelling ∨ t.spelling <+: s.spelling :=
    List.prefix_or_prefix_of_prefix ⟨rest, hcs.symm⟩ ⟨rest', hcs'.symm⟩
  refine ⟨hle.resolve_left h, fun heq => h ?_⟩
  rw [heq]

/-- Each class outranks those behind it. -/
theorem pairwise_outranks : all.Pairwise Outranks := by
  refine List.pairwise_append.2 ⟨?_, ?_, fun j hj k hk => ?_⟩
  · have hnodup : simple.Nodup := by decide
    refine hnodup.imp_of_mem fun hj hk hne => ?_
    intro cs text rest text' rest' hcut hcut'
    exact absurd (eq_of_cut? hj hk hcut hcut') hne
  · exact List.pairwise_map.2 (pairwise_spelling.imp sign_outranks)
  · obtain ⟨s, -, rfl⟩ := List.mem_map.1 hk
    exact outranks_sign hj s

theorem outranks_of_mem {before after : List Class} {j k : Class}
    (hall : all = before ++ k :: after) (hj : j ∈ after) : k.Outranks j := by
  have hpairwise := pairwise_outranks
  rw [hall] at hpairwise
  exact List.rel_of_pairwise_cons (List.pairwise_append.1 hpairwise).2.1 hj

end Class

/-! ## The piece that is taken -/

/-- The piece `x` comes first in front of `rest`, by the order of the classes, and no other is as
long. -/
structure Longest (cs : List Char) (x : Lexeme) (rest : List Char) : Prop where
  piece : x.cls.cut? cs = some (x.text, rest)
  /-- The classes before that of the piece have none, and those behind it have shorter ones. -/
  order : ∃ before after, Class.all = before ++ x.cls :: after ∧
    (∀ k ∈ before, k.cut? cs = none) ∧
    ∀ k ∈ after, ∀ text' rest', k.cut? cs = some (text', rest') →
      (utf8 text').length < (utf8 x.text).length
  /-- Whatever else the text begins with that has the form of a class is shorter. -/
  unique : ∀ k start, Class.Forms k start → start <+: cs →
    k = x.cls ∧ start = x.text ∨ (utf8 start).length < (utf8 x.text).length
  nonempty : 0 < (utf8 x.text).length

theorem longest_of_first? {x : Lexeme} (h : first? cs = some (x, rest)) : Longest cs x rest := by
  have hcut := cut?_of_first? h
  obtain ⟨before, k, after, hall, hk, hnone⟩ := List.findSome?_eq_some_iff.1 h
  obtain ⟨⟨text, r⟩, -, heq⟩ := Option.map_eq_some_iff.1 hk
  cases heq
  have hbefore : ∀ j ∈ before, j.cut? cs = none := fun j hj => Option.map_eq_none_iff.1 (hnone j hj)
  have hafter : ∀ j ∈ after, ∀ text' rest', j.cut? cs = some (text', rest') →
      (utf8 text').length < (utf8 text).length := by
    intro j hj text' rest' hcut'
    obtain ⟨hle, hne⟩ := Class.outranks_of_mem hall hj hcut hcut'
    exact length_utf8_lt_of_isPrefix hle hne
  refine ⟨hcut, ⟨before, after, hall, hbefore, hafter⟩, fun j start hstart hcs => ?_, ?_⟩
  · obtain ⟨text', rest', hcut'⟩ := Class.exists_cut?_of_forms hstart hcs
    have hle := Class.isPrefix_of_forms hcut' hstart hcs
    have hmem := j.mem_all
    rw [hall, List.mem_append, List.mem_cons] at hmem
    rcases hmem with hj | rfl | hj
    · rw [hbefore j hj] at hcut'
      cases hcut'
    · rw [hcut] at hcut'
      cases hcut'
      by_cases heq : start = text
      · exact .inl ⟨rfl, heq⟩
      · exact .inr (length_utf8_lt_of_isPrefix hle heq)
    · exact .inr (Nat.lt_of_le_of_lt (length_utf8_le_of_isPrefix hle) (hafter j hj _ _ hcut'))
  · rw [length_utf8]
    exact utf8Length_pos (Class.ne_nil_of_cut? hcut)

theorem first?_eq_none_iff_forall : first? cs = none ↔ ∀ k ∈ Class.all, k.cut? cs = none := by
  simp only [first?, List.findSome?_eq_none_iff, Option.map_eq_none_iff]

end Lexeme

/-! ## Rounds of cutting -/

namespace Cursor

variable {file : String} {before cs : List Char}

/-- A number of rounds and the tokens they give. In each the cursor goes over the first piece. -/
inductive Rounds : Nat → List Token → Cursor → Cursor → Prop
  | none {c : Cursor} : Rounds 0 [] c c
  | next {n : Nat} {ts : List Token} {c d e : Cursor} {x : Lexeme} {rest : List Char}
      (piece : Lexeme.first? c.rest = some (x, rest))
      (moves : c.advance? (x.cls.stride x.text) = some d) (later : Rounds n ts d e) :
      Rounds (n + 1) ((x.cls.token? x.text ⟨c.position, d.position⟩).toList ++ ts) c e

/-- Rounds lead from one place between characters to another, with a byte passed in each at least. -/
theorem Rounds.exists_behind {n : Nat} {ts : List Token} {d : Cursor}
    (h : Rounds n ts (behind file before cs) d) :
    ∃ text rest, cs = text ++ rest ∧ d = behind file (before ++ text) rest ∧
      n ≤ (utf8 text).length := by
  generalize hc : behind file before cs = c at h
  induction h generalizing before cs with
  | none => exact ⟨[], cs, rfl, by rw [← hc, List.append_nil], Nat.zero_le _⟩
  | @next n _ _ _ _ x rest piece moves _ ih =>
    subst hc
    have hmoves := (advance?_of_first? piece).symm.trans moves
    rw [after_behind] at hmoves
    obtain ⟨text, rest', rfl, rfl, hn⟩ := ih (Option.some.inj hmoves)
    have hpos := (Lexeme.longest_of_first? piece).nonempty
    refine ⟨x.text ++ text, rest', ?_, by rw [List.append_assoc], ?_⟩
    · rw [List.append_assoc]
      exact (Lexeme.append_of_first? piece).symm
    · rw [length_utf8, utf8Length_append, ← length_utf8, ← length_utf8]
      omega

/-- No round can be made at the cursor, and this is what comes of the tokens so far. -/
inductive Stops (c : Cursor) (ts : List Token) : Except SyntaxError (List Token) → Prop
  | atEnd (rest : c.rest = []) : Stops c ts (.ok (ts ++ [.endAt c.position]))
  | fault {char : Char} {cs : List Char} (rest : c.rest = char :: cs)
      (none : ∀ k ∈ Lexeme.Class.all, k.cut? c.rest = none) :
      Stops c ts (.error ⟨.unrecognised (String.ofList [char]), c.position⟩)

/-- The tokens from a place on are those of the rounds that can be made there. -/
theorem exists_rounds_of_scan (file : String) (before cs : List Char) :
    ∃ n ts c, Rounds n ts (behind file before cs) c ∧
      c.Stops ts (behind file before cs).scan := by
  refine scan_induction (motive := fun before cs r => ∃ n ts c,
    Rounds n ts (behind file before cs) c ∧ c.Stops ts r) (fun before => ?_)
    (fun before c cs hnone => ?_) (fun before cs after x r hfirst ih => ?_) before cs
  · exact ⟨0, [], behind file before [], .none, .atEnd rfl⟩
  · exact ⟨0, [], behind file before (c :: cs), .none,
      .fault rfl (Lexeme.first?_eq_none_iff_forall.1 hnone)⟩
  · obtain ⟨n, ts, c, hrounds, hstops⟩ := ih
    have hmoves : (behind file before cs).advance? (x.cls.stride x.text) =
        some (behind file (before ++ x.text) after) := by
      rw [advance?_of_first? hfirst, after_behind]
    refine ⟨n + 1, _, c, .next hfirst hmoves hrounds, ?_⟩
    cases hstops with
    | atEnd hrest =>
      rw [Except.map, ← List.append_assoc]
      exact .atEnd hrest
    | fault hrest hnone => exact .fault hrest hnone

end Cursor

/-- Wherever a class has a piece in a source, the first class that has one has the longest, and the
cursor goes over it by the number of its bytes and comes behind it. So all rounds lead to places
between characters, and there are no more of them than bytes. They stop at the end of the source or
at a character that begins no piece, and the tokens of the source are those that they give. -/
theorem first_piece_longest (source file : String) :
    (∀ before cs, source.toList = before ++ cs → (∃ k ∈ Lexeme.Class.all, k.cut? cs ≠ none) →
      ∃ x rest, Lexeme.first? cs = some (x, rest) ∧ Lexeme.Longest cs x rest ∧
        x.cls.stride x.text = (utf8 x.text).length ∧ source.toList = before ++ x.text ++ rest ∧
        (Cursor.behind file before cs).advance? (x.cls.stride x.text) =
          some (.behind file (before ++ x.text) rest)) ∧
    (∀ n ts c, Cursor.Rounds n ts (.ofText source file) c →
      ∃ before rest, source.toList = before ++ rest ∧ c = .behind file before rest ∧
        n ≤ (utf8 before).length) ∧
    ∃ n ts c, Cursor.Rounds n ts (.ofText source file) c ∧ c.Stops ts (tokenize source file) := by
  refine ⟨fun before cs hsource hpiece => ?_, fun n ts c h => ?_, ?_⟩
  · obtain ⟨k, hk, hcut⟩ := hpiece
    cases hfirst : Lexeme.first? cs with
    | none => exact absurd (Lexeme.first?_eq_none_iff_forall.1 hfirst k hk) hcut
    | some found =>
      obtain ⟨x, rest⟩ := found
      have hmoves := Cursor.advance?_of_first? (c := .behind file before cs) hfirst
      rw [Cursor.after_behind] at hmoves
      refine ⟨x, rest, rfl, Lexeme.longest_of_first? hfirst, ?_, ?_, hmoves⟩
      · rw [Lexeme.Class.stride_of_cut? (Lexeme.cut?_of_first? hfirst), length_utf8]
      · rw [hsource, List.append_assoc, Lexeme.append_of_first? hfirst]
  · have hstart : Cursor.ofText source file = .behind file [] source.toList := rfl
    rw [hstart] at h
    exact h.exists_behind
  · exact Cursor.exists_rounds_of_scan file [] source.toList

/-- Behind a space of three bytes, a dash has a piece where an arrow has a longer one. -/
theorem longest_arrow : ∃ x rest, Lexeme.first? ['-', '>', 'x'] = some (x, rest) ∧
    x.cls = .sign .arrow ∧ Lexeme.Longest ['-', '>', 'x'] x rest ∧
    (Cursor.behind "main" ['\u3000'] ['-', '>', 'x']).advance? 2 =
      some (.behind "main" ['\u3000', '-', '>'] ['x']) := by
  have hdash : Lexeme.Class.sign .dash ∈ Lexeme.Class.all ∧
      (Lexeme.Class.sign .dash).cut? ['-', '>', 'x'] ≠ none := by decide
  have hsource : "\u3000->x".toList = ['\u3000'] ++ ['-', '>', 'x'] := by decide
  obtain ⟨x, rest, hfirst, hlongest, -, -, hmoves⟩ :=
    (first_piece_longest "\u3000->x" "main").1 _ _ hsource ⟨_, hdash⟩
  have harrow : Lexeme.first? ['-', '>', 'x'] = some (⟨.sign .arrow, ['-', '>']⟩, ['x']) := by
    decide
  cases hfirst.symm.trans harrow
  exact ⟨_, _, hfirst, rfl, hlongest, hmoves⟩

end Chalk
