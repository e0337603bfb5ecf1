import Chalk.Proofs.Grammar.Relocation
import Chalk.Proofs.Token.Lexing

/-!
# A newline parts tokens

A character is a stop if no name, no sign and no slash goes on with it (`Lexeme.IsStop`), so that a
text behind it gives no class a piece where it had none. A newline is a stop, and ends every piece
but white space: what is cut from a text is cut from it as well when a newline and any other text
follow (`Lexeme.first?_append_newline`). So the tokens of two texts with a newline between them are
those of the first, without its end, and those of the second, moved behind the first
(`tokenize_append_newline`).
-/

namespace Chalk

namespace Lexeme

variable {c : Char} {cs text rest tail : List Char}

/-! ## Pieces in front of a stop -/

/-- A character that goes on with no name, with no sign, and with no slash to a comment. -/
structure IsStop (c : Char) : Prop where
  name : isNamePart c = false
  sign : c ≠ '=' ∧ c ≠ '>'
  slash : c ≠ '/'

theorem IsStop.isDigit (h : IsStop c) : c.isDigit = false := by
  have hname := h.name
  simp only [isNamePart, Char.isAlphanum, Bool.or_eq_false_iff] at hname
  exact hname.1.2

theorem isStop_newline : IsStop '\n' :=
  ⟨by decide, by decide, by decide⟩

theorem isPrefix_of_append {xs : List Char} (hc : c ∉ xs) (h : xs <+: cs ++ c :: tail) :
    xs <+: cs := by
  have hcs : cs ++ [c] <+: cs ++ c :: tail := ⟨tail, List.append_assoc ..⟩
  rcases List.prefix_or_prefix_of_prefix h hcs with hshort | hlong
  · rcases List.prefix_concat_iff.1 hshort with rfl | hshort
    · exact absurd (by simp) hc
    · exact hshort
  · exact absurd (hlong.subset (by simp)) hc

namespace Class

variable {k : Class}

/-- Nothing but a string begins with a quote. -/
theorem eq_string_of_begins (h : k.Begins '"' cs) : k = string := by
  cases k with
  | name | number | blank => cases h
  | string => rfl
  | comment => cases h.1
  | sign s =>
    obtain ⟨rest, hrest⟩ := h
    cases s <;> cases hrest

/-- A stop and what follows it begin nothing that did not begin before, but for strings. -/
theorem Begins.of_append_stop {d : Char} (h : k.Begins d (cs ++ c :: tail))
    (hstring : k ≠ string) (hstop : IsStop c) : k.Begins d cs := by
  cases k with
  | name | number | blank => exact h
  | string => exact absurd rfl hstring
  | comment =>
    refine ⟨h.1, ?_⟩
    cases cs with
    | nil => exact absurd (Option.some.inj h.2) hstop.slash
    | cons e cs => exact h.2
  | sign s =>
    obtain ⟨x, xs, hspelling⟩ := List.exists_cons_of_ne_nil s.spelling_ne_nil
    have hmore : ∀ e ∈ xs, e = '=' ∨ e = '>' := by
      cases s <;> cases hspelling <;> simp
    have hxs : c ∉ xs := by
      intro hmem
      rcases hmore c hmem with heq | heq
      · exact hstop.sign.1 heq
      · exact hstop.sign.2 heq
    have hlong : s.spelling <+: d :: (cs ++ c :: tail) := h
    change s.spelling <+: d :: cs
    rw [hspelling, List.cons_prefix_cons] at hlong ⊢
    exact ⟨hlong.1, isPrefix_of_append hxs hlong.2⟩

theorem Ends.append_stop (h : k.Ends text rest) (hrest : rest ≠ []) (hstop : IsStop c)
    (tail : List Char) : k.Ends text (rest ++ c :: tail) := by
  obtain ⟨e, rest, rfl⟩ := List.exists_cons_of_ne_nil hrest
  cases k with
  | name | blank | comment => exact h
  | number =>
    refine ⟨h.1, fun hpoint d ds heq => ?_⟩
    cases rest with
    | nil =>
      cases heq
      exact hstop.isDigit
    | cons e rest =>
      cases heq
      exact h.2 hpoint d rest rfl
  | string | sign => trivial

end Class

/-- The first piece stays the first where it ends in front of what follows. -/
theorem first?_append_stop {x : Lexeme} (h : first? cs = some (x, rest)) (hstop : IsStop c)
    (hends : rest = [] → x.cls.Ends x.text (c :: tail)) :
    first? (cs ++ c :: tail) = some (x, rest ++ c :: tail) := by
  have hcut := cut?_of_first? h
  obtain ⟨hcs, -, hrest⟩ := Class.cut?_eq_some_iff.1 hcut
  obtain ⟨d, ds, hx⟩ := List.exists_cons_of_ne_nil (Class.ne_nil_of_cut? hcut)
  have hends' : x.cls.Ends x.text (rest ++ c :: tail) := by
    by_cases hnil : rest = []
    · rw [hnil]
      exact hends hnil
    · exact hrest.append_stop hnil hstop tail
  rw [hcs, List.append_assoc]
  refine first?_of_ends h hends' fun k hk => ?_
  rw [hcs, hx, List.cons_append] at hcut hk
  rw [hx, List.cons_append, ← List.append_assoc, Class.cut?_eq_none_iff]
  rw [Class.cut?_eq_none_iff] at hk
  intro hbegins
  by_cases hstring : k = .string
  · -- The text begins with a quote, so that the first piece is a string itself.
    subst hstring
    obtain rfl := hbegins.1
    have hx := Class.begins_of_cut? hcut
    rw [Class.eq_string_of_begins hx] at hx
    exact hk hx
  · exact hk (hbegins.of_append_stop hstring hstop)

/-- White space is left out, since it goes on with the newline where it takes up all of the text. -/
theorem first?_append_newline {x : Lexeme} (h : first? cs = some (x, rest))
    (hblank : x.cls ≠ .blank) (tail : List Char) :
    first? (cs ++ '\n' :: tail) = some (x, rest ++ '\n' :: tail) := by
  refine first?_append_stop h isStop_newline fun _ => ?_
  cases hcls : x.cls with
  | name => exact fun d hd => Option.some.inj hd ▸ isStop_newline.name
  | number => exact ⟨fun d hd => Option.some.inj hd ▸ isStop_newline.isDigit, fun _ _ _ => nofun⟩
  | blank => exact absurd hcls hblank
  | comment => exact fun d hd => (Option.some.inj hd).symm
  | string | sign => trivial

/-- White space comes off as one piece. -/
theorem first?_blank (hc : Text.isBlank c = true) (cs : List Char) :
    first? (c :: cs) = some (⟨.blank, c :: cs.takeWhile Text.isBlank⟩,
      cs.dropWhile Text.isBlank) :=
  first?_of_cut? (by decide) (if_pos hc)

end Lexeme

namespace Cursor

variable {file : String} {before text rest : List Char}

/-! ## Tokens in front of a newline -/

/-- The tokens of a text are those behind the white space that it begins with. -/
theorem scan_eq_dropWhile (before rest : List Char) :
    (behind file before rest).scan = (behind file (before ++ rest.takeWhile Text.isBlank)
      (rest.dropWhile Text.isBlank)).scan := by
  cases rest with
  | nil => rw [List.takeWhile_nil, List.dropWhile_nil, List.append_nil]
  | cons c rest =>
    by_cases hc : Text.isBlank c = true
    · rw [List.takeWhile_cons_of_pos hc, List.dropWhile_cons_of_pos hc,
        scan_of_first?_eq_some (c := behind file before (c :: rest)) (Lexeme.first?_blank hc rest),
        after_behind]
      cases (behind file _ (rest.dropWhile Text.isBlank)).scan with
      | error e => rfl
      | ok ts => rfl
    · rw [List.takeWhile_cons_of_neg hc, List.dropWhile_cons_of_neg hc, List.append_nil]

theorem scan_blanks {blanks : List Char} (hblanks : ∀ c ∈ blanks, Text.isBlank c = true)
    (before rest : List Char) :
    (behind file before (blanks ++ rest)).scan = (behind file (before ++ blanks) rest).scan := by
  rw [scan_eq_dropWhile before, scan_eq_dropWhile (before ++ blanks),
    List.takeWhile_append_of_pos hblanks, List.dropWhile_append_of_pos hblanks, List.append_assoc]

/-- What a text is cut into comes before the tokens of whatever follows behind a newline. -/
theorem Passes.of_scan {ts : List Token} (h : (behind file before text).scan = .ok ts) :
    ∃ pieces, ts = pieces ++ [.endAt (.behind file (before ++ text))] ∧
      ∀ tail, Passes file before (text ++ ['\n']) tail pieces := by
  refine scan_induction (motive := fun before text r => ∀ ts, r = .ok ts →
    ∃ pieces, ts = pieces ++ [.endAt (.behind file (before ++ text))] ∧
      ∀ tail, Passes file before (text ++ ['\n']) tail pieces) ?_ ?_ ?_ before text ts h
  · intro before ts h
    cases h
    refine ⟨[], by rw [List.append_nil]; rfl, fun tail us hus => ?_⟩
    have hnewline : ∀ c ∈ ['\n'], Text.isBlank c = true := List.forall_mem_singleton.2 rfl
    exact (scan_blanks hnewline before tail).trans hus
  · intro before c cs _ ts h
    cases h
  · intro before text after x r hfirst ih ts h
    cases r with
    | error e => cases h
    | ok us =>
      cases h
      obtain ⟨pieces, rfl, hpasses⟩ := ih us rfl
      have htext := Lexeme.append_of_first? hfirst
      have hcut := Lexeme.cut?_of_first? hfirst
      refine ⟨_, by rw [← htext, List.append_assoc, List.append_assoc], fun tail => ?_⟩
      rw [← htext, List.append_assoc]
      refine Passes.append ?_ (hpasses tail)
      by_cases hblank : x.cls = .blank
      · rw [hblank] at hcut ⊢
        obtain ⟨-, ⟨-, hwhite⟩, -⟩ := Lexeme.cutBlank?_eq_some_iff.1 hcut
        intro us hus
        exact (scan_blanks hwhite before _).trans hus
      · apply Passes.of_first?
        rw [List.append_assoc, ← List.append_assoc, htext]
        exact Lexeme.first?_append_newline hfirst hblank tail

end Cursor

/-! ## Tokens that are moved behind a text -/

namespace Relocation

/-- Moves places behind a text that is put in front of the source. -/
def behind (text : List Char) : Relocation where
  place p :=
    { p with
      offset := p.offset + .ofNat (Text.utf8Length text)
      line := p.line + .ofNat (Text.newlines text) }
  line n := n + .ofNat (Text.newlines text)
  line_place _ := rfl

theorem place_behind (file : String) (text before : List Char) :
    (behind text).place (.behind file before) = .behind file (text ++ before) := by
  simp only [behind, Position.behind, Position.mk.injEq, and_true, Text.utf8Length_append,
    Text.newlines, List.count_append, ← UInt32.ofNat_add]
  constructor
  · rw [Nat.add_comm]
  · rw [Nat.add_assoc, Nat.add_comm (List.count _ before)]

theorem token?_place (m : Relocation) (k : Lexeme.Class) (text : List Char) (p q : Position) :
    k.token? text ⟨m.place p, m.place q⟩ = (k.token? text ⟨p, q⟩).map m.token := by
  cases k with
  | _ => rfl

end Relocation

/-- Where each place of a text is moved behind a text in front of it, so are the tokens and a
fault. -/
theorem Cursor.scan_relocate (m : Relocation) {file file' : String} {front : List Char}
    (hplace : ∀ before, m.place (.behind file before) = .behind file' (front ++ before))
    (before rest : List Char) :
    (behind file' (front ++ before) rest).scan =
      ((behind file before rest).scan.mapError m.fault).map (List.map m.token) := by
  refine scan_induction (motive := fun before rest r => (behind file' (front ++ before) rest).scan =
    (r.mapError m.fault).map (List.map m.token)) ?_ ?_ ?_ before rest
  · intro before
    rw [scan_of_rest_eq_nil rfl]
    show Except.ok [Token.endAt (.behind file' (front ++ before))] = _
    rw [← hplace]
    rfl
  · intro before c cs hfirst
    rw [scan_of_first?_eq_none (c := behind file' (front ++ before) (c :: cs)) rfl hfirst]
    show Except.error (SyntaxError.mk _ (.behind file' (front ++ before))) = _
    rw [← hplace]
    rfl
  · intro before rest after x r hfirst ih
    rw [scan_of_first?_eq_some (c := behind file' (front ++ before) rest) hfirst, after_behind,
      List.append_assoc, ih]
    cases r with
    | error e => rfl
    | ok ts =>
      show Except.ok ((x.cls.token? x.text ⟨.behind file' (front ++ before),
        .behind file' (front ++ (before ++ x.text))⟩).toList ++ _) = _
      rw [← hplace, ← hplace, Relocation.token?_place]
      show _ = Except.ok (List.map _ (_ ++ ts))
      rw [List.map_append, Option.toList_map]

/-- The tokens of two sources with a newline between them: those of the first up to its end, and
those of the second, moved. -/
theorem tokenize_append_newline {a b file : String} {ts us : List Token}
    (ha : tokenize a file = .ok ts) (hb : tokenize b file = .ok us) :
    ∃ pieces, ts = pieces ++ [.endAt (.behind file a.toList)] ∧
      tokenize (a ++ "\n" ++ b) file =
        .ok (pieces ++ us.map (Relocation.behind (a.toList ++ ['\n'])).token) := by
  have hscan : (Cursor.behind file [] a.toList).scan = .ok ts := ha
  obtain ⟨pieces, rfl, hpasses⟩ := Cursor.Passes.of_scan hscan
  refine ⟨pieces, rfl, ?_⟩
  have hmoved := Cursor.scan_relocate (.behind (a.toList ++ ['\n']))
    (Relocation.place_behind file (a.toList ++ ['\n'])) [] b.toList
  rw [show (Cursor.behind file [] b.toList).scan = .ok us from hb, List.append_nil] at hmoved
  have htext : (a ++ "\n" ++ b).toList = a.toList ++ ['\n'] ++ b.toList := by simp
  rw [tokenize, Cursor.ofText, htext]
  exact hpasses b.toList _ hmoved

end Chalk
