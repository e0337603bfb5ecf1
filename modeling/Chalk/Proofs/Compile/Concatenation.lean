import Chalk.Proofs.Grammar.Contents
import Chalk.Proofs.Grammar.EarliestFault
import Chalk.Proofs.Text.Lines
import Chalk.Proofs.Token.Concatenation
import Chalk.Proofs.Token.Visible

/-!
# Sources one behind the other

A source that is put behind another one, with a newline between them, is read as it is read alone,
and so is the one in front (`read_append_newline`): no piece of the first goes on in the second, and
no statement either, since what begins a statement goes on with none. The places and lines of the
second are moved by what stands in front. They are 32-bit words, and no word overflows as long as
the two sources and the newline together are shorter than `2 ^ 32` bytes.
-/

namespace Chalk

open Text

/-! ## Programs one behind the other -/

theorem Derives.stmts_append {reads : String → Number → Prop} {p q : Program} {ts us : List Token}
    (hp : Derives reads (.stmts p) ts) (hq : Derives reads (.stmts q) us) :
    Derives reads (.stmts (p ++ q)) (ts ++ us) := by
  induction p generalizing ts with
  | nil =>
    cases hp
    exact hq
  | cons s p ih =>
    cases hp with
    | moreStmts first rest =>
      rw [List.append_assoc]
      exact .moreStmts first (ih rest)

/-- What is read from tokens with one end behind them is what they derive. -/
theorem parse_append_end_iff {pieces : List Token} {place : Position} {file : String} {p : Program}
    (hkinds : ∀ t ∈ pieces, t.kind ≠ .eof) :
    parse (pieces ++ [.endAt place]) file = .ok p ↔ Derives Number.Read (.stmts p) pieces := by
  constructor
  · intro h
    obtain ⟨us, s', hreads, hend, hderives⟩ := exists_reads_of_parse h
    have htake := hreads.takeWhile_tokens_of_end hend
    rw [Stream.tokens_ofTokens_of_end,
      List.takeWhile_append_of_pos (by simpa using hkinds)] at htake
    simp only [Token.endAt, ne_eq, not_true_eq_false, decide_false, Bool.false_eq_true,
      not_false_eq_true, List.takeWhile_cons_of_neg, List.append_nil] at htake
    rw [htake]
    exact hderives
  · intro h
    exact h.parse_eq_ok place file

theorem parse_append {pieces pieces' : List Token} {place place' : Position} {file : String}
    {p q : Program} (hkinds : ∀ t ∈ pieces, t.kind ≠ .eof) (hkinds' : ∀ t ∈ pieces', t.kind ≠ .eof)
    (hp : parse (pieces ++ [.endAt place]) file = .ok p)
    (hq : parse (pieces' ++ [.endAt place']) file = .ok q) :
    parse (pieces ++ pieces' ++ [.endAt place']) file = .ok (p ++ q) := by
  apply (parse_append_end_iff (List.forall_mem_append.2 ⟨hkinds, hkinds'⟩)).2
  apply Derives.stmts_append
  · exact (parse_append_end_iff hkinds).1 hp
  · exact (parse_append_end_iff hkinds').1 hq

/-! ## Places that are moved -/

theorem toNat_add_ofNat {n : UInt32} {k : Nat} (h : n.toNat + k < UInt32.size) :
    (n + .ofNat k).toNat = n.toNat + k := by
  have hk : (UInt32.ofNat k).toNat = k := UInt32.toNat_ofNat_of_lt' (by omega)
  rw [UInt32.toNat_add, hk, Nat.mod_eq_of_lt h]

/-- The offsets of tokens lie inside of their source. -/
theorem Lossless.offset_le {source : List Char} {start : Nat} {pieces : List Token} {last : Token}
    (h : Lossless source start pieces last) :
    ∀ t ∈ pieces ++ [last], ∀ place ∈ [t.span.start, t.span.stop],
      place.offset.toNat ≤ (utf8 source).length := by
  intro t ht place hplace
  simp only [List.mem_cons, List.not_mem_nil, or_false] at hplace
  rcases List.mem_append.1 ht with ht | ht
  · have hinside := h.inside t ht
    have hnonempty := h.nonempty t ht
    rcases hplace with rfl | rfl
    · omega
    · exact hinside.2
  · cases List.mem_singleton.1 ht
    rcases hplace with rfl | rfl
    · exact Nat.le_of_eq h.last_start
    · exact Nat.le_of_eq h.last_stop

theorem Lossless.line_le {source : List Char} {start : Nat} {pieces : List Token} {last : Token}
    (h : Lossless source start pieces last) :
    ∀ t ∈ pieces ++ [last], ∀ place ∈ [t.span.start, t.span.stop],
      place.line.toNat ≤ 1 + newlines source := by
  intro t ht place hplace
  rw [h.lines t ht place hplace, UInt32.toNat_ofNat']
  exact Nat.le_trans (Nat.mod_le _ _) (lineAt_le source _)

/-- The lines of a text can be counted by words, unless it is as long as can be and all newlines. -/
theorem newlines_lt {source : List Char} (hsize : utf8Length source < UInt32.size)
    (hne : source ≠ List.replicate (UInt32.size - 1) '\n') : 1 + newlines source < UInt32.size := by
  have hlast : lineAt (source ++ []) (utf8Length source) = 1 + newlines source := lineAt_append
  rw [List.append_nil] at hlast
  rw [← hlast]
  exact lineAt_lt hsize hne _

namespace Relocation

variable {a b : List Char} {pieces : List Token} {last : Token}

/-- Behind a text and a newline the offsets grow by the bytes of the text and one more. -/
theorem toNat_offset_behind (hsize : utf8Length a + utf8Length b < UInt32.size - 1)
    (h : Lossless b 0 pieces last) {t : Token} (ht : t ∈ pieces ++ [last]) {place : Position}
    (hplace : place ∈ [t.span.start, t.span.stop]) :
    ((behind (a ++ ['\n'])).place place).offset.toNat =
      place.offset.toNat + ((utf8 a).length + 1) := by
  have hoffset := h.offset_le t ht place hplace
  have hbytes : utf8Length (a ++ ['\n']) = (utf8 a).length + 1 := by
    rw [utf8Length_append, length_utf8]
    rfl
  rw [length_utf8] at hoffset
  rw [← hbytes]
  apply toNat_add_ofNat
  rw [hbytes, length_utf8]
  omega

/-- The lines grow by the newlines of the text and one more. -/
theorem toNat_line_behind (hsize : utf8Length a + utf8Length b < UInt32.size - 1)
    (hne : a ++ '\n' :: b ≠ List.replicate (UInt32.size - 1) '\n') (h : Lossless b 0 pieces last)
    {t : Token} (ht : t ∈ pieces ++ [last]) {place : Position}
    (hplace : place ∈ [t.span.start, t.span.stop]) :
    ((behind (a ++ ['\n'])).line place.line).toNat = place.line.toNat + (newlines a + 1) := by
  have hline := h.line_le t ht place hplace
  have hbytes : utf8Length (a ++ '\n' :: b) = utf8Length a + (1 + utf8Length b) := by
    rw [utf8Length_append]
    rfl
  have hall := newlines_lt (by omega) hne
  have hcount : newlines (a ++ ['\n']) = newlines a + 1 := List.count_append
  have hsplit : newlines (a ++ '\n' :: b) = newlines a + 1 + newlines b := by
    rw [← hcount, ← newlines_append, List.append_assoc]
    rfl
  rw [← hcount]
  apply toNat_add_ofNat
  omega

end Relocation

/-- Only the last token of a source is an end. -/
theorem ne_eof_of_tokenize {source file : String} {pieces : List Token} {last : Token}
    (h : tokenize source file = .ok (pieces ++ [last])) : ∀ t ∈ pieces, t.kind ≠ .eof := by
  have hlaid : Laid file [] source.toList (pieces ++ [last]) := Cursor.laid_of_scan h
  obtain ⟨pieces', heq, hkinds⟩ := hlaid.eq_append_end
  rw [(List.append_singleton_inj.1 heq).1]
  exact hkinds

/-- Of two sources that can be read, the first and, behind a newline, the second are read as one:
the tokens and statements of the first as they are, up to its end, then those of the second, moved.
A place of the second is moved by the bytes of the first and the newline, and a line by the newlines
there. The line of the end is too large for a word in the longest source of nothing but newlines. -/
theorem read_append_newline {a b file : String} {ts us : List Token} {p q : Program}
    (hsize : (utf8 a.toList).length + (utf8 b.toList).length < UInt32.size - 1)
    (hta : tokenize a file = .ok ts) (hp : parse ts file = .ok p)
    (htb : tokenize b file = .ok us) (hq : parse us file = .ok q) :
    let m := Relocation.behind (a.toList ++ ['\n'])
    ∃ pieces last, ts = pieces ++ [last] ∧ last.kind = .eof ∧
      tokenize (a ++ "\n" ++ b) file = .ok (pieces ++ us.map m.token) ∧
      parse (pieces ++ us.map m.token) file = .ok (p ++ q.map m.stmt) ∧
      (∀ u ∈ us, ∀ place ∈ [u.span.start, u.span.stop],
        (m.place place).file = place.file ∧
        (m.place place).offset.toNat = place.offset.toNat + ((utf8 a.toList).length + 1) ∧
        ((a ++ "\n" ++ b).toList ≠ List.replicate (UInt32.size - 1) '\n' →
          (m.place place).line.toNat = place.line.toNat + (newlines a.toList + 1))) ∧
      ∀ line ∈ Stmt.notesList q, ∃ n, line = some n ∧
        (m.line n).toNat = n.toNat + (newlines a.toList + 1) := by
  intro m
  obtain ⟨pieces, rfl, htokens⟩ := tokenize_append_newline hta htb
  obtain ⟨pieces', rfl, hvisible⟩ := exists_pieces_of_tokenize htb
  have hkinds := ne_eof_of_tokenize hta
  have hkinds' := ne_eof_of_tokenize htb
  rw [length_utf8, length_utf8] at hsize
  have hlaid : Laid file [] b.toList _ := Cursor.laid_of_scan htb
  obtain ⟨pieces'', last, heq, hlossless⟩ := hlaid.lossless (show utf8Length b.toList < _ by omega)
  have htext : (a ++ "\n" ++ b).toList = a.toList ++ '\n' :: b.toList := by simp
  have hmoved : parse ((pieces' ++ [Token.endAt (.behind file b.toList)]).map m.token) file =
      .ok (q.map m.stmt) := by
    rw [parse_relocate m _ file file, hq]
    rfl
  have hend : (pieces' ++ [Token.endAt (.behind file b.toList)]).map m.token =
      pieces'.map m.token ++ [Token.endAt (m.place (.behind file b.toList))] := List.map_append
  have hkinds'' : ∀ t ∈ pieces'.map m.token, t.kind ≠ .eof := List.forall_mem_map.2 hkinds'
  refine ⟨pieces, _, rfl, rfl, htokens, ?_, fun u hu place hplace => ?_, ?_⟩
  · rw [hend, ← List.append_assoc]
    rw [hend] at hmoved
    exact parse_append hkinds hkinds'' hp hmoved
  · rw [heq] at hu
    refine ⟨rfl, Relocation.toNat_offset_behind hsize hlossless hu hplace, fun hne => ?_⟩
    rw [htext] at hne
    exact Relocation.toNat_line_behind hsize hne hlossless hu hplace
  · -- the lines in the program are those of tokens, each of which begins with a visible character
    refine ((parse_append_end_iff hkinds').1 hq).forall_notes fun t ht => ⟨t.line, rfl, ?_⟩
    have hmem : t ∈ pieces'' ++ [last] := heq ▸ List.mem_append_left _ ht
    refine Relocation.toNat_line_behind hsize (fun hall => ?_) hlossless hmem
      (List.mem_cons_self (a := t.span.start))
    obtain ⟨pre, c, post, hb, hblank, -⟩ := hvisible t ht
    have hc : c ∈ a.toList ++ '\n' :: b.toList := by simp [hb]
    rw [hall] at hc
    rw [List.eq_of_mem_replicate hc] at hblank
    cases hblank

/-- A branch that could go on with an alternative, and a comment at the end. -/
def openBranch : String :=
  "mut x: int = 1;\nif x > 0 \x7b x = 2; \x7d // é"

/-- A source whose string holds a newline. -/
def brokenString : String :=
  "print(\"else\n//\");\nlet y: float = 0.5;"

theorem exists_read_of_isOk {source file : String}
    (h : ((tokenize source file).bind (parse · file)).isOk = true) :
    ∃ ts p, tokenize source file = .ok ts ∧ parse ts file = .ok p := by
  cases htokens : tokenize source file with
  | error e =>
    rw [htokens] at h
    cases h
  | ok ts =>
    cases hparse : parse ts file with
    | error e =>
      rw [htokens, Except.bind, hparse] at h
      cases h
    | ok p => exact ⟨ts, p, rfl, hparse⟩

theorem read_openBranch_brokenString :
    ∃ ts us p q, tokenize openBranch "main" = .ok ts ∧ parse ts "main" = .ok p ∧
      tokenize brokenString "main" = .ok us ∧ parse us "main" = .ok q ∧
      (utf8 openBranch.toList).length + (utf8 brokenString.toList).length < UInt32.size - 1 ∧
      let m := Relocation.behind (openBranch.toList ++ ['\n'])
      ∃ pieces, tokenize (openBranch ++ "\n" ++ brokenString) "main" =
          .ok (pieces ++ us.map m.token) ∧
        parse (pieces ++ us.map m.token) "main" = .ok (p ++ q.map m.stmt) := by
  obtain ⟨ts, p, hta, hp⟩ : ∃ ts p, tokenize openBranch "main" = .ok ts ∧
      parse ts "main" = .ok p := exists_read_of_isOk (by decide +kernel)
  obtain ⟨us, q, htb, hq⟩ : ∃ us q, tokenize brokenString "main" = .ok us ∧
      parse us "main" = .ok q := exists_read_of_isOk (by decide +kernel)
  have hsize : (utf8 openBranch.toList).length + (utf8 brokenString.toList).length <
      UInt32.size - 1 := by decide +kernel
  obtain ⟨pieces, last, -, -, htokens, hparse, -⟩ := read_append_newline hsize hta hp htb hq
  exact ⟨ts, us, p, q, hta, hp, htb, hq, hsize, pieces, htokens, hparse⟩

end Chalk
