import Chalk.Proofs.Grammar.Completeness
import Chalk.Proofs.Grammar.Numeral

/-!
# The programs that are accepted

A list of tokens counts up to its first end of the text, and one without an end is as good as one
with it (`Stream.takeWhile_ofTokens`). On what counts, reading a program is deriving it: the program
that is read is derived, since the parts of the grammar are sound, and a program that is derived is
read, since reading settles on it and the depth allowed is enough for the tokens.
-/

namespace Chalk

open Chalk.Grammar

namespace Stream

theorem tokens_ofTokens (ts : List Token) (file : String) :
    (ofTokens ts file).tokens = ts ∧ (∃ t ∈ ts, t.kind = .eof) ∨
      ∃ place, (ofTokens ts file).tokens = ts ++ [.endAt place] := by
  cases ts with
  | nil => exact .inr ⟨.start file, rfl⟩
  | cons t ts =>
    have hlast : ts.getLastD t ∈ t :: ts := by
      rw [← List.getLast_eq_getLastD]
      exact List.getLast_mem (by simp)
    rw [ofTokens, tokens]
    split
    · next hend => exact .inl ⟨rfl, _, hlast, hend⟩
    · exact .inr ⟨_, rfl⟩

theorem tokens_ofTokens_of_end (ts : List Token) (place : Position) (file : String) :
    (ofTokens (ts ++ [.endAt place]) file).tokens = ts ++ [.endAt place] := by
  cases ts with
  | nil => rfl
  | cons t ts =>
    have hlast : (ts ++ [Token.endAt place]).getLastD t = .endAt place := by
      rw [List.getLastD_concat]
    rw [List.cons_append, ofTokens, tokens, hlast]
    rfl

theorem takeWhile_ofTokens (ts : List Token) (file : String) :
    (ofTokens ts file).tokens.takeWhile (·.kind ≠ .eof) = ts.takeWhile (·.kind ≠ .eof) := by
  rcases tokens_ofTokens ts file with ⟨htokens, -⟩ | ⟨place, htokens⟩
  · rw [htokens]
  · rw [htokens]
    clear htokens
    induction ts with
    | nil => rfl
    | cons t ts ih => rw [List.cons_append, List.takeWhile_cons, List.takeWhile_cons, ih]

theorem exists_end_ofTokens (ts : List Token) (file : String) :
    ∃ t ∈ (ofTokens ts file).tokens, t.kind = .eof := by
  rcases tokens_ofTokens ts file with ⟨htokens, hend⟩ | ⟨place, htokens⟩
  · rw [htokens]
    exact hend
  · rw [htokens]
    exact ⟨.endAt place, by simp, rfl⟩

/-- A stream with an end comes to its first one behind the tokens that count. -/
theorem reads_end {s : Stream} (h : ∃ t ∈ s.tokens, t.kind = .eof) :
    ∃ s' : Stream, s.Reads (s.tokens.takeWhile (·.kind ≠ .eof)) s' ∧ s'.kind = .eof := by
  have hsome : (s.tokens.find? (·.kind = .eof)).isSome := List.find?_isSome.2 (by simpa using h)
  obtain ⟨t, hfind⟩ := Option.isSome_iff_exists.1 hsome
  obtain ⟨hkind, ts, us, htokens, hinside⟩ := List.find?_eq_some_iff_append.1 hfind
  have hend : (⟨t, us⟩ : Stream).kind = .eof := of_decide_eq_true hkind
  have hreads : s.Reads ts ⟨t, us⟩ := ⟨htokens, by simpa using hinside⟩
  rw [hreads.takeWhile_tokens_of_end hend]
  exact ⟨⟨t, us⟩, hreads, hend⟩

theorem Leads.proper {s s' : Stream} {ts : List Token} (h : s.Leads ts s') (hend : s'.kind = .eof) :
    s.Proper fun text v => Number.read? text = some v := by
  refine .of_read ⟨s'.current, ?_, hend⟩
  rw [h]
  exact List.mem_append_right _ List.mem_cons_self

end Stream

/-- Reading a program is not cut short, and gives one that its tokens make up. -/
theorem Stream.program_yields {reads : String → Number → Prop} {s : Stream} (hs : s.Proper reads) :
    s.program.Yields s fun p ts s' => s'.kind = .eof ∧ Derives reads (.stmts p) ts :=
  (parts_sound reads (depthFor s)).program hs (by unfold depthFor; omega)

theorem Stream.program_eq_done {reads : String → Number → Prop} {s s' : Stream} {p : Program}
    {ts : List Token} (hreads : ∀ {text v}, reads text v → Number.read? text = some v)
    (hlead : s.Leads ts s') (hend : s'.kind = .eof) (h : Derives reads (.stmts p) ts) :
    s.program = .done p s' := by
  have hsettles : Settles (·.program) s (.done p s') := (h.accepts hreads s s' hlead).2 hend
  refine hsettles.read (fun hle => hle.program) fun hcut => ?_
  have hyields := program_yields (hlead.proper hend)
  rw [program, hcut] at hyields
  exact hyields

/-- The tokens of an expression are read up to the end behind them. -/
theorem Stream.expr_eq_done {reads : String → Number → Prop} {s s' : Stream} {e : ParsedExpr}
    {ts : List Token} (hreads : ∀ {text v}, reads text v → Number.read? text = some v)
    (hlead : s.Leads ts s') (hend : s'.kind = .eof) (h : Derives reads (.expr e) ts) :
    chalk.read (·.expr .default) s = .done e s' := by
  have hsettles : Settles (·.expr .default) s (.done e s') :=
    (h.accepts hreads).expr hlead (by rw [hend]; rfl)
  refine hsettles.read (fun hle => hle.expr _) fun hcut => ?_
  have hyields := (parts_sound _ (depthFor s)).expr .default (hlead.proper hend)
    (by unfold depthFor; omega)
  rw [show (chalk.parts (depthFor s)).expr .default s = .cut from hcut] at hyields
  exact hyields

/-- The programs that are read from tokens are those which the tokens before the end derive, where
numbers denote what their digits say. -/
theorem parse_eq_ok_iff_derives {ts : List Token} {file : String} {p : Program}
    (hnumbers : ∀ t ∈ ts.takeWhile (·.kind ≠ .eof), t.kind = .number → IsNumeral t.value.toList) :
    parse ts file = .ok p ↔ Derives Denotes (.stmts p) (ts.takeWhile (·.kind ≠ .eof)) := by
  have hends := Stream.exists_end_ofTokens ts file
  rw [← Stream.takeWhile_ofTokens ts file] at hnumbers ⊢
  have hproper : (Stream.ofTokens ts file).Proper Denotes :=
    ⟨hends, fun t ht hkind v hv => .of_read? (hnumbers t ht hkind) hv⟩
  constructor
  · intro hparse
    have hyields := Stream.program_yields hproper
    simp only [parse] at hparse
    split at hparse
    · next program rest hdone =>
      cases hparse
      rw [hdone] at hyields
      obtain ⟨us, hreads, hend, hderives⟩ := hyields
      rw [hreads.takeWhile_tokens_of_end hend]
      exact hderives
    · cases hparse
    · cases hparse
  · intro hderives
    obtain ⟨s', hreads, hend⟩ := Stream.reads_end hends
    have hdone := Stream.program_eq_done Denotes.read? hreads.tokens hend hderives
    simp only [parse, hdone]

/-- The tokens of `((f))(1, 2.5,);` with no end behind them. -/
def callInParens : List Token :=
  [(.sign .openParen, "("), (.sign .openParen, "("), (.identifier, "f"), (.sign .closeParen, ")"),
    (.sign .closeParen, ")"), (.sign .openParen, "("), (.number, "1"), (.sign .comma, ","),
    (.number, "2.5"), (.sign .comma, ","), (.sign .closeParen, ")"), (.sign .semicolon, ";")].map
    fun (kind, value) => { kind, value, span := default }

theorem derives_callInParens :
    (∀ t ∈ callInParens.takeWhile (·.kind ≠ .eof), t.kind = .number → IsNumeral t.value.toList) ∧
      Derives Denotes
        (.stmts [.expr (.call "f" [.number (.int 1) (some 0),
          .number (.float (.ofDecimal false 25 (-1))) (some 0)] (some 0)) (some 0)])
        (callInParens.takeWhile (·.kind ≠ .eof)) := by
  have hdigit : ∀ c : Char, c.isDigit = true → IsDigits [c] := fun c hc =>
    ⟨List.cons_ne_nil _ _, List.forall_mem_singleton.2 hc⟩
  have hone : IsNumeral ['1'] := .inl (hdigit '1' rfl)
  have hfraction : IsNumeral ['2', '.', '5'] :=
    .inr ⟨['2'], ['5'], hdigit '2' rfl, hdigit '5' rfl, rfl⟩
  have hnumbers : ∀ t ∈ callInParens.takeWhile (·.kind ≠ .eof), t.kind = .number →
      IsNumeral t.value.toList := by simp [callInParens, hone, hfraction]
  have hparse : parse callInParens "main.chalk" = .ok _ := rfl
  exact ⟨hnumbers, (parse_eq_ok_iff_derives hnumbers).1 hparse⟩

end Chalk
