import Chalk.Proofs.Grammar.Acceptance
import Chalk.Proofs.Grammar.Viability
import Chalk.Proofs.Token.Lossless

/-!
# Faults show as early as they can

A list of tokens that is no program has a first token at which that can be seen: with the tokens up
to it no list is a program, and with those before it some list is. The fault that is reported is
found in this token (`parse_fault_earliest`), whatever stands behind it. Since the tokens of a
source begin at different places, the place of the fault says which token that is.
-/

namespace Chalk

open Chalk.Grammar

/-! ## Runs on tokens -/

namespace Stream

/-- The replies for streams that are the same up to the token at fault are the same fault. -/
theorem program_failed {s r : Stream} {e : SyntaxError} (hs : s.Proper Number.Read)
    (h : s.program = .failed e r) :
    ∃ ts s', s.Reads ts s' ∧ e.ShowsAt s'.current ∧
      (∃ us body, Derives Number.Read (.stmts body) (ts ++ us)) ∧
      ∀ s₁ s₁' : Stream, s₁.Proper Number.Read → s₁.Leads ts s₁' → s₁'.current = s'.current →
        ∃ r₁, s₁.program = .failed e r₁ := by
  obtain ⟨ts, s', hreads, hshows, ⟨_, us, s'', -, body, hbody⟩, hsame⟩ :=
    ((parts_prompt (depthFor s)).program s).failed hs h
  refine ⟨ts, s', hreads, hshows, ⟨us, body, hbody⟩, fun s₁ s₁' hs₁ hlead hcurrent => ?_⟩
  obtain ⟨r₁, hr₁⟩ := hsame s₁ s₁' hlead hcurrent
  -- the run on `s₁` has a depth of its own
  have hsettles : Settles (·.program) s₁ (.failed e r₁) := by
    refine ⟨depthFor s, fun m hm => ?_⟩
    rw [← hr₁]
    exact reply_of_le (fun hle => hle.program) hm (by rw [hr₁]; nofun)
  refine ⟨r₁, hsettles.read (fun hle => hle.program) fun hcut => ?_⟩
  have hyields := program_yields hs₁
  rw [program, hcut] at hyields
  exact hyields

theorem proper_ofTokens (ts : List Token) (file : String) : (ofTokens ts file).Proper Number.Read :=
  .of_read (exists_end_ofTokens ts file)

/-- However a list of tokens goes on, its stream goes through those it begins with. -/
theorem leads_ofTokens (before : List Token) (t : Token) (behind : List Token) (file : String) :
    ∃ s' : Stream, (ofTokens (before ++ t :: behind) file).Leads before s' ∧ s'.current = t := by
  rcases tokens_ofTokens (before ++ t :: behind) file with ⟨htokens, -⟩ | ⟨place, htokens⟩
  · exact ⟨⟨t, behind⟩, htokens, rfl⟩
  · refine ⟨⟨t, behind ++ [.endAt place]⟩, htokens.trans ?_, rfl⟩
    rw [List.append_assoc]
    rfl

end Stream

/-- No run is cut short, so a fault is one that the parser has found. -/
theorem parse_eq_error_iff {ts : List Token} {file : String} {e : SyntaxError} :
    parse ts file = .error e ↔ ∃ r, (Stream.ofTokens ts file).program = .failed e r := by
  have hyields := Stream.program_yields (Stream.proper_ofTokens ts file)
  simp only [parse]
  cases hprogram : (Stream.ofTokens ts file).program with
  | done p s' => simp
  | failed e' r => simp
  | cut =>
    rw [hprogram] at hyields
    exact hyields.elim

/-- A program that is read is made up by the tokens in front of the first end. -/
theorem exists_reads_of_parse {ts : List Token} {file : String} {p : Program}
    (h : parse ts file = .ok p) : ∃ us s', (Stream.ofTokens ts file).Reads us s' ∧
      s'.kind = .eof ∧ Derives Number.Read (.stmts p) us := by
  have hyields := Stream.program_yields (Stream.proper_ofTokens ts file)
  simp only [parse] at h
  cases hprogram : (Stream.ofTokens ts file).program with
  | done p' s' =>
    rw [hprogram] at h hyields
    cases h
    obtain ⟨us, hreads, hend, hderives⟩ := hyields
    exact ⟨us, s', hreads, hend, hderives⟩
  | failed e r =>
    rw [hprogram] at h
    cases h
  | cut =>
    rw [hprogram] at h
    cases h

/-- Tokens that make up a program are read as one. -/
theorem Derives.parse_eq_ok {ts : List Token} {body : Program}
    (h : Derives Number.Read (.stmts body) ts) (place : Position) (file : String) :
    parse (ts ++ [.endAt place]) file = .ok body := by
  have hlead : (Stream.ofTokens (ts ++ [.endAt place]) file).Leads ts ⟨.endAt place, []⟩ :=
    Stream.tokens_ofTokens_of_end ts place file
  simp only [parse, Stream.program_eq_done id hlead rfl h]

/-- The token at fault parts the list: no list that goes on behind it is a program, and some list
that goes on in front of it is one. -/
theorem exists_fault_of_parse {ts : List Token} {file : String} {e : SyntaxError}
    (hends : (Stream.ofTokens ts file).tokens = ts) (h : parse ts file = .error e) :
    ∃ before t behind, ts = before ++ t :: behind ∧ e.ShowsAt t ∧
      (∀ behind' file', parse (before ++ t :: behind') file' = .error e) ∧
      ∃ us p, ∀ file', parse (before ++ us) file' = .ok p := by
  obtain ⟨r, hr⟩ := parse_eq_error_iff.1 h
  obtain ⟨before, s', hreads, hshows, ⟨us, body, hbody⟩, hsame⟩ :=
    Stream.program_failed (Stream.proper_ofTokens ts file) hr
  refine ⟨before, s'.current, s'.later, hends.symm.trans hreads.tokens, hshows, ?_, ?_⟩
  · intro behind' file'
    obtain ⟨s₁', hlead, hcurrent⟩ := Stream.leads_ofTokens before s'.current behind' file'
    exact parse_eq_error_iff.2 (hsame _ s₁' (Stream.proper_ofTokens ..) hlead hcurrent)
  · refine ⟨us ++ [.endAt default], body, fun file' => ?_⟩
    rw [← List.append_assoc]
    exact hbody.parse_eq_ok default file'

/-! ## Sources -/

/-- No two tokens of a source begin at the same place. -/
theorem eq_of_start_eq {source file : String} {ts : List Token}
    (hsize : (Text.utf8 source.toList).length < UInt32.size) (h : tokenize source file = .ok ts)
    {i j : Nat} {t u : Token} (ht : ts[i]? = some t) (hu : ts[j]? = some u)
    (hstart : u.span.start = t.span.start) : j = i := by
  rw [Text.length_utf8] at hsize
  have hlaid : Laid file [] source.toList ts := Cursor.laid_of_scan h
  obtain ⟨pieces, last, rfl, hlossless⟩ := hlaid.lossless hsize
  have hstarts := List.pairwise_iff_getElem.1 hlossless.starts
  obtain ⟨hi, rfl⟩ := List.getElem?_eq_some_iff.1 ht
  obtain ⟨hj, rfl⟩ := List.getElem?_eq_some_iff.1 hu
  rcases Nat.lt_trichotomy j i with hlt | heq | hlt
  · have hne := hstarts j i hj hi hlt
    rw [hstart] at hne
    exact absurd hne (Nat.lt_irrefl _)
  · exact heq
  · have hne := hstarts i j hi hj hlt
    rw [hstart] at hne
    exact absurd hne (Nat.lt_irrefl _)

/-- A fault of form is found in exactly one token of the source, and gives its text. Every list with
the same tokens up to this one has the same fault, and some list with the same tokens before it is a
program. -/
theorem parse_fault_earliest {source file : String} {ts : List Token} {e : SyntaxError}
    (hsize : (Text.utf8 source.toList).length < UInt32.size)
    (htokens : tokenize source file = .ok ts) (h : parse ts file = .error e) :
    ∃ i t, ts[i]? = some t ∧ e.position = t.span.start ∧ e.cause.token = t.value ∧
      (∀ j u, ts[j]? = some u → e.position = u.span.start → j = i) ∧
      (∀ us file', us.take (i + 1) = ts.take (i + 1) → parse us file' = .error e) ∧
      ∃ us p, us.take i = ts.take i ∧ ∀ file', parse us file' = .ok p := by
  have hlaid : Laid file [] source.toList ts := Cursor.laid_of_scan htokens
  obtain ⟨pieces, rfl, -⟩ := hlaid.eq_append_end
  obtain ⟨before, t, behind, hts, hshows, hfault, us, p, hok⟩ :=
    exists_fault_of_parse (Stream.tokens_ofTokens_of_end ..) h
  have ht : (pieces ++ [.endAt (.behind file ([] ++ source.toList))])[before.length]? = some t := by
    rw [hts, List.getElem?_append_right (Nat.le_refl _), Nat.sub_self]
    rfl
  refine ⟨before.length, t, ht, hshows.position, hshows.token, fun j u hu hstart => ?_, ?_, ?_⟩
  · exact eq_of_start_eq hsize htokens ht hu (hstart.symm.trans hshows.position)
  · intro us file' htake
    have hsame : us.take (before.length + 1) = before ++ [t] := by
      rw [htake, hts, List.take_length_add_append]
      rfl
    rw [← List.take_append_drop (before.length + 1) us, hsame, List.append_assoc]
    exact hfault _ file'
  · refine ⟨before ++ us, p, ?_, hok⟩
    rw [hts, List.take_left, List.take_left]

/-- An operand is missing inside of parentheses. -/
theorem parse_fault_missingOperand :
    ∃ ts e, tokenize "let x: int = (1 +;\nprint(x);" "main" = .ok ts ∧
      (Text.utf8 "let x: int = (1 +;\nprint(x);".toList).length < UInt32.size ∧
      parse ts "main" = .error e ∧
      ∃ i t, ts[i]? = some t ∧ e.position = t.span.start ∧ e.cause.token = t.value ∧
        (∀ j u, ts[j]? = some u → e.position = u.span.start → j = i) ∧
        (∀ us file', us.take (i + 1) = ts.take (i + 1) → parse us file' = .error e) ∧
        ∃ us p, us.take i = ts.take i ∧ ∀ file', parse us file' = .ok p := by
  have hsize : (Text.utf8 "let x: int = (1 +;\nprint(x);".toList).length < UInt32.size := by decide
  have hruns : (tokenize "let x: int = (1 +;\nprint(x);" "main").toOption.any
      (fun ts => !(parse ts "main").isOk) = true := by decide +kernel
  cases htokens : tokenize "let x: int = (1 +;\nprint(x);" "main" with
  | error e => rw [htokens] at hruns; cases hruns
  | ok ts =>
    cases hparse : parse ts "main" with
    | ok p => simp [htokens, hparse, Except.toOption, Except.isOk, Except.toBool] at hruns
    | error e =>
      exact ⟨ts, e, rfl, hsize, hparse, parse_fault_earliest hsize htokens hparse⟩

end Chalk
