import Chalk.Proofs.Grammar.Completeness

/-!
# Parsers that fault promptly

A parser is prompt at a place (`Parser.Prompt`) when it looks no further than to the token behind
those it passes, and when a fault shows at the first token that cannot stand where it stands: the
tokens before it can be completed to something that would have been read. So a fault is a fault of
the tokens up to the one at which it shows, whatever follows them.

That something can be read at all is part of the notion. It makes sequences simple: if the first of
two parsers faults, what it has passed is completed to something that it reads, and behind that the
second one can read something too (`Parser.Prompt.bind`). The one parser that looks two tokens
ahead, to tell assignments from expressions, is prompt since both tokens are passed before it can
fault (`Parser.Prompt.congr_next`).
-/

namespace Chalk

namespace SyntaxError

/-- The text of the token at fault. -/
def Cause.token : Cause → String
  | unrecognised token | unexpected token | unexpectedHere token _ | unreadableNumber token
  | unknownType token => token

/-- The fault is found in the token, and gives its text. -/
structure ShowsAt (e : SyntaxError) (t : Token) : Prop where
  position : e.position = t.span.start
  token : e.cause.token = t.value

end SyntaxError

/-- The text is read as the number. -/
abbrev Number.Read (text : String) (v : Number) : Prop :=
  Number.read? text = some v

namespace Stream.Leads

variable {s s' s₁ s₁' : Stream} {ts : List Token}

theorem current_eq (h : s.Leads ts s') (h₁ : s₁.Leads ts s₁')
    (hcurrent : s₁'.current = s'.current) : s₁.current = s.current := by
  cases ts with
  | nil => rwa [h.eq_of_nil, h₁.eq_of_nil] at hcurrent
  | cons t ts => rw [← h.cons.1, h₁.cons.1]

/-- Behind a token that is passed, the next one is passed as well or stands behind all that are. -/
theorem nextKind_eq (h : s.Leads ts s') (h₁ : s₁.Leads ts s₁')
    (hcurrent : s₁'.current = s'.current) (hts : ts ≠ []) : s₁.nextKind = s.nextKind := by
  have hnext : ∀ {s s' : Stream} {t : Token} {ts : List Token}, s.Leads (t :: ts) s' →
      s.nextKind = s.advance.kind := by
    intro s s' t ts h
    obtain ⟨current, later⟩ := s
    cases later with
    | nil => cases ts <;> simp [Leads, tokens] at h
    | cons u us => rfl
  obtain ⟨t, ts, rfl⟩ := List.exists_cons_of_ne_nil hts
  rw [hnext h, hnext h₁, kind, kind, h.cons.2.current_eq h₁.cons.2 hcurrent]

end Stream.Leads

namespace Parser

variable {α β : Type}

/-- At `s` the parser reads what `post` admits, and does not look past the token behind it. A fault
shows at a token behind which it does not look, and what stands before that token begins something
that `post` admits. -/
structure Prompt (p : Parser α) (s : Stream) (post : α → List Token → Stream → Prop) : Prop where
  possible : ∃ a ts s', post a ts s'
  done (hs : s.Proper Number.Read) {a : α} {s' : Stream} (h : p s = .done a s') :
    ∃ ts, s.Reads ts s' ∧ post a ts s' ∧
      ∀ s₁ s₁' : Stream, s₁.Leads ts s₁' → s₁'.current = s'.current → p s₁ = .done a s₁'
  failed (hs : s.Proper Number.Read) {e : SyntaxError} {r : Stream} (h : p s = .failed e r) :
    ∃ ts s', s.Reads ts s' ∧ e.ShowsAt s'.current ∧ (∃ a us s'', post a (ts ++ us) s'') ∧
      ∀ s₁ s₁' : Stream, s₁.Leads ts s₁' → s₁'.current = s'.current → ∃ r₁, p s₁ = .failed e r₁

namespace Prompt

variable {s : Stream} {p q : Parser α} {post : α → List Token → Stream → Prop}

theorem of_cut (hcut : p s = .cut) (h : ∃ a ts s', post a ts s') : p.Prompt s post where
  possible := h
  done _ _ _ hdone := by cases hcut.symm.trans hdone
  failed _ _ _ hfailed := by cases hcut.symm.trans hfailed

/-- The current token is passed. -/
theorem of_done {a : α} (hkind : s.kind ≠ .eof)
    (hp : ∀ s₁ : Stream, s₁.current = s.current → p s₁ = .done a s₁.advance)
    (h : post a [s.current] s.advance) : p.Prompt s post where
  possible := ⟨a, _, _, h⟩
  done hs a' s' hdone := by
    cases (hp s rfl).symm.trans hdone
    refine ⟨[s.current], hs.reads_advance hkind, h, fun s₁ s₁' hlead _ => ?_⟩
    obtain ⟨hcurrent, hnil⟩ := hlead.cons
    rw [hp s₁ hcurrent.symm, hnil.eq_of_nil]
  failed _ _ _ hfailed := by cases (hp s rfl).symm.trans hfailed

/-- The current token is at fault, whether or not it was passed. -/
theorem of_failed {e : SyntaxError}
    (hp : ∀ s₁ : Stream, s₁.current = s.current → ∃ r, p s₁ = .failed e r)
    (hshows : e.ShowsAt s.current) (h : ∃ a ts s', post a ts s') : p.Prompt s post where
  possible := h
  done _ _ _ hdone := by
    obtain ⟨r, hr⟩ := hp s rfl
    cases hr.symm.trans hdone
  failed _ e' r' hfailed := by
    obtain ⟨r, hr⟩ := hp s rfl
    cases hr.symm.trans hfailed
    refine ⟨[], s, .refl s, hshows, h, fun s₁ s₁' hlead hcurrent => hp s₁ ?_⟩
    rwa [hlead.eq_of_nil] at hcurrent

theorem pure {a : α} (h : post a [] s) : (Pure.pure a : Parser α).Prompt s post where
  possible := ⟨a, _, _, h⟩
  done _ a' s' hdone := by
    cases hdone
    refine ⟨[], .refl s, h, fun s₁ s₁' hlead _ => ?_⟩
    rw [hlead.eq_of_nil]
    rfl
  failed _ _ _ hfailed := by cases hfailed

theorem imp {post' : α → List Token → Stream → Prop} (h : p.Prompt s post)
    (himp : ∀ a ts s', post a ts s' → post' a ts s') : p.Prompt s post' where
  possible := by
    obtain ⟨a, ts, s', ha⟩ := h.possible
    exact ⟨a, ts, s', himp a ts s' ha⟩
  done hs a s' hdone := by
    obtain ⟨ts, hreads, ha, hsame⟩ := h.done hs hdone
    exact ⟨ts, hreads, himp a ts s' ha, hsame⟩
  failed hs e r hfailed := by
    obtain ⟨ts, s', hreads, hshows, ⟨a, us, s'', ha⟩, hsame⟩ := h.failed hs hfailed
    exact ⟨ts, s', hreads, hshows, ⟨a, us, s'', himp a _ s'' ha⟩, hsame⟩

/-- A parser may look at the current token to choose how to go on. -/
theorem congr_current (h : p.Prompt s post)
    (hq : ∀ s₁ : Stream, s₁.current = s.current → q s₁ = p s₁) : q.Prompt s post where
  possible := h.possible
  done hs a s' hdone := by
    rw [hq s rfl] at hdone
    obtain ⟨ts, hreads, ha, hsame⟩ := h.done hs hdone
    refine ⟨ts, hreads, ha, fun s₁ s₁' hlead hcurrent => ?_⟩
    rw [hq s₁ (Stream.Leads.current_eq hreads.tokens hlead hcurrent)]
    exact hsame s₁ s₁' hlead hcurrent
  failed hs e r hfailed := by
    rw [hq s rfl] at hfailed
    obtain ⟨ts, s', hreads, hshows, hpossible, hsame⟩ := h.failed hs hfailed
    refine ⟨ts, s', hreads, hshows, hpossible, fun s₁ s₁' hlead hcurrent => ?_⟩
    rw [hq s₁ (Stream.Leads.current_eq hreads.tokens hlead hcurrent)]
    exact hsame s₁ s₁' hlead hcurrent

/-- A parser may look at two tokens if it passes the first one in any case: what it reads is not
empty, and it does not fault at the first token, since that can begin what it reads. -/
theorem congr_next (h : p.Prompt s post) (hne : ∀ a ts s', post a ts s' → ts ≠ [])
    (hbegins : ∃ s₀ : Stream, s₀.current = s.current ∧ ∀ e r, p s₀ ≠ .failed e r)
    (hq : ∀ s₁ : Stream, s₁.current = s.current → s₁.nextKind = s.nextKind → q s₁ = p s₁) :
    q.Prompt s post where
  possible := h.possible
  done hs a s' hdone := by
    rw [hq s rfl rfl] at hdone
    obtain ⟨ts, hreads, ha, hsame⟩ := h.done hs hdone
    refine ⟨ts, hreads, ha, fun s₁ s₁' hlead hcurrent => ?_⟩
    rw [hq s₁ (Stream.Leads.current_eq hreads.tokens hlead hcurrent)
      (Stream.Leads.nextKind_eq hreads.tokens hlead hcurrent (hne a ts s' ha))]
    exact hsame s₁ s₁' hlead hcurrent
  failed hs e r hfailed := by
    rw [hq s rfl rfl] at hfailed
    obtain ⟨ts, s', hreads, hshows, hpossible, hsame⟩ := h.failed hs hfailed
    have hts : ts ≠ [] := by
      rintro rfl
      obtain ⟨s₀, hcurrent, hnot⟩ := hbegins
      cases Stream.Leads.eq_of_nil hreads.tokens
      obtain ⟨r₀, hr₀⟩ := hsame s₀ s₀ rfl hcurrent
      exact hnot e r₀ hr₀
    refine ⟨ts, s', hreads, hshows, hpossible, fun s₁ s₁' hlead hcurrent => ?_⟩
    rw [hq s₁ (Stream.Leads.current_eq hreads.tokens hlead hcurrent)
      (Stream.Leads.nextKind_eq hreads.tokens hlead hcurrent hts)]
    exact hsame s₁ s₁' hlead hcurrent

theorem bind {f : α → Parser β} {post' : β → List Token → Stream → Prop} (hp : p.Prompt s post)
    (hf : ∀ a ts s', post a ts s' → (f a).Prompt s' fun b us s'' => post' b (ts ++ us) s'') :
    (p >>= f).Prompt s post' where
  possible := by
    obtain ⟨a, ts, s', ha⟩ := hp.possible
    obtain ⟨b, us, s'', hb⟩ := (hf a ts s' ha).possible
    exact ⟨b, ts ++ us, s'', hb⟩
  done hs b s'' hdone := by
    rw [bind_apply] at hdone
    cases hfirst : p s with
    | done a s' =>
      rw [hfirst] at hdone
      obtain ⟨ts, hreads, ha, hsame⟩ := hp.done hs hfirst
      obtain ⟨us, hreads', hb, hsame'⟩ := (hf a ts s' ha).done (hreads.proper hs) hdone
      refine ⟨ts ++ us, hreads.trans hreads', hb, fun s₁ s₁'' hlead hcurrent => ?_⟩
      obtain ⟨s₁', hlead, hlead'⟩ := hlead.append
      have hbetween := Stream.Leads.current_eq hreads'.tokens hlead' hcurrent
      rw [bind_apply, hsame s₁ s₁' hlead hbetween]
      exact hsame' s₁' s₁'' hlead' hcurrent
    | failed e r =>
      rw [hfirst] at hdone
      cases hdone
    | cut =>
      rw [hfirst] at hdone
      cases hdone
  failed hs e r hfailed := by
    rw [bind_apply] at hfailed
    cases hfirst : p s with
    | done a s' =>
      rw [hfirst] at hfailed
      obtain ⟨ts, hreads, ha, hsame⟩ := hp.done hs hfirst
      obtain ⟨us, s'', hreads', hshows, ⟨b, vs, s₃, hb⟩, hsame'⟩ :=
        (hf a ts s' ha).failed (hreads.proper hs) hfailed
      have hb' : post' b (ts ++ us ++ vs) s₃ := by rwa [List.append_assoc]
      refine ⟨ts ++ us, s'', hreads.trans hreads', hshows, ⟨b, vs, s₃, hb'⟩, ?_⟩
      intro s₁ s₁'' hlead hcurrent
      obtain ⟨s₁', hlead, hlead'⟩ := hlead.append
      have hbetween := Stream.Leads.current_eq hreads'.tokens hlead' hcurrent
      rw [bind_apply, hsame s₁ s₁' hlead hbetween]
      exact hsame' s₁' s₁'' hlead' hcurrent
    | failed e' r' =>
      rw [hfirst] at hfailed
      cases hfailed
      obtain ⟨ts, s', hreads, hshows, ⟨a, us, s'', ha⟩, hsame⟩ := hp.failed hs hfirst
      -- what the first parser would have read is followed by what the second one can read
      obtain ⟨b, vs, s₃, hb⟩ := (hf a (ts ++ us) s'' ha).possible
      have hb' : post' b (ts ++ (us ++ vs)) s₃ := by rwa [← List.append_assoc]
      refine ⟨ts, s', hreads, hshows, ⟨b, us ++ vs, s₃, hb'⟩, fun s₁ s₁' hlead hcurrent => ?_⟩
      obtain ⟨r₁, hr₁⟩ := hsame s₁ s₁' hlead hcurrent
      exact ⟨r₁, by rw [bind_apply, hr₁]⟩
    | cut =>
      rw [hfirst] at hfailed
      cases hfailed

theorem kind_bind {f : Token.Kind → Parser α} (h : (f s.kind).Prompt s post) :
    (kind >>= f).Prompt s post := by
  refine h.congr_current fun s₁ hcurrent => ?_
  rw [Parser.kind_bind, Stream.kind, hcurrent]
  rfl

theorem line_bind {f : Line → Parser α} (h : (f (some s.current.line)).Prompt s post) :
    (line >>= f).Prompt s post := by
  refine h.congr_current fun s₁ hcurrent => ?_
  rw [← hcurrent]
  rfl

/-! ## Single tokens -/

theorem advance (hkind : s.kind ≠ .eof) :
    Parser.advance.Prompt s fun t ts _ => t = s.current ∧ ts = [t] := by
  refine of_done hkind (fun s₁ hcurrent => ?_) ⟨rfl, rfl⟩
  rw [← hcurrent]
  rfl

theorem unexpected (h : ∃ a ts s', post a ts s') : (unexpected : Parser α).Prompt s post := by
  refine of_failed (e := ⟨.unexpected s.current.value, s.position⟩)
    (fun s₁ hcurrent => ?_) ⟨rfl, rfl⟩ h
  rw [Stream.position, ← hcurrent]
  exact ⟨s₁, rfl⟩

theorem unexpectedHere (wanted : String) (h : ∃ a ts s', post a ts s') :
    (unexpectedHere wanted : Parser α).Prompt s post := by
  refine of_failed (e := ⟨.unexpectedHere s.current.value wanted, s.position⟩)
    (fun s₁ hcurrent => ?_) ⟨rfl, rfl⟩ h
  rw [Stream.position, ← hcurrent]
  exact ⟨s₁, rfl⟩

/-- Some token of the kind, wherever it stands. -/
theorem exists_token (k : Token.Kind) :
    ∃ (t : Token) (ts : List Token) (_ : Stream), t.kind = k ∧ ts = [t] :=
  ⟨{ kind := k, value := "", span := default }, _, default, rfl, rfl⟩

theorem token_or {k : Token.Kind} (hk : k ≠ .eof) {fault : Parser Token}
    (hfault : fault.Prompt s fun t ts _ => t.kind = k ∧ ts = [t]) :
    Prompt (fun s => if s.kind = k then Parser.advance s else fault s) s
      fun t ts _ => t.kind = k ∧ ts = [t] := by
  by_cases hkind : s.kind = k
  · have hadvance : Parser.advance.Prompt s fun t ts _ => t.kind = k ∧ ts = [t] := by
      refine (advance (hkind ▸ hk)).imp ?_
      rintro t _ s' ⟨rfl, rfl⟩
      exact ⟨hkind, rfl⟩
    exact hadvance.congr_current fun s₁ hcurrent =>
      if_pos ((congrArg Token.kind hcurrent).trans hkind)
  · exact hfault.congr_current fun s₁ hcurrent =>
      if_neg fun h => hkind ((congrArg Token.kind hcurrent).symm.trans h)

theorem expect {k : Token.Kind} (hk : k ≠ .eof) :
    (expect k).Prompt s fun t ts _ => t.kind = k ∧ ts = [t] :=
  token_or hk (unexpected (exists_token k))

theorem expectHere {k : Token.Kind} (hk : k ≠ .eof) (wanted : String) :
    (expectHere k wanted).Prompt s fun t ts _ => t.kind = k ∧ ts = [t] :=
  token_or hk (unexpectedHere wanted (exists_token k))

theorem ty : Parser.ty.Prompt s fun ty ts _ => ∃ t : Token, t.IsType ty ∧ ts = [t] := by
  have hpossible : ∃ (ty : Ty) (ts : List Token) (_ : Stream), ∃ t : Token,
      t.IsType ty ∧ ts = [t] :=
    ⟨.int, _, default, { kind := .identifier, value := Ty.int.name, span := default }, ⟨rfl, rfl⟩,
      rfl⟩
  by_cases hkind : s.kind = .identifier
  · have happly : ∀ s₁ : Stream, s₁.current = s.current → Parser.ty s₁ =
        (Ty.ofName? s.current.value).elim
          (.failed ⟨.unknownType s.current.value, s.position⟩ s₁.advance)
          (.done · s₁.advance) := by
      intro s₁ hcurrent
      have hpass : Parser.expectHere .identifier "expected a type name" s₁ =
          .done s.current s₁.advance := by
        rw [← hcurrent]
        exact if_pos ((congrArg Token.kind hcurrent).trans hkind)
      rw [Parser.ty, bind_apply, hpass]
      dsimp only
      cases Ty.ofName? s.current.value <;> rfl
    cases hty : Ty.ofName? s.current.value with
    | some ty =>
      have htype : s.current.IsType ty := ⟨hkind, (Ty.ofName?_eq_some_iff.1 hty).symm⟩
      refine of_done (by simp [hkind]) (fun s₁ hcurrent => ?_) ⟨s.current, htype, rfl⟩
      rw [happly s₁ hcurrent, hty, Option.elim_some]
    | none =>
      refine of_failed (e := ⟨.unknownType s.current.value, s.position⟩)
        (fun s₁ hcurrent => ⟨s₁.advance, ?_⟩) ⟨rfl, rfl⟩ hpossible
      rw [happly s₁ hcurrent, hty, Option.elim_none]
  · refine (unexpectedHere "expected a type name" hpossible).congr_current fun s₁ hcurrent => ?_
    have hkind₁ : s₁.kind ≠ .identifier := fun h =>
      hkind ((congrArg Token.kind hcurrent).symm.trans h)
    rw [Parser.ty, bind_apply, Parser.expectHere, if_neg hkind₁]
    rfl

end Prompt

end Parser

end Chalk
