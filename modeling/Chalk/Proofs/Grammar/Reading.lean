import Chalk.Proofs.Grammar.Derivation

/-!
# What a parser reads

`Stream.Reads s ts s'` says that `ts` lies between two places of a token list and holds no end of
the text, and `Reply.Yields` bounds the outcome of a parser by it: a value comes with the tokens it
was read from, a fault shows at a place that was reached, and the run is not cut short. Both hold of
the parsers that look at one token, and `Reply.Yields.bind` carries them through a sequence, where
the tokens of the parts stand one after the other.
-/

namespace Chalk

namespace Stream

/-- The current token and those after it. -/
def tokens (s : Stream) : List Token :=
  s.current :: s.later

/-- Passing the tokens `ts`, none of them an end of the text, leads from `s` to `s'`. -/
structure Reads (s : Stream) (ts : List Token) (s' : Stream) : Prop where
  tokens : s.tokens = ts ++ s'.tokens
  inside : ∀ t ∈ ts, t.kind ≠ .eof

/-- A stream that comes to an end, and whose numbers up to there mean what `reads` says. -/
structure Proper (reads : String → Number → Prop) (s : Stream) : Prop where
  ended : ∃ t ∈ s.tokens, t.kind = .eof
  numbers : ∀ t ∈ s.tokens.takeWhile (·.kind ≠ .eof), t.kind = .number →
    ∀ v, Number.read? t.value = some v → reads t.value v

namespace Reads

variable {s s' s'' : Stream} {ts us : List Token}

theorem refl (s : Stream) : s.Reads [] s :=
  ⟨rfl, by simp⟩

theorem trans (h : s.Reads ts s') (h' : s'.Reads us s'') : s.Reads (ts ++ us) s'' := by
  refine ⟨?_, fun t ht => ?_⟩
  · rw [h.tokens, h'.tokens, List.append_assoc]
  · rcases List.mem_append.mp ht with ht | ht
    · exact h.inside t ht
    · exact h'.inside t ht

theorem length (h : s.Reads ts s') : s'.later.length + ts.length = s.later.length := by
  have hlen := congrArg List.length h.tokens
  simp only [Stream.tokens, List.length_cons, List.length_append] at hlen
  omega

/-- The first of the tokens that are passed is the current one. -/
theorem eq_cons (h : s.Reads ts s') (hpos : 0 < ts.length) : ∃ us, ts = s.current :: us := by
  obtain ⟨t, us, rfl⟩ := List.exists_cons_of_length_pos hpos
  have htokens := h.tokens
  simp only [Stream.tokens, List.cons_append, List.cons.injEq] at htokens
  exact ⟨us, by rw [htokens.1]⟩

theorem takeWhile_tokens (h : s.Reads ts s') :
    s.tokens.takeWhile (·.kind ≠ .eof) = ts ++ s'.tokens.takeWhile (·.kind ≠ .eof) := by
  rw [h.tokens, List.takeWhile_append_of_pos]
  intro t ht
  simpa using h.inside t ht

/-- Up to the first end of the text, all tokens are passed. -/
theorem takeWhile_tokens_of_end (h : s.Reads ts s') (hend : s'.kind = .eof) :
    s.tokens.takeWhile (·.kind ≠ .eof) = ts := by
  have hnil : s'.tokens.takeWhile (·.kind ≠ .eof) = [] :=
    List.takeWhile_cons_of_neg (by simpa [Stream.kind] using hend)
  rw [h.takeWhile_tokens, hnil, List.append_nil]

theorem proper {reads : String → Number → Prop} (h : s.Reads ts s') (hs : s.Proper reads) :
    s'.Proper reads := by
  refine ⟨?_, fun t ht => ?_⟩
  · obtain ⟨t, ht, hkind⟩ := hs.ended
    rw [h.tokens] at ht
    rcases List.mem_append.mp ht with ht | ht
    · exact absurd hkind (h.inside t ht)
    · exact ⟨t, ht, hkind⟩
  · refine hs.numbers t ?_
    rw [h.takeWhile_tokens]
    exact List.mem_append_right _ ht

end Reads

/-- Before the end of the text there is a next token. -/
theorem Proper.reads_advance {reads : String → Number → Prop} {s : Stream} (hs : s.Proper reads)
    (hkind : s.kind ≠ .eof) : s.Reads [s.current] s.advance := by
  obtain ⟨current, later⟩ := s
  obtain ⟨t, ht, heof⟩ := hs.ended
  cases later with
  | nil =>
    cases List.mem_singleton.mp ht
    exact absurd heof hkind
  | cons next later =>
    refine ⟨rfl, fun t ht => ?_⟩
    cases List.mem_singleton.mp ht
    exact hkind

theorem Proper.reads_current {reads : String → Number → Prop} {s : Stream} (hs : s.Proper reads)
    (hkind : s.kind = .number) {v : Number} (h : Number.read? s.current.value = some v) :
    reads s.current.value v := by
  refine hs.numbers s.current ?_ hkind v h
  have hne : s.current.kind ≠ .eof := by
    rw [show s.current.kind = .number from hkind]
    simp
  simp [tokens, hne]

theorem Proper.of_read {s : Stream} (h : ∃ t ∈ s.tokens, t.kind = .eof) :
    s.Proper fun text v => Number.read? text = some v :=
  ⟨h, fun _ _ _ _ hv => hv⟩

end Stream

/-- The outcome of a parser started at `s`: a value with the tokens it was read from and the place
behind them as `post` says, or a fault at a place that was reached. -/
def Reply.Yields {α : Type} (r : Reply α) (s : Stream) (post : α → List Token → Stream → Prop) :
    Prop :=
  match r with
  | .done a s' => ∃ ts, s.Reads ts s' ∧ post a ts s'
  | .failed _ s' => ∃ ts, s.Reads ts s'
  | .cut => False

namespace Reply.Yields

variable {α β : Type} {reads : String → Number → Prop} {s : Stream}

theorem imp {r : Reply α} {post post' : α → List Token → Stream → Prop} (h : r.Yields s post)
    (himp : ∀ a ts s', s.Reads ts s' → post a ts s' → post' a ts s') : r.Yields s post' := by
  match r, h with
  | .done a s', ⟨ts, hreads, hpost⟩ => exact ⟨ts, hreads, himp a ts s' hreads hpost⟩
  | .failed _ _, h => exact h

theorem bind {p : Parser α} {f : α → Parser β} {post : α → List Token → Stream → Prop}
    {post' : β → List Token → Stream → Prop} (hp : (p s).Yields s post) (hs : s.Proper reads)
    (hf : ∀ a ts s', s'.Proper reads → s.Reads ts s' → post a ts s' →
      (f a s').Yields s' fun b us s'' => post' b (ts ++ us) s'') :
    ((p >>= f) s).Yields s post' := by
  rw [Parser.bind_apply]
  match p s, hp with
  | .done a s', ⟨ts, hreads, hpost⟩ =>
    have hnext := hf a ts s' (hreads.proper hs) hreads hpost
    show (f a s').Yields s post'
    match f a s', hnext with
    | .done b s'', ⟨us, hreads', hpost'⟩ => exact ⟨ts ++ us, hreads.trans hreads', hpost'⟩
    | .failed _ s'', ⟨us, hreads'⟩ => exact ⟨ts ++ us, hreads.trans hreads'⟩
  | .failed _ _, h => exact h

theorem pure {a : α} {post : α → List Token → Stream → Prop} (h : post a [] s) :
    ((Pure.pure a : Parser α) s).Yields s post :=
  ⟨[], .refl s, h⟩

end Reply.Yields

namespace Parser

variable {α : Type} {reads : String → Number → Prop} {s : Stream}

theorem kind_bind {β : Type} (f : Token.Kind → Parser β) (s : Stream) :
    (kind >>= f) s = f s.kind s := rfl

theorem failAt_yields (t : Token) (cause : SyntaxError.Cause)
    {post : α → List Token → Stream → Prop} : ((failAt t cause : Parser α) s).Yields s post :=
  ⟨[], .refl s⟩

theorem unexpected_yields {post : α → List Token → Stream → Prop} :
    ((unexpected : Parser α) s).Yields s post :=
  failAt_yields ..

theorem unexpectedHere_yields (wanted : String) {post : α → List Token → Stream → Prop} :
    ((unexpectedHere wanted : Parser α) s).Yields s post :=
  failAt_yields ..

theorem advance_yields (hs : s.Proper reads) (hkind : s.kind ≠ .eof) :
    (advance s).Yields s fun t ts _ => t = s.current ∧ ts = [t] :=
  ⟨[s.current], hs.reads_advance hkind, rfl, rfl⟩

theorem expect_yields {kind : Token.Kind} (hs : s.Proper reads) (hkind : kind ≠ .eof) :
    (expect kind s).Yields s fun t ts _ => t.kind = kind ∧ ts = [t] := by
  unfold expect
  split
  · next h =>
    refine (advance_yields hs (h ▸ hkind)).imp ?_
    intro t ts s' _ h
    obtain ⟨rfl, rfl⟩ := h
    exact ⟨h, rfl⟩
  · exact unexpected_yields

theorem expectHere_yields {kind : Token.Kind} {wanted : String} (hs : s.Proper reads)
    (hkind : kind ≠ .eof) :
    (expectHere kind wanted s).Yields s fun t ts _ => t.kind = kind ∧ ts = [t] := by
  unfold expectHere
  split
  · next h =>
    refine (advance_yields hs (h ▸ hkind)).imp ?_
    intro t ts s' _ h
    obtain ⟨rfl, rfl⟩ := h
    exact ⟨h, rfl⟩
  · exact unexpectedHere_yields _

theorem ty_yields (hs : s.Proper reads) :
    (Parser.ty s).Yields s fun ty ts _ => ∃ t : Token, t.IsType ty ∧ ts = [t] := by
  refine (expectHere_yields hs (by simp)).bind hs ?_
  intro t _ s' _ _ h
  obtain ⟨hkind, rfl⟩ := h
  cases hty : Ty.ofName? t.value with
  | some ty => exact .pure ⟨t, ⟨hkind, (Ty.ofName?_eq_some_iff.1 hty).symm⟩, rfl⟩
  | none => exact failAt_yields ..

end Parser

end Chalk
