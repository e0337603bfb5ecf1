import Chalk.Proofs.Token.Layout

/-!
# Tokens lose nothing of their source

What the layout of tokens in a source comes to when it is read off the offsets and lines in their
spans: the spans cut the bytes of the source into the texts of the tokens and the spaces between
them. Offsets and lines are 32-bit words, so the source has to be shorter than `2 ^ 32` bytes.
-/

namespace Chalk

namespace Text

variable {cs ds : List Char}

/-! ## Bytes of a text -/

theorem utf8_append (cs ds : List Char) : utf8 (cs ++ ds) = utf8 cs ++ utf8 ds :=
  List.flatMap_append

theorem take_utf8_append : (utf8 (cs ++ ds)).take (utf8Length cs) = utf8 cs := by
  rw [utf8_append, ← length_utf8, List.take_left]

theorem drop_utf8_append : (utf8 (cs ++ ds)).drop (utf8Length cs) = utf8 ds := by
  rw [utf8_append, ← length_utf8, List.drop_left]

/-- A newline is one byte, and that byte is part of no other character. -/
theorem count_utf8EncodeChar (c : Char) :
    (String.utf8EncodeChar c).count 10 = if c = '\n' then 1 else 0 := by
  have hval : c = '\n' ↔ c.val.toNat = 10 := by
    rw [Char.ext_iff, ← UInt32.toNat_inj]
    rfl
  have hbyte : ∀ n, n < 256 → (UInt8.ofNat n = 10 ↔ n = 10) := by
    intro n hn
    rw [← UInt8.toNat_inj, UInt8.toNat_ofNat_of_lt' hn]
    rfl
  -- the bytes of a longer form are all at least 128
  have hlarge : ∀ n, 128 ≤ n → n < 256 → (10 : UInt8) ≠ UInt8.ofNat n := by
    intro n hn hlt heq
    have hten := (hbyte n hlt).1 heq.symm
    omega
  simp only [hval, String.utf8EncodeChar]
  by_cases hshort : c.val.toNat ≤ 127
  · rw [if_pos hshort, List.count_singleton]
    simp only [beq_iff_eq, hbyte _ (show c.val.toNat < 256 by omega)]
  · have hne : c.val.toNat ≠ 10 := by omega
    rw [if_neg hshort, if_neg hne, List.count_eq_zero]
    split
    · simp (disch := omega) only [List.mem_cons, List.not_mem_nil, hlarge, or_false,
        not_false_eq_true]
    split
    all_goals
      simp (disch := omega) only [List.mem_cons, List.not_mem_nil, hlarge, or_false,
        not_false_eq_true]

theorem count_utf8 (cs : List Char) : (utf8 cs).count 10 = newlines cs := by
  induction cs with
  | nil => rfl
  | cons c cs ih =>
    have hcons : utf8 (c :: cs) = String.utf8EncodeChar c ++ utf8 cs := rfl
    rw [hcons, List.count_append, ih, count_utf8EncodeChar, newlines, newlines, List.count_cons,
      Nat.add_comm]
    simp only [beq_iff_eq]

theorem utf8Length_pos (h : cs ≠ []) : 0 < utf8Length cs := by
  cases cs with
  | nil => exact absurd rfl h
  | cons c cs => exact Nat.add_pos_left c.utf8Size_pos _

theorem length_le_utf8Length (cs : List Char) : cs.length ≤ utf8Length cs := by
  induction cs with
  | nil => exact Nat.le_refl 0
  | cons c cs ih =>
    have hpos := c.utf8Size_pos
    rw [List.length_cons, utf8Length_cons]
    omega

/-- The line, counted from 1, of the byte at an offset. -/
def lineAt (source : List Char) (offset : Nat) : Nat :=
  1 + ((utf8 source).take offset).count 10

theorem lineAt_le (source : List Char) (offset : Nat) :
    lineAt source offset ≤ 1 + newlines source := by
  rw [lineAt, ← count_utf8]
  exact Nat.add_le_add_left ((List.take_sublist ..).count_le 10) 1

/-- The line of a byte fits into a word, unless the text is as long as can be and all newlines. -/
theorem lineAt_lt {source : List Char} (hsize : utf8Length source < UInt32.size)
    (hne : source ≠ List.replicate (UInt32.size - 1) '\n') (offset : Nat) :
    lineAt source offset < UInt32.size := by
  have hline := lineAt_le source offset
  have hcount : newlines source ≤ source.length := List.count_le_length
  have hlength := length_le_utf8Length source
  by_cases hfull : newlines source = UInt32.size - 1
  · have hall : newlines source = source.length := by omega
    have heq : source = List.replicate source.length '\n' :=
      List.eq_replicate_iff.2 ⟨rfl, fun c hc => (List.count_eq_length.1 hall c hc).symm⟩
    rw [← hall, hfull] at heq
    exact absurd heq hne
  · omega

theorem lineAt_append : lineAt (cs ++ ds) (utf8Length cs) = 1 + newlines cs := by
  rw [lineAt, take_utf8_append, count_utf8]

end Text

open Text

/-- The tokens `pieces` and the end `last` make up the bytes of a text from `start` on, together
with the spaces around them. -/
structure Lossless (source : List Char) (start : Nat) (pieces : List Token) (last : Token) :
    Prop where
  last_kind : last.kind = .eof
  last_start : last.span.start.offset.toNat = (utf8 source).length
  last_stop : last.span.stop.offset.toNat = (utf8 source).length
  kinds : ∀ t ∈ pieces, t.kind ≠ .eof
  nonempty : ∀ t ∈ pieces, t.span.start.offset.toNat < t.span.stop.offset.toNat
  ordered : pieces.Pairwise fun t u => t.span.stop.offset.toNat ≤ u.span.start.offset.toNat
  inside : ∀ t ∈ pieces,
    start ≤ t.span.start.offset.toNat ∧ t.span.stop.offset.toNat ≤ (utf8 source).length
  /-- The bytes in the span of a token are those of its text. -/
  texts : ∀ t ∈ pieces,
    (utf8 source).extract t.span.start.offset.toNat t.span.stop.offset.toNat = utf8 t.text
  /-- From the end of each token up to the next one, the bytes are those of a space. -/
  gaps : ∀ g ∈ (start :: pieces.map (·.span.stop.offset.toNat)).zip
      ((pieces ++ [last]).map (·.span.start.offset.toNat)),
    ∃ gap behind, Gap behind gap ∧ (utf8 source).drop g.1 = utf8 (gap ++ behind) ∧
      g.2 = g.1 + (utf8 gap).length
  /-- Lines are counted up along with the newlines, as 32-bit words. -/
  lines : ∀ t ∈ pieces ++ [last], ∀ place ∈ [t.span.start, t.span.stop],
    place.line = .ofNat (lineAt source place.offset.toNat)

/-- Each token begins before those behind it. -/
theorem Lossless.starts {source : List Char} {start : Nat} {pieces : List Token} {last : Token}
    (h : Lossless source start pieces last) : (pieces ++ [last]).Pairwise fun t u =>
      t.span.start.offset.toNat < u.span.start.offset.toNat := by
  refine List.pairwise_append.2 ⟨?_, List.pairwise_singleton _ _, fun t ht u hu => ?_⟩
  · exact h.ordered.imp_of_mem fun ht _ hle => Nat.lt_of_lt_of_le (h.nonempty _ ht) hle
  · cases List.mem_singleton.1 hu
    rw [h.last_start]
    exact Nat.lt_of_lt_of_le (h.nonempty t ht) (h.inside t ht).2

namespace Position

variable {file : String} {cs ds : List Char}

theorem toNat_offset_behind (h : utf8Length cs < UInt32.size) :
    (behind file cs).offset.toNat = utf8Length cs :=
  UInt32.toNat_ofNat_of_lt' h

theorem toNat_line_behind (h : 1 + newlines cs < UInt32.size) :
    (behind file cs).line.toNat = 1 + newlines cs :=
  UInt32.toNat_ofNat_of_lt' h

theorem line_behind (h : utf8Length (cs ++ ds) < UInt32.size) :
    (behind file cs).line = .ofNat (lineAt (cs ++ ds) (behind file cs).offset.toNat) := by
  rw [utf8Length_append] at h
  rw [toNat_offset_behind (by omega), lineAt_append]
  rfl

end Position

namespace Laid

variable {file : String} {before gap rest : List Char} {t : Token} {ts : List Token}

theorem lossless_last (hsize : utf8Length (before ++ gap) < UInt32.size) (space : Gap [] gap) :
    Lossless (before ++ gap) (utf8Length before) [] (.endAt (.behind file (before ++ gap))) where
  last_kind := rfl
  last_start := (Position.toNat_offset_behind hsize).trans (length_utf8 _).symm
  last_stop := (Position.toNat_offset_behind hsize).trans (length_utf8 _).symm
  kinds := by simp
  nonempty := by simp
  ordered := .nil
  inside := by simp
  texts := by simp
  gaps := by
    intro g hg
    cases List.mem_singleton.1 hg
    refine ⟨gap, [], space, by rw [drop_utf8_append, List.append_nil], ?_⟩
    have hoffset : (Position.behind file (before ++ gap)).offset.toNat = _ :=
      Position.toNat_offset_behind hsize
    rw [length_utf8, ← utf8Length_append]
    exact hoffset
  lines := by
    intro t ht place hplace
    cases List.mem_singleton.1 ht
    have heq : place = .behind file (before ++ gap) := by simpa [Token.endAt] using hplace
    subst heq
    have hline : (Position.behind file (before ++ gap)).line =
        .ofNat (lineAt (before ++ gap ++ []) (Position.behind file (before ++ gap)).offset.toNat) :=
      Position.line_behind (by simpa using hsize)
    rwa [List.append_nil] at hline

/-- A token and the space in front of it, before tokens that lose nothing. -/
theorem lossless_next {pieces : List Token} {last : Token}
    (hsize : utf8Length (before ++ (gap ++ (t.text ++ rest))) < UInt32.size)
    (space : Gap (t.text ++ rest) gap) (kind : t.kind ≠ .eof) (nonempty : t.text ≠ [])
    (span : t.span = ⟨.behind file (before ++ gap), .behind file (before ++ gap ++ t.text)⟩)
    (h : Lossless (before ++ (gap ++ (t.text ++ rest))) (utf8Length (before ++ gap ++ t.text))
      pieces last) :
    Lossless (before ++ (gap ++ (t.text ++ rest))) (utf8Length before) (t :: pieces) last := by
  have hsource : before ++ (gap ++ (t.text ++ rest)) = before ++ gap ++ (t.text ++ rest) :=
    (List.append_assoc ..).symm
  have hsource' : before ++ (gap ++ (t.text ++ rest)) = before ++ gap ++ t.text ++ rest := by
    simp only [List.append_assoc]
  have hlength : utf8Length before + utf8Length gap + utf8Length t.text + utf8Length rest <
      UInt32.size := by
    simpa only [utf8Length_append, Nat.add_assoc] using hsize
  have hstart : t.span.start.offset.toNat = utf8Length (before ++ gap) := by
    rw [span]
    exact Position.toNat_offset_behind (by rw [utf8Length_append]; omega)
  have hstop : t.span.stop.offset.toNat = utf8Length (before ++ gap ++ t.text) := by
    rw [span]
    exact Position.toNat_offset_behind (by rw [utf8Length_append, utf8Length_append]; omega)
  have hpos := utf8Length_pos nonempty
  have hend : (utf8 (before ++ (gap ++ (t.text ++ rest)))).length =
      utf8Length (before ++ gap ++ t.text) + utf8Length rest := by
    rw [length_utf8, hsource', utf8Length_append]
  exact {
    last_kind := h.last_kind
    last_start := h.last_start
    last_stop := h.last_stop
    kinds := List.forall_mem_cons.2 ⟨kind, h.kinds⟩
    nonempty := by
      refine List.forall_mem_cons.2 ⟨?_, h.nonempty⟩
      rw [hstart, hstop, utf8Length_append _ t.text]
      omega
    ordered := .cons (fun u hu => hstop ▸ (h.inside u hu).1) h.ordered
    inside := by
      have hbefore : utf8Length before ≤ utf8Length (before ++ gap) := by simp
      have htext : utf8Length before ≤ utf8Length (before ++ gap ++ t.text) := by simp
      refine List.forall_mem_cons.2 ⟨⟨hstart ▸ hbefore, ?_⟩, fun u hu => ?_⟩
      · rw [hstop, hend]
        exact Nat.le_add_right ..
      · exact ⟨Nat.le_trans htext (h.inside u hu).1, (h.inside u hu).2⟩
    texts := by
      refine List.forall_mem_cons.2 ⟨?_, h.texts⟩
      rw [hstart, hstop, hsource, utf8Length_append _ t.text, List.extract_eq_take_drop,
        drop_utf8_append, Nat.add_sub_cancel_left, take_utf8_append]
    gaps := by
      refine List.forall_mem_cons.2 ⟨⟨gap, t.text ++ rest, space, drop_utf8_append, ?_⟩, ?_⟩
      · rw [length_utf8, ← utf8Length_append, ← hstart]
      · rw [← hstop] at h
        exact h.gaps
    lines := by
      refine List.forall_mem_cons.2 ⟨fun place hplace => ?_, h.lines⟩
      rw [span] at hplace
      rcases List.mem_cons.1 hplace with rfl | hplace
      · rw [hsource] at hsize ⊢
        exact Position.line_behind hsize
      · cases List.mem_singleton.1 hplace
        rw [hsource'] at hsize ⊢
        exact Position.line_behind hsize }

theorem lossless (h : Laid file before rest ts)
    (hsize : utf8Length (before ++ rest) < UInt32.size) :
    ∃ pieces last, ts = pieces ++ [last] ∧
      Lossless (before ++ rest) (utf8Length before) pieces last := by
  induction h with
  | last space => exact ⟨[], _, rfl, lossless_last hsize space⟩
  | @next before gap rest t ts space kind nonempty span _ ih =>
    have hsource : before ++ gap ++ t.text ++ rest = before ++ (gap ++ (t.text ++ rest)) := by
      simp only [List.append_assoc]
    rw [hsource] at ih
    obtain ⟨pieces, last, rfl, hlater⟩ := ih hsize
    exact ⟨t :: pieces, last, rfl, lossless_next hsize space kind nonempty span hlater⟩

end Laid

/-- The tokens of a source and the spaces between them make up its bytes, and their lines count its
newlines. A line is a 32-bit word; its number can be too large for one only in the longest source
that has nothing but newlines, where the line of the end comes out as 0. -/
theorem tokenize_lossless {source file : String} {ts : List Token}
    (hsize : (utf8 source.toList).length < UInt32.size) (h : tokenize source file = .ok ts) :
    ∃ pieces last, ts = pieces ++ [last] ∧ Lossless source.toList 0 pieces last ∧
      (source.toList ≠ List.replicate (UInt32.size - 1) '\n' →
        ∀ t ∈ ts, ∀ place ∈ [t.span.start, t.span.stop],
          place.line.toNat = lineAt source.toList place.offset.toNat) := by
  rw [length_utf8] at hsize
  have hlaid : Laid file [] source.toList ts := Cursor.laid_of_scan h
  obtain ⟨pieces, last, rfl, hlossless⟩ := hlaid.lossless hsize
  refine ⟨pieces, last, rfl, hlossless, fun hne t ht place hplace => ?_⟩
  rw [hlossless.lines t ht place hplace]
  exact UInt32.toNat_ofNat_of_lt' (lineAt_lt hsize hne _)

/-- A comment with a character of two bytes, and a string on two lines. -/
theorem lossless_comment_string :
    ∃ ts, tokenize "x // é\n\"a\nb\" 1.5" "main" = .ok ts ∧
      (utf8 "x // é\n\"a\nb\" 1.5".toList).length < UInt32.size ∧
      ∃ pieces last, ts = pieces ++ [last] ∧
        Lossless "x // é\n\"a\nb\" 1.5".toList 0 pieces last ∧
        ∀ t ∈ ts, ∀ place ∈ [t.span.start, t.span.stop],
          place.line.toNat = lineAt "x // é\n\"a\nb\" 1.5".toList place.offset.toNat := by
  have hok : (tokenize "x // é\n\"a\nb\" 1.5" "main").isOk = true := by decide +kernel
  have hsize : (utf8 "x // é\n\"a\nb\" 1.5".toList).length < UInt32.size := by decide
  cases h : tokenize "x // é\n\"a\nb\" 1.5" "main" with
  | error e => rw [h] at hok; cases hok
  | ok ts =>
    obtain ⟨pieces, last, hts, hlossless, hlines⟩ := tokenize_lossless hsize h
    refine ⟨ts, rfl, hsize, pieces, last, hts, hlossless, hlines fun heq => ?_⟩
    have hmem : 'x' ∈ "x // é\n\"a\nb\" 1.5".toList := by decide
    rw [heq] at hmem
    exact absurd (List.eq_of_mem_replicate hmem) (by decide)

end Chalk
