import Chalk.C.Expr
import Chalk.Proofs.C.Outside
import Chalk.Proofs.Grammar.Acceptance
import Chalk.Proofs.Token.Lexing

/-!
# Expressions in C read back

The C text of an expression is an expression of the language again, and it is the same one: for a
tree of plain parts (`Expr.IsPlain`) the text is cut into tokens which derive that tree. Each kind
of node is read behind any text and in front of anything that cannot go on with an expression
(`Expr.Written`), so the parts of a node can be put together without a look at its neighbours.
-/

namespace Chalk

open Chalk.Cursor

/-- An expression of integers, plain strings and names, at any depth. -/
inductive Expr.IsPlain {ν : Type} : Expr ν → Prop
  | int {n : Nat} {note : ν} (fits : n ≤ 9223372036854775807) : IsPlain (.number (.int n) note)
  | string {bytes : List UInt8} {note : ν} (plain : ∀ b ∈ bytes, C.IsPlainByte b) :
      IsPlain (.string bytes note)
  | var {name : String} {note : ν} (isName : IsName name) : IsPlain (.var name note)
  | negate {operand : Expr ν} {note : ν} (inside : IsPlain operand) :
      IsPlain (.negate operand note)
  | binary {operator : Operator} {left right : Expr ν} {note : ν} (left_plain : IsPlain left)
      (right_plain : IsPlain right) : IsPlain (.binary operator left right note)
  | call {callee : String} {arguments : List (Expr ν)} {note : ν} (isName : IsName callee)
      (plain : ∀ a ∈ arguments, IsPlain a) : IsPlain (.call callee arguments note)

namespace C

/-- What may stand behind an expression. -/
def Ends (rest : List Char) : Prop :=
  ∀ c ∈ rest.head?, c = ' ' ∨ c = ')' ∨ c = ','

theorem ends_cons {c : Char} (h : c = ' ' ∨ c = ')' ∨ c = ',') (rest : List Char) :
    Ends (c :: rest) := by
  rintro _ ⟨⟩
  exact h

theorem Ends.char {rest : List Char} (h : Ends rest) : ∀ c ∈ rest.head?,
    Lexeme.isNamePart c = false ∧ c.isDigit = false ∧ c ≠ '.' ∧ c ≠ '=' ∧ c ≠ '>' ∧ c ≠ '/' := by
  intro c hc
  rcases h c hc with rfl | rfl | rfl <;> decide

/-- The text of an expression begins neither with a blank nor with a character that makes another
sign of one in front of it. -/
def Begins (text : List Char) : Prop :=
  ∃ c cs, text = c :: cs ∧ Text.isBlank c = false ∧ c ≠ '=' ∧ c ≠ '>' ∧ c ≠ '/'

theorem begins_of_code {c : Char} {cs : List Char} (hlow : 48 ≤ c.toNat) (hhigh : c.toNat ≤ 122)
    (heq : c ≠ '=') (hgt : c ≠ '>') : Begins (c :: cs) := by
  refine ⟨c, cs, rfl, Text.isBlank_eq_false (by omega) (by omega), heq, hgt, ?_⟩
  rintro rfl
  exact absurd hlow (by decide)

theorem Begins.append {text : List Char} (h : Begins text) (rest : List Char) :
    Begins (text ++ rest) := by
  obtain ⟨c, cs, rfl, hc⟩ := h
  exact ⟨c, cs ++ rest, rfl, hc⟩

theorem Begins.blank {text : List Char} (h : Begins text) (rest : List Char) :
    ∀ c ∈ (text ++ rest).head?, Text.isBlank c = false := by
  obtain ⟨c, cs, rfl, hblank, -⟩ := h
  rintro _ ⟨⟩
  exact hblank

theorem Begins.sign {text : List Char} (h : Begins text) (rest : List Char) :
    ∀ c ∈ (text ++ rest).head?, c ≠ '=' ∧ c ≠ '>' ∧ c ≠ '/' := by
  obtain ⟨c, cs, rfl, -, hsign⟩ := h
  rintro _ ⟨⟩
  exact hsign

end C

namespace Expr

theorem toList_cText_number (n : Nat) (ty : Ty) :
    (number (.int n) ty).cText.toList = Nat.toDigits 10 n := by
  rw [cText]
  exact Nat.toList_repr

theorem toList_cText_string (bytes : List UInt8) (ty : Ty) :
    (string bytes ty).cText.toList = '"' :: (C.escape bytes ++ ['"']) := by
  simp [cText]

theorem toList_cText_negate (e : TypedExpr) (ty : Ty) :
    (negate e ty).cText.toList = ['('] ++ (['-'] ++ e.cText.toList ++ [')']) := by
  simp [cText]

theorem toList_symbol (op : Operator) : op.symbol.toList = op.sign.spelling := by
  cases op <;> rfl

theorem toList_cText_binary (op : Operator) (l r : TypedExpr) (ty : Ty) :
    (binary op l r ty).cText.toList = ['('] ++ (l.cText.toList ++ ([' '] ++ (op.sign.spelling ++
      ([' '] ++ r.cText.toList))) ++ [')']) := by
  simp [cText, toList_symbol]

theorem toList_cText_call (f : String) (es : List TypedExpr) (ty : Ty) :
    (call f es ty).cText.toList = f.toList ++ (['('] ++
      ([',', ' '].intercalate (es.map (·.cText.toList)) ++ [')'])) := by
  simp [cText, cTexts_eq, String.toList_intercalate, Function.comp_def]

/-- Behind any text, and in front of anything that cannot go on with it, the text of an expression
is cut into tokens that make up the same expression. -/
def Written (file : String) (e : TypedExpr) : Prop :=
  C.Begins e.cText.toList ∧ ∀ before rest, C.Ends rest → ∃ ts e',
    Passes file before e.cText.toList rest ts ∧ Derives Denotes (.unary e') ts ∧
      e'.map (fun _ => ()) = e.map (fun _ => ())

namespace Written

variable {file : String} {ty : Ty}

theorem number {n : Nat} (fits : n ≤ 9223372036854775807) :
    Written file (.number (.int n) ty) := by
  have hdigits : ∀ d ∈ Nat.toDigits 10 n, d.isDigit = true := fun d hd =>
    Nat.isDigit_of_mem_toDigits (by decide) (by decide) hd
  have hvalue : Nat.ofDigitChars 10 (Nat.toDigits 10 n) 0 = n :=
    Nat.ofDigitChars_toDigits (by decide) (by decide)
  rw [Written, toList_cText_number]
  refine ⟨?_, fun before rest hrest => ?_⟩
  · obtain ⟨d, ds, hds⟩ := List.exists_cons_of_ne_nil (Nat.toDigits_ne_nil (n := n) (b := 10))
    have hd : d.isDigit = true := hdigits d (hds ▸ List.mem_cons_self)
    have hcode := Char.isDigit_iff_toNat.1 hd
    rw [hds]
    refine C.begins_of_code hcode.1 (Nat.le_trans hcode.2 (by decide)) ?_ ?_ <;>
      · rintro rfl
        exact absurd hd (by decide)
  · obtain ⟨t, hkind, htext, hpasses⟩ := Passes.digits file before
      Nat.toDigits_ne_nil hdigits fun d hd => ⟨(hrest.char d hd).2.1, (hrest.char d hd).2.2.1⟩
    have hlist : t.value.toList = Nat.toDigits 10 n := by rw [htext, String.toList_ofList]
    have hdenotes : Denotes t.value (.int n) := by
      have hint : Denotes t.value (.int (Nat.ofDigitChars 10 t.value.toList 0)) :=
        .int (hlist ▸ ⟨Nat.toDigits_ne_nil, hdigits⟩) (by rwa [hlist, hvalue])
      rwa [hlist, hvalue] at hint
    exact ⟨[t], _, hpasses, .ofAtom (.number hkind hdenotes), rfl⟩

theorem string {bytes : List UInt8} (plain : ∀ b ∈ bytes, C.IsPlainByte b) :
    Written file (.string bytes ty) := by
  rw [Written, toList_cText_string]
  refine ⟨⟨'"', _, rfl, by decide, by decide, by decide, by decide⟩, fun before rest _ => ?_⟩
  obtain ⟨t, hkind, htext, hpasses⟩ :=
    Passes.quoted file before (C.cutClosed?_escape plain rest)
  refine ⟨[t], _, hpasses, .ofAtom (.string hkind), ?_⟩
  rw [htext, String.toList_ofList, C.unescape_escape plain]
  rfl

theorem begins_of_isName {name : String} (h : IsName name) : C.Begins name.toList := by
  obtain ⟨c, cs, htext, hc, -⟩ := h.exists_cons
  have hcode := Lexeme.code_of_isNameStart hc
  rw [htext]
  refine C.begins_of_code (by omega) hcode.2 ?_ ?_ <;>
    · rintro rfl
      exact absurd hc (by decide)

theorem var {name : String} (h : IsName name) : Written file (.var name ty) := by
  have htext : (Expr.var name ty).cText = name := rfl
  rw [Written, htext]
  refine ⟨begins_of_isName h, fun before rest hrest => ?_⟩
  obtain ⟨t, hkind, hvalue, hpasses⟩ :=
    Passes.name file before h fun d hd => (hrest.char d hd).1
  exact ⟨[t], _, hpasses, .ofAtom (.var hkind), by rw [hvalue]; rfl⟩

/-- What stands in parentheses is read up to the closing one. -/
theorem parens {inside : List Char} {e : TypedExpr}
    (htext : e.cText.toList = ['('] ++ (inside ++ [')'])) (hbegins : C.Begins inside)
    (h : ∀ before rest, C.Ends rest → ∃ ts e', Passes file before inside rest ts ∧
      Derives Denotes (.expr e') ts ∧ e'.map (fun _ => ()) = e.map (fun _ => ())) :
    Written file e := by
  rw [Written, htext]
  refine ⟨⟨'(', _, rfl, by decide, by decide, by decide, by decide⟩, fun before rest hrest => ?_⟩
  have hfirst := hbegins.sign ([')'] ++ rest)
  rw [← List.append_assoc] at hfirst
  obtain ⟨o, hopen, hpassOpen⟩ := Passes.sign file before .openParen hfirst
  have hclosing : C.Ends ([')'] ++ rest) := C.ends_cons (by simp) rest
  obtain ⟨ts, e', hpass, hderives, hmap⟩ := h (before ++ ['(']) _ hclosing
  obtain ⟨c, hclose, hpassClose⟩ := Passes.sign file (before ++ ['('] ++ inside) .closeParen
    fun d hd => (hrest.char d hd).2.2.2
  exact ⟨_, e', hpassOpen.append (hpass.append hpassClose),
    .ofAtom (.group hopen hderives hclose), hmap⟩

theorem negate {e : TypedExpr} (h : Written file e) : Written file (.negate e ty) := by
  obtain ⟨hbegins, hwritten⟩ := h
  refine parens (toList_cText_negate e ty)
    ⟨'-', _, rfl, by decide, by decide, by decide, by decide⟩ fun before rest hrest => ?_
  obtain ⟨t, hdash, hpassDash⟩ := Passes.sign file before .dash (hbegins.sign rest)
  obtain ⟨ts, e', hpass, hderives, hmap⟩ := hwritten (before ++ ['-']) rest hrest
  have hnegate : Derives Denotes (.unary (.negate e' (some t.line))) (t :: ts) :=
    .negate hdash hderives
  refine ⟨_, _, hpassDash.append hpass, hnegate.operand_of_unary .default, ?_⟩
  rw [Expr.map, hmap, Expr.map]

theorem binary {op : Operator} {l r : TypedExpr} (hl : Written file l) (hr : Written file r) :
    Written file (.binary op l r ty) := by
  obtain ⟨hbeginsL, hwrittenL⟩ := hl
  obtain ⟨hbeginsR, hwrittenR⟩ := hr
  refine parens (toList_cText_binary op l r ty) (hbeginsL.append _) fun before rest hrest => ?_
  -- the operator stands between two spaces
  have hspace : ∀ text : List Char, C.Ends ([' '] ++ text) := C.ends_cons (by simp)
  have hmark : ∀ text : List Char, ∀ d ∈ ([' '] ++ text).head?, d ≠ '=' ∧ d ≠ '>' ∧ d ≠ '/' :=
    fun text d hd => ((hspace text).char d hd).2.2.2
  have hsymbol : ∀ text : List Char, ∀ d ∈ (op.sign.spelling ++ text).head?,
      Text.isBlank d = false := by
    intro text d hd
    cases op <;> cases hd <;> decide
  obtain ⟨ls, l', hpassL, hderivesL, hmapL⟩ := hwrittenL before _ (hspace _)
  obtain ⟨t, hkind, hpassOp⟩ := Passes.sign file (before ++ l.cText.toList ++ [' ']) op.sign
    (hmark (r.cText.toList ++ rest))
  obtain ⟨rs, r', hpassR, hderivesR, hmapR⟩ := hwrittenR
    (before ++ l.cText.toList ++ [' '] ++ op.sign.spelling ++ [' ']) rest hrest
  have hpass : Passes file before
      (l.cText.toList ++ ([' '] ++ (op.sign.spelling ++ ([' '] ++ r.cText.toList)))) rest
      (ls ++ ([] ++ ([t] ++ ([] ++ rs)))) := by
    refine .append ?_ (.append (.space ?_) (.append ?_ (.append (.space ?_) hpassR)))
    · exact hpassL
    · rw [List.append_assoc]
      exact hsymbol _
    · exact hpassOp
    · exact hbeginsR.blank rest
  have hchain : Derives Denotes (.chain op.power (.binary op l' r' l'.note)) (ls ++ t :: rs) :=
    .operation (.ofOperand (hderivesL.operand_of_unary _)) hkind (hderivesR.operand_of_unary _)
  have hlow : Power.default < op.power := by cases op <;> decide
  refine ⟨_, _, hpass, hchain.operand_of_chain hlow, ?_⟩
  rw [Expr.map, hmapL, hmapR, Expr.map]

/-- The texts of arguments with commas between them. -/
theorem begins_arguments {e : TypedExpr} {es : List TypedExpr} (h : Written file e) :
    C.Begins ([',', ' '].intercalate ((e :: es).map (·.cText.toList))) := by
  cases es with
  | nil =>
    rw [List.map_cons, List.map_nil, List.intercalate_singleton]
    exact h.1
  | cons e₂ es =>
    rw [List.map_cons, List.map_cons, List.intercalate_cons_cons, List.append_assoc]
    exact h.1.append _

theorem arguments {es : List TypedExpr} (h : ∀ e ∈ es, Written file e) (before : List Char)
    {rest : List Char} (hrest : C.Ends rest) : ∃ ts es',
      Passes file before ([',', ' '].intercalate (es.map (·.cText.toList))) rest ts ∧
        Derives Denotes (.arguments es') ts ∧
          mapList (fun _ => ()) es' = mapList (fun _ => ()) es := by
  induction es generalizing before with
  | nil => exact ⟨[], [], .nil, .noArgument, rfl⟩
  | cons e es ih =>
    obtain ⟨he, hes⟩ := List.forall_mem_cons.1 h
    cases es with
    | nil =>
      obtain ⟨ts, e', hpass, hderives, hmap⟩ := he.2 before rest hrest
      rw [List.map_cons, List.map_nil, List.intercalate_singleton]
      refine ⟨ts, [e'], hpass, .lastArgument (hderives.operand_of_unary .default), ?_⟩
      rw [mapList, mapList, mapList, mapList, hmap]
    | cons e₂ es =>
      have hcomma : ∀ text : List Char, C.Ends ([',', ' '] ++ text) :=
        fun text => C.ends_cons (by simp) (' ' :: text)
      obtain ⟨ts, e', hpass, hderives, hmap⟩ := he.2 before _ (hcomma _)
      obtain ⟨us, es', hpassRest, hderivesRest, hmapRest⟩ :=
        ih hes (before ++ e.cText.toList ++ [',', ' '])
      have hspace : ∀ text : List Char, ∀ d ∈ ([' '] ++ text).head?,
          d ≠ '=' ∧ d ≠ '>' ∧ d ≠ '/' := by
        rintro text _ ⟨⟩
        decide
      obtain ⟨t, hkind, hpassComma⟩ := Passes.sign file (before ++ e.cText.toList) .comma
        (hspace ([',', ' '].intercalate ((e₂ :: es).map (·.cText.toList)) ++ rest))
      have hbegins : C.Begins ([',', ' '].intercalate ((e₂ :: es).map (·.cText.toList))) :=
        begins_arguments (hes e₂ List.mem_cons_self)
      have hseparator : Passes file (before ++ e.cText.toList) [',', ' ']
          ([',', ' '].intercalate ((e₂ :: es).map (·.cText.toList)) ++ rest) [t] :=
        hpassComma.append (.space (hbegins.blank rest))
      refine ⟨ts ++ ([t] ++ us), e' :: es', ?_,
        .moreArguments (hderives.operand_of_unary .default) hkind hderivesRest, ?_⟩
      · rw [List.map_cons, List.map_cons, List.intercalate_cons_cons, List.append_assoc]
        refine .append ?_ (hseparator.append hpassRest)
        exact hpass
      · rw [mapList, mapList, hmap, hmapRest]

theorem call {f : String} {es : List TypedExpr} (hf : IsName f) (h : ∀ e ∈ es, Written file e) :
    Written file (.call f es ty) := by
  rw [Written, toList_cText_call]
  refine ⟨(begins_of_isName hf).append _, fun before rest hrest => ?_⟩
  have hopening : ∀ text : List Char, ∀ d ∈ (['('] ++ text).head?, Lexeme.isNamePart d = false := by
    rintro text _ ⟨⟩
    decide
  have hclosing : C.Ends ([')'] ++ rest) := C.ends_cons (by simp) rest
  have hinside : ∀ d ∈ ([',', ' '].intercalate (es.map (·.cText.toList)) ++ [')'] ++ rest).head?,
      d ≠ '=' ∧ d ≠ '>' ∧ d ≠ '/' := by
    rw [List.append_assoc]
    cases es with
    | nil =>
      rintro _ ⟨⟩
      decide
    | cons e es => exact (begins_arguments (h e List.mem_cons_self)).sign _
  obtain ⟨t, hkind, hvalue, hpassName⟩ := Passes.name file before hf (hopening _)
  obtain ⟨o, hopen, hpassOpen⟩ := Passes.sign file (before ++ f.toList) .openParen hinside
  obtain ⟨ts, es', hpass, hderives, hmap⟩ := arguments h (before ++ f.toList ++ ['(']) hclosing
  obtain ⟨c, hclose, hpassClose⟩ := Passes.sign file
    (before ++ f.toList ++ ['('] ++ [',', ' '].intercalate (es.map (·.cText.toList))) .closeParen
    fun d hd => (hrest.char d hd).2.2.2
  have hparens : Passes file (before ++ f.toList)
      (['('] ++ ([',', ' '].intercalate (es.map (·.cText.toList)) ++ [')'])) rest
      ([o] ++ (ts ++ [c])) := hpassOpen.append (hpass.append hpassClose)
  refine ⟨_, _, Passes.append ?_ hparens, .call (.name hkind) hopen hderives hclose, ?_⟩
  · exact hpassName
  rw [hvalue, Expr.map, hmap, Expr.map]

end Written

theorem IsPlain.written {e : TypedExpr} (h : e.IsPlain) (file : String) : Written file e := by
  induction h with
  | int fits => exact .number fits
  | string plain => exact .string plain
  | var isName => exact .var isName
  | negate _ ih => exact .negate ih
  | binary _ _ ihl ihr => exact .binary ihl ihr
  | call isName _ ih => exact .call isName ih

/-! ## Dashes -/

theorem tidy_name {name : String} (h : IsName name) : C.Tidy name.toList name.toList := by
  obtain ⟨c, cs, htext, hc, hcs⟩ := h.exists_cons
  have hmark : ∀ d : Char, Lexeme.isNameStart d = false → Lexeme.isNamePart d = false →
      d ∉ name.toList := by
    intro d hstart hpart hmem
    rw [htext] at hmem
    rcases List.mem_cons.1 hmem with rfl | hmem
    · exact absurd hc (by simp [hstart])
    · exact absurd (hcs d hmem) (by simp [hpart])
  exact .of_not_mem (hmark '-' (by decide) (by decide)) (hmark '"' (by decide) (by decide))

theorem tidy_string {bytes : List UInt8} (h : ∀ b ∈ bytes, C.IsPlainByte b) :
    C.Tidy ('"' :: (C.escape bytes ++ ['"'])) ['"', '"'] where
  outside rest := by
    have hopen : C.outside false ('"' :: (C.escape bytes ++ ['"']) ++ rest) =
        '"' :: C.outside true (C.escape bytes ++ ['"'] ++ rest) := rfl
    rw [hopen, List.append_assoc, List.singleton_append, C.outside_escape h]
    rfl
  chain := by simp [C.NotDashes]
  first := by simp
  last := by simp

/-- An operator stands between spaces, so a dash has no dash beside it. -/
theorem tidy_operator (op : Operator) :
    C.Tidy ([' '] ++ (op.sign.spelling ++ [' '])) ([' '] ++ (op.sign.spelling ++ [' '])) where
  outside := C.outside_append (by cases op <;> decide)
  chain := by cases op <;> simp [Operator.sign, Sign.spelling, C.NotDashes]
  first := by simp
  last c hc := by
    rw [← List.append_assoc, List.getLast?_concat] at hc
    cases hc
    decide

theorem tidy_arguments {texts : List (List Char)} (h : ∀ text ∈ texts, ∃ body, C.Tidy text body) :
    ∃ body, C.Tidy ([',', ' '].intercalate texts) body := by
  induction texts with
  | nil => exact ⟨[], .of_not_mem (by simp) (by simp)⟩
  | cons text texts ih =>
    obtain ⟨⟨body, htext⟩, htexts⟩ := List.forall_mem_cons.1 h
    cases texts with
    | nil => exact ⟨body, List.intercalate_singleton ▸ htext⟩
    | cons text₂ texts =>
      obtain ⟨body', hlater⟩ := ih htexts
      have hcomma : C.Tidy [',', ' '] [',', ' '] := .of_not_mem (by decide) (by decide)
      rw [List.intercalate_cons_cons]
      exact ⟨_, (htext.append hcomma).append hlater⟩

theorem IsPlain.tidy {e : TypedExpr} (h : e.IsPlain) : ∃ body, C.Tidy e.cText.toList body := by
  have hopen : C.Tidy ['('] ['('] := .of_not_mem (by decide) (by decide)
  have hclose : C.Tidy [')'] [')'] := .of_not_mem (by decide) (by decide)
  induction h with
  | @int n _ _ =>
    have hdigit : ∀ d : Char, d.isDigit = false → d ∉ Nat.toDigits 10 n := by
      intro d hd hmem
      rw [Nat.isDigit_of_mem_toDigits (by decide) (by decide) hmem] at hd
      cases hd
    rw [toList_cText_number]
    exact ⟨_, .of_not_mem (hdigit '-' rfl) (hdigit '"' rfl)⟩
  | string plain =>
    rw [toList_cText_string]
    exact ⟨_, tidy_string plain⟩
  | var isName => exact ⟨_, tidy_name isName⟩
  | negate _ ih =>
    obtain ⟨body, hbody⟩ := ih
    rw [toList_cText_negate]
    exact ⟨_, hbody.negate⟩
  | @binary op l r _ _ _ ihl ihr =>
    obtain ⟨body, hl⟩ := ihl
    obtain ⟨body', hr⟩ := ihr
    have hall := hopen.append ((hl.append ((tidy_operator op).append hr)).append hclose)
    rw [toList_cText_binary]
    exact ⟨_, by simpa using hall⟩
  | call isName _ ih =>
    obtain ⟨body, hbody⟩ := tidy_arguments (List.forall_mem_map.2 ih)
    rw [toList_cText_call]
    exact ⟨_, (tidy_name isName).append (hopen.append (hbody.append hclose))⟩

end Expr

/-- The C text of a plain expression is cut into tokens, from which the same expression is read up
to the end, and outside of literals no two dashes in it are neighbours. -/
theorem Expr.read_cText_eq {e : TypedExpr} (h : e.IsPlain) (file : String) :
    (∃ ts e' s', tokenize e.cText file = .ok ts ∧
      Grammar.chalk.read (·.expr .default) (Stream.ofTokens ts file) = .done e' s' ∧
      s'.kind = .eof ∧ s'.later = [] ∧ e'.map (fun _ => ()) = e.map (fun _ => ())) ∧
    (C.outside false e.cText.toList).IsChain fun c d => ¬ (c = '-' ∧ d = '-') := by
  constructor
  · obtain ⟨ts, e', hpass, hderives, hmap⟩ := (h.written file).2 [] [] (by simp [C.Ends])
    have hlead : (Stream.ofTokens (ts ++ [.endAt (.behind file ([] ++ e.cText.toList))]) file).Leads
        ts ⟨.endAt (.behind file ([] ++ e.cText.toList)), []⟩ := Stream.tokens_ofTokens_of_end ..
    have hread := Stream.expr_eq_done Denotes.read? hlead rfl (hderives.operand_of_unary .default)
    exact ⟨_, e', _, hpass.scan_eq, hread, rfl, rfl, hmap⟩
  · obtain ⟨body, hbody⟩ := h.tidy
    have houtside : C.outside false e.cText.toList = body := by
      simpa [C.outside] using hbody.outside []
    rw [houtside]
    exact hbody.chain

/-- The tree of `f((-(-9223372036854775807)), "--\"\\\n", (x - (-g())))`. -/
def nestedDashes : TypedExpr :=
  .call "f" [.negate (.negate (.number (.int (9223372036854775807 : Nat)) .int) .float) .int,
    .string [0x2d, 0x2d, 0x22, 0x5c, 0x0a] .string,
    .binary .subtract (.var "x" .bool) (.negate (.call "g" [] .void) .int) .int] .void

theorem read_cText_nestedDashes : nestedDashes.IsPlain ∧
    (∃ ts e' s', tokenize nestedDashes.cText "shell" = .ok ts ∧
      Grammar.chalk.read (·.expr .default) (Stream.ofTokens ts "shell") = .done e' s' ∧
      s'.kind = .eof ∧ s'.later = [] ∧ e'.map (fun _ => ()) = nestedDashes.map (fun _ => ())) ∧
    (C.outside false nestedDashes.cText.toList).IsChain fun c d => ¬ (c = '-' ∧ d = '-') := by
  have hname : ∀ name ∈ ["f", "g", "x"], IsName name := by
    intro name hmem
    simp only [List.mem_cons, List.not_mem_nil, or_false] at hmem
    rcases hmem with rfl | rfl | rfl <;>
      exact ⟨⟨_, [], rfl, .inl rfl, by simp⟩, fun k => by cases k <;> decide⟩
  have hplain : nestedDashes.IsPlain := by
    refine .call (hname "f" (by simp)) ?_
    simp only [List.forall_mem_cons, List.not_mem_nil, false_implies, implies_true, and_true]
    refine ⟨.negate (.negate (.int (Nat.le_refl _))), .string (by simp [C.IsPlainByte]), ?_⟩
    exact .binary (.var (hname "x" (by simp))) (.negate (.call (hname "g" (by simp)) (by simp)))
  exact ⟨hplain, Expr.read_cText_eq hplain "shell"⟩

end Chalk
