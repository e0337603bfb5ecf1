import Chalk.Proofs.Compile.Concatenation
import Chalk.Proofs.Compile.Provenance

/-!
# The tokens that nodes span

Each node of a tree that was read spans some of the tokens, and these are told by the form of the
node: `Expr.Located` and `Stmt.Located` say so of a tree that has them as its notes. Parentheses
around an expression leave no node. The expression does not span them, but the node that it is a
part of does.

The line of a statement is that of its first token. The line of an expression is not, where it
begins with parentheses: it is that of the first token that is no opening parenthesis
(`exists_located_of_parse`).
-/

namespace Chalk

/-- The tokens that a node spans. -/
abbrev Extent := List Token

namespace Extent

/-- The line of the first token. -/
def firstLine (ts : Extent) : Line :=
  ts.head?.map Token.line

/-- The line of the first token that is not an opening parenthesis. -/
def lineInside (ts : Extent) : Line :=
  (ts.find? fun t => t.kind ≠ .sign .openParen).map Token.line

/-- An extent with any number of parentheses around it. -/
inductive InParens (ts : Extent) : Extent → Prop
  | bare : InParens ts ts
  | wrap {o c : Token} {us : Extent} (opens : o.kind = .sign .openParen) (inside : InParens ts us)
      (closes : c.kind = .sign .closeParen) : InParens ts (o :: (us ++ [c]))

/-- Extents with commas between them, and perhaps one more behind the last. -/
inductive Listed : List Extent → Extent → Prop
  | nil : Listed [] []
  | last {ts us : Extent} (item : InParens ts us) : Listed [ts] us
  | more {t : Token} {ts us vs : Extent} {rest : List Extent} (item : InParens ts us)
      (comma : t.kind = .sign .comma) (later : Listed rest vs) : Listed (ts :: rest) (us ++ t :: vs)

/-- Extents in braces. -/
inductive Braced (body : List Extent) : Extent → Prop
  | intro {o c : Token} (opens : o.kind = .sign .openCurly) (closes : c.kind = .sign .closeCurly) :
      Braced body (o :: (body.flatten ++ [c]))

/-- What stands behind the body of a conditional. -/
inductive Otherwise : List Extent → Extent → Prop
  | none : Otherwise [] []
  | branch {k i : Token} {ts : Extent} (keyword : k.kind = .keyword .elseKw)
      (nested : i.kind = .keyword .ifKw) : Otherwise [i :: ts] (k :: i :: ts)
  | block {k : Token} {body : List Extent} {ts : Extent} (keyword : k.kind = .keyword .elseKw)
      (inside : Braced body ts) : Otherwise body (k :: ts)

end Extent

open Extent

/-- An expression that has the tokens that its nodes span as their notes. -/
inductive Expr.Located (reads : String → Number → Prop) : Expr Extent → Prop
  | number {t : Token} {v : Number} (kind : t.kind = .number) (value : reads t.value v) :
      Located reads (.number v [t])
  | string {t : Token} (kind : t.kind = .string) :
      Located reads (.string (unescape t.value.toList) [t])
  | bool {t : Token} {b : Bool} (kind : t.kind = .keyword (if b then .trueKw else .falseKw)) :
      Located reads (.bool b [t])
  | var {t : Token} (kind : t.kind = .identifier) : Located reads (.var t.value [t])
  | negate {t : Token} {e : Expr Extent} {ts : Extent} (kind : t.kind = .sign .dash)
      (operand : Located reads e) (inside : InParens e.note ts) :
      Located reads (.negate e (t :: ts))
  | binary {t : Token} {op : Operator} {l r : Expr Extent} {ls rs : Extent}
      (left : Located reads l) (before : InParens l.note ls) (kind : t.kind = .sign op.sign)
      (right : Located reads r) (behind : InParens r.note rs) :
      Located reads (.binary op l r (ls ++ t :: rs))
  | call {t o c : Token} {es : List (Expr Extent)} {fs ts : Extent} (name : t.kind = .identifier)
      (callee : InParens [t] fs) (opens : o.kind = .sign .openParen)
      (arguments : ∀ e ∈ es, Located reads e) (listed : Listed (es.map Expr.note) ts)
      (closes : c.kind = .sign .closeParen) :
      Located reads (.call t.value es (fs ++ o :: (ts ++ [c])))

/-- A statement that has the tokens that its nodes span as their notes. -/
inductive Stmt.Located (reads : String → Number → Prop) : Stmt Extent Extent → Prop
  | declare {k x c y a z : Token} {m : Bool} {ty : Ty} {e : Expr Extent} {ts : Extent}
      (keyword : k.kind = .keyword (if m then .mutKw else .letKw)) (name : x.kind = .identifier)
      (colon : c.kind = .sign .colon) (type : y.IsType ty) (equals : a.kind = .sign .assignment)
      (value : e.Located reads) (inside : InParens e.note ts) (ends : z.kind = .sign .semicolon) :
      Located reads (.declare { name := x.value, ty, mutable := m } e
        (k :: x :: c :: y :: a :: (ts ++ [z])))
  | assign {x a z : Token} {e : Expr Extent} {ts : Extent} (name : x.kind = .identifier)
      (equals : a.kind = .sign .assignment) (value : e.Located reads) (inside : InParens e.note ts)
      (ends : z.kind = .sign .semicolon) :
      Located reads (.assign x.value e (x :: a :: (ts ++ [z])))
  | branch {k : Token} {e : Expr Extent} {body other : List (Stmt Extent Extent)}
      {ts us vs : Extent} (keyword : k.kind = .keyword .ifKw) (condition : e.Located reads)
      (inside : InParens e.note ts) (parts : ∀ s ∈ body, Located reads s)
      (braced : Braced (body.map Stmt.note) us) (others : ∀ s ∈ other, Located reads s)
      (behind : Otherwise (other.map Stmt.note) vs) :
      Located reads (.branch e body other (k :: (ts ++ (us ++ vs))))
  | loop {k : Token} {e : Expr Extent} {body : List (Stmt Extent Extent)} {ts us : Extent}
      (keyword : k.kind = .keyword .whileKw) (condition : e.Located reads)
      (inside : InParens e.note ts) (parts : ∀ s ∈ body, Located reads s)
      (braced : Braced (body.map Stmt.note) us) :
      Located reads (.loop e body (k :: (ts ++ us)))
  | function {k x o c : Token} {ps : List (String × Ty)} {ty : Ty}
      {body : List (Stmt Extent Extent)} {ts us vs : Extent} (keyword : k.kind = .keyword .fnKw)
      (name : x.kind = .identifier) (opens : o.kind = .sign .openParen)
      (params : Derives reads (.params ps) ts) (closes : c.kind = .sign .closeParen)
      (returns : Derives reads (.returns ty) us) (parts : ∀ s ∈ body, Located reads s)
      (braced : Braced (body.map Stmt.note) vs) :
      Located reads (.function { name := x.value, params := ps, returns := ty } body
        (k :: x :: o :: (ts ++ c :: (us ++ vs))))
  | retNone {k z : Token} (keyword : k.kind = .keyword .returnKw)
      (ends : z.kind = .sign .semicolon) : Located reads (.ret none [k, z])
  | retSome {k z : Token} {e : Expr Extent} {ts : Extent} (keyword : k.kind = .keyword .returnKw)
      (value : e.Located reads) (inside : InParens e.note ts) (ends : z.kind = .sign .semicolon) :
      Located reads (.ret (some e) (k :: (ts ++ [z])))
  | print {k o c z : Token} {es : List (Expr Extent)} {ts : Extent}
      (keyword : k.kind = .keyword .printKw) (opens : o.kind = .sign .openParen)
      (values : ∀ e ∈ es, e.Located reads) (listed : Listed (es.map Expr.note) ts)
      (closes : c.kind = .sign .closeParen) (ends : z.kind = .sign .semicolon) :
      Located reads (.print es (k :: o :: (ts ++ [c, z])))
  | expr {z : Token} {e : Expr Extent} {ts : Extent} (value : e.Located reads)
      (inside : InParens e.note ts) (ends : z.kind = .sign .semicolon) :
      Located reads (.expr e (ts ++ [z]))

/-! ## Lines inside of parentheses -/

namespace Extent

variable {ts us : Extent}

theorem lineInside_cons {t : Token} (h : t.kind ≠ .sign .openParen) (ts : Extent) :
    lineInside (t :: ts) = some t.line := by
  simp [lineInside, h]

theorem lineInside_cons_openParen {t : Token} (h : t.kind = .sign .openParen) (ts : Extent) :
    lineInside (t :: ts) = lineInside ts := by
  simp [lineInside, h]

theorem lineInside_append (h : lineInside ts ≠ none) (us : Extent) :
    lineInside (ts ++ us) = lineInside ts := by
  unfold lineInside at h ⊢
  cases hfind : ts.find? fun t => t.kind ≠ .sign .openParen with
  | none => exact absurd (by rw [hfind]; rfl) h
  | some t => rw [List.find?_append, hfind, Option.some_or]

/-- Parentheses around an extent do not change the line inside. -/
theorem InParens.lineInside_eq (h : InParens ts us) (hts : lineInside ts ≠ none) :
    lineInside us = lineInside ts := by
  induction h with
  | bare => rfl
  | wrap opens _ _ ih => rw [lineInside_cons_openParen opens, lineInside_append (ih ▸ hts), ih]

theorem InParens.lineInside_append (h : InParens ts us) (hts : lineInside ts ≠ none)
    (rest : Extent) : lineInside (us ++ rest) = lineInside ts := by
  have heq := h.lineInside_eq hts
  rw [Extent.lineInside_append (heq ▸ hts), heq]

end Extent

/-- There is something inside of the parentheses that an expression begins with. -/
theorem Expr.Located.lineInside_ne_none {reads : String → Number → Prop} {e : Expr Extent}
    (h : e.Located reads) : lineInside e.note ≠ none := by
  induction h with
  | number kind | string kind | bool kind | var kind | negate kind =>
    simp [note, lineInside_cons, kind]
  | binary _ before _ _ _ ih =>
    rw [note, before.lineInside_append ih]
    exact ih
  | @call t _ _ _ _ _ name callee =>
    have hname : lineInside [t] ≠ none := by simp [lineInside_cons, name]
    rw [note, callee.lineInside_append hname]
    exact hname

/-! ## Trees that were read -/

/-- The tree of a phrase comes from one with extents for notes. Its extent is that of the phrase,
but for parentheses. -/
def Phrase.Located (reads : String → Number → Prop) : Phrase → Extent → Prop
  | chain _ e, ts | unary e, ts | atom e, ts =>
    ∃ q : Expr Extent, q.Located reads ∧ InParens q.note ts ∧ e = q.map lineInside
  | callee f line, ts =>
    ∃ t : Token, t.kind = .identifier ∧ f = t.value ∧ line = some t.line ∧ InParens [t] ts
  | arguments es, ts =>
    ∃ qs : List (Expr Extent), (∀ q ∈ qs, q.Located reads) ∧ Listed (qs.map Expr.note) ts ∧
      es = qs.map (Expr.map lineInside)
  | params ps, ts => Derives reads (.params ps) ts
  | returns ty, ts => Derives reads (.returns ty) ts
  | stmt s, ts =>
    ∃ q : Stmt Extent Extent, q.Located reads ∧ q.note = ts ∧ s = q.map lineInside firstLine
  | branch s, ts =>
    ∃ q : Stmt Extent Extent, q.Located reads ∧ q.note = ts ∧ s = q.map lineInside firstLine ∧
      ∃ t us, ts = t :: us ∧ t.kind = .keyword .ifKw
  | otherwise body, ts =>
    ∃ qs : List (Stmt Extent Extent), (∀ q ∈ qs, q.Located reads) ∧
      Otherwise (qs.map Stmt.note) ts ∧ body = qs.map (Stmt.map lineInside firstLine)
  | block body, ts =>
    ∃ qs : List (Stmt Extent Extent), (∀ q ∈ qs, q.Located reads) ∧
      Braced (qs.map Stmt.note) ts ∧ body = qs.map (Stmt.map lineInside firstLine)
  | stmts body, ts =>
    ∃ qs : List (Stmt Extent Extent), (∀ q ∈ qs, q.Located reads) ∧
      (qs.map Stmt.note).flatten = ts ∧ body = qs.map (Stmt.map lineInside firstLine)

theorem Phrase.located_operand {reads : String → Number → Prop} {p : Power} {e : ParsedExpr}
    {ts : Extent} : (operand p e).Located reads ts ↔
      ∃ q : Expr Extent, q.Located reads ∧ InParens q.note ts ∧ e = q.map lineInside := by
  cases p <;> rfl

theorem Derives.located {reads : String → Number → Prop} {φ : Phrase} {ts : List Token}
    (h : Derives reads φ ts) : φ.Located reads ts := by
  induction h with
  | number kind value =>
    exact ⟨_, .number kind value, .bare, by simp [Expr.map, lineInside_cons, kind]⟩
  | string kind => exact ⟨_, .string kind, .bare, by simp [Expr.map, lineInside_cons, kind]⟩
  | bool kind => exact ⟨_, .bool kind, .bare, by simp [Expr.map, lineInside_cons, kind]⟩
  | var kind => exact ⟨_, .var kind, .bare, by simp [Expr.map, lineInside_cons, kind]⟩
  | group opens _ closes ih =>
    obtain ⟨q, hq, hparens, rfl⟩ := ih
    exact ⟨q, hq, .wrap opens hparens closes, rfl⟩
  | name kind => exact ⟨_, kind, rfl, rfl, .bare⟩
  | parens opens _ closes ih =>
    obtain ⟨t, hkind, rfl, rfl, hparens⟩ := ih
    exact ⟨t, hkind, rfl, rfl, .wrap opens hparens closes⟩
  | negate kind _ ih =>
    obtain ⟨q, hq, hparens, rfl⟩ := ih
    exact ⟨_, .negate kind hq hparens, .bare, by simp [Expr.map, lineInside_cons, kind]⟩
  | ofAtom _ ih => exact ih
  | call _ opens _ closes ihf ih =>
    obtain ⟨t, hkind, rfl, rfl, hparens⟩ := ihf
    obtain ⟨qs, hqs, hlisted, rfl⟩ := ih
    refine ⟨_, .call hkind hparens opens hqs hlisted closes, .bare, ?_⟩
    have hname : lineInside [t] = some t.line := by simp [lineInside_cons, hkind]
    rw [Expr.map, Expr.mapList_eq, hparens.lineInside_append (by simp [hname]), hname]
  | ofOperand _ ih => exact Phrase.located_operand.1 ih
  | operation _ kind _ ihl ihr =>
    obtain ⟨l, hl, hls, rfl⟩ := ihl
    obtain ⟨r, hr, hrs, rfl⟩ := Phrase.located_operand.1 ihr
    refine ⟨_, .binary hl hls kind hr hrs, .bare, ?_⟩
    rw [Expr.map, hls.lineInside_append hl.lineInside_ne_none, Expr.note_map]
  | noArgument => exact ⟨[], by simp, .nil, rfl⟩
  | lastArgument _ ih =>
    obtain ⟨q, hq, hparens, rfl⟩ := ih
    exact ⟨[q], by simpa using hq, .last hparens, rfl⟩
  | moreArguments _ kind _ ih ihs =>
    obtain ⟨q, hq, hparens, rfl⟩ := ih
    obtain ⟨qs, hqs, hlisted, rfl⟩ := ihs
    exact ⟨q :: qs, List.forall_mem_cons.2 ⟨hq, hqs⟩, .more hparens kind hlisted, rfl⟩
  | noParam => exact .noParam
  | lastParam name colon type => exact .lastParam name colon type
  | moreParams name colon type kind _ ih => exact .moreParams name colon type kind ih
  | noReturns => exact .noReturns
  | someReturns arrow type => exact .someReturns arrow type
  | declare keyword name colon type equals _ ends ih =>
    obtain ⟨q, hq, hparens, rfl⟩ := ih
    exact ⟨_, .declare keyword name colon type equals hq hparens ends, rfl, rfl⟩
  | assign name equals _ ends ih =>
    obtain ⟨q, hq, hparens, rfl⟩ := ih
    exact ⟨_, .assign name equals hq hparens ends, rfl, rfl⟩
  | ofBranch _ ih =>
    obtain ⟨q, hq, hnote, hs, -⟩ := ih
    exact ⟨q, hq, hnote, hs⟩
  | loop keyword _ _ ih ihbody =>
    obtain ⟨q, hq, hparens, rfl⟩ := ih
    obtain ⟨qs, hqs, hbraced, rfl⟩ := ihbody
    exact ⟨_, .loop keyword hq hparens hqs hbraced, rfl, by rw [Stmt.map, Stmt.mapList_eq]; rfl⟩
  | function keyword name opens _ closes _ _ ihparams ihreturns ihbody =>
    obtain ⟨qs, hqs, hbraced, rfl⟩ := ihbody
    exact ⟨_, .function keyword name opens ihparams closes ihreturns hqs hbraced, rfl,
      by rw [Stmt.map, Stmt.mapList_eq]; rfl⟩
  | retNone keyword ends => exact ⟨_, .retNone keyword ends, rfl, rfl⟩
  | retSome keyword _ ends ih =>
    obtain ⟨q, hq, hparens, rfl⟩ := ih
    exact ⟨_, .retSome keyword hq hparens ends, rfl, rfl⟩
  | print keyword opens _ _ closes ends ih =>
    obtain ⟨qs, hqs, hlisted, rfl⟩ := ih
    exact ⟨_, .print keyword opens hqs hlisted closes ends, rfl, rfl⟩
  | exprStmt _ ends ih =>
    obtain ⟨q, hq, hparens, rfl⟩ := ih
    exact ⟨_, .expr hq hparens ends, rfl, rfl⟩
  | branch keyword _ _ _ ih ihbody ihother =>
    obtain ⟨q, hq, hparens, rfl⟩ := ih
    obtain ⟨qs, hqs, hbraced, rfl⟩ := ihbody
    obtain ⟨rs, hrs, hbehind, rfl⟩ := ihother
    exact ⟨_, .branch keyword hq hparens hqs hbraced hrs hbehind, rfl,
      by rw [Stmt.map, Stmt.mapList_eq, Stmt.mapList_eq]; rfl, _, _, rfl, keyword⟩
  | noElse => exact ⟨[], by simp, .none, rfl⟩
  | elseBranch keyword _ ih =>
    obtain ⟨q, hq, rfl, rfl, t, us, hnote, hkind⟩ := ih
    refine ⟨[q], by simpa using hq, ?_, rfl⟩
    rw [List.map_singleton, hnote]
    exact .branch keyword hkind
  | elseBlock keyword _ ih =>
    obtain ⟨qs, hqs, hbraced, rfl⟩ := ih
    exact ⟨qs, hqs, .block keyword hbraced, rfl⟩
  | block opens _ closes ih =>
    obtain ⟨qs, hqs, rfl, rfl⟩ := ih
    exact ⟨qs, hqs, .intro opens closes, rfl⟩
  | noStmt => exact ⟨[], by simp, rfl, rfl⟩
  | moreStmts _ _ ih ihs =>
    obtain ⟨q, hq, rfl, rfl⟩ := ih
    obtain ⟨qs, hqs, rfl, rfl⟩ := ihs
    exact ⟨q :: qs, List.forall_mem_cons.2 ⟨hq, hqs⟩, rfl, rfl⟩

/-- The statements of a source span its tokens up to the end, one behind the other. Each statement
has the line of its first token, and each expression in them that of the first token behind the
opening parentheses that it begins with. -/
theorem exists_located_of_parse {source file : String} {ts : List Token} {p : Program}
    (htokens : tokenize source file = .ok ts) (hparse : parse ts file = .ok p) :
    ∃ qs : List (Stmt Extent Extent), (∀ q ∈ qs, q.Located Number.Read) ∧
      ts = (qs.map Stmt.note).flatten ++ [.endAt (.behind file source.toList)] ∧
      p = qs.map (Stmt.map lineInside firstLine) := by
  have hlaid : Laid file [] source.toList ts := Cursor.laid_of_scan htokens
  obtain ⟨pieces, rfl, hkinds⟩ := hlaid.eq_append_end
  obtain ⟨qs, hqs, hpieces, hp⟩ := ((parse_append_end_iff hkinds).1 hparse).located
  exact ⟨qs, hqs, by rw [hpieces]; rfl, hp⟩

/-- A group at the start of a condition, and a sum that is broken before its operator. -/
def brokenLines : String :=
  "if (\na) == 1 \x7b\n  f(-\n1)\n+ 2;\n\x7d"

theorem exists_located_brokenLines : ∃ ts p, tokenize brokenLines "main" = .ok ts ∧
    parse ts "main" = .ok p ∧
    ∃ qs : List (Stmt Extent Extent), (∀ q ∈ qs, q.Located Number.Read) ∧
      ts = (qs.map Stmt.note).flatten ++ [.endAt (.behind "main" brokenLines.toList)] ∧
      p = qs.map (Stmt.map lineInside firstLine) := by
  have hok : (readProgram brokenLines "main").isOk = true := by decide +kernel
  cases hread : readProgram brokenLines "main" with
  | error e =>
    rw [hread] at hok
    cases hok
  | ok p =>
    obtain ⟨ts, htokens, hparse⟩ := bind_eq_ok_iff.1 hread
    exact ⟨ts, p, htokens, hparse, exists_located_of_parse htokens hparse⟩

/-- The tokens of a sum with a group in front that is opened on the line before. -/
def openedBefore : List Token :=
  let place (offset line : UInt32) : Position := ⟨offset, line, "main"⟩
  [⟨.sign .openParen, "(", ⟨place 0 1, place 1 1⟩⟩, ⟨.number, "1", ⟨place 2 2, place 3 2⟩⟩,
    ⟨.sign .closeParen, ")", ⟨place 3 2, place 4 2⟩⟩, ⟨.sign .plus, "+", ⟨place 5 2, place 6 2⟩⟩,
    ⟨.number, "2", ⟨place 7 2, place 8 2⟩⟩, ⟨.sign .semicolon, ";", ⟨place 8 2, place 9 2⟩⟩,
    .endAt (place 9 2)]

/-- The sum begins with the parenthesis on the first line, but its line is the second. -/
theorem not_located_firstLine_group : ∃ ts p, tokenize "(\n1) + 2;" "main" = .ok ts ∧
    parse ts "main" = .ok p ∧
    ¬ ∃ qs : List (Stmt Extent Extent), (∀ q ∈ qs, q.Located Number.Read) ∧
      ts = (qs.map Stmt.note).flatten ++ [.endAt (.behind "main" "(\n1) + 2;".toList)] ∧
      p = qs.map (Stmt.map firstLine firstLine) := by
  refine ⟨openedBefore, _, by decide +kernel, rfl, ?_⟩
  rintro ⟨qs, hqs, hts, hp⟩
  obtain ⟨q, rfl, hq⟩ := List.map_eq_singleton_iff.1 hp.symm
  cases hqs q (List.mem_singleton_self q) with
  | @expr z e ts _ inside _ =>
    obtain ⟨he, -⟩ := Stmt.expr.inj hq
    have hline : firstLine e.note = some 2 := by
      rw [← Expr.note_map firstLine, he]
      rfl
    have hextent := congrArg (fun us => us.dropLast.dropLast) hts
    simp [Stmt.note, openedBefore] at hextent
    -- The last token of the sum is a number, so no parentheses are around it.
    cases inside with
    | bare =>
      rw [← hextent] at hline
      cases hline
    | wrap _ _ closes =>
      have hlast := congrArg List.getLast? hextent
      rw [← List.cons_append, List.getLast?_concat] at hlast
      cases hlast
      cases closes
  | _ => cases hq

end Chalk
