import Chalk.Proofs.Compile.Nesting
import Chalk.Proofs.Token.Pieces

/-!
# What is declared in C

The lines of a C text that declare a variable or begin a function, told by their form alone
(`C.Declares`), are the definitions of the program, at every depth and in the order in which they
are written out (`generate_lists_definitions`). Other statements make no such lines: a declaration
begins with a word for its type and a name behind it, and what else a line can begin with is
followed by another character, or is another word (`C.Opens`).
-/

namespace Chalk

/-! ## Definitions -/

/-- A variable with its first value, or a function. -/
inductive Definition (ε : Type) where
  | var (target : Variable) (value : Expr ε)
  | function (signature : Signature)

namespace Definition

variable {ε ε' : Type}

/-- The same definition with each note replaced. -/
def map (f : ε → ε') : Definition ε → Definition ε'
  | var target value => var target (value.map f)
  | function signature => function signature

/-- The definition without notes. -/
def bare : Definition ε → Definition Unit :=
  map fun _ => ()

end Definition

namespace Stmt

variable {ε σ ε' σ' : Type}

mutual

/-- The definitions in a statement, at every depth. -/
def definitions : Stmt ε σ → List (Definition ε)
  | declare target value _ => [.var target value]
  | branch _ thenBody elseBody _ => definitionsList thenBody ++ definitionsList elseBody
  | loop _ body _ => definitionsList body
  | function signature body _ => .function signature :: definitionsList body
  | assign .. | ret .. | print .. | expr .. => []

/-- `definitions` on a list of statements. -/
def definitionsList : List (Stmt ε σ) → List (Definition ε)
  | [] => []
  | s :: rest => s.definitions ++ definitionsList rest

end

mutual

theorem definitions_map (f : ε → ε') (g : σ → σ') :
    ∀ s : Stmt ε σ, (s.map f g).definitions = s.definitions.map (Definition.map f)
  | .declare .. | .assign .. | .ret .. | .print .. | .expr .. => rfl
  | .branch _ a b _ => by
    rw [Stmt.map, definitions, definitions, definitionsList_map f g a, definitionsList_map f g b,
      List.map_append]
  | .loop _ a _ => definitionsList_map f g a
  | .function _ a _ => by
    rw [Stmt.map, definitions, definitions, definitionsList_map f g a, List.map_cons]
    rfl

theorem definitionsList_map (f : ε → ε') (g : σ → σ') : ∀ ss : List (Stmt ε σ),
    definitionsList (mapList f g ss) = (definitionsList ss).map (Definition.map f)
  | [] => rfl
  | s :: ss => by
    rw [mapList, definitionsList, definitionsList, definitions_map f g s,
      definitionsList_map f g ss, List.map_append]

end

theorem isFunction_map (f : ε → ε') (g : σ → σ') (s : Stmt ε σ) :
    (s.map f g).isFunction = s.isFunction := by
  cases s <;> rfl

theorem filter_mapList (f : ε → ε') (g : σ → σ') (p : Bool → Bool) (ss : List (Stmt ε σ)) :
    (mapList f g ss).filter (fun s => p s.isFunction) =
      mapList f g (ss.filter fun s => p s.isFunction) := by
  rw [mapList_eq, mapList_eq, List.filter_map]
  exact congrArg _ (List.filter_congr fun s _ => congrArg p (isFunction_map f g s))

end Stmt

/-- The functions, or the other statements, of a program and of the same program with types differ
in notes alone. -/
theorem WellTyped.mapList_filter {p : Program} {t : List TypedStmt}
    (h : WellTyped none .empty p t) (q : Bool → Bool) :
    Stmt.mapList (fun _ => ()) (fun _ => ()) (t.filter fun s => q s.isFunction) =
      Stmt.mapList (fun _ => ()) (fun _ => ()) (p.filter fun s => q s.isFunction) := by
  rw [← Stmt.filter_mapList, ← Stmt.filter_mapList, h.erase]

theorem WellTyped.map_bare_definitionsList {p : Program} {t : List TypedStmt}
    (h : WellTyped none .empty p t) (q : Bool → Bool) :
    (Stmt.definitionsList (t.filter fun s => q s.isFunction)).map Definition.bare =
      (Stmt.definitionsList (p.filter fun s => q s.isFunction)).map Definition.bare := by
  have hsame := congrArg Stmt.definitionsList (h.mapList_filter q)
  rwa [Stmt.definitionsList_map, Stmt.definitionsList_map] at hsame

/-! ## Lines that declare something -/

namespace C

/-- A line that declares something, in parts. -/
inductive DeclLine where
  | var (const : Bool) (type name init : String)
  | function (type name params : String)
deriving DecidableEq, Repr

namespace DeclLine

/-- The line, but for the spaces in front. -/
def text : DeclLine → String
  | var const type name init =>
    (if const then "const " else "") ++ type ++ " " ++ name ++ " = " ++ init ++ ";"
  | function type name params => type ++ " " ++ name ++ "(" ++ params ++ ") \x7b"

def type : DeclLine → String
  | var _ type _ _ | function type _ _ => type

def name : DeclLine → String
  | var _ _ name _ | function _ name _ => name

end DeclLine

/-- The line has the form of a declaration: spaces, perhaps `const`, a C type that stands for a type
of the language, a name, and then a value or parameters. -/
structure Declares (line : String) (d : DeclLine) : Prop where
  text : ∃ n, line.toList = List.replicate n ' ' ++ d.text.toList
  type : ∃ ty : Ty, ty.cName = d.type
  name : Lexeme.Class.name.Forms d.name.toList

/-- The declarations among some lines, in order. -/
inductive Lists : List String → List DeclLine → Prop
  | nil : Lists [] []
  | declares {line : String} {lines : List String} {d : DeclLine} {ds : List DeclLine}
      (first : Declares line d) (rest : Lists lines ds) : Lists (line :: lines) (d :: ds)
  | other {line : String} {lines : List String} {ds : List DeclLine}
      (first : ∀ d, ¬ Declares line d) (rest : Lists lines ds) : Lists (line :: lines) ds

theorem Lists.append {lines lines' : List String} {ds ds' : List DeclLine}
    (h : Lists lines ds) (h' : Lists lines' ds') : Lists (lines ++ lines') (ds ++ ds') := by
  induction h with
  | nil => exact h'
  | declares first _ ih => exact .declares first ih
  | other first _ ih => exact .other first ih

/-! ## How declarations begin -/

/-- The words that a declaration can begin with. -/
def openers : List (List Char) :=
  ["const".toList, "int".toList, "float".toList, "char*".toList, "void".toList]

/-- The text begins with one of the words, a space and a name. -/
def Opens (text : List Char) : Prop :=
  ∃ word ∈ openers, ∃ c rest, text = word ++ ' ' :: c :: rest ∧ Lexeme.isNameStart c = true

/-- Characters of which none is in the words. -/
theorem not_mem_opener {opener : List Char} (h : opener ∈ openers) {c : Char}
    (hc : c ∈ [' ', ';', '(', '"', '\x7d']) : c ∉ opener := by
  have hfree : (openers.all fun opener =>
      [' ', ';', '(', '"', '\x7d'].all fun c => !opener.contains c) = true := by decide
  simpa using List.all_eq_true.1 (List.all_eq_true.1 hfree opener h) c hc

theorem cName_mem_openers (ty : Ty) : ty.cName.toList ∈ openers := by
  cases ty <;> decide

namespace DeclLine

def isConst : DeclLine → Bool
  | var const .. => const
  | function .. => false

/-- What stands behind the name. -/
def rest : DeclLine → List Char
  | var _ _ _ init => ' ' :: '=' :: ' ' :: (init.toList ++ [';'])
  | function _ _ params => '(' :: (params.toList ++ [')', ' ', '\x7b'])

theorem toList_text (d : DeclLine) : d.text.toList =
    (if d.isConst then "const".toList ++ [' '] else []) ++
      (d.type.toList ++ ' ' :: (d.name.toList ++ d.rest)) := by
  cases d with
  | var const type name init => cases const <;> simp [text, isConst, DeclLine.type, DeclLine.name, rest]
  | function type name params => simp [text, isConst, DeclLine.type, DeclLine.name, rest]

theorem exists_rest_eq_cons (d : DeclLine) :
    ∃ c cs, d.rest = c :: cs ∧ Lexeme.isNamePart c = false := by
  cases d with
  | var => exact ⟨' ', _, rfl, rfl⟩
  | function => exact ⟨'(', _, rfl, rfl⟩

/-- A declaration is made of its parts. -/
theorem eq_of_parts {d e : DeclLine} (hconst : d.isConst = e.isConst)
    (htype : d.type = e.type) (hname : d.name = e.name) (hrest : d.rest = e.rest) : d = e := by
  cases d with
  | var =>
    cases e with
    | var =>
      cases hconst
      cases htype
      cases hname
      simpa [rest, String.toList_inj] using hrest
    | function => cases hrest
  | function =>
    cases e with
    | var => cases hrest
    | function =>
      cases htype
      cases hname
      simpa [rest, String.toList_inj] using hrest

end DeclLine

theorem Declares.opens {line : String} {d : DeclLine} (h : Declares line d) :
    Opens d.text.toList := by
  obtain ⟨-, ⟨ty, hty⟩, c, cs, hname, hc, -⟩ := h
  rw [d.toList_text, ← hty, hname]
  cases d.isConst with
  | false => exact ⟨_, cName_mem_openers ty, c, _, rfl, hc⟩
  | true => cases ty <;> exact ⟨"const".toList, by decide, _, _, rfl, rfl⟩

theorem Opens.head?_ne {text : List Char} (h : Opens text) : ∀ c ∈ text.head?, c ≠ ' ' := by
  obtain ⟨word, hword, c, rest, rfl, -⟩ := h
  have hspace : ' ' ∉ word := not_mem_opener hword (by decide)
  cases word with
  | nil => exact absurd hword (by decide)
  | cons d word =>
    rintro c ⟨⟩ rfl
    exact hspace List.mem_cons_self

theorem dropWhile_spaces {text : List Char} (h : ∀ c ∈ text.head?, c ≠ ' ') (n : Nat) :
    (List.replicate n ' ' ++ text).dropWhile (· == ' ') = text := by
  rw [List.dropWhile_append_of_pos, Lexeme.dropWhile_eq_self]
  · exact fun c hc => beq_eq_false_iff_ne.2 (h c hc)
  · exact fun c hc => beq_iff_eq.2 (List.eq_of_mem_replicate hc)

/-! ## What a line declares -/

/-- A text is parted in one way only where a run of characters ends. -/
theorem append_inj_of_run (p : Char → Bool) {as bs cs ds : List Char} {c d : Char}
    (h : as ++ c :: cs = bs ++ d :: ds) (has : ∀ e ∈ as, p e = true) (hbs : ∀ e ∈ bs, p e = true)
    (hc : p c = false) (hd : p d = false) : as = bs ∧ c :: cs = d :: ds := by
  have hstop : ∀ {c : Char} {cs : List Char}, p c = false → ∀ e ∈ (c :: cs).head?, p e = false := by
    rintro c cs hc e ⟨⟩
    exact hc
  obtain ⟨htake, hdrop⟩ := (Lexeme.takeWhile_eq_iff p _).2 ⟨rfl, has, hstop hc⟩
  obtain ⟨htake', hdrop'⟩ := (Lexeme.takeWhile_eq_iff p _).2 ⟨h, hbs, hstop hd⟩
  exact ⟨htake.symm.trans htake', hdrop.symm.trans hdrop'⟩

theorem append_inj_of_space {as bs cs ds : List Char} (h : as ++ ' ' :: cs = bs ++ ' ' :: ds)
    (has : as ∈ openers) (hbs : bs ∈ openers) : as = bs ∧ cs = ds := by
  have hfree : ∀ opener ∈ openers, ∀ e ∈ opener, (e != ' ') = true := fun opener h e he =>
    bne_iff_ne.2 (ne_of_mem_of_not_mem he (not_mem_opener h (by decide)))
  obtain ⟨hsame, hrest⟩ := append_inj_of_run (· != ' ') h (hfree _ has) (hfree _ hbs) rfl rfl
  exact ⟨hsame, List.tail_eq_of_cons_eq hrest⟩

/-- The first word tells whether a variable is constant. -/
theorem isConst_eq {d e : DeclLine} {dty ety : Ty} (hd : dty.cName = d.type)
    (he : ety.cName = e.type) (h : d.text.toList = e.text.toList) : d.isConst = e.isConst := by
  have hconst : "const".toList ∈ openers := by decide
  have hne : ∀ ty : Ty, "const".toList ≠ ty.cName.toList := by
    intro ty
    cases ty <;> decide
  rw [d.toList_text, e.toList_text, ← hd, ← he] at h
  cases hdc : d.isConst <;> cases hec : e.isConst
  · rfl
  · rw [hdc, hec, if_neg Bool.false_ne_true, if_pos rfl, List.append_assoc] at h
    exact absurd (append_inj_of_space h (cName_mem_openers dty) hconst).1.symm (hne dty)
  · rw [hdc, hec, if_pos rfl, if_neg Bool.false_ne_true, List.append_assoc] at h
    exact absurd (append_inj_of_space h hconst (cName_mem_openers ety)).1 (hne ety)
  · rfl

/-- A line declares one thing only. -/
theorem Declares.unique {line : String} {d e : DeclLine} (hd : Declares line d)
    (he : Declares line e) : d = e := by
  obtain ⟨n, hn⟩ := hd.text
  obtain ⟨m, hm⟩ := he.text
  have htext := congrArg (List.dropWhile (· == ' ')) (hn.symm.trans hm)
  rw [dropWhile_spaces hd.opens.head?_ne, dropWhile_spaces he.opens.head?_ne] at htext
  obtain ⟨-, ⟨dty, hdty⟩, hdname⟩ := hd
  obtain ⟨-, ⟨ety, hety⟩, hename⟩ := he
  have hconst := isConst_eq hdty hety htext
  rw [d.toList_text, e.toList_text, hconst, List.append_cancel_left_eq] at htext
  obtain ⟨htype, hbehind⟩ := append_inj_of_space htext (hdty ▸ cName_mem_openers dty)
    (hety ▸ cName_mem_openers ety)
  obtain ⟨c, cs, hdrest, hc⟩ := d.exists_rest_eq_cons
  obtain ⟨c', cs', herest, hc'⟩ := e.exists_rest_eq_cons
  rw [hdrest, herest] at hbehind
  obtain ⟨hname, hrest⟩ := append_inj_of_run Lexeme.isNamePart hbehind
    (Lexeme.Class.isNamePart_of_forms hdname) (Lexeme.Class.isNamePart_of_forms hename) hc hc'
  exact DeclLine.eq_of_parts hconst (String.toList_inj.1 htype) (String.toList_inj.1 hname)
    (by rw [hdrest, herest, hrest])

theorem Lists.unique {lines : List String} {ds es : List DeclLine} (hd : Lists lines ds)
    (he : Lists lines es) : ds = es := by
  induction hd generalizing es with
  | nil =>
    cases he
    rfl
  | declares first _ ih =>
    cases he with
    | declares first' rest' => rw [first.unique first', ih rest']
    | other first' _ => exact absurd first (first' _)
  | other first _ ih =>
    cases he with
    | declares first' _ => exact absurd first' (first _)
    | other _ rest' => exact ih rest'

theorem Lists.iff_eq {lines : List String} {ds : List DeclLine} (h : Lists lines ds)
    (es : List DeclLine) : Lists lines es ↔ es = ds := by
  constructor
  · exact fun he => he.unique h
  · rintro rfl
    exact h

/-! ## Lines that declare nothing -/

theorem exists_toList_indented (depth : Nat) (line : String) :
    ∃ n, (indented depth line).toList = List.replicate n ' ' ++ line.toList := by
  unfold indented
  split
  · next h => exact ⟨0, by rw [h]; rfl⟩
  · exact ⟨4 * depth, by rw [String.toList_append, String.toList_ofList]⟩

/-- A line that does not begin like a declaration is none. -/
theorem not_declares_of_not_opens {line : String} (hstart : ∀ c ∈ line.toList.head?, c ≠ ' ')
    (h : ¬ Opens line.toList) (depth : Nat) (d : DeclLine) :
    ¬ Declares (indented depth line) d := by
  intro hd
  obtain ⟨n, hn⟩ := exists_toList_indented depth line
  obtain ⟨m, hm⟩ := hd.text
  have hsame := congrArg (List.dropWhile (· == ' ')) (hn.symm.trans hm)
  rw [dropWhile_spaces hstart, dropWhile_spaces hd.opens.head?_ne] at hsame
  exact h (hsame ▸ hd.opens)

/-- A text that opens a declaration does so with one of the words, which begins with whatever of the
text is known to have no spaces. -/
theorem Opens.exists_opener {word rest : List Char} (h : Opens (word ++ rest))
    (hword : ' ' ∉ word) : ∃ more c r, word ++ more ∈ openers ∧ rest = more ++ ' ' :: c :: r ∧
      Lexeme.isNameStart c = true := by
  obtain ⟨opener, hopener, c, r, heq, hc⟩ := h
  rcases List.append_eq_append_iff.1 heq with ⟨more, rfl, hrest⟩ | ⟨more, rfl, hspace⟩
  · exact ⟨more, c, r, hopener, hrest, hc⟩
  · cases more with
    | nil =>
      rw [List.append_nil]
      exact ⟨[], c, r, by rwa [List.append_nil], hspace.symm, hc⟩
    | cons d more =>
      obtain rfl : ' ' = d := (List.cons.inj hspace).1
      exact absurd (List.mem_append_right _ List.mem_cons_self) hword

/-- What begins with a text without spaces, and then one of these marks, is no declaration. -/
theorem not_declares_of_mark {line : String} {word rest : List Char} {mark : Char}
    (hline : line.toList = word ++ mark :: rest) (hword : ' ' ∉ word)
    (hmark : mark ∈ [';', '(', '"', '\x7d']) (depth : Nat) (d : DeclLine) :
    ¬ Declares (indented depth line) d := by
  have hspace : mark ≠ ' ' := by
    rintro rfl
    exact absurd hmark (by decide)
  refine not_declares_of_not_opens ?_ ?_ depth d
  · rw [hline]
    cases word with
    | nil => exact fun c hc => Option.some.inj hc ▸ hspace
    | cons e word => exact fun c hc heq => hword (by simp_all)
  · rw [hline]
    intro h
    obtain ⟨more, c, r, hopener, hrest, -⟩ := h.exists_opener hword
    cases more with
    | nil =>
      cases hrest
      exact hspace rfl
    | cons e more =>
      cases hrest
      exact not_mem_opener hopener (List.mem_cons_of_mem _ hmark) (by simp)

/-- What begins with another word than a declaration, or has no name behind it, is none. -/
theorem not_declares_of_space {line : String} {word rest : List Char}
    (hline : line.toList = word ++ ' ' :: rest) (hword : ' ' ∉ word) (hne : word ≠ [])
    (hopener : word ∈ openers → ∀ c ∈ rest.head?, Lexeme.isNameStart c = false) (depth : Nat)
    (d : DeclLine) : ¬ Declares (indented depth line) d := by
  refine not_declares_of_not_opens ?_ ?_ depth d
  · obtain ⟨e, word, rfl⟩ := List.exists_cons_of_ne_nil hne
    rw [hline]
    exact fun c hc heq => hword (by simp_all)
  · rw [hline]
    intro h
    obtain ⟨more, c, r, hmem, hrest, hc⟩ := h.exists_opener hword
    cases more with
    | nil =>
      cases hrest
      rw [List.append_nil] at hmem
      exact absurd hc (by simp [hopener hmem c rfl])
    | cons e more =>
      cases hrest
      exact not_mem_opener hmem List.mem_cons_self (by simp)

/-- An empty line is no declaration. -/
theorem not_declares_empty (depth : Nat) (d : DeclLine) : ¬ Declares (indented depth "") d := by
  refine not_declares_of_not_opens (fun c hc => by cases hc) ?_ depth d
  rintro ⟨opener, -, c, rest, heq, -⟩
  simp at heq

/-- A word and an expression in parentheses behind it begin no declaration. -/
theorem not_declares_condition (word : String) (hword : ' ' ∉ word.toList) (hne : word.toList ≠ [])
    (condition : String) (depth : Nat) (d : DeclLine) :
    ¬ Declares (indented depth (word ++ " (" ++ condition ++ ") \x7b")) d := by
  have hline : (word ++ " (" ++ condition ++ ") \x7b").toList =
      word.toList ++ ' ' :: ('(' :: (condition ++ ") \x7b").toList) := by simp
  refine not_declares_of_space hline hword hne (fun _ c hc => ?_) depth d
  cases hc
  rfl

theorem lists_close (depth : Nat) : Lists [indented depth "\x7d"] [] := by
  have hline : "\x7d".toList = [] ++ '\x7d' :: [] := rfl
  exact .other (not_declares_of_mark hline nofun (by decide) depth) .nil

theorem lists_else (depth : Nat) : Lists [indented depth "\x7d else \x7b"] [] := by
  have hline : "\x7d else \x7b".toList = [] ++ '\x7d' :: " else \x7b".toList := rfl
  exact .other (not_declares_of_mark hline nofun (by decide) depth) .nil

end C

/-! ## Statements -/

open C

theorem space_not_mem_of_isWord {text : List Char} (h : IsWord text) : ' ' ∉ text := by
  intro hmem
  exact absurd (h.chars _ hmem) (by decide)

/-- A statement that is an expression begins with a number or name, or with nothing, and a mark
behind it. -/
theorem Expr.exists_mark_cText {e : TypedExpr} (hnames : ∀ x ∈ e.uses, IsName x) :
    ∃ word mark rest, (e.cText ++ ";").toList = word ++ mark :: rest ∧ ' ' ∉ word ∧
      mark ∈ [';', '(', '"', '\x7d'] := by
  rw [String.toList_append]
  cases e with
  | number v _ => exact ⟨_, ';', [], rfl, space_not_mem_of_isWord (.number v), by decide⟩
  | bool b _ => exact ⟨_, ';', [], rfl, space_not_mem_of_isWord (isWord_bool b), by decide⟩
  | var x _ =>
    exact ⟨_, ';', [], rfl, space_not_mem_of_isWord (.of_isName (hnames x (by simp [uses]))),
      by decide⟩
  | string bytes _ =>
    rw [toList_cText_string]
    exact ⟨[], '"', _, rfl, nofun, by decide⟩
  | negate e _ =>
    rw [toList_cText_negate]
    exact ⟨[], '(', _, rfl, nofun, by decide⟩
  | binary op l r _ =>
    rw [toList_cText_binary]
    exact ⟨[], '(', _, rfl, nofun, by decide⟩
  | call f es _ =>
    rw [toList_cText_call, List.append_assoc]
    exact ⟨_, '(', _, rfl, space_not_mem_of_isWord (.of_isName (hnames f (by simp [uses]))),
      by decide⟩

/-- The declaration that a definition is written as. -/
def Definition.cLine : Definition Ty → DeclLine
  | var target value => .var (!target.mutable) target.ty.cName target.name value.cText
  | function signature => .function signature.returns.cName signature.name
      (", ".intercalate (signature.params.map fun (name, ty) => ty.cName ++ " " ++ name))

theorem declares_indented {d : Definition Ty} {line : String} {depth : Nat}
    (hline : line = d.cLine.text) (hname : IsName d.cLine.name) :
    Declares (indented depth line) d.cLine where
  text := hline ▸ exists_toList_indented depth line
  type := by
    cases d with
    | var target _ => exact ⟨target.ty, rfl⟩
    | function signature => exact ⟨signature.returns, rfl⟩
  name := hname.exists_cons

namespace Stmt

mutual

/-- The declarations among the lines of a statement are its definitions. -/
theorem lists_cLines : ∀ (s : TypedStmt) (depth : Nat), (∀ x ∈ s.names, IsName x) →
    Lists (s.cLines depth) (s.definitions.map Definition.cLine)
  | .declare v e _, depth, hnames => by
    simp only [names, List.forall_mem_cons] at hnames
    rw [cLines]
    refine .declares (declares_indented (d := .var v e) ?_ hnames.1) .nil
    cases hmutable : v.mutable <;> simp [Definition.cLine, DeclLine.text, hmutable]
  | .assign x e _, depth, hnames => by
    simp only [names, List.forall_mem_cons] at hnames
    have hword := IsWord.of_isName hnames.1
    have hline : (x ++ " = " ++ e.cText ++ ";").toList =
        x.toList ++ ' ' :: ('=' :: ' ' :: (e.cText ++ ";").toList) := by simp
    rw [cLines]
    refine .other (not_declares_of_space hline (space_not_mem_of_isWord hword) hword.nonempty
      (fun _ c hc => ?_) depth) .nil
    cases hc
    rfl
  | .branch e a b _, depth, hnames => by
    simp only [names, List.forall_mem_append] at hnames
    obtain ⟨-, ha, hb⟩ := hnames
    have hopen := not_declares_condition "if" (by decide) (by decide) e.cText depth
    have hthen : Lists _ _ := .other hopen (lists_cBody a (depth + 1) ha)
    rw [definitions, List.map_append]
    cases b with
    | nil =>
      rw [cLines, List.append_nil]
      exact hthen.append (lists_close depth)
    | cons s b =>
      have helse := (lists_else depth).append (lists_cBody (s :: b) (depth + 1) hb)
      rw [cLines]
      · simpa using (hthen.append helse).append (lists_close depth)
      · exact nofun
  | .loop e a _, depth, hnames => by
    simp only [names, List.forall_mem_append] at hnames
    have hopen := not_declares_condition "while" (by decide) (by decide) e.cText depth
    have hbody := (lists_cBody a (depth + 1) hnames.2).append (lists_close depth)
    rw [List.append_nil] at hbody
    rw [cLines, definitions]
    exact .other hopen hbody
  | .function f a _, depth, hnames => by
    simp only [names, List.forall_mem_cons, List.forall_mem_append] at hnames
    obtain ⟨hname, -, ha⟩ := hnames
    have hhead : head f ++ " \x7b" = (Definition.function f).cLine.text := (append_open _).symm
    have hclose : Lists [indented depth "\x7d", indented depth ""] [] :=
      (lists_close depth).append (.other (not_declares_empty depth) .nil)
    have hbody := (lists_cBody a (depth + 1) ha).append hclose
    rw [List.append_nil] at hbody
    rw [cLines, definitions]
    exact .declares (declares_indented hhead hname) hbody
  | .ret (some e) _, depth, hnames => by
    have hline : ("return " ++ e.cText ++ ";").toList =
        "return".toList ++ ' ' :: (e.cText ++ ";").toList := by simp
    rw [cLines]
    exact .other (not_declares_of_space hline (by decide) (by decide)
      (fun h => absurd h (by decide)) depth) .nil
  | .ret none _, depth, _ => by
    have hline : "return;".toList = "return".toList ++ ';' :: [] := rfl
    rw [cLines]
    exact .other (not_declares_of_mark hline (by decide) (by decide) depth) .nil
  | .print es _, depth, hnames => by
    have hline : ∃ rest, (Expr.cPrint es).toList = "printf".toList ++ '(' :: rest := by
      simp [Expr.cPrint]
    obtain ⟨rest, hline⟩ := hline
    rw [cLines]
    exact .other (not_declares_of_mark hline (by decide) (by decide) depth) .nil
  | .expr e _, depth, hnames => by
    obtain ⟨word, mark, rest, hline, hword, hmark⟩ := Expr.exists_mark_cText hnames
    rw [cLines]
    exact .other (not_declares_of_mark hline hword hmark depth) .nil

theorem lists_cBody : ∀ (ss : List TypedStmt) (depth : Nat), (∀ x ∈ namesList ss, IsName x) →
    Lists (cBody depth ss) ((definitionsList ss).map Definition.cLine)
  | [], _, _ => .nil
  | s :: ss, depth, hnames => by
    simp only [namesList, List.forall_mem_append] at hnames
    rw [cBody, definitionsList, List.map_append]
    exact (lists_cLines s depth hnames.1).append (lists_cBody ss depth hnames.2)

end

end Stmt

/-! ## Programs -/

namespace C

/-- The lines of a text. -/
def linesOf (text : String) : List String :=
  (text.toList.splitOn '\n').map String.ofList

theorem Stacked.newline_not_mem {n m : Nat} {lines : List String} (h : Stacked n lines m) :
    ∀ line ∈ lines, '\n' ∉ line.toList := by
  induction h with
  | nil => exact nofun
  | cons first _ ih =>
    exact List.forall_mem_cons.2 ⟨fun hmem => (first.printable _ hmem).ne_newline rfl, ih⟩

theorem linesOf_generate {t : List TypedStmt} (hnames : ∀ x ∈ Stmt.namesList t, IsName x) :
    linesOf (generate t) = programLines t := by
  have hfree : ∀ line ∈ (programLines t).map String.toList, '\n' ∉ line :=
    List.forall_mem_map.2 (stacked_programLines hnames).newline_not_mem
  have hne : (programLines t).map String.toList ≠ [] := by
    rw [programLines_eq]
    simp [preamble]
  have hnewline : "\n".toList = ['\n'] := rfl
  rw [linesOf, generate, String.toList_intercalate, hnewline, List.splitOn_intercalate _ hfree hne,
    List.map_map]
  exact List.map_id'' (fun _ => String.ofList_toList) _

theorem lists_preamble : Lists preamble [] := by
  have hinclude : ∀ (rest : String) (d : DeclLine), ¬ Declares ("#include " ++ rest) d := by
    intro rest d
    have hline : ("#include " ++ rest).toList = "#include".toList ++ ' ' :: rest.toList := by simp
    rw [← indented_zero ("#include " ++ rest)]
    exact not_declares_of_space hline (by decide) (by decide) (fun h => absurd h (by decide)) 0 d
  exact .other (hinclude "<stdio.h>") (.other (hinclude "<string.h>")
    (.other (not_declares_empty 0) .nil))

/-- The declarations in the body of the function that runs statements are their definitions. -/
theorem lists_mainLines {statements : List TypedStmt}
    (hnames : ∀ x ∈ Stmt.namesList statements, IsName x) :
    ∃ body, mainLines statements = "int main() \x7b" :: body ∧
      Lists body ((Stmt.definitionsList statements).map Definition.cLine) := by
  refine ⟨_, rfl, ?_⟩
  have hline : "return 0;".toList = "return".toList ++ ' ' :: "0;".toList := rfl
  have hreturn : ∀ d, ¬ Declares (indented 1 "return 0;") d :=
    not_declares_of_space hline (by decide) (by decide) (fun h => absurd h (by decide)) 1
  have hbody := (Stmt.lists_cBody statements 1 hnames).append (.other hreturn (lists_close 0))
  rwa [List.append_nil, indented_zero] at hbody

end C

/-- The C text declares the definitions of the program `p`, of which `t` is the form with types, each
of them once: first those of its functions, in order and with what is inside of them, and then, in a
function that is only there if there are other statements, those of the other statements. -/
def DeclaresDefinitions (p : Program) (t : List TypedStmt) : Prop :=
  ∃ (front back : List String) (functions others : List (Definition Ty)),
    linesOf (generate t) = front ++ back ∧
    functions.map Definition.bare =
      (Stmt.definitionsList (p.filter (·.isFunction))).map Definition.bare ∧
    others.map Definition.bare =
      (Stmt.definitionsList (p.filter (!·.isFunction))).map Definition.bare ∧
    (∀ ds, Lists front ds ↔ ds = functions.map Definition.cLine) ∧
    if p.filter (!·.isFunction) = [] then back = []
    else ∃ body, back = "int main() \x7b" :: body ∧
      ∀ ds, Lists body ds ↔ ds = others.map Definition.cLine

theorem declaresDefinitions_of_typeCheck {source file : String} {ts : List Token} {p : Program}
    {t : List TypedStmt} (htokens : tokenize source file = .ok ts) (hparse : parse ts file = .ok p)
    (hcheck : typeCheck p = .ok t) : DeclaresDefinitions p t := by
  have hnames := isName_of_typeCheck htokens hparse hcheck
  have hfilter := Stmt.forall_mem_namesList_filter hnames
  have hwell : WellTyped none .empty p t := (Stmt.checkAll_iff p).1 hcheck
  have hothers := hwell.mapList_filter not
  have hnil : t.filter (!·.isFunction) = [] ↔ p.filter (!·.isFunction) = [] := by
    have hempty := congrArg (· = []) hothers
    simpa only [Stmt.mapList_eq, List.map_eq_nil_iff, eq_iff_iff] using hempty
  have hfront := lists_preamble.append (Stmt.lists_cBody _ 0 (hfilter (·.isFunction)))
  refine ⟨preamble ++ Stmt.cBody 0 (t.filter (·.isFunction)), _,
    Stmt.definitionsList (t.filter (·.isFunction)), Stmt.definitionsList (t.filter (!·.isFunction)),
    by rw [linesOf_generate hnames, programLines_eq], ?_, ?_, hfront.iff_eq, ?_⟩
  · exact hwell.map_bare_definitionsList id
  · exact hwell.map_bare_definitionsList not
  · simp only [hnil]
    split
    · rfl
    · obtain ⟨body, hmain, hbody⟩ := lists_mainLines (hfilter (!·.isFunction))
      exact ⟨body, hmain, hbody.iff_eq⟩

/-- Definitions in blocks and in functions, and statements that are no definitions. -/
def nestedDefinitions : String :=
  "let y: bool = 1 < 2;\nfn f(a: int, b: string) -> void \x7b\n  mut x: float = 1.5;\n" ++
  "  if y \x7b x = 2.5; fn g() -> bool \x7b return true; \x7d \x7d\n\x7d\n" ++
  "while y \x7b print(1); let z: int = -2; f(z, \"int q = 1;\"); \x7d"

theorem declaresDefinitions_nestedDefinitions : ∃ ts p t,
    tokenize nestedDefinitions "main" = .ok ts ∧ parse ts "main" = .ok p ∧ typeCheck p = .ok t ∧
      DeclaresDefinitions p t := by
  have hok : (compile nestedDefinitions "main").isOk = true := by decide +kernel
  cases h : compile nestedDefinitions "main" with
  | error e =>
    rw [h] at hok
    cases hok
  | ok text =>
    obtain ⟨ts, p, t, htokens, hparse, hcheck, -⟩ := exists_stages_of_compile h
    exact ⟨ts, p, t, htokens, hparse, hcheck,
      declaresDefinitions_of_typeCheck htokens hparse hcheck⟩

end Chalk
