import Chalk.Proofs.Compile.Provenance
import Chalk.Proofs.Text.Lines
import Chalk.Proofs.Token.Lossless

/-!
# Reports show a line of the source

The line of a fault is counted when the source is cut into tokens, is handed on by trees and checks,
and is looked up by cutting the source anew, into lines. The two ways to count agree: the line that
a report shows is the one on which the fault stands (`compile_error_pointsInto`). Only for a fault
of form at the end of a source that ends in a newline is no line found, and then none is shown.
-/

namespace Chalk

open Text

/-- In a source with a visible character the lines can be counted in a word. -/
theorem Position.Visible.newlines_lt {p : Position} {file : String} {source : List Char}
    (h : p.Visible file source) (hsize : (utf8 source).length < UInt32.size) :
    1 + newlines source < UInt32.size := by
  obtain ⟨pre, c, post, rfl, hc, -⟩ := h
  have hne : c ≠ '\n' := by
    rintro rfl
    exact absurd hc (by decide)
  have hpre : newlines pre ≤ pre.length := List.count_le_length
  have hpost : newlines post ≤ post.length := List.count_le_length
  have hcons : newlines (c :: post) = newlines post := List.count_cons_of_ne hne
  have hlength := length_le_utf8Length (pre ++ c :: post)
  rw [length_utf8] at hsize
  rw [List.length_append, List.length_cons] at hlength
  rw [newlines_append, hcons]
  omega

namespace CompileError

/-- A report without a line of the source. -/
def heading (e : CompileError) : String :=
  "* " ++ (match e.line with | some line => "[line #" ++ line.toNat.repr ++ "]: " | none => "") ++
    e.message ++ (match e.tip? with | some tip => "\nhelp: " ++ tip | none => "")

/-- A text between two rules, behind the number of its line. -/
def framed (line : UInt32) (shown : List Char) : String :=
  let rule := String.ofList (List.replicate (line.toNat.repr.length + 1) ' ') ++ "|"
  "\n" ++ rule ++ "\n" ++ line.toNat.repr ++ " | " ++ String.ofList shown ++ "\n" ++ rule

/-- The fault is one of form and stands behind the whole source. -/
def AtEnd (e : CompileError) (source : List Char) : Prop :=
  ∃ x, e = .syntactic x ∧ x.position.offset.toNat = (utf8 source).length

/-- The fault stands on line `n` of the source, and its report shows this line if there is one. -/
structure PointsInto (e : CompileError) (source : String) (n : UInt32) : Prop where
  line : e.line = some n
  lower : 1 ≤ n.toNat
  upper : n.toNat ≤ 1 + newlines source.toList
  /-- The line of a fault of form is counted up to its place. -/
  counted : ∀ x, e = .syntactic x →
    x.position.offset.toNat ≤ (utf8 source.toList).length ∧
      n.toNat = lineAt source.toList x.position.offset.toNat
  none_iff : sourceLine? source n = none ↔
    e.AtEnd source.toList ∧ source.toList.getLast? = some '\n'
  bare : sourceLine? source n = none → e.report source = e.heading
  /-- The line is shown without the blanks around it. In front of the end of the source, the
  character at which a fault of form stands is shown, with what is shown on both sides of it. -/
  shown : sourceLine? source n ≠ none → ∃ line shown,
    IsLine source.toList n.toNat line ∧ IsTrimmed line shown ∧
      e.report source = e.heading ++ framed n shown ∧
      ∀ x, e = .syntactic x → x.position.offset.toNat < (utf8 source.toList).length →
        ∃ pre c post u v, source.toList = pre ++ c :: post ∧
          (utf8 pre).length = x.position.offset.toNat ∧
          shown = u ++ c :: v ∧ u <:+ pre ∧ v <+: post

variable {e : CompileError} {source : String} {n : UInt32}

theorem report_eq (hline : e.line = some n) :
    e.report source = e.heading ++ ((sourceLine? source n).map (snippet n)).getD "" := by
  have hparts : e.report source = e.heading ++
      match e.line with
      | some line =>
        match sourceLine? source line with
        | some text => snippet line text
        | none => ""
      | none => "" := rfl
  rw [hparts, hline]
  dsimp only
  cases sourceLine? source n with
  | none => rfl
  | some text => rfl

theorem report_eq_heading (hline : e.line = some n) (h : sourceLine? source n = none) :
    e.report source = e.heading := by
  rw [report_eq hline, h]
  exact String.append_empty

theorem report_eq_framed (hline : e.line = some n) {text : List Char}
    (h : line? source.toList n.toNat = some text) :
    e.report source = e.heading ++ framed n (trim text) := by
  have hsnippet : snippet n (String.ofList text) = framed n (trim text) := by
    rw [snippet, String.toList_ofList]
    rfl
  rw [report_eq hline, sourceLine?, h, ← hsnippet]
  rfl

/-- A fault at a visible character. -/
theorem pointsInto_of_visible {file : String} {p : Position}
    (hsize : (utf8 source.toList).length < UInt32.size) (hp : p.Visible file source.toList)
    (hline : e.line = some p.line) (hplace : ∀ x, e = .syntactic x → x.position = p) :
    e.PointsInto source p.line := by
  have hlines := hp.newlines_lt hsize
  obtain ⟨pre, c, post, hsource, hc, rfl⟩ := hp
  rw [hsource, length_utf8, utf8Length_append, utf8Length_cons] at hsize
  rw [hsource, newlines_append] at hlines
  have hn : (Position.behind file pre).line.toNat = 1 + newlines pre :=
    Position.toNat_line_behind (by omega)
  have hoffset : ∀ x, e = .syntactic x → x.position.offset.toNat = utf8Length pre := by
    intro x hx
    rw [hplace x hx]
    exact Position.toNat_offset_behind (by omega)
  have hlength : (utf8 source.toList).length = utf8Length pre + utf8Length (c :: post) := by
    rw [hsource, length_utf8, utf8Length_append]
  have hpos := utf8Length_pos (List.cons_ne_nil c post)
  obtain ⟨line, hisLine, hfound, u, v, hshown, hu, hv⟩ := exists_line_of_visible pre post hc
  rw [← hsource, ← hn] at hisLine hfound
  have hsome : sourceLine? source (Position.behind file pre).line ≠ none := by
    simp [sourceLine?, hfound]
  refine ⟨hline, by omega, ?_, fun x hx => ?_, iff_of_false hsome ?_, fun h => absurd h hsome, ?_⟩
  · rw [hn, hsource, newlines_append]
    omega
  · rw [hoffset x hx, hn, hsource, lineAt_append, ← hsource]
    exact ⟨by omega, rfl⟩
  · rintro ⟨⟨x, hx, hend⟩, -⟩
    rw [hoffset x hx] at hend
    omega
  · intro _
    refine ⟨line, _, hisLine, .trim_dropLineEnd line, report_eq_framed hline hfound, ?_⟩
    intro x hx _
    exact ⟨pre, c, post, u, v, hsource, by rw [length_utf8, hoffset x hx], hshown, hu, hv⟩

/-- A fault at the end. -/
theorem pointsInto_of_end {file : String} {x : SyntaxError}
    (hsize : (utf8 source.toList).length < UInt32.size)
    (hvisible : ∃ p : Position, p.Visible file source.toList)
    (hx : x.position = .behind file source.toList) :
    (syntactic x).PointsInto source x.position.line := by
  obtain ⟨p, hp⟩ := hvisible
  have hne : source.toList ≠ [] := by
    obtain ⟨pre, c, post, hsource, -⟩ := hp
    simp [hsource]
  have hn : x.position.line.toNat = 1 + newlines source.toList := by
    rw [hx]
    exact Position.toNat_line_behind (hp.newlines_lt hsize)
  have hoffset : x.position.offset.toNat = (utf8 source.toList).length := by
    rw [hx, length_utf8]
    rw [length_utf8] at hsize
    exact Position.toNat_offset_behind hsize
  obtain ⟨line, hisLine, hfound⟩ := exists_line_of_end hne
  rw [← hn] at hisLine hfound
  have hnone : sourceLine? source x.position.line = none ↔
      source.toList.getLast? = some '\n' := by
    rw [sourceLine?, hfound]
    split
    · next hlast => simp [hlast]
    · next hlast => simp [hlast]
  refine ⟨rfl, by omega, by omega, ?_, ?_, fun h => report_eq_heading rfl h, fun hsome => ?_⟩
  · intro x' hx'
    cases hx'
    refine ⟨by omega, ?_⟩
    rw [hn, hoffset, lineAt, List.take_length, count_utf8]
  · rw [hnone]
    exact ⟨fun hlast => ⟨⟨x, rfl, hoffset⟩, hlast⟩, fun h => h.2⟩
  · rw [if_neg (mt hnone.2 hsome)] at hfound
    refine ⟨line, _, hisLine, .trim_dropLineEnd line, report_eq_framed rfl hfound, ?_⟩
    intro x' hx' hlt
    cases hx'
    omega

end CompileError

/-- A fault that is found in a source stands on one of its lines, and the report shows that line,
unless the fault is one of form at the end of a source that ends in a newline. -/
theorem compile_error_pointsInto {source file : String} {e : CompileError}
    (hsize : (utf8 source.toList).length < UInt32.size) (h : compile source file = .error e) :
    ∃ n, e.PointsInto source n := by
  cases compile_origin h with
  | form visible =>
    refine ⟨_, CompileError.pointsInto_of_visible hsize visible rfl fun x hx => ?_⟩
    cases hx
    rfl
  | meaning visible line =>
    exact ⟨_, CompileError.pointsInto_of_visible hsize visible line nofun⟩
  | atEnd position visible => exact ⟨_, CompileError.pointsInto_of_end hsize visible position⟩

/-- A string over two lines, and an operand that is missing on the third. -/
def missingBehindString : String :=
  "let s: string = \"a\nb\";\r\n  print(s + );\r\n"

theorem pointsInto_missingBehindString :
    ∃ e, (utf8 missingBehindString.toList).length < UInt32.size ∧
      compile missingBehindString "main" = .error e ∧ e.line = some 3 ∧
      ∃ n, e.PointsInto missingBehindString n := by
  have hsize : (utf8 missingBehindString.toList).length < UInt32.size := by decide
  have hruns : (compile missingBehindString "main").mapError CompileError.line =
      .error (some 3) := by decide +kernel
  cases h : compile missingBehindString "main" with
  | ok text =>
    rw [h] at hruns
    cases hruns
  | error e =>
    rw [h] at hruns
    exact ⟨e, hsize, rfl, Except.error.inj hruns, compile_error_pointsInto hsize h⟩

end Chalk
