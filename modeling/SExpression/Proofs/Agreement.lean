import SExpression.Diagnostics
import SExpression.Proofs.Lines
import SExpression.Proofs.Replacement
import SExpression.Proofs.Reports
import SExpression.Proofs.Runs

/-! An editor, a check on the command line and the parser agree on every document: whether it has an
error, what is told of the error, and where that is. -/
namespace SExpression

namespace Diagnostic

theorem ofError_eq (text : Text) (e : ParseError) :
    (ofError text e).message = e.message ∧
      (ofError text e).start = .ofPosition text e.span.start := by
  cases e <;> exact ⟨rfl, rfl⟩

theorem collect_of_ok {f : Features} {text : Text} {elements : List Element}
    (h : (Source.ofText text).parse f none = .ok elements) : collect f text = [] := by
  rw [collect, (Source.parse_eq_ok_iff.mp h).1]
  rfl

theorem collect_of_error {f : Features} {text : Text} {e : ParseError}
    (h : (Source.ofText text).parse f none = .error e) : collect f text = [ofError text e] := by
  rw [collect, Source.parse_eq_error_iff.mp h]
  rfl

/-- The diagnostic is told on the first line, and on the second where it starts: its line is counted
from 1, and its column is that of the code point up to which the line takes up that many UTF-16
code units. -/
def IsShown (d : Diagnostic) (text filename err : Text) : Prop :=
  ∃ (line margin more : Text) (column : ℕ),
    text.line? (d.start.line + 1) = some line ∧ column ≤ line.length ∧
    (∀ n ≤ line.length, (Text.utf16Length (line.take n) : ℤ) = d.start.character ↔ n = column) ∧
    d.message.IsOneLine ∧ (∀ c ∈ margin, c = CodePoint.ofChar ' ') ∧
    err = "error: " ++ d.message ++ "\n" ++ (margin ++ "--> " ++ filename ++ ":" ++
      Text.ofInt (d.start.line + 1) ++ ":" ++ Text.ofInt (column + 1) ++ "\n" ++ more)

/-- An error of a document is shown as its diagnostic says. -/
theorem isShown_ofError {f : Features} {limit : Option ℤ} {text : Text} {e : ParseError}
    (h : (Source.ofText text).parse f limit = .error e) (filename : Text) :
    (ofError text e).IsShown text filename (e.report.format text filename ++ "\n") := by
  obtain ⟨before, after, htext, hplace⟩ := (Source.shows_ofText text).hasPlace_of_parse h
  have htext : text = before ++ after := htext
  obtain ⟨hmessage, hstart⟩ := ofError_eq text e
  obtain ⟨margin, more, hmargin, hformat⟩ := e.report.exists_format_eq text filename
  have hline : text.line? before.place.line = some (Text.lineAround before after) := by
    rw [htext]
    exact Text.line?_place before after
  have hcolumn : (before.place.column.toNat : ℤ) = before.place.column := rfl
  have hnumber : (ofError text e).start.line + 1 = before.place.line := by
    rw [hstart, hplace]
    exact sub_add_cancel _ 1
  have hcharacter : (ofError text e).start.character =
      Text.utf16Length ((Text.lineAround before after).take before.place.column.toNat) := by
    rw [hstart, hplace, Place.ofPosition]
    dsimp only
    rw [hline]
  have hle := Text.column_le_length_lineAround before after
  refine ⟨Text.lineAround before after, margin, more ++ "\n", before.place.column.toNat, ?_, hle,
    ?_, ?_, hmargin, ?_⟩
  · rw [hnumber, hline]
  · intro n hn
    rw [hcharacter, Int.natCast_inj]
    constructor
    · exact Text.utf16Length_take_inj hn hle
    · rintro rfl
      rfl
  · rw [hmessage]
    exact e.isOneLine_message
  · have hreport : e.report.start = before.place := hplace
    have htold : e.report.message = (ofError text e).message := hmessage.symm
    rw [hformat, hnumber, hcolumn, hreport, htold]
    simp only [List.append_assoc]

end Diagnostic

/-- A name that is taken for the input, with the flag for checking behind it. -/
theorem Arguments.ofCommandLine_check {name : Text}
    (h : Word.ofArgument name = .ok (.operand name)) :
    ofCommandLine [name, "--check"] = .ok (name, { input := some name, mode := .check }) := by
  have hname : name ≠ Word.terminatorText := by
    rintro rfl
    revert h
    decide +kernel
  have hcheck : Word.ofArguments ["--check"] = .ok [.flagged .check false none] := by decide +kernel
  have hwords : Word.ofArguments [name, "--check"] =
      .ok [.operand name, .flagged .check false none] := by
    rw [Word.ofArguments, if_neg hname, h, hcheck]
  have htaken : ofWords {} [] [.operand name, .flagged .check false none] =
      .ok ({ input := some name, mode := .check }, []) := by
    simp [ofWords, Cluster.ofFlag, Cluster.single, Flag.takesValue, takeAll, take, choose]
  rw [ofCommandLine, hwords]
  dsimp only
  rw [htaken]
  rfl

/-- Nothing of the defaults changes where there is no configuration. -/
theorem Options.resolve_check {tree : FileTree} {name : Text}
    (h : tree.find? (configPath name {}) = .error .missing) :
    resolve tree name { input := some name, mode := .check } = .ok {
      input := .ofText name, output := none, features := {}, limit := none, mode := .check
      watch := false, debug := false, verbose := false } := by
  have htable : loadTable tree (configPath name {}) = .ok [] := by
    rw [loadTable, h]
    rfl
  exact resolve_eq_ok_iff.mpr ⟨[], htable, rfl⟩

namespace Options

variable {o : Options} {tree : FileTree} {contents : Bytes}

theorem exit_of_parse_ok {elements : List Element} (t : Tracer) (hmode : o.mode ≠ .tokens)
    (houtput : o.output = none) (hread : tree.read o.input = .ok contents)
    (h : (Source.ofBytes contents).parse o.features o.limit = .ok elements) :
    (o.run t tree).exit = .code 0 := by
  have hruns := o.runs_run t tree
  generalize o.run t tree = outcome at hruns
  cases hruns with
  | unreadable herror => simp [hread] at herror
  | notPath herror => simp [hread] at herror
  | @rejected others report hothers hrejects =>
    obtain rfl : contents = others := Except.ok.inj (hread.symm.trans hothers)
    cases hrejects with
    | tokens htokens => exact absurd htokens hmode
    | elements _ herror => simp [h] at herror
  | printed => rfl
  | stored _ _ _ hpath => simp [houtput] at hpath
  | unwritable _ _ hpath => simp [houtput] at hpath

theorem run_of_parse_error {e : ParseError} (t : Tracer) (hmode : o.mode ≠ .tokens)
    (hread : tree.read o.input = .ok contents)
    (h : (Source.ofBytes contents).parse o.features o.limit = .error e) :
    o.run t tree =
      ⟨.code 1, .ofErr (o.complaint e.report (Source.ofBytes contents).shown), tree⟩ := by
  have hrejects : o.Rejects contents e.report := .elements hmode h
  rcases o.process_cases contents with ⟨report, hreport, hprocess⟩ | ⟨notes, result, haccepts, -⟩
  · cases hreport with
    | tokens htokens => exact absurd htokens hmode
    | elements _ herror =>
      obtain rfl : e = _ := Except.error.inj (h.symm.trans herror)
      rw [run, processIn_of_ok hread, hprocess]
      dsimp only
      rw [List.nil_append]
  · exact absurd hrejects (haccepts e.report)

end Options

namespace Session

/-- A check of a file that holds the text, with no configuration beside it, passes exactly where the
text parses, and that is where an editor is told nothing. Else it fails without output, and shows
the one diagnostic that an editor is told. -/
theorem check_agrees (t : Tracer) {tree : FileTree} {name text : Text}
    (htext : ∀ c ∈ text, c.IsScalar) (hname : Word.ofArgument name = .ok (.operand name))
    (hread : tree.read (.ofText name) = .ok text.encode)
    (hconfig : tree.find? (Options.configPath name {}) = .error .missing) :
    let session := run t tree [name, "--check"] []
    session.polls = [] ∧
    (Diagnostic.collect {} text = [] ↔
      ∃ elements, (Source.ofText text).parse {} none = .ok elements) ∧
    (Diagnostic.collect {} text = [] ↔ session.outcome.exit = .code 0) ∧
    (Diagnostic.collect {} text ≠ [] → ∃ d, Diagnostic.collect {} text = [d] ∧
      session.outcome.exit = .code 1 ∧ session.outcome.streams.out = [] ∧
      d.IsShown text (Path.ofText name).text session.outcome.streams.err) := by
  intro session
  obtain ⟨o, hresolve, hinput, houtput, hfeatures, hlimit, hmode⟩ : ∃ o : Options,
      Options.resolve tree name { input := some name, mode := .check } = .ok o ∧
        o.input = .ofText name ∧ o.output = none ∧ o.features = {} ∧ o.limit = none ∧
        o.mode = .check :=
    ⟨_, Options.resolve_check hconfig, rfl, rfl, rfl, rfl, rfl⟩
  have hsession : session = { outcome := o.run t tree } := by
    show run t tree [name, "--check"] [] = _
    rw [run_eq_ofArguments (Arguments.ofCommandLine_check hname), ofArguments_of_ok hresolve rfl,
      configNote_eq_nil rfl]
    rfl
  have hcontents : tree.read o.input = .ok text.encode := by rw [hinput, hread]
  have hchecks : o.mode ≠ .tokens := by simp [hmode]
  have hsource := Source.ofBytes_encode htext
  rw [hsession]
  refine ⟨rfl, ?_⟩
  cases hparse : (Source.ofText text).parse {} none with
  | ok elements =>
    have hexit : (o.run t tree).exit = .code 0 := by
      apply Options.exit_of_parse_ok t hchecks houtput hcontents
      rw [hsource, hfeatures, hlimit, hparse]
    have hcollect := Diagnostic.collect_of_ok hparse
    refine ⟨iff_of_true hcollect ⟨elements, rfl⟩, iff_of_true hcollect hexit, ?_⟩
    intro hne
    exact absurd hcollect hne
  | error e =>
    have hrun : o.run t tree = ⟨.code 1, .ofErr (o.complaint e.report text), tree⟩ := by
      have hbytes : (Source.ofBytes text.encode).parse o.features o.limit = .error e := by
        rw [hsource, hfeatures, hlimit, hparse]
      rw [Options.run_of_parse_error t hchecks hcontents hbytes, hsource]
      rfl
    have hcollect := Diagnostic.collect_of_error hparse
    rw [hrun, hcollect]
    refine ⟨by simp, by simp, fun _ => ⟨_, rfl, rfl, rfl, ?_⟩⟩
    have hshown := Diagnostic.isShown_ofError hparse (Path.ofText name).text
    rwa [← hinput] at hshown ⊢

/-- The bracket is the fifth code point of its line, and the sixth code unit in UTF-16. -/
theorem check_agrees_behind_wide_character :
    let text : Text := "a\n\"😀\" ]"
    let tree : FileTree := { entries := [(.ofText "doc.sexp", .file text.encode 1)] }
    let session := run {} tree ["doc.sexp", "--check"] []
    session.outcome.exit = .code 1 ∧ ∃ d, Diagnostic.collect {} text = [d] ∧ d.start = ⟨1, 5⟩ ∧
      d.IsShown text "doc.sexp" session.outcome.streams.err := by
  intro text tree session
  have htext : ∀ c ∈ text, c.IsScalar := by decide
  have hname : Word.ofArgument "doc.sexp" = .ok (.operand "doc.sexp") := by decide +kernel
  have hread : tree.read (.ofText "doc.sexp") = .ok text.encode := by decide +kernel
  have hconfig : tree.find? (Options.configPath "doc.sexp" {}) = .error .missing := by
    decide +kernel
  obtain ⟨-, -, -, hfound⟩ := check_agrees {} htext hname hread hconfig
  have hcollect : Diagnostic.collect {} text =
      [⟨⟨1, 5⟩, ⟨1, 6⟩, "unbalanced: unexpected close ']'"⟩] := by
    decide +kernel
  obtain ⟨d, hd, hexit, -, hshown⟩ := hfound (by simp [hcollect])
  refine ⟨hexit, d, hd, ?_, hshown⟩
  rw [hcollect] at hd
  cases hd
  rfl

end Session
end SExpression
