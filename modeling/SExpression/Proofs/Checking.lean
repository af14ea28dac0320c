import SExpression.Proofs.Flags
import SExpression.Proofs.Runs

/-! A session that checks prints nothing, and what it writes is nothing: the output file of a check
that passes is emptied, and no other file is touched. -/
namespace SExpression

/-- One of the words before two dashes is the flag for checking, shortened or not. -/
def Word.AsksForCheck (words : List Text) : Prop :=
  ∃ word ∈ words.takeWhile (· ≠ terminatorText), ∃ short attached,
    ofArgument word = .ok (.flagged .check short attached)

theorem Word.asksForCheck_of_mem {words : List Text}
    (h : Text.ofString "--check" ∈ words.takeWhile (· ≠ terminatorText)) : AsksForCheck words :=
  ⟨"--check", h, false, none, by decide +kernel⟩

/-- Whatever else a command line asks for, it does not check and do something else as well. -/
theorem Arguments.mode_of_ofCommandLine {arguments : List Text} {input : Text} {a : Arguments}
    (hcheck : Word.AsksForCheck arguments) (h : ofCommandLine arguments = .ok (input, a)) :
    a.mode = .check :=
  (broughtBy_check.ofCommandLine (Flag.isLong_of_names (by decide)) (by decide) h).mpr hcheck

namespace Options

variable {o : Options} {t : Tracer} {tree : FileTree} {outcome : Outcome}

theorem mode_of_resolve {input : Text} {a : Arguments} (h : resolve tree input a = .ok o) :
    o.mode = a.mode := by
  obtain ⟨-, -, -, -, hmode⟩ := fields_of_resolve h
  exact hmode

/-- An output file is named by the command line, and not by an empty name. -/
theorem output_eq_some_iff {input : Text} {a : Arguments} {path : Path}
    (h : resolve tree input a = .ok o) :
    o.output = some path ↔ ∃ name, a.output = some name ∧ name ≠ [] ∧ .ofText name = path := by
  obtain ⟨-, houtput, -⟩ := fields_of_resolve h
  simp [houtput, Option.bind_eq_some_iff]

theorem result_of_check {contents : Bytes} {notes result : Text} (hmode : o.mode = .check)
    (h : o.process contents = (notes, .ok result)) : result = [] := by
  unfold process at h
  rw [hmode] at h
  dsimp only at h
  split at h
  · cases (Prod.ext_iff.mp h).2
  · exact (Except.ok.inj (Prod.ext_iff.mp h).2).symm

namespace Runs

theorem out_of_check (h : o.Runs t tree outcome) (hmode : o.mode = .check) :
    outcome.streams.out = [] := by
  cases h with
  | printed _ _ hprocess => exact result_of_check hmode hprocess
  | _ => rfl

/-- A result of a check says nothing, but is written all the same. -/
theorem tree_of_check (h : o.Runs t tree outcome) (hmode : o.mode = .check) :
    outcome.tree = tree ∨ ∃ path, o.output = some path ∧ outcome.exit = .code 0 ∧
      tree.write path [] = .ok outcome.tree := by
  cases h with
  | stored _ _ hprocess houtput hwrite =>
    obtain rfl := result_of_check hmode hprocess
    exact .inr ⟨_, houtput, rfl, hwrite⟩
  | _ => exact .inl rfl

end Runs
end Options

namespace Session

variable {t : Tracer} {tree : FileTree} {input : Text} {a : Arguments} {words : List Text}

/-- The session has stored its result in the file of that name. -/
def StoresIn (session : Session) (words : List Text) (name : Text) : Prop :=
  session.outcome.exit = .code 0 ∧ name ≠ [] ∧
    ∃ input a, Arguments.ofCommandLine words = .ok (input, a) ∧ a.output = some name

/-- What is left of a session that only checks. -/
structure Checks (tree : FileTree) (words : List Text) (session : Session) : Prop where
  polls : session.polls = []
  silent : Arguments.ofCommandLine words ≠ .error .help → session.outcome.streams.out = []
  kept : (∀ name, ¬ session.StoresIn words name) → session.outcome.tree = tree
  /-- The output file holds nothing, and all else is as it was. -/
  emptied : ∀ name, session.StoresIn words name →
    session.outcome.tree.read (.ofText name) = .ok [] ∧
    ∀ other node, tree.locate other ≠ tree.locate (.ofText name) →
      (session.outcome.tree.find? other = .ok node ↔ tree.find? other = .ok node)

theorem checks_of_error {stop : Stop} (h : Arguments.ofCommandLine words = .error stop)
    (t : Tracer) (tree : FileTree) (changes : List Change) :
    Checks tree words (run t tree words changes) := by
  have hnone : ∀ session name, ¬ StoresIn session words name := by
    rintro session name ⟨-, -, input, a, hwords, -⟩
    rw [h] at hwords
    cases hwords
  rw [run, h]
  cases stop with
  | help =>
    refine ⟨rfl, fun hhelp => absurd h hhelp, fun _ => rfl, ?_⟩
    exact fun name hstores => absurd hstores (hnone _ name)
  | misuse e =>
    refine ⟨rfl, fun _ => rfl, fun _ => rfl, ?_⟩
    exact fun name hstores => absurd hstores (hnone _ name)

theorem checks_of_resolve_error {e : OptionsError}
    (h : Arguments.ofCommandLine words = .ok (input, a))
    (hresolve : Options.resolve tree input a = .error e) (t : Tracer) (changes : List Change) :
    Checks tree words (run t tree words changes) := by
  obtain ⟨hout, htree, hexit⟩ : (refused tree e).streams.out = [] ∧ (refused tree e).tree = tree ∧
      (refused tree e).exit ≠ .code 0 := by
    unfold refused
    split <;> simp [Streams.ofErr]
  rw [run_eq_ofArguments h, ofArguments_of_error hresolve]
  refine ⟨rfl, fun _ => hout, fun _ => htree, ?_⟩
  rintro name ⟨hzero, -⟩
  exact absurd hzero hexit

theorem checks_of_resolve_ok {o : Options} (h : Arguments.ofCommandLine words = .ok (input, a))
    (hresolve : Options.resolve tree input a = .ok o) (hmode : a.mode = .check)
    (hwatch : a.watch = false) (t : Tracer) (changes : List Change) :
    Checks tree words (run t tree words changes) := by
  have hruns := o.runs_run t tree
  have hmode := (Options.mode_of_resolve hresolve).trans hmode
  rw [run_eq_ofArguments h, ofArguments_of_ok hresolve hwatch]
  refine ⟨rfl, fun _ => hruns.out_of_check hmode, ?_, ?_⟩
  · intro hnone
    rcases hruns.tree_of_check hmode with htree | ⟨path, hpath, hexit, -⟩
    · exact htree
    · obtain ⟨name, houtput, hname, -⟩ := (Options.output_eq_some_iff hresolve).mp hpath
      exact absurd ⟨hexit, hname, input, a, h, houtput⟩ (hnone name)
  · rintro name ⟨hexit, hname, others, b, hwords, houtput⟩
    rw [h] at hwords
    cases hwords
    have hpath := (Options.output_eq_some_iff hresolve).mpr ⟨name, houtput, hname, rfl⟩
    obtain ⟨-, hwrite⟩ := hruns.exists_write hexit hpath
    have hempty : (({ o with output := none } : Options).run t tree).streams.out = [] :=
      (Options.runs_run _ t tree).out_of_check hmode
    rw [hempty] at hwrite
    exact ⟨FileTree.read_of_write hwrite, fun _ _ => FileTree.find?_of_write hwrite⟩

/-- A session that checks, without a watch, prints nothing and touches no file, but that it empties
its output file where the check passes. -/
theorem run_checks (t : Tracer) (tree : FileTree) (changes : List Change) {words : List Text}
    (hcheck : Word.AsksForCheck words)
    (hwatch : ∀ input a, Arguments.ofCommandLine words = .ok (input, a) → a.watch = false) :
    Checks tree words (run t tree words changes) := by
  cases hwords : Arguments.ofCommandLine words with
  | error stop => exact checks_of_error hwords t tree changes
  | ok taken =>
    obtain ⟨input, a⟩ := taken
    cases hresolve : Options.resolve tree input a with
    | error e => exact checks_of_resolve_error hwords hresolve t changes
    | ok o =>
      have hmode := Arguments.mode_of_ofCommandLine hcheck hwords
      exact checks_of_resolve_ok hwords hresolve hmode (hwatch input a hwords) t changes

/-- The flag is shortened, and the input is not well formed. -/
theorem run_checks_rejected :
    let words : List Text := ["--chec", "-o", "out.txt", "a.sexp"]
    let tree : FileTree := { entries := [
      (.ofText "a.sexp", .file (Text.encode "(a") 7),
      (.ofText "out.txt", .file (Text.encode "keep me") 8)] }
    let session := run {} tree words []
    Word.AsksForCheck words ∧ session.outcome.exit = .code 1 ∧ session.outcome.streams.out = [] ∧
      session.outcome.tree = tree := by
  intro words tree session
  have hwords : Arguments.ofCommandLine words =
      .ok ("a.sexp", { input := some "a.sexp", output := some "out.txt", mode := .check }) := by
    decide +kernel
  have hcheck : Word.AsksForCheck words := ⟨"--chec", by decide, false, none, by decide +kernel⟩
  have hexit : session.outcome.exit = .code 1 := by decide +kernel
  have hchecks : Checks tree words session := by
    refine run_checks {} tree [] hcheck ?_
    intro input a h
    rw [hwords] at h
    cases h
    rfl
  refine ⟨hcheck, hexit, hchecks.silent (by simp [hwords]), hchecks.kept ?_⟩
  rintro name ⟨hzero, -⟩
  rw [hexit] at hzero
  cases hzero

/-- A check that passes empties the output file, which held something. -/
theorem run_check_empties_output :
    let words : List Text := ["doc.sexp", "--check", "-o", "out.txt"]
    let tree : FileTree := { entries := [
      (.ofText "doc.sexp", .file (Text.encode "(a b)") 7),
      (.ofText "out.txt", .file (Text.encode "keep me") 8)] }
    let session := run {} tree words []
    Word.AsksForCheck words ∧
      Arguments.ofCommandLine words =
        .ok ("doc.sexp", { input := some "doc.sexp", output := some "out.txt", mode := .check }) ∧
      session.outcome.exit = .code 0 ∧
      tree.read (.ofText "out.txt") = .ok (Text.encode "keep me") ∧
      session.outcome.tree.read (.ofText "out.txt") = .ok [] := by
  refine ⟨Word.asksForCheck_of_mem (by decide), ?_⟩
  decide +kernel

end Session
end SExpression
