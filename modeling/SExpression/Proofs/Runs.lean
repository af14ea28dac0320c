import SExpression.Program
import SExpression.Proofs.Files

/-! How a run ends. Nothing is written before all of the input has been read, so that a run that
fails leaves every file as it was, and one that succeeds changes at most its output file. -/
namespace SExpression

@[simp] theorem Streams.ofErr_append_out (err out : Text) :
    ofErr err ++ { out } = ⟨out, err⟩ := by
  show Streams.mk ([] ++ out) (err ++ []) = _
  rw [List.nil_append, List.append_nil]

@[simp] theorem Streams.append_empty (a : Streams) : a ++ ({} : Streams) = a := by
  show Streams.mk (a.out ++ []) (a.err ++ []) = a
  rw [List.append_nil, List.append_nil]

namespace Options

section Resolve

variable {tree : FileTree} {input : Text} {a : Arguments} {o : Options}

theorem bind_eq_ok_iff {ε α β : Type} {x : Except ε α} {g : α → Except ε β} {b : β} :
    (x >>= g) = .ok b ↔ ∃ a, x = .ok a ∧ g a = .ok b := by
  cases x with
  | error e => simp [bind, Except.bind]
  | ok a => simp [bind, Except.bind]

theorem merge_eq_ok_iff {table : Toml.Table} :
    merge table input a = .ok o ↔
      ∃ features, mergeFeatures (part table "tokenizer") a.disabled {} Feature.all = .ok features ∧
      ∃ configured, configuredLimit (part table "parser") = .ok configured ∧
      ∃ limit, mergeLimit configured a.depth = .ok limit ∧
      Except.ok {
        input := .ofText input
        output := a.output.bind fun text => if text = [] then none else some (.ofText text)
        features, limit, mode := a.mode, watch := a.watch, debug := a.debug
        verbose := a.verbose } = (.ok o : Except OptionsError Options) := by
  unfold merge
  simp only [bind_eq_ok_iff]
  rfl

theorem resolve_eq_ok_iff :
    resolve tree input a = .ok o ↔
      ∃ table, loadTable tree (configPath input a) = .ok table ∧ merge table input a = .ok o := by
  rw [resolve, bind_eq_ok_iff]

/-- What is taken from the command line as it is. -/
theorem fields_of_resolve (h : resolve tree input a = .ok o) :
    o.input = .ofText input ∧
      o.output = (a.output.bind fun text => if text = [] then none else some (.ofText text)) ∧
      o.watch = a.watch ∧ o.verbose = a.verbose ∧ o.mode = a.mode := by
  obtain ⟨table, -, hmerge⟩ := resolve_eq_ok_iff.mp h
  obtain ⟨features, -, configured, -, limit, -, ho⟩ := merge_eq_ok_iff.mp hmerge
  cases ho
  exact ⟨rfl, rfl, rfl, rfl, rfl⟩

/-- The output file and the watch have no part in what else is resolved, nor have the files, but for
the configuration. -/
theorem resolve_of_loadTable_eq {files : FileTree} (h : resolve tree input a = .ok o)
    (htable : loadTable files (configPath input a) = loadTable tree (configPath input a)) :
    resolve files input { a with output := none } = .ok { o with output := none } ∧
      resolve files input { a with watch := false } = .ok { o with watch := false } := by
  obtain ⟨table, hload, hmerge⟩ := resolve_eq_ok_iff.mp h
  obtain ⟨features, hfeatures, configured, hconfigured, limit, hlimit, ho⟩ :=
    merge_eq_ok_iff.mp hmerge
  cases ho
  have hload := htable.trans hload
  constructor
  · exact resolve_eq_ok_iff.mpr ⟨table, hload, merge_eq_ok_iff.mpr
      ⟨features, hfeatures, configured, hconfigured, limit, hlimit, rfl⟩⟩
  · exact resolve_eq_ok_iff.mpr ⟨table, hload, merge_eq_ok_iff.mpr
      ⟨features, hfeatures, configured, hconfigured, limit, hlimit, rfl⟩⟩

end Resolve

/-- The bytes cannot be read in the mode that is selected. -/
inductive Rejects (o : Options) (contents : Bytes) : Report → Prop
  | tokens {e : TokenError} (hmode : o.mode = .tokens)
      (h : (Source.ofBytes contents).tokenize o.features = .error e) : Rejects o contents e.report
  | elements {e : ParseError} (hmode : o.mode ≠ .tokens)
      (h : (Source.ofBytes contents).parse o.features o.limit = .error e) :
      Rejects o contents e.report

theorem process_cases (o : Options) (contents : Bytes) :
    (∃ report, o.Rejects contents report ∧ o.process contents =
      ([], .error (.rejected report (Source.ofBytes contents).shown))) ∨
    ∃ notes result, (∀ report, ¬ o.Rejects contents report) ∧
      o.process contents = (notes, .ok result) := by
  by_cases hmode : o.mode = .tokens
  · cases h : (Source.ofBytes contents).tokenize o.features with
    | error e => exact .inl ⟨e.report, .tokens hmode h, by simp [process, hmode, h]⟩
    | ok tokens =>
      refine .inr ⟨[], Token.dump tokens, ?_, by simp [process, hmode, h]⟩
      rintro report (⟨-, h'⟩ | ⟨hmode', -⟩)
      · rw [h] at h'
        cases h'
      · exact hmode' hmode
  · cases h : (Source.ofBytes contents).parse o.features o.limit with
    | error e =>
      refine .inl ⟨e.report, .elements hmode h, ?_⟩
      unfold process
      cases hother : o.mode with
      | tokens => exact absurd hother hmode
      | print => simp only [h]
      | check => simp only [h]
    | ok elements =>
      refine .inr ⟨o.log ("parsed " ++ Text.ofNat elements.length ++ " top-level elements from " ++
          o.input.text) ++ (if o.debug then Element.dump elements else []),
        if o.mode = .check then [] else document elements, ?_, ?_⟩
      · rintro report (⟨hmode', -⟩ | ⟨-, h'⟩)
        · exact hmode hmode'
        · rw [h] at h'
          cases h'
      · unfold process
        cases hother : o.mode with
        | tokens => exact absurd hother hmode
        | print => simp only [h]
        | check => simp only [h]

theorem processIn_of_error {o : Options} {tree : FileTree} {e : FileError}
    (h : tree.read o.input = .error e) : o.processIn tree = ([], .error (.unreadable e)) := by
  rw [processIn, h]

theorem processIn_of_ok {o : Options} {tree : FileTree} {contents : Bytes}
    (h : tree.read o.input = .ok contents) : o.processIn tree = o.process contents := by
  rw [processIn, h]

/-- What a run comes to. -/
inductive Runs (o : Options) (t : Tracer) (tree : FileTree) : Outcome → Prop
  | unreadable {e : FileError} (hread : tree.read o.input = .error e) (he : e.isReported) :
      Runs o t tree ⟨.code 2, .ofErr (o.logFailure t .input o.input e ++ "error: " ++
        e.message o.input ++ "\n"), tree⟩
  | notPath {e : FileError} (hread : tree.read o.input = .error e) (he : ¬ e.isReported) :
      Runs o t tree ⟨.broken (.file o.input e), {}, tree⟩
  | rejected {contents : Bytes} {report : Report} (hread : tree.read o.input = .ok contents)
      (h : o.Rejects contents report) :
      Runs o t tree ⟨.code 1, .ofErr (o.complaint report (Source.ofBytes contents).shown), tree⟩
  | printed {contents : Bytes} {notes result : Text} (hread : tree.read o.input = .ok contents)
      (h : ∀ report, ¬ o.Rejects contents report)
      (hprocess : o.process contents = (notes, .ok result)) (houtput : o.output = none) :
      Runs o t tree ⟨.code 0, ⟨result, notes⟩, tree⟩
  | stored {contents : Bytes} {notes result : Text} {path : Path} {later : FileTree}
      (hread : tree.read o.input = .ok contents) (h : ∀ report, ¬ o.Rejects contents report)
      (hprocess : o.process contents = (notes, .ok result)) (houtput : o.output = some path)
      (hwrite : tree.write path result.encode = .ok later) :
      Runs o t tree ⟨.code 0, .ofErr notes, later⟩
  | unwritable {contents : Bytes} {notes result : Text} {path : Path} {e : FileError}
      (hread : tree.read o.input = .ok contents)
      (hprocess : o.process contents = (notes, .ok result)) (houtput : o.output = some path)
      (hwrite : tree.write path result.encode = .error e) :
      Runs o t tree ⟨.broken (.file path e), .ofErr notes, tree⟩

theorem runs_run (o : Options) (t : Tracer) (tree : FileTree) : o.Runs t tree (o.run t tree) := by
  cases hread : tree.read o.input with
  | error e =>
    rw [run, processIn_of_error hread]
    by_cases he : e.isReported
    · simp only [if_pos he, List.nil_append]
      exact .unreadable hread he
    · simp only [if_neg he]
      exact .notPath hread he
  | ok contents =>
    rcases o.process_cases contents with ⟨report, h, hprocess⟩ | ⟨notes, result, h, hprocess⟩
    · rw [run, processIn_of_ok hread, hprocess]
      dsimp only
      rw [List.nil_append]
      exact .rejected hread h
    · rw [run, processIn_of_ok hread, hprocess]
      dsimp only
      unfold deliver
      cases houtput : o.output with
      | none =>
        dsimp only
        rw [Streams.ofErr_append_out]
        exact .printed hread h hprocess houtput
      | some path =>
        dsimp only
        cases hwrite : tree.write path result.encode with
        | error e => exact .unwritable hread hprocess houtput hwrite
        | ok later =>
          dsimp only
          rw [Streams.append_empty]
          exact .stored hread h hprocess houtput hwrite

/-- Without an output file, the same result is printed. -/
theorem run_without_output (o : Options) (t : Tracer) {tree : FileTree} {contents : Bytes}
    {notes result : Text} (hread : tree.read o.input = .ok contents)
    (hprocess : o.process contents = (notes, .ok result)) :
    ({ o with output := none } : Options).run t tree = ⟨.code 0, ⟨result, notes⟩, tree⟩ := by
  have hin : ({ o with output := none } : Options).processIn tree = (notes, .ok result) :=
    (processIn_of_ok hread).trans hprocess
  rw [run, hin]
  show Outcome.mk (.code 0) (.ofErr notes ++ { out := result }) tree = _
  rw [Streams.ofErr_append_out]

namespace Runs

variable {o : Options} {t : Tracer} {tree : FileTree} {outcome : Outcome} {code : ℕ}

theorem code_le (h : o.Runs t tree outcome) (hexit : outcome.exit = .code code) : code ≤ 2 := by
  cases h with
  | notPath => cases hexit
  | unwritable => cases hexit
  | _ =>
    cases hexit
    decide

theorem code_eq_one_iff (h : o.Runs t tree outcome) (hexit : outcome.exit = .code code) :
    code = 1 ↔ ∃ contents report, tree.read o.input = .ok contents ∧ o.Rejects contents report := by
  have hno {contents : Bytes} (hread : tree.read o.input = .ok contents)
      (haccepts : ∀ report, ¬ o.Rejects contents report) :
      ¬ ∃ contents report, tree.read o.input = .ok contents ∧ o.Rejects contents report := by
    rintro ⟨others, report, hothers, hrejects⟩
    rw [hread] at hothers
    cases hothers
    exact haccepts report hrejects
  cases h with
  | unreadable hread =>
    cases hexit
    simp [hread]
  | rejected hread hrejects =>
    cases hexit
    exact iff_of_true rfl ⟨_, _, hread, hrejects⟩
  | printed hread haccepts =>
    cases hexit
    exact iff_of_false (by decide) (hno hread haccepts)
  | stored hread haccepts =>
    cases hexit
    exact iff_of_false (by decide) (hno hread haccepts)
  | notPath => cases hexit
  | unwritable => cases hexit

theorem code_eq_two_iff (h : o.Runs t tree outcome) (hexit : outcome.exit = .code code) :
    code = 2 ↔ ∃ e, tree.read o.input = .error e := by
  cases h with
  | unreadable hread =>
    cases hexit
    exact iff_of_true rfl ⟨_, hread⟩
  | rejected hread =>
    cases hexit
    simp [hread]
  | printed hread =>
    cases hexit
    simp [hread]
  | stored hread =>
    cases hexit
    simp [hread]
  | notPath => cases hexit
  | unwritable => cases hexit

theorem unchanged (h : o.Runs t tree outcome) (hexit : outcome.exit = .code code)
    (hcode : code ≠ 0) : outcome.streams.out = [] ∧ outcome.tree = tree := by
  cases h with
  | printed =>
    cases hexit
    exact absurd rfl hcode
  | stored =>
    cases hexit
    exact absurd rfl hcode
  | _ => exact ⟨rfl, rfl⟩

theorem tree_eq_of_output_none (h : o.Runs t tree outcome) (houtput : o.output = none) :
    outcome.tree = tree := by
  cases h with
  | stored _ _ _ hpath =>
    rw [houtput] at hpath
    cases hpath
  | _ => rfl

theorem exists_write (h : o.Runs t tree outcome) (hexit : outcome.exit = .code 0) {path : Path}
    (houtput : o.output = some path) :
    (({ o with output := none } : Options).run t tree).exit = .code 0 ∧
      tree.write path (({ o with output := none } : Options).run t tree).streams.out.encode =
        .ok outcome.tree := by
  cases h with
  | printed _ _ _ hnone =>
    rw [houtput] at hnone
    cases hnone
  | stored hread _ hprocess hpath hwrite =>
    rw [houtput] at hpath
    cases hpath
    rw [o.run_without_output t hread hprocess]
    exact ⟨rfl, hwrite⟩
  | unreadable => cases hexit
  | notPath => cases hexit
  | rejected => cases hexit
  | unwritable => cases hexit

end Runs
end Options

namespace Session

variable {t : Tracer} {tree : FileTree} {input : Text} {a : Arguments}

theorem run_eq_ofArguments {words : List Text}
    (h : Arguments.ofCommandLine words = .ok (input, a)) (t : Tracer) (tree : FileTree)
    (changes : List Change) : run t tree words changes = ofArguments t input a tree changes := by
  rw [run, h]

/-- A session that returns a code has read its command line as arguments. -/
theorem exists_arguments_of_exit {words : List Text} {changes : List Change} {code : ℕ}
    (h : (run t tree words changes).outcome.exit = .code code) :
    ∃ input a, Arguments.ofCommandLine words = .ok (input, a) := by
  unfold run at h
  split at h
  · cases h
  · cases h
  next input a hwords => exact ⟨input, a, hwords⟩

theorem configNote_eq_nil (h : a.verbose = false) (t : Tracer) (tree : FileTree) (input : Text) :
    configNote t tree input a = [] := by
  unfold configNote
  simp only [h, Bool.false_eq_true, if_false]
  split
  · exact ite_self []
  · rfl
  · split <;> rfl

theorem ofArguments_of_error {e : OptionsError} (h : Options.resolve tree input a = .error e)
    (t : Tracer) (changes : List Change) :
    ofArguments t input a tree changes = { outcome := { refused tree e with
      streams := .ofErr (configNote t tree input a) ++ (refused tree e).streams } } := by
  rw [ofArguments, h]
  rfl

theorem ofArguments_of_ok {o : Options} (h : Options.resolve tree input a = .ok o)
    (hwatch : a.watch = false) (t : Tracer) (changes : List Change) :
    ofArguments t input a tree changes = { outcome := { o.run t tree with
      streams := .ofErr (configNote t tree input a) ++ (o.run t tree).streams } } := by
  obtain ⟨-, -, hsame, -⟩ := Options.fields_of_resolve h
  rw [ofArguments, h]
  dsimp only
  rw [ofOptions, hsame, hwatch]
  rfl

/-- How a session without a watch stands with the files when it returns a code. -/
structure Settles (t : Tracer) (tree : FileTree) (input : Text) (a : Arguments) (session : Session)
    (code : ℕ) : Prop where
  polls : session.polls = []
  code_le : code ≤ 2
  rejected : code = 1 ↔ ∃ o contents report, Options.resolve tree input a = .ok o ∧
    tree.read o.input = .ok contents ∧ o.Rejects contents report
  unreadable : code = 2 ↔ (∃ e, Options.resolve tree input a = .error e) ∨
    ∃ o e, Options.resolve tree input a = .ok o ∧ tree.read o.input = .error e
  failed : code ≠ 0 → session.outcome.streams.out = [] ∧ session.outcome.tree = tree
  printed : ∀ o, code = 0 → Options.resolve tree input a = .ok o → o.output = none →
    session.outcome.tree = tree
  /-- The output file holds what would be printed without it, and all else is as it was. -/
  stored : ∀ o path, code = 0 → Options.resolve tree input a = .ok o → o.output = some path →
    (ofArguments t input { a with output := none } tree []).outcome.exit = .code 0 ∧
    session.outcome.tree.read path =
      .ok (ofArguments t input { a with output := none } tree []).outcome.streams.out.encode ∧
    ∀ other node, tree.locate other ≠ tree.locate path →
      (session.outcome.tree.find? other = .ok node ↔ tree.find? other = .ok node)

theorem settles_of_error {e : OptionsError} {code : ℕ}
    (h : Options.resolve tree input a = .error e)
    (hexit : (ofArguments t input a tree []).outcome.exit = .code code) :
    Settles t tree input a (ofArguments t input a tree []) code := by
  have hok : ∀ o, Options.resolve tree input a ≠ .ok o := by simp [h]
  rw [ofArguments_of_error h] at hexit ⊢
  obtain rfl : 2 = code := by
    unfold refused at hexit
    split at hexit
    · exact Exit.code.inj hexit
    · cases hexit
  have hkept : (refused tree e).streams.out = [] ∧ (refused tree e).tree = tree := by
    unfold refused
    split <;> exact ⟨rfl, rfl⟩
  refine ⟨rfl, le_rfl, ?_, iff_of_true rfl (.inl ⟨e, h⟩), fun _ => hkept, ?_, ?_⟩
  · refine iff_of_false (by decide) ?_
    rintro ⟨o, -, -, ho, -⟩
    exact hok o ho
  · intro o hzero
    cases hzero
  · intro o path hzero
    cases hzero

theorem settles_of_ok {o : Options} {code : ℕ} (h : Options.resolve tree input a = .ok o)
    (hwatch : a.watch = false) (hexit : (ofArguments t input a tree []).outcome.exit = .code code) :
    Settles t tree input a (ofArguments t input a tree []) code := by
  have hruns := o.runs_run t tree
  have hplain := ofArguments_of_ok (Options.resolve_of_loadTable_eq h rfl).1 hwatch t []
  rw [ofArguments_of_ok h hwatch] at hexit ⊢
  have hexit : (o.run t tree).exit = .code code := hexit
  refine ⟨rfl, hruns.code_le hexit, ?_, ?_, ?_, ?_, ?_⟩
  · rw [hruns.code_eq_one_iff hexit]
    simp [h]
  · rw [hruns.code_eq_two_iff hexit]
    simp [h]
  · exact hruns.unchanged hexit
  · intro p _ hp houtput
    obtain rfl : o = p := Except.ok.inj (h.symm.trans hp)
    exact hruns.tree_eq_of_output_none houtput
  · rintro p path rfl hp houtput
    obtain rfl : o = p := Except.ok.inj (h.symm.trans hp)
    obtain ⟨hzero, hwrite⟩ := hruns.exists_write hexit houtput
    rw [hplain]
    refine ⟨hzero, FileTree.read_of_write hwrite, ?_⟩
    intro other node hother
    exact FileTree.find?_of_write hwrite hother

/-- A session without a watch that returns a code returns 1 where the input is rejected and 2 where
it, or the options, cannot be had, and then it has printed nothing and left the files alone. Else
it changes no file but its output, and that holds what would be printed without it. -/
theorem run_settles (t : Tracer) (tree : FileTree) {words : List Text} {code : ℕ}
    (hwatch : ∀ input a, Arguments.ofCommandLine words = .ok (input, a) → a.watch = false)
    (hexit : (run t tree words []).outcome.exit = .code code) :
    ∃ input a, Arguments.ofCommandLine words = .ok (input, a) ∧
      Settles t tree input a (run t tree words []) code := by
  obtain ⟨input, a, hwords⟩ := exists_arguments_of_exit hexit
  rw [run_eq_ofArguments hwords] at hexit ⊢
  refine ⟨input, a, hwords, ?_⟩
  cases h : Options.resolve tree input a with
  | error e => exact settles_of_error h hexit
  | ok o => exact settles_of_ok h (hwatch input a hwords) hexit

/-- The output file is the input itself. -/
theorem run_settles_onto_input :
    let tree : FileTree := { entries := [(.ofText "a.sexp", .file (Text.encode "( a\n  b )") 7)] }
    let a : Arguments := { input := some "a.sexp", output := some "a.sexp" }
    let session := run {} tree ["a.sexp", "-o", "a.sexp"] []
    Settles {} tree "a.sexp" a session 0 ∧
      session.outcome.tree.read (.ofText "a.sexp") = .ok (Text.encode "(a b)\n") := by
  intro tree a session
  have hwords : Arguments.ofCommandLine ["a.sexp", "-o", "a.sexp"] = .ok ("a.sexp", a) := by
    decide +kernel
  have hresolve : Options.resolve tree "a.sexp" a = .ok {
      input := .ofText "a.sexp", output := some (.ofText "a.sexp"), features := {}, limit := none
      mode := .print, watch := false, debug := false, verbose := false } := by
    decide +kernel
  have hplain : (ofArguments {} "a.sexp" { a with output := none } tree []).outcome.streams.out =
      "(a b)\n" := by
    decide +kernel
  have hwatch : ∀ input b, Arguments.ofCommandLine ["a.sexp", "-o", "a.sexp"] = .ok (input, b) →
      b.watch = false := by
    intro input b h
    rw [hwords] at h
    cases h
    rfl
  have hexit : session.outcome.exit = .code 0 := by decide +kernel
  obtain ⟨input, b, h, hsettles⟩ := run_settles {} tree hwatch hexit
  rw [hwords] at h
  cases h
  refine ⟨hsettles, ?_⟩
  obtain ⟨-, hread, -⟩ := hsettles.stored _ _ rfl hresolve rfl
  rwa [hplain] at hread

end Session
end SExpression
