import SExpression.Proofs.Runs

/-! A watch is repeated runs: each look at a changed input writes what a run on the files of that
time would write, and no error ends the watch or has a part in what later looks do. But where the
input cannot be the path of a file, the first look breaks the watch off. -/
namespace SExpression

namespace Watch

/-- The files after the first changes. -/
def filesAt (tree : FileTree) (changes : List Change) (n : ℕ) : FileTree :=
  (changes.take n).foldl Change.apply tree

/-- The time of the input that is known after a look at the files. -/
def note (input : Path) (seen : ℤ) (files : FileTree) : ℤ :=
  match files.find? input with
  | .ok node => node.modified
  | .error _ => seen

/-- The time of the input at the last of the first looks that found it. -/
def seenAt (input : Path) (seen : ℤ) (tree : FileTree) (changes : List Change) : ℕ → ℤ
  | 0 => seen
  | n + 1 => note input (seenAt input seen tree changes n) (filesAt tree changes n)

/-- The input is there, and with another time than before. -/
def IsDue (input : Path) (seen : ℤ) (files : FileTree) : Prop :=
  ∃ node, files.find? input = .ok node ∧ node.modified ≠ seen

def success (o : Options) : Streams :=
  .ofErr ("Processed " ++ o.input.text ++ "\n")

/-- What a run writes, and a line where it succeeds. -/
def told (o : Options) (outcome : Outcome) : Streams :=
  outcome.streams ++ if outcome.exit = .code 0 then success o else {}

theorem told_of_success {o : Options} {outcome : Outcome} (h : outcome.exit = .code 0) :
    told o outcome = outcome.streams ++ success o := by
  rw [told, if_pos h]

theorem told_of_failure {o : Options} {outcome : Outcome} (h : outcome.exit ≠ .code 0) :
    told o outcome = outcome.streams := by
  rw [told, if_neg h, Streams.append_empty]

theorem filesAt_cons (tree : FileTree) (change : Change) (changes : List Change) (n : ℕ) :
    filesAt tree (change :: changes) (n + 1) = filesAt (change.apply tree) changes n := rfl

theorem seenAt_cons (input : Path) (seen : ℤ) (tree : FileTree) (change : Change)
    (changes : List Change) (n : ℕ) :
    seenAt input seen tree (change :: changes) (n + 1) =
      seenAt input (note input seen tree) (change.apply tree) changes n := by
  induction n with
  | zero => rfl
  | succ n ih => rw [seenAt, ih, filesAt_cons, seenAt]

section Looks

variable {o : Options} (t : Tracer) (files : FileTree)

theorem visit_eq (houtput : o.output = none) (hverbose : o.verbose = false)
    (hname : o.input.text.IsNameable) :
    visit o t files = .ok (told o (o.run t files), files) := by
  have hquiet (access : Access) (path : Path) (e : FileError) :
      o.logFailure t access path e = [] := by
    rw [Options.logFailure, Options.log, hverbose]
    rfl
  cases hread : files.read o.input with
  | error e =>
    have he := FileTree.isReported_of_read hname hread
    rw [visit, Options.run, Options.processIn_of_error hread]
    simp only [report, if_pos he, hquiet, List.nil_append]
    rw [told_of_failure (by simp)]
  | ok contents =>
    rcases o.process_cases contents with ⟨rejected, -, hprocess⟩ | ⟨notes, result, -, hprocess⟩
    · rw [visit, Options.run, Options.processIn_of_ok hread, hprocess]
      dsimp only
      rw [told_of_failure (by simp)]
    · have hdeliver : o.deliver files result = .ok ({ out := result }, files) := by
        rw [Options.deliver, houtput]
      rw [visit, Options.run, Options.processIn_of_ok hread, hprocess]
      dsimp only
      rw [hdeliver]
      dsimp only
      rw [told_of_success rfl]
      rfl

/-- What a look writes when the input was last seen with that time. -/
def written (o : Options) (t : Tracer) (seen : ℤ) (files : FileTree) : Streams :=
  match files.find? o.input with
  | .ok node => if node.modified = seen then {} else told o (o.run t files)
  | .error _ => {}

theorem written_of_isDue {seen : ℤ} (h : IsDue o.input seen files) :
    written o t seen files = told o (o.run t files) := by
  obtain ⟨node, hnode, hmodified⟩ := h
  rw [written, hnode]
  exact if_neg hmodified

theorem written_of_not_isDue {seen : ℤ} (h : ¬ IsDue o.input seen files) :
    written o t seen files = {} := by
  unfold written
  cases hnode : files.find? o.input with
  | error e => rfl
  | ok node =>
    have hmodified : node.modified = seen := by
      by_contra hne
      exact h ⟨node, hnode, hne⟩
    exact if_pos hmodified

/-- A look leaves the files as they are, and the watch goes on. -/
theorem poll_eq (houtput : o.output = none) (hverbose : o.verbose = false)
    (hname : o.input.text.IsNameable) (seen : ℤ) :
    poll o t ⟨files, seen⟩ = .ok (written o t seen files, ⟨files, note o.input seen files⟩) := by
  rw [poll, written, note]
  dsimp only
  cases hfind : files.find? o.input with
  | error e =>
    exact if_pos (FileTree.isReported_of_find? hname hfind)
  | ok node =>
    dsimp only
    by_cases hmodified : node.modified = seen
    · rw [if_pos hmodified, if_pos hmodified, hmodified]
    · rw [if_neg hmodified, if_neg hmodified, visit_eq t files houtput hverbose hname]

/-- One look after another, up to the one after the last change, when the watch is interrupted. -/
theorem polls_eq (houtput : o.output = none) (hverbose : o.verbose = false)
    (hname : o.input.text.IsNameable) (seen : ℤ) (changes : List Change) :
    (polls o t ⟨files, seen⟩ changes).2 =
        ⟨.code 0, {}, filesAt files changes changes.length⟩ ∧
      (polls o t ⟨files, seen⟩ changes).1.length = changes.length + 1 ∧
      ∀ n ≤ changes.length, (polls o t ⟨files, seen⟩ changes).1[n]? =
        some (written o t (seenAt o.input seen files changes n) (filesAt files changes n)) := by
  have hpoll := poll_eq t files houtput hverbose hname seen
  induction changes generalizing files seen with
  | nil =>
    rw [polls, hpoll]
    refine ⟨rfl, rfl, ?_⟩
    intro n hn
    obtain rfl : n = 0 := Nat.le_zero.mp hn
    rfl
  | cons change changes ih =>
    obtain ⟨houtcome, hlength, hlooks⟩ := ih (change.apply files) (note o.input seen files)
      (poll_eq t (change.apply files) houtput hverbose hname _)
    rw [polls, hpoll]
    dsimp only
    refine ⟨?_, ?_, ?_⟩
    · rw [houtcome, List.length_cons, filesAt_cons]
    · rw [List.length_cons, hlength, List.length_cons]
    · intro n hn
      cases n with
      | zero => rfl
      | succ n =>
        rw [List.getElem?_cons_succ, seenAt_cons, filesAt_cons]
        exact hlooks n (Nat.le_of_succ_le_succ hn)

/-- What cannot be the path of a file ends the watch at the first look, whatever the files are. -/
theorem polls_of_not_isNameable (h : ¬ o.input.text.IsNameable) (seen : ℤ)
    (changes : List Change) :
    ∃ e : FileError, e.isReported = false ∧
      polls o t ⟨files, seen⟩ changes = ([], ⟨.broken (.file o.input e), {}, files⟩) := by
  obtain ⟨e, hfind, he⟩ := (files.exists_find?_unreported_iff o.input).mpr h
  have hpoll : poll o t ⟨files, seen⟩ = .error ⟨.broken (.file o.input e), {}, files⟩ := by
    rw [poll, hfind]
    dsimp only
    rw [he]
    rfl
  refine ⟨e, he, ?_⟩
  cases changes <;> rw [polls, hpoll]

end Looks
end Watch

namespace Session

theorem precede_empty (session : Session) : precede {} session = session := by
  obtain ⟨polls, outcome⟩ := session
  cases polls <;> rfl

/-- What comes first goes to the first look. -/
theorem precede_of_polls (streams : Streams) {s : Session} (h : s.polls ≠ []) :
    (precede streams s).outcome = s.outcome ∧
      (precede streams s).polls.length = s.polls.length := by
  obtain ⟨polls, outcome⟩ := s
  cases polls with
  | nil => exact absurd rfl h
  | cons => exact ⟨rfl, rfl⟩

theorem getElem?_polls_precede (streams : Streams) {s : Session} {n : ℕ} {written : Streams}
    (h : s.polls[n]? = some written) :
    (precede streams s).polls[n]? = some ((if n = 0 then streams else {}) ++ written) := by
  obtain ⟨polls, outcome⟩ := s
  cases polls with
  | nil => cases h
  | cons first later =>
    cases n with
    | zero =>
      cases h
      rfl
    | succ n => exact h

/-- The outcome of the one-shot run on those files. -/
def once (t : Tracer) (input : Text) (a : Arguments) (files : FileTree) : Outcome :=
  (ofArguments t input { a with watch := false } files []).outcome

theorem once_eq {t : Tracer} {tree files : FileTree} {input : Text} {a : Arguments} {o : Options}
    (h : Options.resolve tree input a = .ok o) (hverbose : a.verbose = false)
    (htable : Options.loadTable files (Options.configPath input a) =
      Options.loadTable tree (Options.configPath input a)) :
    once t input a files = o.run t files := by
  have hquiet : ({ a with watch := false } : Arguments).verbose = false := hverbose
  rw [once, ofArguments_of_ok (Options.resolve_of_loadTable_eq h htable).2 rfl,
    configNote_eq_nil hquiet]
  rfl

section Watches

variable {tree : FileTree} {words : List Text} {input : Text} {a : Arguments} {o : Options}

theorem run_of_watch (hwords : Arguments.ofCommandLine words = .ok (input, a)) (hwatch : a.watch)
    (hverbose : a.verbose = false) (hresolve : Options.resolve tree input a = .ok o) (t : Tracer)
    (changes : List Change) :
    run t tree words changes = precede (Watch.greeting o)
      { polls := (Watch.polls o t { tree } changes).1
        outcome := (Watch.polls o t { tree } changes).2 } := by
  obtain ⟨-, -, hsame, -⟩ := Options.fields_of_resolve hresolve
  have hwatches : o.watch := hsame.trans hwatch
  rw [run_eq_ofArguments hwords, ofArguments, hresolve, configNote_eq_nil hverbose]
  dsimp only
  rw [ofOptions, if_pos hwatches]
  exact precede_empty _

/-- Whatever happens to the files but for the configuration, a quiet watch without an output file
writes at each look what a run on the files of that time writes, with a line behind it where the run
succeeds, if the input has another time than it had before, and else nothing. It goes on to the end,
and leaves the files alone. But an input with characters that no path of a file has breaks it off at
the first look, with an error that is not reported. -/
theorem watch_repeats_runs (t : Tracer) {changes : List Change}
    (hwords : Arguments.ofCommandLine words = .ok (input, a)) (hwatch : a.watch)
    (houtput : a.output = none) (hverbose : a.verbose = false)
    (hresolve : Options.resolve tree input a = .ok o)
    (hconfig : ∀ n ≤ changes.length,
      Options.loadTable (Watch.filesAt tree changes n) (Options.configPath input a) =
        Options.loadTable tree (Options.configPath input a)) :
    let session := run t tree words changes
    (input.IsNameable →
      session.outcome = ⟨.code 0, {}, Watch.filesAt tree changes changes.length⟩ ∧
      session.polls.length = changes.length + 1 ∧
      ∀ n ≤ changes.length,
        let files := Watch.filesAt tree changes n
        let isDue := Watch.IsDue o.input (Watch.seenAt o.input 0 tree changes n) files
        let start := if n = 0 then Watch.greeting o else {}
        (isDue → session.polls[n]? = some (start ++ Watch.told o (once t input a files))) ∧
          (¬ isDue → session.polls[n]? = some start)) ∧
    (¬ input.IsNameable →
      session.polls = [] ∧ ∃ e : FileError, e.isReported = false ∧
        session.outcome = ⟨.broken (.file o.input e), Watch.greeting o, tree⟩) := by
  intro session
  obtain ⟨hinput, ho, -, hsame, -⟩ := Options.fields_of_resolve hresolve
  have hnone : o.output = none := by rw [ho, houtput, Option.bind_none]
  have hquiet : o.verbose = false := hsame.trans hverbose
  have hnames : o.input.text.IsNameable ↔ input.IsNameable := by
    rw [hinput]
    exact Path.isNameable_text_iff input
  have hsession : session = precede (Watch.greeting o) _ :=
    run_of_watch hwords hwatch hverbose hresolve t changes
  rw [hsession]
  constructor
  · intro hname
    obtain ⟨houtcome, hlength, hlooks⟩ :=
      Watch.polls_eq t tree hnone hquiet (hnames.mpr hname) 0 changes
    generalize Watch.polls o t { tree } changes = watched at houtcome hlength hlooks ⊢
    obtain ⟨polls, outcome⟩ := watched
    have hne : polls ≠ [] := by
      apply List.ne_nil_of_length_pos
      rw [hlength]
      exact Nat.succ_pos _
    obtain ⟨hend, hsamelength⟩ := precede_of_polls (Watch.greeting o) (s := ⟨polls, outcome⟩) hne
    refine ⟨hend.trans houtcome, hsamelength.trans hlength, ?_⟩
    intro n hn files isDue start
    have hlook := getElem?_polls_precede (Watch.greeting o) (s := ⟨polls, outcome⟩) (hlooks n hn)
    rw [hlook, once_eq hresolve hverbose (hconfig n hn)]
    constructor
    · intro hdue
      rw [Watch.written_of_isDue t files hdue]
    · intro hdue
      rw [Watch.written_of_not_isDue t files hdue, Streams.append_empty]
  · intro hname
    obtain ⟨e, he, hpolls⟩ := Watch.polls_of_not_isNameable t tree (mt hnames.mp hname) 0 changes
    rw [hpolls]
    refine ⟨rfl, e, he, ?_⟩
    show Outcome.mk _ (Watch.greeting o ++ {}) tree = _
    rw [Streams.append_empty]

end Watches

/-- The input is broken, then gone, then there but not to be read, and then put right. -/
theorem watch_repeats_runs_after_errors :
    let tree : FileTree := { entries := [(.ofText "a.sexp", .file (Text.encode "( a") 1)] }
    let changes : List Change := [.remove (.ofText "a.sexp"),
      .write (.ofText "a.sexp") (Text.encode "( a )") 2 .nothing,
      .write (.ofText "a.sexp") (Text.encode "( a )") 3]
    let session := run {} tree ["a.sexp", "--watch"] changes
    session.outcome.exit = .code 0 ∧ session.polls[1]? = some ({} : Streams) ∧
      session.polls[2]? = some ⟨[], "error: [Errno 13] Permission denied: 'a.sexp'\n"⟩ ∧
      session.polls[3]? = some ⟨"(a)\n", "Processed a.sexp\n"⟩ := by
  intro tree changes session
  let a : Arguments := { input := some "a.sexp", watch := true }
  have hwords : Arguments.ofCommandLine ["a.sexp", "--watch"] = .ok ("a.sexp", a) := by
    decide +kernel
  have hresolve : Options.resolve tree "a.sexp" a = .ok {
      input := .ofText "a.sexp", output := none, features := {}, limit := none, mode := .print
      watch := true, debug := false, verbose := false } := by
    decide +kernel
  have hmissing : ∀ n ≤ changes.length, (Watch.filesAt tree changes n).find?
      (Options.configPath "a.sexp" a) = .error .missing := by
    decide +kernel
  have hconfig : ∀ n ≤ changes.length,
      Options.loadTable (Watch.filesAt tree changes n) (Options.configPath "a.sexp" a) =
        Options.loadTable tree (Options.configPath "a.sexp" a) := by
    intro n hn
    have hstart : tree.find? (Options.configPath "a.sexp" a) = .error .missing :=
      hmissing 0 (Nat.zero_le _)
    rw [Options.loadTable, Options.loadTable, hmissing n hn, hstart]
  obtain ⟨hend, -, hlooks⟩ :=
    (watch_repeats_runs {} hwords rfl rfl rfl hresolve hconfig).1 (by decide +kernel)
  refine ⟨congrArg Outcome.exit hend, ?_, ?_, ?_⟩
  · have hgone : (Watch.filesAt tree changes 1).find? (.ofText "a.sexp") = .error .missing := by
      decide +kernel
    apply (hlooks 1 (by decide)).2
    rintro ⟨node, hnode, -⟩
    rw [hgone] at hnode
    cases hnode
  · have hclosed : (Watch.filesAt tree changes 2).find? (.ofText "a.sexp") =
        .ok (.file (Text.encode "( a )") 2 .nothing) := by
      decide +kernel
    have hlook := (hlooks 2 (by decide)).1 ⟨_, hclosed, by decide +kernel⟩
    exact hlook.trans (by decide +kernel)
  · have hthere : (Watch.filesAt tree changes 3).find? (.ofText "a.sexp") =
        .ok (.file (Text.encode "( a )") 3) := by
      decide +kernel
    have hlook := (hlooks 3 (by decide)).1 ⟨_, hthere, by decide +kernel⟩
    exact hlook.trans (by decide +kernel)

/-- A path with a null character is none, and the first look at it breaks the watch off. -/
theorem watch_of_null_breaks_off :
    let words : List Text := ["a\x00b", "--watch"]
    let a : Arguments := { input := some "a\x00b", watch := true }
    Arguments.ofCommandLine words = .ok ("a\x00b", a) ∧ a.output = none ∧ a.verbose = false ∧
      (∃ o, Options.resolve {} "a\x00b" a = .ok o) ∧
      (run {} {} words []).polls = [] ∧ (run {} {} words []).outcome.exit =
        .broken (.file (.ofText "a\x00b") .nullByte) := by
  intro words a
  have hresolve : Options.resolve {} "a\x00b" a = .ok {
      input := .ofText "a\x00b", output := none, features := {}, limit := none, mode := .print
      watch := true, debug := false, verbose := false } := by
    decide +kernel
  exact ⟨by decide +kernel, rfl, rfl, ⟨_, hresolve⟩, by decide +kernel, by decide +kernel⟩

end Session
end SExpression
