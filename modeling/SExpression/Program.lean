import SExpression.Watch

/-! The program: from a command line and the files it finds to all that it writes. -/
namespace SExpression

structure Session where
  /-- What each look of a watch wrote. -/
  polls : List Streams := []
  /-- What was written after that, or altogether where nothing is watched. -/
  outcome : Outcome
deriving DecidableEq

namespace Session

def configNote (t : Tracer) (tree : FileTree) (input : Text) (a : Arguments) : Text :=
  let path := Options.configPath input a
  let note (line : Text) : Text := if a.verbose then "DEBUG sexpr.cli: " ++ line ++ "\n" else []
  let absence := note ("no config file at " ++ path.text)
  let failure (access : Access) (e : FileError) :=
    note ("cannot read config\n" ++ t.text access path e)
  match tree.find? path with
  | .error e => if e.isAbsence then absence else failure .configLookup e
  | .ok (.directory ..) => absence
  | .ok (.file ..) =>
    note ("loading config from " ++ path.text) ++
      match tree.read path with
      | .error e => failure .config e
      | .ok _ => []

/-- Writes before anything else. -/
def precede (streams : Streams) (session : Session) : Session :=
  match session.polls with
  | [] => { session with
      outcome := { session.outcome with streams := streams ++ session.outcome.streams } }
  | first :: later => { session with polls := (streams ++ first) :: later }

def ofOptions (o : Options) (t : Tracer) (tree : FileTree) (changes : List Change) : Session :=
  if o.watch then
    let (polls, outcome) := Watch.polls o t { tree } changes
    precede (Watch.greeting o) { polls, outcome }
  else { outcome := o.run t tree }

/-- The end of a program whose options do not resolve. -/
def refused (tree : FileTree) (e : OptionsError) : Outcome :=
  if e.isReported then ⟨.code 2, .ofErr ("error: " ++ e.message ++ "\n"), tree⟩
  else ⟨.broken (.options e), {}, tree⟩

def ofArguments (t : Tracer) (input : Text) (a : Arguments) (tree : FileTree)
    (changes : List Change) : Session :=
  precede (.ofErr (configNote t tree input a)) <|
    match Options.resolve tree input a with
    | .error e => { outcome := refused tree e }
    | .ok o => ofOptions o t tree changes

/-- `changes` is what happens to the files while they are watched; after the last the watch is
interrupted. -/
def run (t : Tracer) (tree : FileTree) (words : List Text) (changes : List Change) : Session :=
  match Arguments.ofCommandLine words with
  | .error .help => { outcome := ⟨.stopped 0, { out := Usage.help }, tree⟩ }
  | .error (.misuse e) => { outcome := ⟨.stopped 2, .ofErr (Usage.refusal e), tree⟩ }
  | .ok (input, a) => ofArguments t input a tree changes

end Session
end SExpression
