import SExpression.Program

/-! The program on real files: it looks at those that the arguments name, and carries out what the
run has come to. -/
namespace SExpression.Main

def toByteArray (bytes : Bytes) : ByteArray :=
  ⟨bytes.toArray⟩

def fileName (path : Path) : String :=
  String.ofList (path.text.map fun c => Char.ofNat c.value)

def realName (place : Location) : String :=
  "/" ++ "/".intercalate (place.names.map fun name =>
    String.ofList ((Utf8.decodeLossy name).map fun c => Char.ofNat c.value))

/-- The time as a program is told it: a number of seconds, rounded to a double. -/
def timeOf (facts : IO.FS.Metadata) : Int :=
  (Float.ofInt facts.modified.sec + 1e-9 * facts.modified.nsec.toNat.toFloat).toBits.toNat

/-- The contents of a file that may be read. -/
def contents? (place : Location) : IO (Option Bytes) := do
  try
    return some (← IO.FS.readBinFile (realName place)).toList
  catch _ => return none

def lookAt (place : Location) : IO (Option FileNode) := do
  try
    let real ← IO.FS.realPath (realName place)
    let facts ← real.metadata
    match facts.type with
    | .dir => return some (.directory (timeOf facts))
    | _ =>
      match ← contents? place with
      | some contents => return some (.file contents (timeOf facts))
      | none => return some (.file [] (timeOf facts) .nothing)
  catch _ => return none

/-- Adds what stands at a path and on the way to it. -/
def observe (tree : FileTree) (path : Path) : IO FileTree := do
  let mut tree := tree
  let mut place := tree.start path
  for part in path.parts do
    place := place.enter part
    if let some node ← lookAt place then tree := tree.put place node
  return tree

/-- What is written now gets a time that no observed file has. -/
def observeAll (paths : List Path) : IO FileTree := do
  let here := (← IO.currentDir).toString
  paths.foldlM observe { now := -1, here := .ofText here }

def emit (streams : Streams) : IO Unit := do
  let out ← IO.getStdout
  let err ← IO.getStderr
  out.write (toByteArray streams.out.encode)
  out.flush
  err.write (toByteArray streams.err.encode)
  err.flush

/-- Writes the output file if the run has. -/
def store (tree : FileTree) (output : Option Path) : IO Unit := do
  if let some path := output then
    if let .ok (.file contents modified) := tree.find? path then
      if modified = tree.now then IO.FS.writeBinFile (fileName path) (toByteArray contents)

def finish (outcome : Outcome) : IO UInt32 := do
  emit outcome.streams
  match outcome.exit with
  | .code n | .stopped n => return n.toUInt32
  | .broken cause =>
    emit (.ofErr (cause.message ++ "\n"))
    return 1

partial def watch (o : Options) (seen : Int) : IO UInt32 := do
  let tree ← observeAll (o.input :: o.output.toList)
  match Watch.poll o {} ⟨tree, seen⟩ with
  | .error outcome => finish outcome
  | .ok (streams, w) =>
    store w.tree o.output
    emit streams
    IO.sleep 500
    watch o w.seen

def ofArguments (words : List Text) (input : Text) (a : Arguments) : IO UInt32 := do
  let output := (a.output.filter (· ≠ [])).map Path.ofText
  let tree ← observeAll (Options.configPath input a :: Path.ofText input :: output.toList)
  match Options.resolve tree input a with
  | .ok o =>
    if o.watch then
      emit (.ofErr (Session.configNote {} tree input a) ++ Watch.greeting o)
      watch o 0
    else
      let session := Session.run {} tree words []
      store session.outcome.tree output
      finish session.outcome
  | .error _ => finish (Session.run {} tree words []).outcome

end SExpression.Main

open SExpression in
def main (args : List String) : IO UInt32 := do
  let words := args.map Text.ofString
  match Arguments.ofCommandLine words with
  | .ok (input, a) => Main.ofArguments words input a
  | .error _ => Main.finish (Session.run {} {} words []).outcome
