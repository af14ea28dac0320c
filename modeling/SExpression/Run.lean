import SExpression.Dump
import SExpression.Element.Assembly
import SExpression.Options
import SExpression.Printer
import SExpression.Snippet
import SExpression.Trace

/-! One pass over the input: what is written to the streams and to the output file. -/
namespace SExpression

structure Streams where
  out : Text := []
  err : Text := []
deriving DecidableEq

namespace Streams

def append (a b : Streams) : Streams :=
  ⟨a.out ++ b.out, a.err ++ b.err⟩

instance : Append Streams := ⟨append⟩

def ofErr (err : Text) : Streams :=
  { err }

end Streams

/-- Why an input has no result. -/
inductive Failure where
  | unreadable (error : FileError)
  /-- An error in the text that is shown with it. -/
  | rejected (report : Report) (shown : Text)
deriving DecidableEq

namespace Options

def log (o : Options) (line : Text) : Text :=
  if o.verbose then "DEBUG sexpr.cli: " ++ line ++ "\n" else []

def logFailure (o : Options) (t : Tracer) (access : Access) (path : Path) (e : FileError) : Text :=
  o.log ("cannot read input\n" ++ t.text access path e)

/-- The whole text of a document, with a newline at the end unless it is empty. -/
def document (elements : List Element) : Text :=
  if elements.isEmpty then [] else Element.printAll elements ++ "\n"

/-- What the input comes to in the selected mode, and what is noted on the way. -/
def process (o : Options) (contents : Bytes) : Text × Except Failure Text :=
  let source := Source.ofBytes contents
  match o.mode with
  | .tokens =>
    match source.tokenize o.features with
    | .error e => ([], .error (.rejected e.report source.shown))
    | .ok tokens => ([], .ok (Token.dump tokens))
  | mode =>
    match source.parse o.features o.limit with
    | .error e => ([], .error (.rejected e.report source.shown))
    | .ok elements =>
      (o.log ("parsed " ++ Text.ofNat elements.length ++ " top-level elements from " ++
          o.input.text) ++
        (if o.debug then Element.dump elements else []),
        .ok (if mode = .check then [] else document elements))

def processIn (o : Options) (tree : FileTree) : Text × Except Failure Text :=
  match tree.read o.input with
  | .error e => ([], .error (.unreadable e))
  | .ok contents => o.process contents

/-- Writes a result to the output file, or to the stream where there is none. -/
def deliver (o : Options) (tree : FileTree) (result : Text) :
    Except (Path × FileError) (Streams × FileTree) :=
  match o.output with
  | none => .ok ({ out := result }, tree)
  | some path =>
    match tree.write path result.encode with
    | .error e => .error (path, e)
    | .ok tree => .ok ({}, tree)

end Options

/-- An error that breaks the program off. -/
inductive Breakdown where
  | options (error : OptionsError)
  | file (path : Path) (error : FileError)
deriving DecidableEq

def Breakdown.message : Breakdown → Text
  | .options e => e.message
  | .file path e => e.message path

inductive Exit where
  | code (n : Nat)
  /-- The command line was not one for a run. -/
  | stopped (n : Nat)
  | broken (cause : Breakdown)
deriving DecidableEq

structure Outcome where
  exit : Exit
  streams : Streams
  tree : FileTree
deriving DecidableEq

namespace Options

/-- What is written about an input that was rejected. -/
def complaint (o : Options) (report : Report) (shown : Text) : Text :=
  report.format shown o.input.text ++ "\n"

def run (o : Options) (t : Tracer) (tree : FileTree) : Outcome :=
  match o.processIn tree with
  | (notes, .error (.rejected report shown)) =>
    ⟨.code 1, .ofErr (notes ++ o.complaint report shown), tree⟩
  | (notes, .error (.unreadable e)) =>
    if e.isReported then
      let notes := notes ++ o.logFailure t .input o.input e
      ⟨.code 2, .ofErr (notes ++ "error: " ++ e.message o.input ++ "\n"), tree⟩
    else ⟨.broken (.file o.input e), .ofErr notes, tree⟩
  | (notes, .ok result) =>
    match o.deliver tree result with
    | .error (path, e) => ⟨.broken (.file path e), .ofErr notes, tree⟩
    | .ok (streams, tree) => ⟨.code 0, .ofErr notes ++ streams, tree⟩

end Options
end SExpression
