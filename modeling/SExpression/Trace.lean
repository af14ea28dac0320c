import SExpression.Files.Tree
import SExpression.Text.Numeral

/-! What a log tells of an access to the files that has failed: the calls that were in progress,
then the error. -/
namespace SExpression

structure Call where
  file : Text
  line : Nat
  routine : Text
  /-- The line of code, parted around what was being evaluated. -/
  before : Text := []
  part : Text
  after : Text := []
deriving DecidableEq

namespace Call

/-- The part is marked unless it is the whole line. -/
def marks (c : Call) : Text :=
  if c.before = [] ∧ c.after = [] then []
  else
    "    " ++ List.replicate c.before.length (CodePoint.ofChar ' ') ++
      List.replicate c.part.length (CodePoint.ofChar '^') ++ "\n"

def text (c : Call) : Text :=
  "  File \"" ++ c.file ++ "\", line " ++ Text.ofNat c.line ++ ", in " ++ c.routine ++ "\n    " ++
    c.before ++ c.part ++ c.after ++ "\n" ++ c.marks

end Call

/-- An access after whose failure the program goes on. -/
inductive Access where
  | configLookup
  | config
  | input
  | watchedInput
  | watchedOutput
deriving DecidableEq

/-- How the log of a program names errors and calls. -/
structure Tracer where
  kind : FileError → Text := fun _ => "OSError"
  /-- The outermost call comes first. -/
  calls : Access → List Call := fun _ => []

def Tracer.text (t : Tracer) (access : Access) (path : Path) (e : FileError) : Text :=
  "Traceback (most recent call last):\n" ++ (t.calls access).flatMap Call.text ++ t.kind e ++
    ": " ++ e.message path

end SExpression
