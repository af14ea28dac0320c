import SExpression.Text.Numeral

/-! Places in a text: lines from 1, columns from 0, both counted in code points. -/
namespace SExpression

structure Position where
  line : Int := 1
  column : Int := 0
deriving DecidableEq

namespace Position

/-- The place after one more code point. Nothing but a newline ends a line. -/
def advance (p : Position) (c : CodePoint) : Position :=
  if c = '\n' then ⟨p.line + 1, 0⟩ else ⟨p.line, p.column + 1⟩

def advanceOver (p : Position) (text : Text) : Position :=
  text.foldl advance p

@[simp] theorem advanceOver_nil (p : Position) : p.advanceOver [] = p := rfl

@[simp] theorem advanceOver_cons (p : Position) (c : CodePoint) (text : Text) :
    p.advanceOver (c :: text) = (p.advance c).advanceOver text := rfl

@[simp] theorem advanceOver_append (p : Position) (a b : Text) :
    p.advanceOver (a ++ b) = (p.advanceOver a).advanceOver b := List.foldl_append

def text (p : Position) : Text :=
  Text.ofInt p.line ++ ":" ++ Text.ofInt p.column

end Position

structure Span where
  start : Position
  stop : Position
deriving DecidableEq

namespace Span

/-- From the start of `a` to the end of `b`. -/
def extend (a b : Span) : Span :=
  ⟨a.start, b.stop⟩

def onLine (line startColumn stopColumn : Int) : Span :=
  ⟨⟨line, startColumn⟩, ⟨line, stopColumn⟩⟩

def text (s : Span) : Text :=
  s.start.text ++ "-" ++ s.stop.text

end Span
end SExpression
