import SExpression.Element

/-! Elements written back as text: one space between neighbours, none inside delimiters, and a
line break after each comment that something follows. -/
namespace SExpression

/-- What the next piece has to be kept apart by. -/
inductive Gap where
  /-- Nothing: the output, a line or a group has just begun. -/
  | none
  | space
  /-- A comment has to end first. -/
  | lineBreak
deriving DecidableEq

structure Printer where
  /-- The latest first. -/
  pieces : List Text := []
  gap : Gap := .none

namespace Printer

def text (p : Printer) : Text :=
  p.pieces.reverse.flatten

def put (p : Printer) (piece : Text) (gap : Gap) : Printer :=
  ⟨piece :: p.pieces, gap⟩

@[simp] theorem text_put (p : Printer) (piece : Text) (gap : Gap) :
    (p.put piece gap).text = p.text ++ piece := by
  simp [text, put]

@[simp] theorem gap_put (p : Printer) (piece : Text) (gap : Gap) :
    (p.put piece gap).gap = gap := rfl

def separator (p : Printer) : Text :=
  match p.gap with
  | .none => []
  | .space => " "
  | .lineBreak => "\n"

def opening (p : Printer) (shape : Shape) : Printer :=
  p.put (p.separator ++ [shape.opening]) .none

/-- Only a comment is kept apart from the closing delimiter. -/
def closing (p : Printer) (shape : Shape) : Printer :=
  p.put ((if p.gap = .lineBreak then Text.ofString "\n" else []) ++ [shape.closing]) .space

def word (p : Printer) (word : Text) : Printer :=
  p.put (p.separator ++ word) .space

def comment (p : Printer) (comment : Text) : Printer :=
  p.put (p.separator ++ comment) .lineBreak

/-- Ends the line; this also ends a comment. -/
def newline (p : Printer) : Printer :=
  p.put "\n" .none

mutual

def element (p : Printer) : Element → Printer
  | .atom value _ => p.word value.spelling
  | .comment text _ => p.comment text
  | .group shape members _ => (elements (p.opening shape) members).closing shape

def elements (p : Printer) : List Element → Printer
  | [] => p
  | e :: es => elements (element p e) es

end

end Printer

namespace Element

def print (e : Element) : Text :=
  ({} : Printer).element e |>.text

/-- A document: each element starts on a line of its own. -/
def printAll : List Element → Text
  | [] => []
  | e :: es => (es.foldl (fun p e => p.newline.element e) (({} : Printer).element e)).text

end Element
end SExpression
