import SExpression.Atom.Unsigned
import SExpression.Element
import SExpression.Text.Integer

/-! Walks from a list of elements down to the parts of one atom. -/
namespace SExpression

inductive Selection where
  | elements (elements : List Element)
  | element (element : Element)
  | atom (value : Atom)
  | text (text : Text)
  | truth (value : Bool)
  | number (n : Nat)

inductive Selector where
  | index (i : Int)
  | members (shape : Shape)
  | comment
  | atom
  | integer
  | fraction
  | bytes
  | string
  | identifier
  /-- The digits between the marks of an integer or of bytes. -/
  | raw
  /-- What an integer or a string holds, as it is written. -/
  | payload
  | body
  /-- The digits without separators. -/
  | digits
  | radix
  | unsigned (bits : Nat)
  | whole
  | part
  | escaped
deriving DecidableEq

inductive SelectionError where
  | outOfRange
  /-- What has been selected so far has no parts of this sort at all. -/
  | foreign
  | conversion (error : Atom.ConversionError)

namespace Atom

def isInteger : Atom → Bool
  | .integer .. => true
  | _ => false

def isFraction : Atom → Bool
  | .fraction .. => true
  | _ => false

def isBytes : Atom → Bool
  | .bytes _ => true
  | _ => false

def isString : Atom → Bool
  | .string .. => true
  | _ => false

def identifier? : Atom → Option Text
  | .identifier name => some name
  | _ => none

def select (a : Atom) (s : Selector) : Except SelectionError (Option Selection) :=
  let onlyIf (test : Bool) := .ok (if test then some (.atom a) else none)
  match s, a with
  | .integer, _ => onlyIf a.isInteger
  | .fraction, _ => onlyIf a.isFraction
  | .bytes, _ => onlyIf a.isBytes
  | .string, _ => onlyIf a.isString
  | .identifier, _ => .ok (a.identifier?.map .text)
  | .raw, .integer _ digits => .ok (some (.text digits))
  | .raw, .bytes digits => .ok (some (.text digits))
  | .payload, .integer _ digits => .ok (some (.text digits))
  | .payload, .string _ body => .ok (some (.text body))
  | .body, .string _ body => .ok (some (.text body))
  | .digits, .integer _ digits => .ok (some (.text (withoutSeparators digits)))
  | .radix, .integer base _ => .ok (some (.number base.radix))
  | .unsigned bits, .integer base digits =>
    match toUnsigned (some Text.mostDigits) base digits bits with
    | .ok n => .ok (some (.number n))
    | .error e => .error (.conversion e)
  | .whole, .fraction whole _ => .ok (some (.text (withoutSeparators whole)))
  | .part, .fraction _ part => .ok (some (.text (withoutSeparators part)))
  | .escaped, .string escaped _ => .ok (some (.truth escaped))
  | _, _ => .error .foreign

end Atom

namespace Selection

/-- The item at a place that is counted from the end if negative. -/
def item {α : Type} (items : List α) (i : Int) : Except SelectionError α :=
  if i < -items.length then .error .outOfRange
  else
    match items[(if i < 0 then i + items.length else i).toNat]? with
    | some a => .ok a
    | none => .error .outOfRange

def select (s : Selector) (selected : Selection) : Except SelectionError (Option Selection) :=
  match selected, s with
  | .elements es, .index i => (item es i).map fun e => some (.element e)
  | .text t, .index i => (item t i).map fun c => some (.text [c])
  | .element e, .members shape => .ok ((e.members? shape).map .elements)
  | .element e, .comment => .ok (e.comment?.map .text)
  | .element e, .atom => .ok (e.atom?.map .atom)
  | .atom a, s => a.select s
  | _, _ => .error .foreign

/-- What stands after each step, up to the first that leads nowhere or cannot be taken. -/
def walk (start : Selection) : List Selector → List (Option Selection) × Option SelectionError
  | [] => ([], none)
  | s :: path =>
    match start.select s with
    | .error e => ([], some e)
    | .ok none => ([none], none)
    | .ok (some next) =>
      let (later, fault) := next.walk path
      (some next :: later, fault)

end Selection
end SExpression
