import SExpression.Text.Lines
import SExpression.Text.Utf8

/-! Paths with slashes, and the places they lead to. Repeated slashes and `.` say nothing and are
dropped from a path; `..` is kept, since what it leads to depends on the files. Names of files are
bytes, so that one file can have several paths. -/
namespace SExpression

/-- A surrogate that stands for one byte, from 0x80 on, in the name of a file. -/
def CodePoint.isEscapedByte (c : CodePoint) : Bool :=
  0xDC80 ≤ c.value && c.value ≤ 0xDCFF

/-- Other surrogates have no place in a name. -/
def CodePoint.isUnencodable (c : CodePoint) : Bool :=
  c.isSurrogate && !c.isEscapedByte

/-- The bytes of a name. -/
def Text.fileName (text : Text) : Bytes :=
  text.flatMap fun c => if c.isEscapedByte then [(c.value - 0xDC00).toUInt8] else c.encode

structure Path where
  /-- Nothing, or the slashes that an absolute path starts with. -/
  root : Text := []
  parts : List Text := []
deriving DecidableEq

namespace Path

/-- Two slashes at the start, and no more, are a root of their own. -/
def rootOf (text : Text) : Text :=
  match (text.takeWhile fun c : CodePoint => c = '/').length with
  | 0 => []
  | 2 => "//"
  | _ => "/"

def ofText (text : Text) : Path where
  root := rootOf text
  parts := (text.split '/').filter fun part => part ≠ [] ∧ part ≠ "."

def text (p : Path) : Text :=
  let whole := p.root ++ List.intercalate "/" p.parts
  if whole = [] then "." else whole

def parent (p : Path) : Path :=
  { p with parts := p.parts.dropLast }

def child (p : Path) (name : Text) : Path :=
  { p with parts := p.parts ++ [name] }

end Path

/-- A place among the files: the names on the way there from the root. -/
structure Location where
  names : List Bytes := []
deriving DecidableEq

namespace Location

/-- Above the root is the root. -/
def above (place : Location) : Location :=
  ⟨place.names.dropLast⟩

def enter (place : Location) (part : Text) : Location :=
  if part = ".." then place.above else ⟨place.names ++ [part.fileName]⟩

/-- Where the parts of a path lead if all on the way is there. -/
def follow (place : Location) (parts : List Text) : Location :=
  parts.foldl enter place

/-- The place is `directory` or below it. -/
def isWithin (place directory : Location) : Bool :=
  directory.names.isPrefixOf place.names

/-- The place that a path has below the root. -/
instance : Coe Path Location := ⟨fun path => follow {} path.parts⟩

def ofText (text : Text) : Location :=
  Path.ofText text

end Location
end SExpression
