import SExpression.Files.Path
import SExpression.Text.Quoted

/-! The files a run can see, as a value: what reading, writing and looking up times answer. -/
namespace SExpression

/-- What a run may do with a file or a directory. What it may change it may read as well, and it
passes through the directories that it may read. -/
inductive Permission where
  | nothing
  | reading
  | all
deriving DecidableEq

/-- `modified` stands for the time of the last change as a program is told it, rounding included:
it is the same where the times told are the same, and zero where the time told is zero. -/
inductive FileNode where
  | file (contents : Bytes) (modified : Int) (permission : Permission := .all)
  | directory (modified : Int) (permission : Permission := .all)
deriving DecidableEq

def FileNode.modified : FileNode → Int
  | .file _ modified _ => modified
  | .directory modified _ => modified

inductive FileError where
  | missing
  | denied
  | notDirectory
  | isDirectory
  | nameTooLong
  /-- A path with a null byte is no path at all. -/
  | nullByte
  /-- Nor is one with surrogates that stand for no bytes. -/
  | unencodable
deriving DecidableEq

namespace FileError

/-- What is said of the first surrogates of a text that stand for no bytes, with those that follow
at once. -/
def unencodableMessage (text : Text) : Text :=
  let start := text.findIdx CodePoint.isUnencodable
  let found : Text :=
    match (text.drop start).takeWhile CodePoint.isSurrogate with
    | [c] => " '\\u" ++ Text.hexOfNat 4 c.value ++ "' in position " ++ Text.ofNat start
    | run => "s in position " ++ Text.ofNat start ++ "-" ++ Text.ofNat (start + run.length - 1)
  "'utf-8' codec can't encode character" ++ found ++ ": surrogates not allowed"

def message (path : Path) : FileError → Text
  | .missing => "[Errno 2] No such file or directory: " ++ path.text.quoted
  | .denied => "[Errno 13] Permission denied: " ++ path.text.quoted
  | .notDirectory => "[Errno 20] Not a directory: " ++ path.text.quoted
  | .isDirectory => "[Errno 21] Is a directory: " ++ path.text.quoted
  | .nameTooLong => "[Errno 36] File name too long: " ++ path.text.quoted
  | .nullByte => "embedded null byte"
  | .unencodable => unencodableMessage path.text

/-- Where reading fails, the program reports it and ends in order, but for a path that is none. -/
def isReported : FileError → Bool
  | .nullByte | .unencodable => false
  | _ => true

/-- What cannot be found so is taken not to be there. -/
def isAbsence : FileError → Bool
  | .denied | .nameTooLong => false
  | _ => true

end FileError

structure FileTree where
  entries : List (Location × FileNode) := []
  /-- The time that is given to what is written now. -/
  now : Int := 0
  /-- Where paths start that are not absolute. -/
  here : Location := {}
deriving DecidableEq

namespace FileTree

/-- The directory a run starts in and all above it are there. -/
def node? (tree : FileTree) (place : Location) : Option FileNode :=
  match tree.entries.lookup place with
  | some node => some node
  | none => if tree.here.isWithin place then some (.directory tree.now) else none

def mostNameBytes : Nat := 255

def mostPathBytes : Nat := 4095

def walk (tree : FileTree) (place : Location) : List Text → Except FileError Location
  | [] => .ok place
  | part :: parts =>
    match tree.node? place with
    | some (.directory _ permission) =>
      if permission = .nothing then .error .denied
      else if mostNameBytes < part.fileName.length then .error .nameTooLong
      else tree.walk (place.enter part) parts
    | some (.file ..) => .error .notDirectory
    | none => .error .missing

def start (tree : FileTree) (path : Path) : Location :=
  if path.root = [] then tree.here else {}

/-- Where a path leads; there need be nothing there yet. -/
def locate (tree : FileTree) (path : Path) : Except FileError Location :=
  if path.text.any CodePoint.isUnencodable then .error .unencodable
  else if path.text.contains (CodePoint.ofChar '\x00') then .error .nullByte
  else if mostPathBytes < path.text.fileName.length then .error .nameTooLong
  else tree.walk (tree.start path) path.parts

def find? (tree : FileTree) (path : Path) : Except FileError FileNode :=
  match tree.locate path with
  | .error e => .error e
  | .ok place =>
    match tree.node? place with
    | some node => .ok node
    | none => .error .missing

def read (tree : FileTree) (path : Path) : Except FileError Bytes :=
  match tree.find? path with
  | .error e => .error e
  | .ok (.file contents _ permission) =>
    if permission = .nothing then .error .denied else .ok contents
  | .ok (.directory _ permission) =>
    if permission = .nothing then .error .denied else .error .isDirectory

def put (tree : FileTree) (place : Location) (node : FileNode) : FileTree :=
  { tree with entries := (place, node) :: tree.entries.filter (·.1 ≠ place) }

/-- Writes a file that is there, or makes one in a directory that is. -/
def write (tree : FileTree) (path : Path) (contents : Bytes) : Except FileError FileTree :=
  match tree.locate path with
  | .error e => .error e
  | .ok place =>
    match tree.node? place with
    | some (.directory ..) => .error .isDirectory
    | some (.file _ _ permission) =>
      if permission = .all then .ok (tree.put place (.file contents tree.now))
      else .error .denied
    | none =>
      match tree.node? place.above with
      | some (.directory _ .all) => .ok (tree.put place (.file contents tree.now))
      | _ => .error .denied

/-- Puts a node where the path leads, with the directories on the way. -/
def place (tree : FileTree) (path : Path) (node : FileNode) : FileTree :=
  let above := path.parts.dropLast.foldl (fun (tree, place) part =>
    let place := Location.enter place part
    (if (FileTree.node? tree place).isSome then tree else tree.put place (.directory tree.now),
      place)) (tree, tree.start path)
  above.1.put ((tree.start path).follow path.parts) node

/-- Takes away what is where the path leads, and all below it. -/
def remove (tree : FileTree) (path : Path) : FileTree :=
  let place := (tree.start path).follow path.parts
  { tree with entries := tree.entries.filter fun entry => !entry.1.isWithin place }

end FileTree
end SExpression
