import SExpression.Text.CodePoint

/-! TOML values, and the tables that keys with dots reach into. -/
namespace SExpression.Toml

inductive Value where
  | boolean (value : Bool)
  | integer (value : Int)
  | float (spelling : Text)
  | moment (spelling : Text)
  | string (value : Text)
  | array (items : List Value)
  | table (entries : List (Text × Value))

inductive ReadError where
  | notUtf8
  | invalid
  /-- An integer is written with more digits than are read. -/
  | longInteger (count : Nat)
deriving DecidableEq

/-- What cannot be read is invalid. -/
def valid {α : Type} (read : Option α) : Except ReadError α :=
  match read with
  | some a => .ok a
  | none => .error .invalid

abbrev Table := List (Text × Value)

/-- The parts of a key between its dots. -/
abbrev Key := List Text

def Value.isContainer : Value → Bool
  | .array _ => true
  | .table _ => true
  | _ => false

namespace Table

def get? (table : Table) (name : Text) : Option Value :=
  List.lookup name table

def set (table : Table) (name : Text) (value : Value) : Table :=
  if (table.get? name).isSome then
    table.map fun entry => if entry.1 = name then (name, value) else entry
  else table ++ [(name, value)]

/-- Changes the table at `key`, making those on the way that are not there yet. An array of
tables stands for its last table, where arrays may be entered at all. -/
def modify (intoArrays : Bool) (change : Table → Option Table) : Key → Table → Option Table
  | [], table => change table
  | name :: key, table =>
    match table.get? name with
    | none => (modify intoArrays change key []).map fun inner => table.set name (.table inner)
    | some (.table inner) =>
      (modify intoArrays change key inner).map fun inner => table.set name (.table inner)
    | some (.array items) =>
      match intoArrays, items.getLast? with
      | true, some (.table inner) =>
        (modify intoArrays change key inner).map fun inner =>
          table.set name (.array (items.dropLast ++ [.table inner]))
      | _, _ => none
    | some _ => none

/-- Adds a value under a new name. -/
def add (name : Text) (value : Value) (table : Table) : Option Table :=
  if (table.get? name).isSome then none else some (table ++ [(name, value)])

/-- Adds an empty table to the array of that name. -/
def addItem (name : Text) (table : Table) : Option Table :=
  match table.get? name with
  | none => some (table.set name (.array [.table []]))
  | some (.array items) => some (table.set name (.array (items ++ [.table []])))
  | some _ => none

end Table

/-- Where what `key` reaches has been closed against change. -/
def Key.isClosed (closed : List Key) (key : Key) : Bool :=
  closed.any (List.isPrefixOf · key)

/-- The table between braces. What a value there holds is not added to by later keys. -/
def Table.ofPairs (pairs : List (Key × Value)) : Option Table :=
  (pairs.foldlM add ([], [])).map Prod.fst
where
  add (state : Table × List Key) (pair : Key × Value) : Option (Table × List Key) :=
    let (table, closed) := state
    let (key, value) := pair
    match key.getLast? with
    | none => none
    | some name =>
      if key.isClosed closed then none
      else
        (table.modify false (Table.add name value) key.dropLast).map fun table =>
          (table, if value.isContainer then key :: closed else closed)

end SExpression.Toml
