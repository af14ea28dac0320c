import SExpression.Text.Utf8
import SExpression.Toml.Grammar

/-! TOML documents: the table that their statements make up. -/
namespace SExpression.Toml

/-- The table so far, and which keys may not be named again in which way. -/
structure Assembly where
  root : Table := []
  /-- The table that pairs are added to. -/
  header : Key := []
  /-- Tables that have had a header, or that dotted keys of an earlier section have made. -/
  headed : List Key := []
  /-- Tables that dotted keys of this section have made. -/
  dotted : List Key := []
  /-- Arrays and tables that were written as values. -/
  closed : List Key := []

namespace Assembly

/-- A new section begins. -/
def turn (a : Assembly) (key : Key) : Assembly :=
  { a with header := key, headed := a.dotted ++ a.headed, dotted := [] }

def openTable (a : Assembly) (key : Key) : Option Assembly := do
  let a := a.turn key
  if a.headed.contains key || key.isClosed a.closed then none
  else return { a with root := ← a.root.modify true some key, headed := key :: a.headed }

/-- What was said of the tables below the key was said of the item before. -/
def openItem (a : Assembly) (key : Key) : Option Assembly := do
  let a := a.turn key
  if key.isClosed a.closed then none
  else
    let name ← key.getLast?
    return { a with
      root := ← a.root.modify true (Table.addItem name) key.dropLast
      headed := key :: a.headed.filter fun other => !key.isPrefixOf other
      closed := a.closed.filter fun other => !key.isPrefixOf other }

def addPair (a : Assembly) (key : Key) (value : Value) : Option Assembly := do
  let name ← key.getLast?
  let parent := a.header ++ key.dropLast
  let between := (List.range (key.length - 1)).map fun n => a.header ++ key.take (n + 1)
  if between.any a.headed.contains || parent.isClosed a.closed then none
  else
    return { a with
      root := ← a.root.modify true (Table.add name value) parent
      dotted := between ++ a.dotted
      closed := if value.isContainer then (a.header ++ key) :: a.closed else a.closed }

def add (a : Assembly) : Statement → Option Assembly
  | .header key => a.openTable key
  | .item key => a.openItem key
  | .pair key value => a.addPair key value

end Assembly

/-- Of a statement that breaks the rules for keys and a later one that cannot be read, the first
counts. -/
def Table.ofText (text : Text) : Except ReadError Table :=
  let text := unifyBreaks text
  let (found, fault) := statements (text.length + 1) text
  match found.foldlM Assembly.add {}, fault with
  | none, _ => .error .invalid
  | some _, some e => .error e
  | some a, none => .ok a.root

def Table.ofBytes (bytes : Bytes) : Except ReadError Table :=
  match Utf8.decode bytes with
  | ⟨_, some _⟩ => .error .notUtf8
  | ⟨text, none⟩ => Table.ofText text

end SExpression.Toml
