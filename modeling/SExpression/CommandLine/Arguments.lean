import SExpression.CommandLine.Usage
import SExpression.Text.Integer

/-! Command lines read as arguments. Long flags may be shortened as long as one name fits, a
value may follow `=`, and short flags without a value may be written together. -/
namespace SExpression

inductive Mode where
  | print
  | tokens
  | check
deriving DecidableEq

/-- What the flag for the depth was given. -/
inductive DepthValue where
  | number (n : Int)
  /-- Nothing, which no number can be compared with. -/
  | blank
deriving DecidableEq

structure Arguments where
  input : Option Text := none
  output : Option Text := none
  config : Option Text := none
  disabled : List Feature := []
  depth : Option DepthValue := none
  mode : Mode := .print
  watch : Bool := false
  debug : Bool := false
  verbose : Bool := false
deriving DecidableEq

/-- Why a command line leads to no run. -/
inductive Stop where
  | help
  | misuse (error : UsageError)
deriving DecidableEq

inductive Word where
  | operand (text : Text)
  /-- Two dashes: all words after it are operands. -/
  | terminator
  /-- A flag, and what follows it in the same word. -/
  | flagged (flag : Flag) (short : Bool) (attached : Option Text)
  | unknown (text : Text)
deriving DecidableEq

namespace Word

def terminatorText : Text := "--"

def isShortName (name : Text) : Bool :=
  name.length = 2

/-- The part before the first `=` and, if there is one, what follows it. -/
def splitEquals (text : Text) : Text × Option Text :=
  match text.dropWhile fun c => c ≠ CodePoint.ofChar '=' with
  | [] => (text, none)
  | _ :: value => (text.takeWhile fun c => c ≠ CodePoint.ofChar '=', some value)

/-- The names that a word may stand for, with the value it then carries. A short flag has its
value right after it. -/
def candidates (word : Text) : List (Text × Flag × Option Text) :=
  if (Text.ofString "--").isPrefixOf word then
    let (start, attached) := splitEquals word
    (Flag.named.filter fun (name, _) => start.isPrefixOf name).map fun (name, flag) =>
      (name, flag, attached)
  else
    (Flag.named.filter fun (name, _) => name = word.take 2).map fun (name, flag) =>
      (name, flag, some (word.drop 2))

/-- A dash, then digits with at most one point, which digits follow. -/
def isNegativeNumber (word : Text) : Bool :=
  match word with
  | [] => false
  | c :: cs =>
    let isDigit (c : CodePoint) : Bool := c.decimalValue?.isSome
    let body := if cs.getLast? = some (CodePoint.ofChar '\n') then cs.dropLast else cs
    c = '-' &&
      match body.dropWhile isDigit with
      | [] => !body.isEmpty
      | d :: ds => d = '.' && !ds.isEmpty && ds.all isDigit

def ofArgument (word : Text) : Except UsageError Word :=
  match word with
  | [] => .ok (.operand word)
  | c :: cs =>
    if c ≠ '-' ∨ cs = [] then .ok (.operand word)
    else
      let (start, attached) := splitEquals word
      match Flag.ofName? word, attached, Flag.ofName? start with
      | some flag, _, _ => .ok (.flagged flag (isShortName word) none)
      | none, some attached, some flag => .ok (.flagged flag (isShortName start) (some attached))
      | none, _, _ =>
        match candidates word with
        | [(name, flag, attached)] => .ok (.flagged flag (isShortName name) attached)
        | [] =>
          if isNegativeNumber word || word.contains (CodePoint.ofChar ' ') then .ok (.operand word)
          else .ok (.unknown word)
        | several => .error (.ambiguous word (several.map (·.1)))

def ofArguments : List Text → Except UsageError (List Word)
  | [] => .ok []
  | word :: words =>
    if word = terminatorText then .ok (.terminator :: words.map .operand)
    else
      match ofArgument word, ofArguments words with
      | .error e, _ => .error e
      | .ok _, .error e => .error e
      | .ok first, .ok others => .ok (first :: others)

end Word

/-- The flags of one word, in order, each with its value. -/
structure Cluster where
  given : List (Flag × Option Text) := []
  /-- The last flag, if its value has to come from the next word. -/
  wanting : Option Flag := none
deriving DecidableEq

namespace Cluster

def single (flag : Flag) : Cluster :=
  if flag.takesValue then { wanting := some flag } else { given := [(flag, none)] }

/-- The same cluster after one more flag without a value. -/
def after (flag : Flag) (cluster : Cluster) : Cluster :=
  { cluster with given := (flag, none) :: cluster.given }

/-- A terminator in the place of a value is dropped and leaves none. -/
def value? (attached : Text) : Option Text :=
  if attached = Word.terminatorText then none else some attached

/-- What follows a short flag without a value is more short flags, until one takes the rest as
its value. -/
def ofAttached (flag : Flag) (short : Bool) (attached : Text) : Except UsageError Cluster :=
  if flag.takesValue then .ok { given := [(flag, value? attached)] }
  else
    match short, attached with
    | true, c :: cs =>
      match Flag.ofName? ['-', c], cs with
      | none, _ => .error (.unexpectedValue flag (c :: cs))
      | some next, [] => .ok (after flag (single next))
      | some next, d :: ds => (ofAttached next true (d :: ds)).map (after flag)
    | _, _ => .error (.unexpectedValue flag attached)
termination_by attached.length

def ofFlag (flag : Flag) (short : Bool) : Option Text → Except UsageError Cluster
  | none => .ok (single flag)
  | some attached => ofAttached flag short attached

end Cluster

namespace Arguments

def choose (a : Arguments) (mode other : Mode) (flag earlier : Flag) : Except Stop Arguments :=
  if a.mode = other then .error (.misuse (.conflict flag earlier)) else .ok { a with mode }

def take (a : Arguments) (flag : Flag) (value : Option Text) : Except Stop Arguments :=
  match flag with
  | .help => .error .help
  | .output => .ok { a with output := value }
  | .config => .ok { a with config := value }
  | .without feature => .ok { a with disabled := feature :: a.disabled }
  | .maxDepth =>
    match value with
    | none => .ok { a with depth := some .blank }
    | some text =>
      match text.toInt? with
      | some n => .ok { a with depth := some (.number n) }
      | none => .error (.misuse (.notInteger flag text))
  | .tokens => a.choose .tokens .check flag .check
  | .check => a.choose .check .tokens flag .tokens
  | .watch => .ok { a with watch := true }
  | .debug => .ok { a with debug := true }
  | .verbose => .ok { a with verbose := true }

def takeAll (a : Arguments) : List (Flag × Option Text) → Except Stop Arguments
  | [] => .ok a
  | (flag, value) :: given =>
    match a.take flag value with
    | .error e => .error e
    | .ok a => a.takeAll given

/-- Takes the words in order. The first operand is the input, and a terminator beside it says
nothing; whatever has no use is collected in `extras`. -/
def ofWords (a : Arguments) (extras : List Text) :
    List Word → Except Stop (Arguments × List Text)
  | [] => .ok (a, extras)
  | .unknown text :: words => a.ofWords (extras ++ [text]) words
  | .operand text :: words =>
    if a.input.isSome then a.ofWords (extras ++ [text]) words
    else
      match words with
      | .terminator :: later => ofWords { a with input := some text } extras later
      | others => ofWords { a with input := some text } extras others
  | .terminator :: words =>
    if a.input.isSome then a.ofWords (extras ++ [Word.terminatorText]) words
    else
      match words with
      | .operand text :: later => ofWords { a with input := some text } extras later
      | others => a.ofWords (extras ++ [Word.terminatorText]) others
  | .flagged flag short attached :: words =>
    match Cluster.ofFlag flag short attached with
    | .error e => .error (.misuse e)
    | .ok cluster =>
      match cluster.wanting with
      | none =>
        match a.takeAll cluster.given with
        | .error e => .error e
        | .ok a => a.ofWords extras words
      | some flag =>
        match words with
        | .operand value :: later =>
          match a.takeAll (cluster.given ++ [(flag, some value)]) with
          | .error e => .error e
          | .ok a => a.ofWords extras later
        | _ => .error (.misuse (.missingValue flag))
termination_by words => words.length

/-- The input and the arguments of a command line. -/
def ofCommandLine (words : List Text) : Except Stop (Text × Arguments) :=
  match Word.ofArguments words with
  | .error e => .error (.misuse e)
  | .ok words =>
    match ofWords {} [] words with
    | .error e => .error e
    | .ok (a, extras) =>
      match a.input with
      | none => .error (.misuse .missingInput)
      | some input =>
        if extras = [] then .ok (input, a) else .error (.misuse (.unrecognized extras))

end Arguments
end SExpression
