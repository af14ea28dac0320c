import SExpression.CommandLine.Arguments
import SExpression.Files.Tree
import SExpression.Toml.Document

/-! The options of a run: defaults, then a configuration file, then the command line. -/
namespace SExpression

structure Options where
  input : Path
  output : Option Path
  features : Features
  limit : Option Int
  mode : Mode
  watch : Bool
  debug : Bool
  verbose : Bool
deriving DecidableEq

inductive OptionsError where
  /-- Whether the configuration is there cannot be told, or it is there and cannot be opened. -/
  | unreachable (path : Path) (error : FileError)
  | unreadable (error : Toml.ReadError)
  /-- The configuration gives a feature a value that is neither true nor false. -/
  | notBoolean (feature : Feature)
  | configDepth
  | commandLineDepth
  /-- The command line asks for a limit of depth and gives none. -/
  | noDepth
deriving DecidableEq

namespace OptionsError

/-- Errors that are not reported break the program off. -/
def isReported : OptionsError → Bool
  | .unreadable (.longInteger _) => false
  | .noDepth => false
  | _ => true

/-- An invalid configuration, or one that is not UTF-8, is named without the details that its
reader gives behind a colon. -/
def message : OptionsError → Text
  | .unreachable path e => "cannot read config file: " ++ e.message path
  | .unreadable .invalid => "invalid config file"
  | .unreadable .notUtf8 => "config file is not valid UTF-8"
  | .unreadable (.longInteger count) => Text.tooManyDigits Text.mostDigits count
  | .notBoolean feature => "config key '" ++ feature.name ++ "' must be true or false"
  | .configDepth => "config key 'max_depth' must be a positive integer"
  | .commandLineDepth => "--max-depth must be a positive integer"
  | .noDepth => "'<' not supported between instances of 'list' and 'int'"

end OptionsError

namespace Options

/-- The table of that name; anything else of that name counts as nothing. -/
def part (table : Toml.Table) (name : Text) : Toml.Table :=
  match table.get? name with
  | some (.table entries) => entries
  | _ => []

def configured (entries : Toml.Table) (feature : Feature) : Except OptionsError Bool :=
  match entries.get? feature.name with
  | none => .ok true
  | some (.boolean on) => .ok on
  | some _ => .error (.notBoolean feature)

/-- The configuration is looked at also where the command line overrides it. -/
def mergeFeatures (entries : Toml.Table) (disabled : List Feature) (f : Features) :
    List Feature → Except OptionsError Features
  | [] => .ok f
  | feature :: features =>
    match configured entries feature with
    | .error e => .error e
    | .ok on =>
      mergeFeatures entries disabled (f.set (on && !disabled.contains feature) feature) features

def configuredLimit (entries : Toml.Table) : Except OptionsError (Option Int) :=
  match entries.get? "max_depth" with
  | none => .ok none
  | some (.integer n) => if n < 1 then .error .configDepth else .ok (some n)
  | some _ => .error .configDepth

def mergeLimit (configured : Option Int) :
    Option DepthValue → Except OptionsError (Option Int)
  | none => .ok configured
  | some .blank => .error .noDepth
  | some (.number n) => if n < 1 then .error .commandLineDepth else .ok (some n)

/-- What a loaded table and the arguments come to. -/
def merge (table : Toml.Table) (input : Text) (a : Arguments) : Except OptionsError Options := do
  let features ← mergeFeatures (part table "tokenizer") a.disabled {} Feature.all
  let limit ← mergeLimit (← configuredLimit (part table "parser")) a.depth
  return {
    input := .ofText input
    output := a.output.bind fun text => if text = [] then none else some (.ofText text)
    features
    limit
    mode := a.mode
    watch := a.watch
    debug := a.debug
    verbose := a.verbose }

/-- The file that was asked for, or else the one beside the input. -/
def configPath (input : Text) (a : Arguments) : Path :=
  match a.config with
  | some (c :: cs) => .ofText (c :: cs)
  | _ => (Path.ofText input).parent.child Usage.configName

/-- What is not there, or is not a file, counts as an empty configuration. -/
def loadTable (tree : FileTree) (path : Path) : Except OptionsError Toml.Table :=
  match tree.find? path with
  | .error e => if e.isAbsence then .ok [] else .error (.unreachable path e)
  | .ok (.directory ..) => .ok []
  | .ok (.file ..) =>
    match tree.read path with
    | .error e => .error (.unreachable path e)
    | .ok contents =>
      match Toml.Table.ofBytes contents with
      | .ok table => .ok table
      | .error e => .error (.unreadable e)

def resolve (tree : FileTree) (input : Text) (a : Arguments) : Except OptionsError Options := do
  merge (← loadTable tree (configPath input a)) input a

end Options
end SExpression
