import SExpression.Features

/-! The flags of the command line, by their names. -/
namespace SExpression

inductive Flag where
  | help
  | output
  | config
  /-- Switches a feature off. -/
  | without (feature : Feature)
  | maxDepth
  | tokens
  | check
  | watch
  | debug
  | verbose
deriving DecidableEq

namespace Flag

def all : List Flag :=
  [.help, .output, .config, .without .comments, .without .bytes, .without .brackets,
    .without .braces, .without .unicode, .maxDepth, .tokens, .check, .watch, .debug, .verbose]

def names : Flag → List Text
  | .help => ["-h", "--help"]
  | .output => ["-o", "--output"]
  | .config => ["--config"]
  | .without .comments => ["--no-comments"]
  | .without .bytes => ["--no-bytes"]
  | .without .brackets => ["--no-brackets"]
  | .without .braces => ["--no-braces"]
  | .without .unicode => ["--ascii"]
  | .maxDepth => ["--max-depth"]
  | .tokens => ["--tokens"]
  | .check => ["--check"]
  | .watch => ["--watch"]
  | .debug => ["--debug"]
  | .verbose => ["-v", "--verbose"]

def takesValue : Flag → Bool
  | .output | .config | .maxDepth => true
  | _ => false

/-- How messages name it. -/
def label (flag : Flag) : Text :=
  List.intercalate "/" flag.names

def named : List (Text × Flag) :=
  all.flatMap fun flag => flag.names.map fun name => (name, flag)

def ofName? (name : Text) : Option Flag :=
  named.lookup name

end Flag
end SExpression
