import SExpression.CommandLine.Flag
import SExpression.Text.Quoted

/-! What the command line says of its own use, and of wrong use. -/
namespace SExpression

inductive UsageError where
  | ambiguous (argument : Text) (candidates : List Text)
  | missingValue (flag : Flag)
  | unexpectedValue (flag : Flag) (value : Text)
  | notInteger (flag : Flag) (value : Text)
  | conflict (flag earlier : Flag)
  | missingInput
  | unrecognized (arguments : List Text)
deriving DecidableEq

namespace UsageError

def about (flag : Flag) (text : Text) : Text :=
  "argument " ++ flag.label ++ ": " ++ text

def message : UsageError → Text
  | .ambiguous argument candidates =>
    "ambiguous option: " ++ argument ++ " could match " ++ List.intercalate ", " candidates
  | .missingValue flag => about flag "expected one argument"
  | .unexpectedValue flag value => about flag ("ignored explicit argument " ++ value.quoted)
  | .notInteger flag value => about flag ("invalid int value: " ++ value.quoted)
  | .conflict flag earlier => about flag ("not allowed with argument " ++ earlier.label)
  | .missingInput => "the following arguments are required: input"
  | .unrecognized arguments => "unrecognized arguments: " ++ List.intercalate " " arguments

end UsageError

namespace Usage

def program : Text := "sexpr"

def configName : Text := "sexpr.toml"

def version : Text := "0.1.0"

def summary : Text :=
  "usage: sexpr [-h] [-o OUTPUT] [--config FILE] [--no-comments] [--no-bytes]
             [--no-brackets] [--no-braces] [--ascii] [--max-depth N]
             [--tokens | --check] [--watch] [--debug] [-v]
             input
"

def details : Text :=
  "
Parse s-expression files and print them back normalized

positional arguments:
  input                 Input file

options:
  -h, --help            show this help message and exit
  -o OUTPUT, --output OUTPUT
                        Output file (default: stdout)
  --config FILE         Config file (default: auto-discover sexpr.toml)
  --no-comments         Drop ';' comments
  --no-bytes            Disable #hex# bytes literals
  --no-brackets         Disable [ ] groups
  --no-braces           Disable \x7b \x7d groups
  --ascii               Restrict identifiers to ASCII characters
  --max-depth N         Reject groups nested deeper than N levels
  --tokens              List tokens instead of printing
  --check               Only validate the input
  --watch               Watch for changes and reprocess
  --debug               Dump element tree to stderr
  -v, --verbose         Log progress to stderr
"

def help : Text :=
  summary ++ details

def refusal (e : UsageError) : Text :=
  summary ++ program ++ ": error: " ++ e.message ++ "\n"

end Usage
end SExpression
