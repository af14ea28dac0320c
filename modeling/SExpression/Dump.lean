import SExpression.Element
import SExpression.Text.Quoted

/-! Tokens and elements listed one a line, with all that they hold. -/
namespace SExpression

def Text.unlines (lines : List Text) : Text :=
  lines.flatMap (· ++ "\n")

def Atom.describe : Atom → Text
  | .integer base digits =>
    "Integral(base=" ++ Text.ofNat base.radix ++ ", " ++ digits.quoted ++ ")"
  | .fraction whole part => "Decimal(" ++ whole.quoted ++ ", " ++ part.quoted ++ ")"
  | .string escaped body =>
    "String(" ++ body.quoted ++ (if escaped then Text.ofString ", escaped" else []) ++ ")"
  | .bytes digits => "Bytes(" ++ digits.quoted ++ ")"
  | .identifier name => "Ident(" ++ name.quoted ++ ")"

namespace Lexeme

def kind : Lexeme → Text
  | .opening _ => "LEFT"
  | .closing _ => "RIGHT"
  | .comment _ => "COMMENT"
  | .atom _ => "ATOM"

def describe : Lexeme → Text
  | .opening shape => [shape.opening]
  | .closing shape => [shape.closing]
  | .comment text => text.quoted
  | .atom value => value.describe

end Lexeme

namespace Token

def dumpLine (token : Token) : Text :=
  token.span.text ++ " " ++ token.lexeme.kind ++ " " ++ token.lexeme.describe

def dump (tokens : List Token) : Text :=
  Text.unlines (tokens.map dumpLine)

end Token

namespace Element

def dumpLine (depth : Nat) (description : Text) (span : Span) : Text :=
  Text.repeated (2 * depth) ' ' ++ description ++ " @ " ++ span.text

mutual

def dumpLines (depth : Nat) : Element → List Text
  | .atom value span => [dumpLine depth value.describe span]
  | .comment text span => [dumpLine depth ("Comment(" ++ text.quoted ++ ")") span]
  | .group shape members span =>
    dumpLine depth ("Group " ++ shape.name) span :: dumpAllLines (depth + 1) members

def dumpAllLines (depth : Nat) : List Element → List Text
  | [] => []
  | e :: es => dumpLines depth e ++ dumpAllLines depth es

end

def dump (elements : List Element) : Text :=
  Text.unlines ("Document" :: dumpAllLines 1 elements)

end Element
end SExpression
