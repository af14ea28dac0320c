import SExpression.Text.Digit
import SExpression.Text.Identifier

/-! The classes of code points that the lexical rules name. -/
namespace SExpression.CodePoint

def isBlank (c : CodePoint) : Bool :=
  c = ' ' || c = '\t' || c = '\n'

/-- The ASCII punctuation that identifiers may hold: all but delimiters, double quote,
semicolon, backslash and underscore. -/
def isOperator (c : CodePoint) : Bool :=
  (Text.ofString "?!#@$+-*/=<>,.:|%^&~'`").contains c

def isLetter (c : CodePoint) : Bool :=
  c.isBetween 'a' 'z' || c.isBetween 'A' 'Z'

def startsIdentifier (unicode : Bool) (c : CodePoint) : Bool :=
  c = '_' || c.isOperator ||
    if unicode then c.isIdentifierStart || c.isMathOperator else c.isLetter

def continuesIdentifier (unicode : Bool) (c : CodePoint) : Bool :=
  c.isDigit || c.startsIdentifier unicode || unicode && c.isIdentifierContinue

end SExpression.CodePoint
