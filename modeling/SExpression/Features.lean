import SExpression.Token

/-! What a source may use. Round groups are always there. -/
namespace SExpression

inductive Feature where
  /-- Comments are tokens and not skipped. -/
  | comments
  | bytes
  | brackets
  | braces
  /-- Identifiers may leave ASCII. -/
  | unicode
deriving DecidableEq

structure Features where
  comments : Bool := true
  bytes : Bool := true
  brackets : Bool := true
  braces : Bool := true
  unicode : Bool := true
deriving DecidableEq

namespace Feature

def all : List Feature := [.comments, .bytes, .brackets, .braces, .unicode]

def name : Feature → Text
  | .comments => "comments"
  | .bytes => "bytes"
  | .brackets => "brackets"
  | .braces => "braces"
  | .unicode => "unicode"

end Feature

namespace Features

def has (f : Features) : Feature → Bool
  | .comments => f.comments
  | .bytes => f.bytes
  | .brackets => f.brackets
  | .braces => f.braces
  | .unicode => f.unicode

def set (f : Features) (on : Bool) : Feature → Features
  | .comments => { f with comments := on }
  | .bytes => { f with bytes := on }
  | .brackets => { f with brackets := on }
  | .braces => { f with braces := on }
  | .unicode => { f with unicode := on }

@[simp] theorem has_set (f : Features) (on : Bool) (x y : Feature) :
    (f.set on x).has y = if y = x then on else f.has y := by
  cases x <;> cases y <;> rfl

def admits (f : Features) : Shape → Bool
  | .round => true
  | .square => f.brackets
  | .curly => f.braces

end Features
end SExpression
