import SExpression.Text.Utf8

/-! Sources: the bytes that are read and the text that messages show of them. -/
namespace SExpression

structure Source where
  bytes : Bytes
  shown : Text
deriving DecidableEq

namespace Source

def ofText (text : Text) : Source :=
  ⟨text.encode, text⟩

def ofBytes (bytes : Bytes) : Source :=
  ⟨bytes, Utf8.decodeLossy bytes⟩

end Source
end SExpression
