/-! Text as a list of code points. Surrogates are code points here, so that text which no
byte sequence encodes can still be named, shown and refused. -/
namespace SExpression

structure CodePoint where
  value : Nat
  value_lt : value < 0x110000
deriving DecidableEq

namespace CodePoint

private theorem char_toNat_lt (c : Char) : c.toNat < 0x110000 := by
  have := c.valid
  simp only [UInt32.isValidChar, Nat.isValidChar] at this
  simp only [Char.toNat]
  omega

def ofChar (c : Char) : CodePoint :=
  ⟨c.toNat, char_toNat_lt c⟩

instance : Coe Char CodePoint := ⟨ofChar⟩

instance : Inhabited CodePoint := ⟨'\x00'⟩

@[ext] theorem ext {c d : CodePoint} (h : c.value = d.value) : c = d := by
  cases c; cases d; simp_all

@[simp] theorem value_ofChar (c : Char) : (ofChar c).value = c.toNat := rfl

def isSurrogate (c : CodePoint) : Bool :=
  0xD800 ≤ c.value && c.value ≤ 0xDFFF

/-- A code point that UTF-8 can carry. -/
def IsScalar (c : CodePoint) : Prop :=
  c.value < 0xD800 ∨ 0xDFFF < c.value

instance (c : CodePoint) : Decidable c.IsScalar :=
  inferInstanceAs (Decidable (_ ∨ _))

def isBetween (c : CodePoint) (low high : Char) : Bool :=
  low.toNat ≤ c.value && c.value ≤ high.toNat

end CodePoint

abbrev Text := List CodePoint

namespace Text

def ofString (s : String) : Text :=
  s.toList.map .ofChar

instance : Coe String Text := ⟨ofString⟩

def repeated (count : Nat) (c : CodePoint) : Text :=
  List.replicate count c

end Text
end SExpression
