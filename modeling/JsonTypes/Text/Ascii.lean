/-
Classes of ASCII characters.

* `digitValue`, `decimalValue`: the values of decimal digits.
* `isNameStart`, `isNamePart`: the characters of names. A name is an ASCII letter
  or underscore followed by ASCII letters, digits and underscores.
-/

namespace JsonTypes

/-! ### Digits -/

/-- The value of a decimal digit. -/
def digitValue (c : Char) : Nat := c.toNat - '0'.toNat

/-- The number that a list of decimal digits stands for. -/
def decimalValue (digits : List Char) : Nat :=
  digits.foldl (fun n c => n * 10 + digitValue c) 0

/-! ### Names -/

/-- Whether a character starts a name. -/
def isNameStart (c : Char) : Bool :=
  c.isAlpha || c == '_'

/-- Whether a character continues a name. -/
def isNamePart (c : Char) : Bool :=
  c.isAlphanum || c == '_'

end JsonTypes
