/-
The numbers of JSON texts.

A literal without fraction and exponent that fits into 64 bits is kept as an
integer; every other literal is kept as a double.

* `Number`, `Number.text`.
* `Number.layout`: how doubles are written: the shortest digits that read back,
  positional between `1e-5` and `1e16`, always with a point.
-/
import JsonTypes.Decimal.Shortest

namespace JsonTypes

/-- The number of a JSON text. -/
inductive Number where
  | integer (n : Int)
  | double (x : Float)

namespace Number

/-- Doubles are positional from `1e-5` up to `1e16`. -/
def layout : Decimal.Layout := ⟨-5, 15⟩

/-- The text of a finite double. -/
def doubleText (x : Float) : String :=
  let bits := x.toBits
  let magnitude := Decimal.Binary.ofBits bits
  let sign := if bits.toNat < Nat.pow 2 63 then "" else "-"
  if magnitude.mantissa = 0 then sign ++ "0.0"
  else
    let (digits, scale) := magnitude.shortest
    sign ++ layout.render digits scale

/-- The text of a number. -/
def text : Number → String
  | .integer n => toString n
  | .double x => doubleText x

end Number

end JsonTypes
