/-
The shortest decimal that reads back as a given binary floating-point number,
and its text.

* `Binary`: a positive number `mantissa · 2 ^ exponent`; `Binary.ofBits` takes
  it from the bits of a double.
* `Binary.Reads`: the decimals `digits · 10 ^ scale` that round to it. The
  interval is closed exactly when the mantissa is even, and its lower half is
  half as wide at a power of two.
* `Binary.shortest`: the decimal of the coarsest power of ten that has one in
  the interval; of two neighbours the nearer, of two equally near ones the even.
* `Layout`: the decisions of a text of decimals, `Layout.render` the text.
-/

namespace JsonTypes.Decimal

/-! ### Binary numbers -/

/-- The number `mantissa · 2 ^ exponent`. `narrow` tells that the next smaller
number of the format is only half a unit away. -/
structure Binary where
  mantissa : Nat
  exponent : Int
  narrow : Bool
deriving DecidableEq, Repr

/-- The magnitude that the bits of a finite double stand for. -/
def Binary.ofBits (bits : UInt64) : Binary :=
  let fraction := bits.toNat % Nat.pow 2 52
  let biased : Nat := bits.toNat / Nat.pow 2 52 % Nat.pow 2 11
  if biased = 0 then ⟨fraction, -1074, false⟩
  else ⟨Nat.pow 2 52 + fraction, Int.ofNat biased - 1075, fraction = 0 && 1 < biased⟩

/-- The factor of the binary side when a number in quarter units of the last
place is compared with a decimal of the given scale. -/
def Binary.binaryFactor (b : Binary) (scale : Int) : Nat :=
  Nat.pow 2 (b.exponent - 2).toNat * Nat.pow 10 (-scale).toNat

/-- The factor of the decimal side of that comparison. -/
def Binary.decimalFactor (b : Binary) (scale : Int) : Nat :=
  Nat.pow 2 (2 - b.exponent).toNat * Nat.pow 10 scale.toNat

/-- The decimal `digits · 10 ^ scale` lies in the interval of the numbers that
round to `b`. -/
def Binary.Reads (b : Binary) (digits : Nat) (scale : Int) : Prop :=
  let low := (4 * b.mantissa - if b.narrow then 1 else 2) * b.binaryFactor scale
  let high := (4 * b.mantissa + 2) * b.binaryFactor scale
  let point := digits * b.decimalFactor scale
  if b.mantissa % 2 = 0 then low ≤ point ∧ point ≤ high else low < point ∧ point < high

instance (b : Binary) (digits : Nat) (scale : Int) : Decidable (b.Reads digits scale) := by
  unfold Binary.Reads
  infer_instance

/-- The decimal of the given scale that is nearest to `b` among the two
neighbours of `b` that read back as `b`. -/
def Binary.nearest? (b : Binary) (scale : Int) : Option Nat :=
  let value := 4 * b.mantissa * b.binaryFactor scale
  let unit := b.decimalFactor scale
  let below := value / unit
  let above := below + 1
  if b.Reads below scale then
    if b.Reads above scale then
      let down := value - below * unit
      let up := above * unit - value
      if down < up then some below
      else if up < down then some above
      else some (if below % 2 = 0 then below else above)
    else some below
  else if b.Reads above scale then some above
  else none

/-- The scales of doubles, the coarsest first. -/
def scales : List Int :=
  (List.range 634).map fun k : Nat => 309 - Int.ofNat k

/-- The digits and the scale of the shortest decimal that reads back as `b`. -/
def Binary.shortest (b : Binary) : Nat × Int :=
  (scales.findSome? fun scale => (b.nearest? scale).map (·, scale)).getD (0, 0)

/-! ### Text -/

/-- How decimals are written: in positional notation when the exponent of the
first digit lies between `lowest` and `highest`, else with an exponent that has
its sign and no zeros in front. -/
structure Layout where
  lowest : Int
  highest : Int

/-- A number of zeros. -/
def zeros (count : Int) : String :=
  String.ofList (List.replicate count.toNat '0')

/-- The text of the decimal `digits · 10 ^ scale`. -/
def Layout.render (layout : Layout) (digits : Nat) (scale : Int) : String :=
  let text := (toString digits).toList
  let point := (text.length : Int) + scale
  let exponent := point - 1
  if layout.lowest ≤ exponent ∧ exponent ≤ layout.highest then
    if 0 ≤ scale then String.ofList text ++ zeros scale ++ ".0"
    else if 0 < point then
      String.ofList (text.take point.toNat) ++ "." ++ String.ofList (text.drop point.toNat)
    else "0." ++ zeros (-point) ++ String.ofList text
  else
    let rest := text.drop 1
    String.ofList (text.take 1) ++ (if rest.isEmpty then "" else "." ++ String.ofList rest)
      ++ "e" ++ (if 0 ≤ exponent then "+" else "-") ++ toString exponent.natAbs

end JsonTypes.Decimal
