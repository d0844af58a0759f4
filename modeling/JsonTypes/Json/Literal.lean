/-
The literals of JSON texts: `null`, truth values and numbers.

A reader gets the place and the text from its first character on, and yields the
value with the number of characters that it takes.

* `readWord`: a word that has to be spelled out.
* `Significand`: the digits of a number as far as they fit into 64 bits, with
  the power of ten that scales them.
* `scaled`: the double that a significand and a power of ten stand for, with one
  rounding for each step.
* `readNumber`: numbers.
-/
import JsonTypes.Json.Basic
import JsonTypes.Json.Place
import JsonTypes.Text.Ascii

namespace JsonTypes

/-- A value that has been read, and the number of characters that it takes. -/
structure Scanned (α : Type) where
  value : α
  width : Nat

/-! ### Words -/

/-- Reads the letters of a word. -/
def readLetters (p : Place) : List Char → List Char → Except ReadError Unit
  | [], _ => .ok ()
  | _ :: _, [] => .error ⟨.endInValue, p⟩
  | letter :: letters, c :: rest =>
    if c = letter then readLetters (p.advance c) letters rest
    else .error ⟨.expectedLiteral, p.afterBytes 1 (c :: rest)⟩

/-- Reads a word that stands for a value. -/
def readWord (p : Place) (word : String) (value : Json) (text : List Char) :
    Except ReadError (Scanned Json) :=
  (readLetters p word.toList text).map fun () => ⟨value, word.length⟩

/-! ### Significands -/

/-- The number `digits · 10 ^ scale`, where `digits` is below `2 ^ 64`. -/
structure Significand where
  digits : Nat
  scale : Int
deriving DecidableEq, Repr

namespace Significand

/-- Whether a digit can be appended. -/
def fits (digits digit : Nat) : Bool := digits * 10 + digit < Nat.pow 2 64

/-- Appends the digits of a whole number. From the first digit on that does not
fit, digits count only as powers of ten. -/
def ofWhole (digits : Nat) : List Nat → Significand
  | [] => ⟨digits, 0⟩
  | digit :: rest =>
    if fits digits digit then ofWhole (digits * 10 + digit) rest
    else ⟨digits, (rest.length + 1 : Nat)⟩

/-- Appends the digits of a fraction as far as they fit. -/
def withFraction (x : Significand) : List Nat → Significand
  | [] => x
  | digit :: rest =>
    if fits x.digits digit then withFraction ⟨x.digits * 10 + digit, x.scale - 1⟩ rest
    else x

end Significand

/-! ### Doubles -/

/-- The double nearest to a power of ten. -/
def powerOfTen (exponent : Nat) : Float :=
  Float.ofScientific 1 false exponent

/-- Divides by a power of ten, in steps that are doubles themselves. -/
def scaledDown (x : Float) (exponent : Nat) : Float :=
  if exponent ≤ 308 then x / powerOfTen exponent
  else if x == 0 then x
  else scaledDown (x / powerOfTen 308) (exponent - 308)
termination_by exponent

/-- The double for a significand, if it is finite. -/
def scaled (x : Significand) : Option Float :=
  let digits := Float.ofNat x.digits
  if 0 ≤ x.scale then
    if x.scale ≤ 308 then
      let y := digits * powerOfTen x.scale.toNat
      if y.isInf then none else some y
    else if x.digits = 0 then some 0 else none
  else some (scaledDown digits (-x.scale).toNat)

/-- A double with a sign. -/
def signed (negative : Bool) (x : Float) : Float :=
  if negative then -x else x

/-! ### Numbers -/

/-- The digits in front of a text. -/
def leadingDigits (text : List Char) : List Nat :=
  (text.takeWhile Char.isDigit).map digitValue

/-- The exponent that some digits stand for. An exponent of `2 ^ 31` or more is
not read to its end: the number of digits up to there is the error. -/
def readExponentDigits (exponent count : Nat) : List Nat → Except Nat Nat
  | [] => .ok exponent
  | digit :: rest =>
    let next := exponent * 10 + digit
    if next < Nat.pow 2 31 then readExponentDigits next (count + 1) rest else .error (count + 1)

/-- The double for a significand at the end of a number. -/
def finishDouble (p : Place) (negative : Bool) (x : Significand) : Except ReadError Number :=
  match scaled x with
  | some y => .ok (.double (signed negative y))
  | none => .error ⟨.numberOutOfRange, p⟩

/-- The exponent behind its letter. -/
def readExponent (p : Place) (negative : Bool) (x : Significand) (text : List Char) :
    Except ReadError (Scanned Number) :=
  let signs := match text with
    | '+' :: _ | '-' :: _ => 1
    | _ => 0
  let down := text.head? == some '-'
  let text := text.drop signs
  let p := p.forward signs
  let digits := leadingDigits text
  match text, digits with
  | [], _ => .error ⟨.endInValue, p⟩
  | _ :: _, [] => .error ⟨.invalidNumber, p.afterBytes 1 text⟩
  | _, first :: rest =>
    let width := signs + digits.length
    match readExponentDigits first 1 rest with
    | .ok exponent =>
      let shift : Int := if down then -exponent else exponent
      (finishDouble (p.forward digits.length) negative ⟨x.digits, x.scale + shift⟩).map
        (⟨·, width⟩)
    | .error count =>
      if x.digits ≠ 0 && !down then .error ⟨.numberOutOfRange, p.forward count⟩
      else .ok ⟨.double (signed negative 0), width⟩

/-- What follows the digits of a number: an exponent or nothing. `finish` is the
number if nothing follows. -/
def readAfterDigits (p : Place) (negative : Bool) (x : Significand) (text : List Char)
    (finish : Except ReadError Number) : Except ReadError (Scanned Number) :=
  match text with
  | 'e' :: rest | 'E' :: rest =>
    (readExponent (p.forward 1) negative x rest).map fun s => ⟨s.value, s.width + 1⟩
  | _ => finish.map (⟨·, 0⟩)

/-- The number of a literal without fraction and exponent: an integer if it fits
into 64 bits and is not a negative zero. -/
def wholeNumber (p : Place) (negative : Bool) (x : Significand) : Except ReadError Number :=
  if x.scale ≠ 0 then finishDouble p negative x
  else if negative then
    if 0 < x.digits ∧ x.digits ≤ Nat.pow 2 63 then .ok (.integer (-x.digits))
    else .ok (.double (-Float.ofNat x.digits))
  else .ok (.integer x.digits)

/-- What follows the whole digits of a number. -/
def readAfterWhole (p : Place) (negative : Bool) (x : Significand) (text : List Char) :
    Except ReadError (Scanned Number) :=
  match text with
  | '.' :: rest =>
    let p := p.forward 1
    let digits := leadingDigits rest
    match rest, digits with
    | [], _ => .error ⟨.endInValue, p⟩
    | _ :: _, [] => .error ⟨.invalidNumber, p.afterBytes 1 rest⟩
    | _, _ :: _ =>
      let x := x.withFraction digits
      let p := p.forward digits.length
      (readAfterDigits p negative x (rest.drop digits.length) (finishDouble p negative x)).map
        fun s => ⟨s.value, s.width + digits.length + 1⟩
  | _ => readAfterDigits p negative x text (wholeNumber p negative x)

/-- Reads a number without its sign. A zero in front is followed by no digit. -/
def readUnsigned (p : Place) (negative : Bool) (text : List Char) :
    Except ReadError (Scanned Number) :=
  match text, leadingDigits text with
  | [], _ => .error ⟨.endInValue, p⟩
  | _ :: _, [] => .error ⟨.invalidNumber, p.afterBytes 1 text⟩
  | _, 0 :: _ :: _ => .error ⟨.invalidNumber, p.forward 2⟩
  | _, digits =>
    (readAfterWhole (p.forward digits.length) negative (.ofWhole 0 digits)
      (text.drop digits.length)).map fun s => ⟨s.value, s.width + digits.length⟩

/-- Reads a number. -/
def readNumber (p : Place) (text : List Char) : Except ReadError (Scanned Number) :=
  match text with
  | '-' :: rest =>
    (readUnsigned (p.forward 1) true rest).map fun s => ⟨s.value, s.width + 1⟩
  | _ => readUnsigned p false text

end JsonTypes
