/-
Pointers into JSON values.

The empty pointer selects the whole value. Every other pointer consists of steps,
each with a slash in front of it; a slash inside a step is written `~1`, a tilde
`~0`.

* `Pointer`, `Pointer.ofText?`: pointers as lists of steps.
* `Json.step?`: the member of an object, or the item of an array under its
  number without leading zeros.
* `Json.at?`: the value that a pointer selects.
-/
import JsonTypes.Json.Basic
import JsonTypes.Text.Ascii
import JsonTypes.Text.Pieces

namespace JsonTypes

/-- The steps from a value to a value inside it. -/
structure Pointer where
  steps : List String
deriving DecidableEq, Repr

namespace Pointer

/-- A step as it is meant, of a step as it is written. -/
def unescape : List Char → List Char
  | [] => []
  | '~' :: '1' :: rest => '/' :: unescape rest
  | '~' :: '0' :: rest => '~' :: unescape rest
  | c :: rest => c :: unescape rest

/-- The pointer of a text. -/
def ofText? (text : String) : Option Pointer :=
  match pieces '/' text.toList with
  | [] | [[]] => some ⟨[]⟩
  | [] :: steps => some ⟨steps.map fun step => String.ofList (unescape step)⟩
  | _ => none

end Pointer

/-- The number that a step is, without sign and leading zeros. -/
def indexOfStep? (step : String) : Option Nat :=
  match step.toList with
  | [] => none
  | digits =>
    if digits.all Char.isDigit && (digits.length == 1 || digits.head? != some '0') then
      some (decimalValue digits)
    else none

namespace Json

/-- The value one step inside a value. -/
def step? (step : String) : Json → Option Json
  | .object members => members.find? step
  | .array items => (indexOfStep? step).bind items.get?
  | _ => none

/-- The value that a pointer selects. -/
def at? (v : Json) (pointer : Pointer) : Option Json :=
  pointer.steps.foldlM (fun v step => v.step? step) v

end Json

end JsonTypes
