/-
Selectors: filters that select parts of a value.

A selector takes a value to any number of values. A step that does not apply to
its value yields an error in their place.

* `Selector`, `Selector.outputs`: selectors and what they yield.
* `Selector.filter`: a selector as a filter.
* `Json.field`, `Json.item`, `Json.items`, `Json.size`: the single steps. A
  missing member or item is null; a step into a value of another kind fails.
* `StepFault`: why a step fails.
-/
import JsonTypes.Filter.Basic
import JsonTypes.Json.Printer

namespace JsonTypes

/-- A selector. -/
inductive Selector where
  /-- The value itself. -/
  | identity
  /-- The member under a key. -/
  | field (name : String)
  /-- The item at a position, counted from the end if it is negative. -/
  | index (position : Int)
  /-- All items, or the values of all members. -/
  | items
  /-- The size of the value. -/
  | length
  /-- No value. -/
  | empty
  /-- The second selector, put to every value that the first one yields. -/
  | pipe (first second : Selector)
  /-- The values of the first selector and those of the second one. -/
  | comma (first second : Selector)
deriving DecidableEq, Repr

/-- Why a step yields no value. -/
inductive StepFault where
  /-- A value of a kind into which the step does not lead. -/
  | cannot (action : String) (kind : Json.Kind)
  /-- A position that is out of the range of positions. -/
  | farPosition (position : Int)
deriving DecidableEq, Repr

/-- The message of a fault. -/
def StepFault.message : StepFault → String
  | cannot action kind => "cannot " ++ action ++ " of " ++ kind.name
  | farPosition position => s!"{position} is no position"

/-! ### Steps -/

namespace Json

/-- The member of an object under a key. -/
def field (name : String) : Json → Except StepFault Json
  | .object members => .ok ((members.find? name).getD .null)
  | v => .error (.cannot s!"take '{name}'" v.kind)

/-- The bound of positions, whose magnitude has 63 bits. -/
def positionBound : Nat := Nat.pow 2 63

/-- The item of an array at a position. -/
def item (position : Int) : Json → Except StepFault Json
  | .array items =>
    if position.natAbs < positionBound then
      let place := if position < 0 then position + items.length else position
      .ok (if place < 0 then .null else (items.get? place.toNat).getD .null)
    else .error (.farPosition position)
  | v => .error (.cannot "take an item" v.kind)

/-- The items of an array, or the values of the members of an object. -/
def items : Json → Except StepFault (List Json)
  | .array items => .ok items.toList
  | .object members => .ok members.entries
  | v => .error (.cannot "take the items" v.kind)

/-- The size of a value: the number of characters, items or members, the absolute
value of a number, zero for null. -/
def size : Json → Except StepFault Json
  | .null => .ok (.number (.integer 0))
  | .number (.integer n) => .ok (.number (.integer n.natAbs))
  | .number (.double x) => .ok (.number (.double x.abs))
  | .string s => .ok (.number (.integer s.length))
  | .array items => .ok (.number (.integer items.length))
  | .object members => .ok (.number (.integer members.size))
  | .boolean b => .error (.cannot "take the length" (Json.boolean b).kind)

end Json

/-! ### Outputs -/

namespace Selector

/-- The outputs behind an output: what a selector yields for its value, or the
same fault. -/
def after (next : Json → List (Except StepFault Json)) :
    Except StepFault Json → List (Except StepFault Json)
  | .ok v => next v
  | .error fault => [.error fault]

/-- What a selector yields. -/
def outputs : Selector → Json → List (Except StepFault Json)
  | identity, v => [.ok v]
  | field name, v => [v.field name]
  | index position, v => [v.item position]
  | items, v =>
    match v.items with
    | .ok values => values.map .ok
    | .error fault => [.error fault]
  | length, v => [v.size]
  | empty, _ => []
  | pipe first second, v => (first.outputs v).flatMap (after second.outputs)
  | comma first second, v => first.outputs v ++ second.outputs v

/-- A selector as a filter. -/
def filter (selector : Selector) : Filter where
  outputs v := (selector.outputs v).map fun output => (output.map Json.render).mapError (·.message)

/-- The selector that a word stands for. -/
def ofWord? (word : String) : Option Selector :=
  match word with
  | "length" => some length
  | "empty" => some empty
  | _ => none

end Selector

end JsonTypes
