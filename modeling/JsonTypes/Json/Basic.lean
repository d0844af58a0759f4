/-
JSON values.

Objects are ordered tables: the order of the members is part of the value, and
no key occurs twice.

* `Json`, with `Json.induct` as its induction principle.
* `Json.Kind`, `Json.kind`: the runtime kind of a value. Arrays and objects are
  of the same kind; `Json.form` tells them apart.
* `Json.nodes`: the number of values inside a value, itself included.
* `Json.nestingLimit`: the depth at which documents are refused.
-/
import JsonTypes.Table
import JsonTypes.Json.Number

namespace JsonTypes

/-- A JSON value. -/
inductive Json where
  | null
  | boolean (b : Bool)
  | number (n : Number)
  | string (s : String)
  | array (items : Row Json)
  | object (members : Table Json)

namespace Json

/-- Induction over a value: a property holds of all values if it passes from
the items of an array to the array and from the members of an object to the
object. -/
@[induction_eliminator]
theorem induct {motive : Json → Prop} (null : motive .null)
    (boolean : ∀ b, motive (.boolean b)) (number : ∀ n, motive (.number n))
    (string : ∀ s, motive (.string s))
    (array : ∀ items : Row Json, (∀ i, motive (items.item i)) → motive (.array items))
    (object : ∀ members : Table Json, (∀ i, motive (members.entry i)) →
      motive (.object members))
    (v : Json) : motive v :=
  Json.rec (motive_1 := motive) (motive_2 := fun row => ∀ i, motive (row.item i))
    (motive_3 := fun table => ∀ i, motive (table.entry i))
    null boolean number string array object (fun _ _ ih => ih) (fun _ _ ih => ih) v

/-! ### Kinds -/

/-- The runtime kinds of values. -/
inductive Kind where
  | null
  | boolean
  | number
  | string
  | object
deriving DecidableEq, Repr

/-- The name of a kind. -/
def Kind.name : Kind → String
  | .null => "null"
  | .boolean => "boolean"
  | .number => "number"
  | .string => "string"
  | .object => "object"

/-- The kind of a value. Arrays count as objects. -/
def kind : Json → Kind
  | .null => .null
  | .boolean _ => .boolean
  | .number _ => .number
  | .string _ => .string
  | .array _ | .object _ => .object

/-- What a value is called where a particular container is expected. -/
def form : Json → String
  | .array _ => "array"
  | v => v.kind.name

/-- Whether a value is null, which counts as absent. -/
def isNull : Json → Bool
  | .null => true
  | _ => false

/-- The object of a list of members: a repeated key keeps its first place and
takes its last value. -/
def ofMembers (members : List (String × Json)) : Json :=
  .object (Table.ofList members)

/-- The array of a list of items. -/
def ofItems (items : List Json) : Json :=
  .array (Row.ofList items)

/-- The number of values inside a value, itself included. -/
def nodes : Json → Nat
  | .array ⟨_, item⟩ => (List.ofFn fun i => (item i).nodes).sum + 1
  | .object ⟨_, entry⟩ => (List.ofFn fun i => (entry i).nodes).sum + 1
  | _ => 1

/-- The number of arrays and objects, one inside the other, at which documents are
refused. -/
def nestingLimit : Nat := 128

end Json

end JsonTypes
