/-
Filters: what documents are put through before they are checked.

A filter yields outputs for a value, one after another: each is the text of a
value, or an error. The language in which filters are written, and what each of
them does, belong to the surroundings of a run.

* `Filter`: the outputs for every value.
* `Filter.documents`: the values of the outputs, in order and all of them, or the
  first fault.
* `FilterFault`: why there are no such values.
-/
import JsonTypes.Json.Reader

namespace JsonTypes

/-- A filter, given by its outputs for every value. -/
structure Filter where
  outputs : Json → List (Except String String)

/-! ### Faults -/

/-- A name that nothing defines, with the sort of thing that is missing, and the
text in which the name stands. -/
structure UndefinedName where
  name : String
  sort : String
  source : String
deriving DecidableEq, Repr

/-- Why a filter yields no documents. -/
inductive FilterFault where
  /-- The text is no filter: errors, each with the text in which it is found. -/
  | malformed (errors : List (String × String))
  /-- The text uses names that are not known. -/
  | undefined (names : List UndefinedName)
  /-- The output at a position is an error. -/
  | failed (position : Nat) (error : String)
  /-- The output at a position is not the text of a value. -/
  | notJson (position : Nat) (e : ReadError)

namespace FilterFault

/-- The message of a fault. -/
def message : FilterFault → String
  | malformed errors =>
    "\n".intercalate (errors.map fun (error, source) => s!"parse error: {error} in `{source}`")
  | undefined names =>
    "\n".intercalate (names.map fun u => s!"undefined `{u.name}`: {u.sort} in `{u.source}`")
  | failed position error => s!"jq output #{position}: {error}"
  | notJson position _ => s!"jq output #{position} is not JSON"

/-- The messages of a fault and of what it goes back to. -/
def causes (fault : FilterFault) : List String :=
  fault.message :: match fault with
    | notJson _ e => [e.message]
    | _ => []

end FilterFault

/-! ### Documents -/

namespace Filter

/-- The values of outputs, the first of which stands at a position. -/
def readOutputs (position : Nat) : List (Except String String) → Except FilterFault (List Json)
  | [] => .ok []
  | .error error :: _ => .error (.failed position error)
  | .ok text :: later => do
    let v ← (Json.ofText Json.nestingLimit text).mapError (.notJson position)
    let values ← readOutputs (position + 1) later
    pure (v :: values)

/-- The values that a filter yields. -/
def documents (filter : Filter) (v : Json) : Except FilterFault (List Json) :=
  readOutputs 0 (filter.outputs v)

end Filter

end JsonTypes
