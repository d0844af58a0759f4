/-
Errors.

There are two disjoint classes: a definition error says that a type description
is malformed, a validation error that a value does not match a well-formed type.

* `DefinitionError` and its `message`.
* `Reason`: what is wrong at the failing place; `Segment`, `pathText`: the place,
  outermost step first.
* `ValidationError`: a reason at a place.
* `CheckError`: either class, with its `tag`; `CheckError.within` moves a
  validation error one step further from the root and leaves a definition error
  as it is.
-/

namespace JsonTypes

/-! ### Tags -/

/-- The closed set of error tags. -/
inductive ErrorTag where
  | invalidType
  | arityMismatch
  | internal
  | undefinedNull
  | typeMismatch
  | expectedFields
  | invalidConstrField
  | expected
deriving DecidableEq, Repr

namespace ErrorTag

/-- The written form of a tag. -/
def text : ErrorTag → String
  | invalidType => "InvalidType"
  | arityMismatch => "ArityMismatch"
  | internal => "Internal"
  | undefinedNull => "UndefinedNull"
  | typeMismatch => "TypeMismatch"
  | expectedFields => "ExpectedFields"
  | invalidConstrField => "InvalidConstrField"
  | expected => "Expected"

/-- Whether a tag belongs to the definition errors. -/
def isDefinition : ErrorTag → Bool
  | invalidType | arityMismatch | internal => true
  | _ => false

end ErrorTag

/-! ### Definition errors -/

/-- A malformed type description. -/
inductive DefinitionError where
  /-- A type that cannot be used, and why. -/
  | invalidType (name reason : String)
  /-- An application to the wrong number of type arguments. -/
  | arityMismatch (name : String) (expected got : Nat)
  /-- A breach of an assumption of the walk over definitions. -/
  | internal (text : String)
deriving DecidableEq, Repr

namespace DefinitionError

/-- The tag of a definition error. -/
def tag : DefinitionError → ErrorTag
  | invalidType .. => .invalidType
  | arityMismatch .. => .arityMismatch
  | internal _ => .internal

/-- The message of a definition error. -/
def message : DefinitionError → String
  | invalidType name reason => s!"invalid type '{name}': {reason}"
  | arityMismatch name expected got =>
    s!"'{name}' expects {expected} type argument(s), got {got}"
  | internal text => "INTERNAL: " ++ text

end DefinitionError

/-! ### Validation errors -/

/-- What is wrong at the failing place. -/
inductive Reason where
  /-- Nothing where a value is required; the field is named if it is known. -/
  | undefinedNull (field : Option String)
  /-- A value of another kind. -/
  | typeMismatch (expected actual : String)
  /-- An object with other keys. -/
  | expectedFields (expected got : List String)
  /-- A discriminator that names no variant. -/
  | invalidConstrField (constr : String) (valid : List String)
  /-- Another container. -/
  | expected (expected actual : String)
deriving DecidableEq, Repr

namespace Reason

/-- The tag of a reason. -/
def tag : Reason → ErrorTag
  | undefinedNull _ => .undefinedNull
  | typeMismatch .. => .typeMismatch
  | expectedFields .. => .expectedFields
  | invalidConstrField .. => .invalidConstrField
  | expected .. => .expected

/-- Names separated by commas. -/
def listed (names : List String) : String :=
  String.intercalate ", " names

/-- The message of a reason. -/
def message : Reason → String
  | undefinedNull none => "undefined/null value"
  | undefinedNull (some field) => s!"'{field}' field is undefined/null"
  | typeMismatch wanted actual => s!"type mismatch: expected '{wanted}', got '{actual}'"
  | expectedFields wanted got =>
    "expected fields: (" ++ listed wanted ++ "), got (" ++ listed got ++ ")"
  | invalidConstrField constr valid =>
    s!"invalid constr field '{constr}', expected one of " ++ listed valid
  | expected container actual => s!"'{container}' expected, got '{actual}'"

end Reason

/-- One step from an enclosing value into a nested one. -/
inductive Segment where
  /-- The value of a field. -/
  | field (name : String)
  /-- The payload of a variant. -/
  | variant (name : String)
  /-- An item of an array. -/
  | index (position : Nat)
  /-- The value under a key of a dictionary. -/
  | key (name : String)
deriving DecidableEq, Repr

/-- The text of a step. -/
def Segment.text : Segment → String
  | .field name | .variant name | .key name => "." ++ name
  | .index position => s!"[{position}]"

/-- The text of the place that a list of steps leads to, outermost step first. -/
def pathText (path : List Segment) : String :=
  "$" ++ String.join (path.map Segment.text)

/-- A value that does not match: the place, outermost step first, and the
reason. -/
structure ValidationError where
  path : List Segment
  reason : Reason
deriving DecidableEq, Repr

/-- The message of a validation error. -/
def ValidationError.message (e : ValidationError) : String :=
  "at " ++ pathText e.path ++ ": " ++ e.reason.message

/-! ### Both classes -/

/-- The failure of a check. Types are expanded while a value is checked, so a
malformed description can still show then. -/
inductive CheckError where
  | definition (e : DefinitionError)
  | validation (e : ValidationError)
deriving DecidableEq, Repr

namespace CheckError

/-- The failure for a reason at the place that is being looked at. -/
def here (reason : Reason) : CheckError :=
  validation ⟨[], reason⟩

/-- The same failure seen from one step further out. -/
def within (step : Segment) : CheckError → CheckError
  | definition e => definition e
  | validation e => validation ⟨step :: e.path, e.reason⟩

/-- The tag of a failure. -/
def tag : CheckError → ErrorTag
  | definition e => e.tag
  | validation e => e.reason.tag

/-- The message of a failure. -/
def message : CheckError → String
  | definition e => e.message
  | validation e => e.message

end CheckError

end JsonTypes
