/-
Qualified schemas: objects whose fields are required, optional or repeated.

Fields that are not declared are ignored, and an optional field may be missing
or null. A field may refer to the schema being defined and to schemas built
before.

* `QualifiedSchema`, `QualifiedSchema.build`: a required field of the schema's
  own type could never be finite and is rejected.
* `Subject`, `Slot`: a value that can be looked at as an object, and as an array
  of such values.
* `QualifiedSchema.checkMembers`: the check of an object; fields are checked in
  the order of their declaration, repeated names again.
* `QualifiedSchema.check`: the check of a value.
-/
import JsonTypes.Check

namespace JsonTypes

/-! ### Schemas -/

/-- How often a field has to occur. -/
inductive Qualifier where
  /-- Present and not null. -/
  | required
  /-- Possibly missing or null. -/
  | optional
  /-- A possibly empty array. -/
  | repeated
deriving DecidableEq, Repr

/-- What the value of a field is checked against, where `σ` are the schemas that
may be referred to. -/
inductive Target (σ : Type) where
  | type (t : Ty)
  | schema (s : σ)
  | self

/-- Whether a target is the schema being defined. -/
def Target.isSelf {σ : Type} : Target σ → Bool
  | .self => true
  | _ => false

/-- A declared field. -/
structure QualifiedField (σ : Type) where
  name : String
  qualifier : Qualifier
  target : Target σ

/-- A name and the declared fields. -/
inductive QualifiedSchema where
  | mk (name : String) (fields : List (QualifiedField QualifiedSchema))

namespace QualifiedSchema

/-- The name of a schema. -/
def name : QualifiedSchema → String
  | mk name _ => name

/-- The declared fields of a schema. -/
def fields : QualifiedSchema → List (QualifiedField QualifiedSchema)
  | mk _ fields => fields

/-- The first required field whose target is the schema itself. -/
def requiredSelf? (fields : List (QualifiedField QualifiedSchema)) :
    Option (QualifiedField QualifiedSchema) :=
  fields.find? fun field => field.qualifier == .required && field.target.isSelf

/-- The schema with the given fields, none of which may require the schema. -/
def build (name : String) (fields : List (QualifiedField QualifiedSchema)) :
    Except DefinitionError QualifiedSchema :=
  match requiredSelf? fields with
  | some field =>
    .error (.invalidType (name ++ "." ++ field.name)
      "required fields can not be used recursively")
  | none => .ok (mk name fields)

end QualifiedSchema

/-! ### Checking -/

/-- A value, and its check as an object of a schema. -/
structure Subject where
  value : Json
  asObject : QualifiedSchema → Verdict

/-- The value of a field, and its items if it is an array. -/
structure Slot extends Subject where
  items : Option (Row Subject)

/-- The check of a value against a target, `self` being the schema around it. -/
def Subject.checkTarget (bodies : Family) (discriminator : String) (self : QualifiedSchema)
    (target : Target QualifiedSchema) (subject : Subject) : Verdict :=
  match target with
  | .type t => subject.value.check bodies discriminator t
  | .schema s => subject.asObject s
  | .self => subject.asObject self

/-- The check of the value of a field, which is neither missing nor null. -/
def Slot.checkPresent (bodies : Family) (discriminator : String) (self : QualifiedSchema)
    (field : QualifiedField QualifiedSchema) (slot : Slot) : Verdict :=
  match field.qualifier with
  | .required | .optional =>
    slot.toSubject.checkTarget bodies discriminator self field.target
  | .repeated =>
    match slot.items with
    | some row =>
      Traced.forEach (fun i =>
        ((row.item i).checkTarget bodies discriminator self field.target).within (.index i))
        (List.finRange _)
    | none => .wrong (.expected "array" slot.value.kind.name)

namespace QualifiedSchema

/-- The check of one declared field of an object. -/
def checkField (bodies : Family) (discriminator : String) (self : QualifiedSchema)
    (members : Table Slot) (field : QualifiedField QualifiedSchema) : Verdict :=
  match (members.find? field.name).filter fun slot => !slot.value.isNull with
  | some slot => slot.checkPresent bodies discriminator self field
  | none =>
    match field.qualifier with
    | .optional => pure ()
    | .required | .repeated => .wrong (.undefinedNull none)

/-- The check of an object. -/
def checkMembers (bodies : Family) (discriminator : String) (members : Table Slot)
    (self : QualifiedSchema) : Verdict :=
  Traced.forEach (fun field =>
    (self.checkField bodies discriminator members field).within (.field field.name))
    self.fields

/-- The verdict on a value that is no object. -/
def notObject (v : Json) (self : QualifiedSchema) : Verdict :=
  .wrong (mismatch self.name v)

end QualifiedSchema

/-- A value as the value of a field. -/
def Json.slot (bodies : Family) (discriminator : String) : Json → Slot
  | .object ⟨names, entry⟩ =>
    { value := .object ⟨names, entry⟩
      asObject := QualifiedSchema.checkMembers bodies discriminator
        ⟨names, fun i => (entry i).slot bodies discriminator⟩
      items := none }
  | .array ⟨length, item⟩ =>
    { value := .array ⟨length, item⟩
      asObject := QualifiedSchema.notObject (.array ⟨length, item⟩)
      items := some ⟨length, fun i => ((item i).slot bodies discriminator).toSubject⟩ }
  | v => { value := v, asObject := QualifiedSchema.notObject v, items := none }

/-- Checks a value against a schema and hands it back if it matches. -/
def QualifiedSchema.check (bodies : Family) (config : Config) (self : QualifiedSchema)
    (v : Json) : Traced CheckError Json := do
  ((v.slot bodies config.discriminator).asObject self).shown config.debug
  pure v

end JsonTypes
