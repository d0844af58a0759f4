/-
The check of a value against a type.

The recursion follows the value: every expansion of an instance is followed by a
step into the value, so the check ends also where types expand without end. The
check of an array or object hands the checks of its parts to a check of one
layer, which recurses over the type.

* `Part`, `Layer`: a value as one layer of parts that know how to be checked.
* `Table.checkFields`: exact field sets; `Table.checkVariant`: tagged values.
* `Ty.checkLayer`: the check of one layer, `Json.check` the check of a value.
* `check`: the check of a value that is handed back if it matches.
-/
import JsonTypes.Config.Basic
import JsonTypes.Family
import JsonTypes.Trace

namespace JsonTypes

/-- The outcome of a check. -/
abbrev Verdict : Type := Traced CheckError Unit

/-- The verdict that something is wrong at the place being looked at. -/
def Verdict.wrong (reason : Reason) : Verdict :=
  Traced.fail (.here reason)

/-- The same verdict seen from one step further out. -/
def Verdict.within (step : Segment) (verdict : Verdict) : Verdict :=
  verdict.mapError (.within step)

/-! ### Layers -/

/-- A part of a value, and how it is checked. -/
structure Part where
  value : Json
  check : Ty → Verdict

/-- The parts of a value. -/
inductive Layer where
  | scalar
  | items (row : Row Part)
  | members (table : Table Part)

/-- The reason why a value is not of an expected kind. -/
def mismatch (wanted : String) (v : Json) : Reason :=
  .typeMismatch wanted v.kind.name

/-- The reason why a value that has to be present is not of an expected kind. -/
def absentOr (v : Json) (reason : Reason) : Reason :=
  if v.isNull then .undefinedNull none else reason

/-- The members of a value that has to be an object. An array is the wrong
container, a scalar the wrong kind. -/
def Layer.keyed (v : Json) : Layer → Except Reason (Table Part)
  | .members table => .ok table
  | .items _ => .error (.expected "object" v.form)
  | .scalar => .error (absentOr v (mismatch "object" v))

/-! ### Objects -/

/-- Whether an object has exactly the declared keys. -/
def Table.sameKeys {α β : Type} (members : Table α) (fields : Table β) : Bool :=
  members.size == fields.size && fields.names.toList.all members.contains

/-- The check of one field. It may be null only if its type is optional. -/
def Part.checkField (name : String) (t : Ty) (part : Part) : Verdict :=
  if part.value.isNull && !t.isOptional then .wrong (.undefinedNull (some name))
  else (part.check t).within (.field name)

/-- The check of an object against named fields: the keys are the declared ones,
and the fields match in the order of their declaration. -/
def Table.checkFields (members : Table Part) (fields : Table Ty) : Verdict :=
  if members.sameKeys fields then
    Traced.forEach (fun i =>
      match members.find? (fields.name i) with
      | some part => part.checkField (fields.name i) (fields.entry i)
      | none => pure ()) fields.indices
  else .wrong (.expectedFields fields.names.toList members.names.toList)

/-- The check of an object against the variants of a schema: the discriminator
names a variant, the one other member is its payload. -/
def Table.checkVariant (discriminator : String) (members : Table Part)
    (variants : Table Ty) : Verdict :=
  match (members.find? discriminator).map Part.value with
  | none | some .null => .wrong (.undefinedNull (some discriminator))
  | some (.string constr) =>
    match variants.find? constr with
    | none => .wrong (.invalidConstrField constr variants.names.toList)
    | some shape =>
      match members.find? constr with
      | some payload =>
        if members.size ≠ 2 then
          .wrong (.expectedFields [discriminator, constr] members.names.toList)
        else if payload.value.isNull then .wrong (.undefinedNull (some constr))
        else (payload.check shape).within (.variant constr)
      | none => .wrong (.expectedFields [discriminator, constr] members.names.toList)
  | some tag => (Verdict.wrong (mismatch "string" tag)).within (.field discriminator)

/-! ### Values -/

/-- The check of a value with the given parts against a type. -/
def Ty.checkLayer (bodies : Family) (discriminator : String) (v : Json) (layer : Layer) :
    Ty → Verdict
  | .primitive p =>
    if p.holds v then pure () else .wrong (absentOr v (mismatch p.name v))
  | .container .optional t =>
    if v.isNull then pure () else t.checkLayer bodies discriminator v layer
  | .container .repeated t =>
    match layer with
    | .items row =>
      Traced.forEach (fun i => ((row.item i).check t).within (.index i)) (List.finRange _)
    | _ => .wrong (absentOr v (.expected "array" v.form))
  | .container .map t =>
    match layer.keyed v with
    | .error reason => .wrong reason
    | .ok members =>
      Traced.forEach (fun i => ((members.entry i).check t).within (.key (members.name i)))
        members.indices
  | .fields declared =>
    match layer.keyed v with
    | .error reason => .wrong reason
    | .ok members => members.checkFields declared
  | .inst i => do
    Traced.report (.expandingForCheck i)
    let d ← Traced.of ((bodies.describe i).mapError .definition)
    match layer.keyed v with
    | .error reason => Verdict.wrong reason
    | .ok members =>
      match d.kind with
      | .record => members.checkFields d.entries
      | .schema => members.checkVariant discriminator d.entries
  | .param index => .wrong (absentOr v (mismatch (placeholderText index) v))

/-- The check of a value against a type. Null stands for an absent value. -/
def Json.check (bodies : Family) (discriminator : String) : Json → Ty → Verdict
  | .array ⟨length, item⟩ =>
    Ty.checkLayer bodies discriminator (.array ⟨length, item⟩) <|
      .items ⟨length, fun i => ⟨item i, (item i).check bodies discriminator⟩⟩
  | .object ⟨names, entry⟩ =>
    Ty.checkLayer bodies discriminator (.object ⟨names, entry⟩) <|
      .members ⟨names, fun i => ⟨entry i, (entry i).check bodies discriminator⟩⟩
  | v => Ty.checkLayer bodies discriminator v .scalar

/-- A verdict with its failure reported. -/
def Verdict.reported (t : Ty) (verdict : Verdict) : Verdict :=
  match verdict.result with
  | .ok () => verdict
  | .error error => ⟨verdict.events ++ [.failed t error], .error error⟩

/-- Checks a value against a type and hands it back if it matches. -/
def check (bodies : Family) (config : Config) (t : Ty) (v : Json) : Traced CheckError Json := do
  ((v.check bodies config.discriminator t).reported t).shown config.debug
  pure v

end JsonTypes
