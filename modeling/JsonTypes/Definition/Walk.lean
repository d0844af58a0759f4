/-
The walk over a definition: is it well-formed before any value is seen?

The factory is applied to placeholders and everything that the instance expands
to is walked. Entering an optional, repeated or map type, or a variant of a
schema, is a guard. An instance that is met again while it is open ends its
branch: behind a guard that is fine, and without one it is an error, since a
required field would contain its own record. A finished instance is not expanded
again while every open instance is behind a guard.

* `Trail`: the open instances, split at the last guard.
* `Ty.walk`: the walk over one type, `expand` the expansion of an instance.
* `validate`: the walk over the definition of a factory.
-/
import JsonTypes.Config.Basic
import JsonTypes.Family
import JsonTypes.Trace
import JsonTypes.Ty.Equality

namespace JsonTypes

/-! ### Open and finished instances -/

/-- The instances that are open at a point of a walk, innermost first: those
entered since the last guard and those entered before it. -/
structure Trail where
  bare : List Instance
  guarded : List Instance

namespace Trail

/-- The number of open instances. -/
def depth (trail : Trail) : Nat := trail.bare.length + trail.guarded.length

/-- The trail behind a guard. -/
def guard (trail : Trail) : Trail := ⟨[], trail.bare ++ trail.guarded⟩

/-- The trail inside an instance. The variants of a schema are alternatives, so
entering a schema is a guard. -/
def enter (trail : Trail) (i : Instance) : Trail :=
  match i.factory.kind with
  | .record => ⟨i :: trail.bare, trail.guarded⟩
  | .schema => guard ⟨i :: trail.bare, trail.guarded⟩

end Trail

/-- Whether an instance is in a list, up to the order of fields. -/
def Application.isIn (i : Instance) (list : List Instance) : Bool :=
  list.any fun j => j.same i

/-! ### Errors of the walk -/

/-- More instances would be open than the limit allows. -/
def tooDeep (root i : Instance) (limit : Nat) : DefinitionError :=
  .invalidType root.text <|
    s!"expansion nests deeper than {limit} instantiations (at " ++ i.text ++
      "); recursion must reuse the same type arguments"

/-- An instance contains itself through required fields alone. -/
def unguarded (i : Instance) : DefinitionError :=
  .invalidType i.text <|
    "required field recurses into its own record with no " ++
      "Optional/Repeated/Map or schema variant in between"

/-- A placeholder that is none of the placeholders of the root. -/
def escaped (root : Instance) (index : Nat) : DefinitionError :=
  .internal <|
    "type parameter '" ++ placeholderText index ++
      "' escaped its definition (walking " ++ root.text ++ ")"

/-! ### The walk -/

/-- The walk over one type. `expand` expands the instances that have to be
expanded; `finished` are the instances that have been. -/
def Ty.walk (root : Instance)
    (expand : Trail → Instance → List Instance → Traced DefinitionError (List Instance)) :
    Ty → Trail → List Instance → Traced DefinitionError (List Instance)
  | .primitive _, _, finished => pure finished
  | .container _ t, trail, finished => t.walk root expand trail.guard finished
  | .fields ⟨_, entry⟩, trail, finished =>
    Traced.thread (fun i => (entry i).walk root expand trail) (List.finRange _) finished
  | .param index, _, finished =>
    if index < root.factory.arity then pure finished else Traced.fail (escaped root index)
  | .inst i, trail, finished =>
    if i.isIn trail.bare then Traced.fail (unguarded i)
    else if i.isIn trail.guarded then
      (Traced.report (.inProgress i)).bind fun _ => pure finished
    else if trail.bare.isEmpty && i.isIn finished then pure finished
    else expand trail i finished

/-- The walk over the entries of a description. -/
def Description.walk (root : Instance)
    (expand : Trail → Instance → List Instance → Traced DefinitionError (List Instance))
    (d : Description) (trail : Trail) (finished : List Instance) :
    Traced DefinitionError (List Instance) :=
  Traced.thread (fun i => (d.entries.entry i).walk root expand trail) d.entries.indices finished

/-- The expansion of an instance that is not open, below the open instances of a
trail: its description and the instances that are finished afterwards. `room` is
the number of instances that may be entered yet. -/
def expand (bodies : Family) (root : Instance) (limit : Nat) :
    (room : Nat) → Trail → Instance → List Instance →
      Traced DefinitionError (Description × List Instance)
  | 0, _, i, _ => Traced.fail (tooDeep root i limit)
  | room + 1, trail, i, finished => do
    Traced.report (.expanding i trail.depth)
    let d ← Traced.of (bodies.describe i)
    let finished ← d.walk root
      (fun trail i finished => do
        let (_, finished) ← expand bodies root limit room trail i finished
        pure finished)
      (trail.enter i) finished
    pure (d, i :: finished)

/-- The walk over the definition of a factory: its description at placeholders
if the definition is well-formed. -/
def Factory.walk (bodies : Family) (limit : Nat) (f : Factory) :
    Traced DefinitionError Description := do
  let (d, _) ← expand bodies f.generic limit limit ⟨[], []⟩ f.generic []
  Traced.report (.wellFormed d)
  pure d

/-- Validates the definition of a factory. -/
def validate (bodies : Family) (config : Config) (f : Factory) :
    Traced DefinitionError Description :=
  (f.walk bodies config.maxDepth).shown config.debug

end JsonTypes
