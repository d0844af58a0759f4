/-
Workspaces: what has been registered, bound and configured so far.

The body of a factory refers to the registry and to the bindings of the
workspace at the time at which an instance is expanded, so all bodies together
form one family that depends on the workspace.

* `Workspace`, `Workspace.start`: the state, with the ready-made definitions.
* `Workspace.family`: the bodies of all factories. A body that looks into the
  definition of a factory validates it first, with the family one level down;
  there is one level for each factory, since the definition of a factory cannot
  be looked into while it is being looked into.
* `Workspace.eval`: the type of a template outside of any body.
* `Workspace.register`, `Workspace.bind`, `Workspace.define`: new factories, types
  and qualified schemas.
-/
import JsonTypes.Definition.Walk
import JsonTypes.Prelude
import JsonTypes.QualifiedSchema
import JsonTypes.TypeText.Resolve

namespace JsonTypes

/-- What has been registered, bound and configured so far. -/
structure Workspace where
  config : Config
  registry : Registry
  /-- The body of the factory with serial number `n` stands at place `n`. -/
  bodies : Array Body
  bindings : Table Ty
  schemas : Table QualifiedSchema

namespace Workspace

/-- The workspace before anything has been done. The ready-made factories exist
also where they are not registered. -/
def start (config : Config) (prelude : Bool) : Workspace where
  config := config
  registry := if prelude then Prelude.registry else .empty
  bodies := (Prelude.definitions.map Definition.body).toArray
  bindings := .empty
  schemas := .empty

/-! ### Bodies -/

/-- What a template can refer to in a workspace. -/
def scope (w : Workspace) (entryOf : Factory → String → Except DefinitionError Ty)
    (this : Option Instance) : Scope :=
  ⟨w.registry, w.bindings, entryOf, this⟩

/-- The entry of a description. -/
def entryIn (d : Description) (key : String) : Except DefinitionError Ty :=
  match d.entries.find? key with
  | some t => .ok t
  | none => .error (.invalidType d.name s!"no entry '{key}'")

/-- The entry of a definition that is validated with the given bodies first. -/
def entryWith (bodies : Family) (f : Factory) (key : String) : Except DefinitionError Ty := do
  let d ← (validate bodies .standard f).result
  entryIn d key

/-- What an instance expands to when bodies look into definitions by `entryOf`. -/
def expansion (w : Workspace) (entryOf : Factory → String → Except DefinitionError Ty) :
    Family := fun i =>
  match w.bodies[i.factory.serial]? with
  | some body => body.eval (w.scope entryOf (some i))
  | none => .error (.internal ("no body for " ++ i.text))

/-- The bodies when definitions can be looked into at the given number of
levels. -/
def familyAt (w : Workspace) : Nat → Family
  | 0 => w.expansion fun f _ => .error (.internal ("definition of " ++ f.name ++ " refers to itself"))
  | level + 1 => w.expansion (entryWith (w.familyAt level))

/-- The bodies of all factories. -/
def family (w : Workspace) : Family :=
  w.familyAt w.bodies.size

/-! ### Operations -/

/-- The type of a template outside of any body. -/
def eval (w : Workspace) (t : Template) : Except DefinitionError Ty :=
  t.eval (w.scope (entryWith w.family) none)

/-- Registers a new factory; the factory that held its name before comes with
the new workspace. -/
def register (w : Workspace) (name : String) (kind : Factory.Kind) (arity : Nat)
    (body : Body) : Option Factory × Workspace :=
  let (replaced, registry) := w.registry.register ⟨w.bodies.size, name, kind, arity⟩
  (replaced, { w with registry, bodies := w.bodies.push body })

/-- Binds a type to a name. -/
def bind (w : Workspace) (name : String) (t : Ty) : Workspace :=
  { w with bindings := w.bindings.put name t }

/-- Keeps a qualified schema under its name. -/
def define (w : Workspace) (s : QualifiedSchema) : Workspace :=
  { w with schemas := w.schemas.put s.name s }

/-- The type of a text. -/
def typeOfText (w : Workspace) (text : String) : Except TypeTextError Ty :=
  Ty.ofText w.registry text

/-- The description of an instance. -/
def describe (w : Workspace) (i : Instance) : Except DefinitionError Description :=
  w.family.describe i

/-- Validates the definition of a registered factory. -/
def validate (w : Workspace) (name : String) :
    Except DefinitionError (Traced DefinitionError Description) :=
  (w.registry.get name).map (JsonTypes.validate w.family w.config)

/-- Checks a value against a type. -/
def check (w : Workspace) (t : Ty) (v : Json) : Traced CheckError Json :=
  JsonTypes.check w.family w.config t v

/-- Checks a value against a qualified schema. -/
def checkQualified (w : Workspace) (s : QualifiedSchema) (v : Json) : Traced CheckError Json :=
  s.check w.family w.config v

end Workspace

end JsonTypes
