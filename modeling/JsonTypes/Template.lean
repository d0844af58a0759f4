/-
Templates: type expressions into which arguments are placed.

The body of a factory is a list of named templates. It is evaluated whenever an
instance of the factory is expanded, in order, up to the first error.

* `Template`: primitives by name, containers, field mappings, arguments, the
  factory being defined, factories, names that are looked up, and the entries of
  other definitions.
* `Scope`: what a template can refer to.
* `Template.eval`: the type of a template; arguments are evaluated before what
  they are applied to.
* `Template.evalFields`: named templates; a repeated name keeps its first place
  and its last type.
-/
import JsonTypes.Registry

namespace JsonTypes

/-- A type expression with places for arguments. -/
inductive Template where
  /-- A primitive, by name. -/
  | primitive (name : String)
  /-- A container of one type. -/
  | container (c : Container) (arg : Template)
  /-- A container applied to any number of types. -/
  | containerOf (c : Container) (args : List Template)
  /-- A field mapping. -/
  | fields (entries : List (String × Template))
  /-- An argument of the factory being defined. -/
  | arg (index : Nat)
  /-- The factory being defined, applied. -/
  | this (args : List Template)
  /-- A factory, applied. -/
  | factory (f : Factory) (args : List Template)
  /-- The factory that is registered under a name, applied. -/
  | ref (name : String) (args : List Template)
  /-- An entry of the definition of a registered factory, at placeholders. -/
  | entry (owner key : String)
  /-- A type bound to a name. -/
  | bound (name : String)

/-- What a template can refer to. -/
structure Scope where
  /-- The registered factories. -/
  registry : Registry
  /-- The types bound to names. -/
  bindings : Table Ty
  /-- The entry of a validated definition. -/
  entryOf : Factory → String → Except DefinitionError Ty
  /-- The factory being defined, with its arguments. -/
  this : Option Instance

namespace Scope

/-- An argument of the factory being defined. -/
def arg (scope : Scope) (index : Nat) : Except DefinitionError Ty :=
  match scope.this.bind fun i => i.args[index]? with
  | some t => .ok t
  | none => .error (.invalidType s!"argument {index}" "unknown type argument")

/-- The factory being defined, applied. -/
def applyThis (scope : Scope) (args : List Ty) : Except DefinitionError Ty :=
  match scope.this with
  | some i => (i.factory.apply args).map .inst
  | none => .error (.invalidType "this" "no factory is being defined")

/-- A type bound to a name. -/
def bound (scope : Scope) (name : String) : Except DefinitionError Ty :=
  match scope.bindings.find? name with
  | some t => .ok t
  | none => .error (.invalidType name "unknown type name")

end Scope

namespace Template

mutual

/-- The type of a template. -/
def eval (scope : Scope) : Template → Except DefinitionError Ty
  | .primitive name => Ty.ofPrimitiveName name
  | .container c t => do
    let type ← t.eval scope
    pure (.container c type)
  | .containerOf c args => do
    let types ← evalAll scope args
    c.apply types
  | .fields entries => do
    let types ← evalFields scope entries
    pure (.fields (Table.ofList types))
  | .arg index => scope.arg index
  | .this args => do
    let types ← evalAll scope args
    scope.applyThis types
  | .factory f args => do
    let types ← evalAll scope args
    (f.apply types).map .inst
  | .ref name args => do
    let types ← evalAll scope args
    scope.registry.apply name types
  | .entry owner key => do
    let f ← scope.registry.get owner
    scope.entryOf f key
  | .bound name => scope.bound name

/-- The types of templates, in order. -/
def evalAll (scope : Scope) : List Template → Except DefinitionError (List Ty)
  | [] => pure []
  | t :: rest => do
    let type ← t.eval scope
    let types ← evalAll scope rest
    pure (type :: types)

/-- The types of named templates, in order. -/
def evalFields (scope : Scope) :
    List (String × Template) → Except DefinitionError (List (String × Ty))
  | [] => pure []
  | (name, t) :: rest => do
    let type ← t.eval scope
    let types ← evalFields scope rest
    pure ((name, type) :: types)

end

/-- The field mapping without fields. -/
def unit : Template := .fields []

end Template

/-- The body of a factory: its fields or variants. -/
abbrev Body : Type := List (String × Template)

/-- The entries that a body yields. -/
def Body.eval (scope : Scope) (body : Body) : Except DefinitionError (Table Ty) :=
  (Template.evalFields scope body).map Table.ofList

end JsonTypes
