/-
Type expressions: the description of an expected shape.

* `Primitive`, `Container`: the closed sets of primitives and of containers.
* `Factory`: a record or schema that takes type arguments. A factory is known
  by its serial number: two factories of one name are different.
* `Ty`: types. An application of a factory has as many arguments as the factory
  takes, and a field mapping has pairwise different names, by construction.
* `Instance`: a factory with its arguments; `Factory.apply` counts them.
* `Description`: what an instance expands to.
* `Ty.induct`: induction over types.
-/
import JsonTypes.Error
import JsonTypes.Json.Basic

namespace JsonTypes

/-! ### Primitives and containers -/

/-- The primitive types. -/
inductive Primitive where
  | number
  | string
  | boolean
  | object
deriving DecidableEq, Repr

namespace Primitive

/-- The primitives in the order in which messages list them. -/
def all : List Primitive := [number, string, boolean, object]

/-- The runtime kind that a primitive stands for. -/
def kind : Primitive → Json.Kind
  | number => .number
  | string => .string
  | boolean => .boolean
  | object => .object

/-- The name of a primitive. -/
def name (p : Primitive) : String := p.kind.name

/-- The primitive of a name. -/
def ofName? (name : String) : Option Primitive :=
  all.find? fun p => p.name == name

/-- Whether a value is of the kind of a primitive. -/
def holds (p : Primitive) (v : Json) : Bool :=
  v.kind == p.kind

end Primitive

/-- The containers: each takes one type argument. -/
inductive Container where
  | optional
  | repeated
  | map
deriving DecidableEq, Repr

namespace Container

/-- The containers. -/
def all : List Container := [optional, repeated, map]

/-- The name of a container. -/
def name : Container → String
  | optional => "Optional"
  | repeated => "Repeated"
  | map => "Map"

/-- The container of a name. -/
def ofName? (name : String) : Option Container :=
  all.find? fun c => c.name == name

end Container

/-! ### Factories -/

/-- The two kinds of factories: a record requires all its fields, a schema
exactly one of its variants. -/
inductive Factory.Kind where
  | record
  | schema
deriving DecidableEq, Repr

/-- The keyword of a kind of factories. -/
def Factory.Kind.keyword : Factory.Kind → String
  | .record => "record"
  | .schema => "schema"

/-- A record or schema that takes `arity` type arguments. -/
structure Factory where
  serial : Nat
  name : String
  kind : Factory.Kind
  arity : Nat
deriving DecidableEq, Repr

/-- A factory with as many arguments as it takes. -/
structure Application (α : Type) where
  factory : Factory
  arg : Fin factory.arity → α

/-- The arguments in order. -/
def Application.args {α : Type} (a : Application α) : List α :=
  List.ofFn a.arg

/-! ### Types -/

/-- A type expression. -/
inductive Ty where
  | primitive (p : Primitive)
  | container (c : Container) (arg : Ty)
  /-- Named fields, as in the payload of a variant. -/
  | fields (entries : Table Ty)
  /-- A factory applied to type arguments. -/
  | inst (i : Application Ty)
  /-- The stand-in for a type argument while a definition is looked at. -/
  | param (index : Nat)

/-- A factory applied to types. -/
abbrev Instance : Type := Application Ty

/-- What an instance expands to: the types of its fields or variants. -/
structure Description where
  name : String
  kind : Factory.Kind
  entries : Table Ty

namespace Ty

/-- Induction over types: a property holds of all types if it passes from the
parts of a type to the type. -/
@[induction_eliminator]
theorem induct {motive : Ty → Prop} (primitive : ∀ p, motive (.primitive p))
    (container : ∀ c arg, motive arg → motive (.container c arg))
    (fields : ∀ entries : Table Ty, (∀ i, motive (entries.entry i)) → motive (.fields entries))
    (inst : ∀ i : Instance, (∀ k, motive (i.arg k)) → motive (.inst i))
    (param : ∀ index, motive (.param index)) (t : Ty) : motive t :=
  Ty.rec (motive_1 := motive) (motive_2 := fun table => ∀ i, motive (table.entry i))
    (motive_3 := fun a => ∀ k, motive (a.arg k))
    primitive container fields inst param (fun _ _ ih => ih) (fun _ _ ih => ih) t

/-- The type of numbers. -/
def number : Ty := .primitive .number

/-- The type of strings. -/
def string : Ty := .primitive .string

/-- The type of truth values. -/
def boolean : Ty := .primitive .boolean

/-- The type of all objects and arrays. -/
def object : Ty := .primitive .object

/-- A value that may be absent. -/
def optional (t : Ty) : Ty := .container .optional t

/-- An array of values. -/
def repeated (t : Ty) : Ty := .container .repeated t

/-- A dictionary of values. -/
def map (t : Ty) : Ty := .container .map t

/-- The field mapping without fields. -/
def unit : Ty := .fields .empty

/-- Whether a value of the type may be absent. -/
def isOptional : Ty → Bool
  | .container .optional _ => true
  | _ => false

/-- The primitive type of a name. -/
def ofPrimitiveName (name : String) : Except DefinitionError Ty :=
  match Primitive.ofName? name with
  | some p => .ok (.primitive p)
  | none => .error (.invalidType name "expected one of number, string, boolean, object")

end Ty

/-- A container applied to a list of types, which has to have one type. -/
def Container.apply (c : Container) : List Ty → Except DefinitionError Ty
  | [t] => .ok (.container c t)
  | args => .error (.arityMismatch c.name 1 args.length)

/-- A container is applied to exactly one type. -/
theorem Container.apply_ok {c : Container} {args : List Ty} {t : Ty} :
    c.apply args = .ok t ↔ ∃ arg, args = [arg] ∧ t = .container c arg := by
  match args with
  | [] => simp [apply]
  | [arg] => simp [apply, eq_comm]
  | _ :: _ :: _ => simp [apply]

/-- A factory applied to a list of types, which has to have as many types as
the factory takes. -/
def Factory.apply (f : Factory) (args : List Ty) : Except DefinitionError Instance :=
  let stored := args.toArray
  if h : stored.size = f.arity then .ok ⟨f, fun i => stored[i.cast h.symm]⟩
  else .error (.arityMismatch f.name f.arity args.length)

/-- The types that a factory is applied to become its arguments, in order. -/
theorem Factory.apply_ok {f : Factory} {args : List Ty} {i : Instance} :
    f.apply args = .ok i ↔ i.factory = f ∧ i.args = args := by
  constructor
  · intro h
    simp only [apply] at h
    split at h
    · next hsize =>
      cases h
      refine ⟨rfl, List.ext_getElem ?_ ?_⟩
      · simpa [Application.args] using hsize.symm
      · simp [Application.args]
    · cases h
  · rintro ⟨rfl, rfl⟩
    have hsize : i.args.toArray.size = i.factory.arity := by simp [Application.args]
    have hargs : (fun k => i.args.toArray[k.cast hsize.symm]) = i.arg :=
      funext fun k => List.getElem_ofFn _
    simp only [apply, dif_pos hsize, hargs]

/-- A factory applied to its own placeholders. -/
def Factory.generic (f : Factory) : Instance :=
  ⟨f, fun i => .param i⟩

end JsonTypes
