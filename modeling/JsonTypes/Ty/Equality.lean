/-
Equality of types up to the order of fields.

* `Ty.same`: factories are compared by identity, field mappings as sets of named
  types, at every depth.
* `Ty.digest`: what a type feeds to a hasher. Of a field mapping only the number
  of its fields is fed, since their order is not part of the type.
* `Ty.distinct`: the number of different types in a list.
-/
import JsonTypes.Ty.Basic
import Std.Data.HashSet

namespace JsonTypes

namespace Ty

/-- Whether two types are equal up to the order of fields. -/
def same : Ty → Ty → Bool
  | .primitive p, .primitive q => p == q
  | .container c t, .container d u => c == d && t.same u
  | .fields ⟨names, entry⟩, .fields other =>
    names.toList.length == other.size &&
      (List.finRange _).all fun i =>
        match other.find? names.toList[i] with
        | some u => (entry i).same u
        | none => false
  | .inst ⟨f, arg⟩, .inst ⟨g, arg'⟩ =>
    if h : f = g then
      (List.finRange _).all fun k => (arg k).same (arg' (k.cast (congrArg Factory.arity h)))
    else false
  | .param i, .param j => i == j
  | _, _ => false

instance : BEq Ty := ⟨same⟩

/-- The numbers that a type feeds to a hasher: the shape of its head first, then
what the equality of heads compares, then the parts in order. -/
def digest : Ty → List Nat
  | .primitive p => [0, Primitive.all.idxOf p]
  | .container c t => 1 :: Container.all.idxOf c :: t.digest
  | .fields entries => [2, entries.size]
  | .inst ⟨f, arg⟩ =>
    3 :: f.serial :: f.arity :: (List.ofFn fun k => (arg k).digest).flatten
  | .param i => [4, i]

instance : Hashable Ty := ⟨fun t => hash t.digest⟩

/-- The number of different types in a list. -/
def distinct (types : List Ty) : Nat :=
  (Std.HashSet.ofList types).size

end Ty

/-- Whether two instances are equal up to the order of fields in their
arguments. -/
def Application.same (i j : Instance) : Bool :=
  (Ty.inst i).same (.inst j)

end JsonTypes
