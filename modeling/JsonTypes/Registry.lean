/-
Registries: factories under their names, in the order of registration.

* `Registry`, `Registry.find?`, `Registry.factories`.
* `Registry.register`: a factory of a registered name takes the place of the one
  that held the name, which is handed back.
* `Registry.apply`: a registered factory applied to types.
-/
import JsonTypes.Ty.Basic

namespace JsonTypes

/-- Factories under their names. -/
structure Registry where
  table : Table Factory

namespace Registry

/-- The registry without factories. -/
def empty : Registry := ⟨.empty⟩

/-- The factory of a name. -/
def find? (registry : Registry) (name : String) : Option Factory :=
  registry.table.find? name

/-- The factories in order. -/
def factories (registry : Registry) : List Factory :=
  registry.table.entries

/-- The number of factories. -/
def size (registry : Registry) : Nat := registry.table.size

/-- Whether there is no factory. -/
def isEmpty (registry : Registry) : Bool := registry.size == 0

/-- Registers a factory under its name; the factory that held the name before
comes with the new registry. -/
def register (registry : Registry) (f : Factory) : Option Factory × Registry :=
  (registry.find? f.name, ⟨registry.table.put f.name f⟩)

/-- The registry of a list of factories. -/
def ofList (factories : List Factory) : Registry :=
  factories.foldl (fun registry f => (registry.register f).2) empty

/-- The factory of a name, which has to be registered. -/
def get (registry : Registry) (name : String) : Except DefinitionError Factory :=
  match registry.find? name with
  | some f => .ok f
  | none => .error (.invalidType name "unknown type name")

/-- The registered factory of a name, applied to types. -/
def apply (registry : Registry) (name : String) (args : List Ty) :
    Except DefinitionError Ty := do
  let f ← registry.get name
  let i ← f.apply args
  pure (.inst i)

/-- The factory that is applied is the one that the registry holds under the name. -/
theorem apply_ok {registry : Registry} {name : String} {args : List Ty} {t : Ty} :
    registry.apply name args = .ok t ↔
      ∃ i : Instance, registry.find? name = some i.factory ∧ i.args = args ∧ t = .inst i := by
  cases hf : registry.find? name with
  | none => simp [apply, get, hf, bind, Except.bind]
  | some f =>
    constructor
    · intro h
      cases hi : f.apply args with
      | error e => simp [apply, get, hf, hi, bind, Except.bind] at h
      | ok i =>
        obtain ⟨hfactory, hargs⟩ := Factory.apply_ok.mp hi
        simp only [apply, get, hf, hi, bind, Except.bind, pure, Except.pure, Except.ok.injEq] at h
        exact ⟨i, by rw [hfactory], hargs, h.symm⟩
    · rintro ⟨i, hi, hargs, rfl⟩
      have happly : f.apply args = .ok i := Factory.apply_ok.mpr ⟨(Option.some.inj hi).symm, hargs⟩
      simp [apply, get, hf, happly, bind, Except.bind, pure, Except.pure]

end Registry

end JsonTypes
