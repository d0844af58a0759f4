/-
Registrations one after another.

A registry is a table of what has been registered: a name stands where it came first, with
the factory that came last. This is kept by every registration, from the empty registry on,
and the registry of the ready-made definitions is filled by registrations too.

* `Registry.registerAll`, `Registry.replaced`: the registry after registrations, and what they
  hand back.
* `Registry.lastNamed`: the factory that has been registered last under a name.
* `Registry.Records`: what a registry has to hold after a history of registrations.
* `Registry.Records.register`, `Registry.Records.registerAll`: one registration, and many.
* `registrations_recorded`: the registry after any registrations, and what each of them does.
-/
import JsonTypes.Prelude
import JsonTypes.Proofs.FirstOccurrences
import JsonTypes.Proofs.Tables

namespace JsonTypes

namespace Registry

/-- The registry after registrations, one after another. -/
def registerAll (registry : Registry) (calls : List Factory) : Registry :=
  calls.foldl (fun registry f => (registry.register f).2) registry

/-- What the registrations hand back, one after another. -/
def replaced (registry : Registry) : List Factory → List (Option Factory)
  | [] => []
  | f :: rest => (registry.register f).1 :: (registry.register f).2.replaced rest

/-- The factory that has been registered last under a name. -/
def lastNamed (history : List Factory) (name : String) : Option Factory :=
  history.reverse.find? fun f => f.name == name

/-- A registry holds what has been registered: the names in the order in which they came up
first, and under each of them the factory that came last. -/
structure Records (registry : Registry) (history : List Factory) : Prop where
  names : FirstOccurrences (history.map Factory.name) registry.table.names.toList
  find? : ∀ name, registry.find? name = lastNamed history name

/-- All factories are held under their own names. -/
def Named (registry : Registry) : Prop :=
  ∀ name f, registry.find? name = some f → f.name = name

variable {registry : Registry} {history : List Factory}

/-! ### The last one of a name -/

lemma name_of_lastNamed {name : String} {f : Factory} (h : lastNamed history name = some f) :
    f.name = name := by
  rw [lastNamed] at h
  simpa using List.find?_some h

lemma lastNamed_concat_self (history : List Factory) (f : Factory) :
    lastNamed (history ++ [f]) f.name = some f := by
  rw [lastNamed, List.reverse_concat, List.find?_cons_of_pos (by simp)]

lemma lastNamed_concat_of_ne (history : List Factory) {f : Factory} {name : String}
    (h : f.name ≠ name) : lastNamed (history ++ [f]) name = lastNamed history name := by
  rw [lastNamed, List.reverse_concat, List.find?_cons_of_neg (by simpa using h), lastNamed]

/-! ### One registration -/

/-- The entry of the name is found after a registration, and the others as before. -/
lemma find?_register_self (registry : Registry) (f : Factory) :
    (registry.register f).2.find? f.name = some f :=
  registry.table.find?_put_self f.name f

lemma find?_register_of_ne (registry : Registry) {f : Factory} {name : String}
    (h : name ≠ f.name) : (registry.register f).2.find? name = registry.find? name :=
  registry.table.find?_put_of_ne f.name f h

/-- The entries of other names stay, in their order. -/
lemma filter_register (registry : Registry) (f : Factory) :
    (registry.register f).2.table.toList.filter (fun entry => entry.1 ≠ f.name) =
      registry.table.toList.filter fun entry => entry.1 ≠ f.name := by
  rw [register, Table.toList_put, Table.filter_putEntry]

/-- **One registration** is recorded behind the ones before. -/
lemma Records.register (h : registry.Records history) (f : Factory) :
    (registry.register f).2.Records (history ++ [f]) := by
  refine ⟨?_, fun name => ?_⟩
  · have hnames := h.names.concat f.name
    rw [List.map_append, Registry.register, Table.names_put]
    exact hnames
  · by_cases hname : name = f.name
    · rw [hname, find?_register_self, lastNamed_concat_self]
    · rw [find?_register_of_ne registry hname, h.find?,
        lastNamed_concat_of_ne history (Ne.symm hname)]

/-! ### Many registrations -/

lemma registerAll_append (registry : Registry) (earlier later : List Factory) :
    registry.registerAll (earlier ++ later) =
      (registry.registerAll earlier).registerAll later :=
  List.foldl_append

/-- **Many registrations** are recorded one behind the other. -/
lemma Records.registerAll (h : registry.Records history) (calls : List Factory) :
    (registry.registerAll calls).Records (history ++ calls) := by
  induction calls generalizing registry history with
  | nil => rwa [List.append_nil]
  | cons f rest ih =>
      have hrest := ih (h.register f)
      rwa [List.append_assoc, List.singleton_append] at hrest

lemma records_empty : empty.Records [] := by
  refine ⟨FirstOccurrences.nil, fun name => Option.eq_none_iff_forall_ne_some.mpr fun f h => ?_⟩
  obtain ⟨i, -⟩ := Table.find?_eq_some.mp h
  exact i.elim0

/-- A registry that is made of factories has them registered. -/
lemma records_ofList (factories : List Factory) : (ofList factories).Records factories :=
  records_empty.registerAll factories

lemma records_start (prelude : Bool) : (if prelude then Prelude.registry else empty).Records
    (if prelude then Prelude.definitions.map Definition.factory else []) := by
  cases prelude with
  | false => exact records_empty
  | true => exact records_ofList _

lemma length_replaced (registry : Registry) (calls : List Factory) :
    (registry.replaced calls).length = calls.length := by
  induction calls generalizing registry with
  | nil => rfl
  | cons f rest ih => rw [replaced, List.length_cons, ih, List.length_cons]

/-- A registration hands back what its name had before it. -/
lemma getElem?_replaced (registry : Registry) (earlier : List Factory) (f : Factory)
    (later : List Factory) : (registry.replaced (earlier ++ f :: later))[earlier.length]? =
      some ((registry.registerAll earlier).find? f.name) := by
  induction earlier generalizing registry with
  | nil => rfl
  | cons g rest ih =>
      rw [List.cons_append, replaced, List.length_cons, List.getElem?_cons_succ, ih]
      rfl

/-! ### What a registry records -/

namespace Records

/-- Every entry stands under the name of its factory. -/
lemma named (h : registry.Records history) : registry.Named := by
  intro name f hf
  rw [h.find?] at hf
  exact name_of_lastNamed hf

/-- The factories in order are the ones of the names in order. -/
lemma map_name_factories (h : registry.Records history) :
    registry.factories.map Factory.name = registry.table.names.toList := by
  have hname : ∀ i, (registry.table.entry i).name = registry.table.name i :=
    fun i => h.named _ _ (registry.table.find?_name i)
  calc registry.factories.map Factory.name
      = registry.table.indices.map fun i => id (registry.table.name i) := by
        rw [factories, Table.entries, List.map_map]
        exact List.map_congr_left fun i _ => hname i
    _ = registry.table.names.toList := by rw [Table.map_name, List.map_id]

/-- Each of them is the last one of its name. -/
lemma lastNamed_of_mem (h : registry.Records history) {f : Factory}
    (hf : f ∈ registry.factories) : lastNamed history f.name = some f := by
  obtain ⟨i, -, rfl⟩ := List.mem_map.mp hf
  have hfind := registry.table.find?_name i
  rw [← h.find?, h.named _ _ hfind]
  exact hfind

/-- There are as many of them as there are different names. -/
lemma size_eq (h : registry.Records history) :
    registry.size = (history.map Factory.name).toFinset.card :=
  h.names.length_eq

end Records

/-- **However factories are registered, they are found under their own names.** -/
lemma named_ofList (factories : List Factory) : (ofList factories).Named :=
  (records_ofList factories).named

end Registry

/-! ### The main statement -/

/-- **Registrations are recorded by name, the last one of a name at the place of the first.**
Let factories be registered one after another, from the empty registry on or from the one of
the ready-made definitions, and let the history begin with the latter. Then the registry lists
each name of the history once, in the order of first registrations, with the factory registered
last under it; every factory is held under its own name; this is what is found under a name, and
nothing under other names; and the size is the number of different names. Each registration has
handed back what was found under its name just before, and left the entries of all other names
where they were. -/
theorem registrations_recorded (prelude : Bool) (calls : List Factory) :
    let start := if prelude then Prelude.registry else .empty
    let history := (if prelude then Prelude.definitions.map Definition.factory else []) ++ calls
    let registry := start.registerAll calls
    FirstOccurrences (history.map Factory.name) (registry.factories.map Factory.name) ∧
      (∀ f ∈ registry.factories, Registry.lastNamed history f.name = some f) ∧
      registry.Named ∧
      (∀ name, registry.find? name = Registry.lastNamed history name) ∧
      registry.size = (history.map Factory.name).toFinset.card ∧
      (start.replaced calls).length = calls.length ∧
      ∀ earlier f later, calls = earlier ++ f :: later →
        let before := start.registerAll earlier
        let after := start.registerAll (earlier ++ [f])
        (start.replaced calls)[earlier.length]? = some (before.find? f.name) ∧
          (∀ name ≠ f.name, after.find? name = before.find? name) ∧
          after.table.toList.filter (fun entry => entry.1 ≠ f.name) =
            before.table.toList.filter fun entry => entry.1 ≠ f.name := by
  intro start history registry
  have hrecords : registry.Records history := (Registry.records_start prelude).registerAll calls
  refine ⟨?_, fun f => hrecords.lastNamed_of_mem, hrecords.named, hrecords.find?,
    hrecords.size_eq, start.length_replaced calls, ?_⟩
  · rw [hrecords.map_name_factories]
    exact hrecords.names
  · rintro earlier f later rfl before after
    have hafter : after = (before.register f).2 := start.registerAll_append earlier [f]
    refine ⟨start.getElem?_replaced earlier f later, fun name hname => ?_, ?_⟩
    · rw [hafter, before.find?_register_of_ne hname]
    · rw [hafter, before.filter_register]

/-- A record without parameters that bears the name of the ready-made pair. -/
def plainPair : Factory := ⟨7, "Pair", .record, 0⟩

/-- A pair is registered anew, then a triple, then a pair again: the last pair stands in the
place of the ready-made one, and has taken it from the other pair. -/
theorem registrations_recorded_pairs :
    let triple : Factory := ⟨8, "Triple", .record, 3⟩
    let choice : Factory := ⟨9, "Pair", .schema, 2⟩
    let calls := [plainPair, triple, choice]
    (Prelude.registry.registerAll calls).factories.map Factory.name =
        ["List", "Maybe", "Either", "BinTree", "Pair", "Rec", "Rose", "Triple"] ∧
      (Prelude.registry.registerAll calls).find? "Pair" = some choice ∧
      (Prelude.registry.registerAll calls).find? "Quad" = none ∧
      (Prelude.registry.registerAll calls).size = 8 ∧
      (Prelude.registry.replaced calls)[2]? = some (some plainPair) ∧
      (Prelude.registry.registerAll calls).find? "Triple" = some triple := by
  intro triple choice calls
  obtain ⟨hnames, -, -, hfind, hsize, -, hcalls⟩ := registrations_recorded true calls
  obtain ⟨-, -, -, hfind', -⟩ := registrations_recorded true [plainPair, triple]
  obtain ⟨hreplaced, -, -⟩ := hcalls [plainPair, triple] choice [] rfl
  refine ⟨?_, (hfind _).trans (by decide), (hfind _).trans (by decide),
    hsize.trans (by decide), ?_, (hfind _).trans (by decide)⟩
  · exact hnames.unique (.eraseDups _)
  · exact hreplaced.trans (congrArg some ((hfind' _).trans (by decide)))

end JsonTypes
