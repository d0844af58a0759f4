/-
The graph of instances that a family of bodies spans.

An instance leads to the instances in the description that it expands to. Those
inside the arguments of other instances do not count: they show only once these
are expanded. Between a record and an instance that no container encloses nothing
allows a value to be absent, so a cycle of such steps has no finite value.

* `Ty.Shows`: what occurs in a type outside the arguments of instances, and
  whether a container encloses it.
* `Family.Exposes`: what occurs in the description of an instance.
* `Family.Child`, `Family.BareChild`: the steps, and those without a guard.
* `Family.Reaches`, `Family.BareCycle`: chains of steps, and unguarded cycles.
* `Family.WellFormed`: what is asked of the definition of a factory.
* `Family.RespectsSame`: bodies that map equal arguments to equal entries; the
  steps then do not tell equal instances apart (`Child.of_same`,
  `BareChild.of_same`, `BareChild.transGen_of_same`).
-/
import JsonTypes.Proofs.TypeEquality
import Mathlib.Logic.Relation

namespace JsonTypes

open Relation

/-! ### Occurrences -/

/-- `t.Shows guarded u`: the type `u` occurs in `t` outside the arguments of
instances, and inside a container if and only if `guarded`. -/
inductive Ty.Shows : Ty → Bool → Ty → Prop where
  | here (t : Ty) : Shows t false t
  | container {c : Container} {t u : Ty} {guarded : Bool} (inner : Shows t guarded u) :
      Shows (.container c t) true u
  | field {entries : Table Ty} {i : entries.names.Index} {guarded : Bool} {u : Ty}
      (inner : Shows (entries.entry i) guarded u) : Shows (.fields entries) guarded u

namespace Ty.Shows

/-- What occurs in an occurrence occurs in the whole, guarded by either. -/
lemma trans {t u w : Ty} {guarded guarded' : Bool} (h : t.Shows guarded u)
    (h' : u.Shows guarded' w) : t.Shows (guarded || guarded') w := by
  induction h with
  | here t => exact h'
  | container _ ih => exact .container (ih h')
  | field _ ih => exact .field (ih h')

/-- An instance shows itself only. -/
lemma eq_of_inst {i : Instance} {guarded : Bool} {t : Ty} (h : (Ty.inst i).Shows guarded t) :
    t = .inst i := by
  cases h
  rfl

/-- Alike types show alike types, in equally guarded places. -/
lemma of_alike {t t' u : Ty} {guarded : Bool} (h : t.Shows guarded u) (ht : t.Alike t') :
    ∃ u', t'.Shows guarded u' ∧ u.Alike u' := by
  induction h generalizing t' with
  | here t => exact ⟨t', .here t', ht⟩
  | container _ ih =>
      cases ht with
      | container harg =>
          obtain ⟨u', hu', hu⟩ := ih harg
          exact ⟨u', .container hu', hu⟩
  | @field entries i _ _ _ ih =>
      cases ht with
      | fields hnames heach =>
          obtain ⟨t', ht'⟩ := Table.exists_find?.mpr ((hnames _).mp (entries.name_mem i))
          obtain ⟨u', hu', hu⟩ := ih (heach _ _ _ (entries.find?_name i) ht')
          obtain ⟨k, -, rfl⟩ := Table.find?_eq_some.mp ht'
          exact ⟨u', .field hu', hu⟩

end Ty.Shows

/-! ### Steps -/

namespace Family

variable (bodies : Family)

/-- What occurs in the description that an instance expands to. -/
def Exposes (i : Instance) (guarded : Bool) (t : Ty) : Prop :=
  ∃ entries, bodies i = .ok entries ∧ (Ty.fields entries).Shows guarded t

/-- What a record holds without a container around it. -/
def BareExposes (i : Instance) (t : Ty) : Prop :=
  i.factory.kind = .record ∧ bodies.Exposes i false t

/-- A step from an instance to one in its description. -/
def Child (i j : Instance) : Prop :=
  ∃ guarded, bodies.Exposes i guarded (.inst j)

/-- A step from a record to an instance that no container encloses. -/
def BareChild (i j : Instance) : Prop :=
  bodies.BareExposes i (.inst j)

/-- A chain of steps. -/
def Reaches : Instance → Instance → Prop :=
  ReflTransGen bodies.Child

/-- An instance on a cycle of unguarded steps: they lead to it from an equal
instance. -/
def BareCycle (i : Instance) : Prop :=
  ∃ j, j.same i = true ∧ TransGen bodies.BareChild j i

/-- Equal instances expand to equal entries, or neither expands. -/
def RespectsSame : Prop :=
  ∀ i j entries, i.same j = true → bodies i = .ok entries →
    ∃ entries', bodies j = .ok entries' ∧ (Ty.fields entries).same (.fields entries') = true

/-- The definition of a factory, applied to its placeholders, is well-formed:
everything that it reaches expands and holds no placeholders but its own, there
is a finite number of instances, and no value contains itself. -/
structure WellFormed (f : Factory) : Prop where
  expands : ∀ i, bodies.Reaches f.generic i → ∃ entries, bodies i = .ok entries
  owned : ∀ i guarded index, bodies.Reaches f.generic i →
    bodies.Exposes i guarded (.param index) → index < f.arity
  finite : ∃ list : List Instance, ∀ i, bodies.Reaches f.generic i → i.isIn list = true
  acyclic : ∀ i, bodies.Reaches f.generic i → ¬ bodies.BareCycle i

variable {bodies}

lemma Exposes.trans {i : Instance} {t u : Ty} {guarded guarded' : Bool}
    (h : bodies.Exposes i guarded t) (h' : t.Shows guarded' u) :
    bodies.Exposes i (guarded || guarded') u := by
  obtain ⟨entries, hi, ht⟩ := h
  exact ⟨entries, hi, ht.trans h'⟩

/-! ### Steps between equal instances -/

lemma Exposes.of_same (respects : bodies.RespectsSame) {i j : Instance} {guarded : Bool} {t : Ty}
    (hij : i.same j = true) (h : bodies.Exposes i guarded t) :
    ∃ u, bodies.Exposes j guarded u ∧ t.Alike u := by
  obtain ⟨entries, hi, ht⟩ := h
  obtain ⟨entries', hj, hsame⟩ := respects i j entries hij hi
  obtain ⟨u, hu, htu⟩ := ht.of_alike ((Ty.same_iff_alike _ _).mp hsame)
  exact ⟨u, ⟨entries', hj, hu⟩, htu⟩

lemma Exposes.inst_of_same (respects : bodies.RespectsSame) {i j k : Instance} {guarded : Bool}
    (hij : i.same j = true) (h : bodies.Exposes i guarded (.inst k)) :
    ∃ k', bodies.Exposes j guarded (.inst k') ∧ k.same k' = true := by
  obtain ⟨u, hu, hku⟩ := h.of_same respects hij
  obtain ⟨k', rfl, hkk'⟩ := Application.exists_same_of_alike hku
  exact ⟨k', hu, hkk'⟩

/-- An instance has, up to the order of fields, the children of an equal one. -/
lemma Child.of_same (respects : bodies.RespectsSame) {i i' j : Instance}
    (hi : i.same i' = true) (h : bodies.Child i j) :
    ∃ j', bodies.Child i' j' ∧ j.same j' = true := by
  obtain ⟨guarded, h⟩ := h
  obtain ⟨j', hj', hj⟩ := h.inst_of_same respects hi
  exact ⟨j', ⟨guarded, hj'⟩, hj⟩

/-- A record has, up to the order of fields, the unguarded children of an equal
one. -/
lemma BareChild.of_same (respects : bodies.RespectsSame) {i i' j : Instance}
    (hi : i.same i' = true) (h : bodies.BareChild i j) :
    ∃ j', bodies.BareChild i' j' ∧ j.same j' = true := by
  obtain ⟨hkind, h⟩ := h
  obtain ⟨j', hj', hj⟩ := h.inst_of_same respects hi
  exact ⟨j', ⟨Application.same_factory hi ▸ hkind, hj'⟩, hj⟩

/-- So it has what it leads to by unguarded steps. -/
lemma BareChild.transGen_of_same (respects : bodies.RespectsSame) {i i' j : Instance}
    (hi : i.same i' = true) (h : TransGen bodies.BareChild i j) :
    ∃ j', TransGen bodies.BareChild i' j' ∧ j.same j' = true := by
  induction h with
  | single hij =>
      obtain ⟨j', hj', hj⟩ := hij.of_same respects hi
      exact ⟨j', .single hj', hj⟩
  | tail _ hjk ih =>
      obtain ⟨j', hj', hj⟩ := ih
      obtain ⟨k', hk', hk⟩ := hjk.of_same respects hj
      exact ⟨k', hj'.tail hk', hk⟩

end Family

end JsonTypes
