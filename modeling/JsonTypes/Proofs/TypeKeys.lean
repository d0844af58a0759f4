/-
Types as keys.

Equality of types reads through field mappings in any order, while a type feeds a hasher
less than its equality compares. Still equal types are fed alike, so that a hash set of
types counts classes of equal types, and no check tells equal types apart.

* `Ty.digest_eq_of_alike`: equal types feed a hasher the same numbers.
* `Ty.setoid`, `Ty.classes`: types up to equality.
* `Ty.distinct_eq_ncard`: the size of a hash set of types is the number of classes.
* `Conforms.iff_of_alike`: equal types have the same values.
* `equal_types_interchangeable`: the three together.
-/
import JsonTypes.Prelude
import JsonTypes.Proofs.Recursion
import Mathlib.Data.Set.Card

namespace JsonTypes

/-! ### What types feed to a hasher -/

namespace Ty

/-- **Equal types feed a hasher the same numbers.** Of a field mapping only the number of
its fields is fed, which does not depend on their order. -/
lemma digest_eq_of_alike {t u : Ty} (h : t.Alike u) : t.digest = u.digest := by
  induction h with
  | primitive p => rfl
  | container _ ih => rw [digest, digest, ih]
  | fields hnames _ _ => rw [digest, digest, Table.size_eq_of_names hnames]
  | @inst f arg arg' _ ih =>
      have hargs : (fun k => (arg k).digest) = fun k => (arg' k).digest := funext ih
      simp only [digest, hargs]
  | param index => rfl

/-! ### Classes of equal types -/

lemma beq_iff_alike {t u : Ty} : (t == u) = true ↔ t.Alike u :=
  same_iff_alike t u

instance : EquivBEq Ty where
  rfl {t} := beq_iff_alike.mpr (.refl t)
  symm h := beq_iff_alike.mpr (beq_iff_alike.mp h).symm
  trans h h' := beq_iff_alike.mpr ((beq_iff_alike.mp h).trans (beq_iff_alike.mp h'))

instance : LawfulHashable Ty where
  hash_eq t u h := by
    have hdigest : t.digest = u.digest := digest_eq_of_alike (beq_iff_alike.mp h)
    show hash t.digest = hash u.digest
    rw [hdigest]

/-- Types up to the order of fields. -/
instance setoid : Setoid Ty where
  r t u := (t == u) = true
  iseqv := ⟨fun _ => BEq.rfl, BEq.symm, BEq.trans⟩

/-- The classes of equal types in a list. -/
def classes (types : List Ty) : Set (Quotient setoid) :=
  {q | ∃ t ∈ types, ⟦t⟧ = q}

/-- A list of pairwise different types has as many classes as types. -/
lemma ncard_classes_of_pairwise {types : List Ty}
    (h : types.Pairwise fun t u => (t == u) = false) : (classes types).ncard = types.length := by
  classical
  have hnodup : (types.map (Quotient.mk setoid)).Nodup := by
    refine List.pairwise_map.mpr (h.imp fun {t u} hne heq => ?_)
    have hsame : (t == u) = true := Quotient.exact heq
    rw [hne] at hsame
    cases hsame
  have hclasses : classes types = ↑(types.map (Quotient.mk setoid)).toFinset := by
    ext q
    simp [classes]
  rw [hclasses, Set.ncard_coe_finset, List.toFinset_card_of_nodup hnodup, List.length_map]

/-- Lists that hold the same types up to equality have the same classes. -/
lemma classes_congr {types types' : List Ty}
    (h : ∀ t, types.contains t = types'.contains t) : classes types = classes types' := by
  have hsub : ∀ {list list' : List Ty}, (∀ t, list.contains t = list'.contains t) →
      classes list ⊆ classes list' := by
    rintro list list' hcontains q ⟨t, ht, rfl⟩
    have hheld : list'.contains t = true := by
      rw [← hcontains]
      exact List.contains_iff_exists_mem_beq.mpr ⟨t, ht, BEq.rfl⟩
    obtain ⟨u, hu, htu⟩ := List.contains_iff_exists_mem_beq.mp hheld
    exact ⟨u, hu, Quotient.sound (BEq.symm htu)⟩
  exact Set.Subset.antisymm (hsub h) (hsub fun t => (h t).symm)

/-- **A hash set of types counts the classes of equal types.** -/
lemma distinct_eq_ncard (types : List Ty) : distinct types = (classes types).ncard := by
  let held := (Std.HashSet.ofList types).toList
  have hcontains : ∀ t, held.contains t = types.contains t := by
    intro t
    rw [Std.HashSet.contains_toList, Std.HashSet.contains_ofList]
  calc distinct types = held.length := Std.HashSet.length_toList.symm
    _ = (classes held).ncard := (ncard_classes_of_pairwise Std.HashSet.distinct_toList).symm
    _ = (classes types).ncard := by rw [classes_congr hcontains]

end Ty

/-! ### Values of equal types -/

/-- Equal types have the same values. -/
lemma Conforms.iff_of_alike {bodies : Family} (respects : bodies.RespectsSame)
    {discriminator : String} {t u : Ty} (h : t.Alike u) (v : Json) :
    Conforms bodies discriminator t v ↔ Conforms bodies discriminator u v :=
  ⟨fun hv => hv.of_alike respects h, fun hv => hv.of_alike respects h.symm⟩

/-- **Equal types are interchangeable.** Equality compares factories by identity, and
field mappings in any order, at every depth; it is an equivalence. Equal types feed a
hasher the same numbers, so that a hash set counts classes of equal types. Where bodies
map equal arguments to equal entries, checks against equal types accept the same values. -/
theorem equal_types_interchangeable :
    (∀ t u : Ty, (t == u) = true ↔ t.Alike u) ∧
      Equivalence (fun t u : Ty => (t == u) = true) ∧
      (∀ t u : Ty, (t == u) = true → t.digest = u.digest) ∧
      (∀ types : List Ty, Ty.distinct types = (Ty.classes types).ncard) ∧
      ∀ bodies : Family, bodies.RespectsSame → ∀ t u : Ty, (t == u) = true →
        ∀ (config : Config) (v : Json),
          (∃ w, (check bodies config t v).result = .ok w) ↔
            ∃ w, (check bodies config u v).result = .ok w := by
  refine ⟨fun t u => Ty.beq_iff_alike, Ty.setoid.iseqv, ?_, Ty.distinct_eq_ncard, ?_⟩
  · intro t u h
    exact Ty.digest_eq_of_alike (Ty.beq_iff_alike.mp h)
  · intro bodies respects t u h config v
    rw [exists_check_iff, exists_check_iff]
    exact Conforms.iff_of_alike respects (Ty.beq_iff_alike.mp h) v

/-- Lists of points whose fields are declared in either order are one key, and have the
same values. -/
theorem equal_types_interchangeable_points :
    let point := Ty.fields (.ofList [("x", .number), ("y", .string)])
    let turned := Ty.fields (.ofList [("y", .string), ("x", .number)])
    let points := Ty.inst ⟨Prelude.list.factory, fun _ => point⟩
    let turnedPoints := Ty.inst ⟨Prelude.list.factory, fun _ => turned⟩
    (points == turnedPoints) = true ∧ points.digest = turnedPoints.digest ∧
      Ty.distinct [points, turnedPoints] = 1 ∧
      ∀ v, (∃ w, (check Prelude.bodies .standard points v).result = .ok w) ↔
        ∃ w, (check Prelude.bodies .standard turnedPoints v).result = .ok w := by
  intro point turned points turnedPoints
  obtain ⟨-, -, hdigest, hdistinct, hcheck⟩ := equal_types_interchangeable
  have hsame : (points == turnedPoints) = true := by decide
  refine ⟨hsame, hdigest _ _ hsame, ?_, fun v => ?_⟩
  · have hclasses : Ty.classes [points, turnedPoints] = {⟦points⟧} := by
      have hclass : (⟦turnedPoints⟧ : Quotient Ty.setoid) = ⟦points⟧ :=
        Quotient.sound (BEq.symm hsame)
      ext q
      simp [Ty.classes, hclass, eq_comm]
    rw [hdistinct, hclasses, Set.ncard_singleton]
  · exact hcheck _ Prelude.bodies_templated.respectsSame _ _ hsame .standard v

end JsonTypes
