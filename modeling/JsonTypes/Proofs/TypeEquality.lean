/-
Equality of types up to the order of fields is an equivalence.

* `Ty.Alike`: the relation that `Ty.same` decides, by rules: the same factory
  with alike arguments, the same names with alike types.
* `Ty.same_iff_alike`; `Ty.Alike.refl`, `Ty.Alike.symm`, `Ty.Alike.trans`.
* `Application.same_refl`, `same_symm`, `same_trans`, `same_factory`: the same for
  instances.
* `Application.isIn_iff`, `isIn_of_same`: membership of instances in lists.
-/
import JsonTypes.Definition.Walk
import JsonTypes.Proofs.Tables

namespace JsonTypes

/-- Types that differ in the order of fields only. -/
inductive Ty.Alike : Ty → Ty → Prop where
  | primitive (p : Primitive) : Alike (.primitive p) (.primitive p)
  | container {c : Container} {t u : Ty} (arg : Alike t u) :
      Alike (.container c t) (.container c u)
  | fields {a b : Table Ty} (names : ∀ name, name ∈ a.names.toList ↔ name ∈ b.names.toList)
      (each : ∀ name t u, a.find? name = some t → b.find? name = some u → Alike t u) :
      Alike (.fields a) (.fields b)
  | inst {f : Factory} {arg arg' : Fin f.arity → Ty} (each : ∀ k, Alike (arg k) (arg' k)) :
      Alike (.inst ⟨f, arg⟩) (.inst ⟨f, arg'⟩)
  | param (index : ℕ) : Alike (.param index) (.param index)

namespace Ty

/-! ### Deciding -/

/-- Two field mappings are compared by the number of their names and the types
under them. -/
lemma same_fields_eq (a b : Table Ty) :
    (fields a).same (fields b) = (a.size == b.size && a.indices.all fun i =>
      match b.find? (a.name i) with
      | some u => (a.entry i).same u
      | none => false) := by
  cases a
  rfl

/-- Two instances are compared by their factories and the arguments in order. -/
lemma same_inst_eq (f g : Factory) (arg : Fin f.arity → Ty) (arg' : Fin g.arity → Ty) :
    (inst ⟨f, arg⟩).same (inst ⟨g, arg'⟩) =
      if h : f = g then
        (List.finRange _).all fun k => (arg k).same (arg' (k.cast (congrArg Factory.arity h)))
      else false := rfl

/-- Counting the names of two field mappings and looking up the types of the one
in the other decides whether they are alike, if this is so for the types. -/
lemma same_fields_iff {a b : Table Ty}
    (ih : ∀ i u, (a.entry i).same u = true ↔ (a.entry i).Alike u) :
    (fields a).same (fields b) = true ↔ (fields a).Alike (fields b) := by
  simp only [same_fields_eq, Bool.and_eq_true, beq_iff_eq, List.all_eq_true]
  constructor
  · rintro ⟨hlen, hall⟩
    have hfound : ∀ i, ∃ u, b.find? (a.name i) = some u ∧ (a.entry i).same u = true := by
      intro i
      have hi := hall i (List.mem_finRange i)
      split at hi
      next u hu => exact ⟨u, hu, hi⟩
      next => cases hi
    have hsub : a.names.toList ⊆ b.names.toList := by
      intro name hname
      obtain ⟨t, ht⟩ := Table.exists_find?.mpr hname
      obtain ⟨i, rfl, -⟩ := Table.find?_eq_some.mp ht
      obtain ⟨u, hu, -⟩ := hfound i
      exact Table.exists_find?.mp ⟨u, hu⟩
    refine .fields (Table.mem_iff_of_subset hsub (Nat.le_of_eq hlen.symm)) ?_
    intro name t u ht hu
    obtain ⟨i, rfl, rfl⟩ := Table.find?_eq_some.mp ht
    obtain ⟨u', hu', hsame⟩ := hfound i
    obtain rfl : u' = u := Option.some.inj (hu'.symm.trans hu)
    exact (ih i u').mp hsame
  · intro h
    cases h with
    | fields hnames heach =>
        have hperm := (List.perm_ext_iff_of_nodup a.names.nodup b.names.nodup).mpr hnames
        refine ⟨hperm.length_eq, fun i _ => ?_⟩
        obtain ⟨u, hu⟩ := Table.exists_find?.mpr ((hnames _).mp (a.name_mem i))
        rw [hu]
        exact (ih i u).mpr (heach _ _ _ (a.find?_name i) hu)

/-- **Types are compared up to the order of fields**, at every depth. -/
lemma same_iff_alike (t u : Ty) : t.same u = true ↔ t.Alike u := by
  have mixed : ∀ {t u : Ty}, t.same u = false → ¬ t.Alike u → (t.same u = true ↔ t.Alike u) :=
    fun h h' => by simp [h, h']
  induction t generalizing u with
  | primitive p =>
      cases u with
      | primitive q =>
          have heq : (primitive p).same (primitive q) = (p == q) := rfl
          rw [heq, beq_iff_eq]
          exact ⟨fun h => h ▸ .primitive p, fun h => by cases h; rfl⟩
      | container | fields | inst | param => exact mixed rfl (by rintro ⟨⟩)
  | container c t ih =>
      cases u with
      | container d u =>
          have heq : (Ty.container c t).same (.container d u) = (c == d && t.same u) := rfl
          simp only [heq, Bool.and_eq_true, beq_iff_eq, ih]
          constructor
          · rintro ⟨rfl, h⟩
            exact .container h
          · rintro ⟨⟩
            exact ⟨rfl, by assumption⟩
      | primitive | fields | inst | param => exact mixed rfl (by rintro ⟨⟩)
  | fields a ih =>
      cases u with
      | fields b => exact same_fields_iff ih
      | primitive | container | inst | param => exact mixed rfl (by rintro ⟨⟩)
  | inst i ih =>
      obtain ⟨f, arg⟩ := i
      cases u with
      | inst j =>
          obtain ⟨g, arg'⟩ := j
          by_cases hfg : f = g
          · subst hfg
            simp only [same_inst_eq, dite_true, List.all_eq_true, List.mem_finRange, true_implies]
            constructor
            · exact fun h => .inst fun k => (ih k _).mp (h k)
            · rintro ⟨⟩
              rename_i heach
              exact fun k => (ih k _).mpr (heach k)
          · refine mixed (by simp [same_inst_eq, hfg]) ?_
            rintro ⟨⟩
            exact hfg rfl
      | primitive | container | fields | param => exact mixed rfl (by rintro ⟨⟩)
  | param index =>
      cases u with
      | param index' =>
          have heq : (param index).same (param index') = (index == index') := rfl
          rw [heq, beq_iff_eq]
          exact ⟨fun h => h ▸ .param index, fun h => by cases h; rfl⟩
      | primitive | container | fields | inst => exact mixed rfl (by rintro ⟨⟩)

/-! ### An equivalence -/

lemma Alike.refl (t : Ty) : t.Alike t := by
  induction t with
  | primitive p => exact .primitive p
  | container c t ih => exact .container ih
  | fields a ih =>
      refine .fields (fun name => Iff.rfl) fun name t u ht hu => ?_
      obtain rfl : t = u := Option.some.inj (ht.symm.trans hu)
      obtain ⟨i, -, rfl⟩ := Table.find?_eq_some.mp ht
      exact ih i
  | inst i ih =>
      obtain ⟨f, arg⟩ := i
      exact .inst ih
  | param index => exact .param index

lemma Alike.symm {t u : Ty} (h : t.Alike u) : u.Alike t := by
  induction h with
  | primitive p => exact .primitive p
  | container _ ih => exact .container ih
  | fields hnames _ ih =>
      exact .fields (fun name => (hnames name).symm) fun name t u ht hu => ih name u t hu ht
  | inst _ ih => exact .inst ih
  | param index => exact .param index

lemma Alike.trans {t u w : Ty} (h : t.Alike u) (h' : u.Alike w) : t.Alike w := by
  induction h generalizing w with
  | primitive p => exact h'
  | container _ ih =>
      cases h' with
      | container h' => exact .container (ih h')
  | @fields a b hnames _ ih =>
      cases h' with
      | fields hnames' heach' =>
          refine .fields (fun name => (hnames name).trans (hnames' name)) ?_
          intro name t w ht hw
          have hname : name ∈ b.names.toList :=
            (hnames name).mp (Table.exists_find?.mp ⟨t, ht⟩)
          obtain ⟨u, hu⟩ := Table.exists_find?.mpr hname
          exact ih name t u ht hu (heach' name u w hu hw)
  | inst _ ih =>
      cases h' with
      | inst heach' => exact .inst fun k => ih k (heach' k)
  | param index => exact h'

/-- Field mappings with the same names in the same places are alike if the types
in these places are. -/
lemma Alike.fields_of_entries {names : Names} {entry entry' : names.Index → Ty}
    (h : ∀ i, (entry i).Alike (entry' i)) :
    (Ty.fields ⟨names, entry⟩).Alike (Ty.fields ⟨names, entry'⟩) := by
  refine .fields (fun name => Iff.rfl) fun name t u ht hu => ?_
  obtain ⟨i, hi, rfl⟩ := Table.find?_eq_some.mp ht
  obtain ⟨j, hj, rfl⟩ := Table.find?_eq_some.mp hu
  obtain rfl : i = j := Names.index_ext (hi.trans hj.symm)
  exact h i

end Ty

/-! ### Instances -/

namespace Application

variable {i j k : Instance}

lemma same_iff : i.same j = true ↔ (Ty.inst i).Alike (.inst j) :=
  Ty.same_iff_alike _ _

@[simp] lemma same_refl (i : Instance) : i.same i = true :=
  same_iff.mpr (.refl _)

lemma same_symm (h : i.same j = true) : j.same i = true :=
  same_iff.mpr (same_iff.mp h).symm

lemma same_trans (h : i.same j = true) (h' : j.same k = true) : i.same k = true :=
  same_iff.mpr ((same_iff.mp h).trans (same_iff.mp h'))

/-- A type like an instance is an equal instance. -/
lemma exists_same_of_alike {t : Ty} (h : (Ty.inst i).Alike t) :
    ∃ j, t = .inst j ∧ i.same j = true := by
  cases h with
  | inst heach => exact ⟨_, rfl, same_iff.mpr (.inst heach)⟩

/-- Equal instances apply the same factory. -/
lemma same_factory (h : i.same j = true) : i.factory = j.factory := by
  cases same_iff.mp h with
  | inst => rfl

/-- A factory with one parameter yields one instance for each type. -/
lemma ext_unary {f : Factory} (hf : f.arity = 1) {arg arg' : Fin f.arity → Ty}
    (h : arg ⟨0, hf ▸ Nat.one_pos⟩ = arg' ⟨0, hf ▸ Nat.one_pos⟩) :
    (⟨f, arg⟩ : Instance) = ⟨f, arg'⟩ := by
  refine congrArg (mk f) (funext fun k => ?_)
  obtain rfl : k = ⟨0, hf ▸ Nat.one_pos⟩ := Fin.ext (Nat.lt_one_iff.mp (hf ▸ k.isLt))
  exact h

/-- Instances up to the order of fields in their arguments. -/
instance setoid : Setoid Instance where
  r i j := i.same j = true
  iseqv := ⟨same_refl, same_symm, same_trans⟩

lemma isIn_iff {list : List Instance} : i.isIn list = true ↔ ∃ j ∈ list, j.same i = true := by
  simp [isIn]

lemma isIn_of_mem {list : List Instance} (h : i ∈ list) : i.isIn list = true :=
  isIn_iff.mpr ⟨i, h, same_refl i⟩

/-- Membership does not tell equal instances apart. -/
lemma isIn_of_same {list : List Instance} (hij : i.same j = true) (h : i.isIn list = true) :
    j.isIn list = true := by
  obtain ⟨k, hk, hki⟩ := isIn_iff.mp h
  exact isIn_iff.mpr ⟨k, hk, same_trans hki hij⟩

lemma isIn_mono {list list' : List Instance} (hsub : list ⊆ list') (h : i.isIn list = true) :
    i.isIn list' = true := by
  obtain ⟨k, hk, hki⟩ := isIn_iff.mp h
  exact isIn_iff.mpr ⟨k, hsub hk, hki⟩

lemma isIn_cons {list : List Instance} :
    i.isIn (j :: list) = true ↔ j.same i = true ∨ i.isIn list = true := by
  simp [isIn]

lemma isIn_append {list list' : List Instance} :
    i.isIn (list ++ list') = true ↔ i.isIn list = true ∨ i.isIn list' = true := by
  simp [isIn]

end Application

end JsonTypes
