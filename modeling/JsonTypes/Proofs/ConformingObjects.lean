/-
The objects that conform to a type.

A field mapping, a record and a schema ask for an object, and for what its members are. Their
values are described here by the members in the order of the declaration, whatever the order
is in which the object has them.

* `Json.HasMembers`: objects with given members in any order; `Json.HasMembers.of_find?`: from
  what is found in them.
* `conforms_fields_iff`, `conforms_unit_iff`, `conforms_pair_iff`: the values of field
  mappings, of those without fields and of those with two.
* `conforms_record_iff`: the values of records.
* `conforms_schema_iff`, `conforms_alternative_iff`: the values of schemas, and of those with
  two variants.
-/
import JsonTypes.Proofs.Conformance
import Mathlib.Data.List.Forall2

namespace JsonTypes

namespace Json

/-! ### Objects with given members -/

/-- An object with exactly these members, in any order. -/
def HasMembers (v : Json) (entries : List (String × Json)) : Prop :=
  ∃ members, v = .object members ∧ members.toList.Perm entries

namespace HasMembers

variable {v w : Json} {members : Table Json} {name : String}
  {entries entries' : List (String × Json)}

/-- What is given for a name is found under it. -/
lemma find? (h : (object members).HasMembers entries) (hmem : (name, v) ∈ entries) :
    members.find? name = some v := by
  obtain ⟨_, hmembers, hperm⟩ := h
  obtain rfl := object.inj hmembers
  exact Table.mem_toList.mp (hperm.mem_iff.mpr hmem)

/-- What an object has is found in it. -/
lemma mem_of_find? (h : (object members).HasMembers entries) (hv : members.find? name = some v) :
    (name, v) ∈ entries := by
  obtain ⟨_, hmembers, hperm⟩ := h
  obtain rfl := object.inj hmembers
  exact hperm.mem_iff.mp (Table.mem_toList.mpr hv)

lemma names_iff (h : (object members).HasMembers entries) (name : String) :
    name ∈ members.names.toList ↔ name ∈ entries.map Prod.fst := by
  obtain ⟨_, hmembers, hperm⟩ := h
  obtain rfl := object.inj hmembers
  rw [← Table.map_fst_toList]
  exact (hperm.map Prod.fst).mem_iff

lemma size_eq (h : (object members).HasMembers entries) : members.size = entries.length := by
  obtain ⟨_, hmembers, hperm⟩ := h
  obtain rfl := object.inj hmembers
  rw [← Table.length_toList]
  exact hperm.length_eq

lemma perm (h : v.HasMembers entries) (same : entries.Perm entries') : v.HasMembers entries' := by
  obtain ⟨members, hv, hperm⟩ := h
  exact ⟨members, hv, hperm.trans same⟩

lemma isPart (h : v.HasMembers entries) (hmem : (name, w) ∈ entries) : w.IsPart v := by
  obtain ⟨members, rfl, -⟩ := id h
  exact isPart_of_find? (h.find? hmem)

lemma isPart_first (h : v.HasMembers ((name, w) :: entries)) : w.IsPart v :=
  h.isPart List.mem_cons_self

lemma isPart_second {first : String × Json} (h : v.HasMembers (first :: (name, w) :: entries)) :
    w.IsPart v :=
  h.isPart (List.mem_cons_of_mem _ List.mem_cons_self)

lemma ne_null (h : v.HasMembers entries) : v ≠ .null := by
  obtain ⟨members, rfl, -⟩ := h
  nofun

/-- An object that holds what is given under each name, and has no more members than that, has
just these members. -/
lemma of_find? (distinct : (entries.map Prod.fst).Nodup) (size : members.size = entries.length)
    (held : ∀ name v, (name, v) ∈ entries → members.find? name = some v) :
    (object members).HasMembers entries := by
  have hsub : entries ⊆ members.toList := fun e he => Table.mem_toList.mpr (held e.1 e.2 he)
  have hlength : members.toList.length ≤ entries.length := by
    rw [Table.length_toList, size]
  exact ⟨members, rfl, ((distinct.of_map.subperm hsub).perm_of_length_le hlength).symm⟩

lemma ofMembers (distinct : (entries.map Prod.fst).Nodup) :
    (ofMembers entries).HasMembers entries := by
  refine of_find? distinct ?_ fun name v hmem => Table.find?_ofList distinct hmem
  rw [Table.size, Table.names_ofList distinct, List.length_map]

end HasMembers

end Json

/-! ### Field mappings and records -/

variable {bodies : Family} {discriminator : String}

/-- The values of a field mapping are the objects with a value of its type for every declared
name. -/
lemma conforms_fields_iff {declared : Table Ty} {v : Json} :
    Conforms bodies discriminator (.fields declared) v ↔
      ∃ entries, v.HasMembers entries ∧ List.Forall₂ (fun e f =>
        e.1 = f.1 ∧ Conforms bodies discriminator f.2 e.2) entries declared.toList := by
  constructor
  · intro h
    cases h with
    | @fields _ members keys each =>
        have hheld : ∀ k : declared.names.Index, ∃ w, members.find? (declared.name k) = some w :=
          fun k => Table.exists_find?.mpr ((keys _).mpr (declared.name_mem k))
        choose value hvalue using hheld
        let entries := declared.indices.map fun k => (declared.name k, value k)
        have hnames : entries.map Prod.fst = declared.names.toList := by
          rw [← Table.map_fst_toList, List.map_map, Table.toList, List.map_map]
          rfl
        have hdistinct : (entries.map Prod.fst).Nodup := hnames ▸ declared.names.nodup
        have hsize : members.size = entries.length := by
          rw [← List.length_map Prod.fst, hnames]
          exact Table.size_eq_of_names keys
        refine ⟨entries, .of_find? hdistinct hsize fun name w hmem => ?_, ?_⟩
        · obtain ⟨k, -, hk⟩ := List.mem_map.mp hmem
          obtain ⟨rfl, rfl⟩ := Prod.mk.inj hk
          exact hvalue k
        · rw [Table.toList, List.forall₂_map_left_iff, List.forall₂_map_right_iff,
            List.forall₂_same]
          exact fun k _ => ⟨rfl, each _ _ _ (declared.find?_name k) (hvalue k)⟩
  · rintro ⟨entries, hv, heach⟩
    obtain ⟨members, rfl, -⟩ := id hv
    have hnames : entries.map Prod.fst = declared.toList.map Prod.fst := by
      rw [← List.forall₂_eq_eq_eq, List.forall₂_map_left_iff, List.forall₂_map_right_iff]
      exact heach.imp fun _ _ h => h.1
    refine .fields (fun name => ?_) fun name t w ht hw => ?_
    · rw [hv.names_iff, hnames, Table.map_fst_toList]
    · obtain ⟨⟨other, x⟩, hx, hother, hconforms⟩ :=
        (members_related heach).2 (name, t) (Table.mem_toList.mpr ht)
      obtain rfl : other = name := hother
      obtain rfl : x = w := Option.some.inj ((hv.find? hx).symm.trans hw)
      exact hconforms

/-- The values of a field mapping without fields. -/
lemma conforms_unit_iff {v : Json} :
    Conforms bodies discriminator .unit v ↔ v.HasMembers [] := by
  rw [Ty.unit, conforms_fields_iff]
  constructor
  · rintro ⟨entries, hv, heach⟩
    cases heach
    exact hv
  · exact fun hv => ⟨[], hv, .nil⟩

/-- The values of a field mapping with two fields. -/
lemma conforms_pair_iff {first second : String} (hne : first ≠ second) {t u : Ty} {v : Json} :
    Conforms bodies discriminator (.fields (.ofList [(first, t), (second, u)])) v ↔
      ∃ x y, v.HasMembers [(first, x), (second, y)] ∧
        Conforms bodies discriminator t x ∧ Conforms bodies discriminator u y := by
  have hlist : (Table.ofList [(first, t), (second, u)]).toList = [(first, t), (second, u)] :=
    Table.toList_ofList (by simpa using hne)
  rw [conforms_fields_iff, hlist]
  constructor
  · rintro ⟨entries, hv, heach⟩
    obtain ⟨⟨_, x⟩, _, ⟨rfl, hx⟩, hrest, rfl⟩ := List.forall₂_cons_right_iff.mp heach
    obtain ⟨⟨_, y⟩, _, ⟨rfl, hy⟩, hnil, rfl⟩ := List.forall₂_cons_right_iff.mp hrest
    obtain rfl := List.forall₂_nil_right_iff.mp hnil
    exact ⟨x, y, hv, hx, hy⟩
  · rintro ⟨x, y, hv, hx, hy⟩
    exact ⟨_, hv, .cons ⟨rfl, hx⟩ (.cons ⟨rfl, hy⟩ .nil)⟩

/-- The values of a record are the values of the field mapping that it expands to. -/
lemma conforms_record_iff {i : Instance} {entries : Table Ty} {v : Json}
    (kind : i.factory.kind = .record) (expands : bodies i = .ok entries) :
    Conforms bodies discriminator (.inst i) v ↔
      Conforms bodies discriminator (.fields entries) v := by
  rw [← Json.check_ok_iff, ← Json.check_ok_iff, Json.check_inst_of_record expands kind]

/-! ### Schemas -/

/-- The values of a schema are the objects of a tag that names a variant and a payload of its
type that is not null, unless a variant is named as the discriminator is. -/
lemma conforms_schema_iff {i : Instance} {variants : Table Ty} {v : Json}
    (kind : i.factory.kind = .schema) (expands : bodies i = .ok variants)
    (apart : discriminator ∉ variants.names.toList) :
    Conforms bodies discriminator (.inst i) v ↔
      ∃ constr shape payload, (constr, shape) ∈ variants.toList ∧
        v.HasMembers [(discriminator, .string constr), (constr, payload)] ∧
        payload ≠ .null ∧ Conforms bodies discriminator shape payload := by
  have hne : ∀ {constr shape}, variants.find? constr = some shape → discriminator ≠ constr := by
    rintro constr shape hvariant rfl
    exact apart (Table.exists_find?.mp ⟨shape, hvariant⟩)
  constructor
  · intro h
    cases h with
    | record hkind => cases hkind.symm.trans kind
    | @schema _ _ members constr shape payload _ hexpands htwo htag hvariant hheld hpresent value =>
        obtain rfl := Except.ok.inj (hexpands.symm.trans expands)
        refine ⟨constr, shape, payload, Table.mem_toList.mpr hvariant, ?_, hpresent, value⟩
        refine .of_find? (by simpa using hne hvariant) htwo fun name w hmem => ?_
        rcases List.mem_pair.mp hmem with h | h
        · cases h
          exact htag
        · cases h
          exact hheld
  · rintro ⟨constr, shape, payload, hvariant, hv, hpresent, value⟩
    obtain ⟨members, rfl, -⟩ := id hv
    exact .schema kind expands hv.size_eq (hv.find? (by simp)) (Table.mem_toList.mp hvariant)
      (hv.find? (by simp)) hpresent value

/-- The values of a schema with two variants, neither of which is named as the discriminator. -/
lemma conforms_alternative_iff {i : Instance} {first second : String} (hne : first ≠ second)
    {t u : Ty} {v : Json} (kind : i.factory.kind = .schema)
    (expands : bodies i = .ok (.ofList [(first, t), (second, u)]))
    (hfirst : discriminator ≠ first) (hsecond : discriminator ≠ second) :
    Conforms bodies discriminator (.inst i) v ↔
      (∃ payload, v.HasMembers [(discriminator, .string first), (first, payload)] ∧
        payload ≠ .null ∧ Conforms bodies discriminator t payload) ∨
      ∃ payload, v.HasMembers [(discriminator, .string second), (second, payload)] ∧
        payload ≠ .null ∧ Conforms bodies discriminator u payload := by
  have hlist : (Table.ofList [(first, t), (second, u)]).toList = [(first, t), (second, u)] :=
    Table.toList_ofList (by simpa using hne)
  have hapart : discriminator ∉ (Table.ofList [(first, t), (second, u)]).names.toList := by
    rw [← Table.map_fst_toList, hlist]
    simpa using ⟨hfirst, hsecond⟩
  rw [conforms_schema_iff kind expands hapart, hlist]
  constructor
  · rintro ⟨constr, shape, payload, hvariant, hv, hpresent, value⟩
    rcases List.mem_pair.mp hvariant with h | h
    · cases h
      exact .inl ⟨payload, hv, hpresent, value⟩
    · cases h
      exact .inr ⟨payload, hv, hpresent, value⟩
  · rintro (⟨payload, hv, hpresent, value⟩ | ⟨payload, hv, hpresent, value⟩)
    · exact ⟨first, t, payload, by simp, hv, hpresent, value⟩
    · exact ⟨second, u, payload, by simp, hv, hpresent, value⟩

end JsonTypes
