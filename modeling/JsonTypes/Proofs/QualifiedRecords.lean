/-
Qualified schemas as records.

A qualified schema ignores members that it does not declare and takes a missing
optional field for null. Otherwise it asks what a record asks whose fields are the
types of the declared ones, optional and repeated fields inside the container of that
name: it accepts the values that the record accepts once they are cut down to the
declared fields.

* `QualifiedSchema.Uses`: the schemas inside a schema, itself included.
* `QualifiedSchema.Regular`: field names differ, and what is required is not of an
  optional type.
* `Target.toTy`, `QualifiedSchema.recordEntries`: the types of targets and fields;
  `Family.HasRecords`: a family with a record for every schema inside a schema, as
  `Family.exists_hasRecords` says that there is.
* `Json.cut`, `QualifiedSchema.prune`: values with exactly the declared fields.
* `QualifiedSchema.checkField_ok`: when a declared field passes; `Json.cut_field_ok`:
  then it passes as a field of the record.
* `Json.asObject_ok_iff`: the two checks agree at every value.
* `check_qualified_iff`: so do the checks as a whole.
-/
import JsonTypes.Proofs.Conformance
import JsonTypes.QualifiedSchema
import Mathlib.Data.Set.Countable
import Mathlib.Data.Set.Finite.Lattice
import Mathlib.Logic.Relation

namespace JsonTypes

open Relation

/-! ### Schemas inside schemas -/

namespace QualifiedSchema

/-- A field of the one schema has the other one as its target. -/
def Captures (s inner : QualifiedSchema) : Prop :=
  ∃ field ∈ s.fields, field.target = .schema inner

/-- The second schema is inside the first one, or is it. -/
def Uses : QualifiedSchema → QualifiedSchema → Prop :=
  ReflTransGen Captures

/-- In a schema and all schemas inside it the names of the fields differ, and no
required field has an optional type. -/
structure Regular (q : QualifiedSchema) : Prop where
  distinct : ∀ s, q.Uses s → (s.fields.map QualifiedField.name).Nodup
  strict : ∀ s, q.Uses s → ∀ field ∈ s.fields, field.qualifier = .required →
    ∀ t, field.target = .type t → t.isOptional = false

variable {α : Type} {q : QualifiedSchema} {g : QualifiedField QualifiedSchema → α}

/-- The table with a value for every declared field. -/
def tabulate (q : QualifiedSchema) (g : QualifiedField QualifiedSchema → α) : Table α :=
  .ofList (q.fields.map fun field => (field.name, g field))

lemma names_tabulate (distinct : (q.fields.map QualifiedField.name).Nodup) :
    (q.tabulate g).names.toList = q.fields.map QualifiedField.name := by
  rw [tabulate, Table.names_ofList] <;> rw [List.map_map]
  · rfl
  · exact distinct

lemma find?_tabulate (distinct : (q.fields.map QualifiedField.name).Nodup)
    {field : QualifiedField QualifiedSchema} (hfield : field ∈ q.fields) :
    (q.tabulate g).find? field.name = some (g field) := by
  refine Table.find?_ofList ?_ (List.mem_map_of_mem hfield)
  rw [List.map_map]
  exact distinct

/-- What stands in such a table belongs to a declared field. -/
lemma exists_of_find?_tabulate (distinct : (q.fields.map QualifiedField.name).Nodup)
    {name : String} {a : α} (h : (q.tabulate g).find? name = some a) :
    ∃ field ∈ q.fields, field.name = name ∧ a = g field := by
  have hname := Table.exists_find?.mp ⟨a, h⟩
  rw [names_tabulate distinct] at hname
  obtain ⟨field, hfield, rfl⟩ := List.mem_map.mp hname
  exact ⟨field, hfield, rfl, Option.some.inj (h.symm.trans (find?_tabulate distinct hfield))⟩

end QualifiedSchema

/-! ### Records for schemas -/

section Records

variable (record : QualifiedSchema → Factory)

/-- The type of a target inside the schema `self`, where `record` are the records that
stand for schemas. -/
def Target.toTy (self : QualifiedSchema) : Target QualifiedSchema → Ty
  | .type t => t
  | .schema s => .inst (record s).generic
  | .self => .inst (record self).generic

/-- The type of a field whose target has the type `t`. -/
def Qualifier.wrap : Qualifier → Ty → Ty
  | .required, t => t
  | .optional, t => .optional t
  | .repeated, t => .repeated t

/-- The type of a field of the schema `self`. -/
def QualifiedField.toTy (self : QualifiedSchema) (field : QualifiedField QualifiedSchema) : Ty :=
  field.qualifier.wrap (field.target.toTy record self)

/-- The fields of the record that stands for a schema. -/
def QualifiedSchema.recordEntries (s : QualifiedSchema) : Table Ty :=
  s.tabulate (QualifiedField.toTy record s)

/-- Every schema inside `q` has a record without parameters that stands for it. -/
structure Family.HasRecords (bodies : Family) (q : QualifiedSchema) : Prop where
  kind : ∀ s, q.Uses s → (record s).kind = .record
  arity : ∀ s, q.Uses s → (record s).arity = 0
  body : ∀ s, q.Uses s → bodies (record s).generic = .ok (s.recordEntries record)

end Records

/-- The schema that a target inside the schema `self` refers to, if it is no type. -/
def Target.schema? (self : QualifiedSchema) : Target QualifiedSchema → Option QualifiedSchema
  | .type _ => none
  | .schema s => some s
  | .self => some self

namespace QualifiedSchema

lemma Captures.sizeOf_lt {s inner : QualifiedSchema} (h : s.Captures inner) :
    sizeOf inner < sizeOf s := by
  obtain ⟨⟨name, qualifier, target⟩, hfield, rfl⟩ := h
  obtain ⟨own, fields⟩ := s
  have := List.sizeOf_lt_of_mem hfield
  simp only [QualifiedField.mk.sizeOf_spec, Target.schema.sizeOf_spec, mk.sizeOf_spec,
    QualifiedSchema.fields] at this ⊢
  omega

/-- There are finitely many schemas inside a schema. -/
lemma finite_uses (q : QualifiedSchema) : {s | q.Uses s}.Finite := by
  have hcaptures : {s | q.Captures s} ⊆
      {s | s ∈ q.fields.filterMap fun field => field.target.schema? q} := by
    rintro s ⟨field, hfield, htarget⟩
    exact List.mem_filterMap.mpr ⟨field, hfield, by rw [htarget, Target.schema?]⟩
  have hinner : (⋃ s ∈ {s | q.Captures s}, {u | s.Uses u}).Finite :=
    ((List.finite_toSet _).subset hcaptures).biUnion fun s hs => finite_uses s
  refine (hinner.insert q).subset fun u hu => ?_
  rcases ReflTransGen.cases_head hu with rfl | ⟨s, hs, hu⟩
  · exact Set.mem_insert _ _
  · exact Set.mem_insert_of_mem _ (Set.mem_biUnion hs hu)
termination_by q
decreasing_by exact Captures.sizeOf_lt hs

end QualifiedSchema

/-- A record of the name of the schema, under a serial number of its own. -/
def QualifiedSchema.numberedRecord (number : QualifiedSchema → ℕ) (s : QualifiedSchema) :
    Factory :=
  ⟨number s, s.name, .record, 0⟩

open Classical in
/-- A family with bodies for the records of the schemas inside `q`. -/
noncomputable def Family.withRecords (bodies : Family) (record : QualifiedSchema → Factory)
    (q : QualifiedSchema) : Family := fun i =>
  if h : ∃ s, q.Uses s ∧ record s = i.factory then .ok (h.choose.recordEntries record)
  else bodies i

lemma Family.withRecords_generic {bodies : Family} {record : QualifiedSchema → Factory}
    {q s : QualifiedSchema} (hrecord : Set.InjOn record {s | q.Uses s}) (hs : q.Uses s) :
    bodies.withRecords record q (record s).generic = .ok (s.recordEntries record) := by
  have h : ∃ u, q.Uses u ∧ record u = (record s).generic.factory := ⟨s, hs, rfl⟩
  have hchosen : h.choose = s := hrecord h.choose_spec.1 hs h.choose_spec.2
  rw [withRecords, dif_pos h, hchosen]

/-- **Every schema has its records.** Next to the factories that there are, told apart by
their serial numbers, there is room for a record for every schema inside a schema. -/
lemma Family.exists_hasRecords (bodies : Family) (used : ℕ) (q : QualifiedSchema) :
    ∃ (record : QualifiedSchema → Factory) (extended : Family),
      extended.HasRecords record q ∧
        ∀ i, i.factory.serial < used → extended i = bodies i := by
  obtain ⟨number, hnumber⟩ := Set.countable_iff_exists_injOn.mp q.finite_uses.countable
  let record := QualifiedSchema.numberedRecord fun s => used + number s
  have hrecord : Set.InjOn record {s | q.Uses s} := fun s hs u hu h =>
    hnumber hs hu (Nat.add_left_cancel (congrArg Factory.serial h))
  refine ⟨record, bodies.withRecords record q, ⟨fun _ _ => rfl, fun _ _ => rfl, fun s hs => ?_⟩,
    fun i hi => dif_neg ?_⟩
  · exact withRecords_generic hrecord hs
  · rintro ⟨s, -, hs⟩
    rw [← hs] at hi
    exact absurd hi (Nat.not_lt.mpr (Nat.le_add_right ..))

/-! ### Pruning -/

/-- A value cut down to a schema: an object to exactly the declared fields, where what is
missing becomes null, and if `each`, an array item by item. Nothing else is touched. -/
def Json.cut : Json → (each : Bool) → Option QualifiedSchema → Json
  | .object ⟨names, entry⟩, false, some s =>
    .ofMembers (s.fields.map fun field =>
      (field.name,
        match names.index? field.name with
        | some i => (entry i).cut (field.qualifier == .repeated) (field.target.schema? s)
        | none => .null))
  | .array ⟨length, item⟩, true, some s => .array ⟨length, fun k => (item k).cut false (some s)⟩
  | v, _, _ => v

/-- A value cut down to what a schema declares. -/
def QualifiedSchema.prune (q : QualifiedSchema) (v : Json) : Json :=
  v.cut false (some q)

namespace Json

/-- The value of a declared field after pruning. -/
def cutField (s : QualifiedSchema) (field : QualifiedField QualifiedSchema) :
    Option Json → Json
  | some w => w.cut (field.qualifier == .repeated) (field.target.schema? s)
  | none => .null

lemma cut_object (members : Table Json) (s : QualifiedSchema) :
    (object members).cut false (some s) =
      .object (s.tabulate fun field => cutField s field (members.find? field.name)) := by
  obtain ⟨names, entry⟩ := members
  rw [cut]
  refine congrArg ofMembers (List.map_congr_left fun field _ => ?_)
  simp only [Table.find?]
  cases names.index? field.name <;> rfl

@[simp] lemma cut_none (v : Json) (each : Bool) : v.cut each none = v := by
  cases v <;> cases each <;> rfl

/-- An array of values to be cut down is cut down item by item. -/
lemma cut_items (items : Row Json) (s : Option QualifiedSchema) :
    (array items).cut true s = .array (items.map fun w => w.cut false s) := by
  cases s with
  | none =>
      simp only [cut_none]
      rfl
  | some s =>
      obtain ⟨length, item⟩ := items
      rw [cut]
      rfl

/-- Nothing is cut down to null but null. -/
lemma cut_eq_null {v : Json} {each : Bool} {s : Option QualifiedSchema} :
    v.cut each s = .null ↔ v = .null := by
  cases v <;> cases each <;> cases s <;> simp [cut, cut_object]

/-- Only arrays are cut down item by item to an array. -/
lemma cut_eq_array {v : Json} {s : Option QualifiedSchema} {cuts : Row Json}
    (h : v.cut true s = .array cuts) :
    ∃ items, v = .array items ∧ cuts = items.map fun w => w.cut false s := by
  cases v with
  | array items =>
      rw [cut_items] at h
      exact ⟨items, rfl, (array.inj h).symm⟩
  | null | boolean | number | string | object => cases h

end Json

/-! ### When declared fields pass -/

section Checks

variable {bodies : Family} {discriminator : String} {q : QualifiedSchema}

/-- A value passes the check against a target inside the schema `self`. -/
def Json.Meets (bodies : Family) (discriminator : String) (self : QualifiedSchema)
    (target : Target QualifiedSchema) (v : Json) : Prop :=
  ((v.slot bodies discriminator).toSubject.checkTarget bodies discriminator self target).result =
    .ok ()

namespace Json

@[simp] lemma slot_value (v : Json) : (v.slot bodies discriminator).value = v := by
  cases v <;> rfl

lemma slot_items_array (items : Row Json) :
    ((array items).slot bodies discriminator).items =
      some (items.map fun w => (w.slot bodies discriminator).toSubject) := rfl

lemma slot_items_eq_none {v : Json} (h : ∀ items, v ≠ .array items) :
    (v.slot bodies discriminator).items = none := by
  cases v with
  | array items => exact absurd rfl (h items)
  | null | boolean | number | string | object => rfl

/-- The check against a schema passes objects whose declared fields pass. -/
lemma asObject_ok {v : Json} :
    ((v.slot bodies discriminator).asObject q).result = .ok () ↔
      ∃ members, v = .object members ∧ ∀ field ∈ q.fields,
        (q.checkField bodies discriminator (members.map (slot bodies discriminator))
          field).result = .ok () := by
  cases v with
  | object members =>
      have hcheck : ((object members).slot bodies discriminator).asObject q =
          q.checkMembers bodies discriminator (members.map (slot bodies discriminator)) := rfl
      simp [hcheck, QualifiedSchema.checkMembers, Traced.forEach_ok, Verdict.within_ok]
  | null | boolean | number | string | array =>
      simp [slot, QualifiedSchema.notObject]

end Json

/-- A required field passes if its value is there and meets the target, an optional one
also if there is none, a repeated one if its value is an array of such values. -/
lemma QualifiedSchema.checkField_ok {members : Table Json}
    {field : QualifiedField QualifiedSchema} :
    (q.checkField bodies discriminator (members.map (Json.slot bodies discriminator))
        field).result = .ok () ↔
      match field.qualifier with
      | .required => ∃ w, members.find? field.name = some w ∧ w ≠ .null ∧
          w.Meets bodies discriminator q field.target
      | .optional => ∀ w, members.find? field.name = some w →
          w = .null ∨ w.Meets bodies discriminator q field.target
      | .repeated => ∃ items, members.find? field.name = some (.array items) ∧
          ∀ i, (items.item i).Meets bodies discriminator q field.target := by
  rw [checkField, Table.find?_map]
  cases hw : members.find? field.name with
  | none => cases hq : field.qualifier <;> simp
  | some w =>
      by_cases hnull : w = .null
      · subst hnull
        have habsent : Json.isNull .null = true := rfl
        simp only [Option.map_some, Option.filter_some, Json.slot_value, habsent, Bool.not_true,
          Bool.false_eq_true, if_false]
        cases hq : field.qualifier <;> simp
      · have hpresent : w.isNull = false := Bool.eq_false_iff.mpr (mt Json.isNull_iff.mp hnull)
        simp only [Option.map_some, Option.filter_some, Json.slot_value, hpresent, Bool.not_false,
          if_true, Slot.checkPresent]
        cases hq : field.qualifier with
        | required => simp [hnull, Json.Meets]
        | optional => simp [hnull, Json.Meets]
        | repeated =>
            cases w with
            | array items =>
                simp only [Json.slot_items_array, Traced.forEach_ok, Verdict.within_ok,
                  Option.some.injEq, Json.array.injEq, exists_eq_left']
                exact ⟨fun h i => h i (List.mem_finRange i), fun h i _ => h i⟩
            | null | boolean | number | string | object =>
                simp [Json.slot_items_eq_none]

end Checks

/-! ### Agreement -/

section Agreement

variable {bodies : Family} {discriminator : String} {q : QualifiedSchema}
  {record : QualifiedSchema → Factory}

lemma Target.isOptional_toTy {target : Target QualifiedSchema}
    (h : ∀ t, target = .type t → t.isOptional = false) :
    (target.toTy record q).isOptional = false := by
  cases target with
  | type t => exact h t rfl
  | schema | self => rfl

/-- **A declared field passes if it passes as a field of the record after pruning**,
provided that the values inside meet a target if they pass as its type after pruning. -/
lemma Json.cut_field_ok {members : Table Json} {field : QualifiedField QualifiedSchema}
    (hstrict : field.qualifier = .required → ∀ t, field.target = .type t → t.isOptional = false)
    (hmeets : ∀ w, TransGen IsPart w (.object members) →
      (w.Meets bodies discriminator q field.target ↔
        ((w.cut false (field.target.schema? q)).check bodies discriminator
          (field.target.toTy record q)).result = .ok ())) :
    (q.checkField bodies discriminator (members.map (slot bodies discriminator))
        field).result = .ok () ↔
      (cutField q field (members.find? field.name) = .null →
          (field.toTy record q).isOptional = true) ∧
        ((cutField q field (members.find? field.name)).check bodies discriminator
          (field.toTy record q)).result = .ok () := by
  rw [QualifiedSchema.checkField_ok]
  obtain ⟨name, qualifier, target⟩ := field
  cases qualifier with
  | required =>
      have hty : QualifiedField.toTy record q ⟨name, .required, target⟩ =
          target.toTy record q := rfl
      have hcut : ∀ w, cutField q ⟨name, .required, target⟩ (some w) =
          w.cut false (target.schema? q) := fun _ => rfl
      rw [hty, Target.isOptional_toTy (hstrict rfl)]
      cases hw : members.find? name with
      | none => simp [cutField]
      | some w =>
          have hpart := hmeets w (.single (isPart_of_find? hw))
          simp [hcut, cut_eq_null, hpart]
  | optional =>
      have hty : QualifiedField.toTy record q ⟨name, .optional, target⟩ =
          .container .optional (target.toTy record q) := rfl
      have hcut : ∀ w, cutField q ⟨name, .optional, target⟩ (some w) =
          w.cut false (target.schema? q) := fun _ => rfl
      rw [hty, check_optional_ok]
      cases hw : members.find? name with
      | none => simp [cutField, Ty.isOptional]
      | some w =>
          have hpart := hmeets w (.single (isPart_of_find? hw))
          simp [hcut, cut_eq_null, hpart, Ty.isOptional]
  | repeated =>
      have hty : QualifiedField.toTy record q ⟨name, .repeated, target⟩ =
          .container .repeated (target.toTy record q) := rfl
      have hcut : ∀ w, cutField q ⟨name, .repeated, target⟩ (some w) =
          w.cut true (target.schema? q) := fun _ => rfl
      rw [hty, check_repeated_ok]
      constructor
      · rintro ⟨items, hw, hitems⟩
        have hpart := isPart_of_find? hw
        rw [hw, hcut, cut_items]
        refine ⟨nofun, _, rfl, fun i => ?_⟩
        exact (hmeets _ (.tail (.single (.item items i)) hpart)).mp (hitems i)
      · rintro ⟨-, cuts, hcuts, hitems⟩
        cases hw : members.find? name with
        | none =>
            rw [hw] at hcuts
            cases hcuts
        | some w =>
            have hpart := isPart_of_find? hw
            rw [hw, hcut] at hcuts
            obtain ⟨items, rfl, rfl⟩ := cut_eq_array hcuts
            refine ⟨items, rfl, fun i => ?_⟩
            exact (hmeets _ (.tail (.single (.item items i)) hpart)).mpr (hitems i)

/-- What is inside a schema has the records that the schema itself has. -/
lemma Family.HasRecords.inner {s : QualifiedSchema} (h : bodies.HasRecords record q)
    (hs : q.Uses s) : bodies.HasRecords record s where
  kind u hu := h.kind u (hs.trans hu)
  arity u hu := h.arity u (hs.trans hu)
  body u hu := h.body u (hs.trans hu)

lemma QualifiedSchema.Regular.inner {s : QualifiedSchema} (h : q.Regular) (hs : q.Uses s) :
    s.Regular where
  distinct u hu := h.distinct u (hs.trans hu)
  strict u hu := h.strict u (hs.trans hu)

/-- Objects with exactly the declared fields pass a record with exactly these if all
values pass as fields. -/
lemma Json.check_tabulate_ok (distinct : (q.fields.map QualifiedField.name).Nodup)
    {values : QualifiedField QualifiedSchema → Json} {types : QualifiedField QualifiedSchema → Ty} :
    ((object (q.tabulate values)).check bodies discriminator
        (.fields (q.tabulate types))).result = .ok () ↔
      ∀ field ∈ q.fields, (values field = .null → (types field).isOptional = true) ∧
        ((values field).check bodies discriminator (types field)).result = .ok () := by
  rw [check_fields_ok]
  constructor
  · rintro ⟨members, hmembers, -, heach⟩ field hfield
    obtain rfl := object.inj hmembers
    exact heach _ _ _ (QualifiedSchema.find?_tabulate distinct hfield)
      (QualifiedSchema.find?_tabulate distinct hfield)
  · refine fun h => ⟨_, rfl, fun name => ?_, fun name t w ht hw => ?_⟩
    · rw [QualifiedSchema.names_tabulate distinct, QualifiedSchema.names_tabulate distinct]
    · obtain ⟨field, hfield, rfl, rfl⟩ := QualifiedSchema.exists_of_find?_tabulate distinct ht
      obtain rfl := Option.some.inj
        (hw.symm.trans (QualifiedSchema.find?_tabulate distinct hfield))
      exact h field hfield

/-- **The two checks agree at every value.** The induction is on the value, since a
schema may be inside itself: what is inside an object is checked against the schemas
inside the schema. -/
lemma Json.asObject_ok_iff (v : Json) (renders : bodies.HasRecords record q)
    (regular : q.Regular) :
    ((v.slot bodies discriminator).asObject q).result = .ok () ↔
      ((q.prune v).check bodies discriminator (.inst (record q).generic)).result = .ok () := by
  induction v using isPart_wellFounded.transGen.induction generalizing q with
  | _ v ih =>
  have hbody := renders.body q .refl
  have hkind : (record q).generic.factory.kind = .record := renders.kind q .refl
  have hrecord : ∀ w : Json,
      (w.check bodies discriminator (.inst (record q).generic)).result = .ok () ↔
        (w.check bodies discriminator (.fields (q.recordEntries record))).result = .ok () := by
    intro w
    rw [check_inst_ok, hkind, hbody]
    simp
  rw [asObject_ok, hrecord]
  cases v with
  | object members =>
      rw [QualifiedSchema.prune, cut_object, QualifiedSchema.recordEntries,
        check_tabulate_ok (regular.distinct q .refl)]
      simp only [object.injEq, exists_eq_left']
      refine forall₂_congr fun field hfield => ?_
      refine cut_field_ok (regular.strict q .refl field hfield) fun w hw => ?_
      cases htarget : field.target with
      | type t => simp [Meets, Subject.checkTarget, Target.schema?, Target.toTy]
      | schema s =>
          have huses : q.Uses s := .single ⟨field, hfield, htarget⟩
          exact ih w hw (renders.inner huses) (regular.inner huses)
      | self => exact ih w hw renders regular
  | null | boolean | number | string | array =>
      simp only [QualifiedSchema.prune, cut, check_fields_ok, reduceCtorEq, false_and,
        exists_false]

end Agreement

/-- The check hands the value back if it passes as an object of the schema. -/
lemma QualifiedSchema.result_check (bodies : Family) (config : Config) (q : QualifiedSchema)
    (v : Json) :
    (q.check bodies config v).result =
      ((v.slot bodies config.discriminator).asObject q).result.map fun _ => v := by
  rw [check, Traced.bind_eq, Traced.bind, Traced.result_shown]
  cases ((v.slot bodies config.discriminator).asObject q).result <;> rfl

/-- **A qualified schema is a record up to leniency.** Next to the factories that there are,
there is room for records that stand for the schemas inside a schema, with the translated
fields. Whatever these records are: the check against a regular schema succeeds exactly on the
values that, cut down to the declared fields, pass the check against its record. -/
theorem check_qualified_iff (bodies : Family) (q : QualifiedSchema) :
    (∀ used, ∃ (record : QualifiedSchema → Factory) (extended : Family),
        extended.HasRecords record q ∧ ∀ i, i.factory.serial < used → extended i = bodies i) ∧
      ∀ record, bodies.HasRecords record q → q.Regular → ∀ config v,
        (∃ w, (q.check bodies config v).result = .ok w) ↔
          ∃ w, (check bodies config (.inst (record q).generic) (q.prune v)).result = .ok w := by
  refine ⟨fun used => bodies.exists_hasRecords used q, fun record renders regular config v => ?_⟩
  have hagree : ((v.slot bodies config.discriminator).asObject q).result = .ok () ↔ _ :=
    Json.asObject_ok_iff v renders regular
  rw [QualifiedSchema.result_check, check_result]
  simp only [except_map_ok, exists_comm, exists_eq_right', hagree]

namespace School

/-- `name` required, `parent` optional and `friends` repeated, the latter two of the
schema's own kind. -/
def student : QualifiedSchema :=
  .mk "student" [⟨"name", .required, .type .string⟩, ⟨"parent", .optional, .self⟩,
    ⟨"friends", .repeated, .self⟩]

/-- An optional favourite student, and another mentor. -/
def mentor : QualifiedSchema :=
  .mk "mentor" [⟨"fav", .optional, .schema student⟩, ⟨"affair", .optional, .self⟩]

/-- A record of the name of the schema. -/
def record (s : QualifiedSchema) : Factory :=
  ⟨0, s.name, .record, 0⟩

/-- The records of students and mentors. -/
def bodies : Family := fun i =>
  if i.factory.name = "student" then .ok (student.recordEntries record)
  else .ok (mentor.recordEntries record)

lemma not_student_captures {s : QualifiedSchema} : ¬ student.Captures s := by
  rintro ⟨field, hfield, htarget⟩
  simp only [student, QualifiedSchema.fields, List.mem_cons, List.not_mem_nil, or_false] at hfield
  rcases hfield with rfl | rfl | rfl <;> cases htarget

/-- Inside a mentor there is a student. -/
lemma mentor_uses {s : QualifiedSchema} (h : mentor.Uses s) : s = mentor ∨ s = student := by
  induction h with
  | refl => exact Or.inl rfl
  | tail _ hcaptures ih =>
      rcases ih with rfl | rfl
      · obtain ⟨field, hfield, htarget⟩ := hcaptures
        simp only [mentor, QualifiedSchema.fields, List.mem_cons, List.not_mem_nil,
          or_false] at hfield
        rcases hfield with rfl | rfl
        · exact Or.inr (Target.schema.inj htarget).symm
        · cases htarget
      · exact absurd hcaptures not_student_captures

lemma hasRecords : bodies.HasRecords record mentor where
  kind _ _ := rfl
  arity _ _ := rfl
  body s hs := by
    rcases mentor_uses hs with rfl | rfl <;> rfl

lemma regular : mentor.Regular where
  distinct s hs := by
    rcases mentor_uses hs with rfl | rfl <;> decide
  strict s hs field hfield hrequired t htarget := by
    rcases mentor_uses hs with rfl | rfl
    · simp only [mentor, QualifiedSchema.fields, List.mem_cons, List.not_mem_nil,
        or_false] at hfield
      rcases hfield with rfl | rfl <;> cases htarget
    · simp only [student, QualifiedSchema.fields, List.mem_cons, List.not_mem_nil,
        or_false] at hfield
      rcases hfield with rfl | rfl | rfl <;> cases htarget
      rfl

/-- `{ "fav": { "name": "Peter", "age": 14, "friends": [] } }`, which leaves out both
optional fields and has an undeclared one. -/
def garrison : Json :=
  .ofMembers [("fav", .ofMembers [("name", .string "Peter"), ("age", .number (.integer 14)),
    ("friends", .ofItems [])])]

end School

/-- A mentor without an affair, whose student has an undeclared age, passes both. -/
theorem check_qualified_mentor :
    School.bodies.HasRecords School.record School.mentor ∧ School.mentor.Regular ∧
      (∃ w, (School.mentor.check School.bodies .standard School.garrison).result = .ok w) ∧
      ∃ w, (check School.bodies .standard (.inst (School.record School.mentor).generic)
        (School.mentor.prune School.garrison)).result = .ok w := by
  have hchecked : ∃ w, (School.mentor.check School.bodies .standard School.garrison).result =
      .ok w := ⟨_, rfl⟩
  obtain ⟨-, hagree⟩ := check_qualified_iff School.bodies School.mentor
  exact ⟨School.hasRecords, School.regular, hchecked, (hagree School.record School.hasRecords
    School.regular .standard School.garrison).mp hchecked⟩

end JsonTypes
