/-
Structural checking decides conformance.

Conformance says what it means for a value to have a declared shape, without
saying how that is found out. Types may expand without end, so the check is
compared with it by induction over the value, and at each value over the type.

* `Conforms`: the least relation between types and values that is closed under
  the rules for primitives, containers, field mappings, records and schemas.
* `Json.IsPart`, `Json.part_induction`: induction over a value from its items and
  members.
* `Json.check_eq`: the check of a value is the check of its outermost layer; from it one
  equation for each form of types, with `Json.checkMembers` where only objects pass.
* `Table.checkFields_ok`, `Table.checkVariant_ok`: when objects pass.
* `conforms_of_check`, `check_of_conforms`: the two directions of the main statement.
* `check_ok_iff_conforms`: the check succeeds, with the value itself, exactly on
  the values that conform.
-/
import JsonTypes.Proofs.Tables
import JsonTypes.Proofs.Traces

namespace JsonTypes

/-! ### Conformance -/

/-- The values of a type, where a schema's values name their variant under
`discriminator`. -/
inductive Conforms (bodies : Family) (discriminator : String) : Ty → Json → Prop where
  /-- A primitive has the values of its kind; null is of none. -/
  | primitive {p : Primitive} {v : Json} (present : v ≠ .null) (kind : v.kind = p.kind) :
      Conforms bodies discriminator (.primitive p) v
  | absent {t : Ty} : Conforms bodies discriminator (.container .optional t) .null
  | present {t : Ty} {v : Json} (value : Conforms bodies discriminator t v) :
      Conforms bodies discriminator (.container .optional t) v
  | repeated {t : Ty} {items : Row Json}
      (each : ∀ i, Conforms bodies discriminator t (items.item i)) :
      Conforms bodies discriminator (.container .repeated t) (.array items)
  | map {t : Ty} {members : Table Json}
      (each : ∀ i, Conforms bodies discriminator t (members.entry i)) :
      Conforms bodies discriminator (.container .map t) (.object members)
  /-- The keys are the declared names, in any order. -/
  | fields {declared : Table Ty} {members : Table Json}
      (keys : ∀ name, name ∈ members.names.toList ↔ name ∈ declared.names.toList)
      (each : ∀ name t v, declared.find? name = some t → members.find? name = some v →
        Conforms bodies discriminator t v) :
      Conforms bodies discriminator (.fields declared) (.object members)
  /-- A record has the values of the field mapping that it expands to. -/
  | record {i : Instance} {declared : Table Ty} {v : Json} (kind : i.factory.kind = .record)
      (expands : bodies i = .ok declared)
      (value : Conforms bodies discriminator (.fields declared) v) :
      Conforms bodies discriminator (.inst i) v
  /-- A schema has the objects of two members that name a variant under the
  discriminator and hold its payload under its name. -/
  | schema {i : Instance} {variants : Table Ty} {members : Table Json} {constr : String}
      {shape : Ty} {payload : Json} (kind : i.factory.kind = .schema)
      (expands : bodies i = .ok variants) (two : members.size = 2)
      (tag : members.find? discriminator = some (.string constr))
      (variant : variants.find? constr = some shape)
      (held : members.find? constr = some payload) (present : payload ≠ .null)
      (value : Conforms bodies discriminator shape payload) :
      Conforms bodies discriminator (.inst i) (.object members)

/-! ### The parts of a value -/

namespace Json

/-- The items of an array and the values of an object's members. -/
inductive IsPart : Json → Json → Prop where
  | item (items : Row Json) (i : Fin items.length) : IsPart (items.item i) (.array items)
  | member (members : Table Json) (i : members.names.Index) :
      IsPart (members.entry i) (.object members)

/-- A property of all parts of a value that passes to the value holds always. -/
@[elab_as_elim]
lemma part_induction {motive : Json → Prop}
    (step : ∀ v, (∀ w, w.IsPart v → motive w) → motive v) (v : Json) : motive v := by
  induction v with
  | array items ih =>
      refine step _ fun w hw => ?_
      cases hw with
      | item _ i => exact ih i
  | object members ih =>
      refine step _ fun w hw => ?_
      cases hw with
      | member _ i => exact ih i
  | null | boolean | number | string => exact step _ fun w hw => by cases hw

lemma isPart_wellFounded : WellFounded IsPart :=
  ⟨fun v => part_induction (fun v ih => Acc.intro v ih) v⟩

lemma isPart_of_find? {members : Table Json} {name : String} {v : Json}
    (h : members.find? name = some v) : v.IsPart (.object members) := by
  obtain ⟨i, -, rfl⟩ := Table.find?_eq_some.mp h
  exact .member members i

lemma isNull_iff {v : Json} : v.isNull = true ↔ v = .null := by
  cases v <;> simp [isNull]

variable (bodies : Family) (discriminator : String)

/-- A value with its own check, as a part of the value around it. -/
def part (v : Json) : Part := ⟨v, v.check bodies discriminator⟩

@[simp] lemma part_value (v : Json) : (v.part bodies discriminator).value = v := rfl

@[simp] lemma part_check (v : Json) (t : Ty) :
    (v.part bodies discriminator).check t = v.check bodies discriminator t := rfl

/-- The outermost layer of a value. -/
def layer : Json → Layer
  | array items => .items (items.map (part bodies discriminator))
  | object members => .members (members.map (part bodies discriminator))
  | _ => .scalar

/-- The check of a value is the check of its outermost layer, whose parts are
checked in the same way. -/
lemma check_eq (v : Json) (t : Ty) :
    v.check bodies discriminator t =
      t.checkLayer bodies discriminator v (v.layer bodies discriminator) := by
  cases v <;> rfl

variable {bodies discriminator}

/-- A check of the members of a value. Only objects have members. -/
def checkMembers (bodies : Family) (discriminator : String) (v : Json)
    (run : Table Part → Verdict) : Verdict :=
  match (v.layer bodies discriminator).keyed v with
  | .error reason => .wrong reason
  | .ok members => run members

/-- The check of a value against the variants of a schema. -/
def checkVariants (bodies : Family) (discriminator : String) (v : Json) (variants : Table Ty) :
    Verdict :=
  v.checkMembers bodies discriminator fun members => members.checkVariant discriminator variants

/-! The check against a type of each form. -/

section Equations

variable (v : Json) (t : Ty)

lemma check_primitive (p : Primitive) :
    v.check bodies discriminator (.primitive p) =
      if p.holds v then pure () else Verdict.wrong (absentOr v (mismatch p.name v)) := by
  rw [check_eq]
  rfl

lemma check_optional :
    v.check bodies discriminator (.container .optional t) =
      if v.isNull then pure () else v.check bodies discriminator t := by
  rw [check_eq, check_eq]
  rfl

lemma check_repeated_array (items : Row Json) :
    (array items).check bodies discriminator (.container .repeated t) =
      Traced.forEach (fun i => ((items.item i).check bodies discriminator t).within (.index i))
        (List.finRange _) := rfl

lemma check_map :
    v.check bodies discriminator (.container .map t) =
      v.checkMembers bodies discriminator fun members =>
        Traced.forEach (fun i => ((members.entry i).check t).within (.key (members.name i)))
          members.indices := by
  rw [check_eq]
  rfl

lemma check_fields (declared : Table Ty) :
    v.check bodies discriminator (.fields declared) =
      v.checkMembers bodies discriminator fun members => members.checkFields declared := by
  rw [check_eq]
  rfl

/-- An instance is expanded, and the value is checked against its fields or variants. -/
lemma check_inst (i : Instance) :
    v.check bodies discriminator (.inst i) =
      Traced.report (.expandingForCheck i) >>= fun _ =>
        Traced.of ((bodies.describe i).mapError .definition) >>= fun d =>
          match d.kind with
          | .record => v.check bodies discriminator (.fields d.entries)
          | .schema => v.checkVariants bodies discriminator d.entries := by
  rw [check_eq]
  refine congrArg (Traced.report _ >>= ·) (funext fun _ => ?_)
  refine congrArg (Traced.of _ >>= ·) (funext fun d => ?_)
  rw [check_fields]
  cases v <;> cases d.kind <;> rfl

lemma check_param (index : ℕ) :
    v.check bodies discriminator (.param index) =
      Verdict.wrong (absentOr v (mismatch (placeholderText index) v)) := by
  rw [check_eq]
  rfl

end Equations

/-- Only objects have members. -/
lemma keyed_layer {v : Json} {table : Table Part}
    (h : (v.layer bodies discriminator).keyed v = .ok table) :
    ∃ members, v = .object members ∧ table = members.map (part bodies discriminator) := by
  cases v with
  | object members => exact ⟨members, rfl, (Except.ok.inj h).symm⟩
  | null | boolean | number | string | array => cases h

section Members

variable {v : Json} {run : Table Part → Verdict}

lemma checkMembers_object (members : Table Json) :
    (object members).checkMembers bodies discriminator run =
      run (members.map (part bodies discriminator)) := rfl

lemma checkMembers_ok :
    (v.checkMembers bodies discriminator run).result = .ok () ↔
      ∃ members, v = .object members ∧
        (run (members.map (part bodies discriminator))).result = .ok () := by
  cases v with
  | object members =>
      simp only [object.injEq, exists_eq_left']
      rfl
  | null | boolean | number | string | array =>
      exact iff_of_false (by rintro ⟨⟩) (by rintro ⟨_, ⟨⟩, _⟩)

/-- A check of the members is wrong about the value itself, or fails as an object. -/
lemma checkMembers_error {e : CheckError}
    (h : (v.checkMembers bodies discriminator run).result = .error e) :
    (∃ reason, (v.layer bodies discriminator).keyed v = .error reason ∧ e = .here reason) ∨
      ∃ members, v = .object members ∧
        (run (members.map (part bodies discriminator))).result = .error e := by
  cases hkeyed : (v.layer bodies discriminator).keyed v with
  | error reason =>
      rw [checkMembers, hkeyed] at h
      exact Or.inl ⟨reason, rfl, (Except.error.inj h).symm⟩
  | ok table =>
      obtain ⟨members, rfl, rfl⟩ := keyed_layer hkeyed
      exact Or.inr ⟨members, rfl, h⟩

end Members

end Json

variable {bodies : Family} {discriminator : String}

@[simp] lemma Verdict.result_wrong (reason : Reason) :
    (Verdict.wrong reason).result = .error (.here reason) := rfl

lemma Verdict.within_ok {step : Segment} {verdict : Verdict} :
    (verdict.within step).result = .ok () ↔ verdict.result = .ok () :=
  Traced.mapError_ok

/-! ### When objects pass -/

/-- What stands under a name in the parts of an object is the member itself. -/
lemma Table.find?_part_value (members : Table Json) (name : String) :
    ((members.map (Json.part bodies discriminator)).find? name).map Part.value =
      members.find? name := by
  rw [Table.find?_map, Option.map_map]
  exact Option.map_id'

/-- A field passes if its value does and is null only where that is allowed. -/
lemma Part.checkField_ok {name : String} {t : Ty} {v : Json} :
    ((v.part bodies discriminator).checkField name t).result = .ok () ↔
      (v = .null → t.isOptional = true) ∧ (v.check bodies discriminator t).result = .ok () := by
  rw [Part.checkField, Json.part_value, Json.part_check]
  split_ifs with h
  · simp only [Bool.and_eq_true, Bool.not_eq_true', Json.isNull_iff] at h
    simp [h.1, h.2]
  · simp only [Bool.and_eq_true, Bool.not_eq_true', Json.isNull_iff, not_and,
      Bool.not_eq_false] at h
    simp only [Verdict.within_ok, iff_and_self]
    exact fun _ => h

/-- An object passes against named fields if its keys are the declared names and
the value under every name passes as that field. -/
lemma Table.checkFields_ok {members : Table Json} {declared : Table Ty} :
    ((members.map (Json.part bodies discriminator)).checkFields declared).result = .ok () ↔
      (∀ name, name ∈ members.names.toList ↔ name ∈ declared.names.toList) ∧
        ∀ name t v, declared.find? name = some t → members.find? name = some v →
          (v = .null → t.isOptional = true) ∧
            (v.check bodies discriminator t).result = .ok () := by
  rw [Table.checkFields]
  split_ifs with hkeys
  · rw [Table.sameKeys_iff] at hkeys
    rw [Traced.forEach_ok]
    constructor
    · refine fun h => ⟨hkeys, fun name t v ht hv => ?_⟩
      obtain ⟨i, rfl, rfl⟩ := Table.find?_eq_some.mp ht
      have hi := h i (List.mem_finRange i)
      rw [Table.find?_map, hv] at hi
      exact Part.checkField_ok.mp hi
    · rintro ⟨-, h⟩ i -
      rw [Table.find?_map]
      cases hv : members.find? (declared.name i) with
      | none => rfl
      | some v => exact Part.checkField_ok.mpr (h _ _ v (declared.find?_name i) hv)
  · rw [Table.sameKeys_iff] at hkeys
    simp only [Verdict.result_wrong, reduceCtorEq, false_iff, not_and]
    exact fun h => absurd h hkeys

/-- An object that names a variant and has a member of this name is checked by the number of
its members and its payload. -/
lemma Table.checkVariant_held {members : Table Json} {variants : Table Ty} {constr : String}
    {shape : Ty} {payload : Json} (tag : members.find? discriminator = some (.string constr))
    (variant : variants.find? constr = some shape) (held : members.find? constr = some payload) :
    Table.checkVariant discriminator (members.map (Json.part bodies discriminator)) variants =
      if members.size ≠ 2 then
        .wrong (.expectedFields [discriminator, constr] members.names.toList)
      else if payload.isNull then .wrong (.undefinedNull (some constr))
      else (payload.check bodies discriminator shape).within (.variant constr) := by
  simp only [checkVariant, find?_map, tag, Option.map_some, Json.part_value, variant, held]
  rfl

/-- Such an object passes if it has two members and its payload passes and is not null. -/
lemma Table.checkVariant_held_ok {members : Table Json} {variants : Table Ty} {constr : String}
    {shape : Ty} {payload : Json} (tag : members.find? discriminator = some (.string constr))
    (variant : variants.find? constr = some shape) (held : members.find? constr = some payload) :
    (Table.checkVariant discriminator (members.map (Json.part bodies discriminator))
        variants).result = .ok () ↔
      members.size = 2 ∧ payload ≠ .null ∧
        (payload.check bodies discriminator shape).result = .ok () := by
  rw [checkVariant_held tag variant held]
  split_ifs with htwo hnull
  · simp [htwo]
  · simp [Json.isNull_iff.mp hnull]
  · have hpresent : payload ≠ .null := mt Json.isNull_iff.mpr hnull
    simp [Verdict.within_ok, not_not.mp htwo, hpresent]

/-- An object passes against the variants of a schema if it has two members, of
which the discriminator names a variant and the other, not null, is its
payload. -/
lemma Table.checkVariant_ok {members : Table Json} {variants : Table Ty} :
    (Table.checkVariant discriminator (members.map (Json.part bodies discriminator))
        variants).result = .ok () ↔
      ∃ constr shape payload, members.size = 2 ∧
        members.find? discriminator = some (.string constr) ∧
        variants.find? constr = some shape ∧ members.find? constr = some payload ∧
        payload ≠ .null ∧ (payload.check bodies discriminator shape).result = .ok () := by
  constructor
  · intro h
    cases htag : members.find? discriminator with
    | none => simp [Table.checkVariant, Table.find?_map, htag] at h
    | some tag =>
        cases tag with
        | string constr =>
            cases hshape : variants.find? constr with
            | none => simp [Table.checkVariant, Table.find?_map, htag, hshape] at h
            | some shape =>
                cases hheld : members.find? constr with
                | none => simp [Table.checkVariant, Table.find?_map, htag, hshape, hheld] at h
                | some payload =>
                    obtain ⟨htwo, hpresent, hok⟩ := (checkVariant_held_ok htag hshape hheld).mp h
                    exact ⟨constr, shape, payload, htwo, rfl, hshape, hheld, hpresent, hok⟩
        | null | boolean | number | array | object =>
            simp [Table.checkVariant, Table.find?_map, htag, Verdict.within] at h
  · rintro ⟨constr, shape, payload, htwo, htag, hshape, hheld, hpresent, hok⟩
    exact (checkVariant_held_ok htag hshape hheld).mpr ⟨htwo, hpresent, hok⟩

/-! ### When values pass -/

namespace Json

variable {v : Json} {t : Ty}

lemma check_primitive_ok {p : Primitive} :
    (v.check bodies discriminator (.primitive p)).result = .ok () ↔
      v ≠ .null ∧ v.kind = p.kind := by
  have hkind : v.kind = p.kind → v ≠ .null := by
    rintro h rfl
    cases p <;> cases h
  rw [check_primitive, Primitive.holds]
  by_cases h : v.kind = p.kind
  · simp [h, hkind h]
  · simp [h]

lemma check_optional_ok :
    (v.check bodies discriminator (.container .optional t)).result = .ok () ↔
      v = .null ∨ (v.check bodies discriminator t).result = .ok () := by
  rw [check_optional]
  split_ifs with h
  · simp [isNull_iff.mp h]
  · simp [mt isNull_iff.mpr h]

lemma check_repeated_ok :
    (v.check bodies discriminator (.container .repeated t)).result = .ok () ↔
      ∃ items, v = .array items ∧
        ∀ i, ((items.item i).check bodies discriminator t).result = .ok () := by
  cases v with
  | array items =>
      simp only [check_repeated_array, Traced.forEach_ok, Verdict.within_ok, array.injEq,
        exists_eq_left']
      exact ⟨fun h i => h i (List.mem_finRange i), fun h i _ => h i⟩
  | null | boolean | number | string | object =>
      exact iff_of_false (by rintro ⟨⟩) (by rintro ⟨_, ⟨⟩, _⟩)

lemma check_map_ok :
    (v.check bodies discriminator (.container .map t)).result = .ok () ↔
      ∃ members, v = .object members ∧
        ∀ i, ((members.entry i).check bodies discriminator t).result = .ok () := by
  rw [check_map, checkMembers_ok]
  refine exists_congr fun members => and_congr_right fun _ => ?_
  simp only [Traced.forEach_ok, Verdict.within_ok]
  exact ⟨fun h i => h i (List.mem_finRange i), fun h i _ => h i⟩

lemma check_fields_ok {declared : Table Ty} :
    (v.check bodies discriminator (.fields declared)).result = .ok () ↔
      ∃ members, v = .object members ∧
        (∀ name, name ∈ members.names.toList ↔ name ∈ declared.names.toList) ∧
          ∀ name t w, declared.find? name = some t → members.find? name = some w →
            (w = .null → t.isOptional = true) ∧
              (w.check bodies discriminator t).result = .ok () := by
  rw [check_fields, checkMembers_ok]
  exact exists_congr fun members => and_congr_right fun _ => Table.checkFields_ok

/-- The check against an instance whose body fails has the error of the body. -/
lemma check_inst_of_error {i : Instance} {e : DefinitionError} (hi : bodies i = .error e) :
    (v.check bodies discriminator (.inst i)).result = .error (.definition e) := by
  rw [check_inst, Family.describe, hi]
  rfl

/-- The check against a record is the one against the field mapping that it expands to. -/
lemma check_inst_of_record {i : Instance} {entries : Table Ty} (hi : bodies i = .ok entries)
    (hkind : i.factory.kind = .record) :
    (v.check bodies discriminator (.inst i)).result =
      (v.check bodies discriminator (.fields entries)).result := by
  rw [check_inst, Family.describe, hi, hkind]
  rfl

/-- The check against a schema is the one against the variants that it expands to. -/
lemma check_inst_of_schema {i : Instance} {entries : Table Ty} (hi : bodies i = .ok entries)
    (hkind : i.factory.kind = .schema) :
    (v.check bodies discriminator (.inst i)).result =
      (v.checkVariants bodies discriminator entries).result := by
  rw [check_inst, Family.describe, hi, hkind]
  rfl

/-- An object is checked against a schema as against the variants that it expands to. -/
lemma check_object_of_schema {i : Instance} {entries : Table Ty} {members : Table Json}
    (hi : bodies i = .ok entries) (hkind : i.factory.kind = .schema) :
    ((object members).check bodies discriminator (.inst i)).result =
      (Table.checkVariant discriminator (members.map (part bodies discriminator)) entries).result :=
  check_inst_of_schema hi hkind

/-- An instance that does not expand has no values. One that does is checked as
its field mapping, or against its variants. -/
lemma check_inst_ok {i : Instance} :
    (v.check bodies discriminator (.inst i)).result = .ok () ↔
      ∃ entries, bodies i = .ok entries ∧
        match i.factory.kind with
        | .record => (v.check bodies discriminator (.fields entries)).result = .ok ()
        | .schema => ∃ members, v = .object members ∧
            (Table.checkVariant discriminator (members.map (part bodies discriminator))
              entries).result = .ok () := by
  cases hi : bodies i with
  | error e => simp [check_inst_of_error hi]
  | ok entries =>
      cases hkind : i.factory.kind with
      | record => simp [check_inst_of_record hi hkind]
      | schema => simp [check_inst_of_schema hi hkind, checkVariants, checkMembers_ok]

lemma check_param_ne_ok {index : ℕ} :
    (v.check bodies discriminator (.param index)).result ≠ .ok () := by
  simp [check_param]

end Json

/-- Null conforms to optional types only. -/
lemma Conforms.isOptional_of_null {t : Ty} (h : Conforms bodies discriminator t .null) :
    t.isOptional = true := by
  cases h with
  | primitive present => exact absurd rfl present
  | absent | present => rfl
  | record _ _ value => cases value

/-- A field mapping has the values that its check accepts, if that is so for the
types of the fields and the parts of the value. A null field needs no rule of its
own, since null conforms to optional types only. -/
lemma Json.check_fields_ok_iff {v : Json} {declared : Table Ty}
    (ihv : ∀ w, w.IsPart v → ∀ t,
      (w.check bodies discriminator t).result = .ok () ↔ Conforms bodies discriminator t w) :
    (v.check bodies discriminator (.fields declared)).result = .ok () ↔
      Conforms bodies discriminator (.fields declared) v := by
  rw [check_fields_ok]
  constructor
  · rintro ⟨members, rfl, hkeys, heach⟩
    refine .fields hkeys fun name t w ht hw => ?_
    exact (ihv w (isPart_of_find? hw) t).mp (heach name t w ht hw).2
  · intro h
    cases h with
    | fields hkeys heach =>
        refine ⟨_, rfl, hkeys, fun name t w ht hw => ?_⟩
        have hw' := heach name t w ht hw
        refine ⟨?_, (ihv w (isPart_of_find? hw) t).mpr hw'⟩
        rintro rfl
        exact hw'.isOptional_of_null

/-- **The check of a value decides whether it conforms.** The induction is on the
value; at one value it is on the type, as far as the type is written out. -/
lemma Json.check_ok_iff (v : Json) (t : Ty) :
    (v.check bodies discriminator t).result = .ok () ↔ Conforms bodies discriminator t v := by
  induction v using Json.part_induction generalizing t with
  | _ v ihv =>
  induction t with
  | primitive p =>
      rw [check_primitive_ok]
      constructor
      · rintro ⟨hpresent, hkind⟩
        exact .primitive hpresent hkind
      · intro h
        cases h with
        | primitive hpresent hkind => exact ⟨hpresent, hkind⟩
  | container c t iht =>
      cases c with
      | optional =>
          rw [check_optional_ok, iht]
          constructor
          · rintro (rfl | h)
            · exact .absent
            · exact .present h
          · intro h
            cases h with
            | absent => exact Or.inl rfl
            | present h => exact Or.inr h
      | repeated =>
          rw [check_repeated_ok]
          constructor
          · rintro ⟨items, rfl, heach⟩
            exact .repeated fun i => (ihv _ (.item items i) t).mp (heach i)
          · intro h
            cases h with
            | repeated heach => exact ⟨_, rfl, fun i => (ihv _ (.item _ i) t).mpr (heach i)⟩
      | map =>
          rw [check_map_ok]
          constructor
          · rintro ⟨members, rfl, heach⟩
            exact .map fun i => (ihv _ (.member members i) t).mp (heach i)
          · intro h
            cases h with
            | map heach => exact ⟨_, rfl, fun i => (ihv _ (.member _ i) t).mpr (heach i)⟩
  | fields declared => exact check_fields_ok_iff ihv
  | inst i =>
      rw [check_inst_ok]
      constructor
      · rintro ⟨entries, hexpands, h⟩
        split at h
        next hkind => exact .record hkind hexpands ((check_fields_ok_iff ihv).mp h)
        next hkind =>
          obtain ⟨members, rfl, h⟩ := h
          obtain ⟨constr, shape, payload, htwo, htag, hvariant, hheld, hpresent, h⟩ :=
            Table.checkVariant_ok.mp h
          exact .schema hkind hexpands htwo htag hvariant hheld hpresent
            ((ihv payload (isPart_of_find? hheld) shape).mp h)
      · intro h
        cases h with
        | record hkind hexpands h =>
            refine ⟨_, hexpands, ?_⟩
            rw [hkind]
            exact (check_fields_ok_iff ihv).mpr h
        | schema hkind hexpands htwo htag hvariant hheld hpresent h =>
            refine ⟨_, hexpands, ?_⟩
            rw [hkind]
            exact ⟨_, rfl, Table.checkVariant_ok.mpr ⟨_, _, _, htwo, htag, hvariant, hheld,
              hpresent, (ihv _ (isPart_of_find? hheld) _).mpr h⟩⟩
  | param index =>
      refine ⟨fun h => absurd h check_param_ne_ok, fun h => ?_⟩
      cases h

@[simp] lemma Verdict.result_reported (t : Ty) (verdict : Verdict) :
    (verdict.reported t).result = verdict.result := by
  rw [Verdict.reported]
  split
  · rfl
  · next error h => exact h.symm

/-- A check that succeeds hands the value back; one that fails reports the failure
of the value's own check. -/
lemma check_result (bodies : Family) (config : Config) (t : Ty) (v : Json) :
    (check bodies config t v).result =
      (v.check bodies config.discriminator t).result.map fun _ => v := by
  rw [check, Traced.bind_eq, Traced.bind]
  simp only [Traced.result_shown, Verdict.result_reported]
  cases (v.check bodies config.discriminator t).result <;> rfl

lemma check_error {config : Config} {t : Ty} {v : Json} {e : CheckError} :
    (check bodies config t v).result = .error e ↔
      (v.check bodies config.discriminator t).result = .error e := by
  rw [check_result]
  cases (v.check bodies config.discriminator t).result <;> simp [Except.map]

/-- A value with which a check succeeds conforms. -/
lemma conforms_of_check {config : Config} {t : Ty} {v w : Json}
    (h : (check bodies config t v).result = .ok w) : Conforms bodies config.discriminator t v := by
  rw [check_result] at h
  cases hv : (v.check bodies config.discriminator t).result with
  | error e => simp [hv, Except.map] at h
  | ok u => exact (Json.check_ok_iff v t).mp hv

/-- The check of a value that conforms hands it back. -/
lemma check_of_conforms {config : Config} {t : Ty} {v : Json}
    (h : Conforms bodies config.discriminator t v) : (check bodies config t v).result = .ok v := by
  rw [check_result, (Json.check_ok_iff v t).mpr h]
  rfl

/-- A check hands the value back if and only if the value conforms. -/
lemma check_self_iff {config : Config} {t : Ty} {v : Json} :
    (check bodies config t v).result = .ok v ↔ Conforms bodies config.discriminator t v :=
  ⟨conforms_of_check, check_of_conforms⟩

/-- A check succeeds if and only if the value conforms. -/
lemma exists_check_iff {bodies : Family} {config : Config} {t : Ty} {v : Json} :
    (∃ w, (check bodies config t v).result = .ok w) ↔
      Conforms bodies config.discriminator t v :=
  ⟨fun ⟨_, h⟩ => conforms_of_check h, fun h => ⟨v, check_of_conforms h⟩⟩

/-- **Checking decides conformance.** A check yields a value if and only if the
checked value conforms to the type, and then it is the checked value itself. -/
theorem check_ok_iff_conforms (bodies : Family) (config : Config) (t : Ty) (v w : Json) :
    (check bodies config t v).result = .ok w ↔
      w = v ∧ Conforms bodies config.discriminator t v := by
  rw [← Json.check_ok_iff, check_result]
  cases h : (v.check bodies config.discriminator t).result with
  | error e => simp [Except.map]
  | ok u => simp [Except.map, eq_comm]

end JsonTypes
