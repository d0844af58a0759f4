/-
The check against a qualified schema sees the declared fields only.

Two values are the same to a schema if they are equal, or if they are objects whose
declared fields hold values that are the same to the targets, or nothing but null. Then
the check does the same at both, step by step: it passes both, or fails at both in the
same place and for the same reason. So neither undeclared members nor the order of members
matter, nor whether a member is null or missing, wherever a qualified schema governs.

* `QualifiedSchema.Equates`, `QualifiedField.Equates`, `Target.Equates`: values that are
  the same to a schema, to a declared field and to a target.
* `QualifiedSchema.checkField_congr`, `QualifiedSchema.asObject_congr`: the check of a
  declared field and of a value is the same then.
* `QualifiedSchema.equates_of_members`: objects that agree on the declared members, null
  aside, are the same; `QualifiedSchema.equates_prune`: so is a value cut down to them.
* `check_sees_declared`: both for checks as a whole.
-/
import JsonTypes.Proofs.QualifiedRecords

namespace JsonTypes

open Relation

/-! ### Values that are the same to a schema -/

mutual

/-- Two values are the same to a schema: they are equal, or objects whose members are the
same to every declared field. -/
inductive QualifiedSchema.Equates : QualifiedSchema → Json → Json → Prop where
  | equal (q : QualifiedSchema) (v : Json) : q.Equates v v
  | object {q : QualifiedSchema} {members members' : Table Json}
      (fields : ∀ field ∈ q.fields,
        field.Equates q (members.find? field.name) (members'.find? field.name)) :
      q.Equates (.object members) (.object members')

/-- Two members, which may be missing, are the same to a declared field of the schema `self`. -/
inductive QualifiedField.Equates :
    QualifiedField QualifiedSchema → QualifiedSchema → Option Json → Option Json → Prop where
  /-- Both are missing or null. -/
  | absent {field : QualifiedField QualifiedSchema} {self : QualifiedSchema}
      {slot slot' : Option Json} (first : slot = none ∨ slot = some .null)
      (second : slot' = none ∨ slot' = some .null) : field.Equates self slot slot'
  | single {field : QualifiedField QualifiedSchema} {self : QualifiedSchema} {v w : Json}
      (single : field.qualifier ≠ .repeated) (first : v ≠ .null) (second : w ≠ .null)
      (same : field.target.Equates self v w) : field.Equates self (some v) (some w)
  | items {field : QualifiedField QualifiedSchema} {self : QualifiedSchema} {length : ℕ}
      {item item' : Fin length → Json} (repeated : field.qualifier = .repeated)
      (same : ∀ i, field.target.Equates self (item i) (item' i)) :
      field.Equates self (some (.array ⟨length, item⟩)) (some (.array ⟨length, item'⟩))
  | equal (field : QualifiedField QualifiedSchema) (self : QualifiedSchema)
      (slot : Option Json) : field.Equates self slot slot

/-- Two values are the same to a target inside the schema `self`. -/
inductive Target.Equates :
    Target QualifiedSchema → QualifiedSchema → Json → Json → Prop where
  | type (t : Ty) (self : QualifiedSchema) (v : Json) : (Target.type t).Equates self v v
  | schema {s : QualifiedSchema} (self : QualifiedSchema) {v w : Json} (same : s.Equates v w) :
      (Target.schema s).Equates self v w
  | self {self : QualifiedSchema} {v w : Json} (same : self.Equates v w) :
      Target.self.Equates self v w

end

/-! ### The same checks -/

section Checks

variable {bodies : Family} {discriminator : String} {q : QualifiedSchema}

/-- **The check of a declared field** does the same at two objects whose members are the same
to it, if the check against its target does. -/
lemma QualifiedSchema.checkField_congr {members members' : Table Json}
    {field : QualifiedField QualifiedSchema}
    (inside : ∀ v w, TransGen Json.IsPart v (.object members) → field.target.Equates q v w →
      (v.slot bodies discriminator).toSubject.checkTarget bodies discriminator q field.target =
        (w.slot bodies discriminator).toSubject.checkTarget bodies discriminator q field.target)
    (same : field.Equates q (members.find? field.name) (members'.find? field.name)) :
    q.checkField bodies discriminator (members.map (Json.slot bodies discriminator)) field =
      q.checkField bodies discriminator (members'.map (Json.slot bodies discriminator)) field := by
  rw [checkField, checkField, Table.find?_map, Table.find?_map]
  generalize hslot : members.find? field.name = slot at same
  generalize members'.find? field.name = slot' at same
  cases same with
  | absent first second =>
      have hnull : ∀ slot : Option Json, slot = none ∨ slot = some .null →
          ((slot.map (Json.slot bodies discriminator)).filter fun s => !s.value.isNull) = none := by
        rintro _ (rfl | rfl) <;> rfl
      rw [hnull _ first, hnull _ second]
  | @single _ _ v w single first second same =>
      have hv : v.isNull = false := Bool.eq_false_iff.mpr (mt Json.isNull_iff.mp first)
      have hw : w.isNull = false := Bool.eq_false_iff.mpr (mt Json.isNull_iff.mp second)
      have hcheck := inside v w (.single (Json.isPart_of_find? hslot)) same
      simp only [Option.map_some, Option.filter_some, Json.slot_value, hv, hw, Bool.not_false,
        if_true, Slot.checkPresent]
      cases hq : field.qualifier with
      | required | optional => exact hcheck
      | repeated => exact absurd hq single
  | @items _ _ length item item' repeated same =>
      simp only [Option.map_some, Option.filter_some, Json.slot_value, Slot.checkPresent, repeated]
      refine Traced.forEach_congr fun i _ => congrArg (Verdict.within (.index i)) ?_
      exact inside _ _ (.tail (.single (.item ⟨length, item⟩ i)) (Json.isPart_of_find? hslot))
        (same i)
  | equal => rfl

/-- **The check does the same at two values that are the same to the schema.** The induction
is on the value, since a schema may be inside itself. -/
lemma QualifiedSchema.asObject_congr {v w : Json} (same : q.Equates v w) :
    (v.slot bodies discriminator).asObject q = (w.slot bodies discriminator).asObject q := by
  induction v using Json.isPart_wellFounded.transGen.induction generalizing q w with
  | _ v ih =>
  cases same with
  | equal => rfl
  | @object _ members members' fields =>
      show q.checkMembers bodies discriminator (members.map (Json.slot bodies discriminator)) =
        q.checkMembers bodies discriminator (members'.map (Json.slot bodies discriminator))
      refine Traced.forEach_congr fun field hfield => ?_
      refine congrArg (Verdict.within (.field field.name)) ?_
      refine checkField_congr (fun u u' hu hsame => ?_) (fields field hfield)
      generalize field.target = target at hsame
      cases hsame with
      | type => rfl
      | schema _ same => exact ih u hu same
      | self same => exact ih u hu same

end Checks

/-! ### What makes no difference -/

namespace QualifiedSchema

variable {q : QualifiedSchema}

/-- Objects that hold the same values other than null under the declared names are the same. -/
lemma equates_of_members {members members' : Table Json}
    (agree : ∀ field ∈ q.fields, ∀ w, w ≠ .null →
      (members.find? field.name = some w ↔ members'.find? field.name = some w)) :
    q.Equates (.object members) (.object members') := by
  refine .object fun field hfield => ?_
  have hagree := agree field hfield
  generalize members.find? field.name = slot at hagree
  generalize members'.find? field.name = slot' at hagree
  by_cases hslot : slot = none ∨ slot = some .null
  · refine .absent hslot ?_
    cases slot' with
    | none => exact Or.inl rfl
    | some w =>
        by_cases hw : w = .null
        · exact Or.inr (congrArg some hw)
        · rw [(hagree w hw).mpr rfl] at hslot
          exact absurd hslot (by simp [hw])
  · cases slot with
    | none => exact absurd (Or.inl rfl) hslot
    | some v =>
        have hv : v ≠ .null := fun h => hslot (Or.inr (congrArg some h))
        rw [(hagree v hv).mp rfl]
        exact .equal field q (some v)

/-- A member is the same to a declared field as what is left of it, if that is so for what is
cut down to the target of the field. -/
lemma equates_cutField {field : QualifiedField QualifiedSchema} {slot : Option Json}
    (inside : ∀ v w, slot = some v → ReflTransGen Json.IsPart w v →
      field.target.Equates q w (w.cut false (field.target.schema? q))) :
    field.Equates q slot (some (Json.cutField q field slot)) := by
  cases slot with
  | none => exact .absent (Or.inl rfl) (Or.inr rfl)
  | some v =>
      by_cases hnull : v = .null
      · exact .absent (Or.inr (congrArg some hnull))
          (Or.inr (congrArg some (Json.cut_eq_null.mpr hnull)))
      · rw [Json.cutField]
        cases hq : field.qualifier with
        | required | optional =>
            have hsingle : field.qualifier ≠ .repeated := by
              intro hrepeated
              cases hq.symm.trans hrepeated
            exact .single hsingle hnull (mt Json.cut_eq_null.mp hnull) (inside v v rfl .refl)
        | repeated =>
            cases v with
            | array items =>
                rw [beq_self_eq_true, Json.cut_items]
                exact .items hq fun i => inside _ _ rfl (.single (.item items i))
            | null | boolean | number | string | object =>
                have hcut := QualifiedField.Equates.equal field q
                cases hschema : field.target.schema? q <;> exact hcut _

/-- **A value cut down to what a schema declares is the same to it**: undeclared members are
left out at every depth, and missing ones are null. -/
lemma equates_prune (v : Json)
    (distinct : ∀ s, q.Uses s → (s.fields.map QualifiedField.name).Nodup) :
    q.Equates v (q.prune v) := by
  induction v using Json.isPart_wellFounded.transGen.induction generalizing q with
  | _ v ih =>
  cases v with
  | object members =>
      rw [prune, Json.cut_object]
      refine .object fun field hfield => ?_
      rw [find?_tabulate (distinct q .refl) hfield]
      refine equates_cutField fun u w hslot hwu => ?_
      have hw : TransGen Json.IsPart w (.object members) :=
        TransGen.tail' hwu (Json.isPart_of_find? hslot)
      cases htarget : field.target with
      | type t =>
          rw [Target.schema?, Json.cut_none]
          exact .type t q w
      | schema s =>
          have huses : q.Uses s := .single ⟨field, hfield, htarget⟩
          exact .schema q (ih w hw fun u hu => distinct u (huses.trans hu))
      | self => exact .self (ih w hw distinct)
  | null | boolean | number | string | array => exact .equal q _

end QualifiedSchema

/-! ### The main statement -/

/-- **A qualified schema sees the declared fields only.** At two values that are the same to
it, the check has the same outcome: both pass, or both fail in the same place and for the same
reason. Objects with the same declared members are the same to it, whatever else they hold, in
whatever order, and with null or nothing for what is missing. Where the names of fields differ,
so is a value that is cut down to the declared members at every depth. -/
theorem check_sees_declared (bodies : Family) (config : Config) (q : QualifiedSchema) :
    (∀ v w, q.Equates v w →
      ((q.check bodies config v).result = .ok v ∧ (q.check bodies config w).result = .ok w) ∨
        ∃ e, (q.check bodies config v).result = .error e ∧
          (q.check bodies config w).result = .error e) ∧
    (∀ members members' : Table Json,
      (∀ field ∈ q.fields, ∀ w, w ≠ .null →
        (members.find? field.name = some w ↔ members'.find? field.name = some w)) →
      q.Equates (.object members) (.object members')) ∧
    ((∀ s, q.Uses s → (s.fields.map QualifiedField.name).Nodup) →
      ∀ v, q.Equates v (q.prune v)) := by
  refine ⟨fun v w same => ?_, fun _ _ agree => QualifiedSchema.equates_of_members agree,
    fun distinct v => QualifiedSchema.equates_prune v distinct⟩
  rw [QualifiedSchema.result_check, QualifiedSchema.result_check,
    QualifiedSchema.asObject_congr same]
  cases ((w.slot bodies config.discriminator).asObject q).result with
  | ok => exact Or.inl ⟨rfl, rfl⟩
  | error e => exact Or.inr ⟨e, rfl, rfl⟩

namespace School

/-- What holds of every field of a student. -/
lemma student_fields {P : QualifiedField QualifiedSchema → Prop}
    (name : P ⟨"name", .required, .type .string⟩) (parent : P ⟨"parent", .optional, .self⟩)
    (friends : P ⟨"friends", .repeated, .self⟩) : ∀ field ∈ student.fields, P field := by
  simp [student, QualifiedSchema.fields, name, parent, friends]

/-- What holds of every field of a mentor. -/
lemma mentor_fields {P : QualifiedField QualifiedSchema → Prop}
    (fav : P ⟨"fav", .optional, .schema student⟩) (affair : P ⟨"affair", .optional, .self⟩) :
    ∀ field ∈ mentor.fields, P field := by
  simp [mentor, QualifiedSchema.fields, fav, affair]

/-- Peter with the one friend. -/
def peterWith (friend : Json) : Json :=
  .ofMembers [("friends", .ofItems [friend]), ("name", .string "Peter")]

/-- `{ "fav": { "friends": [{ "age": 14 }], "name": "Peter" } }`: the friend has no name. -/
def nameless : Json :=
  .ofMembers [("fav", peterWith (.ofMembers [("age", .number (.integer 14))]))]

/-- `{ "rank": true, "affair": null, "fav": { "friends": [{ "name": null }], "name": "Peter" } }`:
neither has this one. -/
def unnamed : Json :=
  .ofMembers [("rank", .boolean true), ("affair", .null),
    ("fav", peterWith (.ofMembers [("name", .null)]))]

/-- The name of the first friend of the student is missing or null. -/
def atFriend : ValidationError :=
  ⟨[.field "fav", .field "friends", .index 0, .field "name"], .undefinedNull none⟩

lemma student_equates {friend friend' : Json} (h : student.Equates friend friend') :
    student.Equates (peterWith friend) (peterWith friend') := by
  have hitems : ∀ i : Fin 1, Target.self.Equates student ((Row.ofList [friend]).item i)
      ((Row.ofList [friend']).item i) := Fin.forall_fin_one.mpr (.self h)
  refine .object (student_fields ?_ ?_ ?_)
  · exact .equal _ _ _
  · exact .equal _ _ _
  · exact .items rfl hitems

lemma mentor_equates : mentor.Equates nameless unnamed := by
  have hfriend : student.Equates (.ofMembers [("age", .number (.integer 14))])
      (.ofMembers [("name", .null)]) := by
    refine .object (student_fields ?_ ?_ ?_)
    · exact .absent (Or.inl rfl) (Or.inr rfl)
    · exact .equal _ _ _
    · exact .equal _ _ _
  refine .object (mentor_fields ?_ ?_)
  · exact .single nofun nofun nofun (.schema mentor (student_equates hfriend))
  · exact .absent (Or.inl rfl) (Or.inr rfl)

end School

/-- A friend without a name fails in one place, with whatever else is known of him. -/
theorem check_sees_declared_mentor :
    School.mentor.Equates School.nameless School.unnamed ∧
      (School.mentor.check School.bodies .standard School.nameless).result =
        .error (.validation School.atFriend) ∧
      (School.mentor.check School.bodies .standard School.unnamed).result =
        .error (.validation School.atFriend) ∧
      (∀ s, School.mentor.Uses s → (s.fields.map QualifiedField.name).Nodup) ∧
      School.mentor.Equates School.garrison (School.mentor.prune School.garrison) := by
  have hdeclared := check_sees_declared School.bodies .standard School.mentor
  have hfails : (School.mentor.check School.bodies .standard School.nameless).result =
      .error (.validation School.atFriend) := rfl
  refine ⟨School.mentor_equates, hfails, ?_, School.regular.distinct,
    hdeclared.2.2 School.regular.distinct School.garrison⟩
  rcases hdeclared.1 _ _ School.mentor_equates with ⟨hpasses, -⟩ | ⟨e, he, he'⟩
  · cases hpasses.symm.trans hfails
  · exact he'.trans (he.symm.trans hfails)

end JsonTypes
