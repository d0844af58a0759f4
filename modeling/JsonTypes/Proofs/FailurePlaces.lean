/-
A reported failure is a real one, at its exact place, and the first.

A failing check names the steps that lead from the value to the part that is wrong. The
same steps lead through the type, if optional types are dropped and instances are expanded
on the way. At the end stands a part that fails by itself, against the type that has been
reached; and whatever the check has looked at before, at any of the steps, conforms.

* `Json.partAt?`, `Json.follow?`: the part of a value that a step leads to, and several.
* `Shape`, `Ty.shape?`: what the parts of a value are checked against; `Shape.typeAt?`,
  `Ty.follow?` the type that a step leads to, and several.
* `Shape.Cleared`: everything that is looked at before a step conforms.
* `Shape.FailsAt`: a failure is at the value itself, or inside the part that its first step
  leads to.
* `Table.checkFields_failsAt`, `Table.checkVariant_failsAt`, `Json.failsAt_of_check`: the
  failures of objects and of values are like this.
* `Json.follows_of_check`: the path of a failure leads through the value and the type.
* `check_failure_located`: where a failing check leads.
-/
import JsonTypes.Proofs.Conformance
import JsonTypes.Proofs.Templates

namespace JsonTypes

/-! ### Steps through values -/

/-- The part of a value that a step leads to: an item of an array, or the value of a
member of an object. -/
def Json.partAt? : Json → Segment → Option Json
  | .array items, .index position => items.get? position
  | .object members, .field name => members.find? name
  | .object members, .variant name => members.find? name
  | .object members, .key name => members.find? name
  | _, _ => none

/-- The part of a value that a path leads to, if it does not leave the value. -/
def Json.follow? (v : Json) (path : List Segment) : Option Json :=
  path.foldlM Json.partAt? v

/-! ### Steps through types -/

/-- What the parts of a value are checked against. -/
inductive Shape where
  /-- Arrays whose items are of a type. -/
  | items (t : Ty)
  /-- Dictionaries whose values are of a type. -/
  | entries (t : Ty)
  /-- Objects with these fields. -/
  | fields (declared : Table Ty)
  /-- Tagged objects with one of these variants. -/
  | variants (declared : Table Ty)

/-- The shape of the values of a type. Optional types are dropped and instances are
expanded. -/
def Ty.shape? (bodies : Family) : Ty → Option Shape
  | .primitive _ => none
  | .container .optional t => t.shape? bodies
  | .container .repeated t => some (.items t)
  | .container .map t => some (.entries t)
  | .fields declared => some (.fields declared)
  | .inst i =>
    match bodies i with
    | .error _ => none
    | .ok entries =>
      match i.factory.kind with
      | .record => some (.fields entries)
      | .schema => some (.variants entries)
  | .param _ => none

/-- The type of the part that a step leads to. The discriminator of a tagged object is a
string. -/
def Shape.typeAt? (discriminator : String) : Shape → Segment → Option Ty
  | .items t, .index _ => some t
  | .entries t, .key _ => some t
  | .fields declared, .field name => declared.find? name
  | .variants declared, .variant name => declared.find? name
  | .variants _, .field name => if name = discriminator then some .string else none
  | _, _ => none

/-- The type that a path leads to. -/
def Ty.follow? (bodies : Family) (discriminator : String) (t : Ty) (path : List Segment) :
    Option Ty :=
  path.foldlM (fun t s => (t.shape? bodies).bind fun shape => shape.typeAt? discriminator s) t

/-! ### What has been looked at -/

/-- Everything that the check of a value of a shape looks at before a step conforms. -/
inductive Shape.Cleared (bodies : Family) (discriminator : String) :
    Shape → Json → Segment → Prop where
  /-- The items in front of an item. -/
  | item {t : Ty} {items : Row Json} (k : Fin items.length)
      (before : ∀ i < k, Conforms bodies discriminator t (items.item i)) :
      Cleared bodies discriminator (.items t) (.array items) (.index k)
  /-- The entries in front of an entry, in the order of the value. -/
  | entry {t : Ty} {members : Table Json} (k : members.names.Index)
      (before : ∀ i < k, Conforms bodies discriminator t (members.entry i)) :
      Cleared bodies discriminator (.entries t) (.object members) (.key (members.name k))
  /-- The keys, and the fields that are declared in front of a field. -/
  | field {declared : Table Ty} {members : Table Json} (k : declared.names.Index)
      (keys : ∀ name, name ∈ members.names.toList ↔ name ∈ declared.names.toList)
      (before : ∀ i < k, ∃ w, members.find? (declared.name i) = some w ∧
        Conforms bodies discriminator (declared.entry i) w) :
      Cleared bodies discriminator (.fields declared) (.object members)
        (.field (declared.name k))
  /-- Nothing, in front of the discriminator. -/
  | tag {variants : Table Ty} {members : Table Json} :
      Cleared bodies discriminator (.variants variants) (.object members) (.field discriminator)
  /-- The number of members and the discriminator, in front of the payload. -/
  | payload {variants : Table Ty} {members : Table Json} {constr : String}
      (two : members.size = 2) (tag : members.find? discriminator = some (.string constr))
      (variant : constr ∈ variants.names.toList) :
      Cleared bodies discriminator (.variants variants) (.object members) (.variant constr)

/-- The reason names a part that is missing or null, and all that is looked at before it
conforms. Such a failure is reported one step further out. -/
def Shape.Misses (bodies : Family) (discriminator : String) (shape : Shape) (v : Json)
    (name : String) : Prop :=
  ∃ s, (s = .field name ∨ s = .variant name) ∧ shape.Cleared bodies discriminator v s ∧
    ∀ w, v.partAt? s = some w → w = .null

/-- A failure against a shape is at the value itself, or inside the part that its first
step leads to. -/
inductive Shape.FailsAt (bodies : Family) (discriminator : String) (shape : Shape) (v : Json) :
    List Segment → Reason → Prop where
  | here {reason : Reason} (missing : ∀ name, reason = .undefinedNull (some name) →
      shape.Misses bodies discriminator v name) : FailsAt bodies discriminator shape v [] reason
  | inside {s : Segment} {rest : List Segment} {reason : Reason} {t : Ty} {w : Json}
      (type : shape.typeAt? discriminator s = some t) (part : v.partAt? s = some w)
      (cleared : shape.Cleared bodies discriminator v s)
      (fails : (w.check bodies discriminator t).result = .error (.validation ⟨rest, reason⟩)) :
      FailsAt bodies discriminator shape v (s :: rest) reason

/-! ### One step -/

variable {bodies : Family} {discriminator : String} {path : List Segment} {reason : Reason}

lemma Verdict.wrong_error {wrong : Reason} :
    (Verdict.wrong wrong).result = .error (.validation ⟨path, reason⟩) ↔
      path = [] ∧ reason = wrong := by
  simp only [result_wrong, CheckError.here, Except.error.injEq, CheckError.validation.injEq,
    ValidationError.mk.injEq, eq_comm]

/-- A failure seen from one step further out has that step in front. -/
lemma Verdict.within_error {s : Segment} {verdict : Verdict} :
    (verdict.within s).result = .error (.validation ⟨path, reason⟩) ↔
      ∃ rest, path = s :: rest ∧ verdict.result = .error (.validation ⟨rest, reason⟩) := by
  rw [Verdict.within, Traced.mapError_error]
  constructor
  · rintro ⟨e, he, hwithin⟩
    cases e with
    | definition e => cases hwithin
    | validation e =>
        obtain ⟨rest, inner⟩ := e
        cases hwithin
        exact ⟨rest, rfl, he⟩
  · rintro ⟨rest, rfl, h⟩
    exact ⟨_, h, rfl⟩

/-- A field fails because it is null where that is not allowed, or inside its value. -/
lemma Part.checkField_error {name : String} {t : Ty} {v : Json}
    (h : ((v.part bodies discriminator).checkField name t).result =
      .error (.validation ⟨path, reason⟩)) :
    (v = .null ∧ path = [] ∧ reason = .undefinedNull (some name)) ∨
      ∃ rest, path = .field name :: rest ∧
        (v.check bodies discriminator t).result = .error (.validation ⟨rest, reason⟩) := by
  rw [Part.checkField, Json.part_value, Json.part_check] at h
  split_ifs at h with hnull
  · simp only [Bool.and_eq_true, Json.isNull_iff] at hnull
    obtain ⟨hpath, hreason⟩ := Verdict.wrong_error.mp h
    exact Or.inl ⟨hnull.1, hpath, hreason⟩
  · exact Or.inr (Verdict.within_error.mp h)

/-- An object fails against named fields at its keys, or at the first declared field that
does not conform. -/
lemma Table.checkFields_failsAt {members : Table Json} {declared : Table Ty}
    (h : ((members.map (Json.part bodies discriminator)).checkFields declared).result =
      .error (.validation ⟨path, reason⟩)) :
    Shape.FailsAt bodies discriminator (.fields declared) (.object members) path reason := by
  rw [Table.checkFields] at h
  split_ifs at h with hkeys
  · rw [Table.sameKeys_iff] at hkeys
    obtain ⟨k, hk, hbefore⟩ := Traced.forEach_finRange_error h
    have hheld : ∀ i, ∃ w, members.find? (declared.name i) = some w := fun i =>
      Table.exists_find?.mpr ((hkeys _).mpr (declared.name_mem i))
    have hcleared : Shape.Cleared bodies discriminator (.fields declared) (.object members)
        (.field (declared.name k)) := by
      refine .field k hkeys fun i hi => ?_
      obtain ⟨w, hw⟩ := hheld i
      have hok := hbefore i hi
      rw [Table.find?_map, hw] at hok
      exact ⟨w, hw, (Json.check_ok_iff w _).mp (Part.checkField_ok.mp hok).2⟩
    obtain ⟨w, hw⟩ := hheld k
    rw [Table.find?_map, hw] at hk
    rcases Part.checkField_error hk with ⟨rfl, rfl, rfl⟩ | ⟨rest, rfl, hfails⟩
    · refine .here fun name hname => ⟨_, Or.inl rfl, ?_, ?_⟩
      · cases hname
        exact hcleared
      · cases hname
        intro w' hw'
        exact Option.some.inj (hw'.symm.trans hw)
    · exact .inside (declared.find?_name k) hw hcleared hfails
  · obtain ⟨rfl, rfl⟩ := Verdict.wrong_error.mp h
    exact .here (by rintro _ ⟨⟩)

/-- An object fails against the variants of a schema at its members or at the
discriminator, or inside its payload. -/
lemma Table.checkVariant_failsAt {members : Table Json} {variants : Table Ty}
    (h : (Table.checkVariant discriminator (members.map (Json.part bodies discriminator))
      variants).result = .error (.validation ⟨path, reason⟩)) :
    Shape.FailsAt bodies discriminator (.variants variants) (.object members) path reason := by
  rw [Table.checkVariant, Table.find?_part_value] at h
  split at h
  · next htag =>
    obtain ⟨rfl, rfl⟩ := Verdict.wrong_error.mp h
    exact .here fun name hname => by
      cases hname
      exact ⟨_, Or.inl rfl, .tag, fun w hw => by cases htag.symm.trans hw⟩
  · next htag =>
    obtain ⟨rfl, rfl⟩ := Verdict.wrong_error.mp h
    exact .here fun name hname => by
      cases hname
      exact ⟨_, Or.inl rfl, .tag, fun w hw => Option.some.inj (hw.symm.trans htag)⟩
  · next constr htag =>
    split at h
    · obtain ⟨rfl, rfl⟩ := Verdict.wrong_error.mp h
      exact .here (by rintro _ ⟨⟩)
    · next shape hshape =>
      split at h
      · next part hpart =>
        rw [Table.find?_map] at hpart
        obtain ⟨payload, hpayload, rfl⟩ := Option.map_eq_some_iff.mp hpart
        have hcleared (htwo : members.size = 2) :
            Shape.Cleared bodies discriminator (.variants variants) (.object members)
              (.variant constr) :=
          .payload htwo htag (Table.exists_find?.mp ⟨shape, hshape⟩)
        split_ifs at h with htwo hnull
        · obtain ⟨rfl, rfl⟩ := Verdict.wrong_error.mp h
          exact .here (by rintro _ ⟨⟩)
        · obtain ⟨rfl, rfl⟩ := Verdict.wrong_error.mp h
          refine .here fun name hname => ?_
          cases hname
          refine ⟨_, Or.inr rfl, hcleared (not_not.mp htwo), fun w hw => ?_⟩
          obtain rfl := Option.some.inj (hpayload.symm.trans hw)
          exact Json.isNull_iff.mp hnull
        · obtain ⟨rest, rfl, hfails⟩ := Verdict.within_error.mp h
          exact .inside hshape hpayload (hcleared (not_not.mp htwo)) hfails
      · obtain ⟨rfl, rfl⟩ := Verdict.wrong_error.mp h
        exact .here (by rintro _ ⟨⟩)
  · next tag hnull hstring htag =>
    -- the discriminator fails by itself, against the type of strings
    obtain ⟨rest, rfl, hfails⟩ := Verdict.within_error.mp h
    refine .inside (t := .string) ?_ htag .tag ?_
    · simp [Shape.typeAt?]
    · cases tag with
      | null => exact absurd rfl hnull
      | string constr => exact absurd rfl (hstring constr)
      | boolean | number | array | object => exact hfails

/-- That a value is no object is said of the value as a whole. -/
lemma Layer.keyed_ne_missing {v : Json} {layer : Layer} {name : String} :
    layer.keyed v ≠ .error (.undefinedNull (some name)) := by
  intro h
  cases layer with
  | scalar =>
      have hreason := Except.error.inj h
      rw [absentOr] at hreason
      split_ifs at hreason <;> cases hreason
  | items row => cases h
  | members table => cases h

lemma absentOr_ne_missing {v : Json} {wrong : Reason} {name : String}
    (h : wrong ≠ .undefinedNull (some name)) : absentOr v wrong ≠ .undefinedNull (some name) := by
  rw [absentOr]
  split_ifs
  · nofun
  · exact h

/-- A check of the members fails because the value is no object, or as objects do. -/
lemma Json.failsAt_of_checkMembers {v : Json} {run : Table Part → Verdict}
    (h : (v.checkMembers bodies discriminator run).result =
      .error (.validation ⟨path, reason⟩)) :
    (path = [] ∧ ∀ name, reason ≠ .undefinedNull (some name)) ∨
      ∃ members, v = .object members ∧
        (run (members.map (part bodies discriminator))).result =
          .error (.validation ⟨path, reason⟩) := by
  refine (checkMembers_error h).imp_left ?_
  rintro ⟨wrong, hwrong, herror⟩
  cases herror
  exact ⟨rfl, fun name hname => Layer.keyed_ne_missing (hname ▸ hwrong)⟩

lemma Json.failsAt_of_check_fields {v : Json} {declared : Table Ty}
    (h : (v.check bodies discriminator (.fields declared)).result =
      .error (.validation ⟨path, reason⟩)) :
    (path = [] ∧ ∀ name, reason ≠ .undefinedNull (some name)) ∨
      Shape.FailsAt bodies discriminator (.fields declared) v path reason := by
  rw [check_fields] at h
  refine (failsAt_of_checkMembers h).imp_right ?_
  rintro ⟨members, rfl, hmembers⟩
  exact Table.checkFields_failsAt hmembers

/-- **A failing value fails at itself, or inside the part that the first step leads to.**
The induction follows the optional types around the shape. -/
lemma Json.failsAt_of_check {v : Json} {t : Ty}
    (h : (v.check bodies discriminator t).result = .error (.validation ⟨path, reason⟩)) :
    (path = [] ∧ ∀ name, reason ≠ .undefinedNull (some name)) ∨
      ∃ shape, t.shape? bodies = some shape ∧
        shape.FailsAt bodies discriminator v path reason := by
  induction t with
  | primitive p =>
      rw [check_primitive] at h
      split_ifs at h
      obtain ⟨rfl, rfl⟩ := Verdict.wrong_error.mp h
      exact Or.inl ⟨rfl, fun name => absentOr_ne_missing (by rintro ⟨⟩)⟩
  | container c t ih =>
      cases c with
      | optional =>
          rw [check_optional] at h
          split_ifs at h
          exact ih h
      | repeated =>
          rw [check_eq] at h
          cases v with
          | array items =>
              obtain ⟨k, hk, hbefore⟩ := Traced.forEach_finRange_error h
              obtain ⟨rest, rfl, hfails⟩ := Verdict.within_error.mp hk
              refine Or.inr ⟨.items t, rfl, .inside rfl (dif_pos k.isLt)
                (.item k fun i hi => ?_) hfails⟩
              exact (check_ok_iff _ t).mp (Verdict.within_ok.mp (hbefore i hi))
          | null | boolean | number | string | object =>
              obtain ⟨rfl, rfl⟩ := Verdict.wrong_error.mp h
              exact Or.inl ⟨rfl, fun name => absentOr_ne_missing (by rintro ⟨⟩)⟩
      | map =>
          rw [check_map] at h
          refine (failsAt_of_checkMembers h).imp_right ?_
          rintro ⟨members, rfl, hmembers⟩
          obtain ⟨k, hk, hbefore⟩ := Traced.forEach_finRange_error hmembers
          obtain ⟨rest, rfl, hfails⟩ := Verdict.within_error.mp hk
          refine ⟨.entries t, rfl, .inside rfl (members.find?_name k)
            (.entry k fun i hi => ?_) hfails⟩
          exact (check_ok_iff _ t).mp (Verdict.within_ok.mp (hbefore i hi))
  | fields declared =>
      exact (failsAt_of_check_fields h).imp_right fun hfails => ⟨.fields declared, rfl, hfails⟩
  | inst i =>
      cases hi : bodies i with
      | error e =>
          rw [check_inst_of_error hi] at h
          cases h
      | ok entries =>
          cases hkind : i.factory.kind with
          | record =>
              rw [check_inst_of_record hi hkind] at h
              refine (failsAt_of_check_fields h).imp_right fun hfails => ⟨_, ?_, hfails⟩
              simp [Ty.shape?, hi, hkind]
          | schema =>
              rw [check_inst_of_schema hi hkind, checkVariants] at h
              refine (failsAt_of_checkMembers h).imp_right ?_
              rintro ⟨members, rfl, hmembers⟩
              refine ⟨.variants entries, ?_, Table.checkVariant_failsAt hmembers⟩
              simp [Ty.shape?, hi, hkind]
  | param index =>
      rw [check_param] at h
      obtain ⟨rfl, rfl⟩ := Verdict.wrong_error.mp h
      exact Or.inl ⟨rfl, fun name => absentOr_ne_missing (by rintro ⟨⟩)⟩

/-! ### Whole paths -/

/-- **A failure moves along its path.** Wherever the path is cut, its first part leads to a
part of the value and to a type, and the rest of the path is the failure that they have by
themselves. -/
lemma Json.follows_of_check {before rest : List Segment} {v : Json} {t : Ty}
    (h : (v.check bodies discriminator t).result =
      .error (.validation ⟨before ++ rest, reason⟩)) :
    ∃ u w, t.follow? bodies discriminator before = some u ∧ v.follow? before = some w ∧
      (w.check bodies discriminator u).result = .error (.validation ⟨rest, reason⟩) := by
  induction before generalizing v t with
  | nil => exact ⟨t, v, rfl, rfl, h⟩
  | cons s before ih =>
      rcases failsAt_of_check h with ⟨hnil, -⟩ | ⟨shape, hshape, hfails⟩
      · cases hnil
      · cases hfails with
        | @inside _ _ _ t' w' htype hpart _ hinner =>
            obtain ⟨u, w, hu, hw, hend⟩ := ih hinner
            refine ⟨u, w, ?_, ?_, hend⟩
            · rw [Ty.follow?, List.foldlM_cons, hshape, Option.bind_some, htype]
              exact hu
            · rw [follow?, List.foldlM_cons, hpart]
              exact hw

/-- **A reported failure is a real one, at its exact place, and the first.** The path of a
failing check leads to a part of the value and, with optional types dropped and instances
expanded, to a type; the part fails against this type for the same reason, at its own
root. If the reason names a part that is missing, it is missing there. At every step on
the way everything that is looked at before conforms: the items and entries in front, and
for a declared field the keys of the object and the fields declared in front. -/
theorem check_failure_located (bodies : Family) (config : Config) (t : Ty) (v : Json)
    (path : List Segment) (reason : Reason)
    (fails : (check bodies config t v).result = .error (.validation ⟨path, reason⟩)) :
    (∃ u w, t.follow? bodies config.discriminator path = some u ∧ v.follow? path = some w ∧
        (check bodies config u w).result = .error (.validation ⟨[], reason⟩) ∧
        ∀ name, reason = .undefinedNull (some name) → ∃ shape, u.shape? bodies = some shape ∧
          shape.Misses bodies config.discriminator w name) ∧
      ∀ before s after, path = before ++ s :: after →
        ∃ u w shape, t.follow? bodies config.discriminator before = some u ∧
          v.follow? before = some w ∧ u.shape? bodies = some shape ∧
          shape.Cleared bodies config.discriminator w s := by
  have hfails := check_error.mp fails
  constructor
  · rw [← List.append_nil path] at hfails
    obtain ⟨u, w, hu, hw, hend⟩ := Json.follows_of_check hfails
    refine ⟨u, w, hu, hw, check_error.mpr hend, ?_⟩
    rintro name rfl
    rcases Json.failsAt_of_check hend with ⟨-, hother⟩ | ⟨shape, hshape, hmissing⟩
    · exact absurd rfl (hother name)
    · cases hmissing with
      | here hmisses => exact ⟨shape, hshape, hmisses name rfl⟩
  · rintro before s after rfl
    obtain ⟨u, w, hu, hw, hrest⟩ := Json.follows_of_check hfails
    rcases Json.failsAt_of_check hrest with ⟨hnil, -⟩ | ⟨shape, hshape, hinside⟩
    · cases hnil
    · cases hinside with
      | inside _ _ hcleared _ => exact ⟨u, w, shape, hu, hw, hshape, hcleared⟩

/-- A dictionary of optional rows of lists of numbers. -/
def listsByName : Ty :=
  .map (.optional (.repeated (.inst ⟨Prelude.list.factory, fun _ => .number⟩)))

/-- `{ "none": null, "some": [Nil, Cons 1 _] }`, where the tail of the second list has a
number as discriminator. -/
def listsWithBadTag : Json :=
  let none : Json := .ofMembers [("constr", .string "Nil"), ("Nil", .ofMembers [])]
  let bad : Json := .ofMembers [("constr", .number (.integer 3)), ("Nil", .ofMembers [])]
  let cell : Json := .ofMembers [("head", .number (.integer 1)), ("tail", bad)]
  .ofMembers [("none", .null),
    ("some", .ofItems [none, .ofMembers [("constr", .string "Cons"), ("Cons", cell)]])]

/-- The failure of such lists leads through every kind of step to the discriminator, and
the list in front of the failing one conforms. -/
theorem check_failure_located_lists :
    (check Prelude.bodies .standard listsByName listsWithBadTag).result =
        .error (.validation ⟨[.key "some", .index 1, .variant "Cons", .field "tail",
          .field "constr"], .typeMismatch "string" "number"⟩) ∧
      (∃ u w, listsByName.follow? Prelude.bodies "constr" [.key "some", .index 1,
          .variant "Cons", .field "tail", .field "constr"] = some u ∧
        listsWithBadTag.follow? [.key "some", .index 1, .variant "Cons", .field "tail",
          .field "constr"] = some w ∧
        (check Prelude.bodies .standard u w).result =
          .error (.validation ⟨[], .typeMismatch "string" "number"⟩)) ∧
      ∃ u w shape, listsByName.follow? Prelude.bodies "constr" [.key "some"] = some u ∧
        listsWithBadTag.follow? [.key "some"] = some w ∧
        u.shape? Prelude.bodies = some shape ∧
        shape.Cleared Prelude.bodies "constr" w (.index 1) := by
  have hfails : (check Prelude.bodies .standard listsByName listsWithBadTag).result =
      .error (.validation ⟨[.key "some", .index 1, .variant "Cons", .field "tail",
        .field "constr"], .typeMismatch "string" "number"⟩) := rfl
  obtain ⟨⟨u, w, hu, hw, hend, -⟩, hsteps⟩ :=
    check_failure_located Prelude.bodies .standard listsByName listsWithBadTag _ _ hfails
  exact ⟨hfails, ⟨u, w, hu, hw, hend⟩, hsteps [.key "some"] (.index 1) _ rfl⟩

end JsonTypes
