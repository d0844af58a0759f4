/-
Objects are strict at every depth.

A value that a check accepts has exactly the members that are asked for, wherever the check
compares an object with named fields or with the variants of a schema. If a single member is
added or removed there, the check fails, and it fails there: nothing that is looked at before
has changed, and no value around the object notices the change.

* `CheckError.under`: a failure seen from further out.
* `Row.replace`, `Table.replace`, `Json.replaceAt`: a value with another part at a place.
* `Compares`: what the check of a value compares, and where; `compares_iff_subchecks`: these
  are the checks that it calls for.
* `Table.checkFields_fails`, `Table.checkVariant_fails`: an object fails as its first failing
  field or its payload does.
* `Compares.check_replaceAt`: if a part of an accepted value is replaced by one that fails, the
  value fails in the same way, at the place of the part.
* `Table.OneMore`: an object with one member more; `Json.check_edited_fields`,
  `Json.check_edited_variants`: it does not pass where the other one does.
* `check_edited_object`: objects with one member more or less are refused where they are.
-/
import JsonTypes.Proofs.CheckExpansions
import JsonTypes.Proofs.FailurePlaces

namespace JsonTypes

open Relation

/-! ### Failures seen from further out -/

namespace CheckError

/-- The same failure seen from the start of a path that leads to where it was seen. -/
def under (path : List Segment) : CheckError → CheckError
  | definition e => definition e
  | validation e => validation ⟨path ++ e.path, e.reason⟩

@[simp] lemma under_nil (e : CheckError) : e.under [] = e := by
  cases e <;> rfl

lemma under_cons (s : Segment) (path : List Segment) (e : CheckError) :
    e.under (s :: path) = (e.under path).within s := by
  cases e <;> rfl

lemma under_here (path : List Segment) (reason : Reason) :
    (here reason).under path = .validation ⟨path, reason⟩ := by
  simp [here, under]

end CheckError

/-! ### Other parts -/

/-- The row with another item at a position. -/
def Row.replace {α : Type} (row : Row α) (position : ℕ) (a : α) : Row α :=
  ⟨row.length, fun i => if i = position then a else row.item i⟩

namespace Table

variable {α : Type}

/-- The table with another entry under a name that it has. -/
def replace (table : Table α) (name : String) (a : α) : Table α :=
  ⟨table.names, fun i => if table.name i = name then a else table.entry i⟩

lemma find?_replace_self {table : Table α} {name : String} {a held : α}
    (h : table.find? name = some held) : (table.replace name a).find? name = some a := by
  obtain ⟨i, hi, -⟩ := find?_eq_some.mp h
  exact find?_eq_some.mpr ⟨i, hi, if_pos hi⟩

lemma find?_replace_ne {table : Table α} {name other : String} {a : α} (h : other ≠ name) :
    (table.replace name a).find? other = table.find? other := by
  refine Option.ext fun b => ?_
  rw [find?_eq_some, find?_eq_some]
  refine exists_congr fun i => and_congr_right fun hi => ?_
  have hentry : (table.replace name a).entry i = table.entry i :=
    if_neg fun hname => h (hi.symm.trans hname)
  rw [hentry]

end Table

namespace Json

/-- The value with another part where a step leads to. -/
def replacePart : Json → Segment → Json → Json
  | array items, .index position, w => array (items.replace position w)
  | object members, .field name, w => object (members.replace name w)
  | object members, .variant name, w => object (members.replace name w)
  | object members, .key name, w => object (members.replace name w)
  | v, _, _ => v

/-- The value with another part where a path leads to, if it does not leave the value. -/
def replaceAt (v : Json) : List Segment → Json → Json
  | [], w => w
  | s :: rest, w =>
    match v.partAt? s with
    | some part => v.replacePart s (part.replaceAt rest w)
    | none => v

lemma replaceAt_cons {v part : Json} {s : Segment} (h : v.partAt? s = some part)
    (rest : List Segment) (w : Json) :
    v.replaceAt (s :: rest) w = v.replacePart s (part.replaceAt rest w) := by
  rw [replaceAt, h]

lemma partAt?_index (items : Row Json) (k : Fin items.length) :
    (array items).partAt? (.index k) = some (items.item k) :=
  dif_pos k.isLt

lemma partAt?_key (members : Table Json) (k : members.names.Index) :
    (object members).partAt? (.key (members.name k)) = some (members.entry k) :=
  members.find?_name k

/-! Another part inside an item or a member. -/

section Steps

variable {members : Table Json} {name : String} {part : Json} (path : List Segment) (w : Json)

lemma replaceAt_index (items : Row Json) (k : Fin items.length) :
    (array items).replaceAt (.index k :: path) w =
      array (items.replace k ((items.item k).replaceAt path w)) :=
  replaceAt_cons (partAt?_index items k) path w

lemma replaceAt_key (members : Table Json) (k : members.names.Index) :
    (object members).replaceAt (.key (members.name k) :: path) w =
      object (members.replace (members.name k) ((members.entry k).replaceAt path w)) :=
  replaceAt_cons (partAt?_key members k) path w

lemma replaceAt_field (held : members.find? name = some part) :
    (object members).replaceAt (.field name :: path) w =
      object (members.replace name (part.replaceAt path w)) :=
  replaceAt_cons (v := object members) (s := .field name) held path w

lemma replaceAt_variant (held : members.find? name = some part) :
    (object members).replaceAt (.variant name :: path) w =
      object (members.replace name (part.replaceAt path w)) :=
  replaceAt_cons (v := object members) (s := .variant name) held path w

end Steps

/-- The step that led to the old part leads to the new one. -/
lemma partAt?_replacePart {v part : Json} {s : Segment} (h : v.partAt? s = some part)
    (w : Json) : (v.replacePart s w).partAt? s = some w := by
  cases v with
  | array items =>
      cases s with
      | index position =>
          have hposition : position < items.length := by
            by_contra hnot
            simp [partAt?, Row.get?, hnot] at h
          simp [replacePart, partAt?, Row.get?, Row.replace, hposition]
      | field | variant | key => cases h
  | object members =>
      cases s with
      | index => cases h
      | field | variant | key => exact Table.find?_replace_self h
  | null | boolean | number | string => cases s <;> cases h

lemma follow?_cons {v part : Json} {s : Segment} (h : v.partAt? s = some part)
    (rest : List Segment) : v.follow? (s :: rest) = part.follow? rest := by
  rw [follow?, List.foldlM_cons, h]
  rfl

/-- What has been put at the end of a path is found there. -/
lemma follow?_replaceAt {v part : Json} {path : List Segment} (h : v.follow? path = some part)
    (w : Json) : (v.replaceAt path w).follow? path = some w := by
  induction path generalizing v with
  | nil => rfl
  | cons s rest ih =>
      rw [follow?, List.foldlM_cons] at h
      obtain ⟨next, hnext, hrest⟩ := Option.bind_eq_some_iff.mp h
      rw [replaceAt_cons hnext, follow?_cons (partAt?_replacePart hnext _)]
      exact ih hrest

end Json

/-! ### What is compared -/

/-- `Compares bodies discriminator t v path u w`: the check of the value `v` against the type
`t` compares the part `w` at the end of `path` with the type `u`. A record is compared with its
fields at the same place. -/
inductive Compares (bodies : Family) (discriminator : String) :
    Ty → Json → List Segment → Ty → Json → Prop where
  | here (t : Ty) (v : Json) : Compares bodies discriminator t v [] t v
  | optional {t u : Ty} {v w : Json} {path : List Segment} (present : v ≠ .null)
      (inner : Compares bodies discriminator t v path u w) :
      Compares bodies discriminator (.container .optional t) v path u w
  | item {t u : Ty} {items : Row Json} {w : Json} {path : List Segment} (k : Fin items.length)
      (inner : Compares bodies discriminator t (items.item k) path u w) :
      Compares bodies discriminator (.container .repeated t) (.array items) (.index k :: path) u w
  | entry {t u : Ty} {members : Table Json} {w : Json} {path : List Segment}
      (k : members.names.Index)
      (inner : Compares bodies discriminator t (members.entry k) path u w) :
      Compares bodies discriminator (.container .map t) (.object members)
        (.key (members.name k) :: path) u w
  | field {declared : Table Ty} {members : Table Json} {name : String} {t u : Ty} {v w : Json}
      {path : List Segment} (declares : declared.find? name = some t)
      (held : members.find? name = some v)
      (inner : Compares bodies discriminator t v path u w) :
      Compares bodies discriminator (.fields declared) (.object members) (.field name :: path) u w
  | record {i : Instance} {entries : Table Ty} {u : Ty} {v w : Json} {path : List Segment}
      (kind : i.factory.kind = .record) (expands : bodies i = .ok entries)
      (inner : Compares bodies discriminator (.fields entries) v path u w) :
      Compares bodies discriminator (.inst i) v path u w
  | payload {i : Instance} {entries : Table Ty} {members : Table Json} {constr : String}
      {t u : Ty} {v w : Json} {path : List Segment} (kind : i.factory.kind = .schema)
      (expands : bodies i = .ok entries) (tag : members.find? discriminator = some (.string constr))
      (variant : entries.find? constr = some t) (held : members.find? constr = some v)
      (inner : Compares bodies discriminator t v path u w) :
      Compares bodies discriminator (.inst i) (.object members) (.variant constr :: path) u w

variable {bodies : Family} {discriminator : String}

/-- What a check compares is what it calls for, directly or not. -/
lemma compares_iff_subchecks {t u : Ty} {v w : Json} :
    (∃ path, Compares bodies discriminator t v path u w) ↔
      ReflTransGen (Subcheck bodies discriminator) (u, w) (t, v) := by
  constructor
  · rintro ⟨path, h⟩
    induction h with
    | here t v => exact .refl
    | optional present _ ih => exact ih.tail (.optional present)
    | item k _ ih => exact ih.tail (.item k)
    | entry k _ ih => exact ih.tail (.entry k)
    | field declares held _ ih => exact ih.tail (.field declares held)
    | record kind expands _ ih => exact ih.tail (.record kind expands)
    | payload kind expands tag variant held _ ih =>
        exact ih.tail (.payload kind expands tag variant held)
  · intro h
    suffices ∀ c, ReflTransGen (Subcheck bodies discriminator) (u, w) c →
        ∃ path, Compares bodies discriminator c.1 c.2 path u w from this _ h
    intro c hc
    induction hc with
    | refl => exact ⟨[], .here u w⟩
    | tail _ hcall ih =>
        obtain ⟨path, ih⟩ := ih
        cases hcall with
        | optional present => exact ⟨path, .optional present ih⟩
        | item k => exact ⟨_, .item k ih⟩
        | entry k => exact ⟨_, .entry k ih⟩
        | field declares held => exact ⟨_, .field declares held ih⟩
        | record kind expands => exact ⟨path, .record kind expands ih⟩
        | payload kind expands tag variant held =>
            exact ⟨_, .payload kind expands tag variant held ih⟩

namespace Compares

variable {t u : Ty} {v w : Json} {path : List Segment}

/-- What is compared is found at the end of the path. -/
lemma follow? (h : Compares bodies discriminator t v path u w) : v.follow? path = some w := by
  induction h with
  | here t v => rfl
  | optional _ _ ih => exact ih
  | item k _ ih => exact (Json.follow?_cons (Json.partAt?_index _ k) _).trans ih
  | entry k _ ih => exact (Json.follow?_cons (Json.partAt?_key _ k) _).trans ih
  | @field _ members name _ _ _ _ _ _ held _ ih =>
      exact (Json.follow?_cons (v := .object members) (s := .field name) held _).trans ih
  | record _ _ _ ih => exact ih
  | @payload _ _ members constr _ _ _ _ _ _ _ _ _ held _ ih =>
      exact (Json.follow?_cons (v := .object members) (s := .variant constr) held _).trans ih

/-- Whatever is compared when a value passes, passes. -/
lemma check_ok (h : Compares bodies discriminator t v path u w)
    (accepted : (v.check bodies discriminator t).result = .ok ()) :
    (w.check bodies discriminator u).result = .ok () := by
  induction h with
  | here t v => exact accepted
  | optional present _ ih =>
      exact ih ((Json.check_optional_ok.mp accepted).resolve_left present)
  | item k _ ih =>
      obtain ⟨_, hitems, heach⟩ := Json.check_repeated_ok.mp accepted
      cases hitems
      exact ih (heach k)
  | entry k _ ih =>
      obtain ⟨_, hmembers, heach⟩ := Json.check_map_ok.mp accepted
      cases hmembers
      exact ih (heach k)
  | field declares held _ ih =>
      obtain ⟨_, hmembers, -, heach⟩ := Json.check_fields_ok.mp accepted
      cases hmembers
      exact ih (heach _ _ _ declares held).2
  | record kind expands _ ih =>
      rw [Json.check_inst_of_record expands kind] at accepted
      exact ih accepted
  | payload kind expands tag variant held _ ih =>
      rw [Json.check_object_of_schema expands kind,
        Table.checkVariant_held_ok tag variant held] at accepted
      exact ih accepted.2.2

/-- Nothing inside a text is compared. -/
lemma eq_of_string {s : String} (h : Compares bodies discriminator t (.string s) path u w) :
    w = .string s := by
  generalize hv : Json.string s = v at h
  induction h with
  | here => rfl
  | optional _ _ ih => exact ih hv
  | record _ _ _ ih => exact ih hv
  | item | entry | field | payload => cases hv

/-- Where a part that is not null is compared, the value is not null with another such part. -/
lemma replaceAt_ne_null (h : Compares bodies discriminator t v path u w) {w' : Json}
    (present : w' ≠ .null) : v.replaceAt path w' ≠ .null := by
  induction h with
  | here => exact present
  | optional _ _ ih => exact ih
  | record _ _ _ ih => exact ih
  | item k _ _ =>
      rw [Json.replaceAt_index]
      nofun
  | entry k _ _ =>
      rw [Json.replaceAt_key]
      nofun
  | field _ held _ _ =>
      rw [Json.replaceAt_field _ _ held]
      nofun
  | payload _ _ _ _ held _ _ =>
      rw [Json.replaceAt_variant _ _ held]
      nofun

end Compares

/-! ### Where objects fail -/

section Objects

variable {members : Table Json} {e : CheckError}

lemma Verdict.within_fails {step : Segment} {verdict : Verdict}
    (fails : verdict.result = .error e) : (verdict.within step).result = .error (e.within step) :=
  Traced.mapError_error.mpr ⟨e, fails, rfl⟩

/-- A field fails as its value does, unless it is null where that is not allowed. -/
lemma Part.checkField_fails {name : String} {t : Ty} {v : Json}
    (present : v = .null → t.isOptional = true)
    (fails : (v.check bodies discriminator t).result = .error e) :
    ((v.part bodies discriminator).checkField name t).result = .error (e.within (.field name)) := by
  rw [Part.checkField, Json.part_value, Json.part_check, if_neg]
  · exact Verdict.within_fails fails
  · simp only [Bool.and_eq_true, Bool.not_eq_true', Json.isNull_iff, not_and, Bool.not_eq_false]
    exact present

/-- An object with the declared keys fails as its first failing field does. -/
lemma Table.checkFields_fails {declared : Table Ty} {k : declared.names.Index} {v : Json}
    (keys : ∀ name, name ∈ members.names.toList ↔ name ∈ declared.names.toList)
    (held : members.find? (declared.name k) = some v)
    (fails : ((v.part bodies discriminator).checkField (declared.name k)
      (declared.entry k)).result = .error e)
    (before : ∀ i < k, ∀ w, members.find? (declared.name i) = some w →
      (w = .null → (declared.entry i).isOptional = true) ∧
        (w.check bodies discriminator (declared.entry i)).result = .ok ()) :
    ((members.map (Json.part bodies discriminator)).checkFields declared).result = .error e := by
  have hkeys : (members.map (Json.part bodies discriminator)).sameKeys declared = true :=
    sameKeys_iff.mpr keys
  rw [checkFields, if_pos hkeys]
  refine Traced.forEach_finRange_fails (k := k) ?_ fun i hi => ?_
  · rw [find?_map, held]
    exact fails
  · rw [find?_map]
    cases hw : members.find? (declared.name i) with
    | none => rfl
    | some w => exact Part.checkField_ok.mpr (before i hi w hw)

/-- An object with other keys than the declared ones fails at itself. -/
lemma Table.checkFields_of_ne {declared : Table Ty}
    (other : ¬ ∀ name, name ∈ members.names.toList ↔ name ∈ declared.names.toList) :
    (members.map (Json.part bodies discriminator)).checkFields declared =
      .wrong (.expectedFields declared.names.toList members.names.toList) := by
  have hkeys : ¬ (members.map (Json.part bodies discriminator)).sameKeys declared = true :=
    mt sameKeys_iff.mp other
  rw [checkFields, if_neg hkeys]
  rfl

/-- An object of a tag and a payload that is not null fails as its payload does. -/
lemma Table.checkVariant_fails {variants : Table Ty} {constr : String} {shape : Ty}
    {payload : Json} (two : members.size = 2)
    (tag : members.find? discriminator = some (.string constr))
    (variant : variants.find? constr = some shape) (held : members.find? constr = some payload)
    (present : payload ≠ .null)
    (fails : (payload.check bodies discriminator shape).result = .error e) :
    (Table.checkVariant discriminator (members.map (Json.part bodies discriminator))
      variants).result = .error (e.within (.variant constr)) := by
  rw [checkVariant_held tag variant held, if_neg (not_not.mpr two),
    if_neg (mt Json.isNull_iff.mp present)]
  exact Verdict.within_fails fails

end Objects

/-- An array fails as its first failing item does. -/
lemma Json.check_repeated_fails {t : Ty} {items : Row Json} {e : CheckError}
    {k : Fin items.length}
    (fails : ((items.item k).check bodies discriminator t).result = .error e)
    (before : ∀ i < k, ((items.item i).check bodies discriminator t).result = .ok ()) :
    ((array items).check bodies discriminator (.container .repeated t)).result =
      .error (e.within (.index k)) :=
  Traced.forEach_finRange_fails (Verdict.within_fails fails)
    fun i hi => Verdict.within_ok.mpr (before i hi)

/-- A dictionary fails as its first failing entry does. -/
lemma Json.check_map_fails {t : Ty} {members : Table Json} {e : CheckError}
    {k : members.names.Index}
    (fails : ((members.entry k).check bodies discriminator t).result = .error e)
    (before : ∀ i < k, ((members.entry i).check bodies discriminator t).result = .ok ()) :
    ((object members).check bodies discriminator (.container .map t)).result =
      .error (e.within (.key (members.name k))) := by
  rw [check_map]
  exact Traced.forEach_finRange_fails (Verdict.within_fails fails)
    fun i hi => Verdict.within_ok.mpr (before i hi)

/-- **A part that fails makes the value fail in the same way, at its place.** Let a part of an
accepted value that the check compares, and that is no text, be replaced by another one. If
the other one is not null and fails against the type of the part, then nothing else fails
before it, and the value fails with the same error, seen from further out. -/
lemma Compares.check_replaceAt {t u : Ty} {v w w' : Json} {path : List Segment} {e : CheckError}
    (h : Compares bodies discriminator t v path u w)
    (accepted : (v.check bodies discriminator t).result = .ok ()) (structured : ∀ s, w ≠ .string s)
    (present : w' ≠ .null) (fails : (w'.check bodies discriminator u).result = .error e) :
    ((v.replaceAt path w').check bodies discriminator t).result = .error (e.under path) := by
  induction h with
  | here t v =>
      rw [CheckError.under_nil]
      exact fails
  | @optional t u v w path hv inner ih =>
      have hok := (Json.check_optional_ok.mp accepted).resolve_left hv
      have hnull : ¬ (v.replaceAt path w').isNull = true :=
        mt Json.isNull_iff.mp (inner.replaceAt_ne_null present)
      rw [Json.check_optional, if_neg hnull]
      exact ih hok structured fails
  | @item t u items w path k inner ih =>
      obtain ⟨_, hitems, heach⟩ := Json.check_repeated_ok.mp accepted
      cases hitems
      rw [Json.replaceAt_index, CheckError.under_cons]
      have hk : (items.replace k ((items.item k).replaceAt path w')).item k =
          (items.item k).replaceAt path w' := if_pos rfl
      have hother : ∀ i, i < k →
          (items.replace k ((items.item k).replaceAt path w')).item i = items.item i :=
        fun i hi => if_neg (Nat.ne_of_lt hi)
      refine Json.check_repeated_fails ?_ fun i hi => ?_
      · rw [hk]
        exact ih (heach k) structured fails
      · rw [hother i hi]
        exact heach i
  | @entry t u members w path k inner ih =>
      obtain ⟨_, hmembers, heach⟩ := Json.check_map_ok.mp accepted
      cases hmembers
      rw [Json.replaceAt_key, CheckError.under_cons]
      have hk : (members.replace (members.name k) ((members.entry k).replaceAt path w')).entry k =
          (members.entry k).replaceAt path w' := if_pos rfl
      have hother : ∀ i, i < k → (members.replace (members.name k)
          ((members.entry k).replaceAt path w')).entry i = members.entry i :=
        fun i hi => if_neg fun hname => absurd (Names.index_ext hname) (Fin.ne_of_lt hi)
      refine Json.check_map_fails ?_ fun i hi => ?_
      · rw [hk]
        exact ih (heach k) structured fails
      · rw [hother i hi]
        exact heach i
  | @field declared members name t u v w path declares held inner ih =>
      obtain ⟨_, hmembers, hkeys, heach⟩ := Json.check_fields_ok.mp accepted
      cases hmembers
      obtain ⟨k, rfl, rfl⟩ := Table.find?_eq_some.mp declares
      rw [Json.replaceAt_field _ _ held, CheckError.under_cons, Json.check_fields]
      refine Table.checkFields_fails hkeys (Table.find?_replace_self held) ?_ ?_
      · refine Part.checkField_fails ?_ (ih (heach _ _ _ declares held).2 structured fails)
        exact fun hnull => absurd hnull (inner.replaceAt_ne_null present)
      · intro i hi x hx
        have hname : declared.name i ≠ declared.name k := fun hname =>
          absurd (Names.index_ext hname) (Fin.ne_of_lt hi)
        rw [Table.find?_replace_ne hname] at hx
        exact heach _ _ x (declared.find?_name i) hx
  | record kind expands inner ih =>
      rw [Json.check_inst_of_record expands kind] at accepted ⊢
      exact ih accepted structured fails
  | @payload i entries members constr t u v w path kind expands tag variant held inner ih =>
      rw [Json.check_object_of_schema expands kind,
        Table.checkVariant_held_ok tag variant held] at accepted
      obtain ⟨htwo, -, hok⟩ := accepted
      rw [Json.replaceAt_variant _ _ held, CheckError.under_cons]
      refine (Json.check_object_of_schema expands kind).trans ?_
      have htag : (members.replace constr (v.replaceAt path w')).find? discriminator =
          some (.string constr) := by
        rw [Table.find?_replace_ne ?_]
        · exact tag
        · -- otherwise the payload is the tag, a text
          rintro rfl
          obtain rfl : Json.string discriminator = v := Option.some.inj (tag.symm.trans held)
          exact structured _ inner.eq_of_string
      exact Table.checkVariant_fails htwo htag variant (Table.find?_replace_self held)
        (inner.replaceAt_ne_null present) (ih hok structured fails)

/-! ### The shape of an object -/

/-- The check of the parts of a value against a shape. -/
def Json.checkShape (bodies : Family) (discriminator : String) (v : Json) : Shape → Verdict
  | .items t => v.check bodies discriminator (.container .repeated t)
  | .entries t => v.check bodies discriminator (.container .map t)
  | .fields declared => v.check bodies discriminator (.fields declared)
  | .variants declared => v.checkVariants bodies discriminator declared

/-- A value that is not null is checked as against the shape of the type. -/
lemma Json.check_of_shape {t : Ty} {shape : Shape} {v : Json} (h : t.shape? bodies = some shape)
    (present : v ≠ .null) :
    (v.check bodies discriminator t).result = (v.checkShape bodies discriminator shape).result := by
  induction t with
  | primitive p => cases h
  | container c t ih =>
      cases c with
      | optional =>
          rw [check_optional, if_neg (mt isNull_iff.mp present)]
          exact ih h
      | repeated =>
          cases h
          rfl
      | map =>
          cases h
          rfl
  | fields declared =>
      cases h
      rfl
  | inst i =>
      cases hi : bodies i with
      | error e => simp [Ty.shape?, hi] at h
      | ok entries =>
          cases hkind : i.factory.kind with
          | record =>
              obtain rfl : Shape.fields entries = shape := by simpa [Ty.shape?, hi, hkind] using h
              exact check_inst_of_record hi hkind
          | schema =>
              obtain rfl : Shape.variants entries = shape := by
                simpa [Ty.shape?, hi, hkind] using h
              exact check_inst_of_schema hi hkind
  | param index => cases h

/-! ### One member more -/

/-- The larger table has the entries of the smaller one in their order, and one entry more at
any place. -/
def Table.OneMore {α : Type} (small large : Table α) : Prop :=
  ∃ before entry after, small.toList = before ++ after ∧
    large.toList = before ++ entry :: after

namespace Table.OneMore

variable {α : Type} {small large : Table α}

lemma size_eq (h : small.OneMore large) : large.size = small.size + 1 := by
  obtain ⟨before, entry, after, hsmall, hlarge⟩ := h
  rw [← length_toList, ← length_toList, hsmall, hlarge, List.length_append, List.length_append,
    List.length_cons]
  omega

/-- The larger table holds what the smaller one holds. -/
lemma find?_eq (h : small.OneMore large) {name : String} {a : α}
    (ha : small.find? name = some a) : large.find? name = some a := by
  obtain ⟨before, entry, after, hsmall, hlarge⟩ := h
  rw [← mem_toList, hsmall, List.mem_append] at ha
  rw [← mem_toList, hlarge, List.mem_append, List.mem_cons]
  exact ha.imp_right Or.inr

end Table.OneMore

section Edited

variable {u : Ty} {members members' : Table Json}

/-- An object that passes against named fields does not with one member more or less. -/
lemma Json.check_edited_fields {declared : Table Ty}
    (hshape : u.shape? bodies = some (.fields declared))
    (keys : ∀ name, name ∈ members.names.toList ↔ name ∈ declared.names.toList)
    (edited : members.OneMore members' ∨ members'.OneMore members) :
    ((object members').check bodies discriminator u).result =
      .error (.here (.expectedFields declared.names.toList members'.names.toList)) := by
  have hother : ¬ ∀ name, name ∈ members'.names.toList ↔ name ∈ declared.names.toList := by
    intro hkeys'
    have hsize := (Table.size_eq_of_names hkeys').trans (Table.size_eq_of_names keys).symm
    rcases edited with hmore | hless
    · have := hmore.size_eq
      omega
    · have := hless.size_eq
      omega
  have hpresent : object members' ≠ .null := nofun
  calc ((object members').check bodies discriminator u).result
      = ((object members').check bodies discriminator (.fields declared)).result :=
        check_of_shape hshape hpresent
    _ = ((members'.map (part bodies discriminator)).checkFields declared).result := by
        rw [check_fields, checkMembers_object]
    _ = .error (.here (.expectedFields declared.names.toList members'.names.toList)) := by
        rw [Table.checkFields_of_ne hother]
        rfl

/-- An object of a tag and a payload does not pass with one member more. -/
lemma Json.check_edited_variants {variants : Table Ty} {constr : String} {shape : Ty}
    {payload : Json} (hshape : u.shape? bodies = some (.variants variants)) (two : members.size = 2)
    (tag : members.find? discriminator = some (.string constr))
    (variant : variants.find? constr = some shape) (held : members.find? constr = some payload)
    (edited : members.OneMore members') :
    ((object members').check bodies discriminator u).result =
      .error (.here (.expectedFields [discriminator, constr] members'.names.toList)) := by
  have hthree : members'.size ≠ 2 := by
    have := edited.size_eq
    omega
  have hpresent : object members' ≠ .null := nofun
  calc ((object members').check bodies discriminator u).result
      = ((object members').checkVariants bodies discriminator variants).result :=
        check_of_shape hshape hpresent
    _ = (Table.checkVariant discriminator (members'.map (part bodies discriminator))
          variants).result := by
        rw [checkVariants, checkMembers_object]
    _ = .error (.here (.expectedFields [discriminator, constr] members'.names.toList)) := by
        rw [Table.checkVariant_held (edited.find?_eq tag) variant (edited.find?_eq held),
          if_pos hthree]
        rfl

end Edited

/-! ### The main statement -/

/-- **Objects are strict at every depth.** What a check compares is what it calls for, directly or
not. Let a check accept a value, and let it compare a part of the value that is not null with a
type; a path leads to this part. If the type stands for named fields, as a field mapping, a record, or either of them under optional types, then the
part is an object, and whatever member is added to it or removed from it, the check fails
there: it expects the declared names in their order, and got the keys in theirs. If the type
stands for the variants of a schema, then the part is an object that names its variant, and
whatever member is added to it, the check fails there: it expects the discriminator and the
variant. -/
theorem check_edited_object (bodies : Family) (config : Config) (t : Ty) (v : Json)
    (accepted : (check bodies config t v).result = .ok v) (path : List Segment) (u : Ty) (w : Json)
    (compared : Compares bodies config.discriminator t v path u w) (present : w ≠ .null) :
    (∀ u' w', (∃ path', Compares bodies config.discriminator t v path' u' w') ↔
        ReflTransGen (Subcheck bodies config.discriminator) (u', w') (t, v)) ∧
      v.follow? path = some w ∧
      (∀ w', (v.replaceAt path w').follow? path = some w') ∧
      (∀ declared, u.shape? bodies = some (.fields declared) →
        ∃ members, w = .object members ∧
          ∀ members', members.OneMore members' ∨ members'.OneMore members →
            (check bodies config t (v.replaceAt path (.object members'))).result =
              .error (.validation
                ⟨path, .expectedFields declared.names.toList members'.names.toList⟩)) ∧
      ∀ variants, u.shape? bodies = some (.variants variants) →
        ∃ members constr, w = .object members ∧
          members.find? config.discriminator = some (.string constr) ∧
          constr ∈ variants.names.toList ∧
          ∀ members', members.OneMore members' →
            (check bodies config t (v.replaceAt path (.object members'))).result =
              .error (.validation
                ⟨path, .expectedFields [config.discriminator, constr] members'.names.toList⟩) := by
  have haccepted := (Json.check_ok_iff v t).mpr (conforms_of_check accepted)
  have hok := compared.check_ok haccepted
  -- whatever the edited object fails for, the value fails for at its place
  have hmoves : ∀ {members members' : Table Json} {reason : Reason}, w = .object members →
      ((Json.object members').check bodies config.discriminator u).result = .error (.here reason) →
      (check bodies config t (v.replaceAt path (.object members'))).result =
        .error (.validation ⟨path, reason⟩) := by
    rintro members members' reason rfl hfails
    rw [check_error, ← CheckError.under_here]
    exact compared.check_replaceAt haccepted nofun nofun hfails
  refine ⟨fun u' w' => compares_iff_subchecks, compared.follow?,
    Json.follow?_replaceAt compared.follow?, fun declared hshape => ?_, fun variants hshape => ?_⟩
  · rw [Json.check_of_shape hshape present] at hok
    obtain ⟨members, rfl, hkeys, -⟩ := Json.check_fields_ok.mp hok
    exact ⟨members, rfl, fun members' hone =>
      hmoves rfl (Json.check_edited_fields hshape hkeys hone)⟩
  · rw [Json.check_of_shape hshape present] at hok
    obtain ⟨members, rfl, hmembers⟩ := Json.checkMembers_ok.mp hok
    obtain ⟨constr, shape, payload, htwo, htag, hvariant, hheld, -, -⟩ :=
      Table.checkVariant_ok.mp hmembers
    refine ⟨members, constr, rfl, htag, Table.exists_find?.mp ⟨shape, hvariant⟩, ?_⟩
    intro members' hone
    exact hmoves rfl (Json.check_edited_variants hshape htwo htag hvariant hheld hone)

/-- The members of a cell of a list. -/
def cellMembers (head tail : Json) : Table Json :=
  .ofList [("head", head), ("tail", tail)]

/-- The members of a list that is not empty. -/
def listMembers (cell : Json) : Table Json :=
  .ofList [("constr", .string "Cons"), ("Cons", cell)]

/-- `{ "some": [{ "constr": "Cons", "Cons": { "head": 1, "tail": Nil } }] }` -/
def listsOfOne : Json :=
  let nil : Json := .ofMembers [("constr", .string "Nil"), ("Nil", .ofMembers [])]
  let list : Json := .object (listMembers (.object (cellMembers (.number (.integer 1)) nil)))
  .ofMembers [("some", .ofItems [list])]

/-- In such lists, a cell without its tail is refused where the cell is, and a list with a
third member where the list is. -/
theorem check_edited_object_lists :
    let nil := Json.ofMembers [("constr", .string "Nil"), ("Nil", .ofMembers [])]
    let cell := cellMembers (.number (.integer 1)) nil
    let short : Table Json := .ofList [("head", .number (.integer 1))]
    let long : Table Json :=
      .ofList [("constr", .string "Cons"), ("size", .null), ("Cons", .object cell)]
    let place : List Segment := [.key "some", .index 0]
    (check Prelude.bodies .standard listsByName listsOfOne).result = .ok listsOfOne ∧
      short.OneMore cell ∧ (listMembers (.object cell)).OneMore long ∧
      (check Prelude.bodies .standard listsByName
          (listsOfOne.replaceAt (place ++ [.variant "Cons"]) (.object short))).result =
        .error (.validation ⟨place ++ [.variant "Cons"],
          .expectedFields ["head", "tail"] ["head"]⟩) ∧
      (check Prelude.bodies .standard listsByName
          (listsOfOne.replaceAt place (.object long))).result =
        .error (.validation ⟨place, .expectedFields ["constr", "Cons"]
          ["constr", "size", "Cons"]⟩) := by
  intro nil cell short long place
  let list : Ty := .inst ⟨Prelude.list.factory, fun _ => .number⟩
  have haccepted : (check Prelude.bodies .standard listsByName listsOfOne).result =
      .ok listsOfOne := rfl
  have hshort : short.OneMore cell := ⟨[("head", .number (.integer 1))], ("tail", nil), [], rfl, rfl⟩
  have hlong : (listMembers (.object cell)).OneMore long :=
    ⟨[("constr", .string "Cons")], ("size", .null), [("Cons", .object cell)], rfl, rfl⟩
  -- the path to the list, whatever is compared inside it
  have hlist : ∀ {u w path}, Compares Prelude.bodies "constr" list
      (.object (listMembers (.object cell))) path u w →
      Compares Prelude.bodies "constr" listsByName listsOfOne (place ++ path) u w :=
    fun h => @Compares.entry _ _ _ _ (.ofList [("some", _)]) _ _ ⟨0, by decide⟩
      (.optional nofun (@Compares.item _ _ _ _ (.ofList [_]) _ _ ⟨0, by decide⟩ h))
  obtain ⟨cells, hcell, hnames⟩ : ∃ cells : Table Ty,
      Compares Prelude.bodies "constr" list (.object (listMembers (.object cell)))
        [.variant "Cons"] (.fields cells) (.object cell) ∧ cells.names.toList = ["head", "tail"] :=
    ⟨_, .payload rfl rfl rfl rfl rfl (.here _ _), rfl⟩
  refine ⟨haccepted, hshort, hlong, ?_, ?_⟩
  · obtain ⟨-, -, -, hfields, -⟩ := check_edited_object Prelude.bodies .standard _ _ haccepted _ _ _
      (hlist hcell) nofun
    obtain ⟨members, hmembers, hrefused⟩ := hfields cells rfl
    cases hmembers
    rw [← hnames]
    exact hrefused short (.inr hshort)
  · obtain ⟨-, -, -, -, hvariants⟩ := check_edited_object Prelude.bodies .standard _ _ haccepted _ _ _
      (hlist (.here _ _)) nofun
    obtain ⟨members, constr, hmembers, htag, -, hrefused⟩ := hvariants _ rfl
    cases hmembers
    cases htag
    exact hrefused long hlong

end JsonTypes
