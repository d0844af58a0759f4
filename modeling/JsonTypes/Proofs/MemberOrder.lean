/-
The order of members.

Two values that differ in the order of the members of objects only have the same types.
The order is not without effect: a dictionary is checked in the order of its members, so
that two failing checks may be about different members. Where a type leads to no
dictionary, they are about the same place and for the same reason, but for the order in
which the keys of an object are listed.

* `Json.Alike`: values up to the order of members, an equivalence.
* `Json.HasMembers.alike`: objects with given members are alike if the members are.
* `Conforms.reordered`: alike values conform to the same types.
* `Reason.Alike`, `CheckError.Alike`, `SameOutcome`: failures and outcomes up to the order of
  the keys that are listed.
* `Ty.MapFree`: types that lead to no dictionary.
* `Table.checkFields_alike`, `Table.checkVariant_alike`, `Json.check_alike`: the checks of
  alike objects and values against such types have the same outcome.
* `check_member_order`: both for checks as a whole.
-/
import JsonTypes.Proofs.CheckErrors
import JsonTypes.Proofs.ConformingObjects

namespace JsonTypes

/-! ### Values up to the order of members -/

namespace Json

/-- Values that differ in the order of the members of objects only, at any depth. -/
inductive Alike : Json → Json → Prop where
  | null : Alike .null .null
  | boolean (b : Bool) : Alike (.boolean b) (.boolean b)
  | number (n : Number) : Alike (.number n) (.number n)
  | string (s : String) : Alike (.string s) (.string s)
  | array {length : ℕ} {item item' : Fin length → Json} (each : ∀ i, Alike (item i) (item' i)) :
      Alike (.array ⟨length, item⟩) (.array ⟨length, item'⟩)
  | object {a b : Table Json} (names : ∀ name, name ∈ a.names.toList ↔ name ∈ b.names.toList)
      (each : ∀ name v w, a.find? name = some v → b.find? name = some w → Alike v w) :
      Alike (.object a) (.object b)

namespace Alike

variable {v w u : Json} {a b : Table Json} {name : String}

lemma refl (v : Json) : v.Alike v := by
  induction v with
  | null => exact .null
  | boolean b => exact .boolean b
  | number n => exact .number n
  | string s => exact .string s
  | array items ih => exact .array ih
  | object members ih =>
      refine .object (fun _ => Iff.rfl) fun name v w hv hw => ?_
      obtain rfl : v = w := Option.some.inj (hv.symm.trans hw)
      obtain ⟨i, -, rfl⟩ := Table.find?_eq_some.mp hv
      exact ih i

lemma symm (h : v.Alike w) : w.Alike v := by
  induction h with
  | null => exact .null
  | boolean b => exact .boolean b
  | number n => exact .number n
  | string s => exact .string s
  | array _ ih => exact .array ih
  | object names _ ih =>
      exact .object (fun name => (names name).symm) fun name v w hv hw => ih name w v hw hv

/-- What alike objects have under a name is alike. -/
lemma of_find? (h : (Json.object a).Alike (Json.object b)) (hv : a.find? name = some v)
    (hw : b.find? name = some w) : v.Alike w := by
  cases h with
  | object _ each => exact each name v w hv hw

/-- A name that an object has is a name of all alike objects. -/
lemma exists_find? (h : (Json.object a).Alike (Json.object b)) (hv : a.find? name = some v) :
    ∃ w, b.find? name = some w ∧ v.Alike w := by
  cases h with
  | object names each =>
      have hname : name ∈ b.names.toList := (names name).mp (Table.exists_find?.mp ⟨v, hv⟩)
      obtain ⟨w, hw⟩ := Table.exists_find?.mpr hname
      exact ⟨w, hw, each name v w hv hw⟩

lemma find?_eq_none (h : (Json.object a).Alike (Json.object b)) (hnone : a.find? name = none) :
    b.find? name = none := by
  refine Option.eq_none_iff_forall_ne_some.mpr fun w hw => ?_
  obtain ⟨v, hv, -⟩ := h.symm.exists_find? hw
  cases hnone.symm.trans hv

lemma names_iff (h : (Json.object a).Alike (Json.object b)) (name : String) :
    name ∈ a.names.toList ↔ name ∈ b.names.toList := by
  cases h with
  | object names _ => exact names name

lemma names_perm (h : (Json.object a).Alike (Json.object b)) :
    a.names.toList.Perm b.names.toList :=
  (List.perm_ext_iff_of_nodup a.names.nodup b.names.nodup).mpr h.names_iff

lemma size_eq (h : (Json.object a).Alike (Json.object b)) : a.size = b.size :=
  Table.size_eq_of_names h.names_iff

lemma trans (h : v.Alike w) (h' : w.Alike u) : v.Alike u := by
  induction h generalizing u with
  | null | boolean | number | string => exact h'
  | array _ ih =>
      cases h' with
      | array each' => exact .array fun i => ih i (each' i)
  | @object a b names each ih =>
      cases h' with
      | object names' each' =>
          refine .object (fun name => (names name).trans (names' name)) fun name v w hv hw => ?_
          obtain ⟨x, hx, -⟩ := (Alike.object names each).exists_find? hv
          exact ih name v x hv hx (each' name x w hx hw)

lemma kind_eq (h : v.Alike w) : v.kind = w.kind := by
  cases h <;> rfl

lemma isNull_eq (h : v.Alike w) : v.isNull = w.isNull := by
  cases h <;> rfl

lemma ne_null (h : v.Alike w) (hv : v ≠ .null) : w ≠ .null := by
  rintro rfl
  cases h
  exact hv rfl

end Alike

/-! ### Objects with alike members -/

namespace HasMembers

variable {v w : Json} {entries entries' : List (String × Json)}

/-- Objects with alike members under the same names are alike. -/
lemma alike (hv : v.HasMembers entries) (hw : w.HasMembers entries')
    (each : List.Forall₂ (fun e e' => e.1 = e'.1 ∧ e.2.Alike e'.2) entries entries') :
    v.Alike w := by
  obtain ⟨a, rfl, ha⟩ := id hv
  obtain ⟨b, rfl, hb⟩ := id hw
  have hnames : entries.map Prod.fst = entries'.map Prod.fst := by
    rw [← List.forall₂_eq_eq_eq, List.forall₂_map_left_iff, List.forall₂_map_right_iff]
    exact each.imp fun _ _ h => h.1
  refine .object (fun name => ?_) fun name x y hx hy => ?_
  · rw [← Table.map_fst_toList, ← Table.map_fst_toList, (ha.map Prod.fst).mem_iff, hnames,
      (hb.map Prod.fst).mem_iff]
  · -- a name stands in the second list once, with a member that is alike to the first
    obtain ⟨⟨other, z⟩, hz, hother, hxz⟩ := (members_related each).1 _ (hv.mem_of_find? hx)
    obtain rfl : name = other := hother
    obtain rfl : z = y := Option.some.inj ((hw.find? hz).symm.trans hy)
    exact hxz

/-- In particular, objects with two members. -/
lemma alike_pair {first second : String} {x x' y y' : Json}
    (hv : v.HasMembers [(first, x), (second, y)]) (hw : w.HasMembers [(first, x'), (second, y')])
    (hx : x.Alike x') (hy : y.Alike y') : v.Alike w :=
  hv.alike hw (.cons ⟨rfl, hx⟩ (.cons ⟨rfl, hy⟩ .nil))

end HasMembers

end Json

variable {bodies : Family} {discriminator : String}

/-! ### Values of a type -/

/-- **Alike values conform to the same types.** -/
lemma Conforms.reordered {t : Ty} {v w : Json} (h : Conforms bodies discriminator t v)
    (alike : v.Alike w) : Conforms bodies discriminator t w := by
  induction h generalizing w with
  | primitive hpresent hkind => exact .primitive (alike.ne_null hpresent) (alike.kind_eq ▸ hkind)
  | absent =>
      cases alike
      exact .absent
  | present _ ih => exact .present (ih alike)
  | repeated _ ih =>
      cases alike with
      | array each => exact .repeated fun i => ih i (each i)
  | @map t a _ ih =>
      cases id alike with
      | @object _ b _ _ =>
          refine .map fun i => ?_
          obtain ⟨v, hv, hvw⟩ := alike.symm.exists_find? (b.find?_name i)
          obtain ⟨k, -, rfl⟩ := Table.find?_eq_some.mp hv
          exact ih k hvw.symm
  | fields hkeys _ ih =>
      cases id alike with
      | @object _ b names _ =>
          refine .fields (fun name => (names name).symm.trans (hkeys name)) ?_
          intro name t w ht hw
          obtain ⟨v, hv, hwv⟩ := alike.symm.exists_find? hw
          exact ih name t v ht hv hwv.symm
  | record hkind hexpands _ ih => exact .record hkind hexpands (ih alike)
  | schema hkind hexpands htwo htag hvariant hheld hpresent _ ih =>
      cases id alike with
      | object _ _ =>
          obtain ⟨tag, htag', htags⟩ := alike.exists_find? htag
          obtain ⟨payload, hheld', hpayloads⟩ := alike.exists_find? hheld
          cases htags
          exact .schema hkind hexpands (alike.size_eq ▸ htwo) htag' hvariant hheld'
            (hpayloads.ne_null hpresent) (ih hpayloads)

/-! ### Failures up to the order of keys -/

/-- The same reason, but for the order in which the keys of an object are listed. -/
inductive Reason.Alike : Reason → Reason → Prop where
  | refl (reason : Reason) : Alike reason reason
  | expectedFields (expected : List String) {got got' : List String} (same : got.Perm got') :
      Alike (.expectedFields expected got) (.expectedFields expected got')

/-- The same definition error, or the same reason at the same place but for the order of
listed keys. -/
inductive CheckError.Alike : CheckError → CheckError → Prop where
  | definition (e : DefinitionError) : Alike (.definition e) (.definition e)
  | validation (path : List Segment) {reason reason' : Reason} (same : reason.Alike reason') :
      Alike (.validation ⟨path, reason⟩) (.validation ⟨path, reason'⟩)

namespace CheckError.Alike

lemma refl (e : CheckError) : e.Alike e := by
  cases e with
  | definition e => exact .definition e
  | validation e => exact .validation e.path (.refl e.reason)

lemma within {e e' : CheckError} (h : e.Alike e') (step : Segment) :
    (e.within step).Alike (e'.within step) := by
  cases h with
  | definition e => exact .definition e
  | validation path same => exact .validation (step :: path) same

end CheckError.Alike

/-- Two checks both pass, or both fail with alike errors. -/
inductive SameOutcome : Except CheckError Unit → Except CheckError Unit → Prop where
  | pass : SameOutcome (.ok ()) (.ok ())
  | fail {e e' : CheckError} (alike : e.Alike e') : SameOutcome (.error e) (.error e')

namespace SameOutcome

lemma refl (result : Except CheckError Unit) : SameOutcome result result := by
  cases result with
  | ok a => exact .pass
  | error e => exact .fail (.refl e)

lemma wrong {reason reason' : Reason} (h : reason.Alike reason') :
    SameOutcome (Verdict.wrong reason).result (Verdict.wrong reason').result :=
  .fail (.validation [] h)

lemma within {verdict verdict' : Verdict} (h : SameOutcome verdict.result verdict'.result)
    (step : Segment) :
    SameOutcome (verdict.within step).result (verdict'.within step).result := by
  simp only [Verdict.within, Traced.result_mapError]
  generalize verdict.result = result at h ⊢
  generalize verdict'.result = result' at h ⊢
  cases h with
  | pass => exact .pass
  | fail alike => exact .fail (alike.within step)

/-- Two runs over a list have the same outcome if they do at every item. -/
lemma forEach {ι : Type} {run run' : ι → Verdict} {list : List ι}
    (each : ∀ i ∈ list, SameOutcome (run i).result (run' i).result) :
    SameOutcome (Traced.forEach run list).result (Traced.forEach run' list).result := by
  induction list with
  | nil => exact .pass
  | cons i rest ih =>
      obtain ⟨hfirst, hrest⟩ := List.forall_mem_cons.mp each
      simp only [Traced.forEach, Traced.bind]
      generalize (run i).result = result at hfirst ⊢
      generalize (run' i).result = result' at hfirst ⊢
      cases hfirst with
      | pass => exact ih hrest
      | fail alike => exact .fail alike

end SameOutcome

/-! ### Types without dictionaries -/

/-- Neither the type nor any type that it leads to is a dictionary. -/
def Ty.MapFree (bodies : Family) (t : Ty) : Prop :=
  ∀ u, ¬ t.Reveals bodies (.map u)

namespace Ty.MapFree

variable {t : Ty} {declared : Table Ty}

lemma arg {c : Container} (h : (Ty.container c t).MapFree bodies) : t.MapFree bodies :=
  fun u hu => h u (.container hu)

lemma primitive (p : Primitive) : (Ty.primitive p).MapFree bodies := by
  intro u hu
  cases hu

lemma fields_iff : (Ty.fields declared).MapFree bodies ↔ ∀ i, (declared.entry i).MapFree bodies := by
  constructor
  · exact fun h i u hu => h u (.field hu)
  · intro h u hu
    cases hu with
    | field inner => exact h _ u inner

lemma find? {name : String} (h : (Ty.fields declared).MapFree bodies)
    (ht : declared.find? name = some t) : t.MapFree bodies := by
  obtain ⟨i, -, rfl⟩ := Table.find?_eq_some.mp ht
  exact fields_iff.mp h i

lemma inst_iff {i : Instance} (hi : bodies i = .ok declared) :
    (Ty.inst i).MapFree bodies ↔ (Ty.fields declared).MapFree bodies := by
  constructor
  · exact fun h u hu => h u (.entries hi hu)
  · intro h u hu
    cases hu with
    | entries hi' inner =>
        obtain rfl := Except.ok.inj (hi.symm.trans hi')
        exact h u inner

end Ty.MapFree

/-! ### Checks of alike objects -/

section Objects

variable {a b : Table Json}

/-- A field has the same outcome if its values do, of which both are null or none is. -/
lemma Part.checkField_alike {name : String} {t : Ty} {v w : Json} (alike : v.Alike w)
    (same : SameOutcome (v.check bodies discriminator t).result
      (w.check bodies discriminator t).result) :
    SameOutcome ((v.part bodies discriminator).checkField name t).result
      ((w.part bodies discriminator).checkField name t).result := by
  rw [Part.checkField, Part.checkField, Json.part_value, Json.part_value, alike.isNull_eq]
  split_ifs
  · exact .refl _
  · exact same.within _

/-- Alike objects have the same outcome against named fields: only their keys are listed in
another order, since the fields are checked in the order of their declaration. -/
lemma Table.checkFields_alike {declared : Table Ty}
    (alike : (Json.object a).Alike (Json.object b))
    (same : ∀ name t v w, declared.find? name = some t → a.find? name = some v →
      b.find? name = some w → SameOutcome (v.check bodies discriminator t).result
        (w.check bodies discriminator t).result) :
    SameOutcome ((a.map (Json.part bodies discriminator)).checkFields declared).result
      ((b.map (Json.part bodies discriminator)).checkFields declared).result := by
  have hkeys : (a.map (Json.part bodies discriminator)).sameKeys declared =
      (b.map (Json.part bodies discriminator)).sameKeys declared := by
    rw [Bool.eq_iff_iff, sameKeys_iff, sameKeys_iff]
    exact forall_congr' fun name => iff_congr (alike.names_iff name) Iff.rfl
  rw [checkFields, checkFields, hkeys]
  split_ifs
  · refine .forEach fun i _ => ?_
    rw [find?_map, find?_map]
    cases hv : a.find? (declared.name i) with
    | none =>
        rw [alike.find?_eq_none hv]
        exact .refl _
    | some v =>
        obtain ⟨w, hw, hvw⟩ := alike.exists_find? hv
        rw [hw]
        exact Part.checkField_alike hvw (same _ _ v w (declared.find?_name i) hv hw)
  · exact .wrong (.expectedFields _ alike.names_perm)

/-- Alike objects have the same outcome against the variants of a schema. -/
lemma Table.checkVariant_alike {variants : Table Ty}
    (alike : (Json.object a).Alike (Json.object b))
    (same : ∀ constr t v w, variants.find? constr = some t → a.find? constr = some v →
      b.find? constr = some w → SameOutcome (v.check bodies discriminator t).result
        (w.check bodies discriminator t).result) :
    SameOutcome
      (Table.checkVariant discriminator (a.map (Json.part bodies discriminator)) variants).result
      (Table.checkVariant discriminator (b.map (Json.part bodies discriminator))
        variants).result := by
  cases htag : a.find? discriminator with
  | none =>
      simp only [checkVariant, find?_part_value, htag, alike.find?_eq_none htag]
      exact .refl _
  | some tag =>
      obtain ⟨tag', htag', htags⟩ := alike.exists_find? htag
      cases htags with
      | string constr =>
          cases hshape : variants.find? constr with
          | none =>
              simp only [checkVariant, find?_part_value, htag, htag', hshape]
              exact .refl _
          | some shape =>
              cases hheld : a.find? constr with
              | none =>
                  simp only [checkVariant, find?_map, htag, htag', Option.map_some, Json.part_value,
                    hshape, hheld, alike.find?_eq_none hheld]
                  exact .wrong (.expectedFields _ alike.names_perm)
              | some v =>
                  obtain ⟨w, hheld', hvw⟩ := alike.exists_find? hheld
                  rw [checkVariant_held htag hshape hheld, checkVariant_held htag' hshape hheld',
                    alike.size_eq, hvw.isNull_eq]
                  split_ifs
                  · exact .wrong (.expectedFields _ alike.names_perm)
                  · exact .refl _
                  · exact (same constr shape v w hshape hheld hheld').within _
      | null | boolean | number | array | object =>
          simp only [checkVariant, find?_part_value, htag, htag']
          exact .refl _

end Objects

/-! ### Checks of alike values -/

namespace Json

variable {v w : Json}

/-- Alike values that have to be objects have the same outcome, if alike objects do. -/
lemma checkMembers_alike {run run' : Table Part → Verdict} (alike : v.Alike w)
    (objects : ∀ a b, v = .object a → w = .object b → SameOutcome
      (run (a.map (part bodies discriminator))).result
      (run' (b.map (part bodies discriminator))).result) :
    SameOutcome (v.checkMembers bodies discriminator run).result
      (w.checkMembers bodies discriminator run').result := by
  cases alike with
  | object names each => exact objects _ _ rfl rfl
  | null | boolean | number | string | array => exact .refl _

/-- **Alike values have the same outcome** against a type that leads to no dictionary. The
induction is on the value; at one value it is on the type, as far as the type is written
out. -/
lemma check_alike {t : Ty} (alike : v.Alike w) (free : t.MapFree bodies) :
    SameOutcome (v.check bodies discriminator t).result
      (w.check bodies discriminator t).result := by
  induction v using part_induction generalizing w t with
  | _ v ihv =>
  have hfields (declared : Table Ty) (hdeclared : (Ty.fields declared).MapFree bodies) :
      SameOutcome (v.check bodies discriminator (.fields declared)).result
        (w.check bodies discriminator (.fields declared)).result := by
    rw [check_fields, check_fields]
    refine checkMembers_alike alike ?_
    rintro a b rfl rfl
    refine Table.checkFields_alike alike fun name t x y ht hx hy => ?_
    exact ihv x (isPart_of_find? hx) (alike.of_find? hx hy) (hdeclared.find? ht)
  induction t with
  | primitive p =>
      rw [check_primitive, check_primitive, Primitive.holds, Primitive.holds, alike.kind_eq]
      split_ifs
      · exact .refl _
      · rw [absentOr, absentOr, mismatch, mismatch, alike.kind_eq, alike.isNull_eq]
        exact .refl _
  | container c t iht =>
      cases c with
      | optional =>
          rw [check_optional, check_optional, alike.isNull_eq]
          split_ifs
          · exact .refl _
          · exact iht free.arg
      | repeated =>
          cases alike with
          | array each =>
              rw [check_repeated_array, check_repeated_array]
              refine .forEach fun i _ => ?_
              exact (ihv _ (.item _ i) (each i) free.arg).within _
          | object | null | boolean | number | string => exact .refl _
      | map => exact absurd (.here _) (free t)
  | fields declared => exact hfields declared free
  | inst i =>
      cases hi : bodies i with
      | error e =>
          rw [check_inst_of_error hi, check_inst_of_error hi]
          exact .refl _
      | ok entries =>
          have hentries := (Ty.MapFree.inst_iff hi).mp free
          cases hkind : i.factory.kind with
          | record =>
              rw [check_inst_of_record hi hkind, check_inst_of_record hi hkind]
              exact hfields entries hentries
          | schema =>
              rw [check_inst_of_schema hi hkind, check_inst_of_schema hi hkind]
              refine checkMembers_alike alike ?_
              rintro a b rfl rfl
              refine Table.checkVariant_alike alike fun constr t x y ht hx hy => ?_
              exact ihv x (isPart_of_find? hx) (alike.of_find? hx hy) (hentries.find? ht)
  | param index =>
      rw [check_param, check_param, absentOr, absentOr, mismatch, mismatch, alike.kind_eq,
        alike.isNull_eq]
      exact .refl _

end Json

/-! ### The main statement -/

/-- **The order of members does not matter.** Let two values be equal up to the order of the
members of objects, at any depth. A check accepts both or none. If moreover neither the type
nor any type that it leads to is a dictionary, then a check that fails at the one fails at
the other with the same definition error, or at the same place and for the same reason, but
for the order in which the keys of an object are listed. -/
theorem check_member_order (bodies : Family) (config : Config) (t : Ty) (v w : Json)
    (alike : v.Alike w) :
    ((∃ u, (check bodies config t v).result = .ok u) ↔
        ∃ u, (check bodies config t w).result = .ok u) ∧
      (t.MapFree bodies → ∀ e, (check bodies config t v).result = .error e →
        ∃ e', (check bodies config t w).result = .error e' ∧ e.Alike e') := by
  constructor
  · rw [exists_check_iff, exists_check_iff]
    exact ⟨fun h => h.reordered alike, fun h => h.reordered alike.symm⟩
  · intro free e hfails
    have hsame : SameOutcome (v.check bodies config.discriminator t).result
        (w.check bodies config.discriminator t).result := Json.check_alike alike free
    rw [check_error.mp hfails] at hsame
    cases hw : (w.check bodies config.discriminator t).result with
    | ok a =>
        rw [hw] at hsame
        cases hsame
    | error e' =>
        rw [hw] at hsame
        cases hsame with
        | fail halike => exact ⟨e', check_error.mpr hw, halike⟩

/-- An optional point, as a schema with a variant for its absence. -/
def maybePoint : Ty :=
  .inst ⟨Prelude.maybe.factory, fun _ => .fields (.ofList [("x", .number), ("y", .number)])⟩

/-- `{ "constr": "Just", "Just": { "fromJust": point } }` -/
def justTagFirst (point : Json) : Json :=
  .ofMembers [("constr", .string "Just"), ("Just", .ofMembers [("fromJust", point)])]

/-- `{ "Just": { "fromJust": point }, "constr": "Just" }` -/
def justTagLast (point : Json) : Json :=
  .ofMembers [("Just", .ofMembers [("fromJust", point)]), ("constr", .string "Just")]

lemma justTagFirst_alike {p q : Json} (h : p.Alike q) : (justTagFirst p).Alike (justTagLast q) := by
  have hpayloads : (Json.ofMembers [("fromJust", p)]).Alike (.ofMembers [("fromJust", q)]) :=
    (Json.HasMembers.ofMembers (by simp)).alike (.ofMembers (by simp)) (.cons ⟨rfl, h⟩ .nil)
  have hlast : (justTagLast q).HasMembers
      [("constr", .string "Just"), ("Just", .ofMembers [("fromJust", q)])] :=
    (Json.HasMembers.ofMembers (by simp)).perm (.swap ..)
  exact (Json.HasMembers.ofMembers (by simp)).alike_pair hlast (.string "Just") hpayloads

/-- A point with a wrong field is refused in either order, at the same place, with its keys
in the order in which they stand. -/
theorem check_member_order_points :
    let p := Json.ofMembers [("y", .number (.integer 1)), ("z", .number (.integer 2))]
    let q := Json.ofMembers [("z", .number (.integer 2)), ("y", .number (.integer 1))]
    let place : List Segment := [.variant "Just", .field "fromJust"]
    let e := CheckError.validation ⟨place, .expectedFields ["x", "y"] ["y", "z"]⟩
    (justTagFirst p).Alike (justTagLast q) ∧ maybePoint.MapFree Prelude.bodies ∧
      (check Prelude.bodies .standard maybePoint (justTagFirst p)).result = .error e ∧
      ∃ e', (check Prelude.bodies .standard maybePoint (justTagLast q)).result = .error e' ∧
        e.Alike e' := by
  intro p q place e
  have hpoints : p.Alike q := by
    have hq : q.HasMembers [("y", .number (.integer 1)), ("z", .number (.integer 2))] :=
      (Json.HasMembers.ofMembers (by decide)).perm (.swap ..)
    exact (Json.HasMembers.ofMembers (by decide)).alike_pair hq (.refl _) (.refl _)
  have hfree : maybePoint.MapFree Prelude.bodies := by
    refine (Ty.MapFree.inst_iff rfl).mpr (Ty.MapFree.fields_iff.mpr fun variant => ?_)
    match variant with
    | ⟨0, _⟩ => exact Ty.MapFree.fields_iff.mpr fun field => field.elim0
    | ⟨1, _⟩ =>
        refine Ty.MapFree.fields_iff.mpr fun field => ?_
        match field with
        | ⟨0, _⟩ =>
            refine Ty.MapFree.fields_iff.mpr fun coordinate => ?_
            match coordinate with
            | ⟨0, _⟩ => exact .primitive .number
            | ⟨1, _⟩ => exact .primitive .number
  have hfails : (check Prelude.bodies .standard maybePoint (justTagFirst p)).result = .error e := rfl
  obtain ⟨-, hsame⟩ := check_member_order Prelude.bodies .standard maybePoint _ _
    (justTagFirst_alike hpoints)
  exact ⟨justTagFirst_alike hpoints, hfree, hfails, hsame hfree e hfails⟩

end JsonTypes
