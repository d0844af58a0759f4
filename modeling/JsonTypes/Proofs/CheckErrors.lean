/-
Definition errors of checks, and mismatches with placeholders: where they come from.

A check expands instances as it meets values for them, so a definition error may
show however late. It is always the error of a body that the type leads to, and a
type has no such body if its factories have been validated. In the same way a check
that meets a placeholder has come to it through the type.

* `Ty.Reveals`: what a type leads to, looking into it and expanding instances.
* `Ty.Faulty`: an instance whose body fails can be reached from a type.
* `CheckError.PassedOn`: errors that values pass on from their parts. Definition
  errors are such errors, and mismatches with a placeholder.
* `Table.checkFields_raises`, `Table.checkVariant_raises`: objects have them from their
  members only.
* `Json.check_fields_raises`, `Json.check_inst_raises`: so do values, but for the error
  of an instance's own body; `Json.hasSource_of_raises`: the type leads to where they start.
* `Json.faulty_of_check`, `Json.reveals_of_check`: so it does for definition errors, and
  for placeholders.
* `check_validated`: checks of validated definitions fail with validation errors
  only.
-/
import JsonTypes.Proofs.Conformance
import JsonTypes.Proofs.Instantiation
import JsonTypes.Proofs.WalkSoundness

namespace JsonTypes

/-! ### What a type leads to -/

/-- The type `u` is found by looking into `t` and expanding instances. -/
inductive Ty.Reveals (bodies : Family) : Ty → Ty → Prop where
  | here (t : Ty) : Reveals bodies t t
  | container {c : Container} {t u : Ty} (inner : Reveals bodies t u) :
      Reveals bodies (.container c t) u
  | field {entries : Table Ty} {k : entries.names.Index} {u : Ty}
      (inner : Reveals bodies (entries.entry k) u) : Reveals bodies (.fields entries) u
  | entries {i : Instance} {entries : Table Ty} {u : Ty} (expands : bodies i = .ok entries)
      (inner : Reveals bodies (.fields entries) u) : Reveals bodies (.inst i) u

/-- The type shows an instance that reaches one whose body fails with the error. -/
def Ty.Faulty (bodies : Family) (e : DefinitionError) (t : Ty) : Prop :=
  ∃ guarded i j, t.Shows guarded (.inst i) ∧ bodies.Reaches i j ∧ bodies j = .error e

namespace Ty.Reveals

variable {bodies : Family} {t u : Ty}

/-- What a type leads to, it shows, or it shows an instance that reaches one which
exposes it. -/
lemma shows_or_exposes (h : t.Reveals bodies u) :
    (∃ guarded, t.Shows guarded u) ∨ ∃ guarded i j guarded', t.Shows guarded (.inst i) ∧
      bodies.Reaches i j ∧ bodies.Exposes j guarded' u := by
  induction h with
  | here t => exact Or.inl ⟨false, .here t⟩
  | container _ ih =>
      refine ih.imp ?_ ?_
      · rintro ⟨guarded, hshows⟩
        exact ⟨true, .container hshows⟩
      · rintro ⟨guarded, i, j, guarded', hshows, hij, hj⟩
        exact ⟨true, i, j, guarded', .container hshows, hij, hj⟩
  | field _ ih =>
      refine ih.imp ?_ ?_
      · rintro ⟨guarded, hshows⟩
        exact ⟨guarded, .field hshows⟩
      · rintro ⟨guarded, i, j, guarded', hshows, hij, hj⟩
        exact ⟨guarded, i, j, guarded', .field hshows, hij, hj⟩
  | @entries i entries _ hi _ ih =>
      refine Or.inr ?_
      rcases ih with ⟨guarded, hshows⟩ | ⟨guarded, j, k, guarded', hshows, hjk, hk⟩
      · exact ⟨false, i, i, guarded, .here _, .refl, entries, hi, hshows⟩
      · have hij : bodies.Child i j := ⟨guarded, entries, hi, hshows⟩
        exact ⟨false, i, k, guarded', .here _, hjk.head hij, hk⟩

/-- A type is faulty if it leads to an instance whose body fails. -/
lemma faulty {j : Instance} {e : DefinitionError} (h : t.Reveals bodies (.inst j))
    (hj : bodies j = .error e) : t.Faulty bodies e := by
  rcases h.shows_or_exposes with ⟨guarded, hshows⟩ | ⟨guarded, i, k, guarded', hshows, hik, hk⟩
  · exact ⟨guarded, j, j, hshows, .refl, hj⟩
  · exact ⟨guarded, i, j, hshows, hik.tail ⟨guarded', hk⟩, hj⟩

end Ty.Reveals

/-! ### Errors that are passed on -/

/-- A mismatch with a placeholder in the place of a type. -/
def Reason.NamesPlaceholder : Reason → Prop
  | .typeMismatch wanted _ => ∃ index, wanted = placeholderText index
  | _ => False

/-- A mismatch with a placeholder, wherever it is. -/
def CheckError.NamesPlaceholder : CheckError → Prop
  | .definition _ => False
  | .validation e => e.reason.NamesPlaceholder

/-- Errors that stay what they are on the way out, and that start at no value, unless
they are about a placeholder. -/
structure CheckError.PassedOn (kept : CheckError → Prop) : Prop where
  within : ∀ {step e}, kept (e.within step) → kept e
  here : ∀ {reason}, kept (.here reason) → reason.NamesPlaceholder

lemma CheckError.passedOn_definition (e : DefinitionError) : PassedOn (· = .definition e) where
  within {_ error} h := by
    cases error with
    | definition => exact h
    | validation => cases h
  here h := by cases h

lemma CheckError.passedOn_namesPlaceholder : PassedOn NamesPlaceholder where
  within {_ error} h := by
    cases error with
    | definition => exact h
    | validation => exact h
  here h := h

/-- No primitive is written like a placeholder. -/
lemma name_ne_placeholderText (p : Primitive) (index : ℕ) : p.name ≠ placeholderText index := by
  intro h
  have hchars : p.name.toList = (placeholderText index).toList := congrArg String.toList h
  rw [placeholderText] at hchars
  split_ifs at hchars
  · rw [String.toList_singleton] at hchars
    cases p <;> simp [Primitive.name, Primitive.kind, Json.Kind.name] at hchars
  · cases p <;> simp [Primitive.name, Primitive.kind, Json.Kind.name, toString] at hchars

lemma mismatch_name (p : Primitive) (v : Json) : ¬ (mismatch p.name v).NamesPlaceholder :=
  fun ⟨index, h⟩ => name_ne_placeholderText p index h

lemma absentOr_namesPlaceholder {v : Json} {reason : Reason}
    (h : (absentOr v reason).NamesPlaceholder) : reason.NamesPlaceholder := by
  rw [absentOr] at h
  split_ifs at h
  · exact h.elim
  · exact h

/-- That a value is no object is not about a placeholder. -/
lemma Layer.keyed_error {v : Json} {layer : Layer} {reason : Reason}
    (h : layer.keyed v = .error reason) : ¬ reason.NamesPlaceholder := by
  intro hnames
  cases layer with
  | scalar =>
      obtain rfl := Except.error.inj h
      exact mismatch_name .object v (absentOr_namesPlaceholder hnames)
  | items row =>
      obtain rfl := Except.error.inj h
      exact hnames
  | members table => cases h

/-- The type leads to where such an error can start: to an instance whose body fails
with it, or to a placeholder. -/
def Ty.HasSource (bodies : Family) (kept : CheckError → Prop) (t : Ty) : Prop :=
  (∃ j e, t.Reveals bodies (.inst j) ∧ bodies j = .error e ∧ kept (.definition e)) ∨
    ∃ index reason, t.Reveals bodies (.param index) ∧ kept (.here reason)

lemma Ty.HasSource.mono {bodies : Family} {kept : CheckError → Prop} {t t' : Ty}
    (hsub : ∀ u, t.Reveals bodies u → t'.Reveals bodies u) (h : t.HasSource bodies kept) :
    t'.HasSource bodies kept := by
  refine h.imp ?_ ?_
  · rintro ⟨j, e, hj, hfails, hkept⟩
    exact ⟨j, e, hsub _ hj, hfails, hkept⟩
  · rintro ⟨index, reason, hindex, hkept⟩
    exact ⟨index, reason, hsub _ hindex, hkept⟩

/-- The verdict is an error of the given sort. -/
def Verdict.Raises (verdict : Verdict) (kept : CheckError → Prop) : Prop :=
  ∃ e, verdict.result = .error e ∧ kept e

section PassedOn

variable {kept : CheckError → Prop} (passedOn : CheckError.PassedOn kept)
include passedOn

lemma Verdict.raises_within {step : Segment} {verdict : Verdict}
    (h : (verdict.within step).Raises kept) : verdict.Raises kept := by
  obtain ⟨e, he, hkept⟩ := h
  obtain ⟨inner, hinner, rfl⟩ := Traced.mapError_error.mp he
  exact ⟨inner, hinner, passedOn.within hkept⟩

lemma Verdict.raises_wrong {reason : Reason} (h : (Verdict.wrong reason).Raises kept) :
    reason.NamesPlaceholder := by
  obtain ⟨e, he, hkept⟩ := h
  obtain rfl := Except.error.inj he
  exact passedOn.here hkept

omit passedOn in
lemma Verdict.raises_forEach {ι : Type} {run : ι → Verdict} {list : List ι}
    (h : Verdict.Raises (Traced.forEach run list) kept) : ∃ i, (run i).Raises kept := by
  obtain ⟨e, he, hkept⟩ := h
  obtain ⟨-, i, -, -, -, hi⟩ := Traced.forEach_error.mp he
  exact ⟨i, e, hi, hkept⟩

/-! ### Objects -/

variable {bodies : Family} {discriminator : String}

/-- The check of an object against named fields has such errors from its members
only. -/
lemma Table.checkFields_raises {members : Table Json} {declared : Table Ty}
    (h : ((members.map (Json.part bodies discriminator)).checkFields declared).Raises kept) :
    ∃ k, ∃ w : Json, w.IsPart (.object members) ∧
      (w.check bodies discriminator (declared.entry k)).Raises kept := by
  rw [Table.checkFields] at h
  split_ifs at h with hkeys
  · obtain ⟨k, hk⟩ := Verdict.raises_forEach h
    rw [Table.find?_map] at hk
    cases hw : members.find? (declared.name k) with
    | none =>
        rw [hw] at hk
        obtain ⟨e, he, -⟩ := hk
        cases he
    | some w =>
        rw [hw, Option.map_some] at hk
        simp only [Part.checkField] at hk
        split_ifs at hk with hnull
        · exact (Verdict.raises_wrong passedOn hk).elim
        · exact ⟨k, w, Json.isPart_of_find? hw, Verdict.raises_within passedOn hk⟩
  · exact (Verdict.raises_wrong passedOn h).elim

/-- The check of an object against the variants of a schema has such errors from its
payload only. -/
lemma Table.checkVariant_raises {members : Table Json} {variants : Table Ty}
    (h : (Table.checkVariant discriminator (members.map (Json.part bodies discriminator))
      variants).Raises kept) :
    ∃ k, ∃ w : Json, w.IsPart (.object members) ∧
      (w.check bodies discriminator (variants.entry k)).Raises kept := by
  rw [Table.checkVariant] at h
  split at h
  · exact (Verdict.raises_wrong passedOn h).elim
  · exact (Verdict.raises_wrong passedOn h).elim
  · split at h
    · exact (Verdict.raises_wrong passedOn h).elim
    · next shape hshape =>
      split at h
      · next part hpart =>
        rw [Table.find?_map] at hpart
        obtain ⟨w, hw, rfl⟩ := Option.map_eq_some_iff.mp hpart
        obtain ⟨k, -, rfl⟩ := Table.find?_eq_some.mp hshape
        split_ifs at h with htwo hnull
        · exact (Verdict.raises_wrong passedOn h).elim
        · exact (Verdict.raises_wrong passedOn h).elim
        · exact ⟨k, w, Json.isPart_of_find? hw, Verdict.raises_within passedOn h⟩
      · exact (Verdict.raises_wrong passedOn h).elim
  · have hnames := Verdict.raises_wrong passedOn (Verdict.raises_within passedOn h)
    exact absurd hnames (mismatch_name .string _)

/-! ### Values -/

namespace Json

variable {v : Json}

/-- A check of the members has such errors as an object only. -/
lemma checkMembers_raises {run : Table Part → Verdict}
    (h : (v.checkMembers bodies discriminator run).Raises kept) :
    ∃ members, v = .object members ∧
      (run (members.map (part bodies discriminator))).Raises kept := by
  obtain ⟨e, he, hkept⟩ := h
  rcases checkMembers_error he with ⟨reason, hreason, rfl⟩ | ⟨members, rfl, he⟩
  · exact absurd (passedOn.here hkept) (Layer.keyed_error hreason)
  · exact ⟨members, rfl, e, he, hkept⟩

/-- The check of a value against a field mapping has such errors from the value's parts
only. -/
lemma check_fields_raises {declared : Table Ty}
    (h : (v.check bodies discriminator (.fields declared)).Raises kept) :
    ∃ k, ∃ w : Json, w.IsPart v ∧
      (w.check bodies discriminator (declared.entry k)).Raises kept := by
  rw [check_fields] at h
  obtain ⟨members, rfl, hmembers⟩ := checkMembers_raises passedOn h
  exact Table.checkFields_raises passedOn hmembers

/-- The check of a value against an instance has the error of the instance's body, or
such errors from the value's parts. -/
lemma check_inst_raises {i : Instance}
    (h : (v.check bodies discriminator (.inst i)).Raises kept) :
    (∃ e, bodies i = .error e ∧ kept (.definition e)) ∨
      ∃ entries, bodies i = .ok entries ∧ ∃ k, ∃ w : Json, w.IsPart v ∧
        (w.check bodies discriminator (entries.entry k)).Raises kept := by
  obtain ⟨e, he, hkept⟩ := h
  cases hi : bodies i with
  | error error =>
      rw [check_inst_of_error hi] at he
      obtain rfl := Except.error.inj he
      exact Or.inl ⟨error, rfl, hkept⟩
  | ok entries =>
      refine Or.inr ⟨entries, rfl, ?_⟩
      cases hkind : i.factory.kind with
      | record =>
          rw [check_inst_of_record hi hkind] at he
          exact check_fields_raises passedOn ⟨e, he, hkept⟩
      | schema =>
          rw [check_inst_of_schema hi hkind, checkVariants] at he
          obtain ⟨members, rfl, hmembers⟩ := checkMembers_raises passedOn ⟨e, he, hkept⟩
          exact Table.checkVariant_raises passedOn hmembers

/-- **Such an error starts where the type leads to**, at an instance whose body fails or
at a placeholder. The induction is on the value; at one value it is on the type, as far
as the type is written out. -/
lemma hasSource_of_raises (v : Json) {t : Ty}
    (h : (v.check bodies discriminator t).Raises kept) : t.HasSource bodies kept := by
  induction v using Json.part_induction generalizing t with
  | _ v ihv =>
  induction t with
  | primitive p =>
      rw [check_primitive] at h
      split_ifs at h
      · obtain ⟨e, he, -⟩ := h
        cases he
      · have hnames := Verdict.raises_wrong passedOn h
        exact absurd (absentOr_namesPlaceholder hnames) (mismatch_name p v)
  | container c t iht =>
      refine Ty.HasSource.mono (t := t) (fun u => .container) ?_
      cases c with
      | optional =>
          rw [check_optional] at h
          split_ifs at h
          · obtain ⟨e, he, -⟩ := h
            cases he
          · exact iht h
      | repeated =>
          rw [check_eq] at h
          cases v with
          | array items =>
              obtain ⟨i, hi⟩ := Verdict.raises_forEach h
              exact ihv _ (.item items i) (Verdict.raises_within passedOn hi)
          | null | boolean | number | string | object =>
              exact (absentOr_namesPlaceholder (Verdict.raises_wrong passedOn h)).elim
      | map =>
          rw [check_map] at h
          obtain ⟨members, rfl, hmembers⟩ := checkMembers_raises passedOn h
          obtain ⟨i, hi⟩ := Verdict.raises_forEach hmembers
          exact ihv _ (.member members i) (Verdict.raises_within passedOn hi)
  | fields declared =>
      obtain ⟨k, w, hw, hcheck⟩ := check_fields_raises passedOn h
      exact (ihv w hw hcheck).mono fun u => .field
  | inst i =>
      rcases check_inst_raises passedOn h with ⟨e, hi, hkept⟩ | ⟨entries, hi, k, w, hw, hcheck⟩
      · exact Or.inl ⟨i, e, .here _, hi, hkept⟩
      · exact (ihv w hw hcheck).mono fun u hu => .entries hi (.field hu)
  | param index =>
      obtain ⟨e, he, hkept⟩ := h
      rw [check_param] at he
      obtain rfl := Except.error.inj he
      exact Or.inr ⟨index, _, .here _, hkept⟩

end Json

end PassedOn

/-- **A definition error of a check is one that the type leads to.** -/
lemma Json.faulty_of_check {bodies : Family} {discriminator : String} {e : DefinitionError}
    (v : Json) {t : Ty}
    (h : (v.check bodies discriminator t).result = .error (.definition e)) :
    t.Faulty bodies e := by
  have passedOn := CheckError.passedOn_definition e
  rcases hasSource_of_raises passedOn v ⟨_, h, rfl⟩ with
    ⟨j, e', hj, hfails, hsame⟩ | ⟨index, reason, -, hreason⟩
  · obtain rfl := CheckError.definition.inj hsame
    exact hj.faulty hfails
  · cases hreason

/-- A check that comes to a placeholder has come to it through the type. -/
lemma Json.reveals_of_check {bodies : Family} {discriminator : String} (v : Json) {t : Ty}
    {e : CheckError} (h : (v.check bodies discriminator t).result = .error e)
    (hnames : e.NamesPlaceholder) : ∃ index, t.Reveals bodies (.param index) := by
  rcases hasSource_of_raises CheckError.passedOn_namesPlaceholder v ⟨e, h, hnames⟩ with
    ⟨j, e', -, -, hdefinition⟩ | ⟨index, -, hindex, -⟩
  · exact hdefinition.elim
  · exact ⟨index, hindex⟩

/-! ### Validated definitions -/

/-- **Validating the definitions is enough.** If the walk accepts every factory that a
type applies, no check against the type fails with a definition error: it hands the
value back, or fails with a validation error. -/
theorem check_validated (bodies : Family) (templated : bodies.Templated) (t : Ty)
    (validated : ∀ f ∈ t.factories, ∃ config d, (validate bodies config f).result = .ok d)
    (config : Config) (v : Json) :
    (check bodies config t v).result = .ok v ∨
      ∃ e, (check bodies config t v).result = .error (.validation e) := by
  have hwf : t.WellFormed bodies := by
    intro f hf
    obtain ⟨_, _, hd⟩ := validated f (Ty.mem_factories.mpr hf)
    exact wellFormed_of_validate templated.respectsSame hd
  rw [check_result]
  cases h : (v.check bodies config.discriminator t).result with
  | ok u => exact Or.inl rfl
  | error error =>
      cases error with
      | validation e => exact Or.inr ⟨e, rfl⟩
      | definition e =>
          obtain ⟨guarded, i, j, hi, hij, hj⟩ := v.faulty_of_check h
          obtain ⟨entries, hentries⟩ := expands_of_shows templated hwf hi hij
          cases hj.symm.trans hentries

/-- Lists of rose trees of lists are such a type: the walk accepts both of its
factories, and nothing else has to be asked of a value. -/
theorem check_validated_rose :
    Prelude.bodies.Templated ∧
      ∃ t, t.factories = [Prelude.list.factory, Prelude.rose.factory] ∧
        (∀ f ∈ t.factories, ∃ config d, (validate Prelude.bodies config f).result = .ok d) ∧
        ∀ v, (check Prelude.bodies .standard t v).result = .ok v ∨
          ∃ e, (check Prelude.bodies .standard t v).result = .error (.validation e) := by
  let listOf : Ty → Ty := fun t => .inst ⟨Prelude.list.factory, fun _ => t⟩
  let roseOf : Ty → Ty := fun t => .inst ⟨Prelude.rose.factory, fun _ => t⟩
  have hfactories : (listOf (roseOf (listOf .number))).factories =
      [Prelude.list.factory, Prelude.rose.factory] := by decide
  have hvalidated : ∀ f ∈ (listOf (roseOf (listOf .number))).factories, ∃ config d,
      (validate Prelude.bodies config f).result = .ok d := by
    rw [hfactories]
    simp only [List.forall_mem_cons, List.not_mem_nil, false_imp_iff, implies_true, and_true]
    exact ⟨⟨.standard, _, rfl⟩, ⟨.standard, _, rfl⟩⟩
  refine ⟨Prelude.bodies_templated, _, hfactories, hvalidated, fun v => ?_⟩
  exact check_validated Prelude.bodies Prelude.bodies_templated _ hvalidated .standard v

end JsonTypes
