/-
The construction of qualified schemas refuses the impossible ones, and no others.

It looks at the fields of the schema only, and only for those that require the schema
itself. That is enough: a field that refers to another schema holds one that has been built
before, so that chains of required fields lead to ever smaller schemas, or into core types,
whose definitions the walk has accepted. So the walk over the record of a schema finds a
required field that leads back if and only if the construction does, and what has been
built has a value.

* `QualifiedField.RequiresSelf`, `QualifiedSchema.Built`: what the construction refuses, and
  schemas that it has passed; `QualifiedSchema.Grounded`: no schema inside requires itself.
* `Family.Carries`: the records of a schema and what its core types need.
* `Family.Carries.reaches_cases`: the record of a schema reaches the records of the schemas
  inside it, and what core types lead to; `Family.Carries.ends`: chains of required fields
  end there.
* `Family.Carries.within`: the factories that the record does not involve can be left aside;
  `Family.Carries.validate_ok`, `Family.Carries.validate_error`: what the walk makes of it.
* `QualifiedSchema.exists_accepted`: a value from those of the required core types.
* `build_rejects_impossible`: all of this for the construction.
-/
import JsonTypes.Proofs.Inhabitation
import JsonTypes.Proofs.QualifiedRecords
import JsonTypes.Proofs.ReachedBodies

namespace JsonTypes

open Relation

/-! ### What the construction refuses -/

/-- The field requires a value of the schema that it belongs to. -/
def QualifiedField.RequiresSelf (field : QualifiedField QualifiedSchema) : Prop :=
  field.qualifier = .required ∧ field.target = .self

lemma QualifiedField.requiresSelf_iff {field : QualifiedField QualifiedSchema} :
    (field.qualifier == .required && field.target.isSelf) = true ↔ field.RequiresSelf := by
  rw [Bool.and_eq_true, beq_iff_eq, RequiresSelf]
  refine and_congr_right fun _ => ?_
  cases field.target <;> simp [Target.isSelf]

namespace QualifiedSchema

variable {name : String} {fields : List (QualifiedField QualifiedSchema)} {q s : QualifiedSchema}

/-- The construction fails with the error that names the first field which requires the
schema itself. -/
lemma build_error {e : DefinitionError} :
    build name fields = .error e ↔ ∃ before field after, fields = before ++ field :: after ∧
      (∀ other ∈ before, ¬ other.RequiresSelf) ∧ field.RequiresSelf ∧
        e = .invalidType (name ++ "." ++ field.name)
          "required fields can not be used recursively" := by
  have hfirst : ∀ field, requiredSelf? fields = some field ↔ field.RequiresSelf ∧
      ∃ before after, fields = before ++ field :: after ∧
        ∀ other ∈ before, ¬ other.RequiresSelf := by
    intro field
    rw [requiredSelf?, List.find?_eq_some_iff_append, QualifiedField.requiresSelf_iff]
    simp only [Bool.not_eq_true', ← Bool.not_eq_true, QualifiedField.requiresSelf_iff]
  rw [build]
  constructor
  · intro h
    cases hself : requiredSelf? fields with
    | none => simp [hself] at h
    | some field =>
        obtain ⟨hfield, before, after, hsplit, hbefore⟩ := (hfirst field).mp hself
        rw [hself] at h
        exact ⟨before, field, after, hsplit, hbefore, hfield, (Except.error.inj h).symm⟩
  · rintro ⟨before, field, after, hsplit, hbefore, hfield, rfl⟩
    rw [(hfirst field).mpr ⟨hfield, before, after, hsplit, hbefore⟩]

lemma exists_requiresSelf (h : build name fields = .error e) :
    ∃ field ∈ fields, field.RequiresSelf := by
  obtain ⟨before, field, after, rfl, -, hself, -⟩ := build_error.mp h
  exact ⟨field, List.mem_append_right before List.mem_cons_self, hself⟩

/-- It succeeds if there is none, and yields the schema with these fields. -/
lemma build_ok :
    build name fields = .ok q ↔ (∀ field ∈ fields, ¬ field.RequiresSelf) ∧ mk name fields = q := by
  have hnone : requiredSelf? fields = none ↔ ∀ field ∈ fields, ¬ field.RequiresSelf := by
    rw [requiredSelf?, List.find?_eq_none]
    simp only [QualifiedField.requiresSelf_iff]
  rw [build, ← hnone]
  cases requiredSelf? fields <;> simp

/-- Schemas that have been built, from schemas that have been built before. -/
inductive Built : QualifiedSchema → Prop where
  | build {name : String} {fields : List (QualifiedField QualifiedSchema)} {q : QualifiedSchema}
      (earlier : ∀ field ∈ fields, ∀ inner, field.target = .schema inner → Built inner)
      (built : QualifiedSchema.build name fields = .ok q) : Built q

/-- Neither the schema nor one inside it requires itself. -/
def Grounded (q : QualifiedSchema) : Prop :=
  ∀ s, q.Uses s → ∀ field ∈ s.fields, ¬ field.RequiresSelf

lemma Grounded.inner (h : q.Grounded) (hs : q.Uses s) : s.Grounded :=
  fun u hu => h u (hs.trans hu)

/-- A schema is grounded if it does not require itself and those that it captures are. -/
lemma grounded_of_captured (hself : ∀ field ∈ q.fields, ¬ field.RequiresSelf)
    (hcaptured : ∀ s, q.Captures s → s.Grounded) : q.Grounded := by
  intro s hs
  rcases ReflTransGen.cases_head hs with rfl | ⟨inner, hinner, hs⟩
  · exact hself
  · exact hcaptured inner hinner s hs

/-- **What has been built is grounded**, as deep as it goes. -/
lemma Built.grounded (h : q.Built) : q.Grounded := by
  induction h with
  | build _ built ih =>
      obtain ⟨hself, rfl⟩ := build_ok.mp built
      refine grounded_of_captured hself ?_
      rintro inner ⟨field, hfield, htarget⟩
      exact ih field hfield inner htarget

/-- The schema or one inside it has a field of a core type. -/
def HoldsType (q : QualifiedSchema) (t : Ty) : Prop :=
  ∃ s, q.Uses s ∧ ∃ field ∈ s.fields, field.target = .type t

end QualifiedSchema

/-! ### What records reach -/

/-- There are records for a schema and those inside it, and definitions for their core types:
the core types hold no placeholders and apply accepted factories, whose bodies, and those that
they reach, are templates and introduce none. -/
structure Family.Carries (bodies : Family) (record : QualifiedSchema → Factory)
    (q : QualifiedSchema) : Prop where
  renders : bodies.HasRecords record q
  free : ∀ t, q.HoldsType t → t.PlaceholderFree
  accepts : ∀ t, q.HoldsType t → ∀ f ∈ t.factories, bodies.Accepts f
  templated : ∀ t, q.HoldsType t → ∀ f ∈ t.factories, ∀ j, bodies.Reaches f.generic j →
    bodies.TemplatedAt j.factory
  plain : ∀ t, q.HoldsType t → ∀ f ∈ t.factories, ∀ j, bodies.Reaches f.generic j →
    ¬ bodies.Introduces j.factory

/-- The factories that the record of a schema involves: records, and what the factories of
core types reach. -/
def Family.Involves (bodies : Family) (record : QualifiedSchema → Factory) (q : QualifiedSchema)
    (f : Factory) : Prop :=
  (∃ s, q.Uses s ∧ record s = f) ∨
    ∃ t, q.HoldsType t ∧ ∃ g ∈ t.factories, ∃ j, bodies.Reaches g.generic j ∧ j.factory = f

section Records

variable {bodies : Family} {record : QualifiedSchema → Factory} {q s : QualifiedSchema}
  {i j : Instance}

/-- What shows in the type of a field, other than its container, shows in the type of its
target, and without a guard only if the field is required. -/
lemma Qualifier.shows_wrap {qualifier : Qualifier} {t u : Ty} {guarded : Bool}
    (hleaf : ∀ c v, u ≠ .container c v) (h : (qualifier.wrap t).Shows guarded u) :
    (guarded = false → qualifier = .required) ∧ ∃ inside, t.Shows inside u := by
  cases qualifier with
  | required => exact ⟨fun _ => rfl, guarded, h⟩
  | optional | repeated =>
      cases h with
      | here => exact absurd rfl (hleaf _ _)
      | container hinner => exact ⟨nofun, _, hinner⟩

/-- So does what the record of a schema exposes. -/
lemma Family.HasRecords.exposes_cases (renders : bodies.HasRecords record q) (hs : q.Uses s)
    {u : Ty} {guarded : Bool} (hleaf : (∃ k, u = .inst k) ∨ ∃ index, u = .param index)
    (h : bodies.Exposes (record s).generic guarded u) :
    ∃ field ∈ s.fields, (guarded = false → field.qualifier = .required) ∧
      ∃ inside, (field.target.toTy record s).Shows inside u := by
  obtain ⟨entries, hentries, hshows⟩ := h
  obtain rfl := Except.ok.inj (hentries.symm.trans (renders.body s hs))
  have hcontainer : ∀ c v, u ≠ .container c v := by
    rintro c v rfl
    rcases hleaf with ⟨_, h⟩ | ⟨_, h⟩ <;> cases h
  cases hshows with
  | here => rcases hleaf with ⟨_, h⟩ | ⟨_, h⟩ <;> cases h
  | @field _ k _ _ hinner =>
      obtain ⟨entry, hentry, hk⟩ := List.mem_map.mp (Table.entry_ofList_mem _ k)
      obtain ⟨field, hfield, rfl⟩ := List.mem_map.mp hentry
      rw [show (s.recordEntries record).entry k = field.toTy record s from hk.symm] at hinner
      exact ⟨field, hfield, Qualifier.shows_wrap hcontainer hinner⟩

/-- A step from the record of a schema leads to the record of a schema inside it, or into a
core type. -/
lemma Family.HasRecords.child_cases (renders : bodies.HasRecords record q) (hs : q.Uses s)
    (h : bodies.Child (record s).generic j) :
    (∃ u, q.Uses u ∧ j = (record u).generic) ∨
      ∃ t guarded, q.HoldsType t ∧ t.Shows guarded (.inst j) := by
  obtain ⟨guarded, hexposes⟩ := h
  obtain ⟨field, hfield, -, inside, hshows⟩ :=
    renders.exposes_cases hs (Or.inl ⟨j, rfl⟩) hexposes
  cases htarget : field.target with
  | type t =>
      rw [htarget] at hshows
      exact Or.inr ⟨t, inside, ⟨s, hs, field, hfield, htarget⟩, hshows⟩
  | schema u =>
      rw [htarget] at hshows
      exact Or.inl ⟨u, hs.tail ⟨field, hfield, htarget⟩, Ty.inst.inj hshows.eq_of_inst⟩
  | self =>
      rw [htarget] at hshows
      exact Or.inl ⟨s, hs, Ty.inst.inj hshows.eq_of_inst⟩

namespace Family.Carries

/-- **What the record of a schema reaches**: the records of the schemas inside it, and what
core types lead to. -/
lemma reaches_cases (h : bodies.Carries record q) (hi : bodies.Reaches (record q).generic i) :
    (∃ s, q.Uses s ∧ i = (record s).generic) ∨
      ∃ t guarded k, q.HoldsType t ∧ t.Shows guarded (.inst k) ∧ bodies.Reaches k i := by
  induction hi with
  | refl => exact Or.inl ⟨q, .refl, rfl⟩
  | @tail _ j _ hchild ih =>
      rcases ih with ⟨s, hs, rfl⟩ | ⟨t, guarded, k, ht, hk, hkj⟩
      · refine (h.renders.child_cases hs hchild).imp_right ?_
        rintro ⟨t, guarded, ht, hshows⟩
        exact ⟨t, guarded, j, ht, hshows, .refl⟩
      · exact Or.inr ⟨t, guarded, k, ht, hk, hkj.tail hchild⟩

/-! ### Records among templates -/

lemma wellFormed_type (h : bodies.Carries record q) (templated : bodies.Templated) {t : Ty}
    (ht : q.HoldsType t) : t.WellFormed bodies := by
  intro f hf
  obtain ⟨config, d, hd⟩ := h.accepts t ht f (Ty.mem_factories.mpr hf)
  exact wellFormed_of_validate templated.respectsSame hd

/-- All that the record of a schema reaches expands. -/
lemma expands (h : bodies.Carries record q) (templated : bodies.Templated)
    (hi : bodies.Reaches (record q).generic i) : ∃ entries, bodies i = .ok entries := by
  rcases h.reaches_cases hi with ⟨s, hs, rfl⟩ | ⟨t, guarded, k, ht, hk, hki⟩
  · exact ⟨_, h.renders.body s hs⟩
  · exact expands_of_shows templated (h.wellFormed_type templated ht) hk hki

/-- None of it holds a placeholder. -/
lemma not_exposes_param (h : bodies.Carries record q) (templated : bodies.Templated)
    (hi : bodies.Reaches (record q).generic i) {guarded : Bool} {index : ℕ} :
    ¬ bodies.Exposes i guarded (.param index) := by
  intro hexposes
  rcases h.reaches_cases hi with ⟨s, hs, rfl⟩ | ⟨t, guarded', k, ht, hk, hki⟩
  · obtain ⟨field, hfield, -, inside, hshows⟩ :=
      h.renders.exposes_cases hs (Or.inr ⟨index, rfl⟩) hexposes
    cases htarget : field.target with
    | type t =>
        rw [htarget] at hshows
        exact (h.free t ⟨s, hs, field, hfield, htarget⟩).of_shows hshows
    | schema | self =>
        rw [htarget] at hshows
        cases hshows.eq_of_inst
  · obtain ⟨entries, hentries, hshows⟩ := hexposes
    have hbelow : bodies.FreeBelow k := freeBelow_of_shows templated (h.free t ht)
      (fun f hf => h.plain t ht f (Ty.mem_factories.mpr hf)) hk
    exact (hbelow i entries hki hentries).of_shows hshows

/-- **Chains of required fields end** at the record of a grounded schema. The induction is on
the size of the schema: a schema that another one holds is smaller. -/
lemma ends (h : bodies.Carries record q) (templated : bodies.Templated) (hs : q.Uses s)
    (grounded : s.Grounded) : bodies.Ends (record s).generic := by
  induction hsize : sizeOf s using Nat.strong_induction_on generalizing s with
  | _ size ih =>
  subst hsize
  refine Acc.intro _ ?_
  rintro j ⟨-, hexposes⟩
  obtain ⟨field, hfield, hrequired, inside, hshows⟩ :=
    h.renders.exposes_cases hs (Or.inl ⟨j, rfl⟩) hexposes
  cases htarget : field.target with
  | type t =>
      rw [htarget] at hshows
      have htype : q.HoldsType t := ⟨s, hs, field, hfield, htarget⟩
      exact (h.wellFormed_type templated htype).ends templated hshows
  | schema u =>
      rw [htarget] at hshows
      obtain rfl := Ty.inst.inj hshows.eq_of_inst
      have hcaptures : s.Captures u := ⟨field, hfield, htarget⟩
      exact ih _ hcaptures.sizeOf_lt (hs.tail hcaptures) (grounded.inner (.single hcaptures)) rfl
  | self => exact absurd ⟨hrequired rfl, htarget⟩ (grounded s .refl field hfield)

/-- Nothing that a core type leads to lies on a cycle of required fields. -/
lemma not_bareCycle_of_type (h : bodies.Carries record q) (templated : bodies.Templated)
    {t : Ty} {guarded : Bool} (ht : q.HoldsType t) (hj : t.Shows guarded (.inst j))
    (hji : bodies.Reaches j i) : ¬ bodies.BareCycle i :=
  ((h.wellFormed_type templated ht).ends_of_reaches templated hj hji).not_bareCycle
    templated.respectsSame

/-- The record of a grounded schema is well-formed. -/
lemma wellFormed (h : bodies.Carries record q) (templated : bodies.Templated)
    (grounded : q.Grounded) {cover : List Instance}
    (hcover : ∀ i, bodies.Reaches (record q).generic i → i.isIn cover = true) :
    bodies.WellFormed (record q) where
  expands _ hi := h.expands templated hi
  owned _ _ _ hi hexposes := absurd hexposes (h.not_exposes_param templated hi)
  finite := ⟨cover, hcover⟩
  acyclic i hi := by
    rcases h.reaches_cases hi with ⟨s, hs, rfl⟩ | ⟨t, guarded, k, ht, hk, hki⟩
    · exact (h.ends templated hs (grounded.inner hs)).not_bareCycle templated.respectsSame
    · exact h.not_bareCycle_of_type templated ht hk hki

/-- The walk accepts the record of a grounded schema if there is room for all that it
reaches. -/
lemma validate_ok_of_templated (h : bodies.Carries record q) (templated : bodies.Templated)
    (grounded : q.Grounded) {config : Config} {cover : List Instance}
    (hcover : ∀ i, bodies.Reaches (record q).generic i → i.isIn cover = true)
    (hlength : cover.length ≤ config.maxDepth) :
    ∃ d, (validate bodies config (record q)).result = .ok d := by
  cases hresult : (validate bodies config (record q)).result with
  | ok d => exact ⟨d, rfl⟩
  | error e =>
      exact absurd (cause_of_validate hresult)
        (not_cause_of_wellFormed (h.wellFormed templated grounded hcover) hlength hcover)

/-- A required field of the schema's own kind leads from its record back to it. -/
lemma bareCycle (h : bodies.Carries record q)
    (distinct : (q.fields.map QualifiedField.name).Nodup) {field : QualifiedField QualifiedSchema}
    (hfield : field ∈ q.fields) (hself : field.RequiresSelf) :
    bodies.BareCycle (record q).generic := by
  have hentry := QualifiedSchema.find?_tabulate (g := QualifiedField.toTy record q) distinct hfield
  obtain ⟨k, -, hk⟩ := Table.find?_eq_some.mp hentry
  have hty : field.toTy record q = .inst (record q).generic := by
    rw [QualifiedField.toTy, hself.1, hself.2]
    rfl
  have hshows : (Ty.fields (q.recordEntries record)).Shows false (.inst (record q).generic) := by
    refine .field (i := k) ?_
    rw [hk, hty]
    exact .here _
  refine ⟨_, Application.same_refl _, .single ⟨h.renders.kind q .refl, ?_⟩⟩
  exact ⟨_, h.renders.body q .refl, hshows⟩

/-- The walk refuses the record of a schema that requires itself, and names that record: the
schemas inside have been built before, and they do not lead back. -/
lemma validate_error_of_templated (h : bodies.Carries record q) (templated : bodies.Templated)
    (distinct : (q.fields.map QualifiedField.name).Nodup)
    (earlier : ∀ s, q.Captures s → s.Grounded) {field : QualifiedField QualifiedSchema}
    (hfield : field ∈ q.fields) (hself : field.RequiresSelf) {config : Config}
    {cover : List Instance}
    (hcover : ∀ i, bodies.Reaches (record q).generic i → i.isIn cover = true)
    (hlength : cover.length ≤ config.maxDepth) :
    (validate bodies config (record q)).result = .error (unguarded (record q).generic) := by
  cases hresult : (validate bodies config (record q)).result with
  | ok d =>
      have hwf := wellFormed_of_validate templated.respectsSame hresult
      exact absurd (h.bareCycle distinct hfield hself) (hwf.acyclic _ .refl)
  | error e =>
      cases cause_of_validate hresult with
      | leak hi hexposes => exact absurd hexposes (h.not_exposes_param templated hi)
      | deep hbranch hopen =>
          have hroom := hbranch.length_le hcover
          omega
      | body hi hfails =>
          obtain ⟨entries, hentries⟩ := h.expands templated hi
          cases hfails.symm.trans hentries
      | @cycle i hi hcycle =>
          rcases h.reaches_cases hi with ⟨s, hs, rfl⟩ | ⟨t, guarded, k, ht, hk, hki⟩
          · rcases ReflTransGen.cases_head hs with rfl | ⟨inner, hinner, hinside⟩
            · rfl
            · have hgrounded : s.Grounded := (earlier inner hinner).inner hinside
              exact absurd hcycle
                ((h.ends templated hs hgrounded).not_bareCycle templated.respectsSame)
          · exact absurd hcycle (h.not_bareCycle_of_type templated ht hk hki)

/-! ### Records among any bodies -/

/-- **Among the bodies involved, the others cut off, all are templates**, and they carry the
schema as they did. -/
lemma within (h : bodies.Carries record q) :
    (bodies.within (bodies.Involves record q)).Templated ∧
      (bodies.within (bodies.Involves record q)).Carries record q := by
  have hrecord : ∀ s, q.Uses s → bodies.Involves record q (record s) :=
    fun s hs => Or.inl ⟨s, hs, rfl⟩
  have hreached : ∀ t, q.HoldsType t → ∀ f ∈ t.factories, ∀ j, bodies.Reaches f.generic j →
      bodies.Involves record q j.factory :=
    fun t ht f hf j hj => Or.inr ⟨t, ht, f, hf, j, hj, rfl⟩
  refine ⟨Family.templated_within ?_, ?_⟩
  · rintro _ (⟨s, hs, rfl⟩ | ⟨t, ht, f, hf, j, hj, rfl⟩)
    · exact Family.templatedAt_of_arity (h.renders.arity s hs) (h.renders.body s hs)
    · exact h.templated t ht f hf j hj
  · exact
      { renders :=
          { kind := h.renders.kind
            arity := h.renders.arity
            body := fun s hs => (Family.within_of (hrecord s hs)).trans (h.renders.body s hs) }
        free := h.free
        accepts := fun t ht f hf => (h.accepts t ht f hf).within (hreached t ht f hf)
        templated := fun t ht f hf j hj =>
          (h.templated t ht f hf j hj.of_within).within (hreached t ht f hf j hj.of_within)
        plain := fun t ht f hf j hj hintroduces =>
          h.plain t ht f hf j hj.of_within hintroduces.of_within }

/-- The record of a schema reaches no other factories. -/
lemma involves_of_reaches (h : bodies.Carries record q)
    (hi : bodies.Reaches (record q).generic i) : bodies.Involves record q i.factory := by
  obtain ⟨htemplated, hwithin⟩ := h.within
  have hstays : ∀ j, (bodies.within (bodies.Involves record q)).Reaches (record q).generic j →
      bodies.Involves record q j.factory := by
    intro j hj
    rcases hwithin.reaches_cases hj with ⟨s, hs, rfl⟩ | ⟨t, guarded, k, ht, hk, hkj⟩
    · exact Or.inl ⟨s, hs, rfl⟩
    · obtain ⟨f, hf, s, arg, hreaches, rfl⟩ := Ty.exists_head_of_reaches htemplated hk hkj
      exact Or.inr ⟨t, ht, f, Ty.mem_factories.mpr hf, _, hreaches.of_within, rfl⟩
  exact hstays i (hi.within hstays)

section Verdict

variable {config : Config} {cover : List Instance}

/-- So the verdict on it is that among templates. -/
lemma validate_within (h : bodies.Carries record q)
    (hcover : ∀ i, bodies.Reaches (record q).generic i → i.isIn cover = true)
    (hlength : cover.length ≤ config.maxDepth) :
    validate (bodies.within (bodies.Involves record q)) config (record q) =
      validate bodies config (record q) :=
  JsonTypes.validate_within (fun _ => h.involves_of_reaches) (not_overrunsAt hcover hlength)

/-- **The walk accepts the record of a grounded schema.** -/
lemma validate_ok (h : bodies.Carries record q) (grounded : q.Grounded)
    (hcover : ∀ i, bodies.Reaches (record q).generic i → i.isIn cover = true)
    (hlength : cover.length ≤ config.maxDepth) :
    ∃ d, (validate bodies config (record q)).result = .ok d := by
  rw [← h.validate_within hcover hlength]
  exact h.within.2.validate_ok_of_templated h.within.1 grounded
    (fun i hi => hcover i hi.of_within) hlength

/-- **The walk refuses the record of a schema that requires itself.** -/
lemma validate_error (h : bodies.Carries record q)
    (distinct : (q.fields.map QualifiedField.name).Nodup)
    (earlier : ∀ s, q.Captures s → s.Grounded) {field : QualifiedField QualifiedSchema}
    (hfield : field ∈ q.fields) (hself : field.RequiresSelf)
    (hcover : ∀ i, bodies.Reaches (record q).generic i → i.isIn cover = true)
    (hlength : cover.length ≤ config.maxDepth) :
    (validate bodies config (record q)).result = .error (unguarded (record q).generic) := by
  rw [← h.validate_within hcover hlength]
  exact h.within.2.validate_error_of_templated h.within.1 distinct earlier hfield hself
    (fun i hi => hcover i hi.of_within) hlength

end Verdict

end Family.Carries

end Records

/-! ### Values -/

section Values

variable {bodies : Family} {discriminator : String} {q : QualifiedSchema}

/-- A declared field has a value with which it passes: null if it is optional, no items if it is
repeated, and else one that the target has. -/
lemma QualifiedSchema.exists_member {field : QualifiedField QualifiedSchema}
    (htarget : field.qualifier = .required →
      ∃ w, w ≠ .null ∧ Json.Meets bodies discriminator q field.target w) :
    ∃ w, ∀ members : Table Json, members.find? field.name = some w →
      (q.checkField bodies discriminator (members.map (Json.slot bodies discriminator))
        field).result = .ok () := by
  simp only [checkField_ok]
  cases hq : field.qualifier with
  | required =>
      obtain ⟨w, hpresent, hmeets⟩ := htarget hq
      exact ⟨w, fun members hw => ⟨w, hw, hpresent, hmeets⟩⟩
  | optional =>
      refine ⟨.null, fun members hw w hw' => Or.inl ?_⟩
      exact Option.some.inj (hw'.symm.trans hw)
  | repeated => exact ⟨.array ⟨0, fun k => k.elim0⟩, fun members hw => ⟨_, hw, fun k => k.elim0⟩⟩

/-- **A grounded schema has a value** if the core types that are required have, other than
null. The induction is on the size of the schema. -/
lemma QualifiedSchema.exists_accepted (grounded : q.Grounded)
    (distinct : ∀ s, q.Uses s → (s.fields.map QualifiedField.name).Nodup)
    (inhabited : ∀ s, q.Uses s → ∀ field ∈ s.fields, field.qualifier = .required →
      ∀ t, field.target = .type t → ∃ v : Json, v ≠ .null ∧
        (v.check bodies discriminator t).result = .ok ()) :
    ∃ v : Json, v ≠ .null ∧ ((v.slot bodies discriminator).asObject q).result = .ok () := by
  induction hsize : sizeOf q using Nat.strong_induction_on generalizing q with
  | _ size ih =>
  subst hsize
  have hmember : ∀ field : QualifiedField QualifiedSchema, ∃ w, field ∈ q.fields →
      ∀ members : Table Json, members.find? field.name = some w →
        (q.checkField bodies discriminator (members.map (Json.slot bodies discriminator))
          field).result = .ok () := by
    intro field
    by_cases hfield : field ∈ q.fields
    · have htarget : field.qualifier = .required →
          ∃ w, w ≠ .null ∧ Json.Meets bodies discriminator q field.target w := by
        intro hrequired
        cases htarget : field.target with
        | type t =>
            obtain ⟨v, hpresent, hv⟩ := inhabited q .refl field hfield hrequired t htarget
            refine ⟨v, hpresent, ?_⟩
            rw [Json.Meets, Subject.checkTarget, Json.slot_value]
            exact hv
        | schema s =>
            have hcaptures : q.Captures s := ⟨field, hfield, htarget⟩
            have huses : q.Uses s := .single hcaptures
            exact ih _ hcaptures.sizeOf_lt (grounded.inner huses)
              (fun u hu => distinct u (huses.trans hu))
              (fun u hu => inhabited u (huses.trans hu)) rfl
        | self => exact absurd ⟨hrequired, htarget⟩ (grounded q .refl field hfield)
      obtain ⟨w, hw⟩ := exists_member htarget
      exact ⟨w, fun _ => hw⟩
    · exact ⟨.null, fun h => absurd h hfield⟩
  choose value hvalue using hmember
  refine ⟨.object (q.tabulate value), fun hnull => ?_, Json.asObject_ok.mpr ⟨_, rfl, ?_⟩⟩
  · cases hnull
  · intro field hfield
    exact hvalue field hfield _ (find?_tabulate (distinct q .refl) hfield)

/-- Then a check against it succeeds. -/
lemma exists_check_of_grounded {config : Config} (grounded : q.Grounded)
    (distinct : ∀ s, q.Uses s → (s.fields.map QualifiedField.name).Nodup)
    (inhabited : ∀ s, q.Uses s → ∀ field ∈ s.fields, field.qualifier = .required →
      ∀ t, field.target = .type t → ∃ v, v ≠ .null ∧ (check bodies config t v).result = .ok v) :
    ∃ v, (q.check bodies config v).result = .ok v := by
  have hvalues : ∀ s, q.Uses s → ∀ field ∈ s.fields, field.qualifier = .required →
      ∀ t, field.target = .type t → ∃ v : Json, v ≠ .null ∧
        (v.check bodies config.discriminator t).result = .ok () := by
    intro s hs field hfield hrequired t ht
    obtain ⟨v, hpresent, hv⟩ := inhabited s hs field hfield hrequired t ht
    exact ⟨v, hpresent, (Json.check_ok_iff v t).mpr (conforms_of_check hv)⟩
  obtain ⟨v, -, hv⟩ := QualifiedSchema.exists_accepted grounded distinct hvalues
  refine ⟨v, ?_⟩
  rw [QualifiedSchema.result_check, hv]
  rfl

end Values

/-! ### The main statement -/

/-- **The construction refuses exactly the impossible schemas.** Let the names of the fields
differ, and let the schemas that they refer to have been built before. The construction fails
if and only if a field requires the schema itself, and names the first one. If the factories of
the core types are accepted templates, whatever else there is, and the walk has room for all
that the record of the schema reaches, then the construction fails if and only if the walk
refuses that record as unguarded recursion, and succeeds if and only if the walk accepts it.
What has been built has a value, if names differ inside as well and the required core types
have values other than null. -/
theorem build_rejects_impossible (bodies : Family) (record : QualifiedSchema → Factory)
    (config : Config) (name : String) (fields : List (QualifiedField QualifiedSchema))
    (distinct : (fields.map QualifiedField.name).Nodup)
    (earlier : ∀ s, (QualifiedSchema.mk name fields).Captures s → s.Built) :
    let q := QualifiedSchema.mk name fields
    (∀ e, QualifiedSchema.build name fields = .error e ↔
      ∃ before field after, fields = before ++ field :: after ∧
        (∀ other ∈ before, ¬ other.RequiresSelf) ∧ field.RequiresSelf ∧
          e = .invalidType (name ++ "." ++ field.name)
            "required fields can not be used recursively") ∧
    (bodies.Carries record q → (bodies.reachable (record q)).Finite →
      (bodies.reachable (record q)).ncard ≤ config.maxDepth →
        ((∃ e, QualifiedSchema.build name fields = .error e) ↔
          (validate bodies config (record q)).result = .error (unguarded (record q).generic)) ∧
        ((∃ s, QualifiedSchema.build name fields = .ok s) ↔
          ∃ d, (validate bodies config (record q)).result = .ok d)) ∧
    ∀ s, QualifiedSchema.build name fields = .ok s →
      (∀ u, s.Uses u → (u.fields.map QualifiedField.name).Nodup) →
      (∀ u, s.Uses u → ∀ field ∈ u.fields, field.qualifier = .required →
        ∀ t, field.target = .type t → ∃ v, v ≠ .null ∧ (check bodies config t v).result = .ok v) →
      ∃ v, (s.check bodies config v).result = .ok v := by
  intro q
  have hgrounded : ∀ s, QualifiedSchema.build name fields = .ok s → s = q ∧ q.Grounded := by
    intro s hs
    obtain ⟨hself, rfl⟩ := QualifiedSchema.build_ok.mp hs
    exact ⟨rfl, QualifiedSchema.grounded_of_captured hself fun u hu => (earlier u hu).grounded⟩
  refine ⟨fun e => QualifiedSchema.build_error, fun hcarries hfinite hroom => ?_,
    fun s hs hdistinct hinhabited => ?_⟩
  · obtain ⟨cover, hlength, hcover⟩ := Family.exists_cover hfinite
    have hcoverRoom : cover.length ≤ config.maxDepth := hlength.trans_le hroom
    cases hbuild : QualifiedSchema.build name fields with
    | ok s =>
        obtain ⟨d, hd⟩ := hcarries.validate_ok (hgrounded s hbuild).2 hcover hcoverRoom
        simp [hd]
    | error e =>
        obtain ⟨field, hfield, hself⟩ := QualifiedSchema.exists_requiresSelf hbuild
        have herror := hcarries.validate_error distinct (fun u hu => (earlier u hu).grounded)
          hfield hself hcover hcoverRoom
        simp [herror]
  · obtain ⟨rfl, hq⟩ := hgrounded s hs
    exact exists_check_of_grounded hq hdistinct hinhabited

namespace School

/-- Lists of strings. -/
def titles : Ty :=
  .inst ⟨Prelude.list.factory, fun _ => .string⟩

/-- Titles and an optional student. -/
def tutor : QualifiedSchema :=
  .mk "tutor" [⟨"titles", .required, .type titles⟩, ⟨"pupil", .optional, .schema student⟩]

/-- The same, and a deputy of the same kind, who has a deputy in turn. -/
def chief : QualifiedSchema :=
  .mk "chief" [⟨"titles", .required, .type titles⟩, ⟨"pupil", .optional, .schema student⟩,
    ⟨"deputy", .required, .self⟩]

/-- Lists, and the records of students and of another schema. -/
def bodiesOf (q : QualifiedSchema) : Family := fun i =>
  if i.factory.name = "List" then Prelude.bodies i
  else if i.factory.name = "student" then .ok (student.recordEntries record)
  else .ok (q.recordEntries record)

lemma bodiesOf_list (q : QualifiedSchema) (arg : Fin Prelude.list.factory.arity → Ty) :
    bodiesOf q ⟨Prelude.list.factory, arg⟩ = Prelude.bodies ⟨Prelude.list.factory, arg⟩ :=
  if_pos rfl

/-- Lists of what leads nowhere lead to themselves only. -/
lemma list_reaches {q : QualifiedSchema} {t : Ty} {j : Instance}
    (hleaf : ∀ guarded i, ¬ t.Shows guarded (.inst i))
    (h : (bodiesOf q).Reaches ⟨Prelude.list.factory, fun _ => t⟩ j) :
    j = ⟨Prelude.list.factory, fun _ => t⟩ := by
  induction h with
  | refl => rfl
  | tail _ hchild ih =>
      rw [ih] at hchild
      obtain ⟨guarded, entries, hentries, hshows⟩ := hchild
      rw [bodiesOf_list q fun _ => t] at hentries
      refine (Prelude.list_child ⟨guarded, entries, hentries, hshows⟩).resolve_right ?_
      rintro ⟨guarded, hinst⟩
      exact hleaf guarded _ hinst

lemma list_generic_reaches {q : QualifiedSchema} {j : Instance}
    (h : (bodiesOf q).Reaches Prelude.list.factory.generic j) :
    j.factory = Prelude.list.factory := by
  have hgeneric : Prelude.list.factory.generic = ⟨Prelude.list.factory, fun _ => .param 0⟩ :=
    Application.ext_unary rfl rfl
  have hleaf : ∀ guarded i, ¬ (Ty.param 0).Shows guarded (.inst i) :=
    fun _ _ hshows => nomatch hshows
  rw [hgeneric] at h
  rw [list_reaches hleaf h]

/-- A schema with fields of its own kind, of titles and of students only. -/
structure KnowsStudents (q : QualifiedSchema) : Prop where
  name : q.name ∉ ["List", "student"]
  targets : ∀ field ∈ q.fields,
    field.target = .self ∨ field.target = .schema student ∨ field.target = .type titles

namespace KnowsStudents

variable {q s : QualifiedSchema}

lemma captures (h : KnowsStudents q) (hs : q.Captures s) : s = student := by
  obtain ⟨field, hfield, htarget⟩ := hs
  rcases h.targets field hfield with hself | hstudent | htitles
  · cases hself.symm.trans htarget
  · exact (Target.schema.inj (hstudent.symm.trans htarget)).symm
  · cases htitles.symm.trans htarget

lemma uses (h : KnowsStudents q) (hs : q.Uses s) : s = q ∨ s = student := by
  rcases ReflTransGen.cases_head hs with rfl | ⟨inner, hinner, hs⟩
  · exact Or.inl rfl
  · obtain rfl := h.captures hinner
    rcases ReflTransGen.cases_head hs with rfl | ⟨_, hnone, _⟩
    · exact Or.inr rfl
    · exact absurd hnone not_student_captures

lemma holdsType (h : KnowsStudents q) {t : Ty} (ht : q.HoldsType t) :
    t = .string ∨ t = titles := by
  obtain ⟨s, hs, field, hfield, htarget⟩ := ht
  rcases h.uses hs with rfl | rfl
  · rcases h.targets field hfield with hself | hstudent | htitles
    · cases hself.symm.trans htarget
    · cases hstudent.symm.trans htarget
    · exact Or.inr (Target.type.inj (htarget.symm.trans htitles))
  · simp only [student, QualifiedSchema.fields, List.mem_cons, List.not_mem_nil,
      or_false] at hfield
    rcases hfield with rfl | rfl | rfl <;> cases htarget
    exact Or.inl rfl

/-- The only factory that a core type applies is that of lists. -/
lemma factory_eq (h : KnowsStudents q) {t : Ty} {f : Factory} (ht : q.HoldsType t)
    (hf : f ∈ t.factories) : f = Prelude.list.factory := by
  have hheads : f ∈ t.heads := Ty.mem_factories.mp hf
  rcases h.holdsType ht with rfl | rfl
  · cases hheads
  · rcases Ty.mem_heads_inst.mp hheads with rfl | ⟨k, hk⟩
    · rfl
    · cases hk

lemma carries (h : KnowsStudents q) : (bodiesOf q).Carries record q where
  renders :=
    { kind := fun _ _ => rfl
      arity := fun _ _ => rfl
      body := fun s hs => by
        rcases h.uses hs with rfl | rfl
        · have hlist : s.name ≠ "List" := fun hname => h.name (by simp [hname])
          have hstudent : s.name ≠ "student" := fun hname => h.name (by simp [hname])
          exact (if_neg hlist).trans (if_neg hstudent)
        · rfl }
  free t ht := by
    rcases h.holdsType ht with rfl | rfl
    · trivial
    · exact fun _ => trivial
  accepts t ht f hf := by
    rw [h.factory_eq ht hf]
    exact ⟨.standard, _, rfl⟩
  templated t ht f hf j hj := by
    rw [h.factory_eq ht hf] at hj
    rw [list_generic_reaches hj]
    exact Prelude.bodies_templated Prelude.list.factory
  plain t ht f hf j hj := by
    rw [h.factory_eq ht hf] at hj
    rw [list_generic_reaches hj]
    rintro ⟨arg, entries, harg, hentries, hfree⟩
    rw [bodiesOf_list] at hentries
    exact Prelude.bodies_not_introduces _ ⟨arg, entries, harg, hentries, hfree⟩

/-- The record of such a schema reaches itself, that of students, and titles. -/
lemma reachable (h : KnowsStudents q) : (bodiesOf q).reachable (record q) ⊆
    {Quotient.mk Application.setoid (record q).generic,
      Quotient.mk Application.setoid (record student).generic,
      Quotient.mk Application.setoid ⟨Prelude.list.factory, fun _ => .string⟩} := by
  rintro _ ⟨i, hi, rfl⟩
  rcases h.carries.reaches_cases hi with ⟨s, hs, rfl⟩ | ⟨t, guarded, k, ht, hk, hki⟩
  · rcases h.uses hs with rfl | rfl
    · exact Or.inl rfl
    · exact Or.inr (Or.inl rfl)
  · rcases h.holdsType ht with rfl | rfl
    · cases hk
    · obtain rfl := Ty.inst.inj hk.eq_of_inst
      have hleaf : ∀ guarded i, ¬ Ty.string.Shows guarded (.inst i) :=
        fun _ _ hshows => nomatch hshows
      rw [list_reaches hleaf hki]
      exact Or.inr (Or.inr rfl)

lemma reachable_finite (h : KnowsStudents q) : ((bodiesOf q).reachable (record q)).Finite :=
  (Set.toFinite _).subset h.reachable

lemma reachable_ncard (h : KnowsStudents q) : ((bodiesOf q).reachable (record q)).ncard ≤ 3 := by
  refine (Set.ncard_le_ncard h.reachable (Set.toFinite _)).trans ?_
  refine (Set.ncard_insert_le _ _).trans (Nat.succ_le_succ ?_)
  refine (Set.ncard_insert_le _ _).trans (Nat.succ_le_succ ?_)
  rw [Set.ncard_singleton]

end KnowsStudents

lemma chief_knowsStudents : KnowsStudents chief where
  name := by decide
  targets := by simp [chief, QualifiedSchema.fields]

lemma tutor_knowsStudents : KnowsStudents tutor where
  name := by decide
  targets := by simp [tutor, QualifiedSchema.fields]

lemma student_built : student.Built := by
  have hnone : ∀ field ∈ student.fields, ∀ inner, field.target = .schema inner → inner.Built :=
    fun field hfield inner htarget => absurd ⟨field, hfield, htarget⟩ not_student_captures
  exact .build hnone rfl

lemma tutor_distinct {s : QualifiedSchema} (hs : tutor.Uses s) :
    (s.fields.map QualifiedField.name).Nodup := by
  rcases tutor_knowsStudents.uses hs with rfl | rfl <;> decide

/-- There are strings and titles. -/
lemma exists_core_value {t : Ty} (ht : tutor.HoldsType t) :
    ∃ v, v ≠ Json.null ∧ (check (bodiesOf tutor) .standard t v).result = .ok v := by
  rcases tutor_knowsStudents.holdsType ht with rfl | rfl
  · exact ⟨.string "Peter", nofun, rfl⟩
  · exact ⟨.ofMembers [("constr", .string "Nil"), ("Nil", .ofMembers [])], nofun, rfl⟩

end School

/-- A chief with a deputy of the same kind is refused, and so is the record. Tutors are
accepted, and there is one. -/
theorem build_rejects_impossible_school :
    (∃ e, QualifiedSchema.build "chief" School.chief.fields = .error e) ∧
      (validate (School.bodiesOf School.chief) .standard (School.record School.chief)).result =
        .error (unguarded (School.record School.chief).generic) ∧
      QualifiedSchema.build "tutor" School.tutor.fields = .ok School.tutor ∧
      (∃ d, (validate (School.bodiesOf School.tutor) .standard
        (School.record School.tutor)).result = .ok d) ∧
      ∃ v, (School.tutor.check (School.bodiesOf School.tutor) .standard v).result = .ok v := by
  have hearlier : ∀ q, School.KnowsStudents q → ∀ s, q.Captures s → s.Built := by
    intro q hq s hs
    rw [hq.captures hs]
    exact School.student_built
  have hchief := build_rejects_impossible (School.bodiesOf School.chief) School.record .standard
    "chief" School.chief.fields (by decide) (hearlier _ School.chief_knowsStudents)
  have htutor := build_rejects_impossible (School.bodiesOf School.tutor) School.record .standard
    "tutor" School.tutor.fields (by decide) (hearlier _ School.tutor_knowsStudents)
  have hroom : ∀ q, School.KnowsStudents q →
      ((School.bodiesOf q).reachable (School.record q)).ncard ≤ Config.standard.maxDepth :=
    fun q hq => hq.reachable_ncard.trans (by decide)
  have hrefused : ∃ e, QualifiedSchema.build "chief" School.chief.fields = .error e := ⟨_, rfl⟩
  have hbuilt : QualifiedSchema.build "tutor" School.tutor.fields = .ok School.tutor := rfl
  refine ⟨hrefused, ?_, hbuilt, ?_, ?_⟩
  · exact (hchief.2.1 School.chief_knowsStudents.carries
      School.chief_knowsStudents.reachable_finite
      (hroom _ School.chief_knowsStudents)).1.mp hrefused
  · exact (htutor.2.1 School.tutor_knowsStudents.carries
      School.tutor_knowsStudents.reachable_finite
      (hroom _ School.tutor_knowsStudents)).2.mp ⟨_, hbuilt⟩
  · exact htutor.2.2 _ hbuilt (fun u hu => School.tutor_distinct hu)
      fun u hu field hfield _ t ht => School.exists_core_value ⟨u, hu, field, hfield, ht⟩

end JsonTypes
