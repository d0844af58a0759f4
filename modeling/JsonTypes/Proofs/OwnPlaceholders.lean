/-
Where no placeholder leaks, nothing fails internally.

The walk over a definition takes a placeholder for the root's own by its number alone, although
it enters instances of factories with other numbers of parameters. That is sound as long as every
placeholder is one that the root has been applied to: bodies place their arguments and look into
no definition. Put numbers in the place of the root's placeholders, and none is left anywhere.

* `Result.NotInternal`: a result is no internal error; `Template.eval_notInternal`: so it is with
  templates that look into no definition.
* `PlainAt.templatedAt`, `PlainAt.tag_ne_internal`: what follows for a body that is such a template.
* `Family.Reaches.subst`: what is reached at the placeholders is reached at other arguments.
* `WalkCall.param_lt`: every placeholder that the walk meets is one of the root's.
* `QualifiedSchema.faulty_of_asObject`: the definition errors of qualified checks.
* `internal_unreachable`: neither walks nor checks fail internally.
-/
import JsonTypes.Proofs.QualifiedConstruction

namespace JsonTypes

open Relation

/-! ### Templates do not fail internally -/

/-- The result is no internal error. -/
def Result.NotInternal {α : Type} (result : Except DefinitionError α) : Prop :=
  ∀ e, result = .error e → e.tag ≠ .internal

namespace Result

variable {α β : Type}

lemma notInternal_ok (a : α) : NotInternal (.ok a) := nofun

lemma notInternal_error {e : DefinitionError} (h : e.tag ≠ .internal) :
    NotInternal (.error e : Except DefinitionError α) := by
  rintro _ ⟨⟩
  exact h

lemma NotInternal.bind {first : Except DefinitionError α} {next : α → Except DefinitionError β}
    (hfirst : NotInternal first) (hnext : ∀ a, NotInternal (next a)) :
    NotInternal (first >>= next) := by
  cases first with
  | error e => exact notInternal_error (hfirst e rfl)
  | ok a => exact hnext a

lemma NotInternal.map {result : Except DefinitionError α} (h : NotInternal result) (f : α → β) :
    NotInternal (result.map f) := by
  cases result with
  | error e => exact notInternal_error (h e rfl)
  | ok a => exact notInternal_ok _

end Result

open Result

lemma Container.apply_notInternal (c : Container) (types : List Ty) :
    NotInternal (c.apply types) := by
  match types with
  | [] => exact notInternal_error nofun
  | [t] => exact notInternal_ok _
  | _ :: _ :: _ => exact notInternal_error nofun

lemma Factory.apply_notInternal (f : Factory) (types : List Ty) : NotInternal (f.apply types) := by
  rw [apply]
  split_ifs
  · exact notInternal_ok _
  · refine notInternal_error fun hinternal => ?_
    cases hinternal

lemma Registry.get_notInternal (registry : Registry) (name : String) :
    NotInternal (registry.get name) := by
  rw [get]
  cases registry.find? name with
  | none =>
      refine notInternal_error fun hinternal => ?_
      cases hinternal
  | some f => exact notInternal_ok f

namespace Template

variable {scope : Scope}

mutual

/-- **A template that looks into no definition** does not fail internally. -/
lemma eval_notInternal : ∀ t : Template, t.plain = true → NotInternal (t.eval scope)
  | .primitive name, _ => by
      rw [eval, Ty.ofPrimitiveName]
      cases Primitive.ofName? name with
      | none => exact notInternal_error nofun
      | some p => exact notInternal_ok _
  | .container _ t, hplain => (eval_notInternal t hplain).bind fun _ => notInternal_ok _
  | .containerOf c args, hplain => (evalAll_notInternal args hplain).bind c.apply_notInternal
  | .fields entries, hplain =>
      (evalFields_notInternal entries hplain).bind fun _ => notInternal_ok _
  | .arg index, _ => by
      rw [eval, Scope.arg]
      split
      · exact notInternal_ok _
      · exact notInternal_error nofun
  | .this args, hplain => by
      refine (evalAll_notInternal args hplain).bind fun types => ?_
      rw [Scope.applyThis]
      cases scope.this with
      | none => exact notInternal_error nofun
      | some i => exact (i.factory.apply_notInternal types).map _
  | .factory f args, hplain =>
      (evalAll_notInternal args hplain).bind fun types => (f.apply_notInternal types).map _
  | .ref name args, hplain =>
      (evalAll_notInternal args hplain).bind fun types =>
        (scope.registry.get_notInternal name).bind fun f => (f.apply_notInternal types).map _
  | .bound name, _ => by
      rw [eval, Scope.bound]
      cases scope.bindings.find? name with
      | none => exact notInternal_error nofun
      | some t => exact notInternal_ok t

/-- Nor do the templates of a list. -/
lemma evalAll_notInternal :
    ∀ ts : List Template, allPlain ts = true → NotInternal (evalAll scope ts)
  | [], _ => notInternal_ok _
  | t :: rest, hplain => by
      obtain ⟨hfirst, hrest⟩ := Bool.and_eq_true_iff.mp hplain
      exact (eval_notInternal t hfirst).bind fun type => (evalAll_notInternal rest hrest).map _

/-- Nor do named templates. -/
lemma evalFields_notInternal :
    ∀ ts : List (String × Template), fieldsPlain ts = true → NotInternal (evalFields scope ts)
  | [], _ => notInternal_ok _
  | (_, t) :: rest, hplain => by
      obtain ⟨hfirst, hrest⟩ := Bool.and_eq_true_iff.mp hplain
      exact (eval_notInternal t hfirst).bind fun type => (evalFields_notInternal rest hrest).map _

end

end Template

/-! ### Plain bodies -/

namespace Family

variable {bodies : Family} {f : Factory}

lemma PlainAt.templatedAt (h : bodies.PlainAt f) : bodies.TemplatedAt f := by
  obtain ⟨registry, bindings, entryOf, body, -, -, hbody⟩ := h
  obtain ⟨r, hr⟩ := Template.evalFields_uniform registry bindings entryOf f body
  have heval : ∀ arg, bodies ⟨f, arg⟩ =
      (r.map (List.map (Prod.map id (OpenTy.fill arg)))).map Table.ofList := by
    intro arg
    rw [hbody, Body.eval, ← hr arg]
  cases r with
  | error e => exact Or.inl fun arg => ⟨e, heval arg⟩
  | ok types =>
      refine Or.inr ⟨Table.ofList types, fun arg => ?_⟩
      rw [heval, ← Table.ofList_map]
      rfl

lemma PlainAt.tag_ne_internal {i : Instance} {e : DefinitionError}
    (h : bodies.PlainAt i.factory) (he : bodies i = .error e) : e.tag ≠ .internal := by
  obtain ⟨registry, bindings, entryOf, body, -, hplain, hbody⟩ := h
  have hfields : NotInternal
      (body.eval (Template.inside registry bindings entryOf i.factory i.arg)) :=
    (Template.evalFields_notInternal body hplain).map Table.ofList
  exact hfields e ((hbody i.arg).symm.trans he)

/-! ### Other arguments -/

lemma Exposes.subst {i : Instance} {t : Ty} {guarded : Bool} (templated : bodies.Templated)
    (hnone : ¬ bodies.Introduces i.factory) (h : bodies.Exposes i guarded t) {n : ℕ}
    (arg : Fin n → Ty) : bodies.Exposes (i.subst arg) guarded (t.subst arg) := by
  obtain ⟨entries, hentries, hshows⟩ := h
  exact ⟨_, templated.subst hnone hentries arg, hshows.subst⟩

/-- **What is reached stays reachable at other arguments**, if no body on the way introduces
placeholders. -/
lemma Reaches.subst {i j : Instance} (templated : bodies.Templated)
    (hnone : ∀ k, bodies.Reaches i k → ¬ bodies.Introduces k.factory) (h : bodies.Reaches i j)
    {n : ℕ} (arg : Fin n → Ty) : bodies.Reaches (i.subst arg) (j.subst arg) := by
  induction h with
  | refl => exact .refl
  | tail hreaches hchild ih =>
      obtain ⟨guarded, hexposes⟩ := hchild
      exact ih.tail ⟨guarded, hexposes.subst templated (hnone _ hreaches) arg⟩

/-- A factory applied to numbers leads to no placeholder, if no body that it reaches introduces
one. -/
lemma freeBelow_numbers (templated : bodies.Templated)
    (hnone : ∀ i, bodies.Reaches f.generic i → ¬ bodies.Introduces i.factory) :
    bodies.FreeBelow ⟨f, fun _ => .number⟩ := by
  have hheads : ∀ g ∈ (Ty.inst ⟨f, fun _ => .number⟩).heads, g = f := by
    intro g hg
    rcases Ty.mem_heads_inst.mp hg with rfl | ⟨k, hk⟩
    · rfl
    · cases hk
  have hfree : (Ty.inst ⟨f, fun _ => .number⟩).PlaceholderFree := fun _ => trivial
  refine freeBelow_of_shows templated hfree (fun g hg i hi => ?_) (.here _)
  rw [hheads g hg] at hi
  exact hnone i hi

/-- **Placeholders are the root's own** in the descriptions of what a factory reaches, if the
bodies there are plain: with numbers in the place of the root's placeholders none is left. -/
lemma param_lt_of_reaches (plain : ∀ i, bodies.Reaches f.generic i → bodies.PlainAt i.factory)
    {i : Instance} {guarded : Bool} {index : ℕ} (hi : bodies.Reaches f.generic i)
    (hindex : bodies.Exposes i guarded (.param index)) : index < f.arity := by
  -- the bodies of other factories do not matter
  let kept := bodies.within bodies.PlainAt
  have templated : kept.Templated := templated_within fun _ => PlainAt.templatedAt
  have hplain : ∀ k, kept.Reaches f.generic k → bodies.PlainAt k.factory :=
    fun k hk => plain k hk.of_within
  have hnone : ∀ k, kept.Reaches f.generic k → ¬ kept.Introduces k.factory :=
    fun k hk h => (hplain k hk).not_introduces h.of_within
  have hreaches : kept.Reaches f.generic i := hi.within hplain
  have hexposes : kept.Exposes i guarded (.param index) := by
    obtain ⟨entries, hentries, hshows⟩ := hindex
    exact ⟨entries, (within_of (hplain i hreaches)).trans hentries, hshows⟩
  have hnumbers := hreaches.subst templated hnone fun _ : Fin f.arity => .number
  rw [Factory.subst_generic] at hnumbers
  obtain ⟨entries, hentries, hshows⟩ :=
    hexposes.subst templated (hnone i hreaches) fun _ : Fin f.arity => .number
  have hfree := (freeBelow_numbers templated hnone _ _ hnumbers hentries).of_shows hshows
  by_contra hforeign
  rw [Ty.subst, dif_neg hforeign] at hfree
  exact hfree

end Family

/-- The instances that a type leads to have plain bodies. -/
def Ty.PlainBelow (bodies : Family) (t : Ty) : Prop :=
  ∀ guarded i j, t.Shows guarded (.inst i) → bodies.Reaches i j → bodies.PlainAt j.factory

/-! ### Walks -/

section Walks

variable {bodies : Family} {f : Factory} {limit : ℕ}

/-- **Every placeholder that a walk meets is one of the root's.** -/
lemma WalkCall.param_lt (plain : ∀ i, bodies.Reaches f.generic i → bodies.PlainAt i.factory)
    {room index : ℕ} {trail : Trail} {finished : List Instance}
    (hcalls : ReflTransGen (Subcall bodies f.generic limit)
      (.passing room trail (.param index) finished) (.start f limit)) : index < f.arity := by
  have hsound := (WalkCall.sound_start f).subcalls hcalls
  obtain ⟨i, guarded, hi, hexposes⟩ := hsound.1.exists_reaches
  exact Family.param_lt_of_reaches plain hi hexposes

/-- Of the causes that the error of a walk may have, a leak is none, and the bodies do not fail
internally either. -/
lemma validate_notInternal (plain : ∀ i, bodies.Reaches f.generic i → bodies.PlainAt i.factory)
    (config : Config) : NotInternal (validate bodies config f).result := by
  intro e he
  cases cause_of_validate he with
  | cycle => nofun
  | leak hreaches hexposes hforeign =>
      have hown := Family.param_lt_of_reaches plain hreaches hexposes
      exact absurd hown (Nat.not_lt.mpr hforeign)
  | deep => nofun
  | body hreaches hfails => exact (plain _ hreaches).tag_ne_internal hfails

end Walks

/-! ### Checks -/

section Checks

variable {bodies : Family} {discriminator : String} {e : DefinitionError}

/-- A definition error of a declared field is one of the check of a value inside the object
against the target of the field. -/
lemma QualifiedSchema.checkField_definition {q : QualifiedSchema} {members : Table Json}
    {field : QualifiedField QualifiedSchema}
    (h : (q.checkField bodies discriminator (members.map (Json.slot bodies discriminator))
      field).result = .error (.definition e)) :
    ∃ w, TransGen Json.IsPart w (.object members) ∧
      ((w.slot bodies discriminator).toSubject.checkTarget bodies discriminator q
        field.target).result = .error (.definition e) := by
  have passedOn := CheckError.passedOn_definition e
  rw [checkField, Table.find?_map] at h
  cases hw : members.find? field.name with
  | none =>
      -- without a value there is nothing but a validation error
      rw [hw] at h
      cases hq : field.qualifier <;> rw [hq] at h <;> cases h
  | some w =>
      have hpart := Json.isPart_of_find? hw
      rw [hw] at h
      by_cases hnull : w.isNull
      · simp only [Option.map_some, Option.filter_some, Json.slot_value, hnull, Bool.not_true,
          Bool.false_eq_true, if_false] at h
        cases hq : field.qualifier <;> rw [hq] at h <;> cases h
      · simp only [Option.map_some, Option.filter_some, Json.slot_value, hnull, Bool.not_false,
          if_true, Slot.checkPresent] at h
        cases hq : field.qualifier with
        | required | optional =>
            rw [hq] at h
            exact ⟨w, .single hpart, h⟩
        | repeated =>
            rw [hq] at h
            cases w with
            | array items =>
                obtain ⟨k, error, hk, rfl⟩ := Verdict.raises_forEach ⟨_, h, rfl⟩
                obtain ⟨_, hitem, rfl⟩ := Verdict.raises_within passedOn ⟨_, hk, rfl⟩
                exact ⟨_, .tail (.single (.item items k)) hpart, hitem⟩
            | null | boolean | number | string | object => cases h

/-- **A definition error of a qualified check** is one that a core type in the schema leads to.
The induction is on the value, since a schema may be inside itself. -/
lemma QualifiedSchema.faulty_of_asObject {q : QualifiedSchema} {v : Json}
    (h : ((v.slot bodies discriminator).asObject q).result = .error (.definition e)) :
    ∃ t, q.HoldsType t ∧ t.Faulty bodies e := by
  induction v using Json.isPart_wellFounded.transGen.induction generalizing q with
  | _ v ih =>
  cases v with
  | object members =>
      obtain ⟨before, field, after, hfields, -, hfield⟩ := Traced.forEach_error.mp h
      have hmem : field ∈ q.fields := hfields ▸ List.mem_append_right before List.mem_cons_self
      obtain ⟨_, hchecked, rfl⟩ := Verdict.raises_within (CheckError.passedOn_definition e)
        ⟨_, hfield, rfl⟩
      obtain ⟨w, hw, htarget⟩ := checkField_definition hchecked
      cases ht : field.target with
      | type t =>
          rw [ht, Subject.checkTarget, Json.slot_value] at htarget
          exact ⟨t, ⟨q, .refl, field, hmem, ht⟩, w.faulty_of_check htarget⟩
      | schema s =>
          rw [ht, Subject.checkTarget] at htarget
          obtain ⟨t, ⟨u, hu, hfieldType⟩, hfaulty⟩ := ih w hw htarget
          exact ⟨t, ⟨u, hu.head ⟨field, hmem, ht⟩, hfieldType⟩, hfaulty⟩
      | self =>
          rw [ht, Subject.checkTarget] at htarget
          exact ih w hw htarget
  | null | boolean | number | string | array => cases h

end Checks

/-- A check does not fail internally if it has no internal definition error. -/
lemma CheckError.tag_ne_internal {error : CheckError}
    (h : ∀ e, error = .definition e → e.tag ≠ .internal) : error.tag ≠ .internal := by
  cases error with
  | definition e => exact h e rfl
  | validation e =>
      obtain ⟨path, reason⟩ := e
      cases reason <;> nofun

/-- Where a type leads to plain bodies, none of them fails internally. -/
lemma Ty.Faulty.tag_ne_internal {bodies : Family} {e : DefinitionError} {t : Ty}
    (h : t.Faulty bodies e) (below : t.PlainBelow bodies) : e.tag ≠ .internal := by
  obtain ⟨guarded, i, j, hshows, hij, hj⟩ := h
  exact (below guarded i j hshows hij).tag_ne_internal hj

/-! ### The main statement -/

/-- **Without leaked placeholders nothing fails internally.** Let a factory, a type and the core
types of a qualified schema lead to plain bodies only. Then every placeholder that the walk over
the factory's definition meets is one of the factory's own, whatever other factories the walk has
entered, and neither the walk nor a check of any value against the type or the schema fails with
an internal error. -/
theorem internal_unreachable (bodies : Family) (config : Config) (f : Factory) (t : Ty)
    (q : QualifiedSchema) (reached : ∀ i, bodies.Reaches f.generic i → bodies.PlainAt i.factory)
    (below : t.PlainBelow bodies) (held : ∀ u, q.HoldsType u → u.PlainBelow bodies) :
    (∀ room trail index finished, ReflTransGen (Subcall bodies f.generic config.maxDepth)
      (.passing room trail (.param index) finished) (.start f config.maxDepth) →
        index < f.arity) ∧
    (∀ e, (validate bodies config f).result = .error e → e.tag ≠ .internal) ∧
    (∀ v e, (check bodies config t v).result = .error e → e.tag ≠ .internal) ∧
    ∀ v e, (q.check bodies config v).result = .error e → e.tag ≠ .internal := by
  refine ⟨fun room trail index finished hcalls => WalkCall.param_lt reached hcalls,
    validate_notInternal reached config, fun v error herror => ?_, fun v error herror => ?_⟩
  · refine CheckError.tag_ne_internal ?_
    rintro e rfl
    exact (v.faulty_of_check (check_error.mp herror)).tag_ne_internal below
  · refine CheckError.tag_ne_internal ?_
    rintro e rfl
    have hchecked : ((v.slot bodies config.discriminator).asObject q).result =
        .error (.definition e) := by
      rw [QualifiedSchema.result_check] at herror
      cases hv : ((v.slot bodies config.discriminator).asObject q).result with
      | error error =>
          rw [hv] at herror
          obtain rfl := Except.error.inj herror
          rfl
      | ok u => rw [hv] at herror; cases herror
    obtain ⟨u, hu, hfaulty⟩ := QualifiedSchema.faulty_of_asObject hchecked
    exact hfaulty.tag_ne_internal (held u hu)

/-- The record `{ both: Pair(a, a) }`, with one parameter. -/
def twice : Factory := ⟨7, "Twice", .record, 1⟩

/-- The bodies of the ready-made definitions and of that record. -/
def twiceBodies : Family :=
  ((Workspace.start .standard true).register "Twice" .record 1
    [("both", .factory Prelude.pair.factory [.arg 0, .arg 0])]).2.family

/-- The schema `{ pairs: Twice(number)[] }`. -/
def pairsSchema : QualifiedSchema :=
  .mk "Pairs" [⟨"pairs", .repeated, .type (.inst ⟨twice, fun _ => .number⟩)⟩]

lemma twiceBodies_plainAt {f : Factory} (hf : f = twice ∨ f = Prelude.pair.factory) :
    twiceBodies.PlainAt f := by
  have hbindings : ∀ name (t : Ty), Table.empty.find? name = some t → t.PlaceholderFree := by
    intro name t h
    cases h
  rcases hf with rfl | rfl
  · exact Workspace.plainAt _ (by decide) hbindings rfl
  · exact Workspace.plainAt _ (by decide) hbindings rfl

/-- The record reaches the pair, and no more if it is applied to a type without instances. -/
lemma twiceBodies_reaches {a : Ty} (leaf : ∀ guarded i, ¬ a.Shows guarded (.inst i)) {j : Instance}
    (h : twiceBodies.Reaches ⟨twice, fun _ => a⟩ j) :
    j = ⟨twice, fun _ => a⟩ ∨ ∃ arg, j = ⟨Prelude.pair.factory, arg⟩ ∧ ∀ k, arg k = a := by
  induction h with
  | refl => exact Or.inl rfl
  | tail _ hchild ih =>
      obtain ⟨guarded, entries, hentries, hshows⟩ := hchild
      rcases ih with rfl | ⟨arg, rfl, harg⟩
      · obtain rfl := Except.ok.inj hentries
        cases hshows with
        | @field _ k _ _ hshows =>
            have hentry := List.mem_singleton.mp (Table.entry_ofList_mem _ k)
            rw [hentry] at hshows
            obtain rfl := Ty.inst.inj hshows.eq_of_inst
            exact Or.inr ⟨_, rfl, Fin.forall_fin_two.mpr ⟨rfl, rfl⟩⟩
      · obtain rfl := Except.ok.inj hentries
        cases hshows with
        | @field _ k _ _ hshows =>
            have hentry := Table.entry_ofList_mem _ k
            simp only [List.map_cons, List.map_nil, List.mem_cons, List.not_mem_nil, or_false]
              at hentry
            rcases hentry with hentry | hentry
            · rw [hentry] at hshows
              exact absurd hshows (by simpa [harg] using leaf _ _)
            · rw [hentry] at hshows
              exact absurd hshows (by simpa [harg] using leaf _ _)

lemma twiceBodies_plain_of_reaches {a : Ty} (leaf : ∀ guarded i, ¬ a.Shows guarded (.inst i))
    {j : Instance} (h : twiceBodies.Reaches ⟨twice, fun _ => a⟩ j) :
    twiceBodies.PlainAt j.factory := by
  rcases twiceBodies_reaches leaf h with rfl | ⟨_, rfl, -⟩
  · exact twiceBodies_plainAt (Or.inl rfl)
  · exact twiceBodies_plainAt (Or.inr rfl)

/-- The walk over the record enters a pair, which has more parameters than the record, and meets
the record's own placeholder there. -/
theorem internal_unreachable_twice :
    let t : Ty := .inst ⟨twice, fun _ => .number⟩
    (∀ i, twiceBodies.Reaches twice.generic i → twiceBodies.PlainAt i.factory) ∧
      t.PlainBelow twiceBodies ∧ (∀ u, pairsSchema.HoldsType u → u.PlainBelow twiceBodies) ∧
      (∀ room trail index finished,
        ReflTransGen (Subcall twiceBodies twice.generic Config.standard.maxDepth)
          (.passing room trail (.param index) finished)
          (.start twice Config.standard.maxDepth) → index < 1) ∧
      (∀ e, (validate twiceBodies .standard twice).result = .error e → e.tag ≠ .internal) ∧
      (∀ v e, (check twiceBodies .standard t v).result = .error e → e.tag ≠ .internal) ∧
      ∀ v e, (pairsSchema.check twiceBodies .standard v).result = .error e →
        e.tag ≠ .internal := by
  intro t
  have hreached : ∀ i, twiceBodies.Reaches twice.generic i → twiceBodies.PlainAt i.factory := by
    intro i hi
    have hgeneric : twice.generic = ⟨twice, fun _ => .param 0⟩ := Application.ext_unary rfl rfl
    rw [hgeneric] at hi
    exact twiceBodies_plain_of_reaches (fun _ _ h => by cases h) hi
  have hbelow : t.PlainBelow twiceBodies := by
    intro guarded i j hshows hij
    obtain rfl := Ty.inst.inj hshows.eq_of_inst
    exact twiceBodies_plain_of_reaches (fun _ _ h => by cases h) hij
  have hheld : ∀ u, pairsSchema.HoldsType u → u.PlainBelow twiceBodies := by
    rintro u ⟨s, hs, field, hfield, htarget⟩
    rcases ReflTransGen.cases_head hs with rfl | ⟨inner, ⟨field, hfield, htarget⟩, -⟩
    · obtain rfl := List.mem_singleton.mp hfield
      obtain rfl := Target.type.inj htarget
      exact hbelow
    · obtain rfl := List.mem_singleton.mp hfield
      cases htarget
  exact ⟨hreached, hbelow, hheld,
    internal_unreachable twiceBodies .standard twice t pairsSchema hreached hbelow hheld⟩

end JsonTypes
