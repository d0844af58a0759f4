/-
What the walk refuses as unguarded recursion has no value.

A value of a record holds a value for every required field, which is a proper part of
it. Where unguarded steps lead from an instance back to itself, every value would hold
a smaller one of the same type. The circle is found at the placeholders of a
definition; it is there for all arguments.

* `WalkEndsAt`, `Factory.RecursInto`: the walk ends at an instance that is open without
  a guard. `WalkEndsAt.walk_error`: that is an error of the walk; `Family.Disturbs`,
  `walk_error_endsAt`: the other errors have other reasons.
* `WalkEndsAt.bareCycle`: such an instance lies on a cycle of unguarded steps.
* `Conforms.of_alike`: equal types have the same values.
* `Conforms.bareChild`, `not_conforms_of_bareCycle`: a value holds values of what it
  requires, so there is none on such a cycle.
* `recursion_without_values`: instances that the walk refuses have no values, whatever
  stands in the places of the placeholders.
-/
import JsonTypes.Proofs.Conformance
import JsonTypes.Proofs.Placeholders
import JsonTypes.Proofs.WalkErrors

namespace JsonTypes

open Relation

/-! ### Where a walk ends -/

/-- The walk over a type, with room for so many more instances, ends at the instance
`i`: it meets `i` while it is open without a guard. -/
inductive WalkEndsAt (bodies : Family) (root : Instance) (limit : ℕ) (i : Instance) :
    ℕ → Ty → Trail → List Instance → Prop where
  | here {room : ℕ} {trail : Trail} {finished : List Instance}
      (isOpen : i.isIn trail.bare = true) :
      WalkEndsAt bodies root limit i room (.inst i) trail finished
  | container {room : ℕ} {c : Container} {t : Ty} {trail : Trail} {finished : List Instance}
      (inner : WalkEndsAt bodies root limit i room t trail.guard finished) :
      WalkEndsAt bodies root limit i room (.container c t) trail finished
  /-- The walk has passed over the entries before. -/
  | field {room : ℕ} {entries : Table Ty} {before after : List entries.names.Index}
      {k : entries.names.Index} {trail : Trail} {finished passed : List Instance}
      (split : entries.indices = before ++ k :: after)
      (run : (Traced.thread (fun l => (entries.entry l).walk root (visit bodies root limit room)
        trail) before finished).result = .ok passed)
      (inner : WalkEndsAt bodies root limit i room (entries.entry k) trail passed) :
      WalkEndsAt bodies root limit i room (.fields entries) trail finished
  /-- The instance on the way is neither open nor skipped as finished. -/
  | inside {room : ℕ} {j : Instance} {entries : Table Ty} {trail : Trail}
      {finished : List Instance} (fresh : ¬ j.isIn trail.all = true)
      (unfinished : ¬ (trail.bare = [] ∧ j.isIn finished = true))
      (expands : bodies j = .ok entries)
      (inner : WalkEndsAt bodies root limit i room (.fields entries) (trail.enter j) finished) :
      WalkEndsAt bodies root limit i (room + 1) (.inst j) trail finished

/-- The walk over the definition of the factory ends at an instance that a required
field leads back to. -/
def Factory.RecursInto (bodies : Family) (config : Config) (f : Factory) (i : Instance) : Prop :=
  WalkEndsAt bodies f.generic config.maxDepth i config.maxDepth (.inst f.generic) ⟨[], []⟩ []

/-- What else can end a walk: a foreign placeholder, too many open instances, or a body
that fails. -/
inductive Family.Disturbs (bodies : Family) (root : Instance) (limit : ℕ) :
    DefinitionError → Prop where
  | leak (index : ℕ) (foreign : root.factory.arity ≤ index) :
      Disturbs bodies root limit (escaped root index)
  | deep (i : Instance) : Disturbs bodies root limit (tooDeep root i limit)
  | body {i : Instance} {e : DefinitionError} (fails : bodies i = .error e) :
      Disturbs bodies root limit e

section Walks

variable {bodies : Family} {root i : Instance} {limit room : ℕ} {trail : Trail}
  {finished : List Instance} {t : Ty} {e : DefinitionError}

/-- **A walk that ends at an open instance fails** with the error that names it. -/
lemma WalkEndsAt.walk_error (h : WalkEndsAt bodies root limit i room t trail finished) :
    (t.walk root (visit bodies root limit room) trail finished).result = .error (unguarded i) := by
  induction h with
  | here hopen =>
      rw [Ty.walk_inst, if_pos hopen]
      rfl
  | container _ ih => exact ih
  | field hsplit hrun _ ih =>
      rw [Ty.walk_fields]
      exact Traced.thread_error_iff.mpr ⟨_, _, _, _, hsplit, hrun, ih⟩
  | inside hfresh hunfinished hexpands _ ih =>
      rw [Ty.walk_inst_fresh hfresh hunfinished]
      exact visit_error.mpr (expand_error.mpr (Or.inr ⟨_, rfl, Or.inr ⟨_, hexpands, ih⟩⟩))

/-- A walk over a type that fails has ended at an open instance or for another reason,
if that is so for the instances that it expands. -/
lemma Ty.walk_error_endsAt
    (hvisit : ∀ trail j finished e, ¬ j.isIn trail.all = true →
      ¬ (trail.bare = [] ∧ j.isIn finished = true) →
      (visit bodies root limit room trail j finished).result = .error e →
        (∃ i, WalkEndsAt bodies root limit i room (.inst j) trail finished ∧ e = unguarded i) ∨
          bodies.Disturbs root limit e)
    (h : (t.walk root (visit bodies root limit room) trail finished).result = .error e) :
    (∃ i, WalkEndsAt bodies root limit i room t trail finished ∧ e = unguarded i) ∨
      bodies.Disturbs root limit e := by
  induction t generalizing trail finished with
  | primitive p => simp [Ty.walk] at h
  | container c t ih =>
      refine (ih h).imp_left ?_
      rintro ⟨i, hi, rfl⟩
      exact ⟨i, .container hi, rfl⟩
  | fields entries ih =>
      rw [Ty.walk_fields] at h
      obtain ⟨before, k, after, passed, hsplit, hrun, hk⟩ := Traced.thread_error_iff.mp h
      refine (ih k hk).imp_left ?_
      rintro ⟨i, hi, rfl⟩
      exact ⟨i, .field hsplit hrun hi, rfl⟩
  | inst j =>
      rcases Ty.walk_inst_error h with ⟨hopen, rfl⟩ | ⟨hfresh, hunfinished, herror⟩
      · exact Or.inl ⟨j, .here hopen, rfl⟩
      · exact hvisit trail j finished e hfresh hunfinished herror
  | param index =>
      obtain ⟨hforeign, rfl⟩ := Ty.walk_param_error.mp h
      exact Or.inr (.leak index hforeign)

/-- **A walk that fails has ended at an open instance**, or for another reason. -/
lemma walk_error_endsAt
    (h : (t.walk root (visit bodies root limit room) trail finished).result = .error e) :
    (∃ i, WalkEndsAt bodies root limit i room t trail finished ∧ e = unguarded i) ∨
      bodies.Disturbs root limit e := by
  induction room generalizing t trail finished e with
  | zero =>
      refine Ty.walk_error_endsAt (fun trail j finished e _ _ hvisit => ?_) h
      rcases expand_error.mp (visit_error.mp hvisit) with ⟨-, rfl⟩ | ⟨below, hbelow, -⟩
      · exact Or.inr (.deep j)
      · cases hbelow
  | succ room ih =>
      refine Ty.walk_error_endsAt (fun trail j finished e hfresh hunfinished hvisit => ?_) h
      rcases expand_error.mp (visit_error.mp hvisit) with ⟨hzero, -⟩ | ⟨below, hbelow, hcase⟩
      · cases hzero
      · obtain rfl := Nat.succ.inj hbelow
        rcases hcase with hfails | ⟨entries, hentries, hwalk⟩
        · exact Or.inr (.body hfails)
        · refine (ih hwalk).imp_left ?_
          rintro ⟨i, hi, rfl⟩
          exact ⟨i, .inside hfresh hunfinished hentries hi, rfl⟩

/-- An instance at which a walk ends is reachable, and lies on a cycle of unguarded
steps. -/
lemma WalkEndsAt.bareCycle (h : WalkEndsAt bodies root limit i room t trail finished)
    (hlead : trail.LeadsTo bodies root t) : bodies.Reaches root i ∧ bodies.BareCycle i := by
  induction h with
  | here hopen =>
      obtain ⟨j, hj, hji⟩ := Application.isIn_iff.mp hopen
      exact ⟨hlead.reaches_inst, j, hji, hlead.bareChild hj⟩
  | container _ ih => exact ih hlead.guard
  | field _ _ _ ih => exact ih (hlead.field _)
  | inside hfresh _ hexpands _ ih => exact ih ((hlead.admits hfresh).enter hexpands)

/-- So is an instance at which the walk over a whole definition ends. -/
lemma WalkEndsAt.root_bareCycle {f : Factory}
    (h : WalkEndsAt bodies f.generic limit i room (.inst f.generic) ⟨[], []⟩ []) :
    bodies.Reaches f.generic i ∧ bodies.BareCycle i := by
  cases h with
  | here hopen => cases hopen
  | inside _ _ hexpands hinner =>
      have hadmits : Trail.Admits bodies f.generic ⟨[], []⟩ f.generic := ⟨.root, by simp⟩
      exact hinner.bareCycle (hadmits.enter hexpands)

/-- The walk over a definition fails as the walk over the factory at its placeholders. -/
lemma validate_error_walk {config : Config} {f : Factory} :
    (validate bodies config f).result = .error e ↔
      ((Ty.inst f.generic).walk f.generic (visit bodies f.generic config.maxDepth config.maxDepth)
        ⟨[], []⟩ []).result = .error e := by
  have hfresh : ¬ f.generic.isIn (Trail.all ⟨[], []⟩) = true := by
    simp [Trail.all, Application.isIn]
  have hunfinished : ¬ (([] : List Instance) = [] ∧ f.generic.isIn [] = true) := by
    simp [Application.isIn]
  rw [validate_error, Ty.walk_inst_fresh hfresh hunfinished, visit_error]

end Walks

/-! ### Values of equal types -/

section Values

variable {bodies : Family} {discriminator : String}

/-- **Equal types have the same values.** -/
lemma Conforms.of_alike (respects : bodies.RespectsSame) {t u : Ty} {v : Json}
    (h : Conforms bodies discriminator t v) (htu : t.Alike u) :
    Conforms bodies discriminator u v := by
  induction h generalizing u with
  | primitive hpresent hkind =>
      cases htu with
      | primitive => exact .primitive hpresent hkind
  | absent =>
      cases htu with
      | container => exact .absent
  | present _ ih =>
      cases htu with
      | container harg => exact .present (ih harg)
  | repeated _ ih =>
      cases htu with
      | container harg => exact .repeated fun k => ih k harg
  | map _ ih =>
      cases htu with
      | container harg => exact .map fun k => ih k harg
  | @fields declared members hkeys _ ih =>
      cases htu with
      | @fields _ other hnames halike =>
          -- the members may be declared in another order, but under the same names
          refine .fields (fun name => (hkeys name).trans (hnames name)) ?_
          intro name t v ht hv
          have hname : name ∈ declared.names.toList :=
            (hnames name).mpr (Table.exists_find?.mp ⟨t, ht⟩)
          obtain ⟨t', ht'⟩ := Table.exists_find?.mpr hname
          exact ih name t' v ht' hv (halike name t' t ht' ht)
  | record hkind hexpands _ ih =>
      obtain ⟨j, rfl, hsame⟩ := Application.exists_same_of_alike htu
      obtain ⟨entries, hentries, hfields⟩ := respects _ j _ hsame hexpands
      have hfactory := Application.same_factory hsame
      exact .record (hfactory ▸ hkind) hentries (ih ((Ty.same_iff_alike _ _).mp hfields))
  | @schema i variants members constr shape payload hkind hexpands htwo htag hvariant hheld
      hpresent _ ih =>
      obtain ⟨j, rfl, hsame⟩ := Application.exists_same_of_alike htu
      obtain ⟨variants', hvariants', hfields⟩ := respects _ j _ hsame hexpands
      have hfactory := Application.same_factory hsame
      cases (Ty.same_iff_alike _ _).mp hfields with
      | fields hnames halike =>
          have hname : constr ∈ variants'.names.toList :=
            (hnames constr).mp (Table.exists_find?.mp ⟨shape, hvariant⟩)
          obtain ⟨shape', hshape'⟩ := Table.exists_find?.mpr hname
          exact .schema (hfactory ▸ hkind) hvariants' htwo htag hshape' hheld hpresent
            (ih (halike constr shape shape' hvariant hshape'))

/-! ### Values of required fields -/

/-- A value holds values of the fields that its type requires. -/
lemma Conforms.of_field {entries : Table Ty} {v : Json}
    (h : Conforms bodies discriminator (.fields entries) v) (k : entries.names.Index) :
    ∃ w, w.IsPart v ∧ Conforms bodies discriminator (entries.entry k) w := by
  cases h with
  | @fields _ members hkeys heach =>
      obtain ⟨w, hw⟩ := Table.exists_find?.mpr ((hkeys _).mpr (entries.name_mem k))
      exact ⟨w, Json.isPart_of_find? hw, heach _ _ w (entries.find?_name k) hw⟩

/-- A value holds values of everything that its type shows without a guard. -/
lemma Conforms.of_shows {t u : Ty} {guarded : Bool} (hshows : t.Shows guarded u)
    (hbare : guarded = false) {v : Json} (h : Conforms bodies discriminator t v) :
    ∃ w, ReflTransGen Json.IsPart w v ∧ Conforms bodies discriminator u w := by
  induction hshows generalizing v with
  | here t => exact ⟨v, .refl, h⟩
  | container => cases hbare
  | @field entries k _ _ _ ih =>
      obtain ⟨w, hwv, hw⟩ := h.of_field k
      obtain ⟨x, hxw, hx⟩ := ih hbare hw
      exact ⟨x, hxw.tail hwv, hx⟩

/-- **A value of a record holds smaller values** of the instances that it requires. -/
lemma Conforms.bareChild {i j : Instance} (hij : bodies.BareChild i j) {v : Json}
    (h : Conforms bodies discriminator (.inst i) v) :
    ∃ w, TransGen Json.IsPart w v ∧ Conforms bodies discriminator (.inst j) w := by
  obtain ⟨hkind, entries, hentries, hshows⟩ := hij
  cases h with
  | schema hschema => cases hkind.symm.trans hschema
  | record _ hexpands hvalue =>
      obtain rfl := Except.ok.inj (hexpands.symm.trans hentries)
      cases hshows with
      | @field _ k _ _ hinner =>
          obtain ⟨w, hwv, hw⟩ := hvalue.of_field k
          obtain ⟨x, hxw, hx⟩ := hw.of_shows hinner rfl
          exact ⟨x, TransGen.tail' hxw hwv, hx⟩

/-- So does it along chains of such steps. -/
lemma Conforms.bareChain {i j : Instance} (hij : TransGen bodies.BareChild i j) {v : Json}
    (h : Conforms bodies discriminator (.inst i) v) :
    ∃ w, TransGen Json.IsPart w v ∧ Conforms bodies discriminator (.inst j) w := by
  induction hij with
  | single hij => exact h.bareChild hij
  | tail _ hjk ih =>
      obtain ⟨w, hwv, hw⟩ := ih
      obtain ⟨x, hxw, hx⟩ := hw.bareChild hjk
      exact ⟨x, hxw.trans hwv, hx⟩

/-- **There is no value on a cycle of unguarded steps**: it would hold a smaller value
of the same instance. -/
lemma not_conforms_of_bareCycle (respects : bodies.RespectsSame) {i : Instance}
    (h : bodies.BareCycle i) (v : Json) : ¬ Conforms bodies discriminator (.inst i) v := by
  obtain ⟨j, hji, hcycle⟩ := h
  -- the cycle starts at an equal instance, and once around it the value has become smaller
  induction v using Json.isPart_wellFounded.transGen.induction with
  | _ v ih =>
      intro hv
      have hj : Conforms bodies discriminator (.inst j) v :=
        hv.of_alike respects (Application.same_iff.mp (Application.same_symm hji))
      obtain ⟨w, hwv, hw⟩ := hj.bareChain hcycle
      exact ih w hwv hw

end Values

/-! ### All arguments -/

/-- A cycle of unguarded steps at placeholders is one at all arguments, if the bodies
are templates that introduce no placeholders. -/
lemma Family.BareCycle.subst {bodies : Family} (templated : bodies.Templated)
    (hnone : ∀ f, ¬ bodies.Introduces f) {i : Instance} (h : bodies.BareCycle i) {n : ℕ}
    (arg : Fin n → Ty) : bodies.BareCycle (i.subst arg) := by
  obtain ⟨j, hji, hcycle⟩ := h
  refine ⟨j.subst arg, Application.same_subst hji, ?_⟩
  exact hcycle.lift (Application.subst arg) fun a b hab => hab.subst templated (hnone _) arg

/-- **Refused recursion has no values.** Let the bodies be templates that introduce no
placeholders. If the walk over a definition ends at an instance that a required field
leads back to, it fails with the error that names the instance, and with whatever types
in the places of the placeholders, no value passes the check against the instance. All
other errors of the walk have other reasons. -/
theorem recursion_without_values (bodies : Family) (templated : bodies.Templated)
    (plain : ∀ f, ¬ bodies.Introduces f) (config : Config) (f : Factory) :
    (∀ i, f.RecursInto bodies config i →
      (validate bodies config f).result = .error (unguarded i) ∧
        ∀ (arg : Fin f.arity → Ty) (settings : Config) (v w : Json),
          (check bodies settings (.inst (i.subst arg)) v).result ≠ .ok w) ∧
      ∀ e, (validate bodies config f).result = .error e →
        (∃ i, f.RecursInto bodies config i ∧ e = unguarded i) ∨
          bodies.Disturbs f.generic config.maxDepth e := by
  refine ⟨fun i hi => ⟨validate_error_walk.mpr hi.walk_error, ?_⟩, fun e he => ?_⟩
  · intro arg settings v w hcheck
    have hcycle : bodies.BareCycle (i.subst arg) := hi.root_bareCycle.2.subst templated plain arg
    exact not_conforms_of_bareCycle templated.respectsSame hcycle v (conforms_of_check hcheck)
  · exact walk_error_endsAt (validate_error_walk.mp he)

/-- The bodies with the record `Loop` introduce no placeholders. -/
lemma loopBodies_not_introduces (f : Factory) : ¬ loopBodies.Introduces f := by
  refine Workspace.not_introduces _ (by decide) (fun name t h => ?_) f
  cases h

/-- The walk over `{ value: a, next: Loop(a) }` passes over the placeholder and ends at
the record itself. -/
lemma loop_recursInto : loop.RecursInto loopBodies .standard loop.generic := by
  have hnext (arg : Fin loop.arity → Ty) (harg : arg ⟨0, Nat.one_pos⟩ = .param 0) :
      WalkEndsAt loopBodies loop.generic 64 loop.generic 63 (.inst ⟨loop, arg⟩)
        ⟨[loop.generic], []⟩ [] := by
    have hgeneric : (⟨loop, arg⟩ : Instance) = loop.generic := Application.ext_unary rfl harg
    rw [hgeneric]
    exact .here rfl
  refine .inside (by simp [Trail.all, Application.isIn]) (by simp [Application.isIn]) rfl ?_
  refine @WalkEndsAt.field _ _ _ _ _ _ [⟨0, by decide⟩] [] ⟨1, by decide⟩ _ _ _ rfl rfl ?_
  exact hnext _ rfl

/-- `{ value: a, next: Loop(a) }` is refused, and there are no loops of numbers. -/
theorem recursion_without_values_loop :
    loopBodies.Templated ∧ (∀ f, ¬ loopBodies.Introduces f) ∧
      loop.RecursInto loopBodies .standard loop.generic ∧
      ∀ v w, (check loopBodies .standard (.inst ⟨loop, fun _ => .number⟩) v).result ≠ .ok w := by
  have templated : loopBodies.Templated := Workspace.family_templated _
  refine ⟨templated, loopBodies_not_introduces, loop_recursInto, ?_⟩
  have hloops := ((recursion_without_values loopBodies templated loopBodies_not_introduces
    .standard loop).1 loop.generic loop_recursInto).2 (fun _ => .number) .standard
  rw [Factory.subst_generic] at hloops
  exact hloops

end JsonTypes
