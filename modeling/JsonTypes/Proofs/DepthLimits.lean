/-
How the limit on open instances bears on the walk over a definition.

The limit shows in one place only: where the walk goes into an instance while as many are
open as the limit allows. A walk that never comes to such a place runs in the same way
with more room, report by report, and so it does if it fails for another reason. Nor does
it matter then what the bodies are of instances that it does not reach. The open instances
are a branch, so with room for everything that is reachable no walk comes there.

* `WalkCall.Raises`: the error that a call of the walk raises itself.
* `WalkCall.result_error_iff`: the errors of a walk are those that its calls raise.
* `Factory.OverrunsAt`: the walk over a definition has no room for an instance.
* `WalkCall.widen`, `WalkCall.run_widen`: a call that has room runs as it does with more;
  `validate_widen`: so does the walk over a definition.
* `not_overrunsAt`: there is room for as many instances as are reachable.
* `validate_raised_limit`: all of this for the verdict on a definition.
-/
import JsonTypes.Proofs.FinishedInstances
import JsonTypes.Proofs.WalkCalls
import Mathlib.Data.Set.Card

namespace JsonTypes

open Relation

variable {bodies : Family} {root : Instance} {limit : ℕ}

namespace WalkCall

/-! ### Errors of calls -/

/-- The error that a call raises itself, and does not pass on from the calls that it makes. -/
inductive Raises (bodies : Family) (root : Instance) (limit : ℕ) :
    WalkCall → DefinitionError → Prop where
  /-- The instance is open without a guard. -/
  | cycle {room : ℕ} {trail : Trail} {i : Instance} {finished : List Instance}
      (isOpen : i.isIn trail.bare = true) :
      Raises bodies root limit (.passing room trail (.inst i) finished) (unguarded i)
  /-- The placeholder is none of the root. -/
  | leak {room : ℕ} {trail : Trail} {index : ℕ} {finished : List Instance}
      (foreign : root.factory.arity ≤ index) :
      Raises bodies root limit (.passing room trail (.param index) finished) (escaped root index)
  /-- There is no room for the instance. -/
  | deep {trail : Trail} {i : Instance} {finished : List Instance} :
      Raises bodies root limit (.entering 0 trail i finished) (tooDeep root i limit)
  | body {room : ℕ} {trail : Trail} {i : Instance} {finished : List Instance}
      {e : DefinitionError} (fails : bodies i = .error e) :
      Raises bodies root limit (.entering (room + 1) trail i finished) e

variable {call : WalkCall} {e : DefinitionError}

/-- A call fails as a call does that it makes. -/
lemma result_error_of_subcall {inner : WalkCall} (hcall : Subcall bodies root limit inner call)
    (h : (inner.run bodies root limit).result = .error e) :
    (call.run bodies root limit).result = .error e := by
  cases hcall with
  | container => exact h
  | entry hsplit hrun =>
      rw [run, Ty.walk_fields]
      exact Traced.thread_error_iff.mpr ⟨_, _, _, _, hsplit, hrun, h⟩
  | inst hfresh hunfinished =>
      rw [run, Ty.walk_inst_fresh hfresh hunfinished]
      exact h
  | body hexpands =>
      have hexpand := expand_error.mpr (Or.inr ⟨_, rfl, Or.inr ⟨_, hexpands, h⟩⟩)
      exact visit_error.mpr hexpand

lemma Raises.result_error (h : call.Raises bodies root limit e) :
    (call.run bodies root limit).result = .error e := by
  cases h with
  | cycle hopen =>
      rw [run]
      exact Ty.walk_inst_bare hopen
  | leak hforeign =>
      rw [run]
      exact Ty.walk_param_error.mpr ⟨hforeign, rfl⟩
  | deep => exact visit_error.mpr (expand_error.mpr (Or.inl ⟨rfl, rfl⟩))
  | body hfails => exact visit_error.mpr (expand_error.mpr (Or.inr ⟨_, rfl, Or.inl hfails⟩))

/-- A call that fails raises the error itself or passes it on. -/
lemma result_error_cases (h : (call.run bodies root limit).result = .error e) :
    call.Raises bodies root limit e ∨
      ∃ inner, Subcall bodies root limit inner call ∧
        (inner.run bodies root limit).result = .error e := by
  cases call with
  | entering room trail i finished =>
      rcases expand_error.mp (visit_error.mp h) with ⟨rfl, rfl⟩ | ⟨below, rfl, hcase⟩
      · exact Or.inl .deep
      · rcases hcase with hfails | ⟨entries, hexpands, hwalk⟩
        · exact Or.inl (.body hfails)
        · exact Or.inr ⟨_, .body hexpands, hwalk⟩
  | passing room trail t finished =>
      rw [run] at h
      cases t with
      | primitive p => cases h
      | container c t => exact Or.inr ⟨_, .container, h⟩
      | fields entries =>
          rw [Ty.walk_fields] at h
          obtain ⟨before, k, after, passed, hsplit, hrun, hk⟩ := Traced.thread_error_iff.mp h
          exact Or.inr ⟨_, .entry hsplit hrun, hk⟩
      | inst i =>
          rcases Ty.walk_inst_error h with ⟨hopen, rfl⟩ | ⟨hfresh, hunfinished, hvisit⟩
          · exact Or.inl (.cycle hopen)
          · exact Or.inr ⟨_, .inst hfresh hunfinished, hvisit⟩
      | param index =>
          obtain ⟨hforeign, rfl⟩ := Ty.walk_param_error.mp h
          exact Or.inl (.leak hforeign)

/-- **The errors of a walk are those that its calls raise.** -/
lemma result_error_iff :
    (call.run bodies root limit).result = .error e ↔
      ∃ inner, ReflTransGen (Subcall bodies root limit) inner call ∧
        inner.Raises bodies root limit e := by
  constructor
  · have hends : WellFounded (Subcall bodies root limit) := subcall_wellFounded
    induction call using hends.induction with
    | _ call ih =>
      intro h
      rcases result_error_cases h with hraises | ⟨inner, hcall, hinner⟩
      · exact ⟨call, .refl, hraises⟩
      · obtain ⟨deep, hdeep, hraises⟩ := ih inner hcall hinner
        exact ⟨deep, hdeep.tail hcall, hraises⟩
  · rintro ⟨inner, hcalls, hraises⟩
    induction hcalls with
    | refl => exact hraises.result_error
    | tail _ hcall ih => exact result_error_of_subcall hcall ih

end WalkCall

/-- The walk over a definition fails as its first call does. -/
lemma validate_error_start {config : Config} {f : Factory} {e : DefinitionError} :
    (validate bodies config f).result = .error e ↔
      ((WalkCall.start f config.maxDepth).run bodies f.generic config.maxDepth).result =
        .error e := by
  rw [validate_error, WalkCall.start, WalkCall.run, visit_error]

/-! ### More room -/

/-- The walk over the definition of a factory comes to an instance that it has no room
for: as many instances are open as the limit allows. -/
def Factory.OverrunsAt (bodies : Family) (limit : ℕ) (f : Factory) (i : Instance) : Prop :=
  ∃ trail finished, ReflTransGen (Subcall bodies f.generic limit) (.entering 0 trail i finished)
    (.start f limit)

section Congruence

variable {bodies' : Family} {limit' room room' : ℕ} {trail : Trail} {i : Instance}
  {finished : List Instance}

/-- Two expansions of an instance are the same if the walks over its entries are. -/
lemma expand_congr (hi : bodies' i = bodies i)
    (hbody : ∀ entries, bodies i = .ok entries →
      (Ty.fields entries).walk root (visit bodies' root limit' room') (trail.enter i) finished =
        (Ty.fields entries).walk root (visit bodies root limit room) (trail.enter i) finished) :
    expand bodies' root limit' (room' + 1) trail i finished =
      expand bodies root limit (room + 1) trail i finished := by
  rw [expand_succ, expand_succ, Family.describe, Family.describe, hi]
  cases hexpands : bodies i with
  | error e => simp only [Except.map, Traced.of_error_bind]
  | ok entries => simp only [Except.map, Traced.of_ok_bind, hbody entries hexpands]

lemma visit_congr (hi : bodies' i = bodies i)
    (hbody : ∀ entries, bodies i = .ok entries →
      (Ty.fields entries).walk root (visit bodies' root limit' room') (trail.enter i) finished =
        (Ty.fields entries).walk root (visit bodies root limit room) (trail.enter i) finished) :
    visit bodies' root limit' (room' + 1) trail i finished =
      visit bodies root limit (room + 1) trail i finished := by
  rw [visit, visit, expand_congr hi hbody]

end Congruence

namespace WalkCall

/-- The same call with room for so many more open instances. -/
def widen (extra : ℕ) : WalkCall → WalkCall
  | passing room trail t finished => passing (extra + room) trail t finished
  | entering room trail i finished => entering (extra + room) trail i finished

/-- **A call that has room runs as it does with more**, whatever the limits are that an error
would name, and whatever the bodies are of instances that it does not go into. The induction
is on the calls, which are the same ones in both runs. -/
lemma run_widen {bodies' : Family} {limit' extra : ℕ} {call : WalkCall}
    (hroom : ∀ trail i finished,
      ¬ ReflTransGen (Subcall bodies root limit) (.entering 0 trail i finished) call)
    (hbodies : ∀ room trail i finished,
      ReflTransGen (Subcall bodies root limit) (.entering room trail i finished) call →
        bodies' i = bodies i) :
    (call.widen extra).run bodies' root limit' = call.run bodies root limit := by
  have hends : WellFounded (Subcall bodies root limit) := subcall_wellFounded
  induction call using hends.induction with
  | _ call ih =>
    have hinner : ∀ inner, Subcall bodies root limit inner call →
        (inner.widen extra).run bodies' root limit' = inner.run bodies root limit :=
      fun inner hcall => ih inner hcall
        (fun trail i finished hcalls => hroom trail i finished (hcalls.tail hcall))
        fun room trail i finished hcalls => hbodies room trail i finished (hcalls.tail hcall)
    cases call with
    | entering room trail i finished =>
        cases room with
        | zero => exact absurd .refl (hroom trail i finished)
        | succ room =>
            have hi : bodies' i = bodies i := hbodies _ trail i finished .refl
            have hbody : ∀ entries, bodies i = .ok entries →
                (Ty.fields entries).walk root (visit bodies' root limit' (extra + room))
                    (trail.enter i) finished =
                  (Ty.fields entries).walk root (visit bodies root limit room)
                    (trail.enter i) finished :=
              fun entries hexpands => hinner _ (.body hexpands)
            exact visit_congr hi hbody
    | passing room trail t finished =>
        rw [widen, run, run]
        cases t with
        | primitive p => rw [Ty.walk_primitive, Ty.walk_primitive]
        | container c t => exact hinner (.passing room trail.guard t finished) .container
        | fields entries =>
            rw [Ty.walk_fields, Ty.walk_fields]
            symm
            refine Traced.thread_congr fun before k after s hsplit hrun => ?_
            exact (hinner _ (.entry hsplit hrun)).symm
        | inst i =>
            rw [Ty.walk_inst, Ty.walk_inst]
            split_ifs with hbare hguarded hfinished
            · rfl
            · rfl
            · rfl
            · have hfresh : ¬ i.isIn trail.all = true :=
                fun hall => (Trail.isIn_all.mp hall).elim hbare hguarded
              rw [Bool.and_eq_true, List.isEmpty_iff] at hfinished
              exact hinner _ (.inst hfresh hfinished)
        | param index => rw [Ty.walk_param, Ty.walk_param]

end WalkCall

/-! ### The main statement -/

section Limits

variable {config : Config} {f : Factory} {limit' : ℕ}

/-- The walk goes into reachable instances only. -/
lemma WalkCall.reaches_of_entering {room : ℕ} {trail : Trail} {i : Instance}
    {finished : List Instance}
    (hcalls : ReflTransGen (Subcall bodies f.generic limit) (.entering room trail i finished)
      (.start f limit)) : bodies.Reaches f.generic i :=
  ((sound_start f).subcalls hcalls).1.branch.reaches i List.mem_cons_self

/-- Without room for an instance, a walk fails with the error that names it. -/
lemma Factory.OverrunsAt.validate_error {i : Instance}
    (h : f.OverrunsAt bodies config.maxDepth i) :
    (validate bodies config f).result = .error (tooDeep f.generic i config.maxDepth) := by
  obtain ⟨trail, finished, hcalls⟩ := h
  exact validate_error_start.mpr (WalkCall.result_error_iff.mpr ⟨_, hcalls, .deep⟩)

/-- **A walk that has room runs as it does with more**, and does not depend on the bodies of
instances that are not reachable. -/
lemma validate_widen {bodies' : Family} (hle : limit ≤ limit')
    (hroom : ∀ i, ¬ f.OverrunsAt bodies limit i)
    (hbodies : ∀ i, bodies.Reaches f.generic i → bodies' i = bodies i) :
    validate bodies' { config with maxDepth := limit' } f =
      validate bodies { config with maxDepth := limit } f := by
  obtain ⟨extra, rfl⟩ := Nat.exists_eq_add_of_le' hle
  cases limit with
  | zero => exact absurd ⟨_, _, .refl⟩ (hroom f.generic)
  | succ limit =>
      have hexpand :
          expand bodies' f.generic (extra + (limit + 1)) (extra + (limit + 1)) ⟨[], []⟩
            f.generic [] =
          expand bodies f.generic (limit + 1) (limit + 1) ⟨[], []⟩ f.generic [] := by
        refine expand_congr (hbodies _ .refl) fun entries hexpands => ?_
        let inside : WalkCall :=
          .passing limit (Trail.enter ⟨[], []⟩ f.generic) (.fields entries) []
        have hinside : Subcall bodies f.generic (limit + 1) inside (.start f (limit + 1)) :=
          .body hexpands
        refine WalkCall.run_widen
          (fun trail i finished hcalls => hroom i ⟨trail, finished, hcalls.tail hinside⟩)
          fun room trail i finished hcalls => hbodies i ?_
        exact WalkCall.reaches_of_entering (hcalls.tail hinside)
      rw [validate, validate, Factory.walk, Factory.walk, hexpand]

/-- An error that names the limit stems from a body if there is room for all instances. -/
lemma exists_body_of_tooDeep (hroom : ∀ i, ¬ f.OverrunsAt bodies config.maxDepth i)
    {i : Instance} (h : (validate bodies config f).result = .error (tooDeep f.generic i limit)) :
    ∃ j, bodies.Reaches f.generic j ∧ bodies j = .error (tooDeep f.generic i limit) := by
  obtain ⟨call, hcalls, hraises⟩ := WalkCall.result_error_iff.mp (validate_error_start.mp h)
  generalize he : tooDeep f.generic i limit = e at hraises
  cases hraises with
  | cycle => exact absurd he.symm (unguarded_ne_tooDeep _ _ _ _)
  | leak => cases he
  | deep => exact absurd ⟨_, _, hcalls⟩ (hroom _)
  | body hfails => exact ⟨_, WalkCall.reaches_of_entering hcalls, hfails⟩

/-- **There is room for as many instances as are reachable**, since the open instances
differ. -/
lemma not_overrunsAt {cover : List Instance}
    (hcover : ∀ i, bodies.Reaches f.generic i → i.isIn cover = true)
    (hlength : cover.length ≤ limit) (i : Instance) : ¬ f.OverrunsAt bodies limit i := by
  rintro ⟨trail, finished, hcalls⟩
  have hsound := (WalkCall.sound_start f).subcalls hcalls
  have hopen : (i :: trail.all).length ≤ cover.length := hsound.1.branch.length_le hcover
  have hfull : trail.all.length + 0 = limit := hsound.2
  rw [List.length_cons] at hopen
  omega

/-- Finitely many reachable instances fit in a list of as many. -/
lemma Family.exists_cover (hfinite : (bodies.reachable f).Finite) :
    ∃ cover : List Instance, cover.length = (bodies.reachable f).ncard ∧
      ∀ i, bodies.Reaches f.generic i → i.isIn cover = true := by
  refine ⟨hfinite.toFinset.toList.map Quotient.out, ?_, fun i hi => ?_⟩
  · rw [List.length_map, Finset.length_toList, Set.ncard_eq_toFinset_card _ hfinite]
  · have hmem : Quotient.mk Application.setoid i ∈ hfinite.toFinset :=
      hfinite.mem_toFinset.mpr ⟨i, hi, rfl⟩
    refine Application.isIn_iff.mpr ⟨_, List.mem_map_of_mem (Finset.mem_toList.mpr hmem), ?_⟩
    exact Quotient.mk_out i

end Limits

/-- **A settled verdict outlasts every larger limit.** If the walk over a definition has no
room for an instance, it fails with the error that names the limit. If it has room, whether
the definition is accepted or not, then all larger limits lead to the same verdict and the
same reports. With room for as many instances as are reachable, it always has; an error that
names the limit can then only stem from a body. -/
theorem validate_raised_limit (bodies : Family) (config : Config) (f : Factory) :
    let verdict limit := validate bodies { config with maxDepth := limit } f
    (∀ limit i, f.OverrunsAt bodies limit i →
      (verdict limit).result = .error (tooDeep f.generic i limit)) ∧
    (∀ limit limit', limit ≤ limit' → (∀ i, ¬ f.OverrunsAt bodies limit i) →
      verdict limit' = verdict limit) ∧
    ((bodies.reachable f).Finite → ∀ limit, (bodies.reachable f).ncard ≤ limit →
      verdict limit = verdict (bodies.reachable f).ncard ∧
      (∀ i, ¬ f.OverrunsAt bodies limit i) ∧
      ∀ i, (verdict limit).result = .error (tooDeep f.generic i limit) →
        ∃ j, bodies.Reaches f.generic j ∧ bodies j = .error (tooDeep f.generic i limit)) := by
  intro verdict
  refine ⟨fun limit i h => h.validate_error, fun limit limit' hle hroom => ?_,
    fun hfinite limit hlimit => ?_⟩
  · exact validate_widen hle hroom fun _ _ => rfl
  · obtain ⟨cover, hlength, hcover⟩ := Family.exists_cover hfinite
    have hroom : ∀ limit, cover.length ≤ limit → ∀ i, ¬ f.OverrunsAt bodies limit i :=
      fun limit hle => not_overrunsAt hcover hle
    have hlimit' : ∀ i, ¬ f.OverrunsAt bodies limit i := hroom limit (hlength.trans_le hlimit)
    exact ⟨validate_widen hlimit (hroom _ hlength.le) fun _ _ => rfl, hlimit',
      fun i => exists_body_of_tooDeep hlimit'⟩

/-- The record that requires itself is refused as a cycle as soon as there is room for it, and
with no room at all for want of it. A record with an optional field of its own type reaches
one instance, and room for one decides. -/
theorem validate_raised_limit_loop :
    loop.OverrunsAt loopBodies 0 loop.generic ∧
      (validate loopBodies { Config.standard with maxDepth := 0 } loop).result =
        .error (tooDeep loop.generic loop.generic 0) ∧
      (∀ limit, 1 ≤ limit →
        (validate loopBodies { Config.standard with maxDepth := limit } loop).result =
          .error (unguarded loop.generic)) ∧
      (Prelude.bodies.reachable Prelude.recursive.factory).ncard = 1 ∧
      ∀ limit, 1 ≤ limit →
        validate Prelude.bodies { Config.standard with maxDepth := limit }
            Prelude.recursive.factory =
          validate Prelude.bodies { Config.standard with maxDepth := 1 }
            Prelude.recursive.factory := by
  have hover : loop.OverrunsAt loopBodies 0 loop.generic := ⟨_, _, .refl⟩
  have hloop := validate_raised_limit loopBodies .standard loop
  have hrefused : (validate loopBodies { Config.standard with maxDepth := 1 } loop).result =
      .error (unguarded loop.generic) := rfl
  have hroom : ∀ i, ¬ loop.OverrunsAt loopBodies 1 i := fun i hi =>
    unguarded_ne_tooDeep _ _ _ _ (Except.error.inj (hrefused.symm.trans (hloop.1 1 i hi)))
  have hreach : Prelude.bodies.reachable Prelude.recursive.factory =
      {Quotient.mk Application.setoid Prelude.recursive.factory.generic} := by
    refine Set.eq_singleton_iff_unique_mem.mpr ⟨⟨_, .refl, rfl⟩, ?_⟩
    rintro _ ⟨i, hi, rfl⟩
    rw [Prelude.reaches_recursive hi]
  have hone : (Prelude.bodies.reachable Prelude.recursive.factory).ncard = 1 := by
    rw [hreach, Set.ncard_singleton]
  have hfinite : (Prelude.bodies.reachable Prelude.recursive.factory).Finite := by
    rw [hreach]
    exact Set.finite_singleton _
  refine ⟨hover, hloop.1 0 _ hover, fun limit hlimit => ?_, hone, fun limit hlimit => ?_⟩
  · have hraised := hloop.2.1 1 limit hlimit hroom
    exact (congrArg Traced.result hraised).trans hrefused
  · have hsettled := (validate_raised_limit Prelude.bodies .standard _).2.2 hfinite limit
      (hone.trans_le hlimit)
    rw [hone] at hsettled
    exact hsettled.1

end JsonTypes
