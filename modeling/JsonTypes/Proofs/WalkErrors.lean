/-
The walk rejects no definition without a cause.

At every point of the walk the open instances form a chain of steps from the root
on which no instance occurs twice, and those open without a guard lead to the
present place by unguarded steps.

* `Branch`: chains of pairwise different instances from the root.
* `Trail.LeadsTo`, `Trail.Admits`: what a trail says about the place reached, and
  about an instance that is to be opened; `LeadsTo.admits`, `Admits.enter`.
* `Family.Cause`: the causes of the errors of a walk.
* `Ty.walk_error_cause`, `expand_error_cause`: every error has its cause.
* `Branch.length_le`: a branch is no longer than the number of reachable instances.
* `validate_error_cause`: rejection has a cause, and without one is acceptance.
-/
import JsonTypes.Proofs.WalkSoundness

namespace JsonTypes

open Relation

/-! ### Branches -/

/-- A chain of steps from the root, innermost instance first, on which no instance
occurs twice. -/
inductive Branch (bodies : Family) (root : Instance) : List Instance → Prop where
  | root : Branch bodies root [root]
  | step {i j : Instance} {rest : List Instance} (h : Branch bodies root (i :: rest))
      (child : bodies.Child i j) (fresh : ¬ j.isIn (i :: rest) = true) :
      Branch bodies root (j :: i :: rest)

namespace Branch

variable {bodies : Family} {root : Instance} {list : List Instance}

/-- The root reaches everything on a branch. -/
lemma reaches (h : Branch bodies root list) : ∀ i ∈ list, bodies.Reaches root i := by
  induction h with
  | root =>
      intro i hi
      rw [List.mem_singleton.mp hi]
      exact .refl
  | step _ hchild _ ih =>
      intro k hk
      rcases List.mem_cons.mp hk with rfl | hk
      · exact (ih _ (List.mem_cons_self ..)).tail hchild
      · exact ih k hk

/-- The instances of a branch are different also when the order of fields is
disregarded. -/
lemma nodup (h : Branch bodies root list) :
    (list.map (Quotient.mk Application.setoid)).Nodup := by
  induction h with
  | root => exact List.nodup_singleton _
  | step _ _ hfresh ih =>
      refine List.nodup_cons.mpr ⟨fun hmem => hfresh ?_, ih⟩
      obtain ⟨k, hk, hkj⟩ := List.mem_map.mp hmem
      exact Application.isIn_iff.mpr ⟨k, hk, Quotient.exact hkj⟩

/-- **A branch is no longer than a list of everything that is reachable.** -/
lemma length_le {cover : List Instance} (h : Branch bodies root list)
    (hcover : ∀ i, bodies.Reaches root i → i.isIn cover = true) :
    list.length ≤ cover.length := by
  have hsub : list.map (Quotient.mk Application.setoid) ⊆
      cover.map (Quotient.mk Application.setoid) := by
    intro q hq
    obtain ⟨i, hi, rfl⟩ := List.mem_map.mp hq
    obtain ⟨k, hk, hki⟩ := Application.isIn_iff.mp (hcover i (h.reaches i hi))
    exact List.mem_map.mpr ⟨k, hk, Quotient.sound hki⟩
  have hlen := (h.nodup.subperm hsub).length_le
  rwa [List.length_map, List.length_map] at hlen

end Branch

/-! ### What a trail says about a place -/

namespace Trail

variable {bodies : Family} {root : Instance} {trail : Trail}

/-- The walk is at the type `t`: the open instances are a branch, the innermost
one exposes `t`, and those open without a guard lead to `t` by unguarded steps. -/
structure LeadsTo (bodies : Family) (root : Instance) (trail : Trail) (t : Ty) : Prop where
  branch : Branch bodies root trail.all
  inside : ∃ i rest guarded, trail.all = i :: rest ∧ bodies.Exposes i guarded t
  bare : ∀ i ∈ trail.bare, ∃ j, ReflTransGen bodies.BareChild i j ∧ bodies.BareExposes j t

/-- The walk may open the instance `i`: the open instances and `i` are a branch,
and those open without a guard lead to `i` by unguarded steps. -/
structure Admits (bodies : Family) (root : Instance) (trail : Trail) (i : Instance) : Prop where
  branch : Branch bodies root (i :: trail.all)
  bare : ∀ j ∈ trail.bare, TransGen bodies.BareChild j i

lemma LeadsTo.guard {c : Container} {t : Ty}
    (h : trail.LeadsTo bodies root (.container c t)) : trail.guard.LeadsTo bodies root t where
  branch := h.branch
  inside := by
    obtain ⟨i, rest, guarded, hall, hexposes⟩ := h.inside
    exact ⟨i, rest, _, hall, hexposes.trans (.container (.here t))⟩
  bare := by simp

lemma LeadsTo.field {entries : Table Ty} (h : trail.LeadsTo bodies root (.fields entries))
    (k : entries.names.Index) : trail.LeadsTo bodies root (entries.entry k) where
  branch := h.branch
  inside := by
    obtain ⟨i, rest, guarded, hall, hexposes⟩ := h.inside
    exact ⟨i, rest, _, hall, hexposes.trans (.field (.here _))⟩
  bare i hi := by
    obtain ⟨j, hij, hkind, hexposes⟩ := h.bare i hi
    exact ⟨j, hij, hkind, hexposes.trans (.field (.here _))⟩

/-- The innermost open instance is reachable. -/
lemma LeadsTo.exists_reaches {t : Ty} (h : trail.LeadsTo bodies root t) :
    ∃ i guarded, bodies.Reaches root i ∧ bodies.Exposes i guarded t := by
  obtain ⟨i, rest, guarded, hall, hexposes⟩ := h.inside
  exact ⟨i, guarded, h.branch.reaches i (hall ▸ List.mem_cons_self ..), hexposes⟩

lemma LeadsTo.reaches_inst {i : Instance} (h : trail.LeadsTo bodies root (.inst i)) :
    bodies.Reaches root i := by
  obtain ⟨j, guarded, hj, hexposes⟩ := h.exists_reaches
  exact hj.tail ⟨guarded, hexposes⟩

lemma LeadsTo.bareChild {i j : Instance} (h : trail.LeadsTo bodies root (.inst i))
    (hj : j ∈ trail.bare) : TransGen bodies.BareChild j i := by
  obtain ⟨k, hjk, hki⟩ := h.bare j hj
  exact TransGen.tail' hjk hki

/-- An instance that is not open may be opened. -/
lemma LeadsTo.admits {i : Instance} (h : trail.LeadsTo bodies root (.inst i))
    (hfresh : ¬ i.isIn trail.all = true) : trail.Admits bodies root i where
  branch := by
    obtain ⟨j, rest, guarded, hall, hexposes⟩ := h.inside
    have hbranch := h.branch
    rw [hall] at hbranch hfresh ⊢
    exact hbranch.step ⟨guarded, hexposes⟩ hfresh
  bare _ hj := h.bareChild hj

/-- Once an instance has been opened, the walk is at its entries. A record is open
without a guard there, a schema is not. -/
lemma Admits.enter {i : Instance} {entries : Table Ty} (h : trail.Admits bodies root i)
    (hi : bodies i = .ok entries) : (trail.enter i).LeadsTo bodies root (.fields entries) where
  branch := by
    rw [all_enter]
    exact h.branch
  inside := ⟨i, trail.all, false, trail.all_enter i, entries, hi, .here _⟩
  bare := by
    cases hkind : i.factory.kind with
    | schema => simp [trail.enter_of_schema hkind]
    | record =>
        have hexposes : bodies.BareExposes i (.fields entries) :=
          ⟨hkind, entries, hi, .here _⟩
        rw [trail.enter_of_record hkind]
        refine List.forall_mem_cons.mpr ⟨⟨i, .refl, hexposes⟩, fun j hj => ?_⟩
        exact ⟨i, (h.bare j hj).to_reflTransGen, hexposes⟩

end Trail

/-! ### Causes -/

/-- What there is in a definition to cause an error of its walk. -/
inductive Family.Cause (bodies : Family) (f : Factory) (limit : ℕ) : DefinitionError → Prop where
  /-- A reachable instance lies on a cycle of unguarded steps. -/
  | cycle {i : Instance} (reaches : bodies.Reaches f.generic i) (cycle : bodies.BareCycle i) :
      Cause bodies f limit (unguarded i)
  /-- A reachable description holds a foreign placeholder. -/
  | leak {i : Instance} {guarded : Bool} {index : ℕ} (reaches : bodies.Reaches f.generic i)
      (exposes : bodies.Exposes i guarded (.param index)) (foreign : f.arity ≤ index) :
      Cause bodies f limit (escaped f.generic index)
  /-- A branch is longer than the limit by one. -/
  | deep {i : Instance} {rest : List Instance} (branch : Branch bodies f.generic (i :: rest))
      (length : (i :: rest).length = limit + 1) : Cause bodies f limit (tooDeep f.generic i limit)
  /-- The body of a reachable instance fails. -/
  | body {i : Instance} {e : DefinitionError} (reaches : bodies.Reaches f.generic i)
      (fails : bodies i = .error e) : Cause bodies f limit e

section Causes

variable {bodies : Family} {f : Factory} {limit : ℕ} {e : DefinitionError}

/-- **Errors over types have a cause**, if those of expansions have. The number of
open instances is the same throughout. -/
lemma Ty.walk_error_cause {depth : ℕ}
    {expand : Trail → Instance → List Instance → Traced DefinitionError (List Instance)}
    (hexpand : ∀ trail i finished e, trail.Admits bodies f.generic i → trail.all.length = depth →
      (expand trail i finished).result = .error e → bodies.Cause f limit e)
    {t : Ty} {trail : Trail} {finished : List Instance} (hdepth : trail.all.length = depth)
    (hlead : trail.LeadsTo bodies f.generic t)
    (h : (t.walk f.generic expand trail finished).result = .error e) :
    bodies.Cause f limit e := by
  induction t generalizing trail finished with
  | primitive p => simp [Ty.walk] at h
  | container c t ih =>
      have hguard : trail.guard.all.length = depth := hdepth
      exact ih hguard hlead.guard h
  | fields entries ih =>
      rw [Ty.walk_fields] at h
      obtain ⟨i, -, s, hs⟩ := Traced.thread_error h
      exact ih i hdepth (hlead.field i) hs
  | inst i =>
      rcases Ty.walk_inst_error h with ⟨hbare, rfl⟩ | ⟨hfresh, -, herror⟩
      · obtain ⟨j, hj, hji⟩ := Application.isIn_iff.mp hbare
        exact .cycle hlead.reaches_inst ⟨j, hji, hlead.bareChild hj⟩
      · exact hexpand trail i finished e (hlead.admits hfresh) hdepth herror
  | param index =>
      obtain ⟨hindex, rfl⟩ := Ty.walk_param_error.mp h
      obtain ⟨i, guarded, hi, hexposes⟩ := hlead.exists_reaches
      exact .leak hi hexposes hindex

/-- **Errors of expansions have a cause.** -/
lemma expand_error_cause {room : ℕ} {trail : Trail} {i : Instance} {finished : List Instance}
    (hadmits : trail.Admits bodies f.generic i) (hroom : trail.all.length + room = limit)
    (h : (expand bodies f.generic limit room trail i finished).result = .error e) :
    bodies.Cause f limit e := by
  induction room generalizing trail i finished e with
  | zero =>
      rcases expand_error.mp h with ⟨-, rfl⟩ | ⟨below, hbelow, -⟩
      · refine .deep hadmits.branch ?_
        rw [List.length_cons]
        omega
      · cases hbelow
  | succ below ih =>
      rcases expand_error.mp h with ⟨hzero, -⟩ | ⟨_, hbelow, hfails | ⟨entries, hi, hwalk⟩⟩
      · cases hzero
      · exact .body (hadmits.branch.reaches i (List.mem_cons_self ..)) hfails
      · obtain rfl := Nat.succ.inj hbelow
        have hdepth : (trail.enter i).all.length = trail.all.length + 1 := by
          rw [Trail.all_enter, List.length_cons]
        refine Ty.walk_error_cause (fun trail' i' finished' e' hadmits' hdepth' herror => ?_)
          hdepth (hadmits.enter hi) hwalk
        exact ih hadmits' (by omega) (visit_error.mp herror)

/-- The errors of the walk over a definition have a cause. -/
lemma cause_of_validate {config : Config}
    (h : (validate bodies config f).result = .error e) :
    bodies.Cause f config.maxDepth e := by
  have hadmits : Trail.Admits bodies f.generic ⟨[], []⟩ f.generic :=
    ⟨Branch.root, by simp⟩
  exact expand_error_cause hadmits (by simp [Trail.all]) (validate_error.mp h)

/-- **Without a cause there is no error**: not in a well-formed definition with at
most as many reachable instances as may be open. -/
lemma not_cause_of_wellFormed (hwf : bodies.WellFormed f) {cover : List Instance}
    (hlen : cover.length ≤ limit)
    (hcover : ∀ i, bodies.Reaches f.generic i → i.isIn cover = true) :
    ¬ bodies.Cause f limit e := by
  intro hcause
  cases hcause with
  | cycle hreaches hcycle => exact hwf.acyclic _ hreaches hcycle
  | leak hreaches hexposes hforeign =>
      exact absurd (hwf.owned _ _ _ hreaches hexposes) (Nat.not_lt.mpr hforeign)
  | deep hbranch hlength =>
      have := hbranch.length_le hcover
      omega
  | body hreaches hfails =>
      obtain ⟨entries, hentries⟩ := hwf.expands _ hreaches
      cases hfails.symm.trans hentries

end Causes

/-- **The walk never rejects without cause.** Every error is that of an unguarded
cycle, of a foreign placeholder, of a branch longer than the limit, or of a body
that fails; and a well-formed definition with at most as many reachable instances
as may be open is accepted. -/
theorem validate_error_cause (bodies : Family) (config : Config) (f : Factory) :
    (∀ e, (validate bodies config f).result = .error e → bodies.Cause f config.maxDepth e) ∧
      (bodies.WellFormed f →
        (∃ cover : List Instance, cover.length ≤ config.maxDepth ∧
          ∀ i, bodies.Reaches f.generic i → i.isIn cover = true) →
        ∃ d, (validate bodies config f).result = .ok d) := by
  refine ⟨fun e he => cause_of_validate he, fun hwf ⟨cover, hlen, hcover⟩ => ?_⟩
  cases h : (validate bodies config f).result with
  | ok d => exact ⟨d, rfl⟩
  | error e => exact absurd (cause_of_validate h) (not_cause_of_wellFormed hwf hlen hcover)

/-- The record with a field of its own type: `{ value: a, next: Loop(a) }`. -/
def loop : Factory := ⟨7, "Loop", .record, 1⟩

/-- The bodies of the ready-made definitions and of that record. -/
def loopBodies : Family :=
  ((Workspace.start .standard true).register "Loop" .record 1
    [("value", .arg 0), ("next", .this [.arg 0])]).2.family

/-- A record with nothing but an optional field of its own type reaches nothing
but itself. -/
lemma Prelude.reaches_recursive {i : Instance}
    (h : Prelude.bodies.Reaches Prelude.recursive.factory.generic i) :
    i = Prelude.recursive.factory.generic := by
  induction h with
  | refl => rfl
  | @tail _ j _ hchild ih =>
      obtain ⟨guarded, entries, hentries, hshows⟩ := hchild
      rw [ih] at hentries
      obtain rfl := Except.ok.inj hentries
      cases hshows with
      | @field _ k _ _ hshows =>
          have hk : k = ⟨0, by decide⟩ := Fin.ext (Nat.lt_one_iff.mp k.isLt)
          subst hk
          cases hshows with
          | container hshows =>
              rw [Ty.inst.inj hshows.eq_of_inst]
              exact congrArg (Application.mk Prelude.recursive.factory) (funext fun k => k.elim0)

/-- The field makes a cycle. If it is optional, there is none, and room for one
instance suffices. -/
theorem validate_error_cause_loop :
    (validate loopBodies .standard loop).result = .error (unguarded loop.generic) ∧
      loopBodies.Cause loop Config.standard.maxDepth (unguarded loop.generic) ∧
      Prelude.bodies.WellFormed Prelude.recursive.factory ∧
      (∃ cover : List Instance, cover.length ≤ 1 ∧ ∀ i,
        Prelude.bodies.Reaches Prelude.recursive.factory.generic i → i.isIn cover = true) ∧
      ∃ d, (validate Prelude.bodies { Config.standard with maxDepth := 1 }
        Prelude.recursive.factory).result = .ok d := by
  have hwf : Prelude.bodies.WellFormed Prelude.recursive.factory :=
    wellFormed_of_validate Prelude.bodies_templated.respectsSame
      (show (validate Prelude.bodies .standard _).result = .ok _ from rfl)
  have hcover : ∃ cover : List Instance, cover.length ≤ 1 ∧ ∀ i,
      Prelude.bodies.Reaches Prelude.recursive.factory.generic i → i.isIn cover = true := by
    refine ⟨[Prelude.recursive.factory.generic], Nat.le_refl 1, fun i hi => ?_⟩
    rw [Prelude.reaches_recursive hi]
    exact Application.isIn_of_mem (List.mem_singleton_self _)
  refine ⟨rfl, (validate_error_cause loopBodies .standard loop).1 _ rfl, hwf, hcover, ?_⟩
  exact (validate_error_cause Prelude.bodies { Config.standard with maxDepth := 1 }
    Prelude.recursive.factory).2 hwf hcover

end JsonTypes
