/-
Guarded definitions are walked once.

A finished instance is skipped only while no instance is open without a guard. So a walk may
expand an instance again that it has finished, where a record holds it without a container
around. If no reachable record does, every instance is met behind a guard, and is expanded once,
however often it occurs.

* `opened`: the instances that a walk reports to expand, in order.
* `Ty.walk_opened`, `visit_opened`: what is finished after a walk is what has been expanded by
  it, beside what was finished before.
* `Apart`: open and finished instances that are all different; `Ty.walk_apart` and `visit_apart`
  keep them so, where instances are met behind guards.
* `validate_opens_once`: every reachable instance is expanded once.
-/
import JsonTypes.Proofs.DepthLimits

namespace JsonTypes

open Relation

/-! ### Expansions and finished instances -/

/-- The instance that a walk expands, by one of its reports. -/
def Event.opened? : Event → Option Instance
  | .expanding i _ => some i
  | _ => none

/-- The instances that a walk reports to expand, in order. -/
def opened (events : List Event) : List Instance :=
  events.filterMap Event.opened?

@[simp] lemma opened_expanding (i : Instance) (depth : ℕ) (events : List Event) :
    opened (.expanding i depth :: events) = i :: opened events := rfl

lemma opened_append (events later : List Event) :
    opened (events ++ later) = opened events ++ opened later :=
  List.filterMap_append

lemma mem_opened {events : List Event} {i : Instance} :
    i ∈ opened events ↔ ∃ depth, .expanding i depth ∈ events := by
  rw [opened, List.mem_filterMap]
  constructor
  · rintro ⟨event, hevent, h⟩
    cases event with
    | expanding j depth =>
        obtain rfl := Option.some.inj h
        exact ⟨depth, hevent⟩
    | inProgress | wellFormed | expandingForCheck | failed => cases h
  · rintro ⟨depth, hevent⟩
    exact ⟨_, hevent, rfl⟩

section Opened

variable {bodies : Family} {root : Instance} {limit room : ℕ} {trail : Trail}
  {finished after : List Instance}

lemma Traced.thread_opened {ε ι : Type} {run : ι → List Instance → Traced ε (List Instance)}
    (single : ∀ k s s', (run k s).result = .ok s' → s'.Perm (opened (run k s).events ++ s))
    {list : List ι} (h : (thread run list finished).result = .ok after) :
    after.Perm (opened (thread run list finished).events ++ finished) := by
  induction list generalizing finished with
  | nil =>
      obtain rfl := Except.ok.inj h
      exact .refl _
  | cons k rest ih =>
      obtain ⟨next, hfirst, hrest⟩ := thread_cons_ok.mp h
      rw [thread, ← bind_eq, events_bind_ok hfirst, opened_append]
      have hstep :=
        (single k finished next hfirst).append_left (opened (thread run rest next).events)
      have hswap : (opened (thread run rest next).events ++ opened (run k finished).events).Perm
          (opened (run k finished).events ++ opened (thread run rest next).events) :=
        List.perm_append_comm
      rw [← List.append_assoc] at hstep
      exact (ih hrest).trans (hstep.trans (hswap.append_right finished))

/-- **Types.** What is finished after the walk over a type has been expanded by it, or was
finished before, if this is so for the expansions of instances. -/
lemma Ty.walk_opened
    (inside : ∀ trail i finished after,
      (visit bodies root limit room trail i finished).result = .ok after →
        after.Perm (opened (visit bodies root limit room trail i finished).events ++ finished))
    {t : Ty}
    (h : (t.walk root (visit bodies root limit room) trail finished).result = .ok after) :
    after.Perm
      (opened (t.walk root (visit bodies root limit room) trail finished).events ++ finished) := by
  induction t generalizing trail finished after with
  | primitive p =>
      obtain rfl := Except.ok.inj h
      exact .refl _
  | container c t ih => exact ih h
  | fields entries ih =>
      rw [walk_fields] at h ⊢
      exact Traced.thread_opened (fun k s s' hs => ih k hs) h
  | inst i =>
      rw [walk_inst] at h ⊢
      split_ifs at h ⊢ with hbare hguarded hfinished
      · cases h
      · obtain rfl := Except.ok.inj h
        exact .refl _
      · obtain rfl := Except.ok.inj h
        exact .refl _
      · exact inside trail i finished after h
  | param index =>
      rw [walk_param] at h ⊢
      split_ifs at h ⊢
      · obtain rfl := Except.ok.inj h
        exact .refl _
      · cases h

/-- **Instances.** So it is for the expansion of an instance, by induction on the room. -/
lemma visit_opened {i : Instance}
    (h : (visit bodies root limit room trail i finished).result = .ok after) :
    after.Perm (opened (visit bodies root limit room trail i finished).events ++ finished) := by
  induction room generalizing trail i finished after with
  | zero => cases h
  | succ room ih =>
      obtain ⟨d, hd⟩ := visit_ok.mp h
      obtain ⟨_, entries, inner, hroom, hi, -, rfl, hwalk⟩ := expand_ok.mp hd
      obtain rfl := Nat.succ.inj hroom
      rw [events_visit_succ, hi, opened_expanding, List.cons_append]
      exact (Ty.walk_opened (fun _ _ _ _ => ih) hwalk).cons i

end Opened

/-! ### Instances behind guards -/

/-- Open and finished instances that are all different, also when the order of fields is
disregarded. -/
def Apart (pending finished : List Instance) : Prop :=
  ((pending ++ finished).map (Quotient.mk Application.setoid)).Nodup

section Guarded

variable {bodies : Family} {root : Instance} {limit room : ℕ} {trail : Trail}
  {finished after : List Instance}

/-- An instance that is neither open nor finished may be opened. -/
lemma Apart.open {pending : List Instance} {i : Instance} (h : Apart pending finished)
    (hfresh : ¬ i.isIn pending = true) (hunfinished : ¬ i.isIn finished = true) :
    Apart (i :: pending) finished := by
  refine List.nodup_cons.mpr ⟨fun hmem => ?_, h⟩
  obtain ⟨j, hj, hji⟩ := List.mem_map.mp hmem
  have hin : i.isIn (pending ++ finished) = true :=
    Application.isIn_iff.mpr ⟨j, hj, Quotient.exact hji⟩
  exact (Application.isIn_append.mp hin).elim hfresh hunfinished

/-- An open instance may be finished. -/
lemma Apart.finish {pending : List Instance} {i : Instance} (h : Apart (i :: pending) finished) :
    Apart pending (i :: finished) :=
  (List.perm_middle.map _).nodup_iff.mpr h

/-- **Types.** The walk over a type keeps the instances apart, if the type shows no instance
without a container, or none is open without a guard. -/
lemma Ty.walk_apart
    (inside : ∀ trail i finished after, trail.Admits bodies root i → trail.bare = [] →
      Apart (i :: trail.all) finished →
      (visit bodies root limit room trail i finished).result = .ok after →
        Apart trail.all after)
    {t : Ty} (hleads : trail.LeadsTo bodies root t)
    (hshows : ∀ i, t.Shows false (.inst i) → trail.bare = []) (hapart : Apart trail.all finished)
    (h : (t.walk root (visit bodies root limit room) trail finished).result = .ok after) :
    Apart trail.all after := by
  induction t generalizing trail finished after with
  | primitive p =>
      obtain rfl := Except.ok.inj h
      exact hapart
  | container c t ih =>
      have hguard : Apart trail.guard.all after :=
        ih hleads.guard (fun _ _ => trail.bare_guard) hapart h
      exact hguard
  | fields entries ih =>
      rw [walk_fields] at h
      have hsteps := Traced.thread_ok (Apart trail.all) (fun _ _ => True) (fun _ _ => True)
        (fun _ => trivial) (fun _ _ _ _ _ => trivial) (fun _ _ _ _ _ => trivial)
        (fun k _ s s' hs hrun => ⟨ih k (hleads.field k) (fun i hi => hshows i (.field hi)) hs hrun,
          trivial, trivial⟩) hapart h
      exact hsteps.1
  | inst i =>
      have hbare : trail.bare = [] := hshows i (.here _)
      rw [walk_inst] at h
      split_ifs at h with hopen hguarded hfinished
      · cases h
      · obtain rfl := Except.ok.inj h
        exact hapart
      · obtain rfl := Except.ok.inj h
        exact hapart
      · have hfresh : ¬ i.isIn trail.all = true :=
          fun hall => (Trail.isIn_all.mp hall).elim hopen hguarded
        have hunfinished : ¬ i.isIn finished = true := by simpa [hbare] using hfinished
        exact inside trail i finished after (hleads.admits hfresh) hbare
          (hapart.open hfresh hunfinished) h
  | param index =>
      obtain ⟨-, rfl⟩ := walk_param_ok.mp h
      exact hapart

/-- **Instances.** Neither does an expansion open an instance twice, if no reachable record holds
an instance without a container. -/
lemma visit_apart (guarded : ∀ i j, bodies.Reaches root i → ¬ bodies.BareChild i j) {i : Instance}
    (hadmits : trail.Admits bodies root i) (hbare : trail.bare = [])
    (hapart : Apart (i :: trail.all) finished)
    (h : (visit bodies root limit room trail i finished).result = .ok after) :
    Apart trail.all after := by
  induction room generalizing trail i finished after with
  | zero => cases h
  | succ room ih =>
      obtain ⟨d, hd⟩ := visit_ok.mp h
      obtain ⟨_, entries, inner, hroom, hi, -, rfl, hwalk⟩ := expand_ok.mp hd
      obtain rfl := Nat.succ.inj hroom
      have hreaches : bodies.Reaches root i := hadmits.branch.reaches i List.mem_cons_self
      have hshows : ∀ j, (Ty.fields entries).Shows false (.inst j) → (trail.enter i).bare = [] := by
        intro j hj
        cases hkind : i.factory.kind with
        | schema => rw [trail.enter_of_schema hkind]
        | record => exact absurd ⟨hkind, entries, hi, hj⟩ (guarded i j hreaches)
      rw [← trail.all_enter] at hapart
      have hinner := Ty.walk_apart (fun _ _ _ _ hadmits hbare hapart h => ih hadmits hbare hapart h)
        (hadmits.enter hi) hshows hapart hwalk
      rw [trail.all_enter] at hinner
      exact hinner.finish

end Guarded

/-! ### The main statement -/

/-- The walk goes into reachable instances only, by its reports. -/
lemma WalkCall.reaches_of_report {bodies : Family} {f : Factory} {limit depth : ℕ} {i : Instance}
    {call : WalkCall}
    (hcalls : ReflTransGen (Subcall bodies f.generic limit) call (.start f limit))
    (hreport : call.report? = some (.expanding i depth)) : bodies.Reaches f.generic i := by
  cases call with
  | entering room trail j finished =>
      cases room with
      | zero => cases hreport
      | succ room =>
          obtain ⟨rfl, -⟩ := Event.expanding.inj (Option.some.inj hreport)
          exact WalkCall.reaches_of_entering hcalls
  | passing room trail t finished =>
      cases t with
      | inst j =>
          rw [report?] at hreport
          split_ifs at hreport
          cases hreport
      | primitive | container | fields | param => cases hreport

/-- The walk over a definition reports to expand what it opens. -/
lemma opened_validate (bodies : Family) (config : Config) (f : Factory) :
    opened (validate bodies { config with debug := true } f).events =
      opened ((WalkCall.start f config.maxDepth).run bodies f.generic config.maxDepth).events := by
  rw [events_validate, opened_append]
  cases (validate bodies config f).result <;> exact List.append_nil _

/-- **Guarded definitions are walked once.** Let no record that is reachable from the definition
hold an instance without a container around it. If the definition is accepted, then each
reachable instance has been expanded once, up to the order of fields, and no other. -/
theorem validate_opens_once (bodies : Family) (respects : bodies.RespectsSame) (config : Config)
    (f : Factory) (guarded : ∀ i j, bodies.Reaches f.generic i → ¬ bodies.BareChild i j)
    (d : Description) (h : (validate bodies config f).result = .ok d) :
    let expanded := (opened (validate bodies { config with debug := true } f).events).map
      (Quotient.mk Application.setoid)
    expanded.Nodup ∧ ∀ q, q ∈ expanded ↔ q ∈ bodies.reachable f := by
  intro expanded
  obtain ⟨after, hrun⟩ := validate_ok.mp h
  have hvisit : ((WalkCall.start f config.maxDepth).run bodies f.generic config.maxDepth).result =
      .ok after := visit_ok.mpr ⟨d, hrun⟩
  have hperm : after.Perm (opened (validate bodies { config with debug := true } f).events) := by
    have hopened := visit_opened hvisit
    rw [List.append_nil] at hopened
    rwa [opened_validate]
  have hclasses := hperm.map (Quotient.mk Application.setoid)
  refine ⟨?_, fun q => ⟨fun hq => ?_, ?_⟩⟩
  · have hstart : Apart [f.generic] [] := List.nodup_singleton _
    have hsound : (WalkCall.start f config.maxDepth).Sound bodies f.generic config.maxDepth :=
      WalkCall.sound_start f
    have hafter : Apart [] after := visit_apart guarded hsound.1 rfl hstart hvisit
    exact hclasses.nodup_iff.mp hafter
  · obtain ⟨i, hi, rfl⟩ := List.mem_map.mp hq
    rw [opened_validate] at hi
    obtain ⟨depth, hevent⟩ := mem_opened.mp hi
    obtain ⟨call, hcalls, hreport⟩ := WalkCall.mem_events_iff.mp hevent
    exact ⟨i, WalkCall.reaches_of_report hcalls hreport, rfl⟩
  · rintro ⟨i, hi, rfl⟩
    obtain ⟨hsettled, -, hroot⟩ := expand_settled respects Settled.nil hrun
    obtain ⟨j, hj, hji⟩ := Application.isIn_iff.mp (hsettled.isIn_of_reaches respects hroot hi)
    exact hclasses.mem_iff.mp (List.mem_map.mpr ⟨j, hj, Quotient.sound hji⟩)

/-! ### Twins -/

/-- The optional record with an optional field of its own type. -/
def optionalRec : Ty := .container .optional (.inst Prelude.recursive.factory.generic)

/-- Where all fields have that type, nothing but the record shows, behind a guard. -/
lemma shows_of_optionalRec {entries : List (String × Ty)} {guarded : Bool} {i : Instance}
    (hall : ∀ t ∈ entries.map Prod.snd, t = optionalRec)
    (hshows : (Ty.fields (Table.ofList entries)).Shows guarded (.inst i)) :
    guarded = true ∧ i = Prelude.recursive.factory.generic := by
  cases hshows with
  | @field _ k _ _ hshows =>
      rw [hall _ (Table.entry_ofList_mem entries k)] at hshows
      cases hshows with
      | container hshows => exact ⟨rfl, Ty.inst.inj hshows.eq_of_inst⟩

/-- The fields of twins and of the record, which are all there is to reach. -/
lemma twins_exposes {i j : Instance} {guarded : Bool}
    (hi : i = twins.generic ∨ i = Prelude.recursive.factory.generic)
    (hexposes : twinBodies.Exposes i guarded (.inst j)) :
    guarded = true ∧ j = Prelude.recursive.factory.generic := by
  have hrec : ∀ arg, Ty.container .optional (.inst ⟨Prelude.recursive.factory, arg⟩) =
      optionalRec := fun arg =>
    congrArg (fun arg => Ty.container .optional (.inst ⟨Prelude.recursive.factory, arg⟩))
      (funext fun k => k.elim0)
  obtain ⟨entries, hentries, hshows⟩ := hexposes
  rcases hi with rfl | rfl
  · obtain rfl := Except.ok.inj hentries
    refine shows_of_optionalRec ?_ hshows
    exact List.forall_mem_cons.mpr ⟨hrec _, List.forall_mem_singleton.mpr (hrec _)⟩
  · obtain rfl := Except.ok.inj hentries
    refine shows_of_optionalRec ?_ hshows
    exact List.forall_mem_singleton.mpr (hrec _)

lemma twins_reaches {i : Instance} (h : twinBodies.Reaches twins.generic i) :
    i = twins.generic ∨ i = Prelude.recursive.factory.generic := by
  induction h with
  | refl => exact Or.inl rfl
  | tail _ hchild ih =>
      obtain ⟨guarded, hexposes⟩ := hchild
      exact Or.inr (twins_exposes ih hexposes).2

/-- Twins hold the record twice, and it holds itself. It is expanded once. -/
theorem validate_opens_once_twins :
    let walked := validate twinBodies { Config.standard with debug := true } twins
    twinBodies.RespectsSame ∧
      (∀ i j, twinBodies.Reaches twins.generic i → ¬ twinBodies.BareChild i j) ∧
      (∃ d, (validate twinBodies .standard twins).result = .ok d) ∧
      (opened walked.events).map Application.factory = [twins, Prelude.recursive.factory] ∧
      ((opened walked.events).map (Quotient.mk Application.setoid)).Nodup ∧
      ∀ q, q ∈ (opened walked.events).map (Quotient.mk Application.setoid) ↔
        q ∈ twinBodies.reachable twins := by
  intro walked
  have respects := (Workspace.family_templated _ : twinBodies.Templated).respectsSame
  have hguarded : ∀ i j, twinBodies.Reaches twins.generic i → ¬ twinBodies.BareChild i j := by
    rintro i j hi ⟨-, hexposes⟩
    exact absurd (twins_exposes (twins_reaches hi) hexposes).1 (by decide)
  refine ⟨respects, hguarded, ⟨_, rfl⟩, rfl, ?_⟩
  exact validate_opens_once twinBodies respects .standard twins hguarded _ rfl

end JsonTypes
