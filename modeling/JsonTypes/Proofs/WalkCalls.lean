/-
The walk over a definition ends, also where instances are reachable without end.

A call of the walk either passes over a type with the same room for instances, and then
into a smaller one, or it opens an instance, and then there is less room. The open
instances are a branch at every moment, so they differ, and there are no more of them
than the limit allows.

* `WalkCall`, `Subcall`: the calls of a walk, and those that a call makes directly.
* `subcall_wellFounded`: there is no endless chain of calls.
* `WalkCall.mem_events_iff`: the calls are the ones that report; nothing else does.
* `WalkCall.Sound`: what holds of every call, `Sound.subcall` of the next one.
* `Family.reachable`: the reachable instances up to the order of fields.
* `validate_ends`: all of this, and that no limit makes up for an infinite definition.
-/
import JsonTypes.Proofs.CheckExpansions
import JsonTypes.Proofs.WalkErrors
import Mathlib.Data.Set.Finite.Basic

namespace JsonTypes

open Relation

/-! ### Calls -/

/-- A call of the walk, with room for so many more open instances, below the open
instances of a trail. -/
inductive WalkCall where
  /-- The walk passes over a type. -/
  | passing (room : ℕ) (trail : Trail) (t : Ty) (finished : List Instance)
  /-- The walk goes into an instance. -/
  | entering (room : ℕ) (trail : Trail) (i : Instance) (finished : List Instance)

namespace WalkCall

/-- The instances that are open at a call, innermost first. -/
def stack : WalkCall → List Instance
  | passing _ trail _ _ | entering _ trail _ _ => trail.all

/-- What a call does. -/
def run (bodies : Family) (root : Instance) (limit : ℕ) :
    WalkCall → Traced DefinitionError (List Instance)
  | passing room trail t finished => t.walk root (visit bodies root limit room) trail finished
  | entering room trail i finished => visit bodies root limit room trail i finished

/-- What a call itself reports: the instance that it goes into, if there is room for it, or
the instance that it meets behind a guard while it is open. -/
def report? : WalkCall → Option Event
  | entering (_ + 1) trail i _ => some (.expanding i trail.depth)
  | passing _ trail (.inst i) _ =>
    if ¬ i.isIn trail.bare ∧ i.isIn trail.guarded then some (.inProgress i) else none
  | _ => none

/-- The call for the definition of a factory. -/
def start (f : Factory) (limit : ℕ) : WalkCall :=
  entering limit ⟨[], []⟩ f.generic []

end WalkCall

/-- A call of the walk makes another call. -/
inductive Subcall (bodies : Family) (root : Instance) (limit : ℕ) : WalkCall → WalkCall → Prop where
  | container {room : ℕ} {c : Container} {t : Ty} {trail : Trail} {finished : List Instance} :
      Subcall bodies root limit (.passing room trail.guard t finished)
        (.passing room trail (.container c t) finished)
  /-- The walk has passed over the entries before. -/
  | entry {room : ℕ} {entries : Table Ty} {before after : List entries.names.Index}
      {k : entries.names.Index} {trail : Trail} {finished passed : List Instance}
      (split : entries.indices = before ++ k :: after)
      (run : (Traced.thread (fun l => (entries.entry l).walk root (visit bodies root limit room)
        trail) before finished).result = .ok passed) :
      Subcall bodies root limit (.passing room trail (entries.entry k) passed)
        (.passing room trail (.fields entries) finished)
  /-- The instance is neither open nor skipped as finished. -/
  | inst {room : ℕ} {i : Instance} {trail : Trail} {finished : List Instance}
      (fresh : ¬ i.isIn trail.all = true)
      (unfinished : ¬ (trail.bare = [] ∧ i.isIn finished = true)) :
      Subcall bodies root limit (.entering room trail i finished) (.passing room trail (.inst i) finished)
  /-- Inside an instance there is room for one less. -/
  | body {room : ℕ} {i : Instance} {entries : Table Ty} {trail : Trail} {finished : List Instance}
      (expands : bodies i = .ok entries) :
      Subcall bodies root limit (.passing room (trail.enter i) (.fields entries) finished)
        (.entering (room + 1) trail i finished)

variable {bodies : Family} {root : Instance} {limit : ℕ}

/-! ### Termination -/

/-- Passing over a type comes to an end if going into instances does. The induction is on
the type: with the same room, the walk only passes over parts of it. -/
lemma Subcall.acc_passing {room : ℕ}
    (inside : ∀ trail i finished,
      Acc (Subcall bodies root limit) (.entering room trail i finished))
    (t : Ty) (trail : Trail) (finished : List Instance) :
    Acc (Subcall bodies root limit) (.passing room trail t finished) := by
  induction t generalizing trail finished with
  | primitive p => exact .intro _ fun call h => nomatch h
  | container c t ih =>
      refine .intro _ fun call h => ?_
      cases h with
      | container => exact ih _ _
  | fields entries ih =>
      refine .intro _ fun call h => ?_
      cases h with
      | entry => exact ih _ _ _
  | inst i =>
      refine .intro _ fun call h => ?_
      cases h with
      | inst => exact inside _ _ _
  | param index => exact .intro _ fun call h => nomatch h

/-- Going into an instance comes to an end, since there is less room inside. -/
lemma Subcall.acc_entering (room : ℕ) (trail : Trail) (i : Instance) (finished : List Instance) :
    Acc (Subcall bodies root limit) (.entering room trail i finished) := by
  induction room generalizing trail i finished with
  | zero => exact .intro _ fun call h => nomatch h
  | succ room ih =>
      refine .intro _ fun call h => ?_
      cases h with
      | body => exact Subcall.acc_passing ih _ _ _

/-- **There is no endless chain of calls**, whatever the bodies are. -/
lemma subcall_wellFounded : WellFounded (Subcall bodies root limit) := by
  refine ⟨fun call => ?_⟩
  cases call with
  | passing room trail t finished => exact Subcall.acc_passing (Subcall.acc_entering room) t trail finished
  | entering room trail i finished => exact Subcall.acc_entering room trail i finished

/-! ### Reports -/

section Reports

variable {room : ℕ} {trail : Trail} {i : Instance} {finished : List Instance} {event : Event}

/-- The expansion of an instance is the walk over its fields or variants. -/
lemma visit_succ :
    visit bodies root limit (room + 1) trail i finished =
      (Traced.report (.expanding i trail.depth) >>= fun _ =>
        Traced.of (bodies.describe i) >>= fun d =>
          (Ty.fields d.entries).walk root (visit bodies root limit room) (trail.enter i) finished
            >>= fun after => pure (d, i :: after)) >>= fun pair => pure pair.2 := by
  rw [visit, expand_succ]

lemma events_visit_succ :
    (visit bodies root limit (room + 1) trail i finished).events =
      .expanding i trail.depth :: match bodies i with
        | .ok entries => ((Ty.fields entries).walk root (visit bodies root limit room)
            (trail.enter i) finished).events
        | .error _ => [] := by
  rw [visit_succ, Traced.events_bind_pure, Traced.events_bind_ok rfl, Family.describe]
  cases bodies i with
  | error e => rfl
  | ok entries =>
      simp only [Except.map, Traced.of_ok_bind, Traced.events_bind_pure]
      rfl

lemma mem_events_visit_succ :
    event ∈ (visit bodies root limit (room + 1) trail i finished).events ↔
      .expanding i trail.depth = event ∨ ∃ entries, bodies i = .ok entries ∧
        event ∈ ((Ty.fields entries).walk root (visit bodies root limit room) (trail.enter i)
          finished).events := by
  rw [visit_succ, Traced.events_bind_pure, Traced.mem_events_bind, Family.describe]
  cases hi : bodies i with
  | error e => simp [Traced.report, Traced.of, Except.map, Traced.mem_events_bind, eq_comm]
  | ok entries =>
      simp [Traced.report, Except.map, Traced.of_ok_bind, Traced.events_bind_pure, eq_comm]

/-- Where an instance is met, it is reported if it is open behind a guard, and expanded if
it is neither open nor skipped as finished. -/
lemma mem_events_walk_inst :
    event ∈ ((Ty.inst i).walk root (visit bodies root limit room) trail finished).events ↔
      ((¬ i.isIn trail.bare = true ∧ i.isIn trail.guarded = true) ∧ .inProgress i = event) ∨
        (¬ i.isIn trail.all = true ∧ ¬ (trail.bare = [] ∧ i.isIn finished = true)) ∧
          event ∈ (visit bodies root limit room trail i finished).events := by
  rw [Ty.walk_inst, Trail.isIn_all]
  split_ifs with hbare hguarded hfinished
  · simp [hbare, Traced.fail]
  · rw [← Traced.bind_eq, Traced.events_bind_pure _ fun _ => finished]
    simp [hbare, hguarded, Traced.report, @eq_comm _ event]
  · rw [Bool.and_eq_true, List.isEmpty_iff] at hfinished
    refine iff_of_false List.not_mem_nil ?_
    rintro (⟨⟨-, h⟩, -⟩ | ⟨⟨-, h⟩, -⟩)
    · exact hguarded h
    · exact h hfinished
  · rw [Bool.and_eq_true, List.isEmpty_iff] at hfinished
    simp [hbare, hguarded, hfinished]

end Reports

namespace WalkCall

/-- The events of a call are its own report and those of the calls that it makes. -/
lemma mem_events_step {call : WalkCall} {event : Event} :
    event ∈ (call.run bodies root limit).events ↔
      call.report? = some event ∨
        ∃ inner, Subcall bodies root limit inner call ∧
          event ∈ (inner.run bodies root limit).events := by
  cases call with
  | entering room trail i finished =>
      cases room with
      | zero => exact iff_of_false List.not_mem_nil (by rintro (h | ⟨_, h, -⟩) <;> cases h)
      | succ room =>
          rw [run, mem_events_visit_succ, report?, Option.some.injEq]
          refine or_congr_right ⟨?_, ?_⟩
          · rintro ⟨entries, hi, hevent⟩
            exact ⟨_, .body hi, hevent⟩
          · rintro ⟨inner, hcall, hevent⟩
            cases hcall with
            | body hi => exact ⟨_, hi, hevent⟩
  | passing room trail t finished =>
      cases t with
      | primitive p => exact iff_of_false List.not_mem_nil (by rintro (h | ⟨_, h, -⟩) <;> cases h)
      | container c t =>
          refine ⟨fun h => Or.inr ⟨_, .container, h⟩, ?_⟩
          rintro (h | ⟨inner, hcall, hevent⟩)
          · cases h
          · cases hcall with
            | container => exact hevent
      | fields entries =>
          rw [run, Ty.walk_fields, Traced.mem_events_thread]
          constructor
          · rintro ⟨before, k, after, passed, hsplit, hrun, hevent⟩
            exact Or.inr ⟨_, .entry hsplit hrun, hevent⟩
          · rintro (h | ⟨inner, hcall, hevent⟩)
            · cases h
            · cases hcall with
              | entry hsplit hrun => exact ⟨_, _, _, _, hsplit, hrun, hevent⟩
      | inst i =>
          rw [run, mem_events_walk_inst, report?]
          refine or_congr (by simp) ⟨?_, ?_⟩
          · rintro ⟨⟨hfresh, hunfinished⟩, hevent⟩
            exact ⟨_, .inst hfresh hunfinished, hevent⟩
          · rintro ⟨inner, hcall, hevent⟩
            cases hcall with
            | inst hfresh hunfinished => exact ⟨⟨hfresh, hunfinished⟩, hevent⟩
      | param index =>
          refine iff_of_false ?_ (by rintro (h | ⟨_, h, -⟩) <;> cases h)
          rw [run, Ty.walk_param]
          split_ifs <;> exact List.not_mem_nil

/-- **The events of a walk are the reports of its calls.** -/
lemma mem_events_iff {call : WalkCall} {event : Event} :
    event ∈ (call.run bodies root limit).events ↔
      ∃ inner, ReflTransGen (Subcall bodies root limit) inner call ∧
        inner.report? = some event := by
  constructor
  · have hends : WellFounded (Subcall bodies root limit) := subcall_wellFounded
    induction call using hends.induction with
    | _ call ih =>
      intro hevent
      rcases mem_events_step.mp hevent with hreport | ⟨inner, hcall, hevent⟩
      · exact ⟨call, .refl, hreport⟩
      · obtain ⟨deep, hdeep, hreport⟩ := ih inner hcall hevent
        exact ⟨deep, hdeep.tail hcall, hreport⟩
  · rintro ⟨inner, hcalls, hreport⟩
    induction hcalls with
    | refl => exact mem_events_step.mpr (Or.inl hreport)
    | tail _ hcall ih => exact mem_events_step.mpr (Or.inr ⟨_, hcall, ih⟩)

/-! ### Every call -/

/-- A call is where the walk over the definition of the root can be: the open instances are a
branch that leads there, and so many more fit below the limit. -/
def Sound (bodies : Family) (root : Instance) (limit : ℕ) : WalkCall → Prop
  | passing room trail t _ => trail.LeadsTo bodies root t ∧ trail.all.length + room = limit
  | entering room trail i _ => trail.Admits bodies root i ∧ trail.all.length + room = limit

lemma sound_start (f : Factory) : (start f limit).Sound bodies f.generic limit :=
  ⟨⟨.root, by simp⟩, by simp [Trail.all]⟩

/-- Calls lead to where the walk can be. -/
lemma Sound.subcall {call inner : WalkCall} (h : call.Sound bodies root limit)
    (hcall : Subcall bodies root limit inner call) : inner.Sound bodies root limit := by
  cases hcall with
  | container => exact ⟨h.1.guard, h.2⟩
  | entry => exact ⟨h.1.field _, h.2⟩
  | inst hfresh => exact ⟨h.1.admits hfresh, h.2⟩
  | body hi =>
      refine ⟨h.1.enter hi, ?_⟩
      rw [Trail.all_enter, List.length_cons]
      exact (Nat.succ_add_eq_add_succ ..).trans h.2

/-- **Every call of a walk** is where the walk can be. -/
lemma Sound.subcalls {call inner : WalkCall} (h : call.Sound bodies root limit)
    (hcalls : ReflTransGen (Subcall bodies root limit) inner call) :
    inner.Sound bodies root limit := by
  induction hcalls using ReflTransGen.head_induction_on with
  | refl => exact h
  | head hcall _ ih => exact ih.subcall hcall

/-- The open instances differ, and fit below the limit. -/
lemma Sound.stack {call : WalkCall} (h : call.Sound bodies root limit) :
    (call.stack.map (Quotient.mk Application.setoid)).Nodup ∧ call.stack.length ≤ limit := by
  cases call with
  | passing => exact ⟨h.1.branch.nodup, (Nat.le_add_right ..).trans_eq h.2⟩
  | entering => exact ⟨h.1.branch.nodup.of_cons, (Nat.le_add_right ..).trans_eq h.2⟩

end WalkCall

/-! ### The main statement -/

/-- The reports of the walk over a definition are those of its calls, and the last one that
the definition is well-formed, if it is. -/
lemma events_validate (bodies : Family) (config : Config) (f : Factory) :
    (validate bodies { config with debug := true } f).events =
      ((WalkCall.start f config.maxDepth).run bodies f.generic config.maxDepth).events ++
        match (validate bodies config f).result with
        | .ok d => [.wellFormed d]
        | .error _ => [] := by
  have hshown : (validate bodies { config with debug := true } f).events =
      (f.walk bodies config.maxDepth).events := rfl
  rw [hshown, Factory.walk, WalkCall.start, WalkCall.run, visit,
    Traced.events_bind_pure _ Prod.snd, validate_result]
  cases h : (expand bodies f.generic config.maxDepth config.maxDepth ⟨[], []⟩ f.generic
      []).result with
  | error e => rw [Traced.events_bind_error h, Except.map, List.append_nil]
  | ok pair =>
      rw [Traced.events_bind_ok h, Except.map]
      rfl

/-- What the walk over a definition reports. -/
lemma mem_events_validate {config : Config} {f : Factory} {event : Event} :
    event ∈ (validate bodies { config with debug := true } f).events ↔
      event ∈ ((WalkCall.start f config.maxDepth).run bodies f.generic config.maxDepth).events ∨
        ∃ d, (validate bodies config f).result = .ok d ∧ event = .wellFormed d := by
  rw [events_validate, List.mem_append]
  refine or_congr_right ?_
  cases (validate bodies config f).result <;> simp

/-- The instances that the definition of a factory reaches at its placeholders, up to the
order of fields. -/
def Family.reachable (bodies : Family) (f : Factory) : Set (Quotient Application.setoid) :=
  Quotient.mk Application.setoid '' { i | bodies.Reaches f.generic i }

/-- A definition that is accepted reaches finitely many instances. -/
lemma Family.reachable_finite (respects : bodies.RespectsSame) {config : Config} {f : Factory}
    {d : Description} (h : (validate bodies config f).result = .ok d) :
    (bodies.reachable f).Finite := by
  obtain ⟨list, hlist⟩ := (wellFormed_of_validate respects h).finite
  refine (list.map (Quotient.mk Application.setoid)).finite_toSet.subset ?_
  rintro _ ⟨i, hi, rfl⟩
  obtain ⟨j, hj, hji⟩ := Application.isIn_iff.mp (hlist i hi)
  exact List.mem_map.mpr ⟨j, hj, Quotient.sound hji⟩

/-- **The walk over a definition always ends**, whatever the bodies are: there is no endless
chain of calls. At every call the open instances differ, and they fit below the limit. These
are the calls that the walk reports. If instances are reachable without end, then no limit is
large enough for the definition to be accepted. -/
theorem validate_ends (bodies : Family) (config : Config) (f : Factory) :
    let calls := Subcall bodies f.generic config.maxDepth
    let start := WalkCall.start f config.maxDepth
    Acc calls start ∧
      (∀ call, ReflTransGen calls call start →
        (call.stack.map (Quotient.mk Application.setoid)).Nodup ∧
          call.stack.length ≤ config.maxDepth) ∧
      (∀ event, event ∈ (validate bodies { config with debug := true } f).events ↔
        (∃ call, ReflTransGen calls call start ∧ call.report? = some event) ∨
          ∃ d, (validate bodies config f).result = .ok d ∧ event = .wellFormed d) ∧
      (bodies.RespectsSame → (bodies.reachable f).Infinite →
        ∃ e, (validate bodies config f).result = .error e) := by
  refine ⟨subcall_wellFounded.apply _, fun call hcalls => ?_, fun event => ?_,
    fun respects hinfinite => ?_⟩
  · exact ((WalkCall.sound_start f).subcalls hcalls).stack
  · rw [mem_events_validate, WalkCall.mem_events_iff]
  · cases h : (validate bodies config f).result with
    | error e => exact ⟨e, rfl⟩
    | ok d => exact absurd (Family.reachable_finite respects h) hinfinite

/-! ### A definition without end -/

/-- Rows of rows of the placeholder. -/
def rows : ℕ → Ty
  | 0 => .param 0
  | n + 1 => .container .repeated (rows n)

/-- The record that requires itself, at so many rows of the placeholder. -/
def endlessAt (n : ℕ) : Instance := ⟨endless, fun _ => rows n⟩

lemma rows_injective {n m : ℕ} (h : (rows n).Alike (rows m)) : n = m := by
  induction n generalizing m with
  | zero =>
      cases m with
      | zero => rfl
      | succ m => cases h
  | succ n ih =>
      cases m with
      | zero => cases h
      | succ m =>
          cases h with
          | container h => rw [ih h]

lemma endlessAt_expands (n : ℕ) :
    endlessBodies (endlessAt n) =
      .ok (Table.ofList [("next", .inst (endlessAt (n + 1)))]) := by
  have hnext : (⟨endless, fun k => [Ty.container .repeated (rows n)][k]⟩ : Instance) =
      endlessAt (n + 1) := Application.ext_unary rfl rfl
  rw [← hnext]
  rfl

lemma reaches_endlessAt (n : ℕ) : endlessBodies.Reaches endless.generic (endlessAt n) := by
  induction n with
  | zero =>
      have hgeneric : endless.generic = endlessAt 0 := Application.ext_unary rfl rfl
      exact hgeneric ▸ .refl
  | succ n ih =>
      refine ih.tail ⟨false, _, endlessAt_expands n, ?_⟩
      exact @Ty.Shows.field (Table.ofList [("next", .inst (endlessAt (n + 1)))])
        ⟨0, Nat.one_pos⟩ _ _ (.here _)

/-- Every further instance of the record is another one. -/
lemma endless_infinite : (endlessBodies.reachable endless).Infinite := by
  refine Set.infinite_of_injective_forall_mem
    (f := fun n => Quotient.mk Application.setoid (endlessAt n)) (fun n m h => ?_)
    fun n => ⟨_, reaches_endlessAt n, rfl⟩
  cases Application.same_iff.mp (Quotient.exact h) with
  | inst hargs => exact rows_injective (hargs ⟨0, Nat.one_pos⟩)

/-- No limit is large enough for the record that requires itself at ever larger arguments. -/
theorem validate_ends_endless :
    endlessBodies.RespectsSame ∧ (endlessBodies.reachable endless).Infinite ∧
      ∀ limit, ∃ e, (validate endlessBodies { Config.standard with maxDepth := limit }
        endless).result = .error e := by
  have respects : endlessBodies.RespectsSame := (Workspace.family_templated _).respectsSame
  refine ⟨respects, endless_infinite, fun limit => ?_⟩
  exact (validate_ends endlessBodies { Config.standard with maxDepth := limit } endless).2.2.2
    respects endless_infinite

end JsonTypes
