/-
What one step of the walk over a definition does.

* `Trail.all`: the open instances, whether a guard lies behind them or not.
* `visit`: the expansion of an instance, for the instances finished afterwards.
* `Ty.walk_inst_ok`, `Ty.walk_inst_error`, `Ty.walk_inst_skipped`, `Ty.walk_inst_fresh`:
  everything that can happen where an instance is met; `Ty.walk_shows_ok`: a walk that
  succeeds passes over everything the type shows.
* `expand_ok`, `expand_error`: everything that can happen when an instance is
  expanded; `validate_ok`, `validate_error`: the same for a whole definition.
-/
import JsonTypes.Proofs.Expansion
import JsonTypes.Proofs.Traces

namespace JsonTypes

/-! ### Trails -/

namespace Trail

/-- The open instances, innermost first. -/
def all (trail : Trail) : List Instance := trail.bare ++ trail.guarded

@[simp] lemma bare_guard (trail : Trail) : trail.guard.bare = [] := rfl

@[simp] lemma all_enter (trail : Trail) (i : Instance) :
    (trail.enter i).all = i :: trail.all := by
  rw [enter]
  cases i.factory.kind <;> rfl

lemma enter_of_record (trail : Trail) {i : Instance} (h : i.factory.kind = .record) :
    trail.enter i = ⟨i :: trail.bare, trail.guarded⟩ := by
  rw [enter, h]

lemma enter_of_schema (trail : Trail) {i : Instance} (h : i.factory.kind = .schema) :
    trail.enter i = ⟨[], i :: trail.all⟩ := by
  rw [enter, h]
  rfl

lemma isIn_all {trail : Trail} {i : Instance} :
    i.isIn trail.all = true ↔ i.isIn trail.bare = true ∨ i.isIn trail.guarded = true :=
  Application.isIn_append

end Trail

/-! ### Types -/

namespace Ty

variable {root : Instance} {trail : Trail} {finished after : List Instance}
  {expand : Trail → Instance → List Instance → Traced DefinitionError (List Instance)}

lemma walk_primitive (p : Primitive) :
    (primitive p).walk root expand trail finished = pure finished := rfl

lemma walk_fields (entries : Table Ty) :
    (fields entries).walk root expand trail finished =
      Traced.thread (fun i => (entries.entry i).walk root expand trail) entries.indices
        finished := by
  cases entries
  rfl

lemma walk_param (index : ℕ) :
    (param index).walk root expand trail finished =
      if index < root.factory.arity then pure finished
      else Traced.fail (escaped root index) := rfl

lemma walk_inst (i : Instance) :
    (inst i).walk root expand trail finished =
      if i.isIn trail.bare then Traced.fail (unguarded i)
      else if i.isIn trail.guarded then
        (Traced.report (.inProgress i)).bind fun _ => pure finished
      else if trail.bare.isEmpty && i.isIn finished then pure finished
      else expand trail i finished := rfl

/-- Only the placeholders of the root are passed over. -/
lemma walk_param_ok {index : ℕ} :
    ((param index).walk root expand trail finished).result = .ok after ↔
      index < root.factory.arity ∧ finished = after := by
  rw [walk_param]
  split_ifs with h <;> simp [h]

lemma walk_param_error {index : ℕ} {e : DefinitionError} :
    ((param index).walk root expand trail finished).result = .error e ↔
      root.factory.arity ≤ index ∧ escaped root index = e := by
  rw [walk_param]
  split_ifs with h
  · simp [Nat.not_le_of_lt h]
  · simp [Nat.le_of_not_lt h]

/-- An instance that is passed over is not open without a guard. It is open
behind one, or finished while no guard is missing, or it is expanded. -/
lemma walk_inst_ok {i : Instance}
    (h : ((inst i).walk root expand trail finished).result = .ok after) :
    i.isIn trail.bare = false ∧
      ((finished = after ∧ (i.isIn trail.guarded = true ∨
          trail.bare = [] ∧ i.isIn finished = true)) ∨
        i.isIn trail.guarded = false ∧ (expand trail i finished).result = .ok after) := by
  rw [walk_inst] at h
  split_ifs at h with hbare hguarded hfinished
  · simp at h
  · rw [← Traced.bind_eq] at h
    exact ⟨by simpa using hbare, Or.inl ⟨by simpa using h, Or.inl hguarded⟩⟩
  · rw [Bool.and_eq_true, List.isEmpty_iff] at hfinished
    exact ⟨by simpa using hbare, Or.inl ⟨by simpa using h, Or.inr hfinished⟩⟩
  · exact ⟨by simpa using hbare, Or.inr ⟨by simpa using hguarded, h⟩⟩

/-- A walk fails at an instance that is open without a guard, or inside one that
is neither open nor skipped as finished, and has to be expanded. -/
lemma walk_inst_error {i : Instance} {e : DefinitionError}
    (h : ((inst i).walk root expand trail finished).result = .error e) :
    (i.isIn trail.bare = true ∧ unguarded i = e) ∨
      ¬ i.isIn trail.all = true ∧ ¬ (trail.bare = [] ∧ i.isIn finished = true) ∧
        (expand trail i finished).result = .error e := by
  rw [walk_inst] at h
  split_ifs at h with hbare hguarded hfinished
  · exact Or.inl ⟨hbare, by simpa using h⟩
  · rw [← Traced.bind_eq] at h
    simp at h
  · rw [Bool.and_eq_true, List.isEmpty_iff] at hfinished
    exact Or.inr ⟨fun hall => (Trail.isIn_all.mp hall).elim hbare hguarded, hfinished, h⟩

/-- A walk fails at an instance that is open without a guard. -/
lemma walk_inst_bare {i : Instance} (hbare : i.isIn trail.bare = true) :
    ((inst i).walk root expand trail finished).result = .error (unguarded i) := by
  rw [walk_inst, if_pos hbare]
  rfl

/-- An instance that is open behind a guard, or finished while no guard is missing, is
skipped. -/
lemma walk_inst_skipped {i : Instance} (hbare : i.isIn trail.bare = false)
    (hskip : i.isIn trail.guarded = true ∨ trail.bare = [] ∧ i.isIn finished = true) :
    ((inst i).walk root expand trail finished).result = .ok finished := by
  rw [walk_inst, if_neg (by simp [hbare])]
  split_ifs with hguarded hfinished
  · rw [← Traced.bind_eq, Traced.bind_ok]
    exact ⟨(), rfl, rfl⟩
  · rfl
  · rw [Bool.and_eq_true, List.isEmpty_iff] at hfinished
    exact absurd hskip (not_or.mpr ⟨hguarded, hfinished⟩)

/-- An instance that is neither open nor skipped as finished is expanded. -/
lemma walk_inst_fresh {i : Instance} (hfresh : ¬ i.isIn trail.all = true)
    (hunfinished : ¬ (trail.bare = [] ∧ i.isIn finished = true)) :
    (inst i).walk root expand trail finished = expand trail i finished := by
  rw [Trail.isIn_all, not_or] at hfresh
  rw [walk_inst, if_neg hfresh.1, if_neg hfresh.2, if_neg]
  rwa [Bool.and_eq_true, List.isEmpty_iff]

/-- A walk that succeeds has passed over everything that the type shows, inside
containers behind a guard. -/
lemma walk_shows_ok {t u : Ty} {guarded : Bool} (hshows : t.Shows guarded u)
    (h : (t.walk root expand trail finished).result = .ok after) :
    ∃ s s', (u.walk root expand (if guarded then trail.guard else trail) s).result = .ok s' := by
  induction hshows generalizing trail finished after with
  | here t => exact ⟨finished, after, h⟩
  | @container _ _ _ guarded _ ih =>
      obtain ⟨s, s', hs⟩ := ih h
      refine ⟨s, s', ?_⟩
      cases guarded <;> exact hs
  | @field entries i _ _ _ ih =>
      rw [walk_fields] at h
      obtain ⟨s, s', hs⟩ := Traced.exists_of_thread_ok h (List.mem_finRange i)
      exact ih hs

end Ty

/-! ### Instances -/

section Expand

variable {bodies : Family} {root i : Instance} {limit room : ℕ} {trail : Trail}
  {finished after : List Instance} {d : Description} {e : DefinitionError}

/-- The expansion of an instance, for the instances finished afterwards. -/
def visit (bodies : Family) (root : Instance) (limit room : ℕ) (trail : Trail) (i : Instance)
    (finished : List Instance) : Traced DefinitionError (List Instance) := do
  let (_, after) ← expand bodies root limit room trail i finished
  pure after

lemma visit_ok :
    (visit bodies root limit room trail i finished).result = .ok after ↔
      ∃ d, (expand bodies root limit room trail i finished).result = .ok (d, after) := by
  rw [visit, Traced.bind_ok]
  simp

lemma visit_error :
    (visit bodies root limit room trail i finished).result = .error e ↔
      (expand bodies root limit room trail i finished).result = .error e := by
  rw [visit, Traced.bind_error]
  simp

/-- Inside an instance there is room for one less. -/
lemma expand_succ :
    expand bodies root limit (room + 1) trail i finished =
      Traced.report (.expanding i trail.depth) >>= fun _ =>
        Traced.of (bodies.describe i) >>= fun d =>
          (Ty.fields d.entries).walk root (visit bodies root limit room) (trail.enter i) finished
            >>= fun after => pure (d, i :: after) := by
  simp only [Ty.walk_fields]
  rfl

lemma result_expand_succ :
    (expand bodies root limit (room + 1) trail i finished).result =
      ((Traced.of (bodies.describe i)) >>= fun d =>
        ((Ty.fields d.entries).walk root (visit bodies root limit room) (trail.enter i)
          finished) >>= fun after => pure (d, i :: after)).result := by
  rw [expand_succ]
  rfl

/-- An instance is expanded if there is room for it, its body succeeds and the
entries can be walked. Then it is finished. -/
lemma expand_ok :
    (expand bodies root limit room trail i finished).result = .ok (d, after) ↔
      ∃ below entries inner, room = below + 1 ∧ bodies i = .ok entries ∧
        d = ⟨i.text, i.factory.kind, entries⟩ ∧ after = i :: inner ∧
        ((Ty.fields entries).walk root (visit bodies root limit below) (trail.enter i)
          finished).result = .ok inner := by
  cases room with
  | zero => simp [expand]
  | succ below =>
      rw [result_expand_succ, Family.describe]
      cases hi : bodies i with
      | error e => simp [Except.map]
      | ok entries =>
          simp only [Traced.bind_ok, Traced.result_of, Except.map, Except.ok.injEq,
            Traced.result_pure, Prod.mk.injEq]
          constructor
          · rintro ⟨_, rfl, inner, hinner, rfl, rfl⟩
            exact ⟨below, entries, inner, rfl, rfl, rfl, rfl, hinner⟩
          · rintro ⟨_, _, inner, hroom, rfl, rfl, rfl, hinner⟩
            obtain rfl := Nat.succ.inj hroom
            exact ⟨_, rfl, inner, hinner, rfl, rfl⟩

/-- The expansion of an instance fails if there is no room for it, if its body
fails, or where the walk over its entries fails. -/
lemma expand_error :
    (expand bodies root limit room trail i finished).result = .error e ↔
      (room = 0 ∧ tooDeep root i limit = e) ∨ ∃ below, room = below + 1 ∧
        (bodies i = .error e ∨ ∃ entries, bodies i = .ok entries ∧
          ((Ty.fields entries).walk root (visit bodies root limit below) (trail.enter i)
            finished).result = .error e) := by
  cases room with
  | zero => simp [expand]
  | succ below =>
      rw [result_expand_succ, Family.describe]
      cases hi : bodies i <;> simp [Except.map]

/-! ### Definitions -/

lemma validate_result (config : Config) (f : Factory) :
    (validate bodies config f).result =
      (expand bodies f.generic config.maxDepth config.maxDepth ⟨[], []⟩ f.generic []).result.map
        Prod.fst := by
  rw [validate, Traced.result_shown, Factory.walk, Traced.bind_eq, Traced.bind]
  cases (expand bodies f.generic config.maxDepth config.maxDepth ⟨[], []⟩ f.generic []).result <;>
    rfl

lemma validate_ok {config : Config} {f : Factory} :
    (validate bodies config f).result = .ok d ↔ ∃ after,
      (expand bodies f.generic config.maxDepth config.maxDepth ⟨[], []⟩ f.generic []).result =
        .ok (d, after) := by
  rw [validate_result]
  cases (expand bodies f.generic config.maxDepth config.maxDepth ⟨[], []⟩ f.generic []).result <;>
    simp [Except.map, Prod.ext_iff]

lemma validate_error {config : Config} {f : Factory} :
    (validate bodies config f).result = .error e ↔
      (expand bodies f.generic config.maxDepth config.maxDepth ⟨[], []⟩ f.generic []).result =
        .error e := by
  rw [validate_result]
  cases (expand bodies f.generic config.maxDepth config.maxDepth ⟨[], []⟩ f.generic []).result <;>
    simp [Except.map]

end Expand

end JsonTypes
