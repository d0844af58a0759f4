/-
Results of traced computations.

A computation in several steps succeeds if and only if every step does, and
fails as the first failing step does. What the events say plays no part in that.

* `except_bind_ok`, `except_map_ok`, `except_mapM_ok`: results without events.
* `members_related`: the members of two related lists.
* `Fails`, `fails_bind`, `fails_mapM`: that there is no result, whatever the error is.
* `Traced.bind_ok`, `Traced.bind_error`: two steps.
* `Traced.mem_events_bind`, `Traced.mem_events_thread`: where an event comes from.
* `Traced.forEach_ok`, `Traced.forEach_error`, `Traced.forEach_congr`: runs over a list;
  `Traced.forEach_finRange_error`, `Traced.forEach_finRange_fails`: one over all positions.
* `Traced.events_bind_ok`, `Traced.events_forEach`: the events of computations that succeed.
* `Traced.thread_ok`, `Traced.thread_error_iff`: a run over a list that hands a state
  on, with an invariant of the state; `Traced.thread_simulates`, `Traced.thread_congr`:
  two such runs side by side.
-/
import JsonTypes.Trace
import Mathlib.Data.List.Forall2
import Mathlib.Tactic.Lemma

namespace JsonTypes

variable {ε ε' α β ι : Type}

@[simp] lemma mapError_ok_eq (f : ε → ε') (a : α) :
    (Except.ok a : Except ε α).mapError f = .ok a := rfl

@[simp] lemma mapError_error_eq (f : ε → ε') (error : ε) :
    (Except.error error : Except ε α).mapError f = .error (f error) := rfl

lemma map_ok_eq (f : α → β) (a : α) : (Except.ok a : Except ε α).map f = .ok (f a) := rfl

lemma except_bind_ok {first : Except ε α} {next : α → Except ε β} {b : β} :
    first >>= next = .ok b ↔ ∃ a, first = .ok a ∧ next a = .ok b := by
  cases first <;> simp [bind, Except.bind]

lemma except_bind_error {first : Except ε α} {next : α → Except ε β} {error : ε} :
    first >>= next = .error error ↔
      first = .error error ∨ ∃ a, first = .ok a ∧ next a = .error error := by
  cases first <;> simp [bind, Except.bind]

lemma except_map_ok {f : α → β} {result : Except ε α} {b : β} :
    result.map f = .ok b ↔ ∃ a, result = .ok a ∧ f a = b := by
  cases result <;> simp [Except.map]

lemma except_mapError_ok {f : ε → ε'} {result : Except ε α} {a : α} :
    result.mapError f = .ok a ↔ result = .ok a := by
  cases result <;> simp

/-- The members of two related lists are related, each to one of the others. -/
lemma members_related {α β : Type} {R : α → β → Prop} {as : List α} {bs : List β}
    (h : List.Forall₂ R as bs) : (∀ a ∈ as, ∃ b ∈ bs, R a b) ∧ ∀ b ∈ bs, ∃ a ∈ as, R a b := by
  induction h with
  | nil => simp
  | cons hab _ ih =>
      refine ⟨List.forall_mem_cons.mpr ⟨⟨_, List.mem_cons_self, hab⟩, fun a ha => ?_⟩,
        List.forall_mem_cons.mpr ⟨⟨_, List.mem_cons_self, hab⟩, fun b hb => ?_⟩⟩
      · obtain ⟨b, hb, hab⟩ := ih.1 a ha
        exact ⟨b, List.mem_cons_of_mem _ hb, hab⟩
      · obtain ⟨a, ha, hab⟩ := ih.2 b hb
        exact ⟨a, List.mem_cons_of_mem _ ha, hab⟩

/-- Single results make up the result for a list. -/
lemma except_mapM_ok {f : α → Except ε β} {list : List α} {results : List β} :
    list.mapM f = .ok results ↔ List.Forall₂ (fun a b => f a = .ok b) list results := by
  induction list generalizing results with
  | nil => simp [pure, Except.pure, eq_comm]
  | cons a rest ih =>
      simp only [List.mapM_cons, except_bind_ok, pure, Except.pure, Except.ok.injEq, ih,
        List.forall₂_cons_left_iff]
      constructor
      · rintro ⟨b, hb, later, hlater, rfl⟩
        exact ⟨b, later, hb, hlater, rfl⟩
      · rintro ⟨b, later, hb, hlater, rfl⟩
        exact ⟨b, hb, later, hlater, rfl⟩

/-! ### Failures -/

/-- There is an error instead of a result. -/
def Fails (result : Except ε α) : Prop :=
  ∃ error, result = .error error

@[simp] lemma fails_error (error : ε) : Fails (.error error : Except ε α) := ⟨error, rfl⟩

@[simp] lemma not_fails_ok (a : α) : ¬ Fails (.ok a : Except ε α) := nofun

lemma Fails.ne_ok {result : Except ε α} {a : α} (h : Fails result) : result ≠ .ok a := by
  rintro rfl
  exact not_fails_ok a h

lemma not_fails_iff {result : Except ε α} : ¬ Fails result ↔ ∃ a, result = .ok a := by
  cases result <;> simp

@[simp] lemma fails_mapError {f : ε → ε'} {result : Except ε α} :
    Fails (result.mapError f) ↔ Fails result := by
  cases result <;> simp

lemma fails_bind {first : Except ε α} {next : α → Except ε β} :
    Fails (first >>= next) ↔ Fails first ∨ ∃ a, first = .ok a ∧ Fails (next a) := by
  cases first <;> simp [bind, Except.bind]

/-- A single failure, wherever it is, leaves no result for a list. -/
lemma fails_mapM {f : α → Except ε β} {list : List α} :
    Fails (list.mapM f) ↔ ∃ a ∈ list, Fails (f a) := by
  induction list with
  | nil => simp [pure, Except.pure]
  | cons a rest ih =>
      rw [List.mapM_cons, fails_bind, List.exists_mem_cons_iff, ← ih]
      cases h : f a with
      | error error => simp
      | ok b => simp [fails_bind, pure, Except.pure]

namespace Traced

@[simp] lemma result_pure (a : α) : (pure a : Traced ε α).result = .ok a := rfl

@[simp] lemma result_of (result : Except ε α) : (of result).result = result := rfl

@[simp] lemma result_fail (error : ε) : (fail error : Traced ε α).result = .error error := rfl

@[simp] lemma result_report (event : Event) : (report event : Traced ε Unit).result = .ok () :=
  rfl

/-- Showing events or not leaves the result as it is. -/
@[simp] lemma result_shown (visible : Bool) (run : Traced ε α) :
    (run.shown visible).result = run.result := by
  cases visible <;> rfl

lemma bind_eq (first : Traced ε α) (next : α → Traced ε β) : first >>= next = first.bind next :=
  rfl

lemma of_ok_bind (a : α) (next : α → Traced ε β) : of (.ok a) >>= next = next a := rfl

lemma of_error_bind (error : ε) (next : α → Traced ε β) :
    of (.error error) >>= next = of (.error error) := rfl

/-- Two steps succeed if and only if both do. -/
@[simp] lemma bind_ok {first : Traced ε α} {next : α → Traced ε β} {b : β} :
    (first >>= next).result = .ok b ↔
      ∃ a, first.result = .ok a ∧ (next a).result = .ok b := by
  rw [bind_eq, bind]
  cases h : first.result with
  | error error => simp
  | ok a => simp

/-- Two steps fail with the failure of the first, or of the second once the
first has succeeded. -/
@[simp] lemma bind_error {first : Traced ε α} {next : α → Traced ε β} {error : ε} :
    (first >>= next).result = .error error ↔
      first.result = .error error ∨
        ∃ a, first.result = .ok a ∧ (next a).result = .error error := by
  rw [bind_eq, bind]
  cases h : first.result with
  | error other => simp
  | ok a => simp

lemma fails_bind {first : Traced ε α} {next : α → Traced ε β} :
    Fails (first >>= next).result ↔
      Fails first.result ∨ ∃ a, first.result = .ok a ∧ Fails (next a).result := by
  rw [bind_eq, bind]
  cases h : first.result <;> simp

@[simp] lemma result_mapError (f : ε → ε') (run : Traced ε α) :
    (run.mapError f).result = run.result.mapError f := rfl

lemma mapError_ok {f : ε → ε'} {run : Traced ε α} {a : α} :
    (run.mapError f).result = .ok a ↔ run.result = .ok a :=
  except_mapError_ok

lemma mapError_error {f : ε → ε'} {run : Traced ε α} {error : ε'} :
    (run.mapError f).result = .error error ↔ ∃ e, run.result = .error e ∧ f e = error := by
  rw [result_mapError]
  cases run.result <;> simp

/-! ### Events -/

/-- What is done to a result in the end leaves the events as they are. -/
lemma events_bind_pure (run : Traced ε α) (f : α → β) :
    (run >>= fun a => (pure (f a) : Traced ε β)).events = run.events := by
  rw [bind_eq, bind]
  cases run.result with
  | error e => rfl
  | ok a => exact List.append_nil _

/-- The events of two steps, the first of which succeeds. -/
lemma events_bind_ok {first : Traced ε α} {next : α → Traced ε β} {a : α}
    (h : first.result = .ok a) : (first >>= next).events = first.events ++ (next a).events := by
  rw [bind_eq, bind, h]

/-- The events of two steps, the first of which fails. -/
lemma events_bind_error {first : Traced ε α} {next : α → Traced ε β} {error : ε}
    (h : first.result = .error error) : (first >>= next).events = first.events := by
  rw [bind_eq, bind, h]

/-- The events of two steps are those of the first, and those of the second once the first
has succeeded. -/
lemma mem_events_bind {first : Traced ε α} {next : α → Traced ε β} {event : Event} :
    event ∈ (first >>= next).events ↔
      event ∈ first.events ∨ ∃ a, first.result = .ok a ∧ event ∈ (next a).events := by
  rw [bind_eq, bind]
  cases first.result with
  | error e => simp
  | ok a => simp

/-! ### Runs over lists -/

/-- A run over a list succeeds if and only if it does at every item. -/
lemma forEach_ok {run : ι → Traced ε Unit} {list : List ι} :
    (forEach run list).result = .ok () ↔ ∀ i ∈ list, (run i).result = .ok () := by
  induction list with
  | nil => simp [forEach]
  | cons i rest ih =>
      rw [forEach, ← bind_eq, bind_ok, ih, List.forall_mem_cons]
      exact ⟨fun ⟨(), h⟩ => h, fun h => ⟨(), h⟩⟩

/-- A run over a list fails if and only if it does at some item. -/
lemma fails_forEach {run : ι → Traced ε Unit} {list : List ι} :
    Fails (forEach run list).result ↔ ∃ i ∈ list, Fails (run i).result := by
  induction list with
  | nil => simp [forEach]
  | cons i rest ih =>
      rw [forEach, ← bind_eq, fails_bind, List.exists_mem_cons_iff, ← ih]
      cases h : (run i).result <;> simp

/-- The events of a run over a list that succeeds, item by item. -/
lemma events_forEach {run : ι → Traced ε Unit} {list : List ι}
    (h : ∀ i ∈ list, (run i).result = .ok ()) :
    (forEach run list).events = list.flatMap fun i => (run i).events := by
  induction list with
  | nil => rfl
  | cons i rest ih =>
      obtain ⟨hi, hrest⟩ := List.forall_mem_cons.mp h
      rw [forEach, ← bind_eq, events_bind_ok hi, ih hrest, List.flatMap_cons]

/-- Two runs over a list are the same if they are at every item. -/
lemma forEach_congr {run run' : ι → Traced ε Unit} {list : List ι}
    (single : ∀ i ∈ list, run i = run' i) : forEach run list = forEach run' list := by
  induction list with
  | nil => rfl
  | cons i rest ih =>
      have hrest := ih fun j hj => single j (List.mem_cons_of_mem i hj)
      rw [forEach, forEach, single i List.mem_cons_self, hrest]

/-- A run over a list fails as it does at the first item where it fails. -/
lemma forEach_error {run : ι → Traced ε Unit} {list : List ι} {error : ε} :
    (forEach run list).result = .error error ↔
      ∃ before i after, list = before ++ i :: after ∧
        (∀ j ∈ before, (run j).result = .ok ()) ∧ (run i).result = .error error := by
  induction list with
  | nil => simp [forEach]
  | cons i rest ih =>
      rw [forEach, ← bind_eq, bind_error, ih]
      constructor
      · rintro (h | ⟨a, ha, before, j, after, rfl, hok, hj⟩)
        · exact ⟨[], i, rest, rfl, by simp, h⟩
        · exact ⟨i :: before, j, after, rfl, List.forall_mem_cons.mpr ⟨ha, hok⟩, hj⟩
      · rintro ⟨before, j, after, hlist, hok, hj⟩
        cases before with
        | nil =>
            obtain ⟨rfl, -⟩ := List.cons.inj hlist
            exact Or.inl hj
        | cons first before =>
            obtain ⟨rfl, rfl⟩ := List.cons.inj hlist
            obtain ⟨hfirst, hok⟩ := List.forall_mem_cons.mp hok
            exact Or.inr ⟨(), hfirst, before, j, after, rfl, hok, hj⟩

/-- A run over all positions in order fails as it does at the first position where it
fails. -/
lemma forEach_finRange_error {n : ℕ} {run : Fin n → Traced ε Unit} {error : ε}
    (h : (forEach run (List.finRange n)).result = .error error) :
    ∃ k, (run k).result = .error error ∧ ∀ i < k, (run i).result = .ok () := by
  obtain ⟨before, k, after, hsplit, hbefore, hk⟩ := forEach_error.mp h
  refine ⟨k, hk, fun i hi => hbefore i ?_⟩
  have hsorted := List.pairwise_lt_finRange n
  have hmem := List.mem_finRange i
  rw [hsplit] at hsorted hmem
  rcases List.mem_append.mp hmem with hmem | hmem
  · exact hmem
  · -- what stands behind the position is larger
    have hafter := (List.pairwise_cons.mp (List.pairwise_append.mp hsorted).2.1).1
    rcases List.mem_cons.mp hmem with rfl | hmem
    · exact absurd hi (Nat.lt_irrefl i)
    · exact absurd hi (Nat.lt_asymm (hafter i hmem))

/-- A run over all positions in order fails as it does at a position, if the positions in
front of it succeed. -/
lemma forEach_finRange_fails {n : ℕ} {run : Fin n → Traced ε Unit} {k : Fin n} {error : ε}
    (fails : (run k).result = .error error) (before : ∀ i < k, (run i).result = .ok ()) :
    (forEach run (List.finRange n)).result = .error error := by
  obtain ⟨front, after, hsplit⟩ := List.append_of_mem (List.mem_finRange k)
  refine forEach_error.mpr ⟨front, k, after, hsplit, fun i hi => before i ?_, fails⟩
  have hsorted := List.pairwise_lt_finRange n
  rw [hsplit] at hsorted
  exact (List.pairwise_append.mp hsorted).2.2 i hi k List.mem_cons_self

/-- A run with a state succeeds at a list if it does at the first item and then,
from the state left behind, at the rest. -/
lemma thread_cons_ok {run : ι → α → Traced ε α} {i : ι} {rest : List ι} {state after : α} :
    (thread run (i :: rest) state).result = .ok after ↔
      ∃ next, (run i state).result = .ok next ∧ (thread run rest next).result = .ok after := by
  rw [thread, ← bind_eq, bind_ok]

/-- **Runs with a state.** Whatever relation `Step` is reflexive and transitive,
keeps `Inv` and holds across every single run holds across the whole run, and
what a single run has achieved outlasts the later ones. -/
lemma thread_ok {run : ι → α → Traced ε α} (Inv : α → Prop) (Step : α → α → Prop)
    (Done : ι → α → Prop) (refl : ∀ s, Step s s)
    (trans : ∀ s₁ s₂ s₃, Step s₁ s₂ → Step s₂ s₃ → Step s₁ s₃)
    (lasts : ∀ i s₁ s₂, Step s₁ s₂ → Done i s₁ → Done i s₂) {list : List ι}
    (single : ∀ i ∈ list, ∀ s s', Inv s → (run i s).result = .ok s' →
      Inv s' ∧ Step s s' ∧ Done i s') {state after : α} (hinv : Inv state)
    (hrun : (thread run list state).result = .ok after) :
    Inv after ∧ Step state after ∧ ∀ i ∈ list, Done i after := by
  induction list generalizing state with
  | nil =>
      obtain rfl : state = after := by simpa [thread] using hrun
      exact ⟨hinv, refl state, by simp⟩
  | cons i rest ih =>
      obtain ⟨next, hfirst, hrest⟩ := thread_cons_ok.mp hrun
      obtain ⟨hnext, hstep, hdone⟩ := single i (by simp) state next hinv hfirst
      obtain ⟨hafter, hsteps, hall⟩ :=
        ih (fun j hj => single j (List.mem_cons_of_mem i hj)) hnext hrest
      exact ⟨hafter, trans _ _ _ hstep hsteps,
        List.forall_mem_cons.mpr ⟨lasts i next after hsteps hdone, hall⟩⟩

/-- Every item of a successful run with a state has had a successful run. -/
lemma exists_of_thread_ok {run : ι → α → Traced ε α} {list : List ι} {state after : α}
    (hrun : (thread run list state).result = .ok after) {i : ι} (hi : i ∈ list) :
    ∃ s s', (run i s).result = .ok s' := by
  induction list generalizing state with
  | nil => simp at hi
  | cons j rest ih =>
      obtain ⟨next, hfirst, hrest⟩ := thread_cons_ok.mp hrun
      rcases List.mem_cons.mp hi with rfl | hi
      · exact ⟨state, next, hfirst⟩
      · exact ih hrest hi

/-- **Simulation.** A run with a state succeeds where another one does, if this is so
for every single run between related states, which stay related. -/
lemma thread_simulates {run : ι → α → Traced ε α} {run' : ι → β → Traced ε β}
    (Related : α → β → Prop) {list : List ι}
    (single : ∀ i ∈ list, ∀ s s' t, Related s t → (run i s).result = .ok s' →
      ∃ t', (run' i t).result = .ok t' ∧ Related s' t') {state after : α} {state' : β}
    (hrelated : Related state state') (hrun : (thread run list state).result = .ok after) :
    ∃ after', (thread run' list state').result = .ok after' ∧ Related after after' := by
  induction list generalizing state state' with
  | nil =>
      obtain rfl : state = after := Except.ok.inj hrun
      exact ⟨state', rfl, hrelated⟩
  | cons i rest ih =>
      obtain ⟨next, hfirst, hrest⟩ := thread_cons_ok.mp hrun
      obtain ⟨next', hfirst', hnext⟩ := single i (by simp) state next state' hrelated hfirst
      obtain ⟨after', hrest', hafter⟩ :=
        ih (fun j hj => single j (List.mem_cons_of_mem i hj)) hnext hrest
      exact ⟨after', thread_cons_ok.mpr ⟨next', hfirst', hrest'⟩, hafter⟩

/-- What holds at some item, in the state that the items before have left, holds at the
first item or, after a run of that, at one of the rest. -/
lemma exists_thread_cons {run : ι → α → Traced ε α} {P : ι → α → Prop} {i : ι} {rest : List ι}
    {state : α} :
    (∃ before k after s, i :: rest = before ++ k :: after ∧
        (thread run before state).result = .ok s ∧ P k s) ↔
      P i state ∨ ∃ next, (run i state).result = .ok next ∧
        ∃ before k after s, rest = before ++ k :: after ∧
          (thread run before next).result = .ok s ∧ P k s := by
  constructor
  · rintro ⟨before, k, after, s, hlist, hbefore, hk⟩
    cases before with
    | nil =>
        obtain ⟨rfl, -⟩ := List.cons.inj hlist
        obtain rfl : state = s := Except.ok.inj hbefore
        exact Or.inl hk
    | cons first before =>
        obtain ⟨rfl, rfl⟩ := List.cons.inj hlist
        obtain ⟨next, hnext, hbefore⟩ := thread_cons_ok.mp hbefore
        exact Or.inr ⟨next, hnext, before, k, after, s, rfl, hbefore, hk⟩
  · rintro (h | ⟨next, hnext, before, k, after, s, rfl, hbefore, hk⟩)
    · exact ⟨[], i, rest, state, rfl, rfl, h⟩
    · exact ⟨i :: before, k, after, s, rfl, thread_cons_ok.mpr ⟨next, hnext, hbefore⟩, hk⟩

/-- A run with a state fails as it does at the first item where it fails, in the state
that the items before have left. -/
lemma thread_error_iff {run : ι → α → Traced ε α} {list : List ι} {state : α} {error : ε} :
    (thread run list state).result = .error error ↔
      ∃ before i after s, list = before ++ i :: after ∧
        (thread run before state).result = .ok s ∧ (run i s).result = .error error := by
  induction list generalizing state with
  | nil => simp [thread]
  | cons i rest ih =>
      rw [thread, ← bind_eq, bind_error, exists_thread_cons]
      simp only [ih]

/-- An event of a run with a state comes from one item, in the state that the items before
have left. -/
lemma mem_events_thread {run : ι → α → Traced ε α} {list : List ι} {state : α} {event : Event} :
    event ∈ (thread run list state).events ↔
      ∃ before i after s, list = before ++ i :: after ∧
        (thread run before state).result = .ok s ∧ event ∈ (run i s).events := by
  induction list generalizing state with
  | nil => simp [thread, pure]
  | cons i rest ih =>
      rw [thread, ← bind_eq, mem_events_bind, exists_thread_cons]
      simp only [ih]

/-- Two runs with a state are the same if they are at every item, in the state that the items
before have left. -/
lemma thread_congr {run run' : ι → α → Traced ε α} {list : List ι} {state : α}
    (single : ∀ before i after s, list = before ++ i :: after →
      (thread run before state).result = .ok s → run i s = run' i s) :
    thread run list state = thread run' list state := by
  induction list generalizing state with
  | nil => rfl
  | cons i rest ih =>
      have hfirst : run i state = run' i state := single [] i rest state rfl rfl
      rw [thread, thread, ← hfirst, bind, bind]
      cases hnext : (run i state).result with
      | error error => rfl
      | ok next =>
          have hrest : thread run rest next = thread run' rest next := by
            refine ih fun before j after s hsplit hs => ?_
            refine single (i :: before) j after s (congrArg (i :: ·) hsplit) ?_
            exact thread_cons_ok.mpr ⟨next, hnext, hs⟩
          simp only [hrest]

/-- A run with a state fails as it does at one of the items. -/
lemma thread_error {run : ι → α → Traced ε α} {list : List ι} {state : α} {error : ε}
    (hrun : (thread run list state).result = .error error) :
    ∃ i ∈ list, ∃ s, (run i s).result = .error error := by
  obtain ⟨before, i, after, s, rfl, -, hi⟩ := thread_error_iff.mp hrun
  exact ⟨i, List.mem_append_right before (List.mem_cons_self ..), s, hi⟩

end Traced

end JsonTypes
