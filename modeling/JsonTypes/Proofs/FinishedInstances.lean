/-
Skipping finished instances is only an optimisation.

The plain walk is the walk over a definition that never takes an instance for
finished, so that it opens an instance again wherever it is not open already. The walk
with finished instances is the same run with parts left out. What is left out is a walk
from a finished instance behind a guard. It meets finished instances only, up to those
that are open, and no unguarded cycle among them, so it can fail at nothing but the
limit.

* `plainExpand`, `plainValidate`: the plain walk; `plainVisit`, `plainExpand_ok`,
  `plainExpand_error`: everything that can happen where it expands an instance.
* `Ty.walk_ok_of_plain`, `expand_ok_of_plain`: where the plain walk succeeds, so does
  the other.
* `Trail.Retraces`: the plain walk is below finished instances only; kept by
  `Retraces.guard`, `Retraces.field` and `Retraces.enter`.
* `Ty.walk_retraced`, `plainExpand_retraced`: there it fails at the limit or not at all.
* `Ty.walk_error_of_plain`, `expand_error_of_plain`: where the plain walk fails, and not
  at the limit, the other fails in the same way.
* `validate_of_plain`: both for whole definitions.
-/
import JsonTypes.Proofs.WalkErrors

namespace JsonTypes

open Relation

/-! ### The plain walk -/

/-- The expansion of an instance by the plain walk: no instance is finished when the
walk over the entries begins, and none is after an expansion. -/
def plainExpand (bodies : Family) (root : Instance) (limit : ℕ) :
    (room : ℕ) → Trail → Instance → Traced DefinitionError Description
  | 0, _, i => Traced.fail (tooDeep root i limit)
  | room + 1, trail, i => do
    Traced.report (.expanding i trail.depth)
    let d ← Traced.of (bodies.describe i)
    let _ ← d.walk root
      (fun trail i _ => do
        let _ ← plainExpand bodies root limit room trail i
        pure [])
      (trail.enter i) []
    pure d

/-- The plain walk over the definition of a factory. -/
def plainValidate (bodies : Family) (config : Config) (f : Factory) :
    Traced DefinitionError Description :=
  (do
    let d ← plainExpand bodies f.generic config.maxDepth config.maxDepth ⟨[], []⟩ f.generic
    Traced.report (.wellFormed d)
    pure d : Traced DefinitionError Description).shown config.debug

/-- The expansion of an instance by the plain walk, after which none is finished. -/
def plainVisit (bodies : Family) (root : Instance) (limit room : ℕ) (trail : Trail)
    (i : Instance) (_ : List Instance) : Traced DefinitionError (List Instance) := do
  let _ ← plainExpand bodies root limit room trail i
  pure []

section Plain

variable {bodies : Family} {root i : Instance} {limit room : ℕ} {trail : Trail}
  {finished after : List Instance} {d : Description} {e : DefinitionError}

lemma plainVisit_ok :
    (plainVisit bodies root limit room trail i finished).result = .ok after ↔
      after = [] ∧ ∃ d, (plainExpand bodies root limit room trail i).result = .ok d := by
  rw [plainVisit, Traced.bind_ok]
  simp only [Traced.result_pure, Except.ok.injEq]
  exact ⟨fun ⟨d, hd, h⟩ => ⟨h.symm, d, hd⟩, fun ⟨h, d, hd⟩ => ⟨d, hd, h.symm⟩⟩

lemma plainVisit_error :
    (plainVisit bodies root limit room trail i finished).result = .error e ↔
      (plainExpand bodies root limit room trail i).result = .error e := by
  rw [plainVisit, Traced.bind_error]
  simp

lemma plainExpand_succ :
    (plainExpand bodies root limit (room + 1) trail i).result =
      ((Traced.of (bodies.describe i)) >>= fun d =>
        ((Ty.fields d.entries).walk root (plainVisit bodies root limit room) (trail.enter i)
          []) >>= fun _ => pure d).result := by
  simp only [Ty.walk_fields]
  rfl

lemma plainExpand_ok :
    (plainExpand bodies root limit room trail i).result = .ok d ↔
      ∃ below entries after, room = below + 1 ∧ bodies i = .ok entries ∧
        d = ⟨i.text, i.factory.kind, entries⟩ ∧
        ((Ty.fields entries).walk root (plainVisit bodies root limit below) (trail.enter i)
          []).result = .ok after := by
  cases room with
  | zero => simp [plainExpand]
  | succ below =>
      rw [plainExpand_succ, Family.describe]
      cases hi : bodies i with
      | error e => simp [Except.map]
      | ok entries =>
          simp only [Traced.bind_ok, Traced.result_of, Except.map, Except.ok.injEq,
            Traced.result_pure]
          constructor
          · rintro ⟨_, rfl, after, hafter, rfl⟩
            exact ⟨below, entries, after, rfl, rfl, rfl, hafter⟩
          · rintro ⟨_, _, after, hroom, rfl, rfl, hafter⟩
            obtain rfl := Nat.succ.inj hroom
            exact ⟨_, rfl, after, hafter, rfl⟩

lemma plainExpand_error :
    (plainExpand bodies root limit room trail i).result = .error e ↔
      (room = 0 ∧ tooDeep root i limit = e) ∨ ∃ below, room = below + 1 ∧
        (bodies i = .error e ∨ ∃ entries, bodies i = .ok entries ∧
          ((Ty.fields entries).walk root (plainVisit bodies root limit below) (trail.enter i)
            []).result = .error e) := by
  cases room with
  | zero => simp [plainExpand]
  | succ below =>
      rw [plainExpand_succ, Family.describe]
      cases hi : bodies i <;> simp [Except.map]

lemma plainValidate_result (config : Config) (f : Factory) :
    (plainValidate bodies config f).result =
      (plainExpand bodies f.generic config.maxDepth config.maxDepth ⟨[], []⟩
        f.generic).result := by
  rw [plainValidate, Traced.result_shown, Traced.bind_eq, Traced.bind]
  cases (plainExpand bodies f.generic config.maxDepth config.maxDepth ⟨[], []⟩
    f.generic).result <;> rfl

/-! ### Where the plain walk succeeds -/

/-- **Types over which the plain walk passes are passed over**, whatever is finished, if
this is so for instances. The plain walk leaves no instance finished. -/
lemma Ty.walk_ok_of_plain
    (hexpand : ∀ trail i finished d, (plainExpand bodies root limit room trail i).result = .ok d →
      ∃ after, (expand bodies root limit room trail i finished).result = .ok (d, after))
    {t : Ty} (finished : List Instance)
    (h : (t.walk root (plainVisit bodies root limit room) trail []).result = .ok after) :
    after = [] ∧ ∃ after',
      (t.walk root (visit bodies root limit room) trail finished).result = .ok after' := by
  induction t generalizing trail finished after with
  | primitive p => exact ⟨(Except.ok.inj h).symm, finished, rfl⟩
  | container c t ih => exact ih finished h
  | fields entries ih =>
      rw [Ty.walk_fields] at h ⊢
      obtain ⟨after', hafter', hnil⟩ := Traced.thread_simulates (fun s _ => s = [])
        (fun i _ s s' t hs hrun => by
          subst hs
          obtain ⟨hs', t', ht'⟩ := ih i t hrun
          exact ⟨t', ht', hs'⟩) rfl h
      exact ⟨hnil, after', hafter'⟩
  | inst i =>
      obtain ⟨hbare, hcase⟩ := Ty.walk_inst_ok h
      by_cases hskip : i.isIn trail.guarded = true ∨ trail.bare = [] ∧ i.isIn finished = true
      · refine ⟨?_, finished, Ty.walk_inst_skipped hbare hskip⟩
        exact hcase.elim (fun h => h.1.symm) fun h => (plainVisit_ok.mp h.2).1
      · rw [not_or] at hskip
        rw [Ty.walk_inst_fresh (by simp [Trail.isIn_all, hbare, hskip.1]) hskip.2]
        rcases hcase with ⟨-, hguarded | ⟨-, hnil⟩⟩ | ⟨-, hplain⟩
        · exact absurd hguarded hskip.1
        · simp [Application.isIn] at hnil
        · obtain ⟨hnil, d, hd⟩ := plainVisit_ok.mp hplain
          obtain ⟨after', hafter'⟩ := hexpand trail i finished d hd
          exact ⟨hnil, after', visit_ok.mpr ⟨d, hafter'⟩⟩
  | param index =>
      obtain ⟨hindex, hafter⟩ := Ty.walk_param_ok.mp h
      exact ⟨hafter.symm, finished, Ty.walk_param_ok.mpr ⟨hindex, rfl⟩⟩

/-- **Instances that the plain walk expands are expanded**, to the same description,
whatever is finished. -/
lemma expand_ok_of_plain (h : (plainExpand bodies root limit room trail i).result = .ok d) :
    ∃ after, (expand bodies root limit room trail i finished).result = .ok (d, after) := by
  induction room generalizing trail i finished d with
  | zero =>
      obtain ⟨below, -, -, hroom, -⟩ := plainExpand_ok.mp h
      cases hroom
  | succ below ih =>
      obtain ⟨_, entries, inner, hroom, hi, hd, hwalk⟩ := plainExpand_ok.mp h
      obtain rfl := Nat.succ.inj hroom
      obtain ⟨-, after, hafter⟩ := Ty.walk_ok_of_plain (fun _ _ _ _ h => ih h) finished hwalk
      exact ⟨i :: after, expand_ok.mpr ⟨below, entries, after, rfl, hi, hd, rfl, hafter⟩⟩

end Plain

/-! ### Below finished instances -/

section Retraced

variable {bodies : Family} {arity : ℕ} {pending finished : List Instance} {trail : Trail}

/-- The plain walk is at the type `t`, below an instance that is finished while others
are pending: all these are open behind a guard, `t` shows nothing but what is finished
or pending, and what is open without a guard leads to `t` by unguarded steps that avoid
the pending instances. -/
structure Trail.Retraces (bodies : Family) (arity : ℕ) (pending finished : List Instance)
    (trail : Trail) (t : Ty) : Prop where
  opened : ∀ i : Instance, i.isIn pending = true → i.isIn trail.guarded = true
  covered : t.Covered arity pending finished
  bare : ∀ i ∈ trail.bare, i.isIn finished = true ∧
    ∀ j, t.Shows false (.inst j) → TransGen (bodies.RequiresOutside pending) i j

namespace Trail.Retraces

lemma guard {c : Container} {t : Ty}
    (h : trail.Retraces bodies arity pending finished (.container c t)) :
    trail.guard.Retraces bodies arity pending finished t where
  opened i hi := Application.isIn_append.mpr (Or.inr (h.opened i hi))
  covered := ⟨fun _ i hi => h.covered.insts _ i (.container hi),
    fun _ index hindex => h.covered.params _ index (.container hindex)⟩
  bare := by simp

lemma field {entries : Table Ty}
    (h : trail.Retraces bodies arity pending finished (.fields entries))
    (k : entries.names.Index) :
    trail.Retraces bodies arity pending finished (entries.entry k) where
  opened := h.opened
  covered := ⟨fun _ i hi => h.covered.insts _ i (.field hi),
    fun _ index hindex => h.covered.params _ index (.field hindex)⟩
  bare i hi := ⟨(h.bare i hi).1, fun j hj => (h.bare i hi).2 j (.field hj)⟩

/-- An instance that is open without a guard is not met again: the cycle would avoid
the pending instances. -/
lemma not_isIn_bare (respects : bodies.RespectsSame)
    (hsettled : Settled bodies arity pending finished) {i : Instance}
    (h : trail.Retraces bodies arity pending finished (.inst i)) :
    ¬ i.isIn trail.bare = true := by
  intro hi
  obtain ⟨j, hj, hji⟩ := Application.isIn_iff.mp hi
  obtain ⟨hfinished, hchain⟩ := h.bare j hj
  obtain ⟨k, hk, hkj⟩ := Application.isIn_iff.mp hfinished
  refine hsettled.acyclic k hk ?_
  exact Family.RequiresOutside.transGen_of_same respects (Application.same_symm hkj)
    (Application.same_symm (Application.same_trans hkj hji)) (hchain i (.here _))

/-- A finished instance that is not open may be opened again. -/
lemma enter (respects : bodies.RespectsSame)
    (hsettled : Settled bodies arity pending finished) {i : Instance} {entries : Table Ty}
    (hi : bodies i = .ok entries) (hfresh : ¬ i.isIn trail.all = true)
    (hfinished : i.isIn finished = true)
    (h : trail.Retraces bodies arity pending finished (.inst i)) :
    (trail.enter i).Retraces bodies arity pending finished (.fields entries) := by
  have hout : ¬ i.isIn pending = true := fun hpending =>
    hfresh (Trail.isIn_all.mpr (Or.inr (h.opened i hpending)))
  have hcovered : (Ty.fields entries).Covered arity pending finished := by
    obtain ⟨k, hk, hki⟩ := Application.isIn_iff.mp hfinished
    have hik := Application.same_symm hki
    refine ⟨fun guarded j hj => ?_, fun guarded index hindex => ?_⟩
    · obtain ⟨j', hj', hjj'⟩ := Family.Child.of_same respects hik ⟨guarded, entries, hi, hj⟩
      exact (hsettled.closed k hk j' hj').imp
        (Application.isIn_of_same (Application.same_symm hjj'))
        (Application.isIn_of_same (Application.same_symm hjj'))
    · obtain ⟨u, hu, halike⟩ := Family.Exposes.of_same respects hik ⟨entries, hi, hindex⟩
      cases halike with
      | param => exact hsettled.owned k hk guarded index hu
  cases hkind : i.factory.kind with
  | schema =>
      rw [trail.enter_of_schema hkind]
      refine ⟨fun j hj => ?_, hcovered, by simp⟩
      exact Application.isIn_cons.mpr (Or.inr (Trail.isIn_all.mpr (Or.inr (h.opened j hj))))
  | record =>
      have hstep : ∀ j, (Ty.fields entries).Shows false (.inst j) →
          bodies.RequiresOutside pending i j := fun j hj =>
        ⟨hout, j, ⟨hkind, entries, hi, hj⟩, Application.same_refl j⟩
      rw [trail.enter_of_record hkind]
      refine ⟨h.opened, hcovered, List.forall_mem_cons.mpr ⟨?_, fun j hj => ?_⟩⟩
      · exact ⟨hfinished, fun j hj => .single (hstep j hj)⟩
      · obtain ⟨hj', hchain⟩ := h.bare j hj
        exact ⟨hj', fun k hk => (hchain i (.here _)).tail (hstep k hk)⟩

end Trail.Retraces

variable {root : Instance} {limit room : ℕ} {e : DefinitionError}

/-- Over a type that shows what is finished the plain walk fails at the limit or not at
all, if this is so for instances. -/
lemma Ty.walk_retraced (respects : bodies.RespectsSame)
    (hsettled : Settled bodies root.factory.arity pending finished)
    (hexpand : ∀ (trail : Trail) (i : Instance) e, ¬ i.isIn trail.all = true →
      i.isIn finished = true →
      trail.Retraces bodies root.factory.arity pending finished (.inst i) →
        (plainExpand bodies root limit room trail i).result = .error e →
          ∃ k, e = tooDeep root k limit)
    {t : Ty} {done : List Instance}
    (hretraces : trail.Retraces bodies root.factory.arity pending finished t)
    (h : (t.walk root (plainVisit bodies root limit room) trail done).result = .error e) :
    ∃ k, e = tooDeep root k limit := by
  induction t generalizing trail done with
  | primitive p => simp [Ty.walk] at h
  | container c t ih => exact ih hretraces.guard h
  | fields entries ih =>
      rw [Ty.walk_fields] at h
      obtain ⟨k, -, s, hs⟩ := Traced.thread_error h
      exact ih k (hretraces.field k) hs
  | inst i =>
      rcases Ty.walk_inst_error h with ⟨hbare, -⟩ | ⟨hfresh, -, herror⟩
      · exact absurd hbare (hretraces.not_isIn_bare respects hsettled)
      · have hfinished : i.isIn finished = true :=
          (hretraces.covered.insts _ i (.here _)).resolve_left fun hpending =>
            hfresh (Trail.isIn_all.mpr (Or.inr (hretraces.opened i hpending)))
        exact hexpand trail i e hfresh hfinished hretraces (plainVisit_error.mp herror)
  | param index =>
      obtain ⟨hforeign, -⟩ := Ty.walk_param_error.mp h
      exact absurd (hretraces.covered.params _ index (.here _)) (Nat.not_lt.mpr hforeign)

/-- **A finished instance is opened again without harm**: the plain walk below it fails
at the limit or not at all. -/
lemma plainExpand_retraced (respects : bodies.RespectsSame)
    (hsettled : Settled bodies root.factory.arity pending finished) {i : Instance}
    (hfresh : ¬ i.isIn trail.all = true) (hfinished : i.isIn finished = true)
    (hretraces : trail.Retraces bodies root.factory.arity pending finished (.inst i))
    (h : (plainExpand bodies root limit room trail i).result = .error e) :
    ∃ k, e = tooDeep root k limit := by
  induction room generalizing trail i e with
  | zero =>
      rcases plainExpand_error.mp h with ⟨-, rfl⟩ | ⟨below, hroom, -⟩
      · exact ⟨i, rfl⟩
      · cases hroom
  | succ below ih =>
      rcases plainExpand_error.mp h with ⟨hzero, -⟩ | ⟨_, hroom, hfails | ⟨entries, hi, hwalk⟩⟩
      · cases hzero
      · -- an equal instance has been expanded before
        obtain ⟨k, hk, hki⟩ := Application.isIn_iff.mp hfinished
        obtain ⟨entries, hentries⟩ := hsettled.expands k hk
        obtain ⟨entries', hentries', -⟩ := respects k i entries hki hentries
        cases hfails.symm.trans hentries'
      · obtain rfl := Nat.succ.inj hroom
        exact Ty.walk_retraced respects hsettled
          (fun _ _ _ hfresh' hfinished' hretraces' => ih hfresh' hfinished' hretraces')
          (hretraces.enter respects hsettled hi hfresh hfinished) hwalk

end Retraced

/-! ### Where the plain walk fails -/

section Errors

variable {bodies : Family} {root : Instance} {limit room : ℕ} {trail : Trail}
  {finished : List Instance} {e : DefinitionError}

/-- The expansion of an instance keeps the finished instances settled. -/
lemma visit_settled (respects : bodies.RespectsSame) {pending after : List Instance}
    {i : Instance} (htrail : trail.all = pending)
    (hsettled : Settled bodies root.factory.arity pending finished)
    (h : (visit bodies root limit room trail i finished).result = .ok after) :
    Settled bodies root.factory.arity pending after ∧ finished ⊆ after ∧ i ∈ after := by
  obtain ⟨d, hd⟩ := visit_ok.mp h
  subst htrail
  exact expand_settled respects hsettled hd

/-- **Types where the plain walk fails fail in the same way**, if this is so for
instances. Nothing that is skipped could have failed but at the limit. -/
lemma Ty.walk_error_of_plain (respects : bodies.RespectsSame) {pending : List Instance}
    (hexpand : ∀ trail i finished, trail.all = pending →
      Settled bodies root.factory.arity pending finished →
      (plainExpand bodies root limit room trail i).result = .error e →
        (expand bodies root limit room trail i finished).result = .error e)
    (hdeep : ∀ k, e ≠ tooDeep root k limit) {t : Ty} (htrail : trail.all = pending)
    (hsettled : Settled bodies root.factory.arity pending finished)
    (h : (t.walk root (plainVisit bodies root limit room) trail []).result = .error e) :
    (t.walk root (visit bodies root limit room) trail finished).result = .error e := by
  induction t generalizing trail finished with
  | primitive p => simp [Ty.walk] at h
  | container c t ih =>
      have hguard : trail.guard.all = pending := htrail
      exact ih hguard hsettled h
  | fields entries ih =>
      rw [Ty.walk_fields] at h ⊢
      obtain ⟨before, i, after, s, hlist, hbefore, hi⟩ := Traced.thread_error_iff.mp h
      -- the entries before the failing one are passed over by both walks
      obtain ⟨s', hbefore', rfl, hs'⟩ := Traced.thread_simulates
        (fun s s' => s = [] ∧ Settled bodies root.factory.arity pending s')
        (fun k _ s after s' hs hrun => by
          obtain ⟨rfl, hs'⟩ := hs
          obtain ⟨hafter, after', hafter'⟩ :=
            Ty.walk_ok_of_plain (fun _ _ _ _ h => expand_ok_of_plain h) s' hrun
          refine ⟨after', hafter', hafter, ?_⟩
          exact (Ty.walk_settled (fun _ _ _ _ => visit_settled respects) htrail hs' hafter').1)
        ⟨rfl, hsettled⟩ hbefore
      exact Traced.thread_error_iff.mpr
        ⟨before, i, after, s', hlist, hbefore', ih i htrail hs' hi⟩
  | inst i =>
      rcases Ty.walk_inst_error h with ⟨hbare, rfl⟩ | ⟨hfresh, -, herror⟩
      · exact Ty.walk_inst_bare hbare
      · by_cases hskip : trail.bare = [] ∧ i.isIn finished = true
        · have hretraces :
              trail.Retraces bodies root.factory.arity pending finished (.inst i) := by
            refine ⟨fun j hj => ?_, ⟨?_, by rintro _ _ ⟨⟩⟩, by simp [hskip.1]⟩
            · rw [← htrail, Trail.all, hskip.1] at hj
              exact hj
            · rintro _ _ ⟨⟩
              exact Or.inr hskip.2
          obtain ⟨k, hk⟩ := plainExpand_retraced respects hsettled hfresh hskip.2 hretraces
            (plainVisit_error.mp herror)
          exact absurd hk (hdeep k)
        · rw [Ty.walk_inst_fresh hfresh hskip]
          exact visit_error.mpr
            (hexpand trail i finished htrail hsettled (plainVisit_error.mp herror))
  | param index => exact Ty.walk_param_error.mpr (Ty.walk_param_error.mp h)

/-- **Expansions at which the plain walk fails fail in the same way.** -/
lemma expand_error_of_plain (respects : bodies.RespectsSame) {i : Instance}
    (hdeep : ∀ k, e ≠ tooDeep root k limit)
    (hsettled : Settled bodies root.factory.arity trail.all finished)
    (h : (plainExpand bodies root limit room trail i).result = .error e) :
    (expand bodies root limit room trail i finished).result = .error e := by
  induction room generalizing trail i finished with
  | zero =>
      rcases plainExpand_error.mp h with ⟨-, rfl⟩ | ⟨below, hroom, -⟩
      · exact absurd rfl (hdeep i)
      · cases hroom
  | succ below ih =>
      rcases plainExpand_error.mp h with ⟨hzero, -⟩ | ⟨_, hroom, hfails | ⟨entries, hi, hwalk⟩⟩
      · cases hzero
      · exact expand_error.mpr (Or.inr ⟨below, rfl, Or.inl hfails⟩)
      · obtain rfl := Nat.succ.inj hroom
        refine expand_error.mpr (Or.inr ⟨below, rfl, Or.inr ⟨entries, hi, ?_⟩⟩)
        refine Ty.walk_error_of_plain respects (fun trail' i' finished' htrail' hsettled' => ?_)
          hdeep (trail.all_enter i) (hsettled.opened i) hwalk
        rw [← htrail'] at hsettled'
        exact ih hsettled'

end Errors

/-- **Skipping finished instances is only an optimisation.** A definition that the plain
walk accepts is accepted, with the same description. And if the plain walk fails, and not
at the limit, the walk fails with the same error. -/
theorem validate_of_plain (bodies : Family) (respects : bodies.RespectsSame) (config : Config)
    (f : Factory) :
    (∀ d, (plainValidate bodies config f).result = .ok d →
      (validate bodies config f).result = .ok d) ∧
    ∀ e, (plainValidate bodies config f).result = .error e →
      (∀ i, e ≠ tooDeep f.generic i config.maxDepth) →
        (validate bodies config f).result = .error e := by
  rw [plainValidate_result]
  refine ⟨fun d hd => ?_, fun e he hdeep => ?_⟩
  · exact validate_ok.mpr (expand_ok_of_plain hd)
  · exact validate_error.mpr (expand_error_of_plain respects hdeep Settled.nil he)

/-- The error of an unguarded cycle is not that of the limit. -/
lemma unguarded_ne_tooDeep (i root j : Instance) (limit : ℕ) :
    unguarded i ≠ tooDeep root j limit := by
  intro h
  have htext : ∀ s : String, toString s = s := fun _ => rfl
  have hreason := congrArg (fun s => s.toList.head?) (DefinitionError.invalidType.inj h).2
  simp [htext] at hreason

/-- A record with two optional fields of one type: `{ left: Optional(Rec), right:
Optional(Rec) }`. -/
def twins : Factory := ⟨8, "Twins", .record, 0⟩

/-- The bodies of the ready-made definitions, of a record with a field of its own type,
and of that record. -/
def twinBodies : Family :=
  (((Workspace.start .standard true).register "Loop" .record 1
    [("value", .arg 0), ("next", .this [.arg 0])]).2.register "Twins" .record 0
      [("left", .container .optional (.factory Prelude.recursive.factory [])),
        ("right", .container .optional (.factory Prelude.recursive.factory []))]).2.family

/-- Of twins the second is skipped, and opened again by the plain walk. Both walks fail
at a record inside itself. -/
theorem validate_of_plain_twins :
    twinBodies.RespectsSame ∧
      (∃ d, (plainValidate twinBodies .standard twins).result = .ok d ∧
        (validate twinBodies .standard twins).result = .ok d) ∧
      (plainValidate twinBodies .standard loop).result = .error (unguarded loop.generic) ∧
      (∀ i, unguarded loop.generic ≠ tooDeep loop.generic i Config.standard.maxDepth) ∧
      (validate twinBodies .standard loop).result = .error (unguarded loop.generic) := by
  have respects := (Workspace.family_templated _ : twinBodies.Templated).respectsSame
  have hdeep := fun i => unguarded_ne_tooDeep loop.generic loop.generic i
    Config.standard.maxDepth
  refine ⟨respects, ⟨_, rfl, ?_⟩, rfl, hdeep, ?_⟩
  · exact (validate_of_plain twinBodies respects .standard twins).1 _ rfl
  · exact (validate_of_plain twinBodies respects .standard loop).2 _ rfl hdeep

end JsonTypes
