/-
A definition that the walk accepts is well-formed.

The walk passes over an instance that is open behind a guard, or finished. It may
do so without losing an unguarded cycle, since the first instance of a cycle to
be opened is opened while no other one is: from there on the cycle is followed
without a guard, nothing on it is passed over, and it ends at the open instance.

* `Family.RequiresOutside`: unguarded steps from instances that are not open.
* `not_requires_bare`: below an instance that has been expanded, no chain of such
  steps leads back to an instance that was open without a guard.
* `Settled`: the invariant of the finished instances, kept by `Ty.walk_settled`
  over types and by `expand_settled` over instances: every unguarded cycle through
  a finished instance meets an open one.
* `wellFormed_of_validate`, `validate_ok_sound`: at the end none is open, and the
  definition is well-formed.
-/
import JsonTypes.Proofs.Templates
import JsonTypes.Proofs.Walk

namespace JsonTypes

open Relation

/-! ### Chains that avoid open instances -/

/-- An unguarded step, up to equality, from an instance that is not pending. -/
def Family.RequiresOutside (bodies : Family) (pending : List Instance) (i j : Instance) : Prop :=
  ¬ i.isIn pending = true ∧ ∃ k, bodies.BareChild i k ∧ k.same j = true

/-- A chain avoids the elements with a property as sources, or passes through one
of them. -/
lemma transGen_avoids_or_meets {α : Type} {r : α → α → Prop} (p : α → Prop) {a b : α}
    (h : TransGen r a b) :
    TransGen (fun x y => ¬ p x ∧ r x y) a b ∨
      ∃ c, p c ∧ ReflTransGen r a c ∧ TransGen r c b := by
  induction h with
  | single hab =>
      by_cases hp : p a
      · exact Or.inr ⟨a, hp, .refl, .single hab⟩
      · exact Or.inl (.single ⟨hp, hab⟩)
  | @tail b c hab hbc ih =>
      rcases ih with havoid | ⟨d, hd, had, hdb⟩
      · by_cases hp : p b
        · exact Or.inr ⟨b, hp, hab.to_reflTransGen, .single hbc⟩
        · exact Or.inl (havoid.tail ⟨hp, hbc⟩)
      · exact Or.inr ⟨d, hd, had, hdb.tail hbc⟩

namespace Family.RequiresOutside

variable {bodies : Family} {pending pending' : List Instance} {i i' j j' : Instance}

/-- With more instances pending there are fewer steps. -/
lemma mono (hsub : pending ⊆ pending') (h : bodies.RequiresOutside pending' i j) :
    bodies.RequiresOutside pending i j :=
  ⟨fun hi => h.1 (Application.isIn_mono hsub hi), h.2⟩

lemma of_same_left (respects : bodies.RespectsSame) (hi : i.same i' = true)
    (h : bodies.RequiresOutside pending i j) : bodies.RequiresOutside pending i' j := by
  obtain ⟨hout, k, hk, hkj⟩ := h
  obtain ⟨k', hk', hkk'⟩ := hk.of_same respects hi
  refine ⟨fun hi' => hout (Application.isIn_of_same (Application.same_symm hi) hi'), k', hk', ?_⟩
  exact Application.same_trans (Application.same_symm hkk') hkj

lemma of_same_right (hj : j.same j' = true) (h : bodies.RequiresOutside pending i j) :
    bodies.RequiresOutside pending i j' := by
  obtain ⟨hout, k, hk, hkj⟩ := h
  exact ⟨hout, k, hk, Application.same_trans hkj hj⟩

/-- Chains do not tell equal instances apart. -/
lemma transGen_of_same (respects : bodies.RespectsSame) (hi : i.same i' = true)
    (hj : j.same j' = true) (h : TransGen (bodies.RequiresOutside pending) i j) :
    TransGen (bodies.RequiresOutside pending) i' j' := by
  obtain ⟨k, hik, hkj⟩ := TransGen.head'_iff.mp h
  have hi'j : TransGen (bodies.RequiresOutside pending) i' j :=
    TransGen.head' (hik.of_same_left respects hi) hkj
  obtain ⟨l, hi'l, hlj⟩ := TransGen.tail'_iff.mp hi'j
  exact TransGen.tail' hi'l (hlj.of_same_right hj)

/-- A cycle that avoids the pending instances avoids one more, unless there is one
through that instance. -/
lemma cycle_cons (respects : bodies.RespectsSame)
    (hi : ¬ TransGen (bodies.RequiresOutside pending) i i)
    (hj : TransGen (bodies.RequiresOutside pending) j j) :
    TransGen (bodies.RequiresOutside (i :: pending)) j j := by
  rcases transGen_avoids_or_meets (fun k => i.same k = true) hj with havoid | ⟨k, hik, hjk, hkj⟩
  · refine havoid.lift id fun x y hxy => ⟨fun hx => ?_, hxy.2.2⟩
    exact (Application.isIn_cons.mp hx).elim hxy.1 hxy.2.1
  · have hki := Application.same_symm hik
    exact absurd (transGen_of_same respects hki hki (hkj.trans_left hjk)) hi

end Family.RequiresOutside

/-- **Nothing required leads back.** Below an instance that has been expanded, no
chain of unguarded steps leads to this instance or to one that was open without a
guard, unless it passes through an instance open behind a guard. -/
lemma not_requires_bare {bodies : Family} (respects : bodies.RespectsSame) {root : Instance}
    {limit room : ℕ} {trail : Trail} {i j : Instance} {finished after : List Instance}
    {d : Description}
    (h : (expand bodies root limit room trail i finished).result = .ok (d, after))
    (hj : j.isIn (i :: trail.bare) = true) :
    ¬ TransGen (bodies.RequiresOutside trail.guarded) i j := by
  induction room generalizing trail i finished after d with
  | zero =>
      obtain ⟨below, -, -, hroom, -⟩ := expand_ok.mp h
      cases hroom
  | succ below ih =>
      intro hpath
      obtain ⟨_, entries, inner, hroom, hi, -, -, hwalk⟩ := expand_ok.mp h
      obtain rfl := Nat.succ.inj hroom
      obtain ⟨k, ⟨-, k', ⟨hkind, entries', hi', hshows⟩, hk⟩, hrest⟩ := TransGen.head'_iff.mp hpath
      obtain rfl : entries' = entries := Except.ok.inj (hi'.symm.trans hi)
      rw [trail.enter_of_record hkind] at hwalk
      obtain ⟨s, s', hs⟩ := Ty.walk_shows_ok hshows hwalk
      obtain ⟨hbare, hcase⟩ := Ty.walk_inst_ok hs
      rcases hrest.cases_head with rfl | ⟨l, hkl, hlj⟩
      · have := Application.isIn_of_same (Application.same_symm hk) hj
        exact absurd this (by simpa using hbare)
      -- the chain goes on from `k`, so `k` is not open behind a guard and was expanded
      · have hout : ¬ k'.isIn trail.guarded = true :=
          fun hk' => hkl.1 (Application.isIn_of_same hk hk')
        rcases hcase with ⟨-, hguarded | ⟨hnil, -⟩⟩ | ⟨-, hvisit⟩
        · exact hout hguarded
        · cases hnil
        · obtain ⟨d', hd'⟩ := visit_ok.mp hvisit
          refine ih hd' ?_ (TransGen.head' (hkl.of_same_left respects ?_) hlj)
          · exact Application.isIn_cons.mpr (Or.inr hj)
          · exact Application.same_symm hk

/-! ### The invariant of the finished instances -/

/-- What is known of the finished instances while others are pending: they expand,
hold no foreign placeholders, lead to finished or pending instances only, and
every unguarded cycle through one of them meets a pending instance. -/
structure Settled (bodies : Family) (arity : ℕ) (pending finished : List Instance) : Prop where
  expands : ∀ i ∈ finished, ∃ entries, bodies i = .ok entries
  owned : ∀ i ∈ finished, ∀ guarded index, bodies.Exposes i guarded (.param index) → index < arity
  closed : ∀ i ∈ finished, ∀ j, bodies.Child i j → j.isIn pending = true ∨ j.isIn finished = true
  acyclic : ∀ i ∈ finished, ¬ TransGen (bodies.RequiresOutside pending) i i

/-- A type over which the walk has passed shows finished or pending instances only,
and no foreign placeholders. -/
structure Ty.Covered (arity : ℕ) (pending finished : List Instance) (t : Ty) : Prop where
  insts : ∀ guarded i, t.Shows guarded (.inst i) → i.isIn pending = true ∨ i.isIn finished = true
  params : ∀ guarded index, t.Shows guarded (.param index) → index < arity

section Invariant

variable {bodies : Family} {arity : ℕ} {pending finished after : List Instance}

lemma Ty.Covered.mono {t : Ty} (hsub : finished ⊆ after) (h : t.Covered arity pending finished) :
    t.Covered arity pending after :=
  ⟨fun guarded i hi => (h.insts guarded i hi).imp_right (Application.isIn_mono hsub), h.params⟩

lemma Settled.nil : Settled bodies arity pending [] :=
  ⟨by simp, by simp, by simp, by simp⟩

/-- The finished instances stay settled when one more instance is opened. -/
lemma Settled.opened (i : Instance) (h : Settled bodies arity pending finished) :
    Settled bodies arity (i :: pending) finished where
  expands := h.expands
  owned := h.owned
  closed j hj k hk :=
    (h.closed j hj k hk).imp_left fun hk => Application.isIn_cons.mpr (Or.inr hk)
  acyclic j hj hcycle := h.acyclic j hj <|
    hcycle.lift id fun _ _ => Family.RequiresOutside.mono (List.subset_cons_self i pending)

/-- An instance over whose entries the walk has passed is settled when it is
closed, and so are the others. -/
lemma Settled.finish (respects : bodies.RespectsSame) {i : Instance} {entries : Table Ty}
    (hi : bodies i = .ok entries)
    (hcycle : ¬ TransGen (bodies.RequiresOutside pending) i i)
    (hcovered : (Ty.fields entries).Covered arity (i :: pending) finished)
    (h : Settled bodies arity (i :: pending) finished) :
    Settled bodies arity pending (i :: finished) where
  expands := List.forall_mem_cons.mpr ⟨⟨entries, hi⟩, h.expands⟩
  owned := by
    refine List.forall_mem_cons.mpr ⟨?_, h.owned⟩
    rintro guarded index ⟨entries', hi', hshows⟩
    obtain rfl : entries' = entries := Except.ok.inj (hi'.symm.trans hi)
    exact hcovered.params guarded index hshows
  closed := by
    have reorder : ∀ j : Instance, j.isIn (i :: pending) = true ∨ j.isIn finished = true →
        j.isIn pending = true ∨ j.isIn (i :: finished) = true := by
      intro j hj
      rw [Application.isIn_cons] at hj ⊢
      tauto
    refine List.forall_mem_cons.mpr ⟨?_, fun j hj k hk => reorder k (h.closed j hj k hk)⟩
    rintro j ⟨guarded, entries', hi', hshows⟩
    obtain rfl : entries' = entries := Except.ok.inj (hi'.symm.trans hi)
    exact reorder j (hcovered.insts guarded j hshows)
  acyclic := List.forall_mem_cons.mpr
    ⟨hcycle, fun j hj hjj =>
      h.acyclic j hj (Family.RequiresOutside.cycle_cons respects hcycle hjj)⟩

/-- **Types keep the finished instances settled**, if expansions do, and are covered
afterwards. A guard hides no pending instance, so they stay the same throughout. -/
lemma Ty.walk_settled {root : Instance}
    {expand : Trail → Instance → List Instance → Traced DefinitionError (List Instance)}
    (hexpand : ∀ trail i finished after, trail.all = pending →
      Settled bodies root.factory.arity pending finished →
      (expand trail i finished).result = .ok after →
        Settled bodies root.factory.arity pending after ∧ finished ⊆ after ∧ i ∈ after)
    {t : Ty} {trail : Trail} (htrail : trail.all = pending)
    (hsettled : Settled bodies root.factory.arity pending finished)
    (h : (t.walk root expand trail finished).result = .ok after) :
    Settled bodies root.factory.arity pending after ∧ finished ⊆ after ∧
      t.Covered root.factory.arity pending after := by
  induction t generalizing trail finished after with
  | primitive p =>
      obtain rfl : finished = after := by simpa [Ty.walk] using h
      exact ⟨hsettled, List.Subset.refl _, by rintro _ _ ⟨⟩, by rintro _ _ ⟨⟩⟩
  | container c t ih =>
      have hguard : trail.guard.all = pending := htrail
      obtain ⟨hafter, hsub, hcovered⟩ := ih hguard hsettled h
      refine ⟨hafter, hsub, ?_, ?_⟩
      · rintro _ i (_ | hi)
        exact hcovered.insts _ i hi
      · rintro _ index (_ | hi)
        exact hcovered.params _ index hi
  | fields entries ih =>
      rw [Ty.walk_fields] at h
      obtain ⟨hafter, hsub, hcovered⟩ := Traced.thread_ok
        (Settled bodies root.factory.arity pending) (· ⊆ ·)
        (fun i s => (entries.entry i).Covered root.factory.arity pending s)
        List.Subset.refl (fun _ _ _ => List.Subset.trans) (fun _ _ _ => Ty.Covered.mono)
        (fun i _ s s' hs hrun => ih i htrail hs hrun) hsettled h
      refine ⟨hafter, hsub, ?_, ?_⟩
      · rintro _ i (_ | _ | hi)
        exact (hcovered _ (List.mem_finRange _)).insts _ i hi
      · rintro _ index (_ | _ | hi)
        exact (hcovered _ (List.mem_finRange _)).params _ index hi
  | inst i =>
      obtain ⟨-, ⟨rfl, hopen⟩ | ⟨-, hexpanded⟩⟩ := Ty.walk_inst_ok h
      · refine ⟨hsettled, List.Subset.refl _, ?_, by rintro _ _ ⟨⟩⟩
        rintro _ _ ⟨⟩
        rw [← htrail, Trail.isIn_all]
        tauto
      · obtain ⟨hafter, hsub, hmem⟩ := hexpand trail i finished after htrail hsettled hexpanded
        refine ⟨hafter, hsub, ?_, by rintro _ _ ⟨⟩⟩
        rintro _ _ ⟨⟩
        exact Or.inr (Application.isIn_of_mem hmem)
  | param index =>
      obtain ⟨hindex, rfl⟩ := Ty.walk_param_ok.mp h
      refine ⟨hsettled, List.Subset.refl _, by rintro _ _ ⟨⟩, ?_⟩
      rintro _ _ ⟨⟩
      exact hindex

/-- **Expansions keep the finished instances settled**, and the expanded instance
is one of them afterwards. -/
lemma expand_settled (respects : bodies.RespectsSame) {root i : Instance} {limit room : ℕ}
    {trail : Trail} {d : Description}
    (hsettled : Settled bodies root.factory.arity trail.all finished)
    (h : (expand bodies root limit room trail i finished).result = .ok (d, after)) :
    Settled bodies root.factory.arity trail.all after ∧ finished ⊆ after ∧ i ∈ after := by
  induction room generalizing trail i finished after d with
  | zero =>
      obtain ⟨below, -, -, hroom, -⟩ := expand_ok.mp h
      cases hroom
  | succ below ih =>
      have hcycle : ¬ TransGen (bodies.RequiresOutside trail.all) i i := fun hcycle =>
        not_requires_bare respects h (Application.isIn_of_mem (List.mem_cons_self ..)) <|
          hcycle.lift id fun _ _ =>
            Family.RequiresOutside.mono (List.subset_append_right trail.bare trail.guarded)
      obtain ⟨_, entries, inner, hroom, hi, -, rfl, hwalk⟩ := expand_ok.mp h
      obtain rfl := Nat.succ.inj hroom
      have hvisit : ∀ trail' i' finished' after', trail'.all = i :: trail.all →
          Settled bodies root.factory.arity (i :: trail.all) finished' →
          (visit bodies root limit below trail' i' finished').result = .ok after' →
            Settled bodies root.factory.arity (i :: trail.all) after' ∧
              finished' ⊆ after' ∧ i' ∈ after' := by
        intro trail' i' finished' after' htrail' hsettled' hrun
        obtain ⟨d', hd'⟩ := visit_ok.mp hrun
        rw [← htrail'] at hsettled' ⊢
        exact ih hsettled' hd'
      obtain ⟨hinner, hsub, hcovered⟩ :=
        Ty.walk_settled hvisit (trail.all_enter i) (hsettled.opened i) hwalk
      exact ⟨hinner.finish respects hi hcycle hcovered, List.subset_cons_of_subset i hsub,
        List.mem_cons_self ..⟩

end Invariant

/-! ### Whole definitions -/

/-- Where nothing is pending, everything that a finished instance reaches is
finished. -/
lemma Settled.isIn_of_reaches {bodies : Family} (respects : bodies.RespectsSame) {arity : ℕ}
    {finished : List Instance} (h : Settled bodies arity [] finished) {i j : Instance}
    (hi : i ∈ finished) (hij : bodies.Reaches i j) : j.isIn finished = true := by
  induction hij with
  | refl => exact Application.isIn_of_mem hi
  | @tail j k _ hjk ih =>
      obtain ⟨j', hj', hsame⟩ := Application.isIn_iff.mp ih
      obtain ⟨k', hk', hkk'⟩ := hjk.of_same respects (Application.same_symm hsame)
      rcases h.closed j' hj' k' hk' with hnil | hk'
      · simp [Application.isIn] at hnil
      · exact Application.isIn_of_same (Application.same_symm hkk') hk'

/-- An unguarded cycle is a cycle of unguarded steps up to equality. -/
lemma Family.BareCycle.requires {bodies : Family} (respects : bodies.RespectsSame) {i j : Instance}
    (hij : i.same j = true) (h : bodies.BareCycle i) :
    TransGen (bodies.RequiresOutside []) j j := by
  obtain ⟨k, hki, hcycle⟩ := h
  have hstep : ∀ a b, bodies.BareChild a b → bodies.RequiresOutside [] a b :=
    fun a b hab => ⟨by simp [Application.isIn], b, hab, Application.same_refl b⟩
  exact Family.RequiresOutside.transGen_of_same respects (Application.same_trans hki hij) hij
    (hcycle.lift id hstep)

/-- **A definition that the walk accepts is well-formed.** -/
lemma wellFormed_of_validate {bodies : Family} (respects : bodies.RespectsSame) {config : Config}
    {f : Factory} {d : Description} (h : (validate bodies config f).result = .ok d) :
    bodies.WellFormed f := by
  obtain ⟨finished, hrun⟩ := validate_ok.mp h
  obtain ⟨hsettled, -, hroot⟩ := expand_settled respects Settled.nil hrun
  have hfinished : ∀ i, bodies.Reaches f.generic i → ∃ j ∈ finished, j.same i = true :=
    fun i hi => Application.isIn_iff.mp (hsettled.isIn_of_reaches respects hroot hi)
  refine ⟨fun i hi => ?_, fun i guarded index hi hindex => ?_, ⟨finished, fun i hi => ?_⟩,
    fun i hi hcycle => ?_⟩
  · obtain ⟨j, hj, hji⟩ := hfinished i hi
    obtain ⟨entries, hentries⟩ := hsettled.expands j hj
    obtain ⟨entries', hentries', -⟩ := respects j i entries hji hentries
    exact ⟨entries', hentries'⟩
  · obtain ⟨j, hj, hji⟩ := hfinished i hi
    obtain ⟨u, hu, halike⟩ := hindex.of_same respects (Application.same_symm hji)
    cases halike with
    | param => exact hsettled.owned j hj guarded index hu
  · exact Application.isIn_iff.mpr (hfinished i hi)
  · obtain ⟨j, hj, hji⟩ := hfinished i hi
    exact hsettled.acyclic j hj (hcycle.requires respects (Application.same_symm hji))

/-- **Soundness of the walk over a definition.** A description that it yields is the
expansion of the factory at its placeholders. Everything reachable from there
expands and holds no foreign placeholders, there are finitely many instances up
to equality, and none of them lies on a cycle of unguarded steps. -/
theorem validate_ok_sound (bodies : Family) (respects : bodies.RespectsSame) (config : Config)
    (f : Factory) (d : Description) (h : (validate bodies config f).result = .ok d) :
    bodies.describe f.generic = .ok d ∧ bodies.WellFormed f := by
  refine ⟨?_, wellFormed_of_validate respects h⟩
  obtain ⟨finished, hrun⟩ := validate_ok.mp h
  obtain ⟨-, entries, -, -, hf, rfl, -⟩ := expand_ok.mp hrun
  rw [Family.describe, hf]
  rfl

/-- Rose trees are accepted: the record reaches itself through the variants of a
list only. -/
theorem validate_ok_sound_rose :
    Prelude.bodies.RespectsSame ∧
      ∃ d, (validate Prelude.bodies .standard Prelude.rose.factory).result = .ok d ∧
        Prelude.bodies.describe Prelude.rose.factory.generic = .ok d ∧
          Prelude.bodies.WellFormed Prelude.rose.factory := by
  have respects := Prelude.bodies_templated.respectsSame
  refine ⟨respects, _, rfl, ?_⟩
  exact validate_ok_sound Prelude.bodies respects .standard Prelude.rose.factory _ rfl

end JsonTypes
