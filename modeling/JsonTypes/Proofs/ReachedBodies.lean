/-
Bodies that are not reached do not matter.

The walk over a definition asks for the bodies of reachable instances only. A family can be
cut down to some of its factories, and a definition that reaches no others keeps its verdict.
So what is known of families whose bodies are all templates bears on every definition that
reaches templates only, whatever the bodies of other factories are.

* `Family.within`: the bodies of some of the factories.
* `Family.Reaches.of_within`, `Family.Reaches.within`: what is reachable there.
* `Family.TemplatedAt`, `Family.templated_within`: some of the bodies are templates.
* `validate_within`: the verdict on a definition that reaches no other factories.
-/
import JsonTypes.Proofs.DepthLimits
import JsonTypes.Proofs.ForeignPlaceholders

namespace JsonTypes

open Relation

namespace Family

open Classical in
/-- The bodies of some of the factories. Those of the others fail. -/
noncomputable def within (bodies : Family) (kept : Factory → Prop) : Family := fun i =>
  if kept i.factory then bodies i else .error (.internal "none of these factories")

variable {bodies : Family} {kept : Factory → Prop} {f : Factory} {i j : Instance}

lemma within_of (h : kept i.factory) : bodies.within kept i = bodies i :=
  if_pos h

/-- What expands is an instance of one of these factories, and expands as it did. -/
lemma of_within_ok {entries : Table Ty} (h : bodies.within kept i = .ok entries) :
    kept i.factory ∧ bodies i = .ok entries := by
  by_cases hi : kept i.factory
  · exact ⟨hi, (within_of hi).symm.trans h⟩
  · cases (if_neg hi).symm.trans h

/-! ### What is reachable -/

lemma Child.of_within (h : (bodies.within kept).Child i j) : bodies.Child i j := by
  obtain ⟨guarded, entries, hentries, hshows⟩ := h
  exact ⟨guarded, entries, (of_within_ok hentries).2, hshows⟩

lemma Reaches.of_within (h : (bodies.within kept).Reaches i j) : bodies.Reaches i j :=
  ReflTransGen.mono (fun _ _ => Child.of_within) _ _ h

/-- What is reachable stays reachable, if no other factories come up on the way. -/
lemma Reaches.within (stays : ∀ k, (bodies.within kept).Reaches i k → kept k.factory)
    (h : bodies.Reaches i j) : (bodies.within kept).Reaches i j := by
  induction h with
  | refl => exact .refl
  | tail _ hchild ih =>
      obtain ⟨guarded, entries, hentries, hshows⟩ := hchild
      exact ih.tail ⟨guarded, entries, (within_of (stays _ ih)).trans hentries, hshows⟩

/-- No body introduces placeholders that did not. -/
lemma Introduces.of_within (h : (bodies.within kept).Introduces f) : bodies.Introduces f := by
  obtain ⟨arg, entries, harg, hentries, hfree⟩ := h
  exact ⟨arg, entries, harg, (of_within_ok hentries).2, hfree⟩

/-! ### Templates -/

/-- The body of a factory is a template: it fails for all arguments, or it has fixed entries
with places for the arguments. -/
def TemplatedAt (bodies : Family) (f : Factory) : Prop :=
  (∀ arg, ∃ e, bodies ⟨f, arg⟩ = .error e) ∨
    ∃ body : Table (OpenTy f.arity), ∀ arg, bodies ⟨f, arg⟩ = .ok (body.map (OpenTy.fill arg))

/-- Without parameters there is nothing to fill. -/
lemma templatedAt_of_arity {entries : Table Ty} (harity : f.arity = 0)
    (h : bodies f.generic = .ok entries) : bodies.TemplatedAt f := by
  refine Or.inr ⟨entries.map OpenTy.closed, fun arg => ?_⟩
  have hgeneric : arg = fun k => .param k := funext fun k => (Fin.cast harity k).elim0
  have hfill : (entries.map OpenTy.closed).map (OpenTy.fill arg) = entries := by
    simp only [Table.map, OpenTy.fill_closed]
  rw [hfill, hgeneric]
  exact h

/-- The body of a factory is kept as the template that it is. -/
lemma TemplatedAt.within (h : bodies.TemplatedAt f) (hf : kept f) :
    (bodies.within kept).TemplatedAt f :=
  h.imp (fun hfails arg => (hfails arg).imp fun _ => (within_of hf).trans)
    (Exists.imp fun _ hbody arg => (within_of hf).trans (hbody arg))

/-- **Where some of the bodies are templates**, all of these are. -/
lemma templated_within (h : ∀ f, kept f → bodies.TemplatedAt f) :
    (bodies.within kept).Templated := by
  intro f
  by_cases hf : kept f
  · exact (h f hf).within hf
  · exact Or.inl fun arg => ⟨_, if_neg hf⟩

end Family

/-! ### The walk -/

variable {bodies : Family} {kept : Factory → Prop} {f : Factory}

/-- **A definition that reaches no other factories keeps its verdict**, and all that the walk
reports, if the walk has room. -/
lemma validate_within {config : Config}
    (reached : ∀ i, bodies.Reaches f.generic i → kept i.factory)
    (hroom : ∀ i, ¬ f.OverrunsAt bodies config.maxDepth i) :
    validate (bodies.within kept) config f = validate bodies config f :=
  validate_widen le_rfl hroom fun i hi => Family.within_of (reached i hi)

/-- It stays accepted: then there was room. -/
lemma Family.Accepts.within (h : bodies.Accepts f)
    (reached : ∀ i, bodies.Reaches f.generic i → kept i.factory) :
    (bodies.within kept).Accepts f := by
  obtain ⟨config, d, hd⟩ := h
  have hroom : ∀ i, ¬ f.OverrunsAt bodies config.maxDepth i := by
    intro i hi
    cases hi.validate_error.symm.trans hd
  refine ⟨config, d, ?_⟩
  rw [validate_within reached hroom, hd]

end JsonTypes
