/-
Placeholders that outlive the walk.

The walk over a definition refuses a placeholder only if its number is none of the
definition's own. A placeholder does not say whose it is, so one that a body holds
of its own passes wherever the definition has enough parameters, and it is still
there when the definition is applied.

* `Family.Accepts`: the walk accepts the definition of a factory.
* `Family.FreeBelow`: no description below an instance holds a placeholder.
  `FreeBelow.not_namesPlaceholder`: then no check against it comes to one.
* `freeBelow_of_shows`: this is so below a type without placeholders if nothing that
  its factories reach introduces one; `not_introduces_of_freeBelow`: and only then.
* `freeBelow_iff_not_introduces`: accepted definitions keep placeholders from checks
  if and only if none of them reaches a body that introduces one.
-/
import JsonTypes.Proofs.CheckErrors
import JsonTypes.Proofs.Placeholders

namespace JsonTypes

namespace Family

variable (bodies : Family)

/-- The walk accepts the definition of the factory, with some configuration. -/
def Accepts (f : Factory) : Prop :=
  ∃ config d, (validate bodies config f).result = .ok d

/-- No placeholder occurs in the description of anything that the instance reaches. -/
def FreeBelow (i : Instance) : Prop :=
  ∀ j entries, bodies.Reaches i j → bodies j = .ok entries → (Ty.fields entries).PlaceholderFree

end Family

variable {bodies : Family}

/-- Where no description holds a placeholder, no check fails for not matching one. -/
lemma Family.FreeBelow.not_namesPlaceholder {i : Instance} (h : bodies.FreeBelow i)
    {config : Config} {v : Json} {e : CheckError}
    (he : (check bodies config (.inst i) v).result = .error e) : ¬ e.NamesPlaceholder := by
  intro hnames
  obtain ⟨index, hindex⟩ := v.reveals_of_check (check_error.mp he) hnames
  rcases hindex.shows_or_exposes with ⟨guarded, hshows⟩ | ⟨_, i', j, _, hshows, hij, hj⟩
  · cases hshows
  · obtain rfl := Ty.inst.inj hshows.eq_of_inst
    obtain ⟨entries, hentries, hparam⟩ := hj
    exact (h j entries hij hentries).of_shows hparam

/-- Steps lead from instances without placeholders to such instances, as long as no
body introduces one. -/
lemma Application.PlaceholderFree.of_reaches {i j : Instance}
    (hnone : ∀ k, bodies.Reaches i k → ¬ bodies.Introduces k.factory) (hi : i.PlaceholderFree)
    (hij : bodies.Reaches i j) : j.PlaceholderFree := by
  induction hij with
  | refl => exact hi
  | tail hreaches hchild ih =>
      obtain ⟨guarded, hexposes⟩ := hchild
      exact ih.of_exposes (hnone _ hreaches) hexposes

/-- Below a type without placeholders there are none, if nothing that its factories
reach at their placeholders introduces any. -/
lemma freeBelow_of_shows (templated : bodies.Templated) {t : Ty} (hfree : t.PlaceholderFree)
    (hnone : ∀ f ∈ t.heads, ∀ j, bodies.Reaches f.generic j → ¬ bodies.Introduces j.factory)
    {guarded : Bool} {i : Instance} (hi : t.Shows guarded (.inst i)) : bodies.FreeBelow i := by
  have hbelow : ∀ k, bodies.Reaches i k → ¬ bodies.Introduces k.factory := by
    intro k hik
    obtain ⟨f, hf, s, arg, hreaches, rfl⟩ := Ty.exists_head_of_reaches templated hi hik
    have hfactory : ¬ bodies.Introduces s.factory := hnone f hf _ hreaches
    exact hfactory
  have hfirst : i.PlaceholderFree := Ty.placeholderFree_inst.mp (hfree.of_shows hi)
  intro j entries hij hentries
  have hj : j.PlaceholderFree := hfirst.of_reaches hbelow hij
  exact hj.entries (hbelow j hij) hentries

/-- If no description below a factory applied to numbers holds a placeholder, then
nothing that the factory reaches at its placeholders introduces one. -/
lemma not_introduces_of_freeBelow (templated : bodies.Templated) {f : Factory}
    (h : bodies.FreeBelow ⟨f, fun _ => .number⟩) {j : Instance}
    (hj : bodies.Reaches f.generic j) : ¬ bodies.Introduces j.factory := by
  rintro ⟨arg, entries, harg, hentries, hfree⟩
  rcases templated.reaches_fill hj with ⟨s, rfl, hs⟩ | ⟨k, guarded, i, hi, -⟩
  · -- the same body at numbers, where no description holds a placeholder
    obtain ⟨body, hbody⟩ := templated.exists_body hentries
    obtain rfl := Except.ok.inj (hentries.symm.trans (hbody arg))
    have hnumbers := h _ _ (hs fun _ => .number) (hbody _)
    exact hfree fun k => OpenTy.placeholderFree_fill (hnumbers k) harg
  · cases hi

/-- **What keeps placeholders from checks.** No description below an accepted
definition, applied to types without placeholders whose factories are accepted, holds
a placeholder, and no check against it fails for not matching one, if and only if no
accepted definition reaches a body that introduces one. The walk itself does not see to
that. -/
theorem freeBelow_iff_not_introduces (bodies : Family) (templated : bodies.Templated) :
    (∀ (f : Factory) (arg : Fin f.arity → Ty), bodies.Accepts f →
        (∀ k, (arg k).PlaceholderFree ∧ ∀ g ∈ (arg k).factories, bodies.Accepts g) →
          bodies.FreeBelow ⟨f, arg⟩ ∧ ∀ config v e,
            (check bodies config (.inst ⟨f, arg⟩) v).result = .error e → ¬ e.NamesPlaceholder) ↔
      ∀ f j, bodies.Accepts f → bodies.Reaches f.generic j → ¬ bodies.Introduces j.factory := by
  constructor
  · intro hfree f j hf hj
    have hnumbers : bodies.FreeBelow ⟨f, fun _ => .number⟩ := by
      refine (hfree f (fun _ => .number) hf fun k => ⟨trivial, ?_⟩).1
      intro g hg
      cases Ty.mem_factories.mp hg
    exact not_introduces_of_freeBelow templated hnumbers hj
  · intro hnone f arg hf harg
    have hheads : ∀ g ∈ (Ty.inst ⟨f, arg⟩).heads, bodies.Accepts g := by
      intro g hg
      rcases Ty.mem_heads_inst.mp hg with rfl | ⟨k, hk⟩
      · exact hf
      · exact (harg k).2 g (Ty.mem_factories.mpr hk)
    have hplain : (Ty.inst ⟨f, arg⟩).PlaceholderFree := fun k => (harg k).1
    have hbelow : bodies.FreeBelow ⟨f, arg⟩ :=
      freeBelow_of_shows templated hplain (fun g hg j hj => hnone g j (hheads g hg) hj) (.here _)
    exact ⟨hbelow, fun config v e he => hbelow.not_namesPlaceholder he⟩

/-- The ready-made definitions keep placeholders from checks, since none of them looks
into another one. -/
theorem freeBelow_ready_made :
    Prelude.bodies.Templated ∧
      ∀ (f : Factory) (arg : Fin f.arity → Ty), Prelude.bodies.Accepts f →
        (∀ k, (arg k).PlaceholderFree ∧ ∀ g ∈ (arg k).factories, Prelude.bodies.Accepts g) →
          Prelude.bodies.FreeBelow ⟨f, arg⟩ ∧ ∀ config v e,
            (check Prelude.bodies config (.inst ⟨f, arg⟩) v).result = .error e →
              ¬ e.NamesPlaceholder := by
  refine ⟨Prelude.bodies_templated, ?_⟩
  refine (freeBelow_iff_not_introduces Prelude.bodies Prelude.bodies_templated).mpr ?_
  exact fun f j _ _ => Prelude.bodies_not_introduces j.factory

/-- `{ item: Maybe.Just }`, with a parameter: the payload is taken from the definition
of another factory, and so is the placeholder in it. -/
def box : Factory := ⟨7, "Box", .record, 1⟩

/-- The bodies of the ready-made definitions and of that record. -/
def boxBodies : Family :=
  ((Workspace.start .standard true).register "Box" .record 1
    [("item", .entry "Maybe" "Just")]).2.family

/-- The placeholder of another definition is accepted as one of its own, is left over
when the definition is applied to numbers, and meets a value in a check. -/
theorem box_placeholder_left :
    boxBodies.Templated ∧ boxBodies.Accepts box ∧ Ty.number.PlaceholderFree ∧
      Ty.number.factories = [] ∧ ¬ boxBodies.FreeBelow ⟨box, fun _ => .number⟩ ∧
      ∃ v path, (check boxBodies .standard (.inst ⟨box, fun _ => .number⟩) v).result =
        .error (.validation ⟨path, .typeMismatch "a" "number"⟩) := by
  refine ⟨Workspace.family_templated _, ⟨.standard, _, rfl⟩, trivial, rfl, ?_, ?_⟩
  · intro hfree
    have hentries := hfree ⟨box, fun _ => .number⟩ _ .refl rfl
    exact hentries ⟨0, by decide⟩ ⟨0, by decide⟩
  · exact ⟨.ofMembers [("item", .ofMembers [("fromJust", .number (.integer 1))])], _, rfl⟩

end JsonTypes
