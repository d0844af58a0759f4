/-
Templates at arbitrary arguments.

The walk over a definition sees it at its placeholders only. Whatever is reached
at other arguments stands in the place of something reached at the placeholders,
or comes from the arguments, where it is the instance of a factory that the type
applies.

* `Ty.mem_heads_fields`, `Ty.mem_heads_inst`: the factories that a type applies.
* `Ty.WellFormed`: all of them have well-formed definitions.
* `OpenTy.shows_fill`: what a filled type shows is there before the places are
  filled, or is shown by an argument.
* `Family.Templated.exists_entries`: instances with open places expand to entries
  with open places.
* `Templated.exposes_fill`, `Templated.reaches_fill`: so is what a filled instance
  exposes, and what an applied factory reaches.
* `Ty.exists_head_of_reaches`: where the instances come from that a type leads to.
* `expands_of_shows`: below a well-formed type every instance expands.
-/
import JsonTypes.Proofs.Templates
import JsonTypes.Ty.Factories

namespace JsonTypes

open Relation

/-! ### The factories that a type applies -/

namespace Ty

lemma mem_factories {f : Factory} {t : Ty} : f ∈ t.factories ↔ f ∈ t.heads :=
  List.mem_eraseDups

lemma mem_heads_fields {f : Factory} {entries : Table Ty} :
    f ∈ (fields entries).heads ↔ ∃ k, f ∈ (entries.entry k).heads := by
  cases entries
  simp [heads, List.mem_ofFn]

lemma mem_heads_inst {f : Factory} {i : Instance} :
    f ∈ (inst i).heads ↔ f = i.factory ∨ ∃ k, f ∈ (i.arg k).heads := by
  cases i
  simp [heads, List.mem_ofFn]

/-- All factories that a type applies have well-formed definitions. -/
def WellFormed (bodies : Family) (t : Ty) : Prop :=
  ∀ f ∈ t.heads, bodies.WellFormed f

end Ty

/-! ### Open places -/

section Filling

variable {n : ℕ}

/-- The instance that results from filling the open places. -/
def Application.fill (arg : Fin n → Ty) (s : Application (OpenTy n)) : Instance :=
  ⟨s.factory, fun k => (s.arg k).fill arg⟩

/-- **What a filled type shows** is an instance that is there before the places are
filled, in a place where it shows for all arguments, or shows in an argument. -/
lemma OpenTy.shows_fill {arg : Fin n → Ty} {guarded : Bool} {i : Instance} {t : OpenTy n}
    (h : (t.fill arg).Shows guarded (.inst i)) :
    (∃ s : Application (OpenTy n), s.fill arg = i ∧
      ∀ arg', (t.fill arg').Shows guarded (.inst (s.fill arg'))) ∨
        ∃ k guarded', (arg k).Shows guarded' (.inst i) := by
  induction t generalizing guarded with
  | place k => exact Or.inr ⟨k, guarded, h⟩
  | primitive p => cases h
  | container c t ih =>
      cases h with
      | container hinner =>
          refine (ih hinner).imp_left ?_
          rintro ⟨s, rfl, hs⟩
          exact ⟨s, rfl, fun arg' => .container (hs arg')⟩
  | fields entries ih =>
      rw [fill_fields] at h
      cases h with
      | @field _ k _ _ hinner =>
          refine (ih k hinner).imp_left ?_
          rintro ⟨s, rfl, hs⟩
          refine ⟨s, rfl, fun arg' => ?_⟩
          rw [fill_fields]
          exact .field (hs arg')
  | inst s =>
      cases h
      exact Or.inl ⟨s, rfl, fun arg' => .here _⟩
  | param index => cases h

/-- An instance with open places expands to entries with open places, if it expands
at all: filling may come before or after. -/
lemma Family.Templated.exists_entries {bodies : Family} (templated : bodies.Templated)
    {s : Application (OpenTy n)} {arg : Fin n → Ty} {entries : Table Ty}
    (h : bodies (s.fill arg) = .ok entries) :
    ∃ body : Table (OpenTy n),
      ∀ arg', bodies (s.fill arg') = .ok (body.map (OpenTy.fill arg')) := by
  obtain ⟨f, inner⟩ := s
  obtain ⟨body, hbody⟩ := templated.exists_body h
  change Table (OpenTy f.arity) at body
  refine ⟨body.map (OpenTy.bind inner), fun arg' => ?_⟩
  have hentries : (body.map (OpenTy.bind inner)).map (OpenTy.fill arg') =
      body.map (OpenTy.fill fun k => (inner k).fill arg') := by
    simp only [Table.map, OpenTy.fill_bind]
  rw [hentries]
  exact hbody _

/-- **What a filled instance exposes** is exposed before the places are filled, for
all arguments, or shows in an argument. -/
lemma Family.Templated.exposes_fill {bodies : Family} (templated : bodies.Templated)
    {s : Application (OpenTy n)} {arg : Fin n → Ty} {guarded : Bool} {j : Instance}
    (h : bodies.Exposes (s.fill arg) guarded (.inst j)) :
    (∃ s' : Application (OpenTy n), s'.fill arg = j ∧
      ∀ arg', bodies.Exposes (s.fill arg') guarded (.inst (s'.fill arg'))) ∨
        ∃ k guarded', (arg k).Shows guarded' (.inst j) := by
  obtain ⟨entries, hentries, hshows⟩ := h
  obtain ⟨body, hbody⟩ := templated.exists_entries hentries
  obtain rfl := Except.ok.inj (hentries.symm.trans (hbody arg))
  rw [← OpenTy.fill_fields] at hshows
  refine (OpenTy.shows_fill hshows).imp_left ?_
  rintro ⟨s', rfl, hs'⟩
  exact ⟨s', rfl, fun arg' => ⟨_, hbody arg', hs' arg'⟩⟩

end Filling

/-! ### Where instances come from -/

/-- **What an applied factory reaches** is reached for all arguments, with the places
of the arguments filled, or is reached from an argument. -/
lemma Family.Templated.reaches_fill {bodies : Family} (templated : bodies.Templated) {f : Factory}
    {arg : Fin f.arity → Ty} {j : Instance} (h : bodies.Reaches ⟨f, arg⟩ j) :
    (∃ s : Application (OpenTy f.arity), s.fill arg = j ∧
      ∀ arg', bodies.Reaches ⟨f, arg'⟩ (s.fill arg')) ∨
        ∃ k guarded i, (arg k).Shows guarded (.inst i) ∧ bodies.Reaches i j := by
  induction h with
  | refl => exact Or.inl ⟨⟨f, .place⟩, rfl, fun arg' => .refl⟩
  | tail _ hchild ih =>
      rcases ih with ⟨s, rfl, hs⟩ | ⟨k, guarded, i, hshows, hi⟩
      · obtain ⟨guarded, hexposes⟩ := hchild
        rcases templated.exposes_fill hexposes with ⟨s', rfl, hs'⟩ | ⟨k, guarded', hk⟩
        · exact Or.inl ⟨s', rfl, fun arg' => (hs arg').tail ⟨guarded, hs' arg'⟩⟩
        · exact Or.inr ⟨k, guarded', _, hk, .refl⟩
      · exact Or.inr ⟨k, guarded, i, hshows, hi.tail hchild⟩

/-- **Whatever a type leads to** is reached by one of its factories at its placeholders,
with other types filled in. -/
lemma Ty.exists_head_of_reaches {bodies : Family} (templated : bodies.Templated) {t : Ty}
    {guarded : Bool} {i j : Instance} (hi : t.Shows guarded (.inst i))
    (hij : bodies.Reaches i j) :
    ∃ f ∈ t.heads, ∃ (s : Application (OpenTy f.arity)) (arg : Fin f.arity → Ty),
      bodies.Reaches f.generic (s.fill fun k => .param k) ∧ s.fill arg = j := by
  induction t generalizing guarded i with
  | primitive p => cases hi
  | container c t ih =>
      cases hi with
      | container hinner => exact ih hinner hij
  | fields entries ih =>
      cases hi with
      | @field _ k _ _ hinner =>
          obtain ⟨f, hf, hs⟩ := ih k hinner hij
          exact ⟨f, mem_heads_fields.mpr ⟨k, hf⟩, hs⟩
  | inst i' ih =>
      obtain rfl : i = i' := Ty.inst.inj hi.eq_of_inst
      rcases templated.reaches_fill hij with ⟨s, hs, hreaches⟩ | ⟨k, guarded', l, hl, hlj⟩
      · exact ⟨i.factory, mem_heads_inst.mpr (Or.inl rfl), s, i.arg, hreaches _, hs⟩
      · obtain ⟨f, hf, hs⟩ := ih k hl hlj
        exact ⟨f, mem_heads_inst.mpr (Or.inr ⟨k, hf⟩), hs⟩
  | param index => cases hi

/-- **Below a well-formed type every instance expands**, however deep it lies and
whatever the factories are applied to: a template that succeeds at the placeholders
succeeds. -/
lemma expands_of_shows {bodies : Family} (templated : bodies.Templated) {t : Ty}
    (h : t.WellFormed bodies) {guarded : Bool} {i j : Instance}
    (hi : t.Shows guarded (.inst i)) (hij : bodies.Reaches i j) :
    ∃ entries, bodies j = .ok entries := by
  obtain ⟨f, hf, s, arg, hreaches, rfl⟩ := Ty.exists_head_of_reaches templated hi hij
  obtain ⟨entries, hentries⟩ := (h f hf).expands _ hreaches
  obtain ⟨body, hbody⟩ := templated.exists_entries hentries
  exact ⟨_, hbody arg⟩

end JsonTypes
