/-
Accepted definitions have values.

A value of a record needs values for its required fields only: an optional field may
be null, an array or a dictionary empty. The walk has found that unguarded steps do
not run in a circle at the placeholders, and since there are finitely many instances,
they end. At other arguments they end too, since an argument is part of the type that
the definition is applied in. From the end of these chains values are built backwards,
for schemas from a variant that needs no other instance.

* `Family.Ends`: chains of unguarded steps from an instance end. `ends_of_branch`,
  `Family.WellFormed.ends`: they do in a well-formed definition; `Ty.WellFormed.ends`,
  `Ty.WellFormed.ends_of_reaches`: so do they below a well-formed type.
  `Family.Ends.not_bareCycle`: then there is no circle.
* `Ty.HasValue`: types with a value; `Ty.hasValue_of_shows`: a type has one if the
  instances it shows without a guard have.
* `Ty.IsBase`, `Table.HasBase`: payloads without instances, and schemas that offer one.
* `Family.hasValue_of_ends`: instances have values where unguarded steps end.
* `check_inhabited`: a type whose factories are accepted has a value, if schemas have a
  base case.
-/
import JsonTypes.Proofs.Conformance
import JsonTypes.Proofs.Placeholders
import JsonTypes.Proofs.WalkErrors

namespace JsonTypes

open Relation

/-! ### Unguarded steps end -/

/-- Chains of unguarded steps from the instance end. -/
def Family.Ends (bodies : Family) (i : Instance) : Prop :=
  Acc (fun k j => bodies.BareChild j k) i

section Ends

variable {bodies : Family} {i : Instance}

/-- Chains of unguarded steps end below an instance that reaches finitely many
instances and none on a cycle. The induction is on the room that a branch has left. -/
lemma ends_of_branch {cover : List Instance}
    (hcover : ∀ j, bodies.Reaches i j → j.isIn cover = true)
    (hacyclic : ∀ j, bodies.Reaches i j → ¬ bodies.BareCycle j) (room : ℕ) {j : Instance}
    {rest : List Instance} (hbranch : Branch bodies i (j :: rest))
    (hbare : ∀ k ∈ j :: rest, ReflTransGen bodies.BareChild k j)
    (hroom : cover.length < room + (j :: rest).length) :
    bodies.Ends j := by
  induction room generalizing j rest with
  | zero =>
      -- the branch would be longer than the list of all instances
      have hlength := hbranch.length_le hcover
      omega
  | succ room ih =>
      refine Acc.intro j fun k hjk => ?_
      have hik : bodies.Reaches i k :=
        (hbranch.reaches j (List.mem_cons_self ..)).tail ⟨false, hjk.2⟩
      -- whatever is on the branch leads to `j` without a guard, so `k` is new on it
      have hfresh : ¬ k.isIn (j :: rest) = true := by
        intro hk
        obtain ⟨l, hl, hlk⟩ := Application.isIn_iff.mp hk
        exact hacyclic k hik ⟨l, hlk, TransGen.tail' (hbare l hl) hjk⟩
      refine ih (hbranch.step ⟨false, hjk.2⟩ hfresh) ?_ ?_
      · refine List.forall_mem_cons.mpr ⟨.refl, ?_⟩
        intro l hl
        exact (hbare l hl).tail hjk
      · rw [List.length_cons]
        omega

/-- In a well-formed definition chains of unguarded steps end. -/
lemma Family.WellFormed.ends {f : Factory} (h : bodies.WellFormed f)
    (hi : bodies.Reaches f.generic i) : bodies.Ends i := by
  obtain ⟨cover, hcover⟩ := h.finite
  have hbare : ∀ k ∈ [i], ReflTransGen bodies.BareChild k i := by
    intro k hk
    rw [List.mem_singleton.mp hk]
  refine ends_of_branch (fun j hij => hcover j (hi.trans hij))
    (fun j hij => h.acyclic j (hi.trans hij)) cover.length Branch.root hbare ?_
  rw [List.length_singleton]
  omega

/-- Chains of unguarded steps end also where the places of a well-formed definition
are filled, if they do below the arguments. -/
lemma ends_fill (templated : bodies.Templated) {n : ℕ} {arg : Fin n → Ty}
    (harg : ∀ k guarded j, (arg k).Shows guarded (.inst j) → bodies.Ends j)
    (hi : bodies.Ends i) {s : Application (OpenTy n)}
    (hs : (s.fill fun k => .param k) = i) : bodies.Ends (s.fill arg) := by
  induction hi generalizing s with
  | intro i _ ih =>
      refine Acc.intro _ ?_
      rintro j ⟨hkind, hexposes⟩
      -- a step of the body is a step at the placeholders too; others leave for an argument
      rcases templated.exposes_fill hexposes with ⟨s', rfl, hs'⟩ | ⟨k, guarded, hj⟩
      · subst hs
        exact ih _ ⟨hkind, hs' _⟩ rfl
      · exact harg k guarded j hj

/-- **Below a well-formed type chains of unguarded steps end.** The induction is on the
type: a chain that leaves a definition goes on in an argument. -/
lemma Ty.WellFormed.ends (templated : bodies.Templated) {t : Ty} (h : t.WellFormed bodies)
    {guarded : Bool} (hi : t.Shows guarded (.inst i)) : bodies.Ends i := by
  induction t generalizing guarded i with
  | primitive p => cases hi
  | container c t ih =>
      cases hi with
      | container hinner => exact ih h hinner
  | fields entries ih =>
      cases hi with
      | @field _ k _ _ hinner =>
          exact ih k (fun f hf => h f (mem_heads_fields.mpr ⟨k, hf⟩)) hinner
  | inst i' ih =>
      obtain rfl : i = i' := Ty.inst.inj hi.eq_of_inst
      have hfactory : bodies.WellFormed i.factory := h _ (mem_heads_inst.mpr (Or.inl rfl))
      have hplaces : (Application.fill (fun k => .param k) ⟨i.factory, .place⟩) =
          i.factory.generic := rfl
      have harg : ∀ k guarded j, (i.arg k).Shows guarded (.inst j) → bodies.Ends j := by
        intro k guarded' j hj
        exact ih k (fun f hf => h f (mem_heads_inst.mpr (Or.inr ⟨k, hf⟩))) hj
      exact ends_fill templated harg (hfactory.ends .refl) hplaces
  | param index => cases hi

/-- So they do from everything that such a type leads to. -/
lemma Ty.WellFormed.ends_of_reaches (templated : bodies.Templated) {t : Ty}
    (h : t.WellFormed bodies) {guarded : Bool} {j : Instance} (hi : t.Shows guarded (.inst i))
    (hij : bodies.Reaches i j) : bodies.Ends j := by
  induction t generalizing guarded i with
  | primitive p => cases hi
  | container c t ih =>
      cases hi with
      | container hinner => exact ih h hinner hij
  | fields entries ih =>
      cases hi with
      | @field _ k _ _ hinner =>
          exact ih k (fun f hf => h f (mem_heads_fields.mpr ⟨k, hf⟩)) hinner hij
  | inst i' ih =>
      obtain rfl : i = i' := Ty.inst.inj hi.eq_of_inst
      have hfactory : bodies.WellFormed i.factory := h _ (mem_heads_inst.mpr (Or.inl rfl))
      have harg : ∀ k, (i.arg k).WellFormed bodies := fun k f hf =>
        h f (mem_heads_inst.mpr (Or.inr ⟨k, hf⟩))
      rcases templated.reaches_fill hij with ⟨s, rfl, hs⟩ | ⟨k, guarded', l, hl, hlj⟩
      · have hplaces : bodies.Ends (s.fill fun k => .param k) := hfactory.ends (hs _)
        exact ends_fill templated (fun k _ _ hl => (harg k).ends templated hl) hplaces rfl
      · exact ih k (harg k) hl hlj
  | param index => cases hi

/-- Unguarded steps that end do not run in a circle. -/
lemma Family.Ends.not_bareCycle (respects : bodies.RespectsSame) (h : bodies.Ends i) :
    ¬ bodies.BareCycle i := by
  have hchains : Acc (TransGen fun k j => bodies.BareChild j k) i := Acc.transGen h
  clear h
  induction hchains with
  | intro i _ ih =>
      rintro ⟨j, hji, hcycle⟩
      -- once around the cycle, an equal instance lies further down
      obtain ⟨k, hik, hsame⟩ := Family.BareChild.transGen_of_same respects hji hcycle
      have hki : TransGen (fun k j => bodies.BareChild j k) k i := transGen_swap.mpr hik
      exact ih k hki ⟨i, hsame, hik⟩

end Ends

/-! ### Values -/

/-- The type has a value. -/
def Ty.HasValue (bodies : Family) (discriminator : String) (t : Ty) : Prop :=
  ∃ v, Conforms bodies discriminator t v

section Values

variable {bodies : Family} {discriminator : String}

/-- Every primitive type has a value. -/
lemma Primitive.hasValue (p : Primitive) : (Ty.primitive p).HasValue bodies discriminator := by
  cases p with
  | number => exact ⟨.number (.integer 0), .primitive (by simp) rfl⟩
  | string => exact ⟨.string "", .primitive (by simp) rfl⟩
  | boolean => exact ⟨.boolean false, .primitive (by simp) rfl⟩
  | object => exact ⟨.object .empty, .primitive (by simp) rfl⟩

/-- Named fields have a value if each of them has. -/
lemma Ty.hasValue_fields {entries : Table Ty}
    (h : ∀ k, (entries.entry k).HasValue bodies discriminator) :
    (fields entries).HasValue bodies discriminator := by
  choose value hvalue using h
  refine ⟨.object ⟨entries.names, value⟩, .fields (fun name => Iff.rfl) ?_⟩
  intro name t v ht hv
  obtain ⟨k, hk, rfl⟩ := Table.find?_eq_some.mp ht
  obtain ⟨l, hl, rfl⟩ := Table.find?_eq_some.mp hv
  obtain rfl : k = l := Names.index_ext (hk.trans hl.symm)
  exact hvalue k

/-- **A type has a value if the instances it shows without a guard have**, and it shows
no placeholder. Behind a guard stands a null, or nothing. -/
lemma Ty.hasValue_of_shows {t : Ty}
    (hinst : ∀ i, t.Shows false (.inst i) → (inst i).HasValue bodies discriminator)
    (hparam : ∀ index, ¬ t.Shows false (.param index)) : t.HasValue bodies discriminator := by
  induction t with
  | primitive p => exact p.hasValue
  | container c t _ =>
      cases c with
      | optional => exact ⟨.null, .absent⟩
      | repeated => exact ⟨.array ⟨0, fun k => k.elim0⟩, .repeated fun k => k.elim0⟩
      | map => exact ⟨.object .empty, .map fun k => k.elim0⟩
  | fields entries ih =>
      refine hasValue_fields fun k => ih k ?_ ?_
      · exact fun i hi => hinst i (.field hi)
      · exact fun index hindex => hparam index (.field hindex)
  | inst i _ => exact hinst i (.here _)
  | param index => exact absurd (.here _) (hparam index)

/-! ### Base cases -/

/-- A primitive, or named fields of primitives. -/
def Ty.IsBase : Ty → Prop
  | .primitive _ => True
  | .fields entries => ∀ k, ∃ p, entries.entry k = .primitive p
  | _ => False

/-- A variant that is not called like the discriminator needs no other instance. -/
def Table.HasBase (discriminator : String) (variants : Table Ty) : Prop :=
  ∃ name shape, name ≠ discriminator ∧ variants.find? name = some shape ∧ shape.IsBase

/-- Such a payload has a value, which is not null. -/
lemma Ty.IsBase.exists_value (bodies : Family) (discriminator : String) {t : Ty}
    (h : t.IsBase) :
    ∃ v, v ≠ .null ∧ Conforms bodies discriminator t v := by
  have hvalue : t.HasValue bodies discriminator := by
    cases t with
    | primitive p => exact p.hasValue
    | fields entries =>
        refine hasValue_fields fun k => ?_
        obtain ⟨p, hp⟩ := h k
        rw [hp]
        exact p.hasValue
    | container | inst | param => exact h.elim
  obtain ⟨v, hv⟩ := hvalue
  refine ⟨v, ?_, hv⟩
  rintro rfl
  have hoptional := hv.isOptional_of_null
  cases t with
  | primitive | fields => cases hoptional
  | container | inst | param => exact h.elim

/-- A schema with a base case has a value: the name of that variant and its payload. -/
lemma Table.HasBase.hasValue {i : Instance} {variants : Table Ty}
    (h : variants.HasBase discriminator) (hkind : i.factory.kind = .schema)
    (hi : bodies i = .ok variants) : (Ty.inst i).HasValue bodies discriminator := by
  obtain ⟨name, shape, hname, hshape, hbase⟩ := h
  obtain ⟨payload, hpresent, hpayload⟩ := hbase.exists_value bodies discriminator
  refine ⟨.object (.two hname.symm (.string name) payload), ?_⟩
  exact .schema hkind hi (size_two ..) (find?_two_fst ..) hshape (find?_two_snd ..) hpresent
    hpayload

/-- **Instances have values where unguarded steps end**, if everything that they reach
expands, schemas have base cases, and no placeholder is in the way. -/
lemma Family.hasValue_of_ends {i : Instance}
    (hi : bodies.Ends i) (hfree : i.PlaceholderFree)
    (hnone : ∀ f, ¬ bodies.Introduces f)
    (hexpands : ∀ j, bodies.Reaches i j → ∃ entries, bodies j = .ok entries)
    (hbase : ∀ j entries, bodies.Reaches i j → j.factory.kind = .schema →
      bodies j = .ok entries → entries.HasBase discriminator) :
    (Ty.inst i).HasValue bodies discriminator := by
  induction hi with
  | intro i _ ih =>
      obtain ⟨entries, hentries⟩ := hexpands i .refl
      cases hkind : i.factory.kind with
      | schema => exact (hbase i entries .refl hkind hentries).hasValue hkind hentries
      | record =>
          have hplain := hfree.entries (hnone _) hentries
          have hvalue : (Ty.fields entries).HasValue bodies discriminator := by
            refine Ty.hasValue_of_shows ?_ ?_
            · intro j hj
              have hstep : bodies.Child i j := ⟨false, entries, hentries, hj⟩
              exact ih j ⟨hkind, entries, hentries, hj⟩ (hplain.of_shows hj)
                (fun k hjk => hexpands k (hjk.head hstep))
                (fun k variants hjk => hbase k variants (hjk.head hstep))
            · intro index hindex
              exact hplain.of_shows hindex
          obtain ⟨v, hv⟩ := hvalue
          exact ⟨v, .record hkind hentries hv⟩

end Values

/-! ### Accepted definitions -/

/-- **Accepted definitions are inhabited.** Let the bodies be templates that introduce
no placeholders. A type without placeholders has a value that its check accepts, if the
walk accepts every factory that it applies and every schema that it leads to offers a
variant without instances under another name than the discriminator. -/
theorem check_inhabited (bodies : Family) (templated : bodies.Templated)
    (plain : ∀ f, ¬ bodies.Introduces f) (config : Config) (t : Ty) (free : t.PlaceholderFree)
    (validated : ∀ f ∈ t.factories, ∃ config d, (validate bodies config f).result = .ok d)
    (base : ∀ guarded i j variants, t.Shows guarded (.inst i) → bodies.Reaches i j →
      j.factory.kind = .schema → bodies j = .ok variants →
        variants.HasBase config.discriminator) :
    ∃ v, (check bodies config t v).result = .ok v := by
  have hwf : t.WellFormed bodies := by
    intro f hf
    obtain ⟨_, _, hd⟩ := validated f (Ty.mem_factories.mpr hf)
    exact wellFormed_of_validate templated.respectsSame hd
  have hvalue : t.HasValue bodies config.discriminator := by
    refine Ty.hasValue_of_shows ?_ (fun index hindex => free.of_shows hindex)
    intro i hi
    have hends : bodies.Ends i := hwf.ends templated hi
    have hexpands : ∀ j, bodies.Reaches i j → ∃ entries, bodies j = .ok entries :=
      fun j hij => expands_of_shows templated hwf hi hij
    exact Family.hasValue_of_ends hends (free.of_shows hi) plain hexpands
      fun j entries hij => base false i j entries hi hij
  obtain ⟨v, hv⟩ := hvalue
  exact ⟨v, check_of_conforms hv⟩

/-! ### Lists of records -/

/-- A list leads to itself and to what the type of its items shows. -/
lemma Prelude.list_child {t : Ty} {j : Instance}
    (h : Prelude.bodies.Child ⟨Prelude.list.factory, fun _ => t⟩ j) :
    j = ⟨Prelude.list.factory, fun _ => t⟩ ∨ ∃ guarded, t.Shows guarded (.inst j) := by
  obtain ⟨guarded, entries, hentries, hshows⟩ := h
  obtain rfl := Except.ok.inj hentries
  cases hshows with
  | @field _ variant _ _ hvariant =>
      match variant with
      | ⟨0, _⟩ =>
          -- `Nil` has no fields
          cases hvariant with
          | @field _ field _ _ _ => exact field.elim0
      | ⟨1, _⟩ =>
          cases hvariant with
          | @field _ field _ _ hfield =>
              match field with
              | ⟨0, _⟩ => exact Or.inr ⟨_, hfield⟩
              | ⟨1, _⟩ =>
                  obtain rfl := Ty.inst.inj hfield.eq_of_inst
                  exact Or.inl (Application.ext_unary rfl rfl)

/-- A list of records with an optional field of their own type leads to itself and to
these records. -/
lemma Prelude.reaches_list_recursive {j : Instance}
    (h : Prelude.bodies.Reaches
      ⟨Prelude.list.factory, fun _ => .inst Prelude.recursive.factory.generic⟩ j) :
    j = ⟨Prelude.list.factory, fun _ => .inst Prelude.recursive.factory.generic⟩ ∨
      j = Prelude.recursive.factory.generic := by
  induction h with
  | refl => exact Or.inl rfl
  | tail _ hchild ih =>
      rcases ih with rfl | rfl
      · refine (Prelude.list_child hchild).imp_right ?_
        rintro ⟨guarded, hshows⟩
        exact Ty.inst.inj hshows.eq_of_inst
      · exact Or.inr (Prelude.reaches_recursive (.single hchild))

/-- Such lists have a value: the schema offers `Nil`, and the records need no value of
their own type. -/
theorem check_inhabited_list :
    Prelude.bodies.Templated ∧ (∀ f, ¬ Prelude.bodies.Introduces f) ∧
      ∃ t : Ty, t.PlaceholderFree ∧
        t.factories = [Prelude.list.factory, Prelude.recursive.factory] ∧
        (∀ f ∈ t.factories, ∃ config d, (validate Prelude.bodies config f).result = .ok d) ∧
        ∃ v, (check Prelude.bodies .standard t v).result = .ok v := by
  let t : Ty := .inst ⟨Prelude.list.factory, fun _ => .inst Prelude.recursive.factory.generic⟩
  have hfree : t.PlaceholderFree := fun _ k => k.elim0
  have hfactories : t.factories = [Prelude.list.factory, Prelude.recursive.factory] := by decide
  have hvalidated : ∀ f ∈ t.factories, ∃ config d,
      (validate Prelude.bodies config f).result = .ok d := by
    rw [hfactories]
    intro f hf
    rcases List.mem_pair.mp hf with rfl | rfl
    · exact ⟨.standard, _, rfl⟩
    · exact ⟨.standard, _, rfl⟩
  refine ⟨Prelude.bodies_templated, Prelude.bodies_not_introduces, t, hfree, hfactories,
    hvalidated, ?_⟩
  refine check_inhabited Prelude.bodies Prelude.bodies_templated Prelude.bodies_not_introduces
    .standard t hfree hvalidated ?_
  intro guarded i j variants hi hij hkind hj
  obtain rfl := Ty.inst.inj hi.eq_of_inst
  rcases Prelude.reaches_list_recursive hij with rfl | rfl
  · obtain rfl := Except.ok.inj hj
    exact ⟨"Nil", .unit, by decide, rfl, fun k => k.elim0⟩
  · cases hkind

end JsonTypes
