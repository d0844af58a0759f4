/-
Placeholders in types, and bodies that bring none along.

A placeholder stands for an argument while a definition is walked. A template can
hold one of its own only if it was taken from the definition of another factory;
then it stays where it is, whatever the arguments are.

* `Ty.PlaceholderFree`: types without placeholders, inside the arguments of
  instances too.
* `Ty.subst`: types in the places of placeholders; `Ty.Shows.subst`,
  `BareChild.subst`: substitution keeps what a type shows, and unguarded steps.
* `Family.Introduces`: the body of a factory holds a placeholder of its own.
  `PlaceholderFree.of_exposes`: other bodies keep instances free of them;
  `Templated.subst`: their entries at substituted arguments are the entries
  substituted.
* `Template.plain`: templates that look into no definition; `Family.PlainAt`: bodies that are
  such templates. `PlainAt.not_introduces`, `Workspace.not_introduces`: they introduce no
  placeholder.
-/
import JsonTypes.Proofs.Instantiation
import JsonTypes.Proofs.Traces

namespace JsonTypes

/-! ### Types without placeholders -/

/-- No placeholder occurs in the type, neither in the arguments of instances. -/
def Ty.PlaceholderFree : Ty → Prop
  | .primitive _ => True
  | .container _ t => t.PlaceholderFree
  | .fields ⟨_, entry⟩ => ∀ k, (entry k).PlaceholderFree
  | .inst ⟨_, arg⟩ => ∀ k, (arg k).PlaceholderFree
  | .param _ => False

/-- No placeholder occurs in the arguments of the instance. -/
def Application.PlaceholderFree (i : Instance) : Prop :=
  ∀ k, (i.arg k).PlaceholderFree

lemma Ty.placeholderFree_fields {entries : Table Ty} :
    (fields entries).PlaceholderFree ↔ ∀ k, (entries.entry k).PlaceholderFree :=
  Iff.rfl

lemma Ty.placeholderFree_inst {i : Instance} :
    (inst i).PlaceholderFree ↔ i.PlaceholderFree :=
  Iff.rfl

/-- What a type without placeholders shows holds none either. -/
lemma Ty.PlaceholderFree.of_shows {t u : Ty} {guarded : Bool} (h : t.PlaceholderFree)
    (hshows : t.Shows guarded u) : u.PlaceholderFree := by
  induction hshows with
  | here t => exact h
  | container _ ih => exact ih h
  | field _ ih => exact ih (placeholderFree_fields.mp h _)

/-! ### Substitution -/

section Substitution

variable {n : ℕ} (arg : Fin n → Ty)

/-- The type with types in the places of the first `n` placeholders. -/
def Ty.subst : Ty → Ty
  | .primitive p => .primitive p
  | .container c t => .container c t.subst
  | .fields ⟨names, entry⟩ => .fields ⟨names, fun k => (entry k).subst⟩
  | .inst ⟨f, inner⟩ => .inst ⟨f, fun k => (inner k).subst⟩
  | .param index => if h : index < n then arg ⟨index, h⟩ else .param index

/-- The instance with types in the places of the first `n` placeholders. -/
def Application.subst (i : Instance) : Instance :=
  ⟨i.factory, fun k => (i.arg k).subst arg⟩

lemma Ty.subst_fields (entries : Table Ty) :
    (fields entries).subst arg = .fields (entries.map (subst arg)) := rfl

variable {arg}

/-- Substitution keeps what a type shows, in equally guarded places. -/
lemma Ty.Shows.subst {t u : Ty} {guarded : Bool} (h : t.Shows guarded u) :
    (t.subst arg).Shows guarded (u.subst arg) := by
  induction h with
  | here t => exact .here _
  | container _ ih => exact .container ih
  | @field entries k _ _ _ ih =>
      rw [subst_fields]
      exact .field ih

/-- Equal instances stay equal. -/
lemma Ty.Alike.subst {t u : Ty} (h : t.Alike u) : (t.subst arg).Alike (u.subst arg) := by
  induction h with
  | primitive p => exact .primitive p
  | container _ ih => exact .container ih
  | @fields a b hnames _ ih =>
      rw [subst_fields, subst_fields]
      refine .fields hnames ?_
      intro name t u ht hu
      rw [Table.find?_map] at ht hu
      obtain ⟨t', ht', rfl⟩ := Option.map_eq_some_iff.mp ht
      obtain ⟨u', hu', rfl⟩ := Option.map_eq_some_iff.mp hu
      exact ih name t' u' ht' hu'
  | inst _ ih => exact .inst ih
  | param index => exact .refl _

lemma Application.same_subst {i j : Instance} (h : i.same j = true) :
    (i.subst arg).same (j.subst arg) = true :=
  same_iff.mpr (same_iff.mp h).subst

/-- The definition of a factory, with the arguments in the places of its
placeholders, is the factory applied to them. -/
lemma Factory.subst_generic (f : Factory) (arg : Fin f.arity → Ty) :
    f.generic.subst arg = ⟨f, arg⟩ := by
  rw [Application.subst, generic]
  congr 1
  funext k
  exact dif_pos k.isLt

end Substitution

/-! ### Open places -/

namespace OpenTy

variable {m n : ℕ} {arg arg' : Fin n → Ty} {t : OpenTy n}

/-- A filled type without placeholders has none of its own: filled otherwise it
holds those of the arguments only. -/
lemma placeholderFree_fill (h : (t.fill arg).PlaceholderFree)
    (harg : ∀ k, (arg' k).PlaceholderFree) : (t.fill arg').PlaceholderFree := by
  induction t with
  | place k => exact harg k
  | primitive p => trivial
  | container c t ih => exact ih h
  | fields entries ih => exact fun k => ih k (h k)
  | inst s ih => exact fun k => ih k (h k)
  | param index => exact h.elim

/-- A type without placeholders of its own may be substituted before or after the
places are filled. -/
lemma subst_fill (h : (t.fill arg).PlaceholderFree) (outer : Fin m → Ty) :
    (t.fill arg').subst outer = t.fill fun k => (arg' k).subst outer := by
  induction t with
  | place k => rfl
  | primitive p => rfl
  | container c t ih =>
      rw [fill, fill, Ty.subst, ih h]
  | fields entries ih =>
      have hentry := fun k => ih k (h k)
      simp only [fill, Ty.subst, hentry]
  | inst s ih =>
      have harg := fun k => ih k (h k)
      simp only [fill, Ty.subst, harg]
  | param index => exact h.elim

end OpenTy

/-! ### Bodies -/

/-- The body of a factory introduces placeholders: its entries hold one although
no argument does. -/
def Family.Introduces (bodies : Family) (f : Factory) : Prop :=
  ∃ arg entries, (∀ k, (arg k).PlaceholderFree) ∧ bodies ⟨f, arg⟩ = .ok entries ∧
    ¬ (Ty.fields entries).PlaceholderFree

section Bodies

variable {bodies : Family} {i : Instance}

/-- Without placeholders in the arguments there are none in the entries. -/
lemma Application.PlaceholderFree.entries {entries : Table Ty}
    (hnone : ¬ bodies.Introduces i.factory) (hi : i.PlaceholderFree)
    (h : bodies i = .ok entries) :
    (Ty.fields entries).PlaceholderFree := by
  by_contra hentries
  exact hnone ⟨i.arg, entries, hi, h, hentries⟩

/-- What such a body exposes holds no placeholders. -/
lemma Application.PlaceholderFree.of_exposes {guarded : Bool} {t : Ty}
    (hnone : ¬ bodies.Introduces i.factory) (hi : i.PlaceholderFree)
    (h : bodies.Exposes i guarded t) : t.PlaceholderFree := by
  obtain ⟨entries, hentries, hshows⟩ := h
  exact (hi.entries hnone hentries).of_shows hshows

/-- A template that introduces no placeholders has fixed entries without
placeholders. -/
lemma Family.Templated.exists_plain_body {entries : Table Ty} (templated : bodies.Templated)
    (hnone : ¬ bodies.Introduces i.factory) (h : bodies i = .ok entries) :
    ∃ body : Table (OpenTy i.factory.arity),
      (∀ arg, bodies ⟨i.factory, arg⟩ = .ok (body.map (OpenTy.fill arg))) ∧
        ∀ k, ((body.entry k).fill fun _ => .number).PlaceholderFree := by
  obtain ⟨body, hbody⟩ := templated.exists_body h
  refine ⟨body, hbody, ?_⟩
  by_contra hfree
  exact hnone ⟨fun _ => .number, _, fun _ => trivial, hbody _, hfree⟩

/-- **Substitution before or after expansion.** At substituted arguments a template
that introduces no placeholders has its entries substituted. -/
lemma Family.Templated.subst {entries : Table Ty} (templated : bodies.Templated)
    (hnone : ¬ bodies.Introduces i.factory) (h : bodies i = .ok entries) {n : ℕ}
    (arg : Fin n → Ty) : bodies (i.subst arg) = .ok (entries.map (Ty.subst arg)) := by
  obtain ⟨body, hbody, hplain⟩ := templated.exists_plain_body hnone h
  obtain rfl : entries = body.map (OpenTy.fill i.arg) :=
    Except.ok.inj (h.symm.trans (hbody i.arg))
  have hmap : (body.map (OpenTy.fill i.arg)).map (Ty.subst arg) =
      body.map (OpenTy.fill fun k => (i.arg k).subst arg) := by
    simp only [Table.map, OpenTy.subst_fill (hplain _)]
  rw [hmap]
  exact hbody _

/-- Unguarded steps of templates that introduce no placeholders are steps at all
substituted arguments. -/
lemma Family.BareChild.subst {j : Instance} (templated : bodies.Templated)
    (hnone : ¬ bodies.Introduces i.factory) (h : bodies.BareChild i j) {n : ℕ}
    (arg : Fin n → Ty) : bodies.BareChild (i.subst arg) (j.subst arg) := by
  obtain ⟨hkind, entries, hentries, hshows⟩ := h
  exact ⟨hkind, _, templated.subst hnone hentries arg, hshows.subst⟩

end Bodies

/-! ### Templates -/

namespace Template

mutual

/-- Whether a template looks into no definition. -/
def plain : Template → Bool
  | .primitive _ | .arg _ | .bound _ => true
  | .container _ t => t.plain
  | .containerOf _ args | .this args | .factory _ args | .ref _ args => allPlain args
  | .fields entries => fieldsPlain entries
  | .entry _ _ => false

/-- Whether no template of a list looks into a definition. -/
def allPlain : List Template → Bool
  | [] => true
  | t :: rest => t.plain && allPlain rest

/-- Whether no named template of a list looks into a definition. -/
def fieldsPlain : List (String × Template) → Bool
  | [] => true
  | (_, t) :: rest => t.plain && fieldsPlain rest

end

end Template

/-- What a scope offers holds no placeholders: neither the bound types nor the
arguments of the factory being defined. -/
structure Scope.PlaceholderFree (scope : Scope) : Prop where
  bindings : ∀ name t, scope.bindings.find? name = some t → t.PlaceholderFree
  this : ∀ i, scope.this = some i → i.PlaceholderFree

/-- A factory applied to types without placeholders has none in its arguments. -/
lemma Factory.apply_placeholderFree {f : Factory} {types : List Ty} {i : Instance}
    (htypes : ∀ t ∈ types, t.PlaceholderFree) (h : f.apply types = .ok i) :
    i.PlaceholderFree := by
  obtain ⟨-, rfl⟩ := apply_ok.mp h
  exact fun k => htypes _ (List.mem_ofFn.mpr ⟨k, rfl⟩)

lemma Container.apply_placeholderFree {c : Container} {types : List Ty} {t : Ty}
    (htypes : ∀ t ∈ types, t.PlaceholderFree) (h : c.apply types = .ok t) :
    t.PlaceholderFree := by
  obtain ⟨u, rfl, rfl⟩ := apply_ok.mp h
  exact htypes u (List.mem_singleton_self u)

lemma Registry.apply_placeholderFree {registry : Registry} {name : String} {types : List Ty}
    {t : Ty} (htypes : ∀ t ∈ types, t.PlaceholderFree) (h : registry.apply name types = .ok t) :
    t.PlaceholderFree := by
  obtain ⟨i, -, rfl, rfl⟩ := apply_ok.mp h
  exact fun k => htypes _ (List.mem_ofFn.mpr ⟨k, rfl⟩)

lemma Scope.applyThis_placeholderFree {scope : Scope} {types : List Ty} {t : Ty}
    (htypes : ∀ u ∈ types, u.PlaceholderFree) (h : scope.applyThis types = .ok t) :
    t.PlaceholderFree := by
  rw [applyThis] at h
  split at h
  · obtain ⟨i, hi, rfl⟩ := except_map_ok.mp h
    exact Factory.apply_placeholderFree htypes hi
  · cases h

namespace Scope.PlaceholderFree

variable {scope : Scope} {t : Ty}

lemma arg (h : scope.PlaceholderFree) {index : ℕ} (ht : scope.arg index = .ok t) :
    t.PlaceholderFree := by
  rw [Scope.arg] at ht
  split at ht
  · next u hu =>
    obtain rfl := Except.ok.inj ht
    obtain ⟨i, hi, hu⟩ := Option.bind_eq_some_iff.mp hu
    obtain ⟨k, rfl⟩ := List.mem_ofFn.mp (List.mem_of_getElem? hu)
    exact h.this i hi k
  · cases ht

lemma bound (h : scope.PlaceholderFree) {name : String} (ht : scope.bound name = .ok t) :
    t.PlaceholderFree := by
  rw [Scope.bound] at ht
  split at ht
  · next u hu =>
    obtain rfl := Except.ok.inj ht
    exact h.bindings name u hu
  · cases ht

end Scope.PlaceholderFree

namespace Template

variable {scope : Scope}

mutual

/-- **A template that looks into no definition** has a type without placeholders. There
is no case for `entry`, which is not plain. -/
lemma eval_placeholderFree (hscope : scope.PlaceholderFree) :
    ∀ (t : Template) {type : Ty}, t.plain = true → t.eval scope = .ok type → type.PlaceholderFree
  | .primitive name, _, _, h => by
      rw [eval, Ty.ofPrimitiveName] at h
      split at h
      · obtain rfl := Except.ok.inj h
        trivial
      · cases h
  | .container c t, _, hplain, h => by
      obtain ⟨type, htype, h⟩ := except_bind_ok.mp h
      obtain rfl := Except.ok.inj h
      have hpart : type.PlaceholderFree := eval_placeholderFree hscope t hplain htype
      exact hpart
  | .containerOf c args, _, hplain, h => by
      obtain ⟨types, htypes, h⟩ := except_bind_ok.mp h
      exact c.apply_placeholderFree (evalAll_placeholderFree hscope args hplain htypes) h
  | .fields entries, _, hplain, h => by
      obtain ⟨types, htypes, h⟩ := except_bind_ok.mp h
      obtain rfl := Except.ok.inj h
      have hall := evalFields_placeholderFree hscope entries hplain htypes
      exact fun k => hall _ (Table.entry_ofList_mem types k)
  | .arg _, _, _, h => hscope.arg h
  | .this args, _, hplain, h => by
      obtain ⟨types, htypes, h⟩ := except_bind_ok.mp h
      exact Scope.applyThis_placeholderFree (evalAll_placeholderFree hscope args hplain htypes) h
  | .factory f args, _, hplain, h => by
      obtain ⟨types, htypes, h⟩ := except_bind_ok.mp h
      obtain ⟨i, hi, rfl⟩ := except_map_ok.mp h
      exact f.apply_placeholderFree (evalAll_placeholderFree hscope args hplain htypes) hi
  | .ref _ args, _, hplain, h => by
      obtain ⟨types, htypes, h⟩ := except_bind_ok.mp h
      exact Registry.apply_placeholderFree (evalAll_placeholderFree hscope args hplain htypes) h
  | .bound _, _, _, h => hscope.bound h

/-- So have the templates of a list. -/
lemma evalAll_placeholderFree (hscope : scope.PlaceholderFree) :
    ∀ (ts : List Template) {types : List Ty},
      allPlain ts = true → evalAll scope ts = .ok types → ∀ t ∈ types, t.PlaceholderFree
  | [], _, _, h => by
      obtain rfl := Except.ok.inj h
      simp
  | t :: rest, _, hplain, h => by
      obtain ⟨hfirst, hrest⟩ := Bool.and_eq_true_iff.mp hplain
      obtain ⟨type, htype, h⟩ := except_bind_ok.mp h
      obtain ⟨types, htypes, h⟩ := except_bind_ok.mp h
      obtain rfl := Except.ok.inj h
      exact List.forall_mem_cons.mpr ⟨eval_placeholderFree hscope t hfirst htype,
        evalAll_placeholderFree hscope rest hrest htypes⟩

/-- So have named templates. -/
lemma evalFields_placeholderFree (hscope : scope.PlaceholderFree) :
    ∀ (ts : List (String × Template)) {types : List (String × Ty)},
      fieldsPlain ts = true → evalFields scope ts = .ok types →
        ∀ t ∈ types.map Prod.snd, t.PlaceholderFree
  | [], _, _, h => by
      obtain rfl := Except.ok.inj h
      simp
  | (_, t) :: rest, _, hplain, h => by
      obtain ⟨hfirst, hrest⟩ := Bool.and_eq_true_iff.mp hplain
      obtain ⟨type, htype, h⟩ := except_bind_ok.mp h
      obtain ⟨types, htypes, h⟩ := except_bind_ok.mp h
      obtain rfl := Except.ok.inj h
      exact List.forall_mem_cons.mpr ⟨eval_placeholderFree hscope t hfirst htype,
        evalFields_placeholderFree hscope rest hrest htypes⟩

end

end Template

/-! ### Plain bodies -/

/-- The body of a factory is a template that looks into no definition, with no placeholders
bound to names. -/
def Family.PlainAt (bodies : Family) (f : Factory) : Prop :=
  ∃ (registry : Registry) (bindings : Table Ty)
    (entryOf : Factory → String → Except DefinitionError Ty) (body : Body),
    (∀ name t, bindings.find? name = some t → t.PlaceholderFree) ∧
      Template.fieldsPlain body = true ∧
        ∀ arg, bodies ⟨f, arg⟩ = body.eval (Template.inside registry bindings entryOf f arg)

section Plain

variable {bodies : Family} {f : Factory}

/-- Such a body introduces no placeholders. -/
lemma Family.PlainAt.not_introduces (h : bodies.PlainAt f) : ¬ bodies.Introduces f := by
  obtain ⟨registry, bindings, entryOf, body, hbindings, hplain, hbody⟩ := h
  rintro ⟨arg, entries, harg, hentries, hfree⟩
  rw [hbody] at hentries
  obtain ⟨types, htypes, rfl⟩ := except_map_ok.mp hentries
  have hscope : (Template.inside registry bindings entryOf f arg).PlaceholderFree := by
    refine ⟨hbindings, fun i hi => ?_⟩
    obtain rfl := Option.some.inj hi
    exact harg
  have hall := Template.evalFields_placeholderFree hscope body hplain htypes
  exact hfree fun k => hall _ (Table.entry_ofList_mem types k)

end Plain

namespace Workspace

variable (w : Workspace) (hbodies : ∀ body ∈ w.bodies, Template.fieldsPlain body = true)
  (hbindings : ∀ name t, w.bindings.find? name = some t → t.PlaceholderFree)
include hbodies hbindings

/-- A workspace whose bodies look into no definition, and which has bound no placeholders, has
plain bodies. -/
lemma plainAt {f : Factory} {body : Body} (hbody : w.bodies[f.serial]? = some body) :
    w.family.PlainAt f := by
  have hexpansion : ∀ entryOf, (w.expansion entryOf).PlainAt f := by
    intro entryOf
    refine ⟨w.registry, w.bindings, entryOf, body, hbindings,
      hbodies body (Array.mem_of_getElem? hbody), fun arg => ?_⟩
    simp only [expansion, hbody]
    rfl
  rw [family]
  cases w.bodies.size with
  | zero => exact hexpansion _
  | succ level => exact hexpansion _

/-- **Placeholders come from definitions that are looked into.** In such a workspace no body
introduces any. -/
lemma not_introduces (f : Factory) : ¬ w.family.Introduces f := by
  cases hbody : w.bodies[f.serial]? with
  | some body => exact (w.plainAt hbodies hbindings hbody).not_introduces
  | none =>
      rintro ⟨arg, entries, -, hentries, -⟩
      rw [family] at hentries
      cases hsize : w.bodies.size <;>
        simp only [hsize, familyAt, expansion, hbody, reduceCtorEq] at hentries

end Workspace

/-- The ready-made definitions introduce no placeholders. -/
lemma Prelude.bodies_not_introduces (f : Factory) : ¬ Prelude.bodies.Introduces f := by
  refine Workspace.not_introduces _ (by decide) (fun name t h => ?_) f
  cases h

end JsonTypes
