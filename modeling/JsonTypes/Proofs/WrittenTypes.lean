/-
The text of types, read back.

Names are looked up among the primitives, then the containers, then the factories of a
registry. A type can be written down if this finds every factory inside it under the
factory's own name, and that name is an identifier. Such a type is the type of its text,
and the types of texts are such types.

* `Ty.Writable`: the types that can be written down.
* `Expr.resolve_ok`, `writable_of_applyName`: the type of a tree, and of a name.
* `Ty.Writable.exists_expr`: the tree that stands for a type that can be written down;
  `Expr.Spelled.writable`: trees of identifiers stand for no others.
* `Ty.exists_text_iff`: the types of texts are the types that can be written down.
* `text_reads_back`: the text of a type that was read, or can be written down, is read
  as the type.
-/
import JsonTypes.Proofs.Registrations
import JsonTypes.Proofs.WrittenTrees
import JsonTypes.TypeText.Resolve
import Mathlib.Data.List.OfFn

namespace JsonTypes

open TypeText

/-! ### Types that can be written down -/

/-- A name that neither a primitive nor a container bears. -/
structure Unreserved (name : String) : Prop where
  primitive : ∀ p : Primitive, p.name ≠ name
  container : ∀ c : Container, c.name ≠ name

/-- A type made of primitives, containers and factories that the registry holds under
their own names, which are identifiers that are not reserved. -/
inductive Ty.Writable (registry : Registry) : Ty → Prop where
  | primitive (p : Primitive) : Writable registry (.primitive p)
  | container (c : Container) {t : Ty} (arg : t.Writable registry) :
      Writable registry (.container c t)
  | inst {i : Instance} (held : registry.find? i.factory.name = some i.factory)
      (identifier : isIdentifier i.factory.name = true) (unreserved : Unreserved i.factory.name)
      (args : ∀ k, (i.arg k).Writable registry) : Writable registry (.inst i)

/-! ### Names -/

lemma Primitive.ofName?_name (p : Primitive) : ofName? p.name = some p := by
  cases p <;> rfl

lemma Primitive.name_of_ofName? {name : String} {p : Primitive} (h : ofName? name = some p) :
    p.name = name := by
  simpa using List.find?_some h

lemma Container.ofName?_name (c : Container) : ofName? c.name = some c := by
  cases c <;> rfl

lemma Container.name_of_ofName? {name : String} {c : Container} (h : ofName? name = some c) :
    c.name = name := by
  simpa using List.find?_some h

/-- A name is unreserved if the lookup among primitives and containers fails. -/
lemma unreserved_iff {name : String} :
    Unreserved name ↔ Primitive.ofName? name = none ∧ Container.ofName? name = none := by
  constructor
  · rintro ⟨hprimitive, hcontainer⟩
    refine ⟨Option.eq_none_iff_forall_ne_some.mpr fun p hp => ?_,
      Option.eq_none_iff_forall_ne_some.mpr fun c hc => ?_⟩
    · exact hprimitive p (Primitive.name_of_ofName? hp)
    · exact hcontainer c (Container.name_of_ofName? hc)
  · rintro ⟨hprimitive, hcontainer⟩
    refine ⟨fun p hp => ?_, fun c hc => ?_⟩
    · rw [← hp, p.ofName?_name] at hprimitive
      cases hprimitive
    · rw [← hc, c.ofName?_name] at hcontainer
      cases hcontainer

/-! ### Types of trees -/

namespace TypeText

variable {registry : Registry}

/-- Several trees have types if each of them has one. -/
lemma Expr.resolveAll_ok {args : List Expr} {types : List Ty} :
    Expr.resolveAll registry args = .ok types ↔
      args.map (Expr.resolve registry) = types.map Except.ok := by
  induction args generalizing types with
  | nil => simp [Expr.resolveAll, pure, Except.pure, eq_comm]
  | cons e rest ih =>
      simp only [Expr.resolveAll, except_bind_ok, ih, pure, Except.pure, Except.ok.injEq,
        List.map_cons]
      constructor
      · rintro ⟨t, ht, types, htypes, rfl⟩
        rw [List.map_cons, ht, htypes]
      · intro h
        cases types with
        | nil => cases h
        | cons t types =>
            obtain ⟨ht, htypes⟩ := List.cons.inj h
            exact ⟨t, ht, types, htypes, rfl⟩

lemma Expr.resolve_ok {head : String} {args : List Expr} {t : Ty} :
    (Expr.apply head args).resolve registry = .ok t ↔
      ∃ types, args.map (Expr.resolve registry) = types.map Except.ok ∧
        applyName registry head types = .ok t := by
  simp only [Expr.resolve, except_bind_ok, resolveAll_ok]

lemma applyName_primitive (p : Primitive) : applyName registry p.name [] = .ok (.primitive p) := by
  rw [applyName, p.ofName?_name]
  rfl

lemma applyName_container (c : Container) (t : Ty) :
    applyName registry c.name [t] = .ok (.container c t) := by
  cases c <;> rfl

lemma applyName_unreserved {name : String} (h : Unreserved name) (types : List Ty) :
    applyName registry name types = registry.apply name types := by
  obtain ⟨hprimitive, hcontainer⟩ := unreserved_iff.mp h
  rw [applyName, hprimitive, hcontainer]

/-- A name applied to types that can be written down stands for such a type. -/
lemma writable_of_applyName (named : registry.Named) {name : String} {types : List Ty} {t : Ty}
    (hname : isIdentifier name = true) (htypes : ∀ u ∈ types, u.Writable registry)
    (h : applyName registry name types = .ok t) : t.Writable registry := by
  cases hprimitive : Primitive.ofName? name with
  | some p =>
      simp only [applyName, hprimitive] at h
      split_ifs at h
      cases h
      exact .primitive p
  | none =>
      cases hcontainer : Container.ofName? name with
      | some c =>
          simp only [applyName, hprimitive, hcontainer] at h
          obtain ⟨arg, rfl, rfl⟩ := Container.apply_ok.mp h
          exact .container c (htypes arg (List.mem_singleton_self arg))
      | none =>
          have hunreserved := unreserved_iff.mpr ⟨hprimitive, hcontainer⟩
          rw [applyName_unreserved hunreserved] at h
          obtain ⟨i, hi, rfl, rfl⟩ := Registry.apply_ok.mp h
          obtain rfl := named name i.factory hi
          exact .inst hi hname hunreserved fun k => htypes _ (List.mem_ofFn.mpr ⟨k, rfl⟩)

/-- **Trees of identifiers stand for types that can be written down.** -/
lemma Expr.Spelled.writable (named : registry.Named) {e : Expr} (h : e.Spelled) {t : Ty}
    (ht : e.resolve registry = .ok t) : t.Writable registry := by
  induction h generalizing t with
  | apply hname _ ih =>
      obtain ⟨types, htypes, happly⟩ := Expr.resolve_ok.mp ht
      refine writable_of_applyName named hname (fun u hu => ?_) happly
      have hmem : Except.ok u ∈ types.map (Except.ok : Ty → Except DefinitionError Ty) :=
        List.mem_map_of_mem hu
      rw [← htypes] at hmem
      obtain ⟨e, he, heu⟩ := List.mem_map.mp hmem
      exact ih e he heu

end TypeText

/-! ### Trees of types -/

lemma Primitive.isIdentifier_name (p : Primitive) : isIdentifier p.name = true := by
  cases p <;> decide

lemma Container.isIdentifier_name (c : Container) : isIdentifier c.name = true := by
  cases c <;> decide

/-- **A type that can be written down has a tree**, which is spelled out as the text of
the type and stands for the type. -/
lemma Ty.Writable.exists_expr {registry : Registry} {t : Ty} (h : t.Writable registry) :
    ∃ e : Expr, e.Spelled ∧ e.text = t.text ∧ e.resolve registry = .ok t := by
  induction h with
  | primitive p =>
      refine ⟨.apply p.name [], .apply p.isIdentifier_name nofun, Expr.text_apply p.name [], ?_⟩
      exact Expr.resolve_ok.mpr ⟨[], rfl, applyName_primitive p⟩
  | container c _ ih =>
      obtain ⟨e, hspelled, htext, hresolve⟩ := ih
      have hargs : ∀ e' ∈ [e], e'.Spelled := List.forall_mem_singleton.mpr hspelled
      refine ⟨.apply c.name [e], .apply c.isIdentifier_name hargs, ?_, ?_⟩
      · rw [Expr.text_apply, List.map_singleton, htext]
        rfl
      · refine Expr.resolve_ok.mpr ⟨[_], ?_, applyName_container c _⟩
        rw [List.map_singleton, List.map_singleton, hresolve]
  | @inst i held identifier unreserved _ ih =>
      choose e hspelled htext hresolve using ih
      refine ⟨.apply i.factory.name (List.ofFn e), .apply identifier ?_, ?_, ?_⟩
      · exact List.forall_mem_ofFn_iff.mpr hspelled
      · rw [Expr.text_apply, List.map_ofFn]
        exact congrArg (applicationText _) (congrArg List.ofFn (funext htext))
      · refine Expr.resolve_ok.mpr ⟨i.args, ?_, ?_⟩
        · rw [Application.args, List.map_ofFn, List.map_ofFn]
          exact congrArg List.ofFn (funext hresolve)
        · rw [applyName_unreserved unreserved]
          exact Registry.apply_ok.mpr ⟨i, held, rfl, rfl⟩

/-! ### Texts of types -/

/-- A type that can be written down is the type of its text. -/
lemma Ty.Writable.ofText_text {registry : Registry} {t : Ty} (h : t.Writable registry) :
    Ty.ofText registry t.text = .ok t := by
  obtain ⟨e, hspelled, htext, hresolve⟩ := h.exists_expr
  rw [Ty.ofText, ← htext, hspelled.ofText_text]
  exact congrArg (Except.mapError _) hresolve

/-- The types of texts can be written down. -/
lemma Ty.writable_of_ofText {registry : Registry} (named : registry.Named) {text : String} {t : Ty}
    (h : Ty.ofText registry text = .ok t) : t.Writable registry := by
  obtain ⟨e, he, ht⟩ := except_bind_ok.mp h
  exact (Expr.spelled_of_ofText (except_mapError_ok.mp he)).writable named
    (except_mapError_ok.mp ht)

/-- The types of texts are exactly the types that can be written down. -/
lemma Ty.exists_text_iff {registry : Registry} (named : registry.Named) {t : Ty} :
    (∃ text, Ty.ofText registry text = .ok t) ↔ t.Writable registry :=
  ⟨fun ⟨_, h⟩ => writable_of_ofText named h, fun h => ⟨t.text, h.ofText_text⟩⟩

/-- **The text of a type is read back as the type**, whatever has been registered: if the
type has been read from some text, and if it is made of primitives, containers and
factories that are registered under names of their own. -/
theorem text_reads_back (factories : List Factory) :
    (∀ text t, Ty.ofText (.ofList factories) text = .ok t →
        Ty.ofText (.ofList factories) t.text = .ok t) ∧
      ∀ t : Ty, t.Writable (.ofList factories) → Ty.ofText (.ofList factories) t.text = .ok t := by
  refine ⟨fun text t h => ?_, fun t h => h.ofText_text⟩
  exact ((Ty.exists_text_iff (Registry.named_ofList factories)).mp ⟨text, h⟩).ofText_text

/-- An alternative that was read with blanks in odd places, and an optional record, which
is written without parentheses. -/
theorem text_reads_back_prelude :
    (∃ t, Ty.ofText Prelude.registry " Either( number ,List(string) ) " = .ok t ∧
      t.text = "Either(number, List(string))" ∧ Ty.ofText Prelude.registry t.text = .ok t) ∧
    ∃ t : Ty, t.Writable Prelude.registry ∧ t.text = "Optional(Rec)" ∧
      Ty.ofText Prelude.registry t.text = .ok t := by
  have heither : (Ty.ofText Prelude.registry " Either( number ,List(string) ) ").toOption.map
      Ty.text = some "Either(number, List(string))" := by decide +kernel
  have hwritable : (Ty.optional (.inst Prelude.recursive.factory.generic)).Writable
      Prelude.registry :=
    .container .optional (.inst rfl (by decide)
      ⟨fun p => by cases p <;> decide, fun c => by cases c <;> decide⟩ fun k => k.elim0)
  refine ⟨?_, _, hwritable, rfl, (text_reads_back _).2 _ hwritable⟩
  cases hread : Ty.ofText Prelude.registry " Either( number ,List(string) ) " with
  | error e =>
      rw [hread] at heither
      cases heither
  | ok t =>
      rw [hread] at heither
      exact ⟨t, rfl, Option.some.inj heither, (text_reads_back _).1 _ t hread⟩

end JsonTypes
