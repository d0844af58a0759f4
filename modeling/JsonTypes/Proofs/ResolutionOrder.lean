/-
The order in which the names of a written type are resolved.

The nodes of a tree are resolved arguments first, from left to right, and each of them
alone decides by simple rules what it stands for, or that it fails. The first node that
fails decides the error of the whole text. Together with the grammar this says what comes
of every text.

* `Registry.Applies`, `applyName_eq_iff`: what a name stands for when it is applied to
  types, by rules.
* `Expr.Denotes`: the type that a tree stands for.
* `Expr.nodes`: the nodes of a tree, arguments before what they are applied to.
* `FailsFirst`: the first failing node of a list fails with an error.
* `Expr.resolve_ok_iff`, `Expr.resolve_error_iff`: resolving a tree.
* `type_text_outcome`: every text is a sentence of the grammar, and resolved, or malformed.
-/
import JsonTypes.Proofs.WrittenSentences
import JsonTypes.Proofs.WrittenTypes

namespace JsonTypes

open TypeText

/-! ### Applications that fail -/

lemma Container.apply_error {c : Container} {args : List Ty} {e : DefinitionError} :
    c.apply args = .error e ↔ args.length ≠ 1 ∧ e = .arityMismatch c.name 1 args.length := by
  match args with
  | [] => simp [apply, eq_comm]
  | [arg] => simp [apply]
  | _ :: _ :: _ => simp [apply, eq_comm]

lemma Factory.apply_error {f : Factory} {args : List Ty} {e : DefinitionError} :
    f.apply args = .error e ↔
      args.length ≠ f.arity ∧ e = .arityMismatch f.name f.arity args.length := by
  by_cases h : args.length = f.arity
  · simp [apply, h]
  · simp [apply, h, eq_comm]

/-- The application of a registered name fails if nothing is registered under it, or if
the number of types is not the one that the factory takes. -/
lemma Registry.apply_error {registry : Registry} {name : String} {args : List Ty}
    {e : DefinitionError} :
    registry.apply name args = .error e ↔
      (registry.find? name = none ∧ e = .invalidType name "unknown type name") ∨
        ∃ f, registry.find? name = some f ∧ args.length ≠ f.arity ∧
          e = .arityMismatch f.name f.arity args.length := by
  cases hf : registry.find? name with
  | none => simp [apply, get, hf, bind, Except.bind, eq_comm]
  | some f =>
      have hfactory := @Factory.apply_error f args e
      cases hargs : f.apply args with
      | error e' =>
          rw [hargs] at hfactory
          simpa [apply, get, hf, hargs, bind, Except.bind] using hfactory
      | ok i =>
          rw [hargs] at hfactory
          simpa [apply, get, hf, hargs, bind, Except.bind, pure, Except.pure] using hfactory

/-! ### What names stand for -/

/-- What a name stands for when it is applied to types, or why it stands for nothing. The
names of primitives and containers come before registered ones. -/
inductive Registry.Applies (registry : Registry) (name : String) (types : List Ty) :
    Except DefinitionError Ty → Prop where
  | primitive {p : Primitive} (named : p.name = name) (bare : types = []) :
      Applies registry name types (.ok (.primitive p))
  | primitiveArity {p : Primitive} (named : p.name = name) (args : types ≠ []) :
      Applies registry name types (.error (.arityMismatch name 0 types.length))
  | container {c : Container} {t : Ty} (named : c.name = name) (single : types = [t]) :
      Applies registry name types (.ok (.container c t))
  | containerArity {c : Container} (named : c.name = name) (args : types.length ≠ 1) :
      Applies registry name types (.error (.arityMismatch name 1 types.length))
  | factory {i : Instance} (unreserved : Unreserved name)
      (held : registry.find? name = some i.factory) (args : i.args = types) :
      Applies registry name types (.ok (.inst i))
  | factoryArity {f : Factory} (unreserved : Unreserved name)
      (held : registry.find? name = some f) (args : types.length ≠ f.arity) :
      Applies registry name types (.error (.arityMismatch f.name f.arity types.length))
  | unknown (unreserved : Unreserved name) (absent : registry.find? name = none) :
      Applies registry name types (.error (.invalidType name "unknown type name"))

section Applies

variable {registry : Registry} {name : String} {types : List Ty}

/-- The rules cover every name and all numbers of types. -/
lemma applies_applyName : registry.Applies name types (applyName registry name types) := by
  cases hprimitive : Primitive.ofName? name with
  | some p =>
      have hname := Primitive.name_of_ofName? hprimitive
      cases types with
      | nil =>
          simp only [applyName, hprimitive]
          exact .primitive hname rfl
      | cons t types =>
          simp only [applyName, hprimitive]
          exact .primitiveArity hname (List.cons_ne_nil t types)
  | none =>
      cases hcontainer : Container.ofName? name with
      | some c =>
          obtain rfl := Container.name_of_ofName? hcontainer
          simp only [applyName, hprimitive, hcontainer]
          cases hresult : c.apply types with
          | ok t =>
              obtain ⟨arg, hsingle, rfl⟩ := Container.apply_ok.mp hresult
              exact .container rfl hsingle
          | error e =>
              obtain ⟨hargs, rfl⟩ := Container.apply_error.mp hresult
              exact .containerArity rfl hargs
      | none =>
          have hunreserved := unreserved_iff.mpr ⟨hprimitive, hcontainer⟩
          rw [applyName_unreserved hunreserved]
          cases hresult : registry.apply name types with
          | ok t =>
              obtain ⟨i, hi, hargs, rfl⟩ := Registry.apply_ok.mp hresult
              exact .factory hunreserved hi hargs
          | error e =>
              rcases Registry.apply_error.mp hresult with ⟨habsent, rfl⟩ | ⟨f, hf, hargs, rfl⟩
              · exact .unknown hunreserved habsent
              · exact .factoryArity hunreserved hf hargs

/-- **What a name stands for follows from the rules**, and nothing else does. -/
lemma applyName_eq_iff {result : Except DefinitionError Ty} :
    applyName registry name types = result ↔ registry.Applies name types result := by
  constructor
  · rintro rfl
    exact applies_applyName
  · intro h
    cases h with
    | @primitive p hname hbare =>
        subst hname hbare
        exact applyName_primitive p
    | @primitiveArity p hname hargs =>
        subst hname
        rw [applyName, p.ofName?_name]
        simp [hargs]
    | @container c t hname hsingle =>
        subst hname hsingle
        exact applyName_container c t
    | @containerArity c hname hargs =>
        subst hname
        have happly : applyName registry c.name types = c.apply types := by cases c <;> rfl
        rw [happly]
        exact Container.apply_error.mpr ⟨hargs, rfl⟩
    | @factory i hunreserved hheld hargs =>
        rw [applyName_unreserved hunreserved]
        exact Registry.apply_ok.mpr ⟨i, hheld, hargs, rfl⟩
    | @factoryArity f hunreserved hheld hargs =>
        rw [applyName_unreserved hunreserved]
        exact Registry.apply_error.mpr (Or.inr ⟨f, hheld, hargs, rfl⟩)
    | unknown hunreserved habsent =>
        rw [applyName_unreserved hunreserved]
        exact Registry.apply_error.mpr (Or.inl ⟨habsent, rfl⟩)

end Applies

namespace TypeText

variable {registry : Registry}

/-! ### What trees stand for -/

/-- The type that a tree stands for: the one that its name stands for, applied to the
types that its arguments stand for. -/
inductive Expr.Denotes (registry : Registry) : Expr → Ty → Prop where
  | apply {head : String} {args : List Expr} {types : List Ty} {t : Ty}
      (each : List.Forall₂ (Denotes registry) args types)
      (rule : registry.Applies head types (.ok t)) : Denotes registry (.apply head args) t

/-- The name of a tree fails at the types that the arguments stand for. -/
inductive Expr.Fails (registry : Registry) : Expr → DefinitionError → Prop where
  | apply {head : String} {args : List Expr} {types : List Ty} {error : DefinitionError}
      (each : List.Forall₂ (Denotes registry) args types)
      (rule : registry.Applies head types (.error error)) :
      Fails registry (.apply head args) error

mutual

/-- The nodes of a tree, from left to right, arguments before what they are applied to. -/
def Expr.nodes : Expr → List Expr
  | .apply head args => Expr.nodesOfAll args ++ [.apply head args]

/-- The nodes of trees, one tree after the other. -/
def Expr.nodesOfAll : List Expr → List Expr
  | [] => []
  | e :: rest => e.nodes ++ Expr.nodesOfAll rest

end

/-- The first of the nodes that stands for no type fails with the error. -/
inductive FailsFirst (registry : Registry) : List Expr → DefinitionError → Prop where
  | here {node : Expr} {later : List Expr} {error : DefinitionError}
      (fails : node.Fails registry error) : FailsFirst registry (node :: later) error
  | later {node : Expr} {later : List Expr} {error : DefinitionError} {t : Ty}
      (denotes : node.Denotes registry t) (rest : FailsFirst registry later error) :
      FailsFirst registry (node :: later) error

/-- All of the nodes stand for types. -/
def AllDenote (registry : Registry) (nodes : List Expr) : Prop :=
  ∀ node ∈ nodes, ∃ t, node.Denotes registry t

lemma allDenote_append {nodes later : List Expr} :
    AllDenote registry (nodes ++ later) ↔
      AllDenote registry nodes ∧ AllDenote registry later := by
  simp only [AllDenote, List.mem_append, or_imp, forall_and]

/-- A list of nodes fails at its first part, or behind it if the first part does not fail. -/
lemma failsFirst_append {nodes later : List Expr} {error : DefinitionError} :
    FailsFirst registry (nodes ++ later) error ↔
      FailsFirst registry nodes error ∨
        AllDenote registry nodes ∧ FailsFirst registry later error := by
  induction nodes with
  | nil =>
      have hnil : ¬ FailsFirst registry [] error := nofun
      simp [AllDenote, hnil]
  | cons node rest ih =>
      rw [List.cons_append]
      constructor
      · intro h
        cases h with
        | here hfails => exact Or.inl (.here hfails)
        | later hdenotes hrest =>
            rcases ih.mp hrest with hrest | ⟨hall, hlater⟩
            · exact Or.inl (.later hdenotes hrest)
            · exact Or.inr ⟨List.forall_mem_cons.mpr ⟨⟨_, hdenotes⟩, hall⟩, hlater⟩
      · rintro (h | ⟨hall, hlater⟩)
        · cases h with
          | here hfails => exact .here hfails
          | later hdenotes hrest => exact .later hdenotes (ih.mpr (Or.inl hrest))
        · obtain ⟨⟨t, hdenotes⟩, hall⟩ := List.forall_mem_cons.mp hall
          exact .later hdenotes (ih.mpr (Or.inr ⟨hall, hlater⟩))

/-! ### Resolving -/

mutual

/-- **A tree is resolved to the type that it stands for.** -/
lemma Expr.resolve_ok_iff : ∀ (e : Expr) (t : Ty),
    e.resolve registry = .ok t ↔ e.Denotes registry t
  | .apply head args, t => by
      rw [Expr.resolve, except_bind_ok]
      constructor
      · rintro ⟨types, hargs, happly⟩
        exact .apply ((Expr.resolveAll_ok_iff args types).mp hargs) (applyName_eq_iff.mp happly)
      · intro h
        cases h with
        | @apply _ _ types _ heach hrule =>
            exact ⟨types, (Expr.resolveAll_ok_iff args types).mpr heach,
              applyName_eq_iff.mpr hrule⟩

lemma Expr.resolveAll_ok_iff : ∀ (args : List Expr) (types : List Ty),
    Expr.resolveAll registry args = .ok types ↔
      List.Forall₂ (Expr.Denotes registry) args types
  | [], types => by
      simp [Expr.resolveAll, pure, Except.pure, eq_comm]
  | e :: rest, types => by
      simp only [Expr.resolveAll, except_bind_ok, pure, Except.pure, Except.ok.injEq,
        List.forall₂_cons_left_iff, Expr.resolve_ok_iff e, Expr.resolveAll_ok_iff rest]
      constructor
      · rintro ⟨t, ht, types, htypes, rfl⟩
        exact ⟨t, types, ht, htypes, rfl⟩
      · rintro ⟨t, types, ht, htypes, rfl⟩
        exact ⟨t, ht, types, htypes, rfl⟩

end

mutual

/-- A tree stands for a type if and only if all of its nodes do. -/
lemma Expr.allDenote_nodes : ∀ e : Expr,
    AllDenote registry e.nodes ↔ ∃ t, e.Denotes registry t
  | .apply head args => by
      rw [Expr.nodes, allDenote_append, Expr.allDenote_nodesOfAll args]
      constructor
      · rintro ⟨-, hlast⟩
        exact hlast _ (List.mem_singleton_self _)
      · rintro ⟨t, ht⟩
        have hargs : ∃ types, List.Forall₂ (Expr.Denotes registry) args types := by
          cases ht with
          | apply heach _ => exact ⟨_, heach⟩
        exact ⟨hargs, List.forall_mem_singleton.mpr ⟨t, ht⟩⟩

lemma Expr.allDenote_nodesOfAll : ∀ args : List Expr,
    AllDenote registry (Expr.nodesOfAll args) ↔
      ∃ types, List.Forall₂ (Expr.Denotes registry) args types
  | [] => by
      simp [Expr.nodesOfAll, AllDenote]
  | e :: rest => by
      rw [Expr.nodesOfAll, allDenote_append, Expr.allDenote_nodes e,
        Expr.allDenote_nodesOfAll rest]
      constructor
      · rintro ⟨⟨t, ht⟩, types, htypes⟩
        exact ⟨t :: types, .cons ht htypes⟩
      · rintro ⟨types, htypes⟩
        cases htypes with
        | cons ht hrest => exact ⟨⟨_, ht⟩, _, hrest⟩

end

mutual

/-- **The first failing node of a tree decides the error.** -/
lemma Expr.resolve_error_iff : ∀ (e : Expr) (error : DefinitionError),
    e.resolve registry = .error error ↔ FailsFirst registry e.nodes error
  | .apply head args, error => by
      have hlast : FailsFirst registry [.apply head args] error ↔
          (Expr.apply head args).Fails registry error := by
        constructor
        · intro h
          cases h with
          | here hfails => exact hfails
          | later _ hrest => cases hrest
        · exact .here
      rw [Expr.resolve, except_bind_error, Expr.resolveAll_error_iff args error, Expr.nodes,
        failsFirst_append, Expr.allDenote_nodesOfAll, hlast]
      refine or_congr_right ?_
      constructor
      · rintro ⟨types, hargs, happly⟩
        have heach := (Expr.resolveAll_ok_iff args types).mp hargs
        exact ⟨⟨types, heach⟩, .apply heach (applyName_eq_iff.mp happly)⟩
      · rintro ⟨-, hfails⟩
        cases hfails with
        | @apply _ _ types _ heach hrule =>
            exact ⟨types, (Expr.resolveAll_ok_iff args types).mpr heach,
              applyName_eq_iff.mpr hrule⟩

lemma Expr.resolveAll_error_iff : ∀ (args : List Expr) (error : DefinitionError),
    Expr.resolveAll registry args = .error error ↔
      FailsFirst registry (Expr.nodesOfAll args) error
  | [], error => by
      have hnil : ¬ FailsFirst registry [] error := nofun
      simp [Expr.resolveAll, Expr.nodesOfAll, pure, Except.pure, hnil]
  | e :: rest, error => by
      rw [Expr.resolveAll, except_bind_error, Expr.resolve_error_iff e error, Expr.nodesOfAll,
        failsFirst_append, Expr.allDenote_nodes]
      refine or_congr_right ?_
      simp only [Expr.resolve_ok_iff, except_bind_error, Expr.resolveAll_error_iff rest error]
      simp [pure, Except.pure]

end

end TypeText

/-! ### Texts -/

/-- A text of a sentence comes to what the tree of the sentence comes to. -/
lemma Ty.ofText_of_sentence {registry : Registry} {text : String} {symbols : List Symbol} {e : Expr}
    (htext : Consists text.toList symbols) (hsentence : Sentence symbols e) :
    Ty.ofText registry text = (e.resolve registry).mapError .definition := by
  have htree : Expr.ofText text = .ok e := Expr.ofText_ok_iff.mpr ⟨symbols, htext, hsentence⟩
  rw [ofText, htree]
  rfl

/-- A text is malformed if and only if it has no tree. -/
lemma Ty.ofText_malformed_iff {registry : Registry} {text : String} {e : SyntaxError} :
    Ty.ofText registry text = .error (.malformed e) ↔ Expr.ofText text = .error e := by
  rw [ofText]
  cases Expr.ofText text with
  | error e' => simp [bind, Except.bind]
  | ok tree => cases h : tree.resolve registry <;> simp [bind, Except.bind, h]

/-- **What comes of a text.** A text is not malformed if and only if it consists of the
symbols of a sentence. These symbols and the tree of the sentence are the only ones; white
space plays no part. The text then stands for the type that the tree stands for, or fails
as the first failing node does, arguments before what they are applied to. -/
theorem type_text_outcome (registry : Registry) (text : String) :
    ((∀ e, Ty.ofText registry text ≠ .error (.malformed e)) ↔
        ∃ symbols e, Consists text.toList symbols ∧ Sentence symbols e) ∧
      ∀ symbols e, Consists text.toList symbols → Sentence symbols e →
        (∀ symbols' e', Consists text.toList symbols' → Sentence symbols' e' →
          symbols' = symbols ∧ e' = e) ∧
        (∀ text' : String, Consists text'.toList symbols →
          Ty.ofText registry text' = Ty.ofText registry text) ∧
        (∀ t, Ty.ofText registry text = .ok t ↔ e.Denotes registry t) ∧
        ∀ error, Ty.ofText registry text = .error (.definition error) ↔
          FailsFirst registry e.nodes error := by
  constructor
  · simp only [ne_eq, Ty.ofText_malformed_iff]
    constructor
    · intro h
      cases htree : Expr.ofText text with
      | error e => exact absurd htree (h e)
      | ok e =>
          obtain ⟨symbols, hsymbols⟩ := Expr.ofText_ok_iff.mp htree
          exact ⟨symbols, e, hsymbols⟩
    · rintro ⟨symbols, e, hsymbols⟩ error herror
      rw [Expr.ofText_ok_iff.mpr ⟨symbols, hsymbols⟩] at herror
      cases herror
  · intro symbols e htext hsentence
    have houtcome : Ty.ofText registry text = (e.resolve registry).mapError .definition :=
      Ty.ofText_of_sentence htext hsentence
    refine ⟨fun symbols' e' htext' hsentence' => ?_, fun text' htext' => ?_, fun t => ?_,
      fun error => ?_⟩
    · obtain rfl := htext.unique htext'
      exact ⟨rfl, hsentence.unique hsentence'⟩
    · rw [houtcome, Ty.ofText_of_sentence htext' hsentence]
    · rw [houtcome, except_mapError_ok, Expr.resolve_ok_iff]
    · rw [houtcome, ← Expr.resolve_error_iff]
      cases e.resolve registry <;> simp

/-- Of two faults the one whose node comes first counts: the unknown argument of the pair,
and not the list without an argument behind it. -/
theorem type_text_outcome_faults :
    ∃ symbols e, Consists "\u2003Pair (\tnumbr , List( ) ) ".toList symbols ∧
      Sentence symbols e ∧
      Ty.ofText Prelude.registry "\u2003Pair (\tnumbr , List( ) ) " =
        .error (.definition (.invalidType "numbr" "unknown type name")) := by
  let symbols : List Symbol := [.name "Pair", .opening, .name "numbr", .comma, .name "List",
    .opening, .closing, .closing]
  have htext : Consists "\u2003Pair (\tnumbr , List( ) ) ".toList symbols := by
    refine exists_scan_iff.mp ⟨[⟨.name "Pair", 3⟩, ⟨.opening, 8⟩, ⟨.name "numbr", 10⟩,
      ⟨.comma, 16⟩, ⟨.name "List", 18⟩, ⟨.opening, 22⟩, ⟨.closing, 24⟩, ⟨.closing, 26⟩], ?_, rfl⟩
    decide +kernel
  have hsentence : Sentence symbols (.apply "Pair" [.apply "numbr" [], .apply "List" []]) :=
    .apply "Pair" (.more (.bare "numbr") (.single (.empty "List")))
  refine ⟨symbols, _, htext, hsentence, ?_⟩
  refine (((type_text_outcome _ _).2 symbols _ htext hsentence).2.2.2 _).mpr (.here ?_)
  refine .apply .nil (.unknown ?_ rfl)
  exact ⟨fun p => by cases p <;> decide, fun c => by cases c <;> decide⟩

end JsonTypes
