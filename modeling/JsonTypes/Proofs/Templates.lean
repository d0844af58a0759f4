/-
Bodies that are templates.

A template is a fixed expression with places for the arguments of the factory. It
fails for all arguments or for none, and if it does not fail, its entries are
fixed types with open places that the arguments fill.

* `OpenTy`: types with open places; `OpenTy.fill`, `OpenTy.bind`.
* `Family.Templated`: all bodies are templates; `Family.Templated.respectsSame`:
  such bodies map equal arguments to equal entries.
* `Template.eval_uniform`: the evaluation of a template is uniform in the
  arguments.
* `Workspace.family_templated`: the bodies of a workspace are templates, whatever
  has been registered and bound.
-/
import JsonTypes.Proofs.Expansion
import JsonTypes.Workspace

namespace JsonTypes

/-! ### Types with open places -/

/-- A type with open places for `n` arguments. -/
inductive OpenTy (n : ℕ) where
  | place (k : Fin n)
  | primitive (p : Primitive)
  | container (c : Container) (arg : OpenTy n)
  | fields (entries : Table (OpenTy n))
  | inst (i : Application (OpenTy n))
  | param (index : ℕ)

namespace OpenTy

variable {m n : ℕ}

/-- Induction over types with open places. -/
@[induction_eliminator]
theorem induct {motive : OpenTy n → Prop} (place : ∀ k, motive (.place k))
    (primitive : ∀ p, motive (.primitive p))
    (container : ∀ c arg, motive arg → motive (.container c arg))
    (fields : ∀ entries : Table (OpenTy n), (∀ i, motive (entries.entry i)) →
      motive (.fields entries))
    (inst : ∀ i : Application (OpenTy n), (∀ k, motive (i.arg k)) → motive (.inst i))
    (param : ∀ index, motive (.param index)) (t : OpenTy n) : motive t :=
  OpenTy.rec (motive_1 := motive) (motive_2 := fun table => ∀ i, motive (table.entry i))
    (motive_3 := fun a => ∀ k, motive (a.arg k))
    place primitive container fields inst param (fun _ _ ih => ih) (fun _ _ ih => ih) t

/-- The type that results from filling the open places. -/
def fill (arg : Fin n → Ty) : OpenTy n → Ty
  | place k => arg k
  | primitive p => .primitive p
  | container c t => .container c (t.fill arg)
  | fields ⟨names, entry⟩ => .fields ⟨names, fun i => (entry i).fill arg⟩
  | inst ⟨f, entry⟩ => .inst ⟨f, fun k => (entry k).fill arg⟩
  | param index => .param index

/-- A type with open places whose places are filled with such types. -/
def bind (arg : Fin m → OpenTy n) : OpenTy m → OpenTy n
  | place k => arg k
  | primitive p => .primitive p
  | container c t => .container c (t.bind arg)
  | fields ⟨names, entry⟩ => .fields ⟨names, fun i => (entry i).bind arg⟩
  | inst ⟨f, entry⟩ => .inst ⟨f, fun k => (entry k).bind arg⟩
  | param index => .param index

/-- A type without open places. -/
def closed : Ty → OpenTy n
  | .primitive p => .primitive p
  | .container c t => .container c (closed t)
  | .fields ⟨names, entry⟩ => .fields ⟨names, fun i => closed (entry i)⟩
  | .inst ⟨f, entry⟩ => .inst ⟨f, fun k => closed (entry k)⟩
  | .param index => .param index

@[simp] lemma fill_place (arg : Fin n → Ty) (k : Fin n) : (place k).fill arg = arg k := rfl

lemma fill_fields (arg : Fin n → Ty) (entries : Table (OpenTy n)) :
    (fields entries).fill arg = .fields (entries.map (fill arg)) := rfl

/-- Filling in two steps is filling with what has been filled. -/
lemma fill_bind (arg : Fin n → Ty) (inner : Fin m → OpenTy n) (t : OpenTy m) :
    (t.bind inner).fill arg = t.fill fun k => (inner k).fill arg := by
  induction t with
  | place k => rfl
  | primitive p => rfl
  | container c t ih => simp only [bind, fill, ih]
  | fields entries ih => simp only [bind, fill, ih]
  | inst i ih => simp only [bind, fill, ih]
  | param index => rfl

@[simp] lemma fill_closed (arg : Fin n → Ty) (t : Ty) : (closed t).fill arg = t := by
  induction t with
  | primitive p => rfl
  | container c t ih => simp only [closed, fill, ih]
  | fields entries ih => simp only [closed, fill, ih]
  | inst i ih => simp only [closed, fill, ih]
  | param index => rfl

/-- Alike arguments fill the places to alike types. -/
lemma fill_alike {arg arg' : Fin n → Ty} (h : ∀ k, (arg k).Alike (arg' k)) (t : OpenTy n) :
    (t.fill arg).Alike (t.fill arg') := by
  induction t with
  | place k => exact h k
  | primitive p => exact .primitive p
  | container c t ih => exact .container ih
  | fields entries ih => exact .fields_of_entries ih
  | inst i ih => exact .inst ih
  | param index => exact .param index

end OpenTy

/-- All bodies are templates: a body fails for all arguments, or it has fixed
entries with places for the arguments. -/
def Family.Templated (bodies : Family) : Prop :=
  ∀ f, (∀ arg, ∃ e, bodies ⟨f, arg⟩ = .error e) ∨
    ∃ body : Table (OpenTy f.arity), ∀ arg, bodies ⟨f, arg⟩ = .ok (body.map (OpenTy.fill arg))

namespace Family.Templated

variable {bodies : Family}

/-- A template that has succeeded for some arguments has fixed entries. -/
lemma exists_body (templated : bodies.Templated) {i : Instance} {entries : Table Ty}
    (h : bodies i = .ok entries) :
    ∃ body : Table (OpenTy i.factory.arity),
      ∀ arg, bodies ⟨i.factory, arg⟩ = .ok (body.map (OpenTy.fill arg)) := by
  rcases templated i.factory with hfails | hbody
  · obtain ⟨e, he⟩ := hfails i.arg
    cases h.symm.trans he
  · exact hbody

/-- **Templates map equal arguments to equal entries.** -/
lemma respectsSame (templated : bodies.Templated) : bodies.RespectsSame := by
  intro i j entries hij hi
  obtain ⟨body, hbody⟩ := templated.exists_body hi
  cases Application.same_iff.mp hij with
  | @inst f arg arg' heach =>
      obtain rfl : body.map (OpenTy.fill arg) = entries :=
        Except.ok.inj ((hbody arg).symm.trans hi)
      refine ⟨_, hbody arg', (Ty.same_iff_alike _ _).mpr ?_⟩
      exact OpenTy.fill_alike heach (.fields body)

end Family.Templated

/-! ### Evaluation -/

/-- A computation from arguments is uniform if it fails always with the same error,
or fills the places of fixed types. -/
def Uniform {n : ℕ} (run : (Fin n → Ty) → Except DefinitionError Ty) : Prop :=
  ∃ r : Except DefinitionError (OpenTy n), ∀ arg, run arg = r.map (OpenTy.fill arg)

lemma uniform_const {n : ℕ} (result : Except DefinitionError Ty) :
    Uniform fun _ : Fin n → Ty => result := by
  refine ⟨result.map OpenTy.closed, fun arg => ?_⟩
  cases result <;> simp [Except.map]

/-- A factory is applied to uniform types in a uniform way: only their number
matters. -/
lemma uniform_apply {n : ℕ} (f : Factory) (types : List (OpenTy n)) :
    Uniform fun arg : Fin n → Ty => (f.apply (types.map (OpenTy.fill arg))).map .inst := by
  by_cases h : types.length = f.arity
  · refine ⟨.ok (.inst ⟨f, fun k => types[k.cast h.symm]⟩), fun arg => ?_⟩
    simp [Factory.apply, h, Except.map, OpenTy.fill]
  · refine ⟨.error (.arityMismatch f.name f.arity types.length), fun arg => ?_⟩
    simp [Factory.apply, h, Except.map]

/-- A uniform computation after one of a list of uniform types is uniform. -/
lemma uniform_bind {n : ℕ} {run : (Fin n → Ty) → Except DefinitionError (List Ty)}
    {next : List Ty → Except DefinitionError Ty}
    (hrun : ∃ r : Except DefinitionError (List (OpenTy n)),
      ∀ arg, run arg = r.map (List.map (OpenTy.fill arg)))
    (hnext : ∀ types : List (OpenTy n), Uniform fun arg => next (types.map (OpenTy.fill arg))) :
    Uniform fun arg => run arg >>= next := by
  obtain ⟨r, hr⟩ := hrun
  cases r with
  | error e =>
      refine ⟨.error e, fun arg => ?_⟩
      simp only [hr]
      rfl
  | ok types =>
      obtain ⟨r', hr'⟩ := hnext types
      refine ⟨r', fun arg => ?_⟩
      simp only [hr, ← hr' arg]
      rfl

/-- A container is applied to uniform types in a uniform way. -/
lemma uniform_container {n : ℕ} (c : Container) (types : List (OpenTy n)) :
    Uniform fun arg : Fin n → Ty => c.apply (types.map (OpenTy.fill arg)) := by
  match types with
  | [t] => exact ⟨.ok (.container c t), fun arg => rfl⟩
  | [] => exact ⟨.error (.arityMismatch c.name 1 0), fun arg => rfl⟩
  | _ :: _ :: rest =>
      exact ⟨.error (.arityMismatch c.name 1 (rest.length + 2)), fun arg => by
        simp [Container.apply, Except.map]⟩

namespace Template

variable (registry : Registry) (bindings : Table Ty)
  (entryOf : Factory → String → Except DefinitionError Ty) (f : Factory)

/-- What a template can refer to inside the body of a factory. -/
def inside (arg : Fin f.arity → Ty) : Scope :=
  ⟨registry, bindings, entryOf, some ⟨f, arg⟩⟩

mutual

/-- **The evaluation of a template is uniform in the arguments.** -/
lemma eval_uniform : ∀ t : Template,
    Uniform fun arg => t.eval (inside registry bindings entryOf f arg)
  | .primitive name => uniform_const (Ty.ofPrimitiveName name)
  | .container c t => by
      obtain ⟨r, hr⟩ := eval_uniform t
      refine ⟨r.map (.container c), fun arg => ?_⟩
      simp only [eval, hr]
      cases r <;> rfl
  | .containerOf c args => uniform_bind (evalAll_uniform args) (uniform_container c)
  | .fields entries => by
      obtain ⟨r, hr⟩ := evalFields_uniform entries
      refine ⟨r.map fun types => .fields (Table.ofList types), fun arg => ?_⟩
      simp only [eval, hr]
      cases r with
      | error e => rfl
      | ok types =>
          change Except.ok (Ty.fields (Table.ofList (types.map (Prod.map id (OpenTy.fill arg))))) =
            Except.ok ((OpenTy.fields (Table.ofList types)).fill arg)
          rw [Table.ofList_map, OpenTy.fill_fields]
  | .arg index => by
      by_cases h : index < f.arity
      · refine ⟨.ok (.place ⟨index, h⟩), fun arg => ?_⟩
        simp [eval, inside, Scope.arg, Application.args, h, Except.map]
      · refine ⟨.error (.invalidType s!"argument {index}" "unknown type argument"), fun arg => ?_⟩
        simp [eval, inside, Scope.arg, Application.args, h, Except.map]
  | .this args => by
      change Uniform fun arg => evalAll (inside registry bindings entryOf f arg) args >>=
        fun types => (f.apply types).map .inst
      exact uniform_bind (evalAll_uniform args) (uniform_apply f)
  | .factory g args => uniform_bind (evalAll_uniform args) (uniform_apply g)
  | .ref name args => by
      change Uniform fun arg => evalAll (inside registry bindings entryOf f arg) args >>=
        registry.apply name
      refine uniform_bind (evalAll_uniform args) fun types => ?_
      simp only [Registry.apply]
      cases registry.get name with
      | error e => exact uniform_const (.error e)
      | ok g => exact uniform_apply g types
  | .entry owner key => uniform_const (registry.get owner >>= fun g => entryOf g key)
  | .bound name => uniform_const ((⟨registry, bindings, entryOf, none⟩ : Scope).bound name)

/-- So is that of a list of templates. -/
lemma evalAll_uniform : ∀ ts : List Template,
    ∃ r : Except DefinitionError (List (OpenTy f.arity)), ∀ arg,
      evalAll (inside registry bindings entryOf f arg) ts = r.map (List.map (OpenTy.fill arg))
  | [] => ⟨.ok [], fun arg => rfl⟩
  | t :: rest => by
      obtain ⟨r, hr⟩ := eval_uniform t
      obtain ⟨r', hr'⟩ := evalAll_uniform rest
      refine ⟨r.bind fun type => r'.map (type :: ·), fun arg => ?_⟩
      simp only [evalAll, hr, hr']
      cases r <;> cases r' <;> rfl

/-- So is that of named templates. -/
lemma evalFields_uniform : ∀ ts : List (String × Template),
    ∃ r : Except DefinitionError (List (String × OpenTy f.arity)), ∀ arg,
      evalFields (inside registry bindings entryOf f arg) ts =
        r.map (List.map (Prod.map id (OpenTy.fill arg)))
  | [] => ⟨.ok [], fun arg => rfl⟩
  | (name, t) :: rest => by
      obtain ⟨r, hr⟩ := eval_uniform t
      obtain ⟨r', hr'⟩ := evalFields_uniform rest
      refine ⟨r.bind fun type => r'.map ((name, type) :: ·), fun arg => ?_⟩
      simp only [evalFields, hr, hr']
      cases r <;> cases r' <;> rfl

end

end Template

/-- **The bodies of a workspace are templates**, whatever has been registered and
bound: what they look up is the same for all arguments. -/
lemma Workspace.family_templated (w : Workspace) : w.family.Templated := by
  have hexpansion : ∀ entryOf, (w.expansion entryOf).Templated := by
    intro entryOf f
    cases hbody : w.bodies[f.serial]? with
    | none =>
        refine Or.inl fun arg => ⟨.internal ("no body for " ++ (⟨f, arg⟩ : Instance).text), ?_⟩
        simp only [expansion, hbody]
    | some body =>
        obtain ⟨r, hr⟩ := Template.evalFields_uniform w.registry w.bindings entryOf f body
        have heval : ∀ arg, w.expansion entryOf ⟨f, arg⟩ =
            (r.map (List.map (Prod.map id (OpenTy.fill arg)))).map Table.ofList := by
          intro arg
          simp only [expansion, hbody, Body.eval, ← hr arg]
          rfl
        cases r with
        | error e => exact Or.inl fun arg => ⟨e, heval arg⟩
        | ok types =>
            refine Or.inr ⟨Table.ofList types, fun arg => ?_⟩
            rw [heval, ← Table.ofList_map]
            rfl
  rw [Workspace.family]
  cases w.bodies.size with
  | zero => exact hexpansion _
  | succ level => exact hexpansion _

/-- The bodies of the ready-made definitions. -/
def Prelude.bodies : Family := (Workspace.start .standard true).family

lemma Prelude.bodies_templated : Prelude.bodies.Templated :=
  (Workspace.start .standard true).family_templated

end JsonTypes
