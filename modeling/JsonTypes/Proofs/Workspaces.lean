/-
Workspaces, and what the ready-made definitions are in all of them.

Operations on a workspace register factories, bind types and set the configuration, but no
operation takes a body away. So the ready-made definitions expand in every workspace as they
are written, also where their names have been given to other factories.

* `Family.HasPrelude`: a family that expands the ready-made definitions as they are written.
* `Workspace.Arises`: the workspaces that operations lead to.
* `Workspace.Arises.hasPrelude`: their families are such families.
-/
import JsonTypes.Workspace
import Mathlib.Data.List.Basic
import Mathlib.Tactic.Lemma

namespace JsonTypes

/-- A family expands the ready-made definitions as they are written: an instance to what the
body yields for its arguments, whatever else the body could refer to. -/
def Family.HasPrelude (bodies : Family) : Prop :=
  ∀ d ∈ Prelude.definitions, ∀ arg, ∃ scope : Scope, scope.this = some ⟨d.factory, arg⟩ ∧
    bodies ⟨d.factory, arg⟩ = d.body.eval scope

/-- A ready-made factory stands at the place of its serial number. -/
lemma Prelude.getElem?_definitions {d : Definition} (known : d ∈ definitions) :
    definitions[d.factory.serial]? = some d := by
  simp only [definitions, List.mem_cons, List.not_mem_nil, or_false] at known
  rcases known with rfl | rfl | rfl | rfl | rfl | rfl | rfl <;> rfl

namespace Workspace

/-- The workspaces that operations lead to. -/
inductive Arises : Workspace → Prop where
  | start (config : Config) (prelude : Bool) : Arises (start config prelude)
  | configure {w : Workspace} (before : Arises w) (config : Config) : Arises { w with config }
  | register {w : Workspace} (before : Arises w) (name : String) (kind : Factory.Kind)
      (arity : ℕ) (body : Body) : Arises (w.register name kind arity body).2
  | bind {w : Workspace} (before : Arises w) (name : String) (t : Ty) : Arises (w.bind name t)
  | define {w : Workspace} (before : Arises w) (s : QualifiedSchema) : Arises (w.define s)

namespace Arises

variable {w : Workspace}

/-- No operation takes the bodies of the ready-made definitions away from their places. -/
lemma bodies_prefix (h : w.Arises) :
    Prelude.definitions.map Definition.body <+: w.bodies.toList := by
  induction h with
  | start config prelude => exact List.prefix_rfl
  | register before name kind arity body ih =>
      rw [Workspace.register, Array.toList_push]
      exact ih.trans (List.prefix_append _ _)
  | configure _ _ ih | bind _ _ _ ih | define _ _ ih => exact ih

/-- **The ready-made definitions expand as they are written**, whatever else there is. -/
lemma hasPrelude (h : w.Arises) : w.family.HasPrelude := by
  intro d known arg
  have hbody : w.bodies[d.factory.serial]? = some d.body := by
    obtain ⟨later, hlater⟩ := h.bodies_prefix
    have hplace := Prelude.getElem?_definitions known
    obtain ⟨hserial, -⟩ := List.getElem?_eq_some_iff.mp hplace
    rw [← Array.getElem?_toList, ← hlater, List.getElem?_append_left (by simpa using hserial),
      List.getElem?_map, hplace, Option.map_some]
  have hexpansion : ∀ entryOf, w.expansion entryOf ⟨d.factory, arg⟩ =
      d.body.eval (w.scope entryOf (some ⟨d.factory, arg⟩)) := by
    intro entryOf
    simp only [expansion, hbody]
  rw [Workspace.family]
  cases w.bodies.size with
  | zero => exact ⟨_, rfl, hexpansion _⟩
  | succ level => exact ⟨_, rfl, hexpansion _⟩

end Arises

end Workspace

end JsonTypes
