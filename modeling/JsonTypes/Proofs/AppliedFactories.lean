/-
The factories that a type applies, in order.

A place inside a type says, from the outermost type on, which part to enter. Going through a
type from left to right, a type before its parts, is going through its places in lexicographic
order. The factories of a type are the ones that are applied anywhere in it, each listed once,
at the first place where it is applied. Since all definitions on the list are validated before
any document is read, no definition that the type mentions is left out.

* `Ty.AppliesAt`: a factory is applied at a place.
* `Ty.applications`: all applications with their places, in the order of the places.
* `Ty.ComesFirst`: a factory is applied before another one is.
* `Ty.gather`: one pass over a type that keeps a list of the factories met so far.
* `FirstOccurrences.gather`: what such a pass has met.
* `validateAll_ok_iff`: what it means that the definitions of a type are validated.
* `applied_factories_listed`: the factories of a type, and what validating them is good for.
-/
import JsonTypes.Proofs.FailingRuns
import JsonTypes.Proofs.FirstOccurrences
import JsonTypes.Proofs.Instantiation

namespace JsonTypes

/-! ### Places -/

namespace Ty

/-- A factory is applied at a place inside a type. The place says from the outermost type on
which part to enter, counted from the left. -/
inductive AppliesAt : Ty → List ℕ → Factory → Prop where
  | head (i : Instance) : AppliesAt (.inst i) [] i.factory
  | container {c : Container} {t : Ty} {place : List ℕ} {f : Factory}
      (inside : AppliesAt t place f) : AppliesAt (.container c t) (0 :: place) f
  | field {entries : Table Ty} (k : entries.names.Index) {place : List ℕ} {f : Factory}
      (inside : AppliesAt (entries.entry k) place f) : AppliesAt (.fields entries) (k :: place) f
  | arg {i : Instance} (k : Fin i.factory.arity) {place : List ℕ} {f : Factory}
      (inside : AppliesAt (i.arg k) place f) : AppliesAt (.inst i) (k :: place) f

/-- Places inside the parts of a type, seen from the type. -/
def enterParts {n : ℕ} (inside : Fin n → List (List ℕ × Factory)) : List (List ℕ × Factory) :=
  (List.ofFn fun k => (inside k).map (Prod.map (k.val :: ·) id)).flatten

/-- The applications inside a type, each with its place and its factory. -/
def applications : Ty → List (List ℕ × Factory)
  | .primitive _ | .param _ => []
  | .container _ t => t.applications.map (Prod.map (0 :: ·) id)
  | .fields ⟨_, entry⟩ => enterParts fun k => (entry k).applications
  | .inst ⟨f, arg⟩ => ([], f) :: enterParts fun k => (arg k).applications

section Parts

variable {n : ℕ} {inside : Fin n → List (List ℕ × Factory)} {place : List ℕ} {f : Factory}

lemma mem_enterParts : (place, f) ∈ enterParts inside ↔
    ∃ k rest, place = k.val :: rest ∧ (rest, f) ∈ inside k := by
  simp only [enterParts, List.mem_flatten, List.mem_ofFn, exists_exists_eq_and, List.mem_map,
    Prod.exists, Prod.map_apply, id_eq, Prod.mk.injEq]
  constructor
  · rintro ⟨k, rest, g, hmem, rfl, rfl⟩
    exact ⟨k, rest, rfl, hmem⟩
  · rintro ⟨k, rest, rfl, hmem⟩
    exact ⟨k, rest, f, hmem, rfl, rfl⟩

/-- The parts come in order, and so do the places inside each of them. -/
lemma enterParts_ascending (h : ∀ k, (inside k).Pairwise fun a b => a.1 < b.1) :
    (enterParts inside).Pairwise fun a b => a.1 < b.1 := by
  refine List.pairwise_flatten.mpr ⟨fun applications happlications => ?_, ?_⟩
  · obtain ⟨k, rfl⟩ := List.mem_ofFn.mp happlications
    exact List.pairwise_map.mpr ((h k).imp fun hlt => List.cons_lt_cons_self.mpr hlt)
  · refine List.pairwise_ofFn.mpr fun k l hkl a ha b hb => ?_
    obtain ⟨_, -, rfl⟩ := List.mem_map.mp ha
    obtain ⟨_, -, rfl⟩ := List.mem_map.mp hb
    exact List.Lex.rel hkl

lemma map_snd_enterParts :
    (enterParts inside).map Prod.snd = (List.ofFn fun k => (inside k).map Prod.snd).flatten := by
  rw [enterParts, List.map_flatten, List.map_ofFn]
  simp [Function.comp_def]

end Parts

/-- Without their places, these are the factories with repetitions. -/
lemma map_snd_applications (t : Ty) : t.applications.map Prod.snd = t.heads := by
  induction t with
  | primitive p => rfl
  | container c t ih =>
      rw [applications, heads, ← ih, List.map_map]
      rfl
  | fields entries ih =>
      obtain ⟨names, entry⟩ := entries
      rw [applications, heads, map_snd_enterParts]
      exact congrArg List.flatten (congrArg List.ofFn (funext ih))
  | inst i ih =>
      obtain ⟨f, arg⟩ := i
      rw [applications, heads, List.map_cons, map_snd_enterParts]
      exact congrArg (f :: List.flatten ·) (congrArg List.ofFn (funext ih))
  | param index => rfl

/-- **All applications are listed**, at any depth and without expanding any of them. -/
lemma mem_applications {t : Ty} {place : List ℕ} {f : Factory} :
    (place, f) ∈ t.applications ↔ t.AppliesAt place f := by
  induction t generalizing place with
  | primitive p => exact ⟨nofun, nofun⟩
  | container c t ih =>
      simp only [applications, List.mem_map, Prod.exists, Prod.map_apply, id_eq, Prod.mk.injEq]
      constructor
      · rintro ⟨rest, g, hmem, rfl, rfl⟩
        exact .container (ih.mp hmem)
      · rintro (_ | hinside)
        exact ⟨_, f, ih.mpr hinside, rfl, rfl⟩
  | fields entries ih =>
      obtain ⟨names, entry⟩ := entries
      rw [applications, mem_enterParts]
      constructor
      · rintro ⟨k, rest, rfl, hmem⟩
        exact @AppliesAt.field ⟨names, entry⟩ k _ _ ((ih k).mp hmem)
      · rintro (_ | _ | ⟨k, hinside⟩)
        exact ⟨k, _, rfl, (ih k).mpr hinside⟩
  | inst i ih =>
      obtain ⟨g, arg⟩ := i
      rw [applications, List.mem_cons, mem_enterParts]
      constructor
      · rintro (hhead | ⟨k, rest, rfl, hmem⟩)
        · obtain ⟨rfl, rfl⟩ := Prod.mk.inj hhead
          exact .head ⟨f, arg⟩
        · exact @AppliesAt.arg ⟨g, arg⟩ k _ _ ((ih k).mp hmem)
      · rintro (_ | _ | _ | ⟨k, hinside⟩)
        · exact Or.inl rfl
        · exact Or.inr ⟨k, _, rfl, (ih k).mpr hinside⟩
  | param index => exact ⟨nofun, nofun⟩

/-- **They come in the order of their places.** -/
lemma applications_ascending (t : Ty) : t.applications.Pairwise fun a b => a.1 < b.1 := by
  induction t with
  | primitive p => exact List.Pairwise.nil
  | container c t ih =>
      exact List.pairwise_map.mpr (ih.imp fun hlt => List.cons_lt_cons_self.mpr hlt)
  | fields entries ih => exact enterParts_ascending ih
  | inst i ih =>
      refine List.pairwise_cons.mpr ⟨fun a ha => ?_, enterParts_ascending ih⟩
      obtain ⟨k, rest, hplace, -⟩ := mem_enterParts.mp ha
      rw [hplace]
      exact List.nil_lt_cons _ _
  | param index => exact List.Pairwise.nil

/-- A factory is applied at a place before all places where the other one is. -/
def ComesFirst (t : Ty) (f g : Factory) : Prop :=
  ∃ place, t.AppliesAt place f ∧ ∀ other, t.AppliesAt other g → place < other

/-- In a list in the order of places, what comes up first comes up before all places of what
comes up later. -/
lemma exists_place_of_idxOf_lt {applications : List (List ℕ × Factory)} {f g : Factory}
    (hascending : applications.Pairwise fun a b => a.1 < b.1)
    (h : (applications.map Prod.snd).idxOf f < (applications.map Prod.snd).idxOf g) :
    ∃ place, (place, f) ∈ applications ∧ ∀ other, (other, g) ∈ applications → place < other := by
  induction applications with
  | nil => exact absurd h (Nat.lt_irrefl 0)
  | cons first rest ih =>
      obtain ⟨hfirst, hrest⟩ := List.pairwise_cons.mp hascending
      obtain ⟨place, held⟩ := first
      rw [List.map_cons] at h
      have hg : held ≠ g := by
        rintro rfl
        rw [List.idxOf_cons_self] at h
        exact absurd h (Nat.not_lt_zero _)
      have hlater : ∀ {other}, (other, g) ∈ (place, held) :: rest → (other, g) ∈ rest := by
        intro other hother
        refine (List.mem_cons.mp hother).resolve_left fun heq => ?_
        exact hg (congrArg Prod.snd heq).symm
      by_cases hf : held = f
      · subst hf
        exact ⟨place, List.mem_cons_self, fun other hother => hfirst _ (hlater hother)⟩
      · rw [List.idxOf_cons_ne _ hf, List.idxOf_cons_ne _ hg] at h
        obtain ⟨later, hmem, hbefore⟩ := ih hrest (Nat.lt_of_succ_lt_succ h)
        exact ⟨later, List.mem_cons_of_mem _ hmem, fun other hother => hbefore _ (hlater hother)⟩

/-- What is met first is applied first. -/
lemma comesFirst_of_idxOf_lt {t : Ty} {f g : Factory} (h : t.heads.idxOf f < t.heads.idxOf g) :
    t.ComesFirst f g := by
  rw [← t.map_snd_applications] at h
  obtain ⟨place, hmem, hbefore⟩ := exists_place_of_idxOf_lt t.applications_ascending h
  exact ⟨place, mem_applications.mp hmem,
    fun other hother => hbefore other (mem_applications.mpr hother)⟩

/-! ### One pass -/

/-- One pass over a type, a type before its parts and its parts from left to right. It hands on
a list of the factories met so far and puts a factory at the end that is not in it yet. -/
def gather : Ty → List Factory → List Factory
  | .primitive _, met | .param _, met => met
  | .container _ t, met => t.gather met
  | .fields ⟨_, entry⟩, met => (List.finRange _).foldl (fun met k => (entry k).gather met) met
  | .inst ⟨f, arg⟩, met =>
    (List.finRange _).foldl (fun met k => (arg k).gather met) (if f ∈ met then met else met ++ [f])

end Ty

namespace FirstOccurrences

/-- Passes over parts, one after another, meet what the parts hold, one after another. -/
lemma passes {n : ℕ} {pass : Fin n → List Factory → List Factory} {held : Fin n → List Factory}
    (hpass : ∀ k {items met}, FirstOccurrences items met →
      FirstOccurrences (items ++ held k) (pass k met))
    {items met : List Factory} (h : FirstOccurrences items met) :
    FirstOccurrences (items ++ (List.ofFn held).flatten)
      ((List.finRange n).foldl (fun met k => pass k met) met) := by
  rw [List.ofFn_eq_map]
  generalize List.finRange n = parts
  induction parts generalizing items met with
  | nil => simpa using h
  | cons k rest ih =>
      rw [List.map_cons, List.flatten_cons, ← List.append_assoc, List.foldl_cons]
      exact ih (hpass k h)

/-- **Where a pass over a type begins with the first occurrences of what came before, it ends
with those of this and of the type.** -/
lemma gather (t : Ty) {items met : List Factory} (h : FirstOccurrences items met) :
    FirstOccurrences (items ++ t.heads) (t.gather met) := by
  induction t generalizing items met with
  | primitive p => rwa [Ty.heads, Ty.gather, List.append_nil]
  | container c t ih => exact ih h
  | fields entries ih => exact passes (fun k _ _ => ih k) h
  | inst i ih =>
      have hparts := passes (fun k _ _ => ih k) (h.concat i.factory)
      rwa [List.append_assoc, List.singleton_append] at hparts
  | param index => rwa [Ty.heads, Ty.gather, List.append_nil]

end FirstOccurrences

/-! ### The main statement -/

open CommandLine

/-- **The factories of a type are listed completely, once and in order.** A factory is on the
list if and only if it is applied somewhere in the type, arguments included; it is there once,
and factories of one name are there each for itself; what is applied first, from left to right
and from the outermost type on, stands first. One pass that keeps a list of the factories met so
far ends with this list. So the definitions on the list have all been validated if and only if
those of all factories have that the type mentions, and so they have when a check of documents
against the type is prepared. -/
theorem applied_factories_listed (t : Ty) :
    (∀ f, f ∈ t.factories ↔ ∃ place, t.AppliesAt place f) ∧
      t.factories.Nodup ∧ t.factories.Pairwise t.ComesFirst ∧ t.factories = t.gather [] ∧
      (∀ w : Workspace, (Traced.forEach (validateFactory w) t.factories).result = .ok () ↔
        ∀ place f, t.AppliesAt place f → ∃ d, (validate w.family w.config f).result = .ok d) ∧
      ∀ (command : CheckCommand) (files : Files) (job : Job),
        (command.prepare files).result = .ok job → job.type = t →
          ∀ place f, t.AppliesAt place f →
            ∃ d, (validate job.workspace.family job.workspace.config f).result = .ok d := by
  have hlist : FirstOccurrences t.heads t.factories := .eraseDups t.heads
  have hmem : ∀ f, f ∈ t.factories ↔ ∃ place, t.AppliesAt place f := by
    intro f
    rw [hlist.mem_iff, ← t.map_snd_applications]
    simp [Ty.mem_applications]
  have hvalidated : ∀ w : Workspace,
      (Traced.forEach (validateFactory w) t.factories).result = .ok () ↔
        ∀ place f, t.AppliesAt place f → ∃ d, (validate w.family w.config f).result = .ok d := by
    intro w
    rw [validateFactories_ok_iff]
    exact ⟨fun h place f hf => h f ((hmem f).mpr ⟨place, hf⟩),
      fun h f hf => ((hmem f).mp hf).elim fun place => h place f⟩
  refine ⟨hmem, hlist.nodup, hlist.ascending.imp fun h => Ty.comesFirst_of_idxOf_lt h, ?_,
    hvalidated, ?_⟩
  · exact hlist.unique (FirstOccurrences.nil.gather t)
  · rintro command files job hjob rfl place f hf
    obtain ⟨config, u, docs, -, -, hall, -, rfl⟩ := CheckCommand.prepare_ok_iff.mp hjob
    exact hall f ((hmem f).mpr ⟨place, hf⟩)

/-- Factories of one name stay apart, and each is listed where it comes up first. -/
example :
    let pair : Factory := ⟨7, "Pair", .record, 0⟩
    (Ty.map (.fields (.ofList [("near", .inst pair.generic),
      ("far", .repeated (.inst Prelude.pair.factory.generic)),
      ("next", .inst pair.generic)]))).factories = [pair, Prelude.pair.factory] := by
  decide

/-- A file with a number. -/
def numberFile : FileTree ByteArray :=
  .ofFiles [("day", "1".toUTF8)]

/-- The check of the number against a type in which lists come up twice, once inside a tree. -/
def forestCheck : CheckCommand :=
  ⟨"Either(Rose(List(number)), List(string))", ⟨["day"], false, none, none⟩, ⟨none, none, false⟩,
    false⟩

/-- Lists are listed behind trees, and validated before the number is read. -/
theorem applied_factories_listed_forest :
    ∃ job, (forestCheck.prepare (.ofTree numberFile)).result = .ok job ∧
      job.type.factories =
        [Prelude.either.factory, Prelude.rose.factory, Prelude.list.factory] ∧
      job.type.ComesFirst Prelude.rose.factory Prelude.list.factory ∧
      ∃ d, (validate job.workspace.family job.workspace.config Prelude.list.factory).result =
        .ok d := by
  have hfactories : (forestCheck.prepare (.ofTree numberFile)).result.toOption.map
      (fun job => job.type.factories) =
        some [Prelude.either.factory, Prelude.rose.factory, Prelude.list.factory] := by
    decide +kernel
  cases hjob : (forestCheck.prepare (.ofTree numberFile)).result with
  | error failure =>
      rw [hjob] at hfactories
      cases hfactories
  | ok job =>
      rw [hjob] at hfactories
      have hlist : job.type.factories =
          [Prelude.either.factory, Prelude.rose.factory, Prelude.list.factory] :=
        Option.some.inj hfactories
      obtain ⟨hmem, -, horder, -, -, hprepared⟩ := applied_factories_listed job.type
      rw [hlist] at horder
      obtain ⟨place, hplace⟩ := (hmem Prelude.list.factory).mp (by rw [hlist]; decide)
      exact ⟨job, rfl, hlist, List.rel_of_pairwise_cons horder.of_cons (by decide),
        hprepared _ _ job hjob rfl place _ hplace⟩

end JsonTypes
