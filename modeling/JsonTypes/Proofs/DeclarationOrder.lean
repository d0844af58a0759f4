/-
The order of declarations and the verdict of the walk.

The walk is a run through the entries of the bodies one after another, so it meets
other instances in another order, below other open instances, when the entries are
reordered. Whether a definition is well-formed is said of the graph that the bodies
span, which is the same one up to equality. So the order can matter only to how deep
the walk nests: an instance that is finished early is skipped where it would have
been opened below many others.

* `Family.Reorders`: families whose bodies differ in the order of entries.
* `Exposes.reorder`, `Reaches.reorder`, `BareChild.reorder_chain`: both span the same
  graph.
* `Family.WellFormed.reorder`: a definition that is well-formed in one order is so in
  the other.
* `Family.StopsAtLimit`: the walk ends at a branch longer than the limit allows.
* `validate_reordered_iff`: the verdict is the same in both orders, unless one walk
  stops at the limit; and there is room for the walks if there is for everything
  reachable.
* `verdict_of_order`: too little room, or bodies that look at the order of fields, let
  the order decide.
-/
import JsonTypes.Proofs.WalkErrors

namespace JsonTypes

open Relation

/-! ### Reordered families -/

/-- Two families whose bodies differ in the order of entries, at any depth: what
expands in one expands in the other, to the same names with the same types. -/
structure Family.Reorders (bodies bodies' : Family) : Prop where
  forth : ∀ i entries, bodies i = .ok entries →
    ∃ entries', bodies' i = .ok entries' ∧ (Ty.fields entries).Alike (.fields entries')
  back : ∀ i entries', bodies' i = .ok entries' →
    ∃ entries, bodies i = .ok entries ∧ (Ty.fields entries').Alike (.fields entries)

namespace Family

variable {bodies bodies' : Family} {i i' j : Instance}

lemma Reorders.symm (h : bodies.Reorders bodies') : bodies'.Reorders bodies :=
  ⟨h.back, h.forth⟩

/-- Equal instances expand to alike entries in either order. -/
lemma Reorders.exists_entries (h : bodies.Reorders bodies') (respects : bodies.RespectsSame)
    (hij : i.same j = true) {entries : Table Ty} (hi : bodies i = .ok entries) :
    ∃ entries', bodies' j = .ok entries' ∧ (Ty.fields entries).Alike (.fields entries') := by
  obtain ⟨between, hj, hsame⟩ := respects i j entries hij hi
  obtain ⟨entries', hj', halike⟩ := h.forth j between hj
  exact ⟨entries', hj', ((Ty.same_iff_alike _ _).mp hsame).trans halike⟩

/-- Bodies that map equal arguments to equal entries do so in another order. -/
lemma Reorders.respectsSame (h : bodies.Reorders bodies') (respects : bodies.RespectsSame) :
    bodies'.RespectsSame := by
  intro i j entries hij hi
  obtain ⟨between, hi', halike⟩ := h.back i entries hi
  obtain ⟨entries', hj, halike'⟩ := h.exists_entries respects hij hi'
  exact ⟨entries', hj, (Ty.same_iff_alike _ _).mpr (halike.trans halike')⟩

/-! ### The same graph -/

section Graph

variable (reorders : bodies.Reorders bodies') (respects : bodies.RespectsSame)

include reorders respects

lemma Exposes.reorder (hi : i.same i' = true) {guarded : Bool} {t : Ty}
    (h : bodies.Exposes i guarded t) : ∃ u, bodies'.Exposes i' guarded u ∧ t.Alike u := by
  obtain ⟨entries, hentries, hshows⟩ := h
  obtain ⟨entries', hentries', halike⟩ := reorders.exists_entries respects hi hentries
  obtain ⟨u, hu, htu⟩ := hshows.of_alike halike
  exact ⟨u, ⟨entries', hentries', hu⟩, htu⟩

lemma Exposes.reorder_inst (hi : i.same i' = true) {guarded : Bool}
    (h : bodies.Exposes i guarded (.inst j)) :
    ∃ j', bodies'.Exposes i' guarded (.inst j') ∧ j.same j' = true := by
  obtain ⟨u, hu, halike⟩ := h.reorder reorders respects hi
  obtain ⟨j', rfl, hj⟩ := Application.exists_same_of_alike halike
  exact ⟨j', hu, hj⟩

/-- What is reachable in one order is reachable in the other, up to equality. -/
lemma Reaches.reorder {root : Instance} (h : bodies.Reaches root i) :
    ∃ i', bodies'.Reaches root i' ∧ i.same i' = true := by
  induction h with
  | refl => exact ⟨root, .refl, Application.same_refl root⟩
  | @tail j k _ hjk ih =>
      obtain ⟨j', hj', hjj'⟩ := ih
      obtain ⟨guarded, hexposes⟩ := hjk
      obtain ⟨k', hk', hkk'⟩ := hexposes.reorder_inst reorders respects hjj'
      exact ⟨k', hj'.tail ⟨guarded, hk'⟩, hkk'⟩

/-- Chains of unguarded steps are found again, from any equal instance. -/
lemma BareChild.reorder_chain (hi : i.same i' = true) (h : TransGen bodies.BareChild i j) :
    ∃ j', TransGen bodies'.BareChild i' j' ∧ j.same j' = true := by
  induction h with
  | single hij =>
      obtain ⟨hkind, hexposes⟩ := hij
      obtain ⟨j', hj', hjj'⟩ := hexposes.reorder_inst reorders respects hi
      exact ⟨j', .single ⟨Application.same_factory hi ▸ hkind, hj'⟩, hjj'⟩
  | tail _ hjk ih =>
      obtain ⟨j', hj', hjj'⟩ := ih
      obtain ⟨hkind, hexposes⟩ := hjk
      obtain ⟨k', hk', hkk'⟩ := hexposes.reorder_inst reorders respects hjj'
      exact ⟨k', hj'.tail ⟨Application.same_factory hjj' ▸ hkind, hk'⟩, hkk'⟩

/-- **Well-formedness does not depend on the order of entries.** -/
lemma WellFormed.reorder {f : Factory} (hwf : bodies.WellFormed f) : bodies'.WellFormed f := by
  have respects' := reorders.respectsSame respects
  have hreached : ∀ i, bodies'.Reaches f.generic i →
      ∃ j, bodies.Reaches f.generic j ∧ i.same j = true :=
    fun i hi => Reaches.reorder reorders.symm respects' hi
  refine ⟨fun i hi => ?_, fun i guarded index hi hindex => ?_, ?_, fun i hi hcycle => ?_⟩
  · obtain ⟨j, hj, hij⟩ := hreached i hi
    obtain ⟨entries, hentries⟩ := hwf.expands j hj
    obtain ⟨entries', hentries', -⟩ :=
      reorders.exists_entries respects (Application.same_symm hij) hentries
    exact ⟨entries', hentries'⟩
  · obtain ⟨j, hj, hij⟩ := hreached i hi
    obtain ⟨u, hu, halike⟩ := hindex.reorder reorders.symm respects' hij
    cases halike with
    | param => exact hwf.owned j guarded index hj hu
  · obtain ⟨cover, hcover⟩ := hwf.finite
    refine ⟨cover, fun i hi => ?_⟩
    obtain ⟨j, hj, hij⟩ := hreached i hi
    exact Application.isIn_of_same (Application.same_symm hij) (hcover j hj)
  · -- the cycle is followed once in the other order, from an equal instance
    obtain ⟨k, hki, hchain⟩ := hcycle
    obtain ⟨j, hj, hij⟩ := hreached i hi
    obtain ⟨l, hjl, hil⟩ := BareChild.reorder_chain reorders.symm respects'
      (Application.same_trans hki hij) hchain
    have hl : bodies.Reaches f.generic l :=
      hj.trans (hjl.to_reflTransGen.lift id fun _ _ hstep => ⟨false, hstep.2⟩)
    exact hwf.acyclic l hl
      ⟨j, Application.same_trans (Application.same_symm hij) hil, hjl⟩

end Graph

/-! ### The verdict -/

/-- The walk over the definition of a factory ends where one more instance would have
to be opened than the limit allows. -/
def StopsAtLimit (bodies : Family) (config : Config) (f : Factory) : Prop :=
  ∃ i rest, (validate bodies config f).result = .error (tooDeep f.generic i config.maxDepth) ∧
    Branch bodies f.generic (i :: rest) ∧ (i :: rest).length = config.maxDepth + 1

/-- The walk over a well-formed definition accepts it or stops at the limit. -/
lemma WellFormed.accepted_or_stops {f : Factory} (hwf : bodies.WellFormed f) (config : Config) :
    (∃ d, (validate bodies config f).result = .ok d) ∨ bodies.StopsAtLimit config f := by
  cases h : (validate bodies config f).result with
  | ok d => exact Or.inl ⟨d, rfl⟩
  | error e =>
      refine Or.inr ?_
      cases cause_of_validate h with
      | cycle hreaches hcycle => exact absurd hcycle (hwf.acyclic _ hreaches)
      | leak hreaches hexposes hforeign =>
          exact absurd (hwf.owned _ _ _ hreaches hexposes) (Nat.not_lt.mpr hforeign)
      | deep hbranch hlength => exact ⟨_, _, h, hbranch, hlength⟩
      | body hreaches hfails =>
          obtain ⟨entries, hentries⟩ := hwf.expands _ hreaches
          cases hfails.symm.trans hentries

/-- A walk does not stop at a limit that leaves room for everything reachable. -/
lemma not_stopsAtLimit {config : Config} {f : Factory} {cover : List Instance}
    (hlen : cover.length ≤ config.maxDepth)
    (hcover : ∀ i, bodies.Reaches f.generic i → i.isIn cover = true) :
    ¬ bodies.StopsAtLimit config f := by
  rintro ⟨i, rest, -, hbranch, hlength⟩
  have := hbranch.length_le hcover
  omega

/-- What is accepted in one order is accepted in the other, or the walk stops at the
limit there. -/
lemma Reorders.accepted_or_stops (reorders : bodies.Reorders bodies')
    (respects : bodies.RespectsSame) {config : Config} {f : Factory}
    (h : ∃ d, (validate bodies config f).result = .ok d) :
    (∃ d, (validate bodies' config f).result = .ok d) ∨ bodies'.StopsAtLimit config f := by
  obtain ⟨d, hd⟩ := h
  exact ((wellFormed_of_validate respects hd).reorder reorders respects).accepted_or_stops config

end Family

/-- **The verdict of the walk does not depend on the order of declarations**, except
through the limit. Whatever the order of the entries in the bodies, the definition is
accepted or not, if neither walk stops at the limit. Neither does if the limit is at
least the number of instances that are reachable. -/
theorem validate_reordered_iff (bodies bodies' : Family) (respects : bodies.RespectsSame)
    (reorders : bodies.Reorders bodies') (config : Config) (f : Factory) :
    (¬ bodies.StopsAtLimit config f → ¬ bodies'.StopsAtLimit config f →
      ((∃ d, (validate bodies config f).result = .ok d) ↔
        ∃ d, (validate bodies' config f).result = .ok d)) ∧
    ∀ cover : List Instance, (∀ i, bodies.Reaches f.generic i → i.isIn cover = true) →
      cover.length ≤ config.maxDepth →
        ((∃ d, (validate bodies config f).result = .ok d) ↔
          ∃ d, (validate bodies' config f).result = .ok d) := by
  have respects' := reorders.respectsSame respects
  have hiff : ¬ bodies.StopsAtLimit config f → ¬ bodies'.StopsAtLimit config f →
      ((∃ d, (validate bodies config f).result = .ok d) ↔
        ∃ d, (validate bodies' config f).result = .ok d) := fun hstops hstops' =>
    ⟨fun h => (reorders.accepted_or_stops respects h).resolve_right hstops',
      fun h => (reorders.symm.accepted_or_stops respects' h).resolve_right hstops⟩
  refine ⟨hiff, fun cover hcover hlen => hiff (Family.not_stopsAtLimit hlen hcover) ?_⟩
  refine Family.not_stopsAtLimit hlen fun i hi => ?_
  obtain ⟨j, hj, hij⟩ := Family.Reaches.reorder reorders.symm respects' hi
  exact Application.isIn_of_same (Application.same_symm hij) (hcover j hj)

/-! ### Where the order decides -/

/-- Bodies that look at the factory only map equal arguments to equal entries. -/
lemma Family.respectsSame_of_factory {bodies : Family}
    (h : ∀ i j, i.factory = j.factory → bodies i = bodies j) : bodies.RespectsSame := by
  intro i j entries hij hi
  refine ⟨entries, (h i j (Application.same_factory hij)).symm.trans hi, ?_⟩
  exact (Ty.same_iff_alike _ _).mpr (.refl _)

/-- Families that differ in one body, up to the order of its entries. -/
lemma Family.reorders_of_factory {bodies bodies' : Family} {f : Factory} {a b : Table Ty}
    (hab : (Ty.fields a).same (.fields b) = true)
    (h : ∀ i, i.factory = f → bodies i = .ok a ∧ bodies' i = .ok b)
    (hother : ∀ i, i.factory ≠ f → bodies i = bodies' i) : bodies.Reorders bodies' := by
  have halike := (Ty.same_iff_alike _ _).mp hab
  refine ⟨fun i entries hi => ?_, fun i entries hi => ?_⟩
  · by_cases hf : i.factory = f
    · obtain rfl : a = entries := Except.ok.inj ((h i hf).1.symm.trans hi)
      exact ⟨b, (h i hf).2, halike⟩
    · exact ⟨entries, (hother i hf).symm.trans hi, .refl _⟩
  · by_cases hf : i.factory = f
    · obtain rfl : b = entries := Except.ok.inj ((h i hf).2.symm.trans hi)
      exact ⟨a, (h i hf).1, halike.symm⟩
    · exact ⟨entries, (hother i hf).trans hi, .refl _⟩

namespace Ordered

/-- `none: {}`, a schema without instances inside. -/
def leaf : Factory := ⟨0, "Leaf", .schema, 0⟩

/-- `only: Leaf`, a schema around it. -/
def node : Factory := ⟨1, "Node", .schema, 0⟩

/-- A schema with a leaf and a node as variants. -/
def root : Factory := ⟨2, "Root", .schema, 0⟩

/-- A leaf, a node and a root with the given variants. -/
def below (variants : List (String × Ty)) : Family := fun i =>
  if i.factory = root then .ok (.ofList variants)
  else if i.factory = node then .ok (.ofList [("only", .inst leaf.generic)])
  else .ok (.ofList [("none", .unit)])

/-- `near: Leaf | far: Node` -/
def nearFirst : Family := below [("near", .inst leaf.generic), ("far", .inst node.generic)]

/-- `far: Node | near: Leaf` -/
def farFirst : Family := below [("far", .inst node.generic), ("near", .inst leaf.generic)]

lemma below_respectsSame (variants : List (String × Ty)) : (below variants).RespectsSame :=
  Family.respectsSame_of_factory fun i j hij => by simp only [below, hij]

lemma nearFirst_reorders : nearFirst.Reorders farFirst :=
  Family.reorders_of_factory (f := root) rfl
    (fun i hi => ⟨by rw [nearFirst, below, if_pos hi], by rw [farFirst, below, if_pos hi]⟩)
    fun i hi => by rw [nearFirst, farFirst, below, below, if_neg hi, if_neg hi]

/-- A record with one parameter. -/
def picky : Factory := ⟨3, "Picky", .record, 1⟩

/-- A record with two optional fields. -/
def user : Factory := ⟨4, "User", .record, 0⟩

/-- A picky record expands only if the fields of its argument are `x` and `y` in this
order, and a user has the given fields. -/
def minding (fields : List (String × Ty)) : Family := fun i =>
  if i.factory = user then .ok (.ofList fields)
  else
    match i.args with
    | [.fields entries] =>
      if entries.names.toList = ["x", "y"] then .ok .empty
      else .error (.invalidType "Picky" "x has to come first")
    | _ => .ok .empty

/-- `Optional(Picky({ x: number, y: number }))`, or with the fields of the argument
exchanged. -/
def pickyField (first second : String) : Ty :=
  .optional (.inst ⟨picky, fun _ => .fields (.ofList [(first, .number), (second, .number)])⟩)

/-- `{ a: Optional(Picky({ x, y })), b: Optional(Picky({ y, x })) }` -/
def orderlyFirst : Family := minding [("a", pickyField "x" "y"), ("b", pickyField "y" "x")]

/-- `{ b: Optional(Picky({ y, x })), a: Optional(Picky({ x, y })) }` -/
def orderlyLast : Family := minding [("b", pickyField "y" "x"), ("a", pickyField "x" "y")]

lemma orderlyFirst_reorders : orderlyFirst.Reorders orderlyLast :=
  Family.reorders_of_factory (f := user) rfl
    (fun i hi => ⟨by rw [orderlyFirst, minding, if_pos hi],
      by rw [orderlyLast, minding, if_pos hi]⟩)
    fun i hi => by rw [orderlyFirst, orderlyLast, minding, minding, if_neg hi, if_neg hi]

end Ordered

/-- With enough room the order of the variants is indifferent, and both are accepted. -/
theorem validate_reordered_iff_root :
    Ordered.nearFirst.RespectsSame ∧ Ordered.nearFirst.Reorders Ordered.farFirst ∧
      (∃ d, (validate Ordered.nearFirst .standard Ordered.root).result = .ok d) ∧
      ∃ d, (validate Ordered.farFirst .standard Ordered.root).result = .ok d := by
  have respects := Ordered.below_respectsSame
    [("near", .inst Ordered.leaf.generic), ("far", .inst Ordered.node.generic)]
  have hnear : ∃ d, (validate Ordered.nearFirst .standard Ordered.root).result = .ok d :=
    ⟨_, rfl⟩
  refine ⟨respects, Ordered.nearFirst_reorders, hnear, ?_⟩
  refine ((validate_reordered_iff _ _ respects Ordered.nearFirst_reorders .standard
    Ordered.root).1 ?_ ?_).mp hnear
  · rintro ⟨i, rest, h, -⟩
    cases h
  · rintro ⟨i, rest, h, -⟩
    cases h

/-- **Where the order decides.** With room for two open instances the leaf has to be
finished before the node is opened. And of two equal instances only the first is
expanded, so bodies that look at the order of fields are noticed or not. -/
theorem verdict_of_order :
    (Ordered.nearFirst.RespectsSame ∧ Ordered.nearFirst.Reorders Ordered.farFirst ∧
      (∃ d, (validate Ordered.nearFirst { Config.standard with maxDepth := 2 }
        Ordered.root).result = .ok d) ∧
      ¬ ∃ d, (validate Ordered.farFirst { Config.standard with maxDepth := 2 }
        Ordered.root).result = .ok d) ∧
    Ordered.orderlyFirst.Reorders Ordered.orderlyLast ∧
      (∃ d, (validate Ordered.orderlyFirst .standard Ordered.user).result = .ok d) ∧
      ¬ ∃ d, (validate Ordered.orderlyLast .standard Ordered.user).result = .ok d := by
  refine ⟨⟨Ordered.below_respectsSame _, Ordered.nearFirst_reorders, ⟨_, rfl⟩, ?_⟩,
    Ordered.orderlyFirst_reorders, ⟨_, rfl⟩, ?_⟩
  · rintro ⟨d, hd⟩
    cases hd
  · rintro ⟨d, hd⟩
    cases hd

end JsonTypes
