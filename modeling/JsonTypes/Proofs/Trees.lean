/-
The values of the ready-made trees.

A binary tree is a schema that refers to itself twice, and its leaves are payloads, which are
never null. A rose tree is a record whose children are a list of rose trees, so that the record
and the schema of lists expand each other, and its labels are fields, which are null where the
type of labels allows it. In both cases the trees are found in a value by an induction over the
value, in which a step may lead through a whole list of cells.

* `LeafTree`, `RoseTree`: finite trees, with `RoseTree.ind` as induction over rose trees;
  `LeafTree.toJson`, `RoseTree.toJson`: their values.
* `Family.HasPrelude.expands_binTree`, `Family.HasPrelude.expands_rose`: what the definitions
  expand to.
* `conforms_binTreeOf_iff`, `conforms_roseOf_iff`: the values of the two types of trees.
* `check_trees`: both for checks as a whole.
-/
import JsonTypes.Proofs.Lists

namespace JsonTypes

open Relation

/-! ### Trees -/

/-- Finite binary trees with what they hold at their leaves. -/
inductive LeafTree (α : Type) where
  | leaf (a : α)
  | branch (left right : LeafTree α)

namespace LeafTree

/-- All leaves have a property. -/
def All {α : Type} (p : α → Prop) : LeafTree α → Prop
  | leaf a => p a
  | branch left right => left.All p ∧ right.All p

/-- The value of a tree of values, with its members in the order of their declaration. -/
def toJson (discriminator : String) : LeafTree Json → Json
  | leaf x => .ofMembers [(discriminator, .string "Leaf"), ("Leaf", x)]
  | branch left right =>
    .ofMembers [(discriminator, .string "Branch"),
      ("Branch", .ofMembers [("leftBranch", left.toJson discriminator),
        ("rightBranch", right.toJson discriminator)])]

end LeafTree

/-- Finite trees with a label and any number of children at every node. -/
inductive RoseTree (α : Type) where
  | node (label : α) (children : List (RoseTree α))

namespace RoseTree

/-- A property holds of all trees if it passes from the children to the tree. -/
@[elab_as_elim]
lemma ind {α : Type} {motive : RoseTree α → Prop}
    (node : ∀ label children, (∀ child ∈ children, motive child) → motive (.node label children))
    (tree : RoseTree α) : motive tree :=
  RoseTree.rec (motive_1 := motive) (motive_2 := fun children => ∀ child ∈ children, motive child)
    (fun label children ih => node label children ih)
    (fun child hchild => absurd hchild (by simp))
    (fun _ _ hfirst hrest => List.forall_mem_cons.mpr ⟨hfirst, hrest⟩)
    tree

/-- All labels have a property. -/
inductive All {α : Type} (p : α → Prop) : RoseTree α → Prop where
  | node {label : α} {children : List (RoseTree α)} (here : p label)
      (below : ∀ child ∈ children, All p child) : All p (.node label children)

mutual

/-- The value of a tree of values, with its members in the order of their declaration. -/
def toJson (discriminator : String) : RoseTree Json → Json
  | .node label children =>
    .ofMembers [("label", label),
      ("children", Json.encodeList discriminator (toJsons discriminator children))]

/-- The values of trees, in order. -/
def toJsons (discriminator : String) : List (RoseTree Json) → List Json
  | [] => []
  | tree :: rest => tree.toJson discriminator :: toJsons discriminator rest

end

lemma toJsons_eq_map (discriminator : String) (trees : List (RoseTree Json)) :
    toJsons discriminator trees = trees.map (toJson discriminator) := by
  induction trees with
  | nil => rfl
  | cons tree rest ih => rw [toJsons, ih, List.map_cons]

lemma toJson_node (discriminator : String) (label : Json) (children : List (RoseTree Json)) :
    (RoseTree.node label children).toJson discriminator =
      .ofMembers [("label", label),
        ("children", Json.encodeList discriminator (children.map (toJson discriminator)))] := by
  rw [toJson, toJsons_eq_map]

end RoseTree

/-! ### The definitions of trees -/

namespace Prelude

/-- The type of the binary trees of a type. -/
def binTreeOf (t : Ty) : Ty := .inst ⟨binTree.factory, fun _ => t⟩

/-- The fields of a branch of a binary tree. -/
def branchOf (t : Ty) : Table Ty :=
  .ofList [("leftBranch", binTreeOf t), ("rightBranch", binTreeOf t)]

/-- The variants of the binary trees of a type. -/
def binTreeVariants (t : Ty) : Table Ty :=
  .ofList [("Leaf", t), ("Branch", .fields (branchOf t))]

/-- The type of the rose trees of a type. -/
def roseOf (t : Ty) : Ty := .inst ⟨rose.factory, fun _ => t⟩

/-- The fields of the rose trees of a type. -/
def roseFields (t : Ty) : Table Ty := .ofList [("label", t), ("children", listOf (roseOf t))]

end Prelude

open Prelude

variable {bodies : Family} {discriminator : String} {t : Ty} {v : Json}

lemma Family.HasPrelude.expands_binTree (h : bodies.HasPrelude) (t : Ty) :
    bodies ⟨binTree.factory, fun _ => t⟩ = .ok (binTreeVariants t) := by
  obtain ⟨⟨_, _, _, _⟩, rfl, hbody⟩ := h binTree (by simp [definitions]) fun _ => t
  have hself : (⟨binTree.factory, fun i => #[t][i]⟩ : Instance) = ⟨binTree.factory, fun _ => t⟩ :=
    Application.ext_unary rfl rfl
  rw [hbody, binTreeVariants, branchOf, binTreeOf, ← hself]
  rfl

lemma Family.HasPrelude.expands_rose (h : bodies.HasPrelude) (t : Ty) :
    bodies ⟨rose.factory, fun _ => t⟩ = .ok (roseFields t) := by
  obtain ⟨⟨_, _, _, _⟩, rfl, hbody⟩ := h rose (by simp [definitions]) fun _ => t
  have hself : (⟨rose.factory, fun i => #[t][i]⟩ : Instance) = ⟨rose.factory, fun _ => t⟩ :=
    Application.ext_unary rfl rfl
  have hlist : (⟨list.factory, fun i => #[roseOf t][i]⟩ : Instance) =
      ⟨list.factory, fun _ => roseOf t⟩ := Application.ext_unary rfl rfl
  rw [hbody, roseFields, listOf, ← hlist, roseOf, ← hself]
  rfl

/-! ### The values of the types of trees -/

section BinTree

variable (expands : bodies ⟨binTree.factory, fun _ => t⟩ = .ok (binTreeVariants t))
  (leaf : discriminator ≠ "Leaf") (branch : discriminator ≠ "Branch")

include expands leaf branch

/-- A binary tree is a leaf that is not null, or a branch of two trees. -/
lemma conforms_binTreeOf_cases :
    Conforms bodies discriminator (binTreeOf t) v ↔
      (∃ x, v.HasMembers [(discriminator, .string "Leaf"), ("Leaf", x)] ∧
        x ≠ .null ∧ Conforms bodies discriminator t x) ∨
      ∃ fork left right, v.HasMembers [(discriminator, .string "Branch"), ("Branch", fork)] ∧
        fork.HasMembers [("leftBranch", left), ("rightBranch", right)] ∧
        Conforms bodies discriminator (binTreeOf t) left ∧
        Conforms bodies discriminator (binTreeOf t) right := by
  have hfork : ∀ fork, Conforms bodies discriminator (.fields (branchOf t)) fork ↔
      ∃ left right, fork.HasMembers [("leftBranch", left), ("rightBranch", right)] ∧
        Conforms bodies discriminator (binTreeOf t) left ∧
        Conforms bodies discriminator (binTreeOf t) right :=
    fun fork => conforms_pair_iff (by decide)
  rw [binTreeOf, conforms_alternative_iff (by decide) rfl expands leaf branch]
  simp only [hfork]
  constructor
  · rintro (h | ⟨fork, hv, -, left, right, hpair, hleft, hright⟩)
    · exact .inl h
    · exact .inr ⟨fork, left, right, hv, hpair, hleft, hright⟩
  · rintro (h | ⟨fork, left, right, hv, hpair, hleft, hright⟩)
    · exact .inl h
    · exact .inr ⟨fork, hv, hpair.ne_null, left, right, hpair, hleft, hright⟩

/-- **The values of the type of binary trees are the values of finite binary trees** with leaves
that are values and not null, up to the order of members. -/
lemma conforms_binTreeOf_iff :
    Conforms bodies discriminator (binTreeOf t) v ↔
      ∃ tree : LeafTree Json, tree.All (fun x => x ≠ .null ∧ Conforms bodies discriminator t x) ∧
        v.Alike (tree.toJson discriminator) := by
  constructor
  · intro h
    induction v using Json.isPart_wellFounded.transGen.induction with
    | _ v ih =>
    rcases (conforms_binTreeOf_cases expands leaf branch).mp h with
      ⟨x, hv, hx⟩ | ⟨fork, left, right, hv, hfork, hleft, hright⟩
    · exact ⟨.leaf x, hx, hv.alike_pair (.ofMembers (by simpa using leaf)) (.refl _) (.refl _)⟩
    · have hinside : ∀ {w}, w.IsPart fork → TransGen Json.IsPart w v :=
        fun hw => .tail (.single hw) hv.isPart_second
      obtain ⟨l, hl, hleft'⟩ := ih left (hinside hfork.isPart_first) hleft
      obtain ⟨r, hr, hright'⟩ := ih right (hinside hfork.isPart_second) hright
      have hforks : fork.Alike (.ofMembers [("leftBranch", l.toJson discriminator),
          ("rightBranch", r.toJson discriminator)]) :=
        hfork.alike_pair (.ofMembers (by simp)) hleft' hright'
      exact ⟨.branch l r, ⟨hl, hr⟩,
        hv.alike_pair (.ofMembers (by simpa using branch)) (.refl _) hforks⟩
  · rintro ⟨tree, hleaves, halike⟩
    refine Conforms.reordered ?_ halike.symm
    clear halike
    induction tree with
    | leaf x =>
        exact (conforms_binTreeOf_cases expands leaf branch).mpr
          (.inl ⟨x, .ofMembers (by simpa using leaf), hleaves⟩)
    | branch l r ihl ihr =>
        exact (conforms_binTreeOf_cases expands leaf branch).mpr
          (.inr ⟨_, _, _, .ofMembers (by simpa using branch), .ofMembers (by simp),
            ihl hleaves.1, ihr hleaves.2⟩)

end BinTree

section Rose

variable (expands : bodies ⟨rose.factory, fun _ => t⟩ = .ok (roseFields t))
  (expands_list : bodies ⟨list.factory, fun _ => roseOf t⟩ = .ok (listVariants (roseOf t)))
  (nil : discriminator ≠ "Nil") (cons : discriminator ≠ "Cons")

include expands expands_list nil cons

/-- A rose tree is a label with a list of rose trees. -/
lemma conforms_roseOf_cases :
    Conforms bodies discriminator (roseOf t) v ↔
      ∃ label children items, v.HasMembers [("label", label), ("children", children)] ∧
        children.EncodesList discriminator items ∧ Conforms bodies discriminator t label ∧
        ∀ x ∈ items, Conforms bodies discriminator (roseOf t) x := by
  have hfields : Conforms bodies discriminator (.fields (roseFields t)) v ↔
      ∃ label children, v.HasMembers [("label", label), ("children", children)] ∧
        Conforms bodies discriminator t label ∧
        Conforms bodies discriminator (listOf (roseOf t)) children := conforms_pair_iff (by decide)
  have hchildren : ∀ children, Conforms bodies discriminator (listOf (roseOf t)) children ↔
      ∃ items, children.EncodesList discriminator items ∧
        ∀ x ∈ items, Conforms bodies discriminator (roseOf t) x :=
    fun children => conforms_listOf_iff expands_list nil cons
  rw [roseOf, conforms_record_iff rfl expands, ← roseOf, hfields]
  simp only [hchildren]
  constructor
  · rintro ⟨label, children, hv, hlabel, items, hitems, heach⟩
    exact ⟨label, children, items, hv, hitems, hlabel, heach⟩
  · rintro ⟨label, children, items, hv, hitems, hlabel, heach⟩
    exact ⟨label, children, hv, hlabel, items, hitems, heach⟩

/-- **The values of the type of rose trees are the values of finite rose trees** with labels
that are values, up to the order of members. -/
lemma conforms_roseOf_iff :
    Conforms bodies discriminator (roseOf t) v ↔
      ∃ tree : RoseTree Json, tree.All (Conforms bodies discriminator t) ∧
        v.Alike (tree.toJson discriminator) := by
  have hencodes := Json.encodesList_encodeList nil cons
  constructor
  · intro h
    induction v using Json.isPart_wellFounded.transGen.induction with
    | _ v ih =>
    obtain ⟨label, children, items, hv, hitems, hlabel, heach⟩ :=
      (conforms_roseOf_cases expands expands_list nil cons).mp h
    -- each child is a tree, since it lies inside the value, behind the cells of the list
    have htrees : ∀ x ∈ items, ∃ tree : RoseTree Json,
        tree.All (Conforms bodies discriminator t) ∧ x.Alike (tree.toJson discriminator) :=
      fun x hx => ih x ((hitems.inside hx).tail hv.isPart_second) (heach x hx)
    have : Nonempty (RoseTree Json) := ⟨.node .null []⟩
    choose! tree htree using htrees
    have heachAlike : List.Forall₂ Json.Alike items
        ((items.map tree).map (RoseTree.toJson discriminator)) := by
      rw [List.map_map, List.forall₂_map_right_iff, List.forall₂_same]
      exact fun x hx => (htree x hx).2
    refine ⟨.node label (items.map tree), .node hlabel ?_, ?_⟩
    · exact List.forall_mem_map.mpr fun x hx => (htree x hx).1
    · rw [RoseTree.toJson_node]
      exact hv.alike_pair (.ofMembers (by simp)) (.refl _) (hitems.alike (hencodes _) heachAlike)
  · rintro ⟨tree, hlabels, halike⟩
    refine Conforms.reordered ?_ halike.symm
    clear halike
    induction tree using RoseTree.ind with
    | node label children ih =>
    cases hlabels with
    | node hlabel hbelow =>
        rw [RoseTree.toJson_node]
        refine (conforms_roseOf_cases expands expands_list nil cons).mpr
          ⟨_, _, _, .ofMembers (by simp), hencodes _, hlabel, ?_⟩
        exact List.forall_mem_map.mpr fun child hchild => ih child hchild (hbelow child hchild)

end Rose

/-! ### The main statement -/

/-- **Trees are accepted if what they hold is.** Wherever the ready-made definitions
expand as they are written, and unless the discriminator is named as a variant, exactly the values
of finite binary trees are accepted, up to the order of members, whose leaves are accepted and not
null; and exactly the values of finite rose trees whose labels are accepted, null labels included
where the type of labels accepts null. -/
theorem check_trees (bodies : Family) (prelude : bodies.HasPrelude) (config : Config) (t : Ty) :
    (config.discriminator ≠ "Leaf" → config.discriminator ≠ "Branch" → ∀ v,
      (check bodies config (binTreeOf t) v).result = .ok v ↔
        ∃ tree : LeafTree Json,
          tree.All (fun x => x ≠ .null ∧ (check bodies config t x).result = .ok x) ∧
          v.Alike (tree.toJson config.discriminator)) ∧
    (config.discriminator ≠ "Nil" → config.discriminator ≠ "Cons" → ∀ v,
      (check bodies config (roseOf t) v).result = .ok v ↔
        ∃ tree : RoseTree Json, tree.All (fun x => (check bodies config t x).result = .ok x) ∧
          v.Alike (tree.toJson config.discriminator)) := by
  simp only [check_self_iff]
  constructor
  · intro leaf branch v
    exact conforms_binTreeOf_iff (prelude.expands_binTree t) leaf branch
  · intro nil cons v
    exact conforms_roseOf_iff (prelude.expands_rose t) (prelude.expands_list (roseOf t)) nil cons

/-- Trees of optional numbers. A node without a label is accepted, and the members of its object
stand in any order; a leaf without a number is refused where it is. -/
theorem check_trees_optional :
    let w := Workspace.start .standard true
    let leaf : Json → Json := fun x => .ofMembers [("constr", .string "Leaf"), ("Leaf", x)]
    let fork := Json.ofMembers [("constr", .string "Branch"),
      ("Branch", .ofMembers [("leftBranch", leaf (.number (.integer 1))),
        ("rightBranch", leaf (.number (.integer 2)))])]
    let bud := Json.ofMembers [("label", .number (.integer 3)),
      ("children", Json.encodeList "constr" [])]
    let bush := Json.ofMembers [("children", Json.encodeList "constr" [bud]), ("label", .null)]
    (check w.family .standard (binTreeOf (.optional .number)) fork).result = .ok fork ∧
      (check w.family .standard (roseOf (.optional .number)) bush).result = .ok bush ∧
      (check w.family .standard (binTreeOf (.optional .number)) (leaf .null)).result =
        .error (.validation ⟨[], .undefinedNull (some "Leaf")⟩) := by
  intro w leaf fork bud bush
  have harises : w.Arises := .start .standard true
  obtain ⟨hbinary, hrose⟩ :=
    check_trees w.family harises.hasPrelude .standard (.optional .number)
  refine ⟨?_, ?_, rfl⟩
  · refine (hbinary (by decide) (by decide) fork).mpr
      ⟨.branch (.leaf (.number (.integer 1))) (.leaf (.number (.integer 2))), ?_, .refl _⟩
    exact ⟨⟨nofun, rfl⟩, ⟨nofun, rfl⟩⟩
  · refine (hrose (by decide) (by decide) bush).mpr
      ⟨.node .null [.node (.number (.integer 3)) []], ?_, ?_⟩
    · have hbud : (RoseTree.node (Json.number (.integer 3)) []).All
          (fun x => (check w.family .standard (.optional .number) x).result = .ok x) :=
        .node rfl (by simp)
      exact .node rfl (by simpa using hbud)
    · have hbush : bush.HasMembers
          [("label", .null), ("children", Json.encodeList "constr" [bud])] :=
        (Json.HasMembers.ofMembers (by simp)).perm (.swap ..)
      exact hbush.alike_pair (.ofMembers (by simp)) (.refl _) (.refl _)

end JsonTypes
