/-
The values of the ready-made schema of lists.

A value of the type `List(t)` is spelled out cell by cell: the discriminator of every object of
the spine names `Nil` or `Cons`, and the payload of `Cons` holds an item and the rest. The body
of `List` refers to itself and is expanded again at every cell, so that both directions of the
main statement are inductions: one over the cells, one over the value, whatever it is.

* `Json.HasMembers.check_schema`: the check of an object of a tag and a payload.
* `Family.HasPrelude.expands_list`: what the definition of lists expands to.
* `Json.EncodesList`: lists of values, cell by cell; `Json.encodeList` the one whose members
  stand in the order of their declaration.
* `conforms_listOf_iff`: the values of `List(t)`.
* `Json.EncodesList.check_fails`: a list fails as its first failing item does, as many cells
  further in.
* `check_list`: both for checks as a whole.
-/
import JsonTypes.Proofs.MemberOrder
import JsonTypes.Proofs.Strictness
import JsonTypes.Proofs.Workspaces

namespace JsonTypes

open Relation

variable {bodies : Family} {discriminator : String}

/-! ### Objects of a tag and a payload -/

namespace Json.HasMembers

variable {v payload : Json} {constr : String}

/-- An object of a tag and a payload is checked by its payload. -/
lemma check_schema {i : Instance} {variants : Table Ty} {shape : Ty}
    (h : v.HasMembers [(discriminator, .string constr), (constr, payload)])
    (kind : i.factory.kind = .schema) (expands : bodies i = .ok variants)
    (variant : (constr, shape) ∈ variants.toList) (present : payload ≠ .null) :
    (v.check bodies discriminator (.inst i)).result =
      ((payload.check bodies discriminator shape).within (.variant constr)).result := by
  obtain ⟨members, rfl, -⟩ := id h
  have htag : members.find? discriminator = some (.string constr) := h.find? (by simp)
  have hheld : members.find? constr = some payload := h.find? (by simp)
  have htwo : members.size = 2 := h.size_eq
  rw [check_object_of_schema expands kind,
    Table.checkVariant_held htag (Table.mem_toList.mp variant) hheld, if_neg (not_not.mpr htwo),
    if_neg (mt isNull_iff.mp present)]

/-- An object with the declared keys fails as its first failing field does. -/
lemma check_fields_fails {entries : List (String × Json)} {declared : Table Ty}
    {before after : List (String × Ty)} {name : String} {t : Ty} {x : Json} {e : CheckError}
    (h : v.HasMembers entries) (keys : entries.map Prod.fst = declared.names.toList)
    (list : declared.toList = before ++ (name, t) :: after) (held : (name, x) ∈ entries)
    (fails : ((x.part bodies discriminator).checkField name t).result = .error e)
    (earlier : ∀ f ∈ before, ∀ w, (f.1, w) ∈ entries →
      (w = .null → f.2.isOptional = true) ∧ (w.check bodies discriminator f.2).result = .ok ()) :
    (v.check bodies discriminator (.fields declared)).result = .error e := by
  obtain ⟨members, rfl, -⟩ := id h
  obtain ⟨k, rfl, rfl, hbefore⟩ := Table.exists_index list
  have hkeys : ∀ name, name ∈ members.names.toList ↔ name ∈ declared.names.toList := by
    intro name
    rw [h.names_iff, keys]
  rw [check_fields, checkMembers_object]
  exact Table.checkFields_fails hkeys (h.find? held) fails fun i hi w hw =>
    earlier _ (hbefore i hi) w (h.mem_of_find? hw)

end Json.HasMembers

/-! ### Lists -/

/-- The type of the lists of a type. -/
def Prelude.listOf (t : Ty) : Ty := .inst ⟨list.factory, fun _ => t⟩

/-- The fields of a cell of a list. -/
def Prelude.cellOf (t : Ty) : Table Ty := .ofList [("head", t), ("tail", listOf t)]

/-- The variants of the lists of a type. -/
def Prelude.listVariants (t : Ty) : Table Ty :=
  .ofList [("Nil", .unit), ("Cons", .fields (cellOf t))]

open Prelude

lemma Family.HasPrelude.expands_list (h : bodies.HasPrelude) (t : Ty) :
    bodies ⟨list.factory, fun _ => t⟩ = .ok (listVariants t) := by
  obtain ⟨⟨_, _, _, _⟩, rfl, hbody⟩ := h list (by simp [definitions]) fun _ => t
  have hself : (⟨list.factory, fun i => #[t][i]⟩ : Instance) = ⟨list.factory, fun _ => t⟩ :=
    Application.ext_unary rfl rfl
  rw [hbody, listVariants, cellOf, listOf, ← hself]
  rfl

namespace Json

/-- The value lists these items, cell by cell. In every object of the spine, the members stand
in any order. -/
inductive EncodesList (discriminator : String) : Json → List Json → Prop where
  | nil {v empty : Json} (tagged : v.HasMembers [(discriminator, .string "Nil"), ("Nil", empty)])
      (bare : empty.HasMembers []) : EncodesList discriminator v []
  | cons {v cell head tail : Json} {items : List Json}
      (tagged : v.HasMembers [(discriminator, .string "Cons"), ("Cons", cell)])
      (pair : cell.HasMembers [("head", head), ("tail", tail)])
      (rest : EncodesList discriminator tail items) : EncodesList discriminator v (head :: items)

/-- The list of these items whose members stand in the order of their declaration. -/
def encodeList (discriminator : String) : List Json → Json
  | [] => .ofMembers [(discriminator, .string "Nil"), ("Nil", .ofMembers [])]
  | head :: items =>
    .ofMembers [(discriminator, .string "Cons"),
      ("Cons", .ofMembers [("head", head), ("tail", encodeList discriminator items)])]

lemma encodesList_encodeList (nil : discriminator ≠ "Nil") (cons : discriminator ≠ "Cons")
    (items : List Json) : (encodeList discriminator items).EncodesList discriminator items := by
  induction items with
  | nil => exact .nil (.ofMembers (by simpa using nil)) (.ofMembers (by simp))
  | cons head items ih => exact .cons (.ofMembers (by simpa using cons)) (.ofMembers (by simp)) ih

namespace EncodesList

variable {v w x : Json} {items items' : List Json}

lemma ne_null (h : v.EncodesList discriminator items) : v ≠ .null := by
  cases h with
  | nil tagged | cons tagged => exact tagged.ne_null

/-- The items of a list are inside it. -/
lemma inside (h : v.EncodesList discriminator items) (hx : x ∈ items) :
    TransGen IsPart x v := by
  induction h with
  | nil => cases hx
  | cons tagged pair _ ih =>
      rcases List.mem_cons.mp hx with rfl | hx
      · exact .tail (.single pair.isPart_first) tagged.isPart_second
      · exact ((ih hx).tail pair.isPart_second).tail tagged.isPart_second

/-- Lists of alike items are alike. -/
lemma alike (hv : v.EncodesList discriminator items) (hw : w.EncodesList discriminator items')
    (each : List.Forall₂ Alike items items') : v.Alike w := by
  induction hv generalizing w items' with
  | nil tagged bare =>
      cases each
      cases hw with
      | nil tagged' bare' =>
          exact tagged.alike_pair tagged' (.refl _) (bare.alike bare' .nil)
  | cons tagged pair _ ih =>
      cases each with
      | cons hhead htail =>
          cases hw with
          | cons tagged' pair' rest' =>
              have hcells := pair.alike_pair pair' hhead (ih rest' htail)
              exact tagged.alike_pair tagged' (.refl _) hcells

end EncodesList

end Json

/-! ### The values of the type of lists -/

section Values

variable {t : Ty} (expands : bodies ⟨list.factory, fun _ => t⟩ = .ok (listVariants t))
  (nil : discriminator ≠ "Nil") (cons : discriminator ≠ "Cons")

include expands nil cons

/-- A list is empty, or it is a cell of an item and a list. -/
lemma conforms_listOf_cases {v : Json} :
    Conforms bodies discriminator (listOf t) v ↔
      (∃ empty, v.HasMembers [(discriminator, .string "Nil"), ("Nil", empty)] ∧
        empty.HasMembers []) ∨
      ∃ cell head tail, v.HasMembers [(discriminator, .string "Cons"), ("Cons", cell)] ∧
        cell.HasMembers [("head", head), ("tail", tail)] ∧
        Conforms bodies discriminator t head ∧ Conforms bodies discriminator (listOf t) tail := by
  have hcell : ∀ cell, Conforms bodies discriminator (.fields (cellOf t)) cell ↔
      ∃ head tail, cell.HasMembers [("head", head), ("tail", tail)] ∧
        Conforms bodies discriminator t head ∧
        Conforms bodies discriminator (listOf t) tail := fun cell => conforms_pair_iff (by decide)
  rw [listOf, conforms_alternative_iff (by decide) rfl expands nil cons]
  simp only [conforms_unit_iff, hcell]
  constructor
  · rintro (⟨empty, hv, -, hempty⟩ | ⟨cell, hv, -, head, tail, hpair, hhead, htail⟩)
    · exact .inl ⟨empty, hv, hempty⟩
    · exact .inr ⟨cell, head, tail, hv, hpair, hhead, htail⟩
  · rintro (⟨empty, hv, hempty⟩ | ⟨cell, head, tail, hv, hpair, hhead, htail⟩)
    · exact .inl ⟨empty, hv, hempty.ne_null, hempty⟩
    · exact .inr ⟨cell, hv, hpair.ne_null, head, tail, hpair, hhead, htail⟩

/-- **The values of the type of lists are the lists of values**, in any order of members. -/
lemma conforms_listOf_iff {v : Json} :
    Conforms bodies discriminator (listOf t) v ↔
      ∃ items, v.EncodesList discriminator items ∧
        ∀ x ∈ items, Conforms bodies discriminator t x := by
  constructor
  · intro h
    induction v using Json.isPart_wellFounded.transGen.induction with
    | _ v ih =>
    rcases (conforms_listOf_cases expands nil cons).mp h with
      ⟨empty, hv, hempty⟩ | ⟨cell, head, tail, hv, hcell, hhead, htail⟩
    · exact ⟨[], .nil hv hempty, by simp⟩
    · have hpart : TransGen Json.IsPart tail v :=
        .tail (.single hcell.isPart_second) hv.isPart_second
      obtain ⟨items, hitems, heach⟩ := ih tail hpart htail
      exact ⟨head :: items, .cons hv hcell hitems, List.forall_mem_cons.mpr ⟨hhead, heach⟩⟩
  · rintro ⟨items, hv, heach⟩
    induction hv with
    | nil tagged bare =>
        exact (conforms_listOf_cases expands nil cons).mpr (.inl ⟨_, tagged, bare⟩)
    | cons tagged pair _ ih =>
        obtain ⟨hhead, htail⟩ := List.forall_mem_cons.mp heach
        exact (conforms_listOf_cases expands nil cons).mpr
          (.inr ⟨_, _, _, tagged, pair, hhead, ih htail⟩)

end Values

/-! ### Where lists fail -/

/-- A field that is null without being optional fails where the object is. -/
lemma Part.checkField_of_null {name : String} {t : Ty} (required : t.isOptional = false) :
    ((Json.null.part bodies discriminator).checkField name t).result =
      .error (.here (.undefinedNull (some name))) := by
  rw [checkField, if_pos (by simp [required, Json.isNull])]
  rfl

/-- The steps to what is left of a list behind its first items. -/
def tailPath : ℕ → List Segment
  | 0 => []
  | n + 1 => .variant "Cons" :: .field "tail" :: tailPath n

/-- **A list fails as its first failing item does**, so many cells further in as there are items
before. -/
lemma Json.EncodesList.check_fails {t : Ty}
    (expands : bodies ⟨list.factory, fun _ => t⟩ = .ok (listVariants t)) {v x : Json}
    {before after : List Json} {e : CheckError}
    (h : v.EncodesList discriminator (before ++ x :: after))
    (accepted : ∀ y ∈ before, (y.check bodies discriminator t).result = .ok ())
    (fails : ((x.part bodies discriminator).checkField "head" t).result = .error e) :
    (v.check bodies discriminator (listOf t)).result =
      .error ((e.within (.variant "Cons")).under (tailPath before.length)) := by
  have hvariant : ("Cons", .fields (cellOf t)) ∈ (listVariants t).toList :=
    List.mem_cons_of_mem _ List.mem_cons_self
  have hfirst : (cellOf t).toList = [] ++ ("head", t) :: [("tail", listOf t)] := rfl
  have hsecond : (cellOf t).toList = [("head", t)] ++ ("tail", listOf t) :: [] := rfl
  induction before generalizing v with
  | nil =>
      cases h with
      | cons tagged pair rest =>
          have hcell := pair.check_fields_fails rfl hfirst List.mem_cons_self fails (by simp)
          rw [listOf, tagged.check_schema rfl expands hvariant pair.ne_null, List.length_nil,
            tailPath, CheckError.under_nil]
          exact Verdict.within_fails hcell
  | cons y before ih =>
      obtain ⟨hy, hbefore⟩ := List.forall_mem_cons.mp accepted
      cases h with
      | @cons _ cell _ tail _ tagged pair rest =>
          have htail : ((tail.part bodies discriminator).checkField "tail" (listOf t)).result =
              .error _ :=
            Part.checkField_fails (fun hnull => absurd hnull rest.ne_null) (ih rest hbefore)
          have hhead : y = .null → t.isOptional = true := by
            rintro rfl
            exact ((check_ok_iff _ t).mp hy).isOptional_of_null
          have hcell := pair.check_fields_fails rfl hsecond
            (List.mem_cons_of_mem _ List.mem_cons_self) htail ?_
          · rw [listOf, tagged.check_schema rfl expands hvariant pair.ne_null, List.length_cons,
              tailPath, CheckError.under_cons, CheckError.under_cons]
            exact Verdict.within_fails hcell
          · -- the item in front passes
            intro f hf w hw
            obtain rfl := List.mem_singleton.mp hf
            obtain rfl : w = y := by simpa using hw
            exact ⟨hhead, hy⟩

/-! ### The main statement -/

/-- **Lists are accepted if their items are, and fail as the first item does that is not.** Wherever
the ready-made definitions expand as they are written, and unless the discriminator is named as
a variant of lists, exactly the lists of accepted values are accepted, cell by cell and in any
order of the members of the spine. If an item of a list is not accepted, and those before it
are, the list fails. If the item is null, while only values that are not null are wanted, the
failure is about the field `head` of its cell. Otherwise it is the failure of the item, and if
it is not about a definition, its path leads to the item first: through a variant and a field
for each cell. -/
theorem check_list (bodies : Family) (prelude : bodies.HasPrelude) (config : Config)
    (nil : config.discriminator ≠ "Nil") (cons : config.discriminator ≠ "Cons") (t : Ty) :
    (∀ v, (check bodies config (listOf t) v).result = .ok v ↔
      ∃ items, v.EncodesList config.discriminator items ∧
        ∀ x ∈ items, (check bodies config t x).result = .ok x) ∧
    ∀ v before x after e, v.EncodesList config.discriminator (before ++ x :: after) →
      (∀ y ∈ before, (check bodies config t y).result = .ok y) →
      (check bodies config t x).result = .error e →
        (x = .null ∧ t.isOptional = false → (check bodies config (listOf t) v).result =
          .error (.validation ⟨tailPath before.length ++ [.variant "Cons"],
            .undefinedNull (some "head")⟩)) ∧
        (¬ (x = .null ∧ t.isOptional = false) → (check bodies config (listOf t) v).result =
          .error (e.under (tailPath before.length ++ [.variant "Cons", .field "head"]))) := by
  have hexpands := prelude.expands_list t
  constructor
  · intro v
    simp only [check_self_iff]
    exact conforms_listOf_iff hexpands nil cons
  · intro v before x after e hv hbefore hx
    have haccepted : ∀ y ∈ before, (y.check bodies config.discriminator t).result = .ok () :=
      fun y hy => (Json.check_ok_iff y t).mpr (check_self_iff.mp (hbefore y hy))
    constructor
    · rintro ⟨rfl, ht⟩
      have hhead : ((Json.null.part bodies config.discriminator).checkField "head" t).result =
          .error (.here (.undefinedNull (some "head"))) := Part.checkField_of_null ht
      rw [check_error, hv.check_fails hexpands haccepted hhead]
      rfl
    · intro hpresent
      have hhead : ((x.part bodies config.discriminator).checkField "head" t).result =
          .error (e.within (.field "head")) :=
        Part.checkField_fails (fun hnull => by simpa [hnull] using hpresent) (check_error.mp hx)
      rw [check_error, hv.check_fails hexpands haccepted hhead]
      cases e with
      | definition e => rfl
      | validation e => simp [CheckError.within, CheckError.under]

/-- A row of two numbers is a list of numbers. If the second one is null, the list fails at its
second cell, and if it is a text, at the head of this cell. -/
theorem check_list_numbers :
    let w := (Workspace.start .standard true).bind "numbers" (listOf .number)
    let one := Json.number (.integer 1)
    let numbers := Json.encodeList "constr" [one, .number (.integer 2)]
    let gap := Json.encodeList "constr" [one, .null]
    let text := Json.encodeList "constr" [one, .string "two"]
    (check w.family .standard (listOf .number) numbers).result = .ok numbers ∧
      (check w.family .standard (listOf .number) gap).result =
        .error (.validation ⟨[.variant "Cons", .field "tail", .variant "Cons"],
          .undefinedNull (some "head")⟩) ∧
      (check w.family .standard (listOf .number) text).result =
        .error (.validation ⟨[.variant "Cons", .field "tail", .variant "Cons", .field "head"],
          .typeMismatch "number" "string"⟩) := by
  intro w one numbers gap text
  have harises : w.Arises := .bind (.start .standard true) "numbers" _
  obtain ⟨haccepts, hfails⟩ :=
    check_list w.family harises.hasPrelude .standard (by decide) (by decide) .number
  have hencodes : ∀ items, (Json.encodeList "constr" items).EncodesList "constr" items :=
    Json.encodesList_encodeList (by decide) (by decide)
  have hone : ∀ y ∈ [one], (check w.family .standard .number y).result = .ok y := by
    intro y hy
    obtain rfl := List.mem_singleton.mp hy
    rfl
  refine ⟨(haccepts numbers).mpr ⟨_, hencodes _, ?_⟩, ?_, ?_⟩
  · intro x hx
    rcases List.mem_pair.mp hx with rfl | rfl
    · rfl
    · rfl
  · exact (hfails gap [one] .null [] _ (hencodes _) hone rfl).1 ⟨rfl, rfl⟩
  · exact (hfails text [one] (.string "two") [] _ (hencodes _) hone rfl).2 (by simp)

end JsonTypes
