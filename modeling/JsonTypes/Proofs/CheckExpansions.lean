/-
A check ends, and it expands no more instances than its value has parts.

Types may expand without end, so the type alone bounds nothing. But between two expansions
there is a step into the value, and no part of a value is checked twice.

* `Subcheck`: the checks that a check calls for directly. `subcheck_wellFounded`: there is no
  endless chain of calls, whatever the instances expand to.
* `Json.layerWith`, `Json.check_of_subchecks`: a check consists of the checks that it calls
  for, whatever other checks may come to.
* `Verdict.expansions`: the instances that a check expands.
* `Table.sum_fields`: every member of an object is checked for one declared name only.
* `Json.PartsWithin`: the induction hypothesis, for objects with fields and with variants.
* `Json.length_expansions_le`: at most one expansion for every node of the value.
* `check_ends`: all of this.
-/
import JsonTypes.Proofs.Conformance
import JsonTypes.Proofs.Templates
import Mathlib.Algebra.Order.BigOperators.Group.List
import Mathlib.Algebra.Order.Ring.Nat
import Mathlib.Logic.Relation

namespace JsonTypes

open Relation

/-! ### Calls -/

/-- The check of a value against a type calls for the check of another value against
another type. A record calls for the check against its fields, since it is expanded. -/
inductive Subcheck (bodies : Family) (discriminator : String) : Ty × Json → Ty × Json → Prop where
  | optional {t : Ty} {v : Json} (present : v ≠ .null) :
      Subcheck bodies discriminator (t, v) (.container .optional t, v)
  | item {t : Ty} {items : Row Json} (k : Fin items.length) :
      Subcheck bodies discriminator (t, items.item k) (.container .repeated t, .array items)
  | entry {t : Ty} {members : Table Json} (k : members.names.Index) :
      Subcheck bodies discriminator (t, members.entry k) (.container .map t, .object members)
  | field {declared : Table Ty} {members : Table Json} {name : String} {t : Ty} {w : Json}
      (declares : declared.find? name = some t) (held : members.find? name = some w) :
      Subcheck bodies discriminator (t, w) (.fields declared, .object members)
  | record {i : Instance} {entries : Table Ty} {v : Json} (kind : i.factory.kind = .record)
      (expands : bodies i = .ok entries) :
      Subcheck bodies discriminator (.fields entries, v) (.inst i, v)
  | payload {i : Instance} {entries : Table Ty} {members : Table Json} {constr : String}
      {shape : Ty} {w : Json} (kind : i.factory.kind = .schema)
      (expands : bodies i = .ok entries) (tag : members.find? discriminator = some (.string constr))
      (variant : entries.find? constr = some shape) (held : members.find? constr = some w) :
      Subcheck bodies discriminator (shape, w) (.inst i, .object members)

variable {bodies : Family} {discriminator : String}

/-- **There is no endless chain of calls.** Every call goes to a part of the value, to the
type inside an optional one, or to the fields of a record, which only call for checks of
parts. So the induction is on the value, and at one value on the type. -/
lemma subcheck_wellFounded : WellFounded (Subcheck bodies discriminator) := by
  refine ⟨fun ⟨t, v⟩ => ?_⟩
  induction v using Json.part_induction generalizing t with
  | _ v ihv =>
  have hfields (declared : Table Ty) :
      Acc (Subcheck bodies discriminator) (.fields declared, v) := by
    refine .intro _ fun c hc => ?_
    cases hc with
    | field _ hheld => exact ihv _ (Json.isPart_of_find? hheld) _
  induction t with
  | primitive p => exact .intro _ fun c hc => nomatch hc
  | container k t iht =>
      refine .intro _ fun c hc => ?_
      cases hc with
      | optional => exact iht
      | item k => exact ihv _ (.item _ k) _
      | entry k => exact ihv _ (.member _ k) _
  | fields declared => exact hfields declared
  | inst i =>
      refine .intro _ fun c hc => ?_
      cases hc with
      | record => exact hfields _
      | payload _ _ _ _ hheld => exact ihv _ (Json.isPart_of_find? hheld) _
  | param index => exact .intro _ fun c hc => nomatch hc

/-! ### Nothing but the calls -/

/-- The outermost layer of a value, its parts with any checks. -/
def Json.layerWith (other : Json → Ty → Verdict) : Json → Layer
  | .array items => .items (items.map fun w => ⟨w, other w⟩)
  | .object members => .members (members.map fun w => ⟨w, other w⟩)
  | _ => .scalar

section Calls

variable {other : Json → Ty → Verdict} {members : Table Json}

lemma Table.checkFields_congr {declared : Table Ty}
    (agree : ∀ name t w, declared.find? name = some t → members.find? name = some w →
      other w t = w.check bodies discriminator t) :
    (members.map fun w => ⟨w, other w⟩).checkFields declared =
      (members.map (Json.part bodies discriminator)).checkFields declared := by
  have hkeys : (members.map fun w => (⟨w, other w⟩ : Part)).sameKeys declared =
      (members.map (Json.part bodies discriminator)).sameKeys declared := rfl
  rw [checkFields, checkFields, hkeys]
  refine if_congr Iff.rfl (congrArg (Traced.forEach · _) (funext fun i => ?_)) rfl
  rw [find?_map, find?_map]
  cases hheld : members.find? (declared.name i) with
  | none => rfl
  | some w =>
      simp only [Option.map_some, Part.checkField, Json.part]
      rw [agree _ _ w (declared.find?_name i) hheld]

lemma Table.checkVariant_congr {variants : Table Ty}
    (agree : ∀ constr t w, members.find? discriminator = some (.string constr) →
      variants.find? constr = some t → members.find? constr = some w →
      other w t = w.check bodies discriminator t) :
    (members.map fun w => ⟨w, other w⟩).checkVariant discriminator variants =
      (members.map (Json.part bodies discriminator)).checkVariant discriminator variants := by
  have hsize : (members.map fun w => (⟨w, other w⟩ : Part)).size =
      (members.map (Json.part bodies discriminator)).size := rfl
  have hnames : (members.map fun w => (⟨w, other w⟩ : Part)).names =
      (members.map (Json.part bodies discriminator)).names := rfl
  simp only [checkVariant, find?_map, Option.map_map, hsize, hnames]
  cases htag : members.find? discriminator with
  | none => rfl
  | some tag =>
      cases tag with
      | string constr =>
          simp only [Option.map_some, Function.comp_apply, Json.part_value]
          cases hshape : variants.find? constr with
          | none => rfl
          | some shape =>
              cases hheld : members.find? constr with
              | none => rfl
              | some w =>
                  simp only [Option.map_some, Json.part]
                  rw [agree constr shape w htag hshape hheld]
      | null | boolean | number | array | object => rfl

/-- **A check consists of its calls.** Put any other checks in the place of the checks of
the parts of a value. If they come to the same for every check that is called for, then so
does the check of the value. -/
lemma Json.check_of_subchecks {t : Ty} {v : Json}
    (agree : ∀ t' w, TransGen (Subcheck bodies discriminator) (t', w) (t, v) →
      other w t' = w.check bodies discriminator t') :
    t.checkLayer bodies discriminator v (v.layerWith other) = v.check bodies discriminator t := by
  rw [check_eq]
  induction t with
  | primitive p => rfl
  | container k t ih =>
      cases k with
      | optional =>
          simp only [Ty.checkLayer]
          split_ifs with hnull
          · rfl
          · exact ih fun t' w h => agree t' w (h.tail (.optional (mt isNull_iff.mpr hnull)))
      | repeated =>
          cases v with
          | array items =>
              refine congrArg (Traced.forEach · _) (funext fun k => ?_)
              exact congrArg (Verdict.within _) (agree _ _ (.single (.item k)))
          | null | boolean | number | string | object => rfl
      | map =>
          cases v with
          | object members =>
              refine congrArg (Traced.forEach · _) (funext fun k => ?_)
              exact congrArg (Verdict.within _) (agree _ _ (.single (.entry k)))
          | null | boolean | number | string | array => rfl
  | fields declared =>
      cases v with
      | object members =>
          exact Table.checkFields_congr fun name t w ht hw => agree _ _ (.single (.field ht hw))
      | null | boolean | number | string | array => rfl
  | inst i =>
      simp only [Ty.checkLayer, Family.describe]
      refine congrArg (Traced.report _ >>= ·) (funext fun _ => ?_)
      cases hi : bodies i with
      | error e => rfl
      | ok entries =>
          cases v with
          | object members =>
              simp only [map_ok_eq, mapError_ok_eq, Traced.of_ok_bind]
              cases hkind : i.factory.kind with
              | record =>
                  refine Table.checkFields_congr fun name t w ht hw => agree t w ?_
                  exact (TransGen.single (.field ht hw)).tail (.record hkind hi)
              | schema =>
                  refine Table.checkVariant_congr fun constr t w htag ht hw => agree t w ?_
                  exact .single (.payload hkind hi htag ht hw)
          | null | boolean | number | string | array => rfl
  | param index => rfl

end Calls

/-! ### Expansions -/

/-- The instance that a check expands, by one of its reports. -/
def Event.expanded? : Event → Option Instance
  | .expandingForCheck i => some i
  | _ => none

/-- The instances that a check expands, in order. -/
def Verdict.expansions (verdict : Verdict) : List Instance :=
  verdict.events.filterMap Event.expanded?

namespace Verdict

/-- A run over a list expands no more than its items in sum. It ends at the first failure. -/
lemma length_expansions_forEach_le {ι : Type} (run : ι → Verdict) (list : List ι) :
    (expansions (Traced.forEach run list)).length ≤
      (list.map fun k => (run k).expansions.length).sum := by
  induction list with
  | nil => exact Nat.le_refl 0
  | cons k rest ih =>
      rw [Traced.forEach, Traced.bind, List.map_cons, List.sum_cons]
      cases (run k).result with
      | error e => exact Nat.le_add_right ..
      | ok a =>
          simp only [expansions, List.filterMap_append, List.length_append]
          exact Nat.add_le_add_left ih _

end Verdict

/-! ### The budget of a value -/

namespace Table

variable {α β : Type}

/-- **Every member is looked up once.** The costs of the members under the declared names
add up to those of all members, if the declared names are the names of the members. -/
lemma sum_fields {members : Table α} {declared : Table β} (cost : α → ℕ)
    (keys : ∀ name, name ∈ members.names.toList ↔ name ∈ declared.names.toList) :
    (declared.indices.map fun i => ((members.find? (declared.name i)).map cost).getD 0).sum =
      (members.indices.map fun i => cost (members.entry i)).sum := by
  have hperm := (List.perm_ext_iff_of_nodup members.names.nodup declared.names.nodup).mpr keys
  let held (name : String) : ℕ := ((members.find? name).map cost).getD 0
  calc (declared.indices.map fun i => held (declared.name i)).sum
      = (declared.names.toList.map held).sum := by rw [map_name]
    _ = (members.names.toList.map held).sum := ((hperm.map held).sum_eq).symm
    _ = (members.indices.map fun i => held (members.name i)).sum := by rw [map_name]
    _ = (members.indices.map fun i => cost (members.entry i)).sum := by
        simp only [held, find?_name, Option.map_some, Option.getD_some]

end Table

namespace Json

lemma nodes_array (items : Row Json) :
    (array items).nodes = ((List.finRange _).map fun i => (items.item i).nodes).sum + 1 := by
  rw [← List.ofFn_eq_map]
  rfl

lemma nodes_object (members : Table Json) :
    (object members).nodes = (members.indices.map fun i => (members.entry i).nodes).sum + 1 := by
  rw [Table.indices, ← List.ofFn_eq_map]
  rfl

lemma nodes_pos (v : Json) : 0 < v.nodes := by
  cases v <;> exact Nat.succ_pos _

lemma nodes_lt_of_find? {members : Table Json} {name : String} {w : Json}
    (h : members.find? name = some w) : w.nodes < (object members).nodes := by
  obtain ⟨i, -, rfl⟩ := Table.find?_eq_some.mp h
  rw [nodes_object]
  exact Nat.lt_succ_of_le (List.le_sum_of_mem (List.mem_map_of_mem (List.mem_finRange i)))

/-- The parts of a value are checked at no more cost than they have nodes. -/
def PartsWithin (bodies : Family) (discriminator : String) (v : Json) : Prop :=
  ∀ w : Json, w.IsPart v → ∀ t : Ty,
    (w.check bodies discriminator t).expansions.length ≤ w.nodes

end Json

lemma Part.length_expansions_checkField_le (name : String) (t : Ty) (v : Json) :
    ((v.part bodies discriminator).checkField name t).expansions.length ≤
      (v.check bodies discriminator t).expansions.length := by
  rw [Part.checkField]
  split_ifs with h
  · exact Nat.zero_le _
  · exact Nat.le_refl _

/-- An object is expanded into fields at no cost of its own. -/
lemma Table.length_expansions_checkFields_lt {members : Table Json} {declared : Table Ty}
    (ih : (Json.object members).PartsWithin bodies discriminator) :
    (Verdict.expansions
        ((members.map (Json.part bodies discriminator)).checkFields declared)).length <
      (Json.object members).nodes := by
  rw [Table.checkFields]
  split_ifs with hkeys
  · rw [Table.sameKeys_iff] at hkeys
    rw [Json.nodes_object, Nat.lt_succ_iff]
    refine (Verdict.length_expansions_forEach_le ..).trans ?_
    -- the run is over the declared names, and the nodes are counted over the members
    rw [← Table.sum_fields Json.nodes hkeys]
    refine List.sum_le_sum fun i _ => ?_
    rw [Table.find?_map]
    cases hheld : members.find? (declared.name i) with
    | none => exact Nat.le_refl 0
    | some w =>
        have hw := ih w (Json.isPart_of_find? hheld) (declared.entry i)
        exact (Part.length_expansions_checkField_le ..).trans hw
  · exact Json.nodes_pos _

/-- Nor into variants: at most the payload is checked. -/
lemma Table.length_expansions_checkVariant_lt {members : Table Json} {variants : Table Ty}
    (ih : (Json.object members).PartsWithin bodies discriminator) :
    (Verdict.expansions ((members.map (Json.part bodies discriminator)).checkVariant
        discriminator variants)).length < (Json.object members).nodes := by
  have hpos := (Json.object members).nodes_pos
  rw [Table.checkVariant, find?_map, Option.map_map]
  cases htag : members.find? discriminator with
  | none => exact hpos
  | some tag =>
      cases tag with
      | string constr =>
          simp only [Option.map_some, Function.comp_apply, Json.part_value, find?_map]
          cases hshape : variants.find? constr with
          | none => exact hpos
          | some shape =>
              cases hheld : members.find? constr with
              | none => exact hpos
              | some w =>
                  have hpayload := ih w (Json.isPart_of_find? hheld) shape
                  simp only [Option.map_some]
                  split_ifs
                  · exact hpos
                  · exact hpos
                  · exact Nat.lt_of_le_of_lt hpayload (Json.nodes_lt_of_find? hheld)
      | null | boolean | number | array | object => exact hpos

/-- An expansion costs one, which the fields or variants leave over. -/
lemma Verdict.length_expansions_describe_le {i : Instance} {n : ℕ}
    {next : Description → Verdict}
    (ih : ∀ d, bodies.describe i = .ok d → (next d).expansions.length < n) (pos : 0 < n) :
    (expansions (Traced.report (.expandingForCheck i) >>= fun _ =>
      Traced.of ((bodies.describe i).mapError .definition) >>= next)).length ≤ n := by
  cases hd : bodies.describe i with
  | error e => exact pos
  | ok d => exact ih d hd

namespace Json

variable {v : Json}

/-- A check against fields expands nothing at the value itself. -/
lemma length_expansions_fields_lt (ih : v.PartsWithin bodies discriminator) (declared : Table Ty) :
    (v.check bodies discriminator (.fields declared)).expansions.length < v.nodes := by
  cases v with
  | object members => exact Table.length_expansions_checkFields_lt ih
  | null | boolean | number | string | array => exact nodes_pos _

/-- Nor does a check against variants. -/
lemma length_expansions_variants_lt (ih : v.PartsWithin bodies discriminator)
    (variants : Table Ty) :
    (v.checkVariants bodies discriminator variants).expansions.length < v.nodes := by
  cases v with
  | object members => exact Table.length_expansions_checkVariant_lt ih
  | null | boolean | number | string | array => exact nodes_pos _

/-- **At most one expansion for every node.** The induction is on the value, and at one
value on the type. Optional types hand the value on unexpanded; an instance expands once
and then hands on parts of the value only, each of them to one check. -/
lemma length_expansions_le (v : Json) (t : Ty) :
    (v.check bodies discriminator t).expansions.length ≤ v.nodes := by
  induction v using part_induction generalizing t with
  | _ v ihv =>
  induction t with
  | primitive p =>
      rw [check_primitive]
      split_ifs <;> exact Nat.zero_le _
  | container k t ih =>
      cases k with
      | optional =>
          rw [check_optional]
          split_ifs
          · exact Nat.zero_le _
          · exact ih
      | repeated =>
          cases v with
          | array items =>
              rw [check_repeated_array, nodes_array]
              refine (Verdict.length_expansions_forEach_le ..).trans (Nat.le_succ_of_le ?_)
              exact List.sum_le_sum fun k _ => ihv _ (.item items k) t
          | null | boolean | number | string | object => exact Nat.zero_le _
      | map =>
          cases v with
          | object members =>
              rw [check_map, checkMembers_object, nodes_object]
              refine (Verdict.length_expansions_forEach_le ..).trans (Nat.le_succ_of_le ?_)
              exact List.sum_le_sum fun k _ => ihv _ (.member members k) t
          | null | boolean | number | string | array => exact Nat.zero_le _
  | fields declared => exact (length_expansions_fields_lt ihv declared).le
  | inst i =>
      rw [check_inst]
      refine Verdict.length_expansions_describe_le (fun d _ => ?_) v.nodes_pos
      cases d.kind with
      | record => exact length_expansions_fields_lt ihv d.entries
      | schema => exact length_expansions_variants_lt ihv d.entries
  | param index =>
      rw [check_param]
      exact Nat.zero_le _

end Json

/-! ### The main statement -/

/-- What a check with visible events reports to expand is what it expands. -/
lemma check_expansions (bodies : Family) (config : Config) (t : Ty) (v : Json) :
    (check bodies { config with debug := true } t v).events.filterMap Event.expanded? =
      (v.check bodies config.discriminator t).expansions := by
  rw [check, Traced.events_bind_pure _ fun _ => v]
  change ((v.check bodies config.discriminator t).reported t).events.filterMap _ = _
  rw [Verdict.reported]
  cases (v.check bodies config.discriminator t).result with
  | error e => simp [Verdict.expansions, Event.expanded?]
  | ok a => rfl

/-- **Checking ends, and expands no more than the data warrants.** No chain of calls goes
on forever, whatever the bodies are; the check is made up of its calls alone; and it
expands no more instances than the value has nodes, by its own reports. -/
theorem check_ends (bodies : Family) (config : Config) (t : Ty) (v : Json) :
    Acc (Subcheck bodies config.discriminator) (t, v) ∧
      (∀ other : Json → Ty → Verdict,
        (∀ t' w, TransGen (Subcheck bodies config.discriminator) (t', w) (t, v) →
          other w t' = w.check bodies config.discriminator t') →
        t.checkLayer bodies config.discriminator v (v.layerWith other) =
          v.check bodies config.discriminator t) ∧
      (check bodies { config with debug := true } t v).events.filterMap Event.expanded? =
        (v.check bodies config.discriminator t).expansions ∧
      (v.check bodies config.discriminator t).expansions.length ≤ v.nodes :=
  ⟨subcheck_wellFounded.apply _, fun _ agree => Json.check_of_subchecks agree,
    check_expansions bodies config t v, v.length_expansions_le t⟩

/-- The record `{ next: Endless(Repeated(a)) }`: it requires itself, at ever larger
arguments. -/
def endless : Factory := ⟨7, "Endless", .record, 1⟩

/-- The bodies of the ready-made definitions and of that record. -/
def endlessBodies : Family :=
  ((Workspace.start .standard true).register "Endless" .record 1
    [("next", .this [.container .repeated (.arg 0)])]).2.family

/-- Three objects inside each other, with a truth value in the innermost one. -/
def nestedThrice : Json :=
  .ofMembers [("next", .ofMembers [("next", .ofMembers [("next", .boolean true)])])]

/-- The bound is reached: the value has four nodes, and for each of them another instance of
the record is expanded. -/
theorem check_ends_endless :
    let t : Ty := .inst ⟨endless, fun _ => .number⟩
    let verdict := nestedThrice.check endlessBodies "constr" t
    nestedThrice.nodes = 4 ∧ verdict.expansions.length = 4 ∧
      verdict.expansions.length ≤ nestedThrice.nodes ∧
      Acc (Subcheck endlessBodies "constr") (t, nestedThrice) ∧
      t.checkLayer endlessBodies "constr" nestedThrice
        (nestedThrice.layerWith (Json.check endlessBodies "constr")) = verdict := by
  intro t verdict
  obtain ⟨hends, hcalls, -, hbound⟩ := check_ends endlessBodies .standard t nestedThrice
  exact ⟨rfl, rfl, hbound, hends, hcalls _ fun _ _ _ => rfl⟩

end JsonTypes
