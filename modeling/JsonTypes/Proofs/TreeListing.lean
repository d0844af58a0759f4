/-
What is inside a tree of files.

A directory is listed in the order of names, and so is everything below it, a directory
before what it holds. Nothing that names lead to is left out. Such lists are put together
from others: the order of what leads to the items carries over, and so does their being
complete.

* `Exhausts`: a list of everything that is found, in order; `Exhausts.unique`: there is only
  one. `Exhausts.flatMap`: lists of what is found behind the items of a list.
* `FileTree.Leads`: names, one inside the other, lead from a tree to another one.
* `FileTree.Stands`: something inside a tree, at the end of such names, with its path.
* `FileTree.induct`: induction over a tree.
* `FileTree.sortedNames_ascending`, `FileTree.mem_sortedNames`: directories.
* `FileTree.exhausts_descendants`: what is below them.
-/
import JsonTypes.FileTree
import JsonTypes.Proofs.Tables
import Mathlib.Data.String.Basic

namespace JsonTypes

/-! ### Lists of everything -/

section Exhausts

variable {κ ι : Type} {before : κ → κ → Prop} {finds : κ → ι → Prop} {items : List ι}

/-- A list of everything that is found, in the order of what leads there. -/
def Exhausts (before : κ → κ → Prop) (finds : κ → ι → Prop) (items : List ι) : Prop :=
  ∃ rows : List (κ × ι), (rows.map Prod.fst).Pairwise before ∧
    (∀ key item, (key, item) ∈ rows ↔ finds key item) ∧ rows.map Prod.snd = items

namespace Exhausts

/-- **There is only one such list.** -/
lemma unique [Std.Asymm before] {others : List ι} (h : Exhausts before finds items)
    (h' : Exhausts before finds others) : items = others := by
  obtain ⟨rows, hrows, hmem, rfl⟩ := h
  obtain ⟨rows', hrows', hmem', rfl⟩ := h'
  have hnodup : ∀ {list : List (κ × ι)}, (list.map Prod.fst).Pairwise before → list.Nodup :=
    fun h => List.Nodup.of_map Prod.fst (h.imp fun hbefore => ne_of_irrefl hbefore)
  have hperm : rows.Perm rows' :=
    (List.perm_ext_iff_of_nodup (hnodup hrows) (hnodup hrows')).mpr fun row =>
      (hmem row.1 row.2).trans (hmem' row.1 row.2).symm
  have hsame : rows = rows' := hperm.eq_of_pairwise
    (fun _ _ _ _ hab hba => absurd hba (asymm_of _ hab))
    (List.pairwise_map.mp hrows) (List.pairwise_map.mp hrows')
  rw [hsame]

/-- It makes no difference how it is said what is found. -/
lemma congr {finds' : κ → ι → Prop} (h : Exhausts before finds items)
    (same : ∀ key item, finds key item ↔ finds' key item) : Exhausts before finds' items := by
  obtain ⟨rows, hrows, hmem, hitems⟩ := h
  exact ⟨rows, hrows, fun key item => (hmem key item).trans (same key item), hitems⟩

lemma nothing (h : ∀ key item, ¬ finds key item) : Exhausts before finds [] :=
  ⟨[], List.Pairwise.nil, fun key item => iff_of_false List.not_mem_nil (h key item), rfl⟩

lemma single (key : κ) (item : ι) :
    Exhausts before (fun key' found => key' = key ∧ found = item) [item] := by
  refine ⟨[(key, item)], List.pairwise_singleton _ _, fun key' found => ?_, rfl⟩
  rw [List.mem_singleton, Prod.mk.injEq]

lemma singleIf (present : Bool) (key : κ) (item : ι) :
    Exhausts before (fun key' found => present = true ∧ key' = key ∧ found = item)
      (if present then [item] else []) := by
  cases present with
  | true => exact (single key item).congr fun _ _ => ⟨fun h => ⟨rfl, h⟩, And.right⟩
  | false => exact .nothing fun _ _ h => Bool.false_ne_true h.1

/-- Some of the items are listed in the same order. -/
lemma filter (h : Exhausts before finds items) (keep : ι → Bool) :
    Exhausts before (fun key item => finds key item ∧ keep item = true) (items.filter keep) := by
  obtain ⟨rows, hrows, hmem, rfl⟩ := h
  refine ⟨rows.filter (keep ∘ Prod.snd), ?_, ?_, ?_⟩
  · exact hrows.sublist (List.filter_sublist.map Prod.fst)
  · intro key item
    rw [List.mem_filter, hmem]
    rfl
  · rw [List.filter_map]

/-- Items may be changed, and so may what leads there as long as the order stays. -/
lemma map {κ' ι' : Type} {before' : κ' → κ' → Prop} {toKey : κ → κ'}
    (h : Exhausts before finds items) (toItem : ι → ι')
    (ordered : ∀ {a b}, before a b → before' (toKey a) (toKey b)) :
    Exhausts before' (fun key' item' => ∃ key item, finds key item ∧ key' = toKey key ∧
      item' = toItem item) (items.map toItem) := by
  obtain ⟨rows, hrows, hmem, rfl⟩ := h
  refine ⟨rows.map fun row => (toKey row.1, toItem row.2), ?_, ?_, ?_⟩
  · rw [List.map_map]
    exact List.pairwise_map.mpr ((List.pairwise_map.mp hrows).imp ordered)
  · intro key' item'
    simp only [List.mem_map, Prod.mk.injEq, Prod.exists, hmem, eq_comm]
  · rw [List.map_map, List.map_map]
    rfl

/-- Something comes before everything that is behind it. -/
lemma cons {finds : List κ → ι → Prop} (h : Exhausts (List.Lex before) finds items)
    (behind : ∀ item, ¬ finds [] item) (first : ι) :
    Exhausts (List.Lex before) (fun trail item => (trail = [] ∧ item = first) ∨ finds trail item)
      (first :: items) := by
  obtain ⟨rows, hrows, hmem, rfl⟩ := h
  refine ⟨([], first) :: rows, List.pairwise_cons.mpr ⟨fun trail htrail => ?_, hrows⟩, ?_, rfl⟩
  · obtain ⟨⟨trail, item⟩, hrow, rfl⟩ := List.mem_map.mp htrail
    cases trail with
    | nil => exact absurd ((hmem [] item).mp hrow) (behind item)
    | cons key rest => exact .nil
  · intro trail item
    rw [List.mem_cons, Prod.mk.injEq, hmem]

/-- What is found behind items in order is listed item by item. -/
lemma flatMap {ι' : Type} {search : ι → List ι'} {behind : ι → List κ → ι' → Prop}
    (h : Exhausts before finds items)
    (later : ∀ item, Exhausts (List.Lex before) (behind item) (search item)) :
    Exhausts (List.Lex before) (fun trail found => ∃ key item rest, finds key item ∧
      trail = key :: rest ∧ behind item rest found) (items.flatMap search) := by
  obtain ⟨heads, hordered, hheads, rfl⟩ := h
  choose rows hrows hmem hfound using later
  refine ⟨heads.flatMap fun head => (rows head.2).map fun row => (head.1 :: row.1, row.2),
    ?_, ?_, ?_⟩
  · rw [List.map_flatMap]
    refine List.pairwise_flatMap.mpr ⟨fun head _ => ?_, (List.pairwise_map.mp hordered).imp ?_⟩
    · rw [List.map_map]
      exact List.pairwise_map.mpr ((List.pairwise_map.mp (hrows head.2)).imp fun h => .cons h)
    · intro a b hab x hx y hy
      rw [List.map_map] at hx hy
      obtain ⟨_, -, rfl⟩ := List.mem_map.mp hx
      obtain ⟨_, -, rfl⟩ := List.mem_map.mp hy
      exact .rel hab
  · intro trail found
    simp only [List.mem_flatMap, List.mem_map, Prod.mk.injEq, Prod.exists]
    constructor
    · rintro ⟨key, item, hhead, rest, _, hrow, rfl, rfl⟩
      exact ⟨key, item, rest, (hheads key item).mp hhead, rfl, (hmem item rest _).mp hrow⟩
    · rintro ⟨key, item, rest, hitem, rfl, hbehind⟩
      exact ⟨key, item, (hheads key item).mpr hitem, rest, found,
        (hmem item rest found).mpr hbehind, rfl, rfl⟩
  · rw [List.map_flatMap, List.flatMap_map]
    refine List.flatMap_congr fun head _ => ?_
    rw [List.map_map, ← hfound]
    rfl

end Exhausts

end Exhausts

namespace FileTree

variable {α : Type}

/-! ### Directories -/

/-- Sorting by names that differ puts them in ascending order. -/
lemma mergeSort_ascending {β : Type} (key : β → String) {list : List β}
    (h : (list.map key).Nodup) :
    (list.mergeSort fun a b => key a ≤ key b).Pairwise fun a b => key a < key b := by
  have hsorted : (list.mergeSort fun a b => key a ≤ key b).Pairwise
      fun a b => decide (key a ≤ key b) = true :=
    List.pairwise_mergeSort (by simpa using fun a b c => le_trans)
      (by simpa using fun a b => le_total (key a) (key b)) _
  have hdiffer : (list.mergeSort fun a b => key a ≤ key b).Pairwise fun a b => key a ≠ key b :=
    List.pairwise_map.mp (((List.mergeSort_perm _ _).map key).nodup_iff.mpr h)
  exact (hsorted.and hdiffer).imp fun h => lt_of_le_of_ne (of_decide_eq_true h.1) h.2

section SortedNames

variable {entries : Table (FileTree α)} {names : List String}

lemma sortedNames_ascending (entries : Table (FileTree α)) :
    (sortedNames entries).Pairwise (· < ·) := by
  have hnodup : (entries.names.toList.map id).Nodup := by
    rw [List.map_id]
    exact entries.names.nodup
  exact mergeSort_ascending id hnodup

/-- A directory is listed completely. -/
lemma mem_sortedNames {name : String} : name ∈ sortedNames entries ↔ name ∈ entries.names.toList :=
  List.mem_mergeSort

/-- No other list in order has the names of a directory. -/
lemma sortedNames_eq (ascending : names.Pairwise (· < ·)) (same : names.Perm entries.names.toList) :
    sortedNames entries = names :=
  ((List.mergeSort_perm _ _).trans same.symm).eq_of_pairwise
    (fun _ _ _ _ hab hba => absurd hba (lt_asymm hab)) (sortedNames_ascending entries) ascending

end SortedNames

/-! ### Below directories -/

/-- Names, one inside the other, lead from a tree to another one. -/
inductive Leads : FileTree α → List String → FileTree α → Prop where
  | entry {entries : Table (FileTree α)} {name : String} {tree : FileTree α}
      (held : entries.find? name = some tree) : Leads (.directory entries) [name] tree
  | inner {entries : Table (FileTree α)} {name : String} {names : List String}
      {tree below : FileTree α} (held : entries.find? name = some tree)
      (later : Leads tree names below) : Leads (.directory entries) (name :: names) below

/-- The path at the end of some names, one inside the other. -/
def pathBehind (pathOf : String → String) : List String → String
  | [] => ""
  | name :: rest => rest.foldl inside (pathOf name)

lemma pathBehind_cons {pathOf : String → String} {name : String} {rest : List String}
    (h : rest ≠ []) :
    pathBehind pathOf (name :: rest) = pathBehind (inside (pathOf name)) rest := by
  cases rest with
  | nil => exact absurd rfl h
  | cons next rest => rfl

/-- Something stands inside a tree, at the end of some names. -/
structure Stands (tree : FileTree α) (pathOf : String → String) (names : List String)
    (d : Descendant) : Prop where
  path : d.path = pathBehind pathOf names
  name : names.getLast? = some d.name
  leads : ∃ below, Leads tree names below ∧ below.isDirectory = d.isDirectory

section Stands

variable {pathOf : String → String} {names : List String} {d : Descendant}

lemma Leads.ne_nil {tree below : FileTree α} (h : Leads tree names below) : names ≠ [] := by
  cases h with
  | entry | inner => exact List.cons_ne_nil _ _

lemma Stands.ne_nil {tree : FileTree α} (h : Stands tree pathOf names d) : names ≠ [] :=
  h.leads.elim fun _ h => h.1.ne_nil

/-- Nothing stands inside a file. -/
lemma not_stands_file (content : α) : ¬ Stands (.file content) pathOf names d := by
  rintro ⟨-, -, below, h, -⟩
  cases h

/-- An entry of a directory, as something inside of it. -/
def entryAt (entries : Table (FileTree α)) (pathOf : String → String)
    (i : entries.names.Index) : Descendant :=
  ⟨entries.name i, pathOf (entries.name i), (entries.entry i).isDirectory⟩

/-- What stands inside a directory is an entry, or stands inside of one. -/
lemma stands_directory_iff {entries : Table (FileTree α)} :
    Stands (.directory entries) pathOf names d ↔
      ∃ i rest, names = entries.name i :: rest ∧ ((rest = [] ∧ d = entryAt entries pathOf i) ∨
        Stands (entries.entry i) (inside (pathOf (entries.name i))) rest d) := by
  constructor
  · rintro ⟨hpath, hname, below, hleads, hdirectory⟩
    cases hleads with
    | entry hheld =>
        obtain ⟨i, rfl, rfl⟩ := Table.find?_eq_some.mp hheld
        obtain ⟨name, path, isDirectory⟩ := d
        obtain rfl : entries.name i = name := Option.some.inj hname
        obtain rfl : path = pathOf (entries.name i) := hpath
        obtain rfl : (entries.entry i).isDirectory = isDirectory := hdirectory
        exact ⟨i, [], rfl, Or.inl ⟨rfl, rfl⟩⟩
    | @inner _ _ rest _ _ hheld hlater =>
        obtain ⟨i, rfl, rfl⟩ := Table.find?_eq_some.mp hheld
        rw [pathBehind_cons hlater.ne_nil] at hpath
        rw [List.getLast?_cons_of_ne_nil hlater.ne_nil] at hname
        exact ⟨i, rest, rfl, Or.inr ⟨hpath, hname, below, hlater, hdirectory⟩⟩
  · rintro ⟨i, rest, rfl, ⟨rfl, rfl⟩ | hstands⟩
    · exact ⟨rfl, rfl, _, .entry (entries.find?_name i), rfl⟩
    · obtain ⟨below, hleads, hdirectory⟩ := hstands.leads
      refine ⟨?_, ?_, below, .inner (entries.find?_name i) hleads, hdirectory⟩
      · rw [pathBehind_cons hstands.ne_nil]
        exact hstands.path
      · rw [List.getLast?_cons_of_ne_nil hstands.ne_nil]
        exact hstands.name

end Stands

/-! ### Order -/

/-- The entries of a directory in the order of their names. -/
def entryOrder (entries : Table (FileTree α)) : List entries.names.Index :=
  entries.indices.mergeSort fun i j => entries.name i ≤ entries.name j

lemma exhausts_entryOrder (entries : Table (FileTree α)) :
    Exhausts (· < ·) (fun name i => entries.name i = name) (entryOrder entries) := by
  refine ⟨(entryOrder entries).map fun i => (entries.name i, i), ?_, ?_, ?_⟩
  · have hnames : (entries.indices.map entries.name).Nodup := by
      have hall : entries.indices.map entries.name = entries.names.toList.map id :=
        entries.map_name id
      rw [hall, List.map_id]
      exact entries.names.nodup
    rw [List.map_map]
    exact List.pairwise_map.mpr (mergeSort_ascending entries.name hnames)
  · intro name i
    simp [entryOrder, Table.indices]
  · rw [List.map_map]
    exact List.map_id _

/-- An entry of a directory, and everything inside of it. -/
def entryRow (entries : Table (FileTree α)) (pathOf : String → String)
    (i : entries.names.Index) : List Descendant :=
  entryAt entries pathOf i :: (entries.entry i).descendants (inside (pathOf (entries.name i)))

/-- What is inside a directory comes entry by entry. -/
lemma descendants_directory (entries : Table (FileTree α)) (pathOf : String → String) :
    (directory entries).descendants pathOf =
      (entryOrder entries).flatMap (entryRow entries pathOf) := by
  let named := fun i => (entries.name i, entryRow entries pathOf i)
  have hsorted : (List.ofFn named).mergeSort (fun a b => a.1 ≤ b.1) =
      (entryOrder entries).map named := by
    rw [List.ofFn_eq_map]
    exact (List.map_mergeSort (f := named) fun _ _ _ _ => rfl).symm
  calc (directory entries).descendants pathOf
      = (((List.ofFn named).mergeSort fun a b => a.1 ≤ b.1).map Prod.snd).flatten := rfl
    _ = (entryOrder entries).flatMap (entryRow entries pathOf) := by
      rw [hsorted, List.map_map]
      rfl

/-- A property holds of all trees if it passes from what a directory holds to the directory. -/
@[elab_as_elim]
lemma induct {motive : FileTree α → Prop} (file : ∀ content, motive (.file content))
    (directory : ∀ entries : Table (FileTree α), (∀ i, motive (entries.entry i)) →
      motive (.directory entries)) (tree : FileTree α) : motive tree :=
  FileTree.rec (motive_1 := motive) (motive_2 := fun entries => ∀ i, motive (entries.entry i))
    file directory (fun _ _ ih => ih) tree

/-- **What is inside a tree is listed in the order of names**, from the outermost one on, and
a directory before what it holds; everything that stands inside is listed. -/
lemma exhausts_descendants (pathOf : String → String) (tree : FileTree α) :
    Exhausts (List.Lex (· < ·)) (Stands tree pathOf) (tree.descendants pathOf) := by
  induction tree using induct generalizing pathOf with
  | file content => exact .nothing fun _ _ => not_stands_file content
  | directory entries ih =>
      rw [descendants_directory]
      refine ((exhausts_entryOrder entries).flatMap fun i =>
        (ih i _).cons (fun _ h => h.ne_nil rfl) _).congr fun names d => ?_
      rw [stands_directory_iff]
      constructor
      · rintro ⟨_, i, rest, rfl, rfl, h⟩
        exact ⟨i, rest, rfl, h⟩
      · rintro ⟨i, rest, rfl, h⟩
        exact ⟨_, i, rest, rfl, rfl, h⟩

end FileTree

end JsonTypes
