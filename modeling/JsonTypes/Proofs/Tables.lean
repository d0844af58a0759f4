/-
Looking up names in tables.

* `Table.find?_eq_some`, `Table.find?_name`: what is found under a name is the
  entry at the one position that carries the name.
* `Table.exists_find?`: a name has an entry if and only if it is among the names.
* `Table.sameKeys_iff`: counting the keys of an object and looking up every
  declared name decides whether the two sets of names are equal.
* `Table.mem_toList`: what stands in the list of a table is what is found in it;
  `Table.exists_index`: where it stands.
* `Table.ofList_map`: a table made of mapped entries is the mapped table.
* `Table.mem_of_find?_ofList`: a table made of a list holds entries of the list only;
  `Table.toList_ofList`, `Table.find?_ofList`: if the names differ, all of them.
* `Table.toList_put`, `Table.names_put`, `Table.find?_put_self`, `Table.find?_put_of_ne`: a table
  that an entry has been put into.
* `Table.two`: tables of two entries; `Table.mem_names_of_size_two`: two different
  names of such a table are all its names.
-/
import JsonTypes.Check
import Mathlib.Data.List.FinRange
import Mathlib.Data.List.Nodup
import Mathlib.Data.List.Perm.Subperm
import Mathlib.Tactic.Lemma

namespace JsonTypes

/-- Different positions carry different names. -/
lemma Names.index_ext {names : Names} {i j : names.Index}
    (h : names.toList[i] = names.toList[j]) : i = j :=
  Fin.ext ((List.Nodup.getElem_inj_iff names.nodup).mp h)

/-- The position found for a name is the only one that carries it. -/
lemma Names.index?_eq_some {names : Names} {name : String} {i : names.Index} :
    names.index? name = some i ↔ names.toList[i] = name := by
  rw [Names.index?, List.finIdxOf?_eq_some_iff]
  refine ⟨fun h => h.1, fun h => ⟨h, fun j hj hname => ?_⟩⟩
  obtain rfl : j = i := Names.index_ext (hname.trans h.symm)
  exact absurd hj (Nat.lt_irrefl j)

namespace Table

variable {α β : Type}

/-- An entry stands under a name if and only if it stands at a position with
that name. -/
lemma find?_eq_some {table : Table α} {name : String} {a : α} :
    table.find? name = some a ↔ ∃ i, table.name i = name ∧ table.entry i = a := by
  simp only [find?, Option.map_eq_some_iff, Names.index?_eq_some]
  rfl

/-- The entry at a position is found under its name. -/
lemma find?_name (table : Table α) (i : table.names.Index) :
    table.find? (table.name i) = some (table.entry i) :=
  find?_eq_some.mpr ⟨i, rfl, rfl⟩

lemma name_mem (table : Table α) (i : table.names.Index) :
    table.name i ∈ table.names.toList :=
  List.getElem_mem _

/-- A name is among the names of a table if and only if it has an entry. -/
lemma exists_find? {table : Table α} {name : String} :
    (∃ a, table.find? name = some a) ↔ name ∈ table.names.toList := by
  constructor
  · rintro ⟨a, ha⟩
    obtain ⟨i, rfl, -⟩ := find?_eq_some.mp ha
    exact table.name_mem i
  · intro h
    obtain ⟨i, hi, rfl⟩ := List.getElem_of_mem h
    exact ⟨_, table.find?_name ⟨i, hi⟩⟩

/-- Putting the entries through a function leaves the lookup of names as it is. -/
lemma find?_map (f : α → β) (table : Table α) (name : String) :
    (table.map f).find? name = (table.find? name).map f := by
  simp only [find?, map, Option.map_map]
  rfl

/-- Two lists of pairwise different names of the same length, one inside the
other, have the same names. -/
lemma mem_iff_of_subset {names other : Names}
    (hsub : names.toList ⊆ other.toList)
    (hlen : other.toList.length ≤ names.toList.length) (name : String) :
    name ∈ names.toList ↔ name ∈ other.toList :=
  ((names.nodup.subperm hsub).perm_of_length_le hlen).mem_iff

/-- **Counting suffices**: an object whose number of keys is the declared one and
which has every declared key has exactly the declared keys. -/
lemma sameKeys_iff {members : Table α} {fields : Table β} :
    members.sameKeys fields = true ↔
      ∀ name, name ∈ members.names.toList ↔ name ∈ fields.names.toList := by
  simp only [sameKeys, size, contains, Bool.and_eq_true, beq_iff_eq, List.all_eq_true,
    List.contains_iff_mem]
  constructor
  · rintro ⟨hlen, hall⟩ name
    exact (mem_iff_of_subset hall (Nat.le_of_eq hlen) name).symm
  · intro h
    refine ⟨?_, fun name hname => (h name).mpr hname⟩
    have hperm := (List.perm_ext_iff_of_nodup members.names.nodup fields.names.nodup).mpr h
    exact hperm.length_eq

/-- Tables with the same names have the same number of entries. -/
lemma size_eq_of_names {a : Table α} {b : Table β}
    (h : ∀ name, name ∈ a.names.toList ↔ name ∈ b.names.toList) : a.size = b.size :=
  ((List.perm_ext_iff_of_nodup a.names.nodup b.names.nodup).mpr h).length_eq

/-! ### The list of a table -/

/-- To go through the positions is to go through the names. -/
lemma map_name (table : Table α) (f : String → β) :
    (table.indices.map fun i => f (table.name i)) = table.names.toList.map f := by
  conv_rhs => rw [← List.map_getElem_finRange table.names.toList, List.map_map]
  rfl

lemma map_fst_toList (table : Table α) : table.toList.map Prod.fst = table.names.toList :=
  calc table.toList.map Prod.fst = table.indices.map fun i => id (table.name i) := by
        rw [toList, List.map_map]
        rfl
    _ = table.names.toList := by rw [map_name, List.map_id]

lemma length_toList (table : Table α) : table.toList.length = table.size := by
  rw [← List.length_map Prod.fst, map_fst_toList]
  rfl

/-- A name stands in the list of a table with an entry if and only if the entry is found
under the name. -/
lemma mem_toList {table : Table α} {name : String} {a : α} :
    (name, a) ∈ table.toList ↔ table.find? name = some a := by
  simp [find?_eq_some, toList, indices]

/-- An entry of the list stands at an index, and all that stands at smaller ones before it. -/
lemma exists_index {table : Table α} {before after : List (String × α)} {name : String} {a : α}
    (h : table.toList = before ++ (name, a) :: after) :
    ∃ k : table.names.Index, table.name k = name ∧ table.entry k = a ∧
      ∀ i < k, (table.name i, table.entry i) ∈ before := by
  obtain ⟨first, rest, hindices, rfl, hrest⟩ := List.map_eq_append_iff.mp h
  obtain ⟨k, last, rfl, hk, -⟩ := List.map_eq_cons_iff.mp hrest
  obtain ⟨rfl, rfl⟩ := Prod.mk.inj hk
  refine ⟨k, rfl, rfl, fun i hi => List.mem_map.mpr ⟨i, ?_, rfl⟩⟩
  have hmem : i ∈ first ++ k :: last := hindices ▸ List.mem_finRange i
  have hsorted : (first ++ k :: last).Pairwise (· < ·) := hindices ▸ List.pairwise_lt_finRange _
  have hlast : ∀ j ∈ last, k < j :=
    (List.pairwise_cons.mp (List.pairwise_append.mp hsorted).2.1).1
  rcases List.mem_append.mp hmem with hfirst | hlater
  · exact hfirst
  · rcases List.mem_cons.mp hlater with rfl | hlater
    · exact absurd hi (Fin.lt_irrefl _)
    · exact absurd (hlast i hlater) (Fin.lt_asymm hi)

/-! ### Tables of lists -/

/-- Tables with the same names in the same places and the same entries there are
equal. -/
lemma ext_entries {a b : Table α} (hnames : a.names.toList = b.names.toList)
    (hentry : ∀ i h h', a.entry ⟨i, h⟩ = b.entry ⟨i, h'⟩) : a = b := by
  obtain ⟨⟨names, nodup⟩, entry⟩ := a
  obtain ⟨⟨names', nodup'⟩, entry'⟩ := b
  obtain rfl : names = names' := hnames
  have : entry = entry' := funext fun i => hentry i i.isLt i.isLt
  rw [this]

lemma putEntry_map (f : α → β) (name : String) (a : α) (entries : List (String × α)) :
    putEntry name (f a) (entries.map (Prod.map id f)) =
      (putEntry name a entries).map (Prod.map id f) := by
  induction entries with
  | nil => rfl
  | cons first rest ih =>
      obtain ⟨other, held⟩ := first
      by_cases h : other = name
      · simp [putEntry, h]
      · simp [putEntry, h, ih]

lemma collect_map (f : α → β) (entries : List (String × α)) :
    collect (entries.map (Prod.map id f)) = (collect entries).map (Prod.map id f) := by
  suffices ∀ held : List (String × α),
      (entries.map (Prod.map id f)).foldl (fun held entry => putEntry entry.1 entry.2 held)
          (held.map (Prod.map id f)) =
        (entries.foldl (fun held entry => putEntry entry.1 entry.2 held) held).map
          (Prod.map id f) from this []
  induction entries with
  | nil => exact fun held => rfl
  | cons entry rest ih =>
      intro held
      rw [List.map_cons, List.foldl_cons, List.foldl_cons, ← ih, ← putEntry_map]
      rfl

/-- The table of a list whose values are put through a function is the table of
the list, put through the function. -/
lemma ofList_map (f : α → β) (entries : List (String × α)) :
    ofList (entries.map (Prod.map id f)) = (ofList entries).map f := by
  refine ext_entries ?_ fun i h h' => ?_
  · simp [ofList, ofDistinct, map, collect_map]
  · simp [ofList, ofDistinct, map, collect_map]

lemma mem_putEntry {name : String} {a : α} {entries : List (String × α)} {entry : String × α}
    (h : entry ∈ putEntry name a entries) : entry = (name, a) ∨ entry ∈ entries := by
  induction entries with
  | nil => exact Or.inl (List.mem_singleton.mp h)
  | cons first rest ih =>
      obtain ⟨other, held⟩ := first
      rw [putEntry] at h
      split_ifs at h with hname
      · rcases List.mem_cons.mp h with rfl | hrest
        · exact Or.inl (by rw [hname])
        · exact Or.inr (List.mem_cons_of_mem _ hrest)
      · rcases List.mem_cons.mp h with rfl | hrest
        · exact Or.inr (List.mem_cons_self ..)
        · exact (ih hrest).imp_right (List.mem_cons_of_mem _)

lemma mem_collect {entries : List (String × α)} {entry : String × α}
    (h : entry ∈ collect entries) : entry ∈ entries := by
  suffices ∀ held : List (String × α),
      entry ∈ entries.foldl (fun held entry => putEntry entry.1 entry.2 held) held →
        entry ∈ held ∨ entry ∈ entries from (this [] h).resolve_left (List.not_mem_nil)
  clear h
  induction entries with
  | nil => exact fun held h => Or.inl h
  | cons first rest ih =>
      intro held h
      rcases ih _ h with hput | hrest
      · rcases mem_putEntry hput with rfl | hheld
        · exact Or.inr (List.mem_cons_self ..)
        · exact Or.inl hheld
      · exact Or.inr (List.mem_cons_of_mem _ hrest)

/-- Whatever a table made of a list holds under a name stands in the list with it. -/
lemma mem_of_find?_ofList {entries : List (String × α)} {name : String} {a : α}
    (h : (ofList entries).find? name = some a) : (name, a) ∈ entries := by
  obtain ⟨i, rfl, rfl⟩ := find?_eq_some.mp h
  have hi : i < (collect entries).length := by simpa [ofList, ofDistinct] using i.isLt
  have hname : (ofList entries).name i = (collect entries)[(i : ℕ)].1 := List.getElem_map _
  have hentry : (ofList entries).entry i = (collect entries)[(i : ℕ)].2 := by
    simp [ofList, ofDistinct]
  rw [hname, hentry]
  exact mem_collect (List.getElem_mem hi)

/-- Whatever a table made of a list holds is a value of the list. -/
lemma entry_ofList_mem (entries : List (String × α)) (i : (ofList entries).names.Index) :
    (ofList entries).entry i ∈ entries.map Prod.snd :=
  List.mem_map_of_mem (mem_of_find?_ofList (find?_name _ i))

/-- An entry under a new name goes to the end. -/
lemma putEntry_fresh {name : String} {a : α} {entries : List (String × α)}
    (h : name ∉ entries.map Prod.fst) : putEntry name a entries = entries ++ [(name, a)] := by
  induction entries with
  | nil => rfl
  | cons first rest ih =>
      obtain ⟨other, held⟩ := first
      rw [List.map_cons, List.mem_cons, not_or] at h
      rw [putEntry, if_neg (Ne.symm h.1), ih h.2]
      rfl

/-- A list of entries whose names differ is its own table. -/
lemma collect_of_nodup {entries : List (String × α)} (h : (entries.map Prod.fst).Nodup) :
    collect entries = entries := by
  suffices ∀ held : List (String × α), ((held ++ entries).map Prod.fst).Nodup →
      entries.foldl (fun held entry => putEntry entry.1 entry.2 held) held = held ++ entries from
    this [] h
  clear h
  induction entries with
  | nil => exact fun held _ => (List.append_nil held).symm
  | cons entry rest ih =>
      intro held h
      have hfresh : entry.1 ∉ held.map Prod.fst := by
        rw [List.map_append, List.nodup_append] at h
        exact fun hmem => h.2.2 entry.1 hmem entry.1 (by simp) rfl
      rw [List.foldl_cons, putEntry_fresh hfresh, ih _ (by simpa using h)]
      simp

/-- A table made of a list lists the entries of the list, joined by name. -/
lemma toList_ofList_eq_collect (entries : List (String × α)) :
    (ofList entries).toList = collect entries := by
  apply List.ext_getElem
  · simp [toList, indices, ofList, ofDistinct]
  · intro k hk hk'
    simp [toList, indices, ofList, ofDistinct, Table.name]

/-- A table of entries whose names differ lists these entries. -/
lemma toList_ofList {entries : List (String × α)} (h : (entries.map Prod.fst).Nodup) :
    (ofList entries).toList = entries :=
  (toList_ofList_eq_collect entries).trans (collect_of_nodup h)

lemma names_ofList {entries : List (String × α)} (h : (entries.map Prod.fst).Nodup) :
    (ofList entries).names.toList = entries.map Prod.fst := by
  rw [← map_fst_toList, toList_ofList h]

/-- Under a name of a list whose names differ stands the entry of the list. -/
lemma find?_ofList {entries : List (String × α)} (h : (entries.map Prod.fst).Nodup)
    {name : String} {a : α} (hmem : (name, a) ∈ entries) :
    (ofList entries).find? name = some a := by
  rw [← mem_toList, toList_ofList h]
  exact hmem

/-! ### Putting entries -/

lemma putEntry_mem (name : String) (a : α) (entries : List (String × α)) :
    (name, a) ∈ putEntry name a entries := by
  induction entries with
  | nil => exact List.mem_singleton_self _
  | cons first rest ih =>
      obtain ⟨other, held⟩ := first
      rw [putEntry]
      split_ifs with hname
      · rw [hname]
        exact List.mem_cons_self
      · exact List.mem_cons_of_mem _ ih

/-- An entry that is put leaves the entries of other names where they are. -/
lemma filter_putEntry (name : String) (a : α) (entries : List (String × α)) :
    (putEntry name a entries).filter (fun entry => entry.1 ≠ name) =
      entries.filter fun entry => entry.1 ≠ name := by
  induction entries with
  | nil => simp [putEntry]
  | cons first rest ih =>
      obtain ⟨other, held⟩ := first
      by_cases hname : other = name
      · simp [putEntry, hname]
      · rw [putEntry, if_neg hname, List.filter_cons, List.filter_cons, ih]

section Put

variable (table : Table α) (name : String) (a : α)

/-- Putting an entry into a table puts it into the list of the table. -/
lemma toList_put : (table.put name a).toList = putEntry name a table.toList := by
  have hnodup : (table.toList.map Prod.fst).Nodup := by
    rw [map_fst_toList]
    exact table.names.nodup
  calc (table.put name a).toList = collect (table.toList ++ [(name, a)]) :=
        toList_ofList_eq_collect _
    _ = putEntry name a (collect table.toList) := List.foldl_append
    _ = putEntry name a table.toList := by rw [collect_of_nodup hnodup]

/-- A name that was held keeps its place, and a new one goes to the end. -/
lemma names_put : (table.put name a).names.toList =
    if name ∈ table.names.toList then table.names.toList else table.names.toList ++ [name] := by
  rw [← map_fst_toList, toList_put, names_putEntry, map_fst_toList]

lemma find?_put_self : (table.put name a).find? name = some a := by
  rw [← mem_toList, toList_put]
  exact putEntry_mem name a table.toList

lemma find?_put_of_ne {other : String} (h : other ≠ name) :
    (table.put name a).find? other = table.find? other := by
  refine Option.ext fun b => ?_
  have hfilter : ∀ entries : List (String × α),
      (other, b) ∈ entries ↔ (other, b) ∈ entries.filter fun entry => entry.1 ≠ name := by
    simp [List.mem_filter, h]
  rw [← mem_toList, ← mem_toList, toList_put, hfilter, filter_putEntry, ← hfilter]

end Put

/-! ### Tables of two entries -/

section Two

variable {name other : String} (hne : name ≠ other) (a b : α)

/-- The table of two entries. -/
def two : Table α := ofDistinct [(name, a), (other, b)] (by simpa using hne)

@[simp] lemma size_two : (two hne a b).size = 2 := rfl

@[simp] lemma find?_two_fst : (two hne a b).find? name = some a :=
  find?_eq_some.mpr ⟨⟨0, Nat.zero_lt_two⟩, rfl, rfl⟩

@[simp] lemma find?_two_snd : (two hne a b).find? other = some b :=
  find?_eq_some.mpr ⟨⟨1, Nat.one_lt_two⟩, rfl, rfl⟩

end Two

/-- Two different names of a table with two entries are all its names. -/
lemma mem_names_of_size_two {table : Table α} {name other : String} {a b : α}
    (hsize : table.size = 2) (hname : table.find? name = some a)
    (hother : table.find? other = some b) (hne : name ≠ other) (key : String) :
    key ∈ table.names.toList ↔ key = name ∨ key = other := by
  have hnodup : [name, other].Nodup := by simpa using hne
  have hsub : [name, other] ⊆ table.names.toList := by
    intro k hk
    rcases List.mem_pair.mp hk with rfl | rfl
    · exact exists_find?.mp ⟨a, hname⟩
    · exact exists_find?.mp ⟨b, hother⟩
  have hperm := (hnodup.subperm hsub).perm_of_length_le (Nat.le_of_eq hsize)
  rw [← hperm.mem_iff, List.mem_pair]

end Table

end JsonTypes
