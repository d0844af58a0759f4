/-
Finite rows and ordered tables, the two containers of the library.

A row numbers its items; a table names its entries, keeps them in order, and
never holds a name twice. Both keep their contents as a function of the index,
so that a tree whose nodes hold rows and tables of subtrees (a JSON value, a
type) is an ordinary inductive type and recursion over it is structural.

* `Row`, `Row.ofList`, `Row.toList`: rows and their list view.
* `Names`: a list of pairwise different names.
* `Table`, `Table.toList`: tables and their list view, `Table.find?` the entry
  under a name.
* `Table.put`: a repeated name keeps its place and takes the new entry.
* `Table.ofList`: the table that results from putting a list of entries one
  after another: first place, last value.
-/

namespace JsonTypes

universe u v

/-! ### Rows -/

/-- A finite row of items, numbered from zero. -/
structure Row (α : Type u) where
  length : Nat
  item : Fin length → α

namespace Row

variable {α : Type u} {β : Type v}

/-- The row of the items of a list. -/
def ofList (items : List α) : Row α :=
  let stored := items.toArray
  ⟨stored.size, fun i => stored[i]⟩

/-- The items in order. -/
def toList (row : Row α) : List α :=
  List.ofFn row.item

/-- The item at a position, if the row is that long. -/
def get? (row : Row α) (position : Nat) : Option α :=
  if h : position < row.length then some (row.item ⟨position, h⟩) else none

/-- The items, each put through `f`. -/
def map (f : α → β) (row : Row α) : Row β :=
  ⟨row.length, fun i => f (row.item i)⟩

end Row

/-! ### Names -/

/-- A list of pairwise different names. -/
structure Names where
  toList : List String
  nodup : toList.Nodup

namespace Names

/-- The positions of the names. -/
abbrev Index (names : Names) : Type := Fin names.toList.length

/-- The position of a name. -/
def index? (names : Names) (name : String) : Option names.Index :=
  names.toList.finIdxOf? name

end Names

/-! ### Tables -/

/-- Entries under pairwise different names, in order. -/
structure Table (α : Type u) where
  names : Names
  entry : names.Index → α

namespace Table

variable {α : Type u} {β : Type v}

/-- The number of entries. -/
def size (table : Table α) : Nat := table.names.toList.length

/-- The name at a position. -/
def name (table : Table α) (i : table.names.Index) : String := table.names.toList[i]

/-- The positions in order. -/
def indices (table : Table α) : List table.names.Index := List.finRange _

/-- The names with their entries, in order. -/
def toList (table : Table α) : List (String × α) :=
  table.indices.map fun i => (table.name i, table.entry i)

/-- The entries in order. -/
def entries (table : Table α) : List α :=
  table.indices.map table.entry

/-- The entry under a name. -/
def find? (table : Table α) (name : String) : Option α :=
  (table.names.index? name).map table.entry

/-- Whether a name has an entry. -/
def contains (table : Table α) (name : String) : Bool :=
  table.names.toList.contains name

/-- The same names, each entry put through `f`. -/
def map (f : α → β) (table : Table α) : Table β :=
  ⟨table.names, fun i => f (table.entry i)⟩

/-- The table of a list of entries whose names differ. -/
def ofDistinct (entries : List (String × α)) (nodup : (entries.map Prod.fst).Nodup) :
    Table α :=
  let stored := (entries.map Prod.snd).toArray
  have same : (entries.map Prod.fst).length = stored.size := by simp [stored]
  ⟨⟨entries.map Prod.fst, nodup⟩, fun i => stored[i.cast same]⟩

/-- The table without entries. -/
def empty : Table α := ofDistinct [] .nil

/-! ### Putting entries -/

/-- Puts an entry among others: in the place of the entry of the same name if
there is one, else at the end. -/
def putEntry (name : String) (value : α) : List (String × α) → List (String × α)
  | [] => [(name, value)]
  | (other, held) :: rest =>
    if other = name then (other, value) :: rest
    else (other, held) :: putEntry name value rest

/-- The names after putting an entry: the same ones if the name was held, else
the name at the end. -/
theorem names_putEntry (name : String) (value : α) (entries : List (String × α)) :
    (putEntry name value entries).map Prod.fst =
      if name ∈ entries.map Prod.fst then entries.map Prod.fst
      else entries.map Prod.fst ++ [name] := by
  induction entries with
  | nil => rfl
  | cons first rest ih =>
    obtain ⟨other, held⟩ := first
    by_cases h : other = name
    · simp [putEntry, h]
    · have h' : ¬ name = other := fun e => h e.symm
      simp only [putEntry, h, if_false, List.map_cons, ih, List.mem_cons, h', false_or]
      split <;> rfl

theorem nodup_putEntry (name : String) (value : α) {entries : List (String × α)}
    (h : (entries.map Prod.fst).Nodup) :
    ((putEntry name value entries).map Prod.fst).Nodup := by
  rw [names_putEntry]
  split
  · exact h
  · rename_i fresh
    refine List.nodup_append.2 ⟨h, by simp, fun a ha b hb => ?_⟩
    rw [List.mem_singleton.1 hb]
    exact fun e => fresh (e ▸ ha)

/-- The entries of a list with repeated names joined: a name stands where it
came first, with the value that came last. -/
def collect (entries : List (String × α)) : List (String × α) :=
  entries.foldl (fun held entry => putEntry entry.1 entry.2 held) []

theorem nodup_collect (entries : List (String × α)) :
    ((collect entries).map Prod.fst).Nodup := by
  suffices ∀ held : List (String × α), (held.map Prod.fst).Nodup →
      ((entries.foldl (fun held entry => putEntry entry.1 entry.2 held) held).map
        Prod.fst).Nodup from this [] .nil
  induction entries with
  | nil => exact fun _ h => h
  | cons entry rest ih => exact fun held h => ih _ (nodup_putEntry _ _ h)

/-- The table of a list of entries, joined by name. -/
def ofList (entries : List (String × α)) : Table α :=
  ofDistinct (collect entries) (nodup_collect entries)

/-- The table with an entry put into it. -/
def put (table : Table α) (name : String) (value : α) : Table α :=
  ofList (table.toList ++ [(name, value)])

end Table

end JsonTypes
