/-
The paths that a pattern matches.

A pattern is followed component by component. What a single component does is said here by
rules: it leads to a name that it spells out, to every entry with a name that it accepts, or
behind any directories to whatever stands there. The search lists the paths at the end of
such trails, all of them and no others, in the order of the trails: the outermost component
decides first, names are taken in their order, and the two dot entries in front of them.

* `Glob.Lead`, `Glob.Lead.Before`: where a component leads, and what comes first.
* `Glob.Steps`, `Glob.Below`: one component.
* `Glob.Finds`: all components, with the trail through them.
* `Glob.Lists`: the paths that a pattern matches, in the order of the trails;
  `Glob.lists_search`: they are the ones that the search lists.
-/
import JsonTypes.Glob.Search
import JsonTypes.Proofs.TreeListing
import Mathlib.Data.List.Lex

namespace JsonTypes

namespace Glob

/-! ### Leads -/

/-- Where a component leads: to the directory around, to the same directory, or down along
names. -/
inductive Lead where
  | around
  | itself
  | names (names : List String)

/-- What comes first: the way up, the way to the same directory, then the names in order. -/
inductive Lead.Before : Lead → Lead → Prop where
  | aroundItself : Before .around .itself
  | aroundNames {names : List String} : Before .around (.names names)
  | itselfNames {names : List String} : Before .itself (.names names)
  | names {a b : List String} (ascending : a < b) : Before (.names a) (.names b)

instance : Std.Asymm Lead.Before where
  asymm _ _ h h' := by
    cases h with
    | aroundItself | aroundNames | itselfNames => cases h'
    | names h =>
        cases h' with
        | names h' => exact lt_asymm h h'

/-! ### Components -/

section Components

variable {α : Type} (system : FileSystem α)

/-- One component leads from a path to another one: to the name that it spells out, if
something stands there, or to the entries of a directory with names that it accepts, the dot
entries being entries if the component starts with a dot. -/
inductive Steps (pattern : NamePattern) (path : String) : Lead → String → Prop where
  | spelled {name : String} {tree : FileTree α} (spells : pattern.literal? = some name)
      (plain : name ∉ dotEntries) (stands : system.locate (entryPath path name) = .ok tree) :
      Steps pattern path (.names [name]) (entryPath path name)
  | spelledDots {name : String} {entries : Table (FileTree α)}
      (spells : pattern.literal? = some name) (dots : name ∈ dotEntries)
      (inside : system.locate path = .ok (.directory entries)) :
      Steps pattern path (.names [name]) (entryPath path name)
  | held {name : String} {entries : Table (FileTree α)} (wild : pattern.literal? = none)
      (inside : system.locate path = .ok (.directory entries))
      (held : name ∈ entries.names.toList) (fits : pattern.accepts name = true) :
      Steps pattern path (.names [name]) (entryPath path name)
  | itself {entries : Table (FileTree α)} (wild : pattern.literal? = none)
      (dotted : pattern.startsWithDot = true)
      (inside : system.locate path = .ok (.directory entries))
      (fits : pattern.accepts "." = true) :
      Steps pattern path .itself (FileTree.inside path ".")
  | around {entries : Table (FileTree α)} (wild : pattern.literal? = none)
      (dotted : pattern.startsWithDot = true)
      (inside : system.locate path = .ok (.directory entries))
      (fits : pattern.accepts ".." = true) :
      Steps pattern path .around (FileTree.inside path "..")

/-- Something stands below a path, at the end of some names. -/
def Below (path : String) (names : List String) (d : FileTree.Descendant) : Prop :=
  ∃ tree, system.locate path = .ok tree ∧ tree.Stands (entryPath path) names d

/-- The components of a pattern lead from a path to another one along a trail. Behind any
directories the next component has to accept the last name; at the end of a pattern any
directories lead to directories. -/
inductive Finds : List NamePattern → String → List Lead → String → Prop where
  | here {path : String} : Finds [] path [] path
  | step {pattern : NamePattern} {rest : List NamePattern} {path next found : String}
      {lead : Lead} {trail : List Lead} (single : pattern.isRecursive = false)
      (steps : Steps system pattern path lead next) (later : Finds rest next trail found) :
      Finds (pattern :: rest) path (lead :: trail) found
  | inside {pattern next : NamePattern} {rest : List NamePattern} {path found : String}
      {names : List String} {d : FileTree.Descendant} {trail : List Lead}
      (any : pattern.isRecursive = true) (single : next.isRecursive = false)
      (stands : Below system path names d) (fits : next.accepts d.name = true)
      (later : Finds rest d.path trail found) :
      Finds (pattern :: next :: rest) path (.names names :: trail) found
  | again {pattern next : NamePattern} {rest : List NamePattern} {path found : String}
      {trail : List Lead} (any : pattern.isRecursive = true) (anyNext : next.isRecursive = true)
      (later : Finds (next :: rest) path trail found) :
      Finds (pattern :: next :: rest) path trail found
  | directories {pattern : NamePattern} {path : String} {names : List String}
      {d : FileTree.Descendant} (any : pattern.isRecursive = true)
      (stands : Below system path names d) (directory : d.isDirectory = true) :
      Finds [pattern] path [.names names] d.path

/-- The paths that a pattern matches, all of them, in the order of the trails. If a slash
ends the pattern they are paths of directories. -/
def Lists (glob : Glob) (paths : List String) : Prop :=
  Exhausts (List.Lex Lead.Before)
    (fun trail path => Finds system glob.components glob.start trail path ∧
      (glob.directoriesOnly = true →
        ∃ entries, system.locate path = .ok (.directory entries)))
    paths

variable {system} {pattern next : NamePattern} {rest : List NamePattern} {path found : String}
  {trail : List Lead}

lemma finds_nil_iff : Finds system [] path trail found ↔ trail = [] ∧ found = path := by
  constructor
  · rintro ⟨⟩
    exact ⟨rfl, rfl⟩
  · rintro ⟨rfl, rfl⟩
    exact .here

lemma finds_step_iff (single : pattern.isRecursive = false) :
    Finds system (pattern :: rest) path trail found ↔
      ∃ lead next later, Steps system pattern path lead next ∧ trail = lead :: later ∧
        Finds system rest next later found := by
  have hsingle : ¬ pattern.isRecursive = true := ne_true_of_eq_false single
  constructor
  · intro h
    cases h with
    | step _ hsteps hlater => exact ⟨_, _, _, hsteps, rfl, hlater⟩
    | inside hany | again hany | directories hany => exact absurd hany hsingle
  · rintro ⟨lead, next, later, hsteps, rfl, hlater⟩
    exact .step single hsteps hlater

lemma finds_inside_iff (any : pattern.isRecursive = true) (single : next.isRecursive = false) :
    Finds system (pattern :: next :: rest) path trail found ↔
      ∃ names d later, (Below system path names d ∧ next.accepts d.name = true) ∧
        trail = .names names :: later ∧ Finds system rest d.path later found := by
  constructor
  · intro h
    cases h with
    | step hsingle => exact absurd any (ne_true_of_eq_false hsingle)
    | inside _ _ hstands hfits hlater => exact ⟨_, _, _, ⟨hstands, hfits⟩, rfl, hlater⟩
    | again _ hany => exact absurd hany (ne_true_of_eq_false single)
  · rintro ⟨names, d, later, ⟨hstands, hfits⟩, rfl, hlater⟩
    exact .inside any single hstands hfits hlater

lemma finds_again_iff (any : pattern.isRecursive = true) (anyNext : next.isRecursive = true) :
    Finds system (pattern :: next :: rest) path trail found ↔
      Finds system (next :: rest) path trail found := by
  constructor
  · intro h
    cases h with
    | step hsingle => exact absurd any (ne_true_of_eq_false hsingle)
    | inside _ hsingle => exact absurd anyNext (ne_true_of_eq_false hsingle)
    | again _ _ hlater => exact hlater
  · exact .again any anyNext

lemma finds_directories_iff (any : pattern.isRecursive = true) :
    Finds system [pattern] path trail found ↔
      ∃ names d, (Below system path names d ∧ d.isDirectory = true) ∧
        trail = [.names names] ∧ found = d.path := by
  constructor
  · intro h
    cases h with
    | step hsingle => exact absurd any (ne_true_of_eq_false hsingle)
    | directories _ hstands hdirectory => exact ⟨_, _, ⟨hstands, hdirectory⟩, rfl, rfl⟩
  · rintro ⟨names, d, ⟨hstands, hdirectory⟩, rfl, rfl⟩
    exact .directories any hstands hdirectory

end Components

/-! ### Search -/

section Search

variable {α : Type} (system : FileSystem α)

lemma present_iff {path : String} :
    present system path = true ↔ ∃ tree, system.locate path = .ok tree := by
  rw [present]
  cases system.locate path <;> simp

lemma entriesAt?_eq_some {path : String} {entries : Table (FileTree α)} :
    entriesAt? system path = some entries ↔ system.locate path = .ok (.directory entries) := by
  rw [entriesAt?]
  split
  · next found hfound => simp [hfound]
  · next hnone => exact iff_of_false nofun (hnone entries)

lemma isSome_entriesAt? {path : String} : (entriesAt? system path).isSome = true ↔
    ∃ entries, system.locate path = .ok (.directory entries) := by
  simp only [Option.isSome_iff_exists, entriesAt?_eq_some]

section Steps

variable {pattern : NamePattern} {path : String} {lead : Lead} {next : String}

/-- A component that spells out a name leads there or nowhere. -/
lemma steps_spelled_iff {name : String} (spells : pattern.literal? = some name) :
    Steps system pattern path lead next ↔
      (if dotEntries.contains name then (entriesAt? system path).isSome
        else present system (entryPath path name)) = true ∧
      lead = .names [name] ∧ next = entryPath path name := by
  constructor
  · intro h
    cases h with
    | spelled hspells hplain hstands =>
        obtain rfl := Option.some.inj (spells.symm.trans hspells)
        rw [if_neg (mt List.contains_iff_mem.mp hplain), present_iff]
        exact ⟨⟨_, hstands⟩, rfl, rfl⟩
    | spelledDots hspells hdots hinside =>
        obtain rfl := Option.some.inj (spells.symm.trans hspells)
        rw [if_pos (List.contains_iff_mem.mpr hdots), isSome_entriesAt?]
        exact ⟨⟨_, hinside⟩, rfl, rfl⟩
    | held hwild | itself hwild | around hwild => cases spells.symm.trans hwild
  · rintro ⟨hstands, rfl, rfl⟩
    split at hstands
    · next hdots =>
        obtain ⟨entries, hinside⟩ := (isSome_entriesAt? system).mp hstands
        exact .spelledDots spells (List.contains_iff_mem.mp hdots) hinside
    · next hplain =>
        obtain ⟨tree, htree⟩ := (present_iff system).mp hstands
        exact .spelled spells (mt List.contains_iff_mem.mpr hplain) htree

/-- A component with wildcards leads nowhere outside of directories. -/
lemma not_steps_wild (wild : pattern.literal? = none) (outside : entriesAt? system path = none) :
    ¬ Steps system pattern path lead next := by
  have hnowhere : ∀ entries, system.locate path ≠ .ok (.directory entries) := by
    intro entries hinside
    cases outside.symm.trans ((entriesAt?_eq_some system).mpr hinside)
  intro h
  cases h with
  | spelled hspells | spelledDots hspells => cases wild.symm.trans hspells
  | held _ hinside => exact hnowhere _ hinside
  | itself _ _ hinside | around _ _ hinside => exact hnowhere _ hinside

end Steps

/-! ### Wildcards -/

section Wildcards

variable {pattern : NamePattern} {path : String} {entries : Table (FileTree α)}

/-- The dot entries that a component accepts, each with where it leads. -/
def dotLeads (pattern : NamePattern) : List (Lead × String) :=
  if pattern.startsWithDot then
    [(.around, ".."), (.itself, ".")].filter fun dot => pattern.accepts dot.2
  else []

lemma mem_dotLeads {lead : Lead} {dot : String} :
    (lead, dot) ∈ dotLeads pattern ↔ pattern.startsWithDot = true ∧ pattern.accepts dot = true ∧
      ((lead = .around ∧ dot = "..") ∨ (lead = .itself ∧ dot = ".")) := by
  rw [dotLeads]
  split
  · next h => simp [h, and_comm]
  · next h => simp [h]

lemma dotLeads_ascending (pattern : NamePattern) :
    ((dotLeads pattern).map Prod.fst).Pairwise Lead.Before := by
  rw [dotLeads]
  split
  · refine List.Pairwise.sublist (List.filter_sublist.map Prod.fst) ?_
    exact List.pairwise_pair.mpr .aroundItself
  · exact List.Pairwise.nil

lemma map_snd_dotLeads (pattern : NamePattern) :
    (dotLeads pattern).map Prod.snd =
      if pattern.startsWithDot then dotEntries.filter pattern.accepts else [] := by
  rw [dotLeads]
  split
  · exact (List.filter_map (f := Prod.snd) (p := pattern.accepts)
      (l := [(Lead.around, ".."), (Lead.itself, ".")])).symm
  · rfl

/-- Where a component with wildcards leads in a directory. -/
def wildLeads (pattern : NamePattern) (path : String) (entries : Table (FileTree α)) :
    List (Lead × String) :=
  (dotLeads pattern).map (fun dot => (dot.1, FileTree.inside path dot.2)) ++
    ((FileTree.sortedNames entries).filter pattern.accepts).map fun name =>
      (.names [name], entryPath path name)

lemma wildLeads_ascending (pattern : NamePattern) (path : String)
    (entries : Table (FileTree α)) :
    ((wildLeads pattern path entries).map Prod.fst).Pairwise Lead.Before := by
  rw [wildLeads, List.map_append, List.map_map, List.map_map]
  refine List.pairwise_append.mpr ⟨dotLeads_ascending pattern, ?_, ?_⟩
  · have hheld := (FileTree.sortedNames_ascending entries).filter pattern.accepts
    exact List.pairwise_map.mpr (hheld.imp fun h => .names (List.Lex.rel h))
  · intro lead hlead after hafter
    obtain ⟨⟨lead, dot⟩, hdot, rfl⟩ := List.mem_map.mp hlead
    obtain ⟨name, -, rfl⟩ := List.mem_map.mp hafter
    obtain ⟨-, -, ⟨rfl, -⟩ | ⟨rfl, -⟩⟩ := mem_dotLeads.mp hdot
    · exact .aroundNames
    · exact .itselfNames

lemma mem_wildLeads (wild : pattern.literal? = none)
    (inside : system.locate path = .ok (.directory entries)) {lead : Lead} {next : String} :
    (lead, next) ∈ wildLeads pattern path entries ↔ Steps system pattern path lead next := by
  simp only [wildLeads, List.mem_append, List.mem_map, Prod.mk.injEq, Prod.exists, mem_dotLeads,
    List.mem_filter, FileTree.mem_sortedNames]
  constructor
  · rintro (⟨_, dot, ⟨hdotted, hfits, ⟨rfl, rfl⟩ | ⟨rfl, rfl⟩⟩, rfl, rfl⟩ |
      ⟨name, ⟨hheld, hfits⟩, rfl, rfl⟩)
    · exact .around wild hdotted inside hfits
    · exact .itself wild hdotted inside hfits
    · exact .held wild inside hheld hfits
  · intro h
    cases h with
    | spelled hspells | spelledDots hspells => cases wild.symm.trans hspells
    | @held name other _ hother hheld hfits =>
        obtain rfl : entries = other := FileTree.directory.inj
          (Except.ok.inj (inside.symm.trans hother))
        exact Or.inr ⟨name, ⟨hheld, hfits⟩, rfl, rfl⟩
    | itself _ hdotted _ hfits =>
        exact Or.inl ⟨_, _, ⟨hdotted, hfits, Or.inr ⟨rfl, rfl⟩⟩, rfl, rfl⟩
    | around _ hdotted _ hfits =>
        exact Or.inl ⟨_, _, ⟨hdotted, hfits, Or.inl ⟨rfl, rfl⟩⟩, rfl, rfl⟩

lemma map_snd_wildLeads (wild : pattern.literal? = none)
    (inside : entriesAt? system path = some entries) :
    (wildLeads pattern path entries).map Prod.snd = oneStep system pattern path := by
  simp only [oneStep, wild, inside, wildLeads, ← map_snd_dotLeads, List.map_append, List.map_map]
  rfl

end Wildcards

/-- **One component** leads where the rules say, in order. -/
lemma oneStep_exhausts (pattern : NamePattern) (path : String) :
    Exhausts Lead.Before (Steps system pattern path) (oneStep system pattern path) := by
  cases hspells : pattern.literal? with
  | some name =>
      have hlisted : oneStep system pattern path =
          if (if dotEntries.contains name then (entriesAt? system path).isSome
            else present system (entryPath path name)) then [entryPath path name] else [] := by
        simp only [oneStep, hspells]
        split <;> rfl
      rw [hlisted]
      exact (Exhausts.singleIf _ _ _).congr fun lead next => (steps_spelled_iff system hspells).symm
  | none =>
      cases hentries : entriesAt? system path with
      | none =>
          rw [oneStep, hspells, hentries]
          exact .nothing fun lead next => not_steps_wild system hspells hentries
      | some entries =>
          have hinside := (entriesAt?_eq_some system).mp hentries
          exact ⟨_, wildLeads_ascending pattern path entries,
            fun lead next => mem_wildLeads system hspells hinside,
            map_snd_wildLeads system hspells hentries⟩

/-- What is kept of everything below a path comes in order. -/
lemma descendantsAt_exhausts (keep : FileTree.Descendant → Bool) (path : String) :
    Exhausts Lead.Before
      (fun lead next => ∃ names d,
        (Below system path names d ∧ keep d = true) ∧ lead = .names names ∧ next = d.path)
      (((descendantsAt system path).filter keep).map (·.path)) := by
  have hbelow : Exhausts (List.Lex (· < ·)) (Below system path) (descendantsAt system path) := by
    cases htree : system.locate path with
    | error fault =>
        rw [descendantsAt, htree]
        refine .nothing fun names d => ?_
        rintro ⟨tree, hstands, -⟩
        cases htree.symm.trans hstands
    | ok tree =>
        rw [descendantsAt, htree]
        refine (tree.exhausts_descendants (entryPath path)).congr fun names d => ?_
        simp only [Below, htree, Except.ok.injEq, exists_eq_left']
  exact (hbelow.filter keep).map _ .names

section Cases

variable {pattern next : NamePattern} {rest : List NamePattern}

/-- The search lists the paths at the end of all trails through some components. -/
def FindsAll (components : List NamePattern) : Prop :=
  ∀ path, Exhausts (List.Lex Lead.Before) (Finds system components path)
    (searchFrom system components path)

/-- A component that is not recursive is followed step by step. -/
lemma searchFrom_step (single : pattern.isRecursive = false) (path : String) :
    searchFrom system (pattern :: rest) path =
      (oneStep system pattern path).flatMap (searchFrom system rest) := by
  cases rest with
  | nil =>
      rw [searchFrom, if_neg (ne_true_of_eq_false single)]
      exact (List.flatMap_singleton' _).symm
  | cons next rest => rw [searchFrom, if_neg (ne_true_of_eq_false single)]

lemma findsAll_step (single : pattern.isRecursive = false)
    (later : FindsAll system rest) : FindsAll system (pattern :: rest) := by
  intro path
  rw [searchFrom_step system single]
  refine ((oneStep_exhausts system pattern path).flatMap later).congr fun trail found => ?_
  rw [finds_step_iff single]

lemma findsAll_directories (any : pattern.isRecursive = true) : FindsAll system [pattern] := by
  intro path
  rw [searchFrom, if_pos any, ← List.flatMap_singleton' (List.map _ _)]
  refine ((descendantsAt_exhausts system (·.isDirectory) path).flatMap
    (.single [])).congr fun trail found => ?_
  rw [finds_directories_iff any]
  constructor
  · rintro ⟨_, _, _, ⟨names, d, hd, rfl, rfl⟩, rfl, rfl, rfl⟩
    exact ⟨names, d, hd, rfl, rfl⟩
  · rintro ⟨names, d, hd, rfl, rfl⟩
    exact ⟨_, _, [], ⟨names, d, hd, rfl, rfl⟩, rfl, rfl, rfl⟩

lemma findsAll_inside (any : pattern.isRecursive = true) (single : next.isRecursive = false)
    (later : FindsAll system rest) : FindsAll system (pattern :: next :: rest) := by
  intro path
  rw [searchFrom, if_pos any, if_neg (ne_true_of_eq_false single),
    ← List.flatMap_map (fun d : FileTree.Descendant => d.path)]
  refine ((descendantsAt_exhausts system (fun d => next.accepts d.name) path).flatMap
    later).congr fun trail found => ?_
  rw [finds_inside_iff any single]
  constructor
  · rintro ⟨_, _, later, ⟨names, d, hd, rfl, rfl⟩, rfl, hlater⟩
    exact ⟨names, d, later, hd, rfl, hlater⟩
  · rintro ⟨names, d, later, hd, rfl, hlater⟩
    exact ⟨_, _, later, ⟨names, d, hd, rfl, rfl⟩, rfl, hlater⟩

end Cases

/-- **The paths at the end of all trails** through some components are listed, in the order
of the trails. -/
lemma findsAll : ∀ components : List NamePattern, FindsAll system components
  | [] => fun path => (Exhausts.single [] path).congr fun _ _ => finds_nil_iff.symm
  | [pattern] => by
      cases hpattern : pattern.isRecursive with
      | false => exact findsAll_step system hpattern (findsAll [])
      | true => exact findsAll_directories system hpattern
  | pattern :: next :: rest => by
      cases hpattern : pattern.isRecursive with
      | false => exact findsAll_step system hpattern (findsAll (next :: rest))
      | true =>
          cases hnext : next.isRecursive with
          | false => exact findsAll_inside system hpattern hnext (findsAll rest)
          | true =>
              intro path
              -- of several recursive components in a row, the last one does the work
              rw [searchFrom, if_pos hpattern, if_pos hnext]
              exact (findsAll (next :: rest) path).congr fun _ _ =>
                (finds_again_iff hpattern hnext).symm

/-- **The search lists what a pattern matches**, all of it and in order. -/
lemma lists_search (glob : Glob) : glob.Lists system (glob.search system) := by
  refine ((findsAll system glob.components glob.start).filter _).congr
    fun trail path => and_congr_right fun _ => ?_
  rw [Bool.or_eq_true, Bool.not_eq_true', isSome_entriesAt?]
  cases glob.directoriesOnly <;> simp

end Search

end Glob

end JsonTypes
