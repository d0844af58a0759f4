/-
The paths that inputs stand for.

An input without the characters of patterns is the path of a file. Any other input is a
pattern, and stands for what a search comes across: at least one path, and nothing else. The
search belongs to the surroundings of a run. What is promised of it is that it lists all
paths that the pattern matches, in order.

* `Files.Matches`, `Files.Misses`: the paths that an input stands for, or why it stands for
  none; `Files.resolve_ok_iff`, `Files.resolve_fails_iff`: they are the ones that are used.
* `Files.Searches`: the promise, for a file system in which every directory can be read;
  `Files.Searches.matches_iff`, `Files.Searches.misses_iff`: what a pattern stands for then.
* `Files.searches_ofSystem`: a file system keeps the promise.
-/
import JsonTypes.CommandLine.Documents
import JsonTypes.Proofs.PathSearch
import JsonTypes.Proofs.Traces

namespace JsonTypes

namespace CommandLine

/-! ### Inputs -/

/-- The paths that an input stands for: a path for itself, a pattern for all paths that the
search comes across, one at least, in the order of the search. -/
inductive Files.Matches (files : Files) : String → List String → Prop where
  | path {input : String} (plain : Glob.isPattern input = false) : Matches files input [input]
  | pattern {input : String} {paths : List String} (shaped : Glob.isPattern input = true)
      (found : files.search input = .ok (paths.map .ok)) (some : paths ≠ []) :
      Matches files input paths

/-- What keeps an input from standing for paths. -/
inductive Files.Misses (files : Files) (input : String) : Prop where
  | malformed (shaped : Glob.isPattern input = true) (fails : Fails (files.search input))
  | blocked {entries : List (Except SearchFault String)} {fault : SearchFault}
      (shaped : Glob.isPattern input = true) (found : files.search input = .ok entries)
      (unread : .error fault ∈ entries)
  | unmatched (shaped : Glob.isPattern input = true) (found : files.search input = .ok [])

section Matches

variable {files : Files} {input : String} {paths : List String}

lemma mapM_id_ok {ε α : Type} {entries : List (Except ε α)} {found : List α} :
    entries.mapM id = .ok found ↔ entries = found.map .ok := by
  simp only [except_mapM_ok, id_eq]
  constructor
  · intro h
    induction h with
    | nil => rfl
    | cons hentry _ ih => rw [List.map_cons, hentry, ih]
  · rintro rfl
    exact List.forall₂_map_left_iff.mpr (List.forall₂_same.mpr fun _ _ => rfl)

lemma fails_mapM_id {ε α : Type} {entries : List (Except ε α)} :
    Fails (entries.mapM id) ↔ ∃ error, .error error ∈ entries := by
  rw [fails_mapM]
  constructor
  · rintro ⟨_, hentry, error, rfl⟩
    exact ⟨error, hentry⟩
  · rintro ⟨error, hentry⟩
    exact ⟨_, hentry, error, rfl⟩

section AtLeastOne

variable {α : Type} {failure : Failure} {found items : List α}

lemma atLeastOne_ok_iff : atLeastOne failure found = .ok items ↔ found = items ∧ items ≠ [] := by
  cases found with
  | nil => exact ⟨nofun, fun ⟨hnil, hsome⟩ => absurd hnil.symm hsome⟩
  | cons first later =>
      show Except.ok (first :: later) = Except.ok items ↔ _
      rw [Except.ok.injEq]
      exact ⟨fun h => ⟨h, h ▸ List.cons_ne_nil first later⟩, And.left⟩

lemma atLeastOne_fails_iff : Fails (atLeastOne failure found) ↔ found = [] := by
  cases found with
  | nil => exact ⟨fun _ => rfl, fun _ => fails_error _⟩
  | cons first later => exact ⟨fun h => absurd h (not_fails_ok _), nofun⟩

end AtLeastOne

lemma Files.resolve_pattern (shaped : Glob.isPattern input = true) :
    files.resolve input = (files.search input).mapError .malformedPattern >>= fun entries =>
      (entries.mapM id).mapError .failedSearch >>= atLeastOne (.noMatch input) := by
  rw [resolve, if_pos shaped]

lemma Files.resolve_ok_iff : files.resolve input = .ok paths ↔ files.Matches input paths := by
  constructor
  · intro h
    cases hshaped : Glob.isPattern input with
    | true =>
        simp only [resolve_pattern hshaped, except_bind_ok, except_mapError_ok, mapM_id_ok,
          atLeastOne_ok_iff] at h
        obtain ⟨_, hfound, _, rfl, rfl, hsome⟩ := h
        exact .pattern hshaped hfound hsome
    | false =>
        rw [resolve, hshaped, if_neg Bool.false_ne_true] at h
        obtain rfl := Except.ok.inj h
        exact .path hshaped
  · intro h
    cases h with
    | path hplain => rw [resolve, hplain, if_neg Bool.false_ne_true]
    | pattern hshaped hfound hsome =>
        simp only [resolve_pattern hshaped, except_bind_ok, except_mapError_ok, mapM_id_ok,
          atLeastOne_ok_iff]
        exact ⟨_, hfound, paths, rfl, rfl, hsome⟩

lemma Files.resolve_fails_iff : Fails (files.resolve input) ↔ files.Misses input := by
  cases hshaped : Glob.isPattern input with
  | true =>
      simp only [resolve_pattern hshaped, fails_bind, fails_mapError, except_mapError_ok,
        fails_mapM_id, mapM_id_ok, atLeastOne_fails_iff]
      constructor
      · rintro (hfails | ⟨entries, hfound, ⟨fault, hfault⟩ | ⟨_, rfl, rfl⟩⟩)
        · exact .malformed hshaped hfails
        · exact .blocked hshaped hfound hfault
        · exact .unmatched hshaped hfound
      · intro h
        cases h with
        | malformed _ hfails => exact Or.inl hfails
        | blocked _ hfound hfault => exact Or.inr ⟨_, hfound, Or.inl ⟨_, hfault⟩⟩
        | unmatched _ hfound => exact Or.inr ⟨_, hfound, Or.inr ⟨[], rfl, rfl⟩⟩
  | false =>
      rw [resolve, hshaped, if_neg Bool.false_ne_true]
      refine iff_of_false (not_fails_ok _) fun h => ?_
      cases h with
      | malformed h | blocked h | unmatched h => cases hshaped.symm.trans h

end Matches

/-- What a search promises that can read every directory of a file system: a text that is no
pattern is refused, and a pattern leads to the paths that it matches, all of them and in
order. -/
structure Files.Searches {α : Type} (files : Files) (system : FileSystem α) : Prop where
  refuses : ∀ text, Fails (Glob.ofText text) → Fails (files.search text)
  lists : ∀ text glob, Glob.ofText text = .ok glob →
    ∃ paths, files.search text = .ok (paths.map .ok) ∧ glob.Lists system paths

section Searches

variable {α : Type} {files : Files} {system : FileSystem α} {input : String}

/-- **A pattern stands for the paths that it matches**, one at least. -/
lemma Files.Searches.matches_iff (h : files.Searches system)
    (shaped : Glob.isPattern input = true) {paths : List String} :
    files.Matches input paths ↔
      ∃ glob, Glob.ofText input = .ok glob ∧ glob.Lists system paths ∧ paths ≠ [] := by
  constructor
  · intro hmatches
    cases hmatches with
    | path hplain => cases hplain.symm.trans shaped
    | pattern _ hfound hsome =>
        cases hglob : Glob.ofText input with
        | error e => exact absurd hfound (h.refuses input ⟨e, hglob⟩).ne_ok
        | ok glob =>
            obtain ⟨listed, hsearch, hlists⟩ := h.lists input glob hglob
            have hsame : listed = paths := List.map_injective_iff.mpr (fun _ _ => Except.ok.inj)
              (Except.ok.inj (hsearch.symm.trans hfound))
            exact ⟨glob, rfl, hsame ▸ hlists, hsome⟩
  · rintro ⟨glob, hglob, hlists, hsome⟩
    obtain ⟨listed, hsearch, hlisted⟩ := h.lists input glob hglob
    exact .pattern shaped (hlists.unique hlisted ▸ hsearch) hsome

/-- **A pattern stands for nothing** if it is malformed or matches nothing. -/
lemma Files.Searches.misses_iff (h : files.Searches system)
    (shaped : Glob.isPattern input = true) :
    files.Misses input ↔ Fails (Glob.ofText input) ∨
      ∃ glob, Glob.ofText input = .ok glob ∧ glob.Lists system [] := by
  cases hglob : Glob.ofText input with
  | error e =>
      exact iff_of_true (.malformed shaped (h.refuses input ⟨e, hglob⟩)) (Or.inl (fails_error e))
  | ok glob =>
      obtain ⟨listed, hsearch, hlists⟩ := h.lists input glob hglob
      constructor
      · intro hmisses
        cases hmisses with
        | malformed _ hfails => exact absurd hsearch hfails.ne_ok
        | blocked _ hfound hfault =>
            obtain rfl := Except.ok.inj (hsearch.symm.trans hfound)
            obtain ⟨path, -, hpath⟩ := List.mem_map.mp hfault
            cases hpath
        | unmatched _ hfound =>
            obtain rfl := List.map_eq_nil_iff.mp (Except.ok.inj (hsearch.symm.trans hfound))
            exact Or.inr ⟨glob, rfl, hlists⟩
      · rintro (hfails | ⟨_, hsame, hnone⟩)
        · exact absurd hfails (not_fails_ok _)
        · obtain rfl := Except.ok.inj hsame
          obtain rfl := hlists.unique hnone
          exact .unmatched shaped hsearch

/-- A file system keeps the promise. -/
lemma Files.searches_ofSystem (system : FileSystem ByteArray) :
    (Files.ofSystem system).Searches system where
  refuses text h := by
    obtain ⟨e, he⟩ := h
    exact ⟨e, congrArg (Except.map _) he⟩
  lists text glob h := ⟨glob.search system, congrArg (Except.map _) h, glob.lists_search system⟩

end Searches

end CommandLine

end JsonTypes
