/-
The documents of inputs.

Which documents a run checks is described here by rules, from the inputs down to the outputs
of a filter: every input stands for paths, every file holds texts of documents, every text
is read, focused and filtered. All of it succeeds, and the documents come in the order of
the inputs, or one step fails anywhere, and then there are none.

* `Filter.Prints`, `Filter.Spoils`: the document of an output, or why it is none;
  `Filter.documents_ok_iff`, `Filter.documents_fails_iff`: the documents of all outputs.
* `Inputs.Selects`, `Inputs.Withholds`: the documents of a value, pointer first.
* `Inputs.Holds`, `Inputs.Spoils`: the documents of the text of a file, as a whole or line by
  line.
* `Inputs.Gathers`: the documents of all inputs.
* `Inputs.load_ok_iff`, `Inputs.load_fails_iff`: the documents that are loaded.
-/
import JsonTypes.Proofs.ResolvedInputs
import JsonTypes.Proofs.TextLines

namespace JsonTypes

/-! ### Outputs -/

namespace Filter

/-- An output of a filter is the text of a value. -/
def Prints (output : Except String String) (v : Json) : Prop :=
  ∃ text, output = .ok text ∧ Json.ofText Json.nestingLimit text = .ok v

/-- What keeps an output of a filter from being a document. -/
inductive Spoils : Except String String → Prop where
  | error (error : String) : Spoils (.error error)
  | notJson {text : String} (fails : Fails (Json.ofText Json.nestingLimit text)) :
      Spoils (.ok text)

lemma readOutputs_ok_iff {position : ℕ} {outputs : List (Except String String)}
    {values : List Json} :
    readOutputs position outputs = .ok values ↔ List.Forall₂ Prints outputs values := by
  induction outputs generalizing position values with
  | nil => simp [readOutputs, eq_comm]
  | cons output outputs ih =>
      rw [List.forall₂_cons_left_iff]
      cases output with
      | error error =>
          refine iff_of_false nofun ?_
          rintro ⟨_, _, ⟨text, htext, -⟩, -⟩
          cases htext
      | ok text =>
          simp only [readOutputs, except_bind_ok, except_mapError_ok, ih, pure, Except.pure,
            Except.ok.injEq]
          constructor
          · rintro ⟨v, hv, later, hlater, rfl⟩
            exact ⟨v, later, ⟨text, rfl, hv⟩, hlater, rfl⟩
          · rintro ⟨v, later, ⟨_, hsame, hv⟩, hlater, rfl⟩
            obtain rfl := Except.ok.inj hsame
            exact ⟨v, hv, later, hlater, rfl⟩

lemma readOutputs_fails_iff {position : ℕ} {outputs : List (Except String String)} :
    Fails (readOutputs position outputs) ↔ ∃ output ∈ outputs, Spoils output := by
  induction outputs generalizing position with
  | nil => simp [readOutputs]
  | cons output outputs ih =>
      rw [List.exists_mem_cons_iff]
      cases output with
      | error error => exact iff_of_true (fails_error _) (Or.inl (.error error))
      | ok text =>
          simp only [readOutputs, fails_bind, fails_mapError, except_mapError_ok, ih, pure,
            Except.pure, not_fails_ok, and_false, exists_false, or_false]
          constructor
          · rintro (hfails | ⟨v, hv, hlater⟩)
            · exact Or.inl (.notJson hfails)
            · exact Or.inr hlater
          · rintro (hspoils | hlater)
            · cases hspoils with
              | notJson hfails => exact Or.inl hfails
            · -- the output is not reached where this one has failed already
              by_cases hfails : Fails (Json.ofText Json.nestingLimit text)
              · exact Or.inl hfails
              · exact Or.inr ((not_fails_iff.mp hfails).imp fun v hv => ⟨hv, hlater⟩)

variable {filter : Filter} {v : Json}

/-- **Every output is a document**, in order, and nothing else is one. -/
lemma documents_ok_iff {values : List Json} :
    filter.documents v = .ok values ↔ List.Forall₂ Prints (filter.outputs v) values :=
  readOutputs_ok_iff

/-- **A single output that is none** leaves no documents. -/
lemma documents_fails_iff :
    Fails (filter.documents v) ↔ ∃ output ∈ filter.outputs v, Spoils output :=
  readOutputs_fails_iff

end Filter

namespace CommandLine

namespace Inputs

variable {inputs : Inputs}

/-! ### Values -/

/-- The part of a value that is looked at: the value itself, or what stands at the
pointer. -/
inductive Focuses (inputs : Inputs) (v : Json) : Json → Prop where
  | whole (unasked : inputs.pointer = none) : Focuses inputs v v
  | part {text : String} {pointer : Pointer} {w : Json} (asked : inputs.pointer = some text)
      (reads : Pointer.ofText? text = some pointer) (stands : v.at? pointer = some w) :
      Focuses inputs v w

/-- The documents that the part yields: itself under its label, or one for every output of
the filter, in order, the labels counted from zero. -/
inductive Yields (inputs : Inputs) (files : Files) (label : String) (part : Json) :
    List Document → Prop where
  | single (unasked : inputs.filter = none) : Yields inputs files label part [⟨label, part⟩]
  | outputs {text : String} {filter : Filter} {values : List Json}
      (asked : inputs.filter = some text) (compiles : files.compile text = .ok filter)
      (each : List.Forall₂ Filter.Prints (filter.outputs part) values) :
      Yields inputs files label part (values.mapIdx fun k w => ⟨s!"{label}#{k}", w⟩)

/-- The documents of a value: first the pointer, then the filter. -/
def Selects (inputs : Inputs) (files : Files) (label : String) (v : Json)
    (docs : List Document) : Prop :=
  ∃ part, inputs.Focuses v part ∧ inputs.Yields files label part docs

/-- What keeps a value from yielding documents. -/
inductive Withholds (inputs : Inputs) (files : Files) (v : Json) : Prop where
  | pointer {text : String} (asked : inputs.pointer = some text)
      (nothing : ∀ pointer, Pointer.ofText? text = some pointer → v.at? pointer = none)
  | filter {text : String} (asked : inputs.filter = some text)
      (fails : Fails (files.compile text))
  | output {text : String} {filter : Filter} {part : Json} {output : Except String String}
      (focuses : inputs.Focuses v part) (asked : inputs.filter = some text)
      (compiles : files.compile text = .ok filter) (stands : output ∈ filter.outputs part)
      (spoils : Filter.Spoils output)

section Values

variable {files : Files} {label : String} {v : Json}

lemma focus_ok_iff {part : Json} : inputs.focus label v = .ok part ↔ inputs.Focuses v part := by
  constructor
  · intro h
    rw [focus] at h
    split at h
    · next hasked =>
        obtain rfl := Except.ok.inj h
        exact .whole hasked
    · next text hasked =>
        split at h
        · next w hw =>
            obtain rfl := Except.ok.inj h
            obtain ⟨pointer, hreads, hstands⟩ := Option.bind_eq_some_iff.mp hw
            exact .part hasked hreads hstands
        · cases h
  · intro h
    cases h with
    | whole hasked => rw [focus, hasked]
    | part hasked hreads hstands =>
        simp only [focus, hasked, hreads, Option.bind_some, hstands]

lemma focus_fails_iff : Fails (inputs.focus label v) ↔
    ∃ text, inputs.pointer = some text ∧
      ∀ pointer, Pointer.ofText? text = some pointer → v.at? pointer = none := by
  rw [focus]
  cases inputs.pointer with
  | none => simp
  | some text =>
      simp only [Option.some.injEq, exists_eq_left']
      split
      · next w hw =>
          obtain ⟨pointer, hreads, hstands⟩ := Option.bind_eq_some_iff.mp hw
          refine ⟨fun h => absurd h (not_fails_ok _), fun h => ?_⟩
          cases hstands.symm.trans (h pointer hreads)
      · next hnone =>
          exact ⟨fun _ => Option.bind_eq_none_iff.mp hnone, fun _ => fails_error _⟩

lemma documentsOf_ok_iff {part : Json} {docs : List Document} :
    inputs.documentsOf files label part = .ok docs ↔ inputs.Yields files label part docs := by
  constructor
  · intro h
    rw [documentsOf] at h
    split at h
    · next hasked =>
        obtain rfl := Except.ok.inj h
        exact .single hasked
    · next text hasked =>
        simp only [except_bind_ok, except_mapError_ok, Filter.documents_ok_iff] at h
        obtain ⟨filter, hcompiles, values, heach, h⟩ := h
        obtain rfl := Except.ok.inj h
        exact .outputs hasked hcompiles heach
  · intro h
    cases h with
    | single hasked => rw [documentsOf, hasked]
    | outputs hasked hcompiles heach =>
        simp only [documentsOf, hasked, except_bind_ok, except_mapError_ok,
          Filter.documents_ok_iff]
        exact ⟨_, hcompiles, _, heach, rfl⟩

lemma documentsOf_fails_iff {part : Json} : Fails (inputs.documentsOf files label part) ↔
    ∃ text, inputs.filter = some text ∧ (Fails (files.compile text) ∨
      ∃ filter, files.compile text = .ok filter ∧
        ∃ output ∈ filter.outputs part, Filter.Spoils output) := by
  rw [documentsOf]
  cases inputs.filter with
  | none => simp
  | some text =>
      simp only [fails_bind, fails_mapError, except_mapError_ok, Filter.documents_fails_iff, pure,
        Except.pure, not_fails_ok, and_false, exists_false, or_false, Option.some.injEq,
        exists_eq_left']

lemma select_ok_iff {docs : List Document} :
    inputs.select files label v = .ok docs ↔ inputs.Selects files label v docs := by
  simp only [select, except_bind_ok, focus_ok_iff, documentsOf_ok_iff, Selects]

/-- A value fails to yield documents at the pointer or at the filter. -/
lemma select_fails_iff : Fails (inputs.select files label v) ↔ inputs.Withholds files v := by
  simp only [select, fails_bind, focus_ok_iff, focus_fails_iff, documentsOf_fails_iff]
  constructor
  · rintro (⟨text, hasked, hnothing⟩ |
      ⟨part, hpart, text, hasked, hfails | ⟨filter, hcompiles, output, hstands, hspoils⟩⟩)
    · exact .pointer hasked hnothing
    · exact .filter hasked hfails
    · exact .output hpart hasked hcompiles hstands hspoils
  · intro h
    cases h with
    | @pointer text hasked hnothing => exact Or.inl ⟨text, hasked, hnothing⟩
    | @filter text hasked hfails =>
        -- the filter is not reached where the pointer has failed already
        by_cases hfocus : Fails (inputs.focus label v)
        · exact Or.inl (focus_fails_iff.mp hfocus)
        · obtain ⟨part, hpart⟩ := not_fails_iff.mp hfocus
          exact Or.inr ⟨part, focus_ok_iff.mp hpart, text, hasked, Or.inl hfails⟩
    | @output text filter part output hpart hasked hcompiles hstands hspoils =>
        exact Or.inr
          ⟨part, hpart, text, hasked, Or.inr ⟨filter, hcompiles, output, hstands, hspoils⟩⟩

end Values

/-! ### Texts -/

/-- The documents of the text of a file: those of the text as a whole, under the path, or
those of every line that is not blank, in the order of the lines, under the path and the
number of the line among all lines. -/
inductive Holds (inputs : Inputs) (files : Files) (path text : String) :
    List Document → Prop where
  | whole {v : Json} {docs : List Document} (atOnce : inputs.ndjson = false)
      (reads : Json.ofText Json.nestingLimit text = .ok v)
      (selects : inputs.Selects files path v docs) : Holds inputs files path text docs
  | lines {numbered : List (ℕ × String)} {parts : List (List Document)}
      (byLine : inputs.ndjson = true) (numbers : NumbersLines text numbered)
      (each : List.Forall₂ (fun line docs => ∃ v, Json.ofText Json.nestingLimit line.2 = .ok v ∧
        inputs.Selects files s!"{path}:{line.1}" v docs) numbered parts) :
      Holds inputs files path text parts.flatten

/-- What keeps the text of a file from holding documents: all of it, or any line. -/
inductive Spoils (inputs : Inputs) (files : Files) (text : String) : Prop where
  | document (atOnce : inputs.ndjson = false)
      (fails : Fails (Json.ofText Json.nestingLimit text))
  | selection {v : Json} (atOnce : inputs.ndjson = false)
      (reads : Json.ofText Json.nestingLimit text = .ok v) (fails : inputs.Withholds files v)
  | line {number : ℕ} {line : String} (byLine : inputs.ndjson = true)
      (stands : LineAt text number line) (filled : isBlankText line = false)
      (fails : Fails (Json.ofText Json.nestingLimit line))
  | lineSelection {number : ℕ} {line : String} {v : Json} (byLine : inputs.ndjson = true)
      (stands : LineAt text number line) (filled : isBlankText line = false)
      (reads : Json.ofText Json.nestingLimit line = .ok v) (fails : inputs.Withholds files v)

section Texts

variable {files : Files} {path text : String}

/-- The labels of lines are made of their numbers. -/
lemma labelledLines_eq (path text : String) :
    labelledLines path text =
      (numberedLines text).map fun line => (s!"{path}:{line.1}", line.2) := by
  have hlabels : (lines text).mapIdx (fun i line => (s!"{path}:{i + 1}", line)) =
      ((lines text).mapIdx fun i line => (i + 1, line)).map
        fun line => (s!"{path}:{line.1}", line.2) := by
    refine List.ext_getElem? fun i => ?_
    cases h : (lines text)[i]? <;> simp [h]
  rw [labelledLines, hlabels, List.filter_map]
  rfl

lemma loadLine_ok_iff {line : String × String} {docs : List Document} :
    inputs.loadLine files line = .ok docs ↔
      ∃ v, Json.ofText Json.nestingLimit line.2 = .ok v ∧ inputs.Selects files line.1 v docs := by
  simp only [loadLine, except_bind_ok, except_mapError_ok, select_ok_iff]

lemma loadLine_fails_iff {line : String × String} :
    Fails (inputs.loadLine files line) ↔ Fails (Json.ofText Json.nestingLimit line.2) ∨
      ∃ v, Json.ofText Json.nestingLimit line.2 = .ok v ∧ inputs.Withholds files v := by
  simp only [loadLine, fails_bind, fails_mapError, except_mapError_ok, select_fails_iff]

lemma loadText_ok_iff {docs : List Document} :
    inputs.loadText files path text = .ok docs ↔ inputs.Holds files path text docs := by
  constructor
  · intro h
    rw [loadText] at h
    split at h
    · next hlines =>
        simp only [except_bind_ok, except_mapM_ok, labelledLines_eq, List.forall₂_map_left_iff,
          loadLine_ok_iff, pure, Except.pure, Except.ok.injEq] at h
        obtain ⟨parts, heach, rfl⟩ := h
        exact .lines hlines (numbersLines_numberedLines text) heach
    · next hwhole =>
        simp only [except_bind_ok, except_mapError_ok, select_ok_iff] at h
        obtain ⟨v, hreads, hselects⟩ := h
        exact .whole (eq_false_of_ne_true hwhole) hreads hselects
  · intro h
    cases h with
    | whole hwhole hreads hselects =>
        rw [loadText, hwhole, if_neg Bool.false_ne_true, except_bind_ok]
        exact ⟨_, except_mapError_ok.mpr hreads, select_ok_iff.mpr hselects⟩
    | lines hlines hnumbers heach =>
        rw [loadText, if_pos hlines, except_bind_ok]
        refine ⟨_, except_mapM_ok.mpr ?_, rfl⟩
        rw [labelledLines_eq, numbersLines_iff.mp hnumbers, List.forall₂_map_left_iff]
        simpa only [loadLine_ok_iff] using heach

/-- The text of a file fails as a whole, or at any of its lines. -/
lemma loadText_fails_iff : Fails (inputs.loadText files path text) ↔ inputs.Spoils files text := by
  have hnumbers := (numbersLines_numberedLines text).mem_iff
  have hlines : Fails ((labelledLines path text).mapM (inputs.loadLine files)) ↔
      ∃ number line, (LineAt text number line ∧ isBlankText line = false) ∧
        (Fails (Json.ofText Json.nestingLimit line) ∨
          ∃ v, Json.ofText Json.nestingLimit line = .ok v ∧ inputs.Withholds files v) := by
    simp only [fails_mapM, labelledLines_eq, List.mem_map, exists_exists_and_eq_and,
      loadLine_fails_iff]
    simp only [Prod.exists, hnumbers]
  constructor
  · intro h
    rw [loadText] at h
    split at h
    · next hmode =>
        simp only [fails_bind, hlines, pure, Except.pure, not_fails_ok, and_false, exists_false,
          or_false] at h
        obtain ⟨number, line, ⟨hstands, hfilled⟩, hfails | ⟨v, hreads, hfails⟩⟩ := h
        · exact .line hmode hstands hfilled hfails
        · exact .lineSelection hmode hstands hfilled hreads hfails
    · next hmode =>
        simp only [fails_bind, fails_mapError, except_mapError_ok, select_fails_iff] at h
        rcases h with hfails | ⟨v, hreads, hfails⟩
        · exact .document (eq_false_of_ne_true hmode) hfails
        · exact .selection (eq_false_of_ne_true hmode) hreads hfails
  · intro h
    cases h with
    | document hmode hfails =>
        rw [loadText, hmode, if_neg Bool.false_ne_true, fails_bind, fails_mapError]
        exact Or.inl hfails
    | selection hmode hreads hfails =>
        rw [loadText, hmode, if_neg Bool.false_ne_true, fails_bind]
        exact Or.inr ⟨_, except_mapError_ok.mpr hreads, select_fails_iff.mpr hfails⟩
    | line hmode hstands hfilled hfails =>
        rw [loadText, if_pos hmode, fails_bind, hlines]
        exact Or.inl ⟨_, _, ⟨hstands, hfilled⟩, Or.inl hfails⟩
    | lineSelection hmode hstands hfilled hreads hfails =>
        rw [loadText, if_pos hmode, fails_bind, hlines]
        exact Or.inl ⟨_, _, ⟨hstands, hfilled⟩, Or.inr ⟨_, hreads, hfails⟩⟩

end Texts

/-! ### Runs -/

/-- The documents of all inputs: input by input the paths, path by path the documents. -/
def Gathers (inputs : Inputs) (files : Files) (docs : List Document) : Prop :=
  ∃ paths parts, List.Forall₂ files.Matches inputs.paths paths ∧
    List.Forall₂ (fun path docs => ∃ text, files.read path = .ok text ∧
      inputs.Holds files path text docs) paths.flatten parts ∧
    docs = parts.flatten

/-- What keeps a file from holding documents. -/
def Lacks (inputs : Inputs) (files : Files) (path : String) : Prop :=
  Fails (files.read path) ∨ ∃ text, files.read path = .ok text ∧ inputs.Spoils files text

section Runs

variable {files : Files}

lemma resolve_ok_iff {paths : List String} :
    inputs.resolve files = .ok paths ↔
      ∃ found, List.Forall₂ files.Matches inputs.paths found ∧ found.flatten = paths := by
  simp only [resolve, except_bind_ok, except_mapM_ok, Files.resolve_ok_iff, pure, Except.pure,
    Except.ok.injEq]

lemma loadFile_ok_iff {path : String} {docs : List Document} :
    inputs.loadFile files path = .ok docs ↔
      ∃ text, files.read path = .ok text ∧ inputs.Holds files path text docs := by
  simp only [loadFile, except_bind_ok, except_mapError_ok, loadText_ok_iff]

lemma loadFile_fails_iff {path : String} :
    Fails (inputs.loadFile files path) ↔ inputs.Lacks files path := by
  simp only [loadFile, fails_bind, fails_mapError, except_mapError_ok, loadText_fails_iff, Lacks]

/-- The documents of all inputs, also if there is none. -/
def gather (inputs : Inputs) (files : Files) : Except Failure (List Document) := do
  let paths ← inputs.resolve files
  let parts ← paths.mapM (inputs.loadFile files)
  pure parts.flatten

lemma gather_ok_iff {docs : List Document} :
    inputs.gather files = .ok docs ↔ inputs.Gathers files docs := by
  simp only [gather, except_bind_ok, resolve_ok_iff, except_mapM_ok, loadFile_ok_iff, pure,
    Except.pure, Except.ok.injEq]
  constructor
  · rintro ⟨_, ⟨paths, hpaths, rfl⟩, parts, hparts, rfl⟩
    exact ⟨paths, parts, hpaths, hparts, rfl⟩
  · rintro ⟨paths, parts, hpaths, hparts, rfl⟩
    exact ⟨_, ⟨paths, hpaths, rfl⟩, parts, hparts, rfl⟩

/-- An input or a file that fails is enough, wherever it stands. -/
lemma gather_fails_iff : Fails (inputs.gather files) ↔
    (∃ input ∈ inputs.paths, files.Misses input) ∨
      ∃ input ∈ inputs.paths, ∃ paths, files.Matches input paths ∧
        ∃ path ∈ paths, inputs.Lacks files path := by
  simp only [gather, resolve, fails_bind, fails_mapM, Files.resolve_fails_iff, loadFile_fails_iff,
    except_bind_ok, except_mapM_ok, Files.resolve_ok_iff, pure, Except.pure, not_fails_ok,
    and_false, exists_false, or_false, Except.ok.injEq]
  constructor
  · rintro (hmisses | ⟨_, ⟨found, hfound, rfl⟩, path, hpath, hlacks⟩)
    · exact Or.inl hmisses
    · obtain ⟨paths, hpaths, hpath⟩ := List.mem_flatten.mp hpath
      obtain ⟨input, hinput, hmatches⟩ := (members_related hfound).2 paths hpaths
      exact Or.inr ⟨input, hinput, paths, hmatches, path, hpath, hlacks⟩
  · rintro (hmisses | ⟨input, hinput, paths, hmatches, path, hpath, hlacks⟩)
    · exact Or.inl hmisses
    · -- the file is not reached where an input has failed already
      by_cases hresolve : Fails (inputs.paths.mapM files.resolve)
      · exact Or.inl (by simpa only [fails_mapM, Files.resolve_fails_iff] using hresolve)
      · obtain ⟨found, hfound⟩ := not_fails_iff.mp hresolve
        obtain ⟨paths', hpaths', hsame⟩ :=
          (members_related (except_mapM_ok.mp hfound)).1 input hinput
        obtain rfl : paths' = paths :=
          Except.ok.inj (hsame.symm.trans (Files.resolve_ok_iff.mpr hmatches))
        simp only [except_mapM_ok, Files.resolve_ok_iff] at hfound
        exact Or.inr ⟨_, ⟨found, hfound, rfl⟩, path,
          List.mem_flatten.mpr ⟨_, hpaths', hpath⟩, hlacks⟩

lemma load_eq (inputs : Inputs) (files : Files) :
    inputs.load files = inputs.gather files >>= atLeastOne .noDocuments := by
  rw [load, gather, bind_assoc]
  refine congrArg (inputs.resolve files >>= ·) (funext fun paths => ?_)
  rw [bind_assoc]
  rfl

/-- **The documents load** as the rules say, one at least. -/
lemma load_ok_iff {docs : List Document} :
    inputs.load files = .ok docs ↔ inputs.Gathers files docs ∧ docs ≠ [] := by
  simp only [load_eq, except_bind_ok, gather_ok_iff, atLeastOne_ok_iff]
  constructor
  · rintro ⟨_, hgathers, rfl, hsome⟩
    exact ⟨hgathers, hsome⟩
  · rintro ⟨hgathers, hsome⟩
    exact ⟨docs, hgathers, rfl, hsome⟩

/-- The documents fail to load at an input, at a file, or because there is none. -/
lemma load_fails_iff : Fails (inputs.load files) ↔
    Fails (inputs.gather files) ∨ inputs.Gathers files [] := by
  simp only [load_eq, fails_bind, atLeastOne_fails_iff, gather_ok_iff, exists_eq_right]

end Runs

end Inputs

end CommandLine

end JsonTypes
