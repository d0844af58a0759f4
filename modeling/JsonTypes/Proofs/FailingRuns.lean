/-
Runs that fail.

A run that checks documents loads a configuration and a type, validates the definitions of
the type and gathers all documents before it writes the first line. If one step breaks on
this way, whatever has been read before, it fails and writes nothing.

* `CheckCommand.Breaks`: what ends a run early, at whatever input or line.
* `validateFactories_ok_iff`: what it takes that all definitions are validated.
* `CheckCommand.prepare_ok_iff`: what there is to check where nothing breaks.
* `CheckCommand.prepare_fails_iff`: nothing else ends a run.
* `CheckCommand.run_of_ok`, `CheckCommand.run_of_error`: the run in both cases.
* `documents_gathered_or_none`: the documents of a run, or its failure without output.
-/
import JsonTypes.CommandLine.Run
import JsonTypes.Proofs.GatheredDocuments
import JsonTypes.Proofs.Templates

namespace JsonTypes

namespace CommandLine

/-! ### Failures -/

/-- What ends a run early: the configuration, the type, the definition of a factory of the
type, an input or a file, whichever it is, or that there is no document. -/
inductive CheckCommand.Breaks (command : CheckCommand) (files : Files) : Prop where
  | config {path : String} (asked : command.settings.config = some path)
      (fails : Fails (files.read path))
  | malformedConfig {path text : String} (asked : command.settings.config = some path)
      (reads : files.read path = .ok text) (fails : Fails (Config.ofText text))
  | type (fails : Fails (Ty.ofText Prelude.registry command.type))
  | definition {config : Config} {t : Ty} {f : Factory}
      (loads : command.settings.load files = .ok config)
      (reads : Ty.ofText Prelude.registry command.type = .ok t) (used : f ∈ t.factories)
      (fails : Fails (validate Prelude.bodies config f).result)
  | input {input : String} (given : input ∈ command.inputs.paths) (fails : files.Misses input)
  | file {input path : String} {paths : List String} (given : input ∈ command.inputs.paths)
      (finds : files.Matches input paths) (found : path ∈ paths)
      (fails : command.inputs.Lacks files path)
  | nothing (gathers : command.inputs.Gathers files [])

section Failures

variable {files : Files}

lemma Settings.load_fails_iff {settings : Settings} : Fails (settings.load files) ↔
    ∃ path, settings.config = some path ∧
      (Fails (files.read path) ∨
        ∃ text, files.read path = .ok text ∧ Fails (Config.ofText text)) := by
  rw [load]
  cases settings.config with
  | none => simp [fails_bind, pure, Except.pure]
  | some path =>
      simp only [fails_bind, loadConfig, fails_mapError, except_mapError_ok, pure, Except.pure,
        not_fails_ok, and_false, exists_false, or_false, Option.some.injEq, exists_eq_left']

lemma validateFactory_ok_iff {w : Workspace} {f : Factory} :
    (validateFactory w f).result = .ok () ↔
      ∃ d, (validate w.family w.config f).result = .ok d := by
  simp only [validateFactory, Traced.bind_ok, Traced.mapError_ok, Traced.result_pure, and_true]

lemma validateFactory_fails_iff {w : Workspace} {f : Factory} :
    Fails (validateFactory w f).result ↔ Fails (validate w.family w.config f).result := by
  simp only [validateFactory, Traced.fails_bind, Traced.result_mapError, fails_mapError,
    Traced.result_pure, not_fails_ok, and_false, exists_false, or_false]

/-- Definitions are validated one by one, and none of them is left out where none fails. -/
lemma validateFactories_ok_iff {w : Workspace} {factories : List Factory} :
    (Traced.forEach (validateFactory w) factories).result = .ok () ↔
      ∀ f ∈ factories, ∃ d, (validate w.family w.config f).result = .ok d := by
  simp only [Traced.forEach_ok, validateFactory_ok_iff]

namespace CheckCommand

variable {command : CheckCommand}

/-- What there is to check where nothing has failed. -/
lemma prepare_ok_iff {job : Job} : (command.prepare files).result = .ok job ↔
    ∃ config t docs, command.settings.load files = .ok config ∧
      Ty.ofText Prelude.registry command.type = .ok t ∧
      (∀ f ∈ t.factories, ∃ d, (validate Prelude.bodies config f).result = .ok d) ∧
      command.inputs.load files = .ok docs ∧ ⟨Workspace.start config true, t, docs⟩ = job := by
  -- the definitions of a run are the ready-made ones, whatever the configuration is
  have hvalidated : ∀ config (t : Ty),
      (Traced.forEach (validateFactory (Workspace.start config true)) t.factories).result =
          .ok () ↔
        ∀ f ∈ t.factories, ∃ d, (validate Prelude.bodies config f).result = .ok d :=
    fun config t => validateFactories_ok_iff
  simp only [prepare, Traced.bind_ok, Traced.result_of, except_mapError_ok, Traced.result_pure,
    Except.ok.injEq, ← hvalidated]
  constructor
  · rintro ⟨config, hconfig, t, ht, ⟨⟩, hdone, docs, hdocs, hjob⟩
    exact ⟨config, t, docs, hconfig, ht, hdone, hdocs, hjob⟩
  · rintro ⟨config, t, docs, hconfig, ht, hdone, hdocs, hjob⟩
    exact ⟨config, hconfig, t, ht, (), hdone, docs, hdocs, hjob⟩

/-- **There is something to check unless the command breaks**, and then there is nothing. -/
lemma prepare_fails_iff : Fails (command.prepare files).result ↔ command.Breaks files := by
  constructor
  · simp only [prepare, Traced.fails_bind, Traced.result_of, fails_mapError, except_mapError_ok,
      Traced.fails_forEach, validateFactory_fails_iff, Inputs.load_fails_iff,
      Inputs.gather_fails_iff, Settings.load_fails_iff, Traced.result_pure, not_fails_ok,
      and_false, exists_false, or_false]
    rintro (⟨path, hasked, hfails | ⟨text, hreads, hfails⟩⟩ | ⟨config, hconfig, hfails |
      ⟨t, ht, ⟨f, hf, hfails⟩ | ⟨_, -, (⟨input, hinput, hfails⟩ |
        ⟨input, hinput, paths, hmatches, path, hpath, hfails⟩) | hnone⟩⟩⟩)
    · exact .config hasked hfails
    · exact .malformedConfig hasked hreads hfails
    · exact .type hfails
    · exact .definition hconfig ht hf hfails
    · exact .input hinput hfails
    · exact .file hinput hmatches hpath hfails
    · exact .nothing hnone
  · intro h
    by_contra hjob
    obtain ⟨job, hjob⟩ := not_fails_iff.mp hjob
    obtain ⟨config, t, docs, hconfig, ht, hvalidated, hdocs, -⟩ := prepare_ok_iff.mp hjob
    have hload : ¬ (Fails (command.inputs.gather files) ∨ command.inputs.Gathers files []) :=
      fun hfails => (Inputs.load_fails_iff.mpr hfails).ne_ok hdocs
    cases h with
    | config hasked hfails =>
        exact (Settings.load_fails_iff.mpr ⟨_, hasked, Or.inl hfails⟩).ne_ok hconfig
    | malformedConfig hasked hreads hfails =>
        exact (Settings.load_fails_iff.mpr ⟨_, hasked, Or.inr ⟨_, hreads, hfails⟩⟩).ne_ok hconfig
    | type hfails => exact hfails.ne_ok ht
    | @definition config' t' f hconfig' ht' hf hfails =>
        obtain rfl : config' = config := Except.ok.inj (hconfig'.symm.trans hconfig)
        obtain rfl : t' = t := Except.ok.inj (ht'.symm.trans ht)
        obtain ⟨d, hd⟩ := hvalidated f hf
        exact hfails.ne_ok hd
    | input hinput hfails =>
        exact hload (Or.inl (Inputs.gather_fails_iff.mpr (Or.inl ⟨_, hinput, hfails⟩)))
    | file hinput hmatches hpath hfails =>
        exact hload (Or.inl (Inputs.gather_fails_iff.mpr
          (Or.inr ⟨_, hinput, _, hmatches, _, hpath, hfails⟩)))
    | nothing hnone => exact hload (Or.inr hnone)

section Run

variable {colored : Bool}

/-- A run reports on what there is to check. -/
lemma run_of_ok {job : Job} (h : (command.prepare files).result = .ok job) :
    (Command.check command).run files colored =
      (job.report command.quiet colored).after (command.prepare files).events := by
  rw [Command.run, Outcome.ofTraced, Traced.events_bind_pure, Traced.bind_ok.mpr ⟨job, h, rfl⟩]

/-- A run that fails on the way writes nothing. -/
lemma run_of_error {failure : Failure} (h : (command.prepare files).result = .error failure) :
    (Command.check command).run files colored =
      ⟨(command.prepare files).events, "", "", .failed failure⟩ := by
  rw [Command.run, Outcome.ofTraced, Traced.events_bind_pure, Traced.bind_error.mpr (Or.inl h)]

end Run

end CheckCommand

end Failures

/-- **All documents in order, or no output.** The documents load if and only if every
input, file, line, pointer and filter does what the rules ask for, and then they are the
ones that the rules give, in their order. Where the search keeps its promise, a pattern
contributes the paths that it matches, all of them in the order of names and at least one. A
run fails if and only if one step breaks, whatever has been read before, and then it writes
nothing. A run that does not fail reports on the documents. -/
theorem documents_gathered_or_none (command : CheckCommand) (files : Files) (colored : Bool) :
    (∀ docs, command.inputs.load files = .ok docs ↔
        command.inputs.Gathers files docs ∧ docs ≠ []) ∧
      (∀ (α : Type) (system : FileSystem α), files.Searches system →
        ∀ input, Glob.isPattern input = true →
          (∀ paths, files.Matches input paths ↔
            ∃ glob, Glob.ofText input = .ok glob ∧ glob.Lists system paths ∧ paths ≠ []) ∧
          (files.Misses input ↔ Fails (Glob.ofText input) ∨
            ∃ glob, Glob.ofText input = .ok glob ∧ glob.Lists system [])) ∧
      (command.Breaks files ↔ ∃ events failure,
        (Command.check command).run files colored = ⟨events, "", "", .failed failure⟩) ∧
      (¬ command.Breaks files →
        ∃ job, (command.prepare files).result = .ok job ∧
          command.inputs.load files = .ok job.documents ∧
          (Command.check command).run files colored =
            (job.report command.quiet colored).after (command.prepare files).events) := by
  refine ⟨fun docs => Inputs.load_ok_iff, fun _ _ hsearches input hshaped =>
    ⟨fun paths => hsearches.matches_iff hshaped, hsearches.misses_iff hshaped⟩, ?_, ?_⟩
  · rw [← CheckCommand.prepare_fails_iff]
    constructor
    · rintro ⟨failure, hfailure⟩
      exact ⟨_, failure, CheckCommand.run_of_error hfailure⟩
    · rintro ⟨events, failure, hfailed⟩
      by_contra hsound
      obtain ⟨job, hjob⟩ := not_fails_iff.mp hsound
      have hending := congrArg Outcome.ending ((CheckCommand.run_of_ok hjob).symm.trans hfailed)
      cases hending
  · intro hsound
    obtain ⟨job, hjob⟩ := not_fails_iff.mp (mt CheckCommand.prepare_fails_iff.mp hsound)
    obtain ⟨config, t, docs, -, -, -, hdocs, rfl⟩ := CheckCommand.prepare_ok_iff.mp hjob
    exact ⟨_, hjob, hdocs, CheckCommand.run_of_ok hjob⟩

/-- Two files of lines: one with a single line, and one with a carriage return, an empty
line, a line that yields nothing and a last line that nothing ends. -/
def readings : FileTree ByteArray :=
  .ofFiles [("day/2", "\x7b\"at\":[true]\x7d".toUTF8),
    ("day/1", "\x7b\"at\":[1,\"x\"]\x7d\r\n\n\x7b\"at\":[]\x7d\n\x7b\"at\":[2]\x7d".toUTF8)]

/-- The check of some files of readings, line by line, for numbers. -/
def readingsCheck (paths : List String) : CheckCommand :=
  ⟨"number", ⟨paths, true, some "/at", some ".[]"⟩, ⟨none, none, false⟩, false⟩

/-- The pattern for the files of a day. -/
def dayFiles : Glob :=
  ⟨false, [⟨[.literal 'd', .anyChar, .literal 'y']⟩, ⟨[.anyChars]⟩], false⟩

/-- The pattern matches both files, which are found in the order of names. -/
lemma search_readings : dayFiles.search (.alone readings) = ["day/1", "day/2"] := by
  have hstep : ∀ (pattern : NamePattern) (path : String) (names : List String),
      pattern.literal? = none → pattern.startsWithDot = false → names.Pairwise (· < ·) →
      (Glob.entriesAt? (.alone readings) path).any (names.Perm ·.names.toList) = true →
        Glob.oneStep (.alone readings) pattern path =
          (names.filter pattern.accepts).map (Glob.entryPath path) := by
    intro pattern path names hwild hplain hascending hsame
    cases hinside : Glob.entriesAt? (.alone readings) path with
    | none =>
        rw [hinside] at hsame
        cases hsame
    | some entries =>
        rw [hinside] at hsame
        have hnames : FileTree.sortedNames entries = names :=
          FileTree.sortedNames_eq hascending (of_decide_eq_true hsame)
        simp only [Glob.oneStep, hwild, hinside, hplain, hnames, Bool.false_eq_true, if_false,
          List.map_nil, List.nil_append]
  have htop : Glob.oneStep (.alone readings) ⟨[.literal 'd', .anyChar, .literal 'y']⟩ "." =
      ["day"] := by
    rw [hstep _ _ ["day"] (by decide) (by decide) (by decide) (by decide +kernel)]
    decide +kernel
  have hday : Glob.oneStep (.alone readings) ⟨[.anyChars]⟩ "day" = ["day/1", "day/2"] := by
    rw [hstep _ _ ["1", "2"] (by decide) (by decide) (by decide) (by decide +kernel)]
    decide +kernel
  have hfound : Glob.searchFrom (.alone readings) dayFiles.components "." =
      ["day/1", "day/2"] := by
    rw [dayFiles, Glob.searchFrom_step (.alone readings) (by decide), htop,
      List.flatMap_cons, List.flatMap_nil, List.append_nil,
      Glob.searchFrom_step (.alone readings) (by decide), hday]
    rfl
  exact congrArg (List.filter _) hfound

lemma matches_readings : (Files.ofTree readings).Matches "d?y/*" ["day/1", "day/2"] := by
  have hreads : Glob.ofText "d?y/*" = .ok dayFiles := by decide +kernel
  refine .pattern (by decide) ?_ (by decide)
  rw [← search_readings]
  exact congrArg (Except.map _) hreads

/-- What is loaded for the pattern is loaded for the paths that it stands for. -/
lemma load_readings : (readingsCheck ["d?y/*"]).inputs.load (.ofTree readings) =
    (readingsCheck ["day/1", "day/2"]).inputs.load (.ofTree readings) := by
  have hresolve : (readingsCheck ["d?y/*"]).inputs.resolve (.ofTree readings) =
      .ok ["day/1", "day/2"] :=
    Inputs.resolve_ok_iff.mpr ⟨_, .cons matches_readings .nil, rfl⟩
  rw [Inputs.load, hresolve]
  rfl

/-- The readings come file by file in the order of names, line by line and output by output.
A file that is missing at the end takes everything back. -/
theorem documents_gathered_or_none_readings :
    (∃ docs, (readingsCheck ["d?y/*"]).inputs.Gathers (.ofTree readings) docs ∧
        docs.map Document.label = ["day/1:1#0", "day/1:1#1", "day/1:4#0", "day/2:1#0"] ∧
        ¬ (readingsCheck ["d?y/*"]).Breaks (.ofTree readings)) ∧
      (∃ glob, Glob.ofText "d?y/*" = .ok glob ∧
        glob.Lists (.alone readings) ["day/1", "day/2"]) ∧
      ∃ events failure, (Command.check (readingsCheck ["d?y/*", "day/3"])).run
        (.ofTree readings) false = ⟨events, "", "", .failed failure⟩ := by
  obtain ⟨hload, hsearch, hbreaks, -⟩ :=
    documents_gathered_or_none (readingsCheck ["d?y/*"]) (.ofTree readings) false
  have hlabels : ((readingsCheck ["d?y/*"]).inputs.load
      (.ofTree readings)).toOption.map (·.map Document.label) =
        some ["day/1:1#0", "day/1:1#1", "day/1:4#0", "day/2:1#0"] := by
    rw [load_readings]
    decide +kernel
  have hreport : ((Command.check (readingsCheck ["d?y/*"])).run
      (.ofTree readings) false).errors = "2 of 4 documents match number\n" := by
    rw [Command.run, CheckCommand.prepare, load_readings]
    decide +kernel
  refine ⟨?_, ?_, ?_⟩
  · have hsound : ¬ (readingsCheck ["d?y/*"]).Breaks (.ofTree readings) := by
      intro h
      obtain ⟨events, failure, hrun⟩ := hbreaks.mp h
      rw [hrun] at hreport
      have hsilent : "" = "2 of 4 documents match number\n" := hreport
      exact absurd hsilent (by decide)
    cases hdocs : (readingsCheck ["d?y/*"]).inputs.load (.ofTree readings) with
    | error failure =>
        rw [hdocs] at hlabels
        cases hlabels
    | ok docs =>
        rw [hdocs] at hlabels
        exact ⟨docs, ((hload docs).mp hdocs).1, Option.some.inj hlabels, hsound⟩
  · have hpromise := Files.searches_ofSystem (.alone readings)
    obtain ⟨glob, hglob, hlists, -⟩ :=
      ((hsearch _ (.alone readings) hpromise "d?y/*" (by decide)).1 _).mp matches_readings
    exact ⟨glob, hglob, hlists⟩
  · have hmissing : (readingsCheck ["d?y/*", "day/3"]).Breaks (.ofTree readings) := by
      have hgiven : "day/3" ∈ (readingsCheck ["d?y/*", "day/3"]).inputs.paths := by decide
      exact .file hgiven (.path (by decide)) (List.mem_singleton_self _)
        (Or.inl ⟨.notFound, rfl⟩)
    exact (documents_gathered_or_none _ _ false).2.2.1.mp hmissing

end CommandLine

end JsonTypes
