/-
The reports of runs.

A run goes through its documents once. Every document is checked against the same type with
the same configuration, and either gets a line that says what is wrong or counts as a match,
with a line of its own unless the report is quiet. The numbers at the end and the exit code
follow from these verdicts alone. What validations and checks report on the way stands in
front of these numbers, if the log shows it.

* `Settings.Configures`: the configuration of a run, from a file and from the arguments;
  `Settings.load_ok_iff`: it is the one that is used.
* `Painted`: a text in a color, if reports are colored.
* `Reported`: the text about documents, with the numbers of matches and failures;
  `Job.reported`: a report is this text.
* `CheckCommand.events_prepare`: what is reported before documents are checked.
* `not_isDefinition_of_validated`: no line is about a definition.
* `verdicts_add_up`: a run as a whole.
-/
import JsonTypes.Proofs.CheckErrors
import JsonTypes.Proofs.FailingRuns

namespace JsonTypes

/-- Where the factories of a type have been validated, checks against the type find fault
with values only. -/
lemma not_isDefinition_of_validated {bodies : Family} (templated : bodies.Templated) {t : Ty}
    {config : Config}
    (validated : ∀ f ∈ t.factories, ∃ d, (validate bodies config f).result = .ok d) {v : Json}
    {e : CheckError} (h : (check bodies config t v).result = .error e) :
    e.tag.isDefinition = false := by
  have hwf : t.WellFormed bodies := by
    intro f hf
    obtain ⟨d, hd⟩ := validated f (Ty.mem_factories.mpr hf)
    exact wellFormed_of_validate templated.respectsSame hd
  cases e with
  | validation e =>
      obtain ⟨path, reason⟩ := e
      cases reason <;> rfl
  | definition e =>
      rw [check_result] at h
      cases hcheck : (v.check bodies config.discriminator t).result with
      | ok u =>
          rw [hcheck] at h
          cases h
      | error e' =>
          rw [hcheck] at h
          obtain rfl : e' = .definition e := Except.error.inj h
          obtain ⟨guarded, i, j, hi, hij, hj⟩ := v.faulty_of_check hcheck
          obtain ⟨entries, hentries⟩ := expands_of_shows templated hwf hi hij
          cases hj.symm.trans hentries

namespace CommandLine

/-! ### Settings -/

/-- The configuration that a file holds, or the standard one where no file is named. -/
inductive Settings.Starts (settings : Settings) (files : Files) : Config → Prop where
  | standard (unasked : settings.config = none) : Starts settings files .standard
  | file {path text : String} {base : Config} (asked : settings.config = some path)
      (reads : files.read path = .ok text) (holds : Config.ofText text = .ok base) :
      Starts settings files base

/-- The arguments put a configuration over another one: their discriminator takes the place
of the other one, and debugging can be turned on but not off. -/
structure Settings.Overrides (settings : Settings) (base config : Config) : Prop where
  kept : settings.discriminator = none → config.discriminator = base.discriminator
  replaced : ∀ key, settings.discriminator = some key → config.discriminator = key
  debug : config.debug = true ↔ base.debug = true ∨ settings.debug = true
  maxDepth : config.maxDepth = base.maxDepth

/-- The configuration of a run. -/
def Settings.Configures (settings : Settings) (files : Files) (config : Config) : Prop :=
  ∃ base, settings.Starts files base ∧ settings.Overrides base config

section Settings

variable {settings : Settings} {files : Files} {config : Config}

lemma loadConfig_ok_iff {path : String} : loadConfig files path = .ok config ↔
    ∃ text, files.read path = .ok text ∧ Config.ofText text = .ok config := by
  simp only [loadConfig, except_bind_ok, except_mapError_ok]

lemma Settings.overrides_iff {base : Config} : settings.Overrides base config ↔
    { base with
      discriminator := settings.discriminator.getD base.discriminator
      debug := base.debug || settings.debug } = config := by
  constructor
  · rintro ⟨hkept, hreplaced, hdebug, hdepth⟩
    have hkey : settings.discriminator.getD base.discriminator = config.discriminator := by
      cases hgiven : settings.discriminator with
      | none => exact (hkept hgiven).symm
      | some key => exact (hreplaced key hgiven).symm
    have hshown : (base.debug || settings.debug) = config.debug := by
      rw [Bool.eq_iff_iff, Bool.or_eq_true, hdebug]
    rw [hkey, hshown, ← hdepth]
  · rintro rfl
    refine ⟨fun hnone => ?_, fun key hkey => ?_, Bool.or_eq_true _ _ ▸ Iff.rfl, rfl⟩
    · rw [hnone, Option.getD_none]
    · rw [hkey, Option.getD_some]

/-- The configuration under the one of the arguments. -/
def Settings.base (settings : Settings) (files : Files) : Except Failure Config :=
  match settings.config with
  | some path => loadConfig files path
  | none => .ok .standard

lemma Settings.base_ok_iff {base : Config} :
    settings.base files = .ok base ↔ settings.Starts files base := by
  rw [Settings.base]
  constructor
  · intro h
    split at h
    · next path hasked =>
        obtain ⟨text, hreads, hholds⟩ := loadConfig_ok_iff.mp h
        exact .file hasked hreads hholds
    · next hnone =>
        obtain rfl := Except.ok.inj h
        exact .standard hnone
  · intro h
    cases h with
    | standard hnone => rw [hnone]
    | file hasked hreads hholds =>
        rw [hasked]
        exact loadConfig_ok_iff.mpr ⟨_, hreads, hholds⟩

/-- **The configuration that is used** is the one of the file under the arguments. -/
lemma Settings.load_ok_iff :
    settings.load files = .ok config ↔ settings.Configures files config := by
  have hload : settings.load files = settings.base files >>= fun base =>
      .ok { base with
        discriminator := settings.discriminator.getD base.discriminator
        debug := base.debug || settings.debug } := by
    rw [load, Settings.base]
    cases settings.config <;> rfl
  simp only [hload, except_bind_ok, base_ok_iff, Except.ok.injEq, Configures, overrides_iff]

end Settings

/-! ### Lines -/

/-- A text as it is shown: between the sequences that turn a color on and off, or as it
is. -/
inductive Painted (number text : String) : Bool → String → Prop where
  | plain : Painted number text false text
  | colored : Painted number text true ("\x1b[" ++ number ++ "m" ++ text ++ "\x1b[0m")

/-- The text about documents, from the first to the last one, and the numbers of matches and
of failures among them. A match has a line with its label, unless the report is quiet; a
failure has one with the kind and the message of its error. -/
inductive Reported (verdict : Document → Except CheckError Json) (quiet colored : Bool) :
    List Document → String → ℕ → ℕ → Prop where
  | nil : Reported verdict quiet colored [] "" 0 0
  | success {document : Document} {v : Json} {later : List Document} {mark text : String}
      {good bad : ℕ} (accepts : verdict document = .ok v) (loud : quiet = false)
      (green : Painted "32" "✅" colored mark)
      (rest : Reported verdict quiet colored later text good bad) :
      Reported verdict quiet colored (document :: later)
        (mark ++ " " ++ document.label ++ "\n" ++ text) (good + 1) bad
  | omitted {document : Document} {v : Json} {later : List Document} {text : String}
      {good bad : ℕ} (accepts : verdict document = .ok v) (silent : quiet = true)
      (rest : Reported verdict quiet colored later text good bad) :
      Reported verdict quiet colored (document :: later) text (good + 1) bad
  | failure {document : Document} {e : CheckError} {later : List Document}
      {mark kind text : String} {good bad : ℕ} (rejects : verdict document = .error e)
      (red : Painted "31" "❌" colored mark)
      (yellow : Painted "33" ("[" ++ e.tag.text ++ "]") colored kind)
      (rest : Reported verdict quiet colored later text good bad) :
      Reported verdict quiet colored (document :: later)
        (mark ++ " " ++ document.label ++ ": " ++ kind ++ " " ++ e.message ++ "\n" ++ text)
        good (bad + 1)

section Lines

variable {verdict : Document → Except CheckError Json} {quiet colored : Bool}
  {documents : List Document} {text : String} {good bad : ℕ}

/-- Every document is a match or a failure. -/
lemma Reported.good_add_bad (h : Reported verdict quiet colored documents text good bad) :
    good + bad = documents.length := by
  induction h with
  | nil => rfl
  | success _ _ _ _ ih => rw [List.length_cons, ← ih]; omega
  | omitted _ _ _ ih => rw [List.length_cons, ← ih]; omega
  | failure _ _ _ _ ih => rw [List.length_cons, ← ih]; omega

lemma painted_paint (color : Color) (colored : Bool) (text : String) :
    Painted color.number text colored (color.paint colored text) := by
  cases colored with
  | false => exact .plain
  | true =>
      have hpaint : color.paint true text = "\x1b[" ++ color.number ++ "m" ++ text ++ "\x1b[0m" := by
        cases color <;> rfl
      exact hpaint ▸ .colored

lemma joinLines_cons (line : String) (later : List String) :
    joinLines (line :: later) = line ++ "\n" ++ joinLines later := by
  simp only [joinLines, List.map_cons, String.join_cons]

/-- A report is the text about its documents. -/
lemma Job.reported (job : Job) (quiet colored : Bool) (documents : List Document) :
    Reported (fun document => (job.check document).result) quiet colored documents
      (joinLines (documents.filterMap (job.line? quiet colored)))
      (documents.countP fun document => !job.fails document) (documents.countP job.fails) := by
  induction documents with
  | nil => exact .nil
  | cons document later ih =>
      cases hcheck : (job.check document).result with
      | ok v =>
          have hgood : job.fails document = false := by rw [Job.fails, hcheck]
          rw [List.countP_cons_of_pos (by simp [hgood]), List.countP_cons_of_neg (by simp [hgood])]
          cases quiet with
          | false =>
              rw [List.filterMap_cons_some (b := goodLine colored document.label)
                (by rw [Job.line?, hcheck]; rfl), joinLines_cons]
              exact .success hcheck rfl (painted_paint .green colored _) ih
          | true =>
              rw [List.filterMap_cons_none (by rw [Job.line?, hcheck]; rfl)]
              exact .omitted hcheck rfl ih
      | error e =>
          have hbad : job.fails document = true := by rw [Job.fails, hcheck]
          rw [List.countP_cons_of_neg (by simp [hbad]), List.countP_cons_of_pos hbad,
            List.filterMap_cons_some (by rw [Job.line?, hcheck]), joinLines_cons]
          have hfailure := Reported.failure hcheck (painted_paint .red colored "❌")
            (painted_paint .yellow colored s!"[{e.tag.text}]") ih
          simpa only [badLine, String.append_assoc] using hfailure

end Lines

/-! ### Events -/

/-- The validation of a factory reports what the walk over its definition does. -/
lemma events_validateFactory (w : Workspace) (f : Factory) :
    (validateFactory w f).events = (validate w.family w.config f).events :=
  Traced.events_bind_pure ((validate w.family w.config f).mapError _) fun _ => ()

/-- Before documents are checked, the definitions of the type report one after another. -/
lemma CheckCommand.events_prepare {command : CheckCommand} {files : Files} {job : Job}
    (h : (command.prepare files).result = .ok job) :
    (command.prepare files).events =
      job.type.factories.flatMap fun f =>
        (validate job.workspace.family job.workspace.config f).events := by
  obtain ⟨config, t, docs, hconfig, ht, hvalidated, hdocs, rfl⟩ := prepare_ok_iff.mp h
  have htype : ((Workspace.start config true).typeOfText command.type).mapError
      (Failure.typeText command.type) = .ok t := except_mapError_ok.mpr ht
  have hone : ∀ f ∈ t.factories,
      (validateFactory (Workspace.start config true) f).result = .ok () :=
    fun f hf => validateFactory_ok_iff.mpr (hvalidated f hf)
  rw [prepare, hconfig, Traced.of_ok_bind]
  dsimp only
  rw [htype, Traced.of_ok_bind, Traced.events_bind_ok (Traced.forEach_ok.mpr hone),
    Traced.events_forEach hone, hdocs]
  simp only [events_validateFactory]
  exact List.append_nil _

section Silence

variable {bodies : Family} {config : Config}

/-- Without debugging validations report nothing. -/
lemma events_validate_of_not (h : config.debug = false) (f : Factory) :
    (validate bodies config f).events = [] := by
  rw [validate, h]
  rfl

/-- Without debugging checks report nothing. -/
lemma events_check_of_not (h : config.debug = false) (t : Ty) (v : Json) :
    (check bodies config t v).events = [] := by
  rw [check, Traced.events_bind_pure _ fun _ => v, h]
  rfl

end Silence

/-! ### Runs -/

/-- A run with a report writes no failure. -/
lemma Outcome.errorStream_finished {outcome : Outcome} {good : Bool}
    (h : outcome.ending = .finished good) (log : List Event → String) :
    outcome.errorStream log = log outcome.events ++ outcome.errors := by
  rw [errorStream, h, String.append_empty]

/-- The numbers of matches and failures make up the number of documents. -/
lemma Job.matching_add_failing (job : Job) :
    (job.documents.countP fun document => !job.fails document) + job.failing =
      job.documents.length :=
  (job.reported false false job.documents).good_add_bad

section Numbers

variable {job : Job} {good : ℕ} (sum : good + job.failing = job.documents.length)
  (quiet colored : Bool)

include sum

/-- The line at the end is about the matches. -/
lemma Job.errors_report : (job.report quiet colored).errors =
    s!"{good} of {job.documents.length} documents match {job.type.text}\n" := by
  have hgood : job.documents.length - job.failing = good := by omega
  rw [Job.report, hgood]
  rfl

/-- The exit code says whether all documents match. -/
lemma Job.code_report : (job.report quiet colored).code =
    if good = job.documents.length then 0 else 1 := by
  by_cases h : job.failing = 0
  · rw [if_pos (by omega), Outcome.code, Job.report, h]
    rfl
  · rw [if_neg (by omega), Outcome.code, Job.report, beq_eq_false_iff_ne.mpr h]

end Numbers

/-- **Verdicts add up.** Let a run have something to check: documents, at least one, and a
type. Its configuration is the one of the file under the arguments; with this one every
factory of the type has been validated, so that no check fails because of a definition. The
run writes the text about the documents, in their order. The last line among its errors tells
the number of matches, which is the number of documents less the failures; in front of it
stands what the log makes of the reports of the validations and checks, which is nothing
unless the configuration asks for debugging. The run ends with zero if all documents match,
and with one otherwise. A quiet run differs in the lines of matches only. -/
theorem verdicts_add_up (command : CheckCommand) (files : Files) (colored : Bool) (job : Job)
    (prepared : (command.prepare files).result = .ok job) :
    Ty.ofText Prelude.registry command.type = .ok job.type ∧
      command.inputs.load files = .ok job.documents ∧ job.documents ≠ [] ∧
      ∃ config, command.settings.Configures files config ∧
        (∀ f ∈ job.type.factories, ∃ d, (validate Prelude.bodies config f).result = .ok d) ∧
        (∀ v e, (check Prelude.bodies config job.type v).result = .error e →
          e.tag.isDefinition = false) ∧
        ∃ good bad, good + bad = job.documents.length ∧
          ∀ quiet outcome,
            (Command.check { command with quiet := quiet }).run files colored = outcome →
            Reported (fun document =>
                (check Prelude.bodies config job.type document.value).result)
              quiet colored job.documents outcome.output good bad ∧
            (∀ log, outcome.errorStream log = log outcome.events ++
              s!"{good} of {job.documents.length} documents match {job.type.text}\n") ∧
            outcome.events =
              (job.type.factories.flatMap fun f => (validate Prelude.bodies config f).events) ++
              (job.documents.flatMap fun document =>
                (check Prelude.bodies config job.type document.value).events) ∧
            (config.debug = false → outcome.events = []) ∧
            outcome.code = if good = job.documents.length then 0 else 1 := by
  obtain ⟨config, t, docs, hconfig, ht, hvalidated, hdocs, rfl⟩ :=
    CheckCommand.prepare_ok_iff.mp prepared
  refine ⟨ht, hdocs, (Inputs.load_ok_iff.mp hdocs).2, config, Settings.load_ok_iff.mp hconfig,
    hvalidated, fun v e => not_isDefinition_of_validated Prelude.bodies_templated hvalidated, ?_⟩
  let job : Job := ⟨Workspace.start config true, t, docs⟩
  refine ⟨docs.countP fun document => !job.fails document, job.failing,
    job.matching_add_failing, ?_⟩
  intro quiet outcome houtcome
  have hprepare : ({ command with quiet := quiet }.prepare files).result = .ok job := prepared
  rw [CheckCommand.run_of_ok hprepare, CheckCommand.events_prepare hprepare] at houtcome
  subst houtcome
  refine ⟨job.reported quiet colored docs, fun log => ?_, rfl, fun hsilent => ?_,
    Job.code_report job.matching_add_failing quiet colored⟩
  · rw [← Job.errors_report job.matching_add_failing quiet colored]
    exact Outcome.errorStream_finished rfl log
  · refine List.append_eq_nil_iff.mpr ⟨List.flatMap_eq_nil_iff.mpr fun f _ => ?_,
      List.flatMap_eq_nil_iff.mpr fun document _ => ?_⟩
    · exact events_validate_of_not hsilent f
    · exact events_check_of_not hsilent t document.value

/-- A configuration, and a file with a value on its first and on its third line. -/
def answers : FileTree ByteArray :=
  .ofFiles [("types", "\x7b\"discriminator\":\"tag\"\x7d".toUTF8),
    ("day", ("\x7b\"is\":\"Nothing\",\"Nothing\":\x7b\x7d\x7d\n\n" ++
      "\x7b\"is\":\"Just\",\"Just\":1\x7d").toUTF8)]

/-- The check of the answers for optional numbers, with a discriminator of its own. -/
def answersCheck : CheckCommand :=
  ⟨"Maybe(number)", ⟨["day"], true, none, none⟩, ⟨some "types", some "is", true⟩, false⟩

/-- The report on the answers. -/
def answersText (quiet : Bool) : String :=
  (if quiet then "" else "✅ day:1\n") ++
    "❌ day:3: [TypeMismatch] at $.Just: type mismatch: expected 'object', got 'number'\n"

/-- What the check of the answers writes, besides what it reports. -/
lemma run_answers (quiet : Bool) :
    ((Command.check { answersCheck with quiet := quiet }).run (.ofTree answers) false).output =
        answersText quiet ∧
      ((Command.check { answersCheck with quiet := quiet }).run (.ofTree answers) false).errors =
        "1 of 2 documents match Maybe(number)\n" ∧
      ((Command.check { answersCheck with quiet := quiet }).run (.ofTree answers) false).code =
        1 := by
  cases quiet <;> decide +kernel

/-- One of the two answers matches, and a quiet report is about the other one only. The run
has something to report on the way. -/
theorem verdicts_add_up_answers :
    ∃ job config good bad, (answersCheck.prepare (.ofTree answers)).result = .ok job ∧
      answersCheck.settings.Configures (.ofTree answers) config ∧
      config.discriminator = "is" ∧ config.debug = true ∧ good + bad = 2 ∧ good ≠ 2 ∧
      (∀ quiet, Reported (fun document =>
          (check Prelude.bodies config job.type document.value).result)
        quiet false job.documents (answersText quiet) good bad) ∧
      ∃ events ≠ [], ∀ log,
        ((Command.check answersCheck).run (.ofTree answers) false).errorStream log =
          log events ++ "1 of 2 documents match Maybe(number)\n" := by
  have hlength : (answersCheck.prepare (.ofTree answers)).result.toOption.map
      (fun job => job.documents.length) = some 2 := by decide +kernel
  have hevents : ((Command.check answersCheck).run (.ofTree answers) false).events ≠ [] := by
    have hsome : ((Command.check answersCheck).run (.ofTree answers) false).events.isEmpty =
        false := by decide +kernel
    exact List.isEmpty_eq_false_iff.mp hsome
  cases hjob : (answersCheck.prepare (.ofTree answers)).result with
  | error failure =>
      rw [hjob] at hlength
      cases hlength
  | ok job =>
      rw [hjob] at hlength
      have htwo : job.documents.length = 2 := Option.some.inj hlength
      obtain ⟨-, -, -, config, ⟨base, hstarts, hover⟩, -, -, good, bad, hsum, hrun⟩ :=
        verdicts_add_up answersCheck (.ofTree answers) false job hjob
      refine ⟨job, config, good, bad, rfl, ⟨base, hstarts, hover⟩, hover.replaced "is" rfl,
        hover.debug.mpr (Or.inr rfl), htwo ▸ hsum, ?_, fun quiet => ?_, _, hevents, fun log => ?_⟩
      · intro hall
        obtain ⟨-, -, hcode⟩ := run_answers true
        obtain ⟨-, -, -, -, hgood⟩ := hrun true _ rfl
        rw [htwo, if_pos hall] at hgood
        cases hcode.symm.trans hgood
      · obtain ⟨houtput, -⟩ := run_answers quiet
        have hreported := (hrun quiet _ rfl).1
        rw [houtput] at hreported
        exact hreported
      · obtain ⟨-, herrors, -⟩ := run_answers false
        have hsame : { answersCheck with quiet := false } = answersCheck := rfl
        rw [hsame] at herrors
        rw [← herrors, CheckCommand.run_of_ok hjob]
        exact Outcome.errorStream_finished rfl log

end CommandLine

end JsonTypes
