/-
The runs of the command line.

* `Outcome`: what a run writes and reports, and how it ends.
* `Settings.load`: the configuration of a run: the one of the file, with the
  discriminator of the arguments in its place, and debugging turned on if either
  asks for it.
* `CheckCommand.prepare`: everything that comes before the report: configuration,
  type, definitions and documents, up to the first failure.
* `Job.report`: one line for each document and the number of matches.
* `Command.run`: a run.
-/
import JsonTypes.CommandLine.Documents
import JsonTypes.Ty.Factories
import JsonTypes.Workspace

namespace JsonTypes.CommandLine

/-! ### Outcomes -/

/-- A text that consists of lines. -/
def joinLines (lines : List String) : String :=
  String.join (lines.map (· ++ "\n"))

/-- The text about a failure, with what it goes back to. -/
def Failure.report (failure : Failure) : String :=
  "Error: " ++ failure.message ++ "\n" ++
    match failure.causes with
    | [] => ""
    | causes => "\nCaused by:\n" ++ joinLines (causes.map ("    " ++ ·))

/-- How a run ends. -/
inductive Ending where
  /-- With a report, and whether all is well. -/
  | finished (good : Bool)
  | failed (failure : Failure)

/-- What a run writes and reports, and how it ends. -/
structure Outcome where
  /-- What is reported on the way. The checks of documents report side by side; here
  document after document. -/
  events : List Event
  output : String
  /-- What is written as errors behind the log of the events. -/
  errors : String
  ending : Ending

namespace Outcome

/-- The exit code of a run. -/
def code (outcome : Outcome) : Nat :=
  match outcome.ending with
  | .finished true => 0
  | _ => 1

/-- All that a run writes as errors, given what the log makes of events. A failure comes
last. -/
def errorStream (log : List Event → String) (outcome : Outcome) : String :=
  log outcome.events ++ outcome.errors ++
    match outcome.ending with
    | .finished _ => ""
    | .failed failure => failure.report

/-- The outcome with events in front. -/
def after (events : List Event) (outcome : Outcome) : Outcome :=
  { outcome with events := events ++ outcome.events }

/-- The outcome of a run that may fail on the way. -/
def ofTraced (run : Traced Failure Outcome) : Outcome :=
  match run.result with
  | .ok outcome => outcome.after run.events
  | .error failure => ⟨run.events, "", "", .failed failure⟩

end Outcome

/-! ### Lines -/

/-- The colors of reports. -/
inductive Color where
  | green
  | red
  | yellow

/-- The number of a color in terminal sequences. -/
def Color.number : Color → String
  | green => "32"
  | red => "31"
  | yellow => "33"

/-- A text in a color, if reports are colored. -/
def Color.paint (color : Color) (colored : Bool) (text : String) : String :=
  if colored then s!"\x1b[{color.number}m" ++ text ++ "\x1b[0m" else text

/-- The line of a success. -/
def goodLine (colored : Bool) (text : String) : String :=
  Color.green.paint colored "✅" ++ " " ++ text

/-- The line of a failure. -/
def badLine (colored : Bool) (text : String) : String :=
  Color.red.paint colored "❌" ++ " " ++ text

/-! ### Settings -/

/-- The configuration of a file. -/
def loadConfig (files : Files) (path : String) : Except Failure Config := do
  let text ← (files.read path).mapError (.unreadableConfig path)
  (Config.ofText text).mapError .malformedConfig

/-- The configuration of a run. -/
def Settings.load (settings : Settings) (files : Files) : Except Failure Config := do
  let base ←
    match settings.config with
    | some path => loadConfig files path
    | none => pure .standard
  pure
    { base with
      discriminator := settings.discriminator.getD base.discriminator
      debug := base.debug || settings.debug }

/-! ### Checks -/

/-- Documents that are to be checked against a type. -/
structure Job where
  workspace : Workspace
  type : Ty
  documents : List Document

/-- Validates the definition of a factory. -/
def validateFactory (w : Workspace) (f : Factory) : Traced Failure Unit := do
  let _ ← (validate w.family w.config f).mapError (.definition f.name)
  pure ()

/-- What a check works on. All definitions that the type uses are validated
before any document is read. -/
def CheckCommand.prepare (command : CheckCommand) (files : Files) : Traced Failure Job := do
  let config ← Traced.of (command.settings.load files)
  let w := Workspace.start config true
  let type ← Traced.of ((w.typeOfText command.type).mapError (.typeText command.type))
  Traced.forEach (validateFactory w) type.factories
  let documents ← Traced.of (command.inputs.load files)
  pure ⟨w, type, documents⟩

namespace Job

/-- The check of a document. -/
def check (job : Job) (document : Document) : Traced CheckError Json :=
  job.workspace.check job.type document.value

/-- Whether a document fails. -/
def fails (job : Job) (document : Document) : Bool :=
  match (job.check document).result with
  | .ok _ => false
  | .error _ => true

/-- The line about a document. Successes are left out of quiet reports. -/
def line? (job : Job) (quiet colored : Bool) (document : Document) : Option String :=
  match (job.check document).result with
  | .ok _ => if quiet then none else some (goodLine colored document.label)
  | .error e =>
    some (badLine colored
      (document.label ++ ": " ++ Color.yellow.paint colored s!"[{e.tag.text}]" ++ " "
        ++ e.message))

/-- The number of documents that fail. -/
def failing (job : Job) : Nat := job.documents.countP job.fails

/-- The report on all documents. -/
def report (job : Job) (quiet colored : Bool) : Outcome where
  events := job.documents.flatMap fun document => (job.check document).events
  output := joinLines (job.documents.filterMap (job.line? quiet colored))
  errors :=
    s!"{job.documents.length - job.failing} of {job.documents.length} documents match " ++
      job.type.text ++ "\n"
  ending := .finished (job.failing == 0)

end Job

/-! ### Definitions -/

/-- The line about a definition. -/
def definitionLine (w : Workspace) (colored : Bool) (f : Factory) : String :=
  match (validate w.family w.config f).result with
  | .ok description => goodLine colored description.text
  | .error e => badLine colored (f.name ++ ": " ++ e.message)

/-- Whether a definition is well-formed. -/
def isWellFormed (w : Workspace) (f : Factory) : Bool :=
  match (validate w.family w.config f).result with
  | .ok _ => true
  | .error _ => false

/-- The report on all ready-made definitions. -/
def definitionsReport (config : Config) (colored : Bool) : Outcome :=
  let w := Workspace.start config true
  let factories := w.registry.factories
  ⟨factories.flatMap fun f => (validate w.family w.config f).events,
    joinLines (factories.map (definitionLine w colored)), "",
    .finished (factories.all (isWellFormed w))⟩

/-! ### Runs -/

/-- A run of a command. -/
def Command.run (command : Command) (files : Files) (colored : Bool) : Outcome :=
  match command with
  | .check command => .ofTraced do
    let job ← command.prepare files
    pure (job.report command.quiet colored)
  | .definitions settings => .ofTraced do
    let config ← Traced.of (settings.load files)
    pure (definitionsReport config colored)

/-- The answer to a question for the version. -/
def versionText : String := "json-adt 0.1.0\n"

end JsonTypes.CommandLine
