/-
The documents of a run.

* `Files`: what the surroundings of a run answer: what the search for a pattern
  comes across, the text of the file at a path, the filter of a text.
  `Files.ofSystem` takes the answers from a file system.
* `Failure`: why a run ends without a report.
* `Inputs.resolve`: the paths of the files.
* `Inputs.select`: the documents of one value: the pointer first, then the
  filter.
* `Inputs.load`: all documents in the order of the inputs, with their labels, or
  the first failure.
-/
import JsonTypes.CommandLine.Arguments
import JsonTypes.Config.Reader
import JsonTypes.Filter.Reader
import JsonTypes.Glob.Search
import JsonTypes.Json.Pointer
import JsonTypes.Json.Reader
import JsonTypes.Text.Blank
import JsonTypes.TypeText.Resolve

namespace JsonTypes.CommandLine

/-! ### Surroundings -/

/-- A directory that the search for a pattern cannot read. -/
structure SearchFault where
  path : String
  fault : FileFault
deriving DecidableEq, Repr

/-- The message of a fault. -/
def SearchFault.message (fault : SearchFault) : String :=
  s!"attempting to read `{fault.path}` resulted in an error: {fault.fault.message}"

/-- What the surroundings of a run answer. -/
structure Files where
  /-- What the search for a pattern comes across, in order: paths that match, and
  directories that cannot be read. -/
  search : String → Except PatternError (List (Except SearchFault String))
  /-- The text of the file at a path. -/
  read : String → Except FileFault String
  /-- The filter of a text. -/
  compile : String → Except FilterFault Filter

namespace Files

/-- The answers that a file system gives in which every directory can be read, the
bytes of files being text in UTF-8. Filters are read as selectors. -/
def ofSystem (system : FileSystem ByteArray) : Files where
  search pattern := (Glob.ofText pattern).map fun glob => (glob.search system).map .ok
  read path := do
    let bytes ← system.read path
    match String.fromUTF8? bytes with
    | some text => .ok text
    | none => .error .notText
  compile := Filter.ofText

/-- The answers that a single directory gives. -/
def ofTree (home : FileTree ByteArray) : Files := ofSystem (.alone home)

end Files

/-! ### Failures -/

/-- Why a run ends without a report. -/
inductive Failure where
  | unreadableConfig (path : String) (fault : FileFault)
  | malformedConfig (e : Config.ConfigError)
  | typeText (text : String) (e : TypeTextError)
  | definition (name : String) (e : DefinitionError)
  | malformedPattern (e : PatternError)
  | failedSearch (fault : SearchFault)
  | noMatch (pattern : String)
  | unreadable (path : String) (fault : FileFault)
  | malformedDocument (path : String) (e : ReadError)
  | malformedLine (label : String) (e : ReadError)
  | nothingSelected (pointer label : String)
  | filter (label : String) (fault : FilterFault)
  | noDocuments

namespace Failure

/-- The message of a failure. -/
def message : Failure → String
  | unreadableConfig path fault =>
    s!"failed to read config file {path}: " ++ fault.message
  | malformedConfig e => e.message
  | typeText text _ => s!"invalid type expression '{text}'"
  | definition name _ => s!"definition of '{name}' is malformed"
  | malformedPattern _ | failedSearch _ | noMatch _ => "failed to resolve input file paths"
  | unreadable path _ => s!"failed to read source file ({path})"
  | malformedDocument path _ => s!"failed to parse JSON source file ({path})"
  | malformedLine label _ => s!"failed to parse NDJSON line ({label})"
  | nothingSelected pointer label => s!"JSON pointer {pointer} selects nothing in {label}"
  | filter label _ => s!"failed to apply jq expression to {label}"
  | noDocuments => "no input documents"

/-- What a failure goes back to. -/
def causes : Failure → List String
  | unreadableConfig _ fault | unreadable _ fault => [fault.message]
  | typeText _ e => [e.message]
  | definition _ e => [e.message]
  | malformedPattern e => [e.message]
  | failedSearch fault => [fault.message]
  | noMatch pattern => [s!"glob pattern matched no files: {pattern}"]
  | malformedDocument _ e | malformedLine _ e => [e.message]
  | filter _ fault => fault.causes
  | malformedConfig _ | nothingSelected .. | noDocuments => []

end Failure

/-! ### Documents -/

/-- A value to be checked, and where it comes from. -/
structure Document where
  label : String
  value : Json

/-- Items of which there has to be one at least. -/
def atLeastOne {α : Type} (failure : Failure) : List α → Except Failure (List α)
  | [] => .error failure
  | items => .ok items

/-- The paths that one input stands for. -/
def Files.resolve (files : Files) (input : String) : Except Failure (List String) :=
  if Glob.isPattern input then do
    let entries ← (files.search input).mapError .malformedPattern
    let paths ← (entries.mapM id).mapError .failedSearch
    atLeastOne (.noMatch input) paths
  else .ok [input]

namespace Inputs

/-- The paths of all files, in the order of the inputs. -/
def resolve (inputs : Inputs) (files : Files) : Except Failure (List String) := do
  let paths ← inputs.paths.mapM files.resolve
  pure paths.flatten

/-- The part of a value that is looked at. -/
def focus (inputs : Inputs) (label : String) (v : Json) : Except Failure Json :=
  match inputs.pointer with
  | none => .ok v
  | some pointer =>
    match (Pointer.ofText? pointer).bind v.at? with
    | some part => .ok part
    | none => .error (.nothingSelected pointer label)

/-- The documents that a value yields. -/
def documentsOf (inputs : Inputs) (files : Files) (label : String) (v : Json) :
    Except Failure (List Document) :=
  match inputs.filter with
  | none => .ok [⟨label, v⟩]
  | some text => do
    let filter ← (files.compile text).mapError (.filter label)
    let values ← (filter.documents v).mapError (.filter label)
    pure (values.mapIdx fun i v => ⟨s!"{label}#{i}", v⟩)

/-- The documents of a value that has been read. -/
def select (inputs : Inputs) (files : Files) (label : String) (v : Json) :
    Except Failure (List Document) := do
  let part ← inputs.focus label v
  inputs.documentsOf files label part

/-- The lines of a file that are not blank, with their labels: the path and the
number of the line, counted from one among all lines. -/
def labelledLines (path text : String) : List (String × String) :=
  ((lines text).mapIdx fun i line => (s!"{path}:{i + 1}", line)).filter fun line =>
    !isBlankText line.2

/-- The documents of one line. -/
def loadLine (inputs : Inputs) (files : Files) (line : String × String) :
    Except Failure (List Document) := do
  let v ← (Json.ofText Json.nestingLimit line.2).mapError (.malformedLine line.1)
  inputs.select files line.1 v

/-- The documents of the text of a file. -/
def loadText (inputs : Inputs) (files : Files) (path text : String) :
    Except Failure (List Document) :=
  if inputs.ndjson then do
    let documents ← (labelledLines path text).mapM (inputs.loadLine files)
    pure documents.flatten
  else do
    let v ← (Json.ofText Json.nestingLimit text).mapError (.malformedDocument path)
    inputs.select files path v

/-- The documents of a file. -/
def loadFile (inputs : Inputs) (files : Files) (path : String) :
    Except Failure (List Document) := do
  let text ← (files.read path).mapError (.unreadable path)
  inputs.loadText files path text

/-- The documents of all inputs. There has to be one at least. -/
def load (inputs : Inputs) (files : Files) : Except Failure (List Document) := do
  let paths ← inputs.resolve files
  let documents ← paths.mapM (inputs.loadFile files)
  atLeastOne .noDocuments documents.flatten

end Inputs

end JsonTypes.CommandLine
