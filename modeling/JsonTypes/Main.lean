/-
The program: it reads the files that a command asks about, runs the command and
writes what the run yields.

* `main`.
-/
import JsonTypes.CommandLine.Run

namespace JsonTypes.CommandLine

/-! ### Directories -/

/-- Looks at directories, and notes the ones that cannot be read. -/
abbrev Survey : Type → Type := StateT (List SearchFault) IO

namespace Survey

/-- The names in a directory. -/
def names (path : String) : Survey (List String) := do
  let top ← IO.currentDir
  try
    let found ← (top / path).readDir
    return found.toList.map (·.fileName)
  catch e =>
    modify (· ++ [⟨path, .other (toString e)⟩])
    return []

/-- A directory with the given names in it, the directories among them seen by `look`. -/
def directory (path : String) (names : List String) (look : String → Survey (FileTree Unit)) :
    Survey (FileTree Unit) := do
  let top ← IO.currentDir
  let entries ← names.mapM fun name => do
    let inner := FileTree.inside path name
    if ← (top / inner).isDir then return (name, ← look inner) else return (name, .file ())
  return .directory (Table.ofList entries)

/-- Everything inside a directory, down to a depth. -/
def everything : (depth : Nat) → (path : String) → Survey (FileTree Unit)
  | 0, _ => return .bare
  | depth + 1, path => do directory path (← names path) (everything depth)

/-- No path has more components than this. -/
def deepestPath : Nat := 4096

/-- What some components of a pattern lead to, none of them upwards. -/
def along : List NamePattern → (path : String) → Survey (FileTree Unit)
  | [], _ => return .bare
  | pattern :: rest, path => do
    if pattern.isRecursive then everything deepestPath path
    else
      match pattern.literal? with
      | some "." | some "" => along rest path
      | some name =>
        let top ← IO.currentDir
        let found ← (top / FileTree.inside path name).pathExists
        directory path (if found then [name] else []) (along rest)
      | none => directory path ((← names path).filter pattern.accepts) (along rest)

/-- Whether a component can lead upwards. -/
def leadsUp (pattern : NamePattern) : Bool :=
  match pattern.literal? with
  | some name => name == ".."
  | none => pattern.startsWithDot

/-- The file system as far as a pattern leads. Where it can lead upwards, more is
looked at than it needs, and nothing is noted. -/
def ofGlob (glob : Glob) : Survey (FileSystem Unit) := do
  if glob.components.any leadsUp then
    let depth :=
      if glob.components.any NamePattern.isRecursive then deepestPath else glob.components.length
    let ups := if glob.rooted then [] else
      (List.range glob.components.length).map fun k =>
        "/".intercalate (List.replicate (k + 1) "..")
    let around ← ups.mapM (everything depth)
    let home ← everything depth glob.start
    set ([] : List SearchFault)
    return ⟨around, home⟩
  else return ⟨[], ← along glob.components glob.start⟩

/-- What the search for a pattern comes across. A directory that cannot be read
ends the run, wherever it stands. -/
def search (text : String) : IO (Except PatternError (List (Except SearchFault String))) :=
  match Glob.ofText text with
  | .error e => return .error e
  | .ok glob => do
    let (system, faults) ← (ofGlob glob).run []
    return .ok (faults.map .error ++ (glob.search system).map .ok)

end Survey

/-! ### Files -/

/-- What an error of the system means for the reading of the file at a path. -/
def faultOf (path : String) : IO.Error → IO FileFault
  | .noFileOrDirectory .. => return .notFound
  | e => do
    let top ← IO.currentDir
    if ← (top / path).isDir then return .isDirectory
    match e with
    | .inappropriateType .. => return .notDirectory
    | .invalidArgument .. => return .nameTooLong
    | e => return .other (toString e)

/-- The text of the file at a path. -/
def readText (path : String) : IO (Except FileFault String) := do
  if let some fault := FileTree.pathFault? path then return .error fault
  try
    let bytes ← IO.FS.readBinFile path
    match String.fromUTF8? bytes with
    | some text => return .ok text
    | none => return .error .notText
  catch e => return .error (← faultOf path e)

/-- The inputs of a command. -/
def Command.paths : Command → List String
  | .check command => command.inputs.paths
  | .definitions _ => []

/-- The answers to everything that a run of a command can ask. -/
def readFiles (command : Command) : IO Files := do
  let searches ← (command.paths.filter Glob.isPattern).mapM fun text => do
    return (text, ← Survey.search text)
  let search := fun text => (searches.lookup text).getD (.ok [])
  let resolved := command.paths.map
    (Files.resolve ⟨search, fun _ => .error .notFound, Filter.ofText⟩)
  let paths := (resolved.filterMap Except.toOption).flatten
  let texts ← (command.settings.config.toList ++ paths).mapM fun path => do
    return (path, ← readText path)
  return ⟨search, fun path => (texts.lookup path).getD (.error .notFound), Filter.ofText⟩

/-! ### The log -/

/-- The part of the program that reports an event. -/
def originOf : Event → String
  | .expandingForCheck _ | .failed .. => "json_adt::check"
  | _ => "json_adt::definition"

/-- The line of the log about an event, without its time. -/
def logLine (event : Event) : String :=
  " ".intercalate ([event.level, originOf event ++ ":", event.message] ++
    event.values.map fun (name, v) => name ++ "=" ++ v)

/-- The log of a run that debugs: events of the level for debugging. -/
def logText (settings : Settings) (events : List Event) : String :=
  if settings.debug then joinLines ((events.filter (·.level == "DEBUG")).map logLine) else ""

/-! ### The program -/

/-- The text about the use of the program. -/
def usageText : String :=
  "Usage: json-adt check --type <TYPE> --input <PATH>... [OPTIONS]\n" ++
  "       json-adt definitions [OPTIONS]\n" ++
  "\n" ++
  "Options:\n" ++
  "  -t, --type <TYPE>          type expression, such as 'List(number)'\n" ++
  "  -i, --input <PATH>...      files or quoted patterns\n" ++
  "      --ndjson               every line of a file is a document\n" ++
  "      --json-pointer <P>     the part of each document that is checked\n" ++
  "      --jq-expr <FILTER>     a filter that yields the documents\n" ++
  "      --config <FILE>        configuration file\n" ++
  "      --discriminator <KEY>  the key that names the variant of a value\n" ++
  "      --debug                turn debugging on\n" ++
  "  -q, --quiet                only report failures\n" ++
  "  -h, --help                 print this text\n" ++
  "  -V, --version              print the version\n"

/-- Answers a notice. -/
def Notice.answer : Notice → IO UInt32
  | .version => do
    IO.print versionText
    return 0
  | .help => do
    IO.print usageText
    return 0
  | .usage => do
    IO.eprint usageText
    return 2

/-- Writes an outcome. -/
def Outcome.write (outcome : Outcome) (log : List Event → String) : IO UInt32 := do
  IO.print outcome.output
  IO.eprint (outcome.errorStream log)
  return outcome.code.toUInt32

end JsonTypes.CommandLine

open JsonTypes.CommandLine in
/-- Runs the command of the arguments. -/
def main (arguments : List String) : IO UInt32 := do
  match Command.ofArguments arguments with
  | .error notice => notice.answer
  | .ok command =>
    let files ← readFiles command
    let colored ← (← IO.getStdout).isTty
    (command.run files colored).write (logText command.settings)
