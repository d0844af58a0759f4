/-
The arguments of the command line.

    check --type TYPE --input PATH.. [--ndjson] [--json-pointer P] [--jq-expr F]
          [--config FILE] [--discriminator KEY] [--debug] [--quiet]
    definitions [--config FILE] [--discriminator KEY] [--debug]

* `Command`: what is asked for, with `Inputs` and `Settings`.
* `Notice`: what is answered without running a command.
* `Reading.step`: one argument. The input paths extend to the next option. No
  flag and no option other than `--input` may be repeated.
* `Command.ofArguments`: the command of a list of arguments.
-/

namespace JsonTypes.CommandLine

/-! ### Commands -/

/-- Which documents are checked. -/
structure Inputs where
  /-- Paths of files, and patterns for such paths. -/
  paths : List String
  /-- Whether every line of a file is a document. -/
  ndjson : Bool
  /-- The part of each document that is looked at. -/
  pointer : Option String
  /-- The filter that yields the documents. -/
  filter : Option String
deriving DecidableEq, Repr

/-- How documents are checked and definitions validated. -/
structure Settings where
  /-- The configuration file. -/
  config : Option String
  discriminator : Option String
  debug : Bool
deriving DecidableEq, Repr

/-- The check of documents. -/
structure CheckCommand where
  type : String
  inputs : Inputs
  settings : Settings
  /-- Whether only failures are reported. -/
  quiet : Bool
deriving DecidableEq, Repr

/-- What is asked for. -/
inductive Command where
  | check (command : CheckCommand)
  | definitions (settings : Settings)
deriving DecidableEq, Repr

/-- The settings of a command. -/
def Command.settings : Command → Settings
  | check command => command.settings
  | definitions settings => settings

/-- What is answered without running a command. -/
inductive Notice where
  | version
  | help
  /-- The arguments are no command. -/
  | usage
deriving DecidableEq, Repr

/-- The two commands without their arguments. -/
inductive Verb where
  | check
  | definitions
deriving DecidableEq, Repr

/-! ### Options -/

/-- The flags. -/
inductive Flag where
  | ndjson
  | debug
  | quiet
deriving DecidableEq, Repr

/-- The options that take a value. -/
inductive Key where
  | type
  | input
  | pointer
  | filter
  | config
  | discriminator
deriving DecidableEq, Repr

/-- What the name of an option stands for. -/
inductive Setting where
  | flag (f : Flag)
  | valued (k : Key)
  | help
deriving DecidableEq, Repr

/-- The long names of options. -/
def longNames : List (String × Setting) := [
  ("type", .valued .type), ("input", .valued .input),
  ("json-pointer", .valued .pointer), ("jq-expr", .valued .filter),
  ("config", .valued .config), ("discriminator", .valued .discriminator),
  ("ndjson", .flag .ndjson), ("debug", .flag .debug), ("quiet", .flag .quiet),
  ("help", .help)]

/-- The short names of options. -/
def shortNames : List (Char × Setting) :=
  [('t', .valued .type), ('i', .valued .input), ('q', .flag .quiet), ('h', .help)]

/-- Whether a command knows an option. -/
def Verb.knows : Verb → Setting → Bool
  | check, _ => true
  | definitions, setting =>
    setting ∈ [.valued .config, .valued .discriminator, .flag .debug, .help]

/-! ### Reading -/

/-- What the next argument may be. -/
inductive Awaited where
  /-- An option. -/
  | option
  /-- The value of an option. -/
  | value (k : Key)
  /-- One more value of an option, or an option. -/
  | further (k : Key)
  /-- Nothing: the end of the options has been marked. -/
  | nothing

/-- The flags and values that have been read, in order, and what is awaited. -/
structure Reading where
  awaited : Awaited
  flags : List Flag
  values : List (Key × String)

namespace Reading

/-- The state before the first argument. -/
def start : Reading := ⟨.option, [], []⟩

/-- Whether a flag is raised. -/
def raised (reading : Reading) (f : Flag) : Bool := reading.flags.contains f

/-- The values of an option. -/
def valuesOf (reading : Reading) (k : Key) : List String :=
  (reading.values.filter fun given => given.1 == k).map Prod.snd

/-- The value of an option. -/
def value? (reading : Reading) (k : Key) : Option String := (reading.valuesOf k).head?

/-- Whether an option may take a value where it stands: the name of the
configuration must not be empty, and only the inputs may be given again. -/
def admits (reading : Reading) (k : Key) (value : String) : Bool :=
  match k with
  | .input => true
  | .config => value ≠ "" && (reading.value? .config).isNone
  | _ => (reading.value? k).isNone

/-- The state behind a value. Only the inputs may be more than one, and only if
their first one is an argument of its own. -/
def give (reading : Reading) (k : Key) (value : String) (attached : Bool) :
    Except Notice Reading :=
  if reading.admits k value then
    let awaited := if k = .input ∧ !attached then .further k else .option
    .ok ⟨awaited, reading.flags, reading.values ++ [(k, value)]⟩
  else .error .usage

/-- The state behind a flag. -/
def raise (reading : Reading) (f : Flag) : Except Notice Reading :=
  if reading.raised f then .error .usage
  else .ok ⟨.option, reading.flags ++ [f], reading.values⟩

/-- A long option, with a value behind an equals sign if there is one. -/
def long (verb : Verb) (reading : Reading) (text : List Char) : Except Notice Reading :=
  let name := text.takeWhile (· != '=')
  match (longNames.lookup (String.ofList name)).filter verb.knows, text.drop name.length with
  | some (.flag f), [] => reading.raise f
  | some (.valued k), [] => .ok { reading with awaited := .value k }
  | some (.valued k), _ :: value => reading.give k (String.ofList value) true
  | some .help, [] => .error .help
  | _, _ => .error .usage

/-- Short options written together. The rest behind an option that takes a value
is its value. -/
def short (verb : Verb) (reading : Reading) : List Char → Except Notice Reading
  | [] => .ok reading
  | c :: rest =>
    match (shortNames.lookup c).filter verb.knows with
    | some (.flag f) => do
      let next ← reading.raise f
      short verb next rest
    | some (.valued k) =>
      match rest with
      | [] => .ok { reading with awaited := .value k }
      | '=' :: value => reading.give k (String.ofList value) true
      | value => reading.give k (String.ofList value) true
    | some .help => .error .help
    | none => .error .usage

/-- One argument. A single dash is a value, two dashes mark the end of the
options. -/
def step (verb : Verb) (reading : Reading) (argument : String) : Except Notice Reading :=
  match reading.awaited, argument.toList with
  | .nothing, _ | .value _, '-' :: _ :: _ => .error .usage
  | _, ['-', '-'] => .ok { reading with awaited := .nothing }
  | _, '-' :: '-' :: text => reading.long verb text
  | _, '-' :: c :: text => reading.short verb (c :: text)
  | .value k, _ | .further k, _ => reading.give k argument false
  | .option, _ => .error .usage

/-- All arguments. -/
def run (verb : Verb) (reading : Reading) : List String → Except Notice Reading
  | [] =>
    match reading.awaited with
    | .value _ => .error .usage
    | _ => .ok reading
  | argument :: rest => do
    let next ← reading.step verb argument
    next.run verb rest

/-- The settings that have been read. -/
def settings (reading : Reading) : Settings :=
  ⟨reading.value? .config, reading.value? .discriminator, reading.raised .debug⟩

/-- The inputs that have been read. -/
def inputs (reading : Reading) : Inputs :=
  ⟨reading.valuesOf .input, reading.raised .ndjson, reading.value? .pointer,
    reading.value? .filter⟩

/-- The command that has been read. -/
def command (reading : Reading) : Verb → Except Notice Command
  | .definitions => .ok (.definitions reading.settings)
  | .check =>
    match reading.value? .type, reading.valuesOf .input with
    | none, _ | _, [] => .error .usage
    | some type, _ =>
      .ok (.check ⟨type, reading.inputs, reading.settings, reading.raised .quiet⟩)

end Reading

/-- The command of a verb and its arguments. -/
def Verb.command (verb : Verb) (arguments : List String) : Except Notice Command := do
  let reading ← Reading.start.run verb arguments
  reading.command verb

/-- The command of a list of arguments. -/
def Command.ofArguments : List String → Except Notice Command
  | [] => .error .usage
  | first :: rest =>
    match first with
    | "check" => Verb.check.command rest
    | "definitions" => Verb.definitions.command rest
    | "--version" => .error .version
    | "--help" => .error .help
    | "help" =>
      if rest ∈ [[], ["check"], ["definitions"], ["help"]] then .error .help
      else .error .usage
    | _ =>
      match first.toList with
      | '-' :: 'V' :: _ => .error .version
      | '-' :: 'h' :: _ => .error .help
      | _ => .error .usage

end JsonTypes.CommandLine
