/-
Reading configurations.

A configuration is written as an object with some of the fields, each at most
once, or as an array of their values in order. What follows it in the text is not
looked at. A key is refused as soon as it has been read.

* `Field`: the fields of a configuration; `Given`: those read so far.
* `ConfigFault`, `ConfigError`: what is wrong, where in the configuration and
  where in the text.
* `Field.read`: the value of a field from a token.
* `MemberStage`, `ItemStage`: what may come next in an object or an array.
* `Config.ofText`: the configuration of a text.
-/
import JsonTypes.Config.Basic
import JsonTypes.Json.Token
import JsonTypes.Text.Visible

namespace JsonTypes

namespace Config

/-! ### Fields -/

/-- The fields of a configuration. -/
inductive Field where
  | discriminator
  | debug
  | maxDepth
deriving DecidableEq, Repr

namespace Field

/-- The fields in order. -/
def all : List Field := [discriminator, debug, maxDepth]

/-- The key of a field. -/
def key : Field → String
  | discriminator => "discriminator"
  | debug => "debug"
  | maxDepth => "max_definition_depth"

/-- The field of a key. -/
def ofKey? (key : String) : Option Field :=
  all.find? fun field => field.key == key

/-- What the value of a field has to be. -/
def wanted : Field → String
  | discriminator => "a string"
  | debug => "a boolean"
  | maxDepth => "usize"

end Field

/-- The fields that have been read. -/
structure Given where
  discriminator : Option String
  debug : Option Bool
  maxDepth : Option Nat
deriving DecidableEq, Repr

namespace Given

/-- No field has been read. -/
def none : Given := ⟨.none, .none, .none⟩

/-- Whether a field has been read. -/
def has (given : Given) : Field → Bool
  | .discriminator => given.discriminator.isSome
  | .debug => given.debug.isSome
  | .maxDepth => given.maxDepth.isSome

/-- The configuration with the fields that have been read and the standard
values of the others. -/
def config (given : Given) : Config where
  discriminator := given.discriminator.getD Config.standard.discriminator
  debug := given.debug.getD Config.standard.debug
  maxDepth := given.maxDepth.getD Config.standard.maxDepth

end Given

/-! ### Errors -/

/-- What can be wrong with a configuration. -/
inductive ConfigFault where
  /-- The text is no JSON. -/
  | unreadable (fault : ReadFault)
  /-- A value of another type. -/
  | invalidType (found wanted : String)
  /-- A value of the right type that is not allowed. -/
  | invalidValue (found wanted : String)
  /-- A key of no field. -/
  | unknownField (key : String)
  /-- A key for the second time. -/
  | duplicateField (key : String)
deriving DecidableEq, Repr

/-- The message of a fault. -/
def ConfigFault.message : ConfigFault → String
  | .unreadable fault => fault.message
  | .invalidType found wanted => "invalid type: " ++ found ++ ", expected " ++ wanted
  | .invalidValue found wanted => "invalid value: " ++ found ++ ", expected " ++ wanted
  | .unknownField key =>
    "unknown field `" ++ key ++ "`, expected one of " ++
      String.intercalate ", " (Field.all.map fun field => "`" ++ field.key ++ "`")
  | .duplicateField key => "duplicate field `" ++ key ++ "`"

/-- Where in a configuration a fault is. -/
inductive ConfigPath where
  /-- The configuration itself. -/
  | top
  /-- A member whose key could not be read. -/
  | unread
  /-- The value of a key. -/
  | key (name : String)
  /-- An item of the array. -/
  | item (index : Nat)
deriving DecidableEq, Repr

/-- The text of a path. -/
def ConfigPath.text : ConfigPath → String
  | .top => "."
  | .unread => "?"
  | .key name => name
  | .item index => s!"[{index}]"

/-- A fault, where it is in the configuration and where in the text. -/
structure ConfigError where
  path : ConfigPath
  fault : ConfigFault
  place : Place
deriving DecidableEq, Repr

/-- The message of an error. -/
def ConfigError.message (e : ConfigError) : String :=
  "at JSON path " ++ e.path.text ++ " → " ++ e.place.annotate e.fault.message

/-- The error that the text is no JSON. -/
def unreadable (path : ConfigPath) (fault : ReadFault) (place : Place) : ConfigError :=
  ⟨path, .unreadable fault, place⟩

/-- The error that a part of the text cannot be read. -/
def unreadPart (path : ConfigPath) (e : ReadError) : ConfigError :=
  unreadable path e.fault e.place

/-! ### Values -/

/-- What messages call a value that has been read. -/
def describeLiteral : Json → String
  | .null => "null"
  | .boolean b => "boolean `" ++ (if b then "true" else "false") ++ "`"
  | .number (.integer n) => "integer `" ++ toString n ++ "`"
  | .number (.double x) => "floating point `" ++ Number.doubleText x ++ "`"
  | .string s => "string " ++ shownText s
  | .array _ => "sequence"
  | .object _ => "map"

/-- The error that a token is no value of the wanted type. -/
def wrongType (path : ConfigPath) (wanted : String) (token : Token) : ConfigError :=
  match token.lexeme with
  | .text (.ok s) => ⟨path, .invalidType (describeLiteral (.string s)) wanted, token.stop⟩
  | .literal (.ok v) => ⟨path, .invalidType (describeLiteral v) wanted, token.stop⟩
  | .text (.error e) | .literal (.error e) => unreadPart path e
  | .openBracket => ⟨path, .invalidType "sequence" wanted, token.start⟩
  | .openBrace => ⟨path, .invalidType "map" wanted, token.start⟩
  | _ => unreadable path .expectedValue token.pointed

/-- Reads the value of a field from a token. -/
def Field.read (field : Field) (path : ConfigPath) (given : Given) (token : Token) :
    Except ConfigError Given :=
  match field, token.lexeme with
  | .discriminator, .text (.ok s) => .ok { given with discriminator := some s }
  | .debug, .literal (.ok (.boolean b)) => .ok { given with debug := some b }
  | .maxDepth, .literal (.ok (.number (.integer n))) =>
    if 0 ≤ n then .ok { given with maxDepth := some n.toNat }
    else
      .error ⟨path, .invalidValue (describeLiteral (.number (.integer n))) field.wanted,
        token.stop⟩
  | _, _ => .error (wrongType path field.wanted token)

/-! ### Objects -/

/-- What may come next in an object. -/
inductive MemberStage where
  /-- A key, or the end of the object that has just been opened. -/
  | firstKey
  /-- A key. -/
  | key
  /-- The colon behind the key of a field. -/
  | colon (field : Field)
  /-- The value of a field. -/
  | value (field : Field)
  /-- A comma, or the end of the object. -/
  | separator
  /-- Nothing: the object is complete. -/
  | complete
deriving DecidableEq, Repr

/-- The place that is told when a key is refused: white space behind the key is
passed, and the end of the object with it. -/
def behindKey (finish : Place) : (behind : List Token) → Place
  | [] => finish
  | token :: _ =>
    match token.lexeme with
    | .closeBrace => token.stop
    | _ => token.start

/-- Reads a key. `behind` is the place that is told when it is refused. -/
def readKey (behind : Place) (given : Given) (token : Token) : Except ConfigError Field :=
  match token.lexeme with
  | .text (.ok key) =>
    match Field.ofKey? key with
    | none => .error ⟨.key key, .unknownField key, behind⟩
    | some field =>
      if given.has field then .error ⟨.top, .duplicateField key, behind⟩ else .ok field
  | .text (.error e) => .error (unreadPart .unread e)
  | _ => .error (unreadable .unread .keyNotString token.pointed)

/-- One token of an object that is not complete. `behind` is the place that is
told when a key is refused. -/
def stepMember (stage : MemberStage) (behind : Place) (given : Given) (token : Token) :
    Except ConfigError (MemberStage × Given) :=
  match stage, token.lexeme with
  | .complete, _ => .ok (.complete, given)
  | .firstKey, .closeBrace | .separator, .closeBrace => .ok (.complete, given)
  | .key, .closeBrace => .error (unreadable .unread .trailingComma token.pointed)
  | .firstKey, _ | .key, _ =>
    (readKey behind given token).map fun field => (.colon field, given)
  | .colon field, .colon => .ok (.value field, given)
  | .colon _, _ => .error (unreadable .top .expectedColon token.pointed)
  | .value field, _ =>
    (field.read (.key field.key) given token).map fun given => (.separator, given)
  | .separator, .comma => .ok (.key, given)
  | .separator, _ => .error (unreadable .unread .expectedCommaOrBrace token.pointed)

/-- The end of the text inside an object. -/
def finishMembers (stage : MemberStage) (given : Given) (p : Place) : Except ConfigError Given :=
  match stage with
  | .complete => .ok given
  | .firstKey | .separator => .error (unreadable .unread .endInObject p)
  | .key => .error (unreadable .unread .endInValue p)
  | .colon _ => .error (unreadable .top .endInObject p)
  | .value field => .error (unreadable (.key field.key) .endInValue p)

/-- The fields of an object. Tokens behind the object are not looked at. -/
def readMembers (finish : Place) (stage : MemberStage) (given : Given) :
    List Token → Except ConfigError Given
  | [] => finishMembers stage given finish
  | token :: rest =>
    if stage = .complete then .ok given
    else
      match stepMember stage (behindKey finish rest) given token with
      | .error e => .error e
      | .ok (next, given) => readMembers finish next given rest

/-! ### Arrays -/

/-- What may come next in an array. -/
inductive ItemStage where
  /-- The first value, or the end of the array. -/
  | first
  /-- A value. -/
  | value
  /-- A comma, or the end of the array. -/
  | separator
  /-- The end of the array behind a comma that no value may follow. -/
  | surplus
  /-- Nothing: the array is complete. -/
  | complete
deriving DecidableEq, Repr

/-- One token of an array that is not complete; `fields` are the fields whose
values are still to come, `index` the number of those that have been read. -/
def stepItem (stage : ItemStage) (index : Nat) (fields : List Field) (given : Given)
    (token : Token) : Except ConfigError (ItemStage × Nat × List Field × Given) :=
  match stage, token.lexeme with
  | .complete, _ => .ok (.complete, index, fields, given)
  | .first, .closeBracket | .separator, .closeBracket => .ok (.complete, index, fields, given)
  | .value, .closeBracket | .surplus, .closeBracket =>
    .error (unreadable .top .trailingComma token.pointed)
  | .surplus, _ => .error (unreadable .top .trailingCharacters token.pointed)
  | .first, _ | .value, _ =>
    match fields with
    | field :: later =>
      (field.read (.item index) given token).map fun given =>
        (.separator, index + 1, later, given)
    | [] => .error (unreadable .top .trailingCharacters token.pointed)
  | .separator, .comma =>
    .ok (if fields.isEmpty then .surplus else .value, index, fields, given)
  | .separator, _ =>
    .error (unreadable .top
      (if fields.isEmpty then .trailingCharacters else .expectedCommaOrBracket) token.pointed)

/-- The end of the text inside an array. -/
def finishItems (stage : ItemStage) (given : Given) (p : Place) : Except ConfigError Given :=
  match stage with
  | .complete => .ok given
  | .first | .separator => .error (unreadable .top .endInList p)
  | .value => .error (unreadable .top .endInValue p)
  | .surplus => .error (unreadable .top .trailingCharacters p)

/-- The fields of an array. Tokens behind the array are not looked at. -/
def readItems (finish : Place) (stage : ItemStage) (index : Nat) (fields : List Field)
    (given : Given) : List Token → Except ConfigError Given
  | [] => finishItems stage given finish
  | token :: rest =>
    if stage = .complete then .ok given
    else
      match stepItem stage index fields given token with
      | .error e => .error e
      | .ok (next, index, fields, given) => readItems finish next index fields given rest

/-! ### Configurations -/

/-- The fields that a text gives. -/
def Given.ofTokens (tokens : Tokens) : Except ConfigError Given :=
  match tokens.list with
  | [] => .error (unreadable .top .endInValue tokens.finish)
  | token :: rest =>
    match token.lexeme with
    | .openBrace => readMembers tokens.finish .firstKey .none rest
    | .openBracket => readItems tokens.finish .first 0 Field.all .none rest
    | _ => .error (wrongType .top "struct Config" token)

/-- The configuration of a text. -/
def ofText (text : String) : Except ConfigError Config :=
  (Given.ofTokens (.ofText text)).map Given.config

end Config

end JsonTypes
