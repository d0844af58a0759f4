/-
Reading JSON values.

The tokens are read from left to right by a machine whose stack holds the arrays
and objects that are still open.

* `Frame`: an open array or object; `Expecting`: what may come next.
* `Reader.step`: one token; `Reader.finish`: the end of the text.
* `Json.ofText`: the value of a text. Nothing may follow the value, and arrays
  and objects may be nested to a limit.
-/
import JsonTypes.Json.Token

namespace JsonTypes

/-! ### The state of reading -/

/-- An array or object that is open, with what it holds so far, the last one
first. An object keeps the key whose value is being read. -/
inductive Frame where
  | array (reversed : List Json)
  | object (reversed : List (String × Json)) (key : String)

/-- What may come next. -/
inductive Expecting where
  /-- A value. -/
  | value
  /-- A value, or the end of the array that has just been opened. -/
  | firstItem
  /-- A key, or the end of the object that has just been opened. -/
  | firstKey
  /-- A key. -/
  | key
  /-- The colon behind a key. -/
  | colon
  /-- A comma, or the end of the innermost array or object. -/
  | separator
  /-- Nothing: the value of the text is complete. -/
  | nothing (v : Json)

/-- The state of reading, the innermost frame first. -/
structure Reader where
  expecting : Expecting
  stack : List Frame

namespace Reader

/-- The state before the first token. -/
def start : Reader := ⟨.value, []⟩

/-- The state behind a value. -/
def complete (v : Json) : List Frame → Reader
  | [] => ⟨.nothing v, []⟩
  | .array reversed :: outer => ⟨.separator, .array (v :: reversed) :: outer⟩
  | .object reversed key :: outer => ⟨.separator, .object ((key, v) :: reversed) key :: outer⟩

/-- The state behind an opened array or object. -/
def opened (limit : Nat) (token : Token) (expecting : Expecting) (frame : Frame)
    (stack : List Frame) : Except ReadError Reader :=
  if stack.length + 1 < limit then .ok ⟨expecting, frame :: stack⟩
  else .error ⟨.tooDeep, token.pointed⟩

/-! ### Steps -/

/-- A token where a value has to stand. -/
def stepValue (limit : Nat) (stack : List Frame) (token : Token) : Except ReadError Reader :=
  match token.lexeme with
  | .text content => content.map fun s => complete (.string s) stack
  | .literal content => content.map fun v => complete v stack
  | .openBracket => opened limit token .firstItem (.array []) stack
  | .openBrace => opened limit token .firstKey (.object [] "") stack
  | _ => .error ⟨.expectedValue, token.pointed⟩

/-- A token where a key has to stand. -/
def stepKey (stack : List Frame) (token : Token) : Except ReadError Reader :=
  match token.lexeme, stack with
  | .text content, .object reversed _ :: outer =>
    content.map fun key => ⟨.colon, .object reversed key :: outer⟩
  | _, _ => .error ⟨.keyNotString, token.pointed⟩

/-- A token behind a value inside an array or object. -/
def stepSeparator (stack : List Frame) (token : Token) : Except ReadError Reader :=
  match token.lexeme, stack with
  | .comma, .array _ :: _ => .ok ⟨.value, stack⟩
  | .closeBracket, .array reversed :: outer =>
    .ok (complete (.ofItems reversed.reverse) outer)
  | _, .array _ :: _ => .error ⟨.expectedCommaOrBracket, token.pointed⟩
  | .comma, .object .. :: _ => .ok ⟨.key, stack⟩
  | .closeBrace, .object reversed _ :: outer =>
    .ok (complete (.ofMembers reversed.reverse) outer)
  | _, _ => .error ⟨.expectedCommaOrBrace, token.pointed⟩

/-- One token. -/
def step (limit : Nat) (reader : Reader) (token : Token) : Except ReadError Reader :=
  match reader.expecting, token.lexeme with
  | .firstItem, .closeBracket => .ok (complete (.ofItems []) (reader.stack.drop 1))
  | .firstKey, .closeBrace => .ok (complete (.ofMembers []) (reader.stack.drop 1))
  | .value, .closeBracket =>
    match reader.stack with
    | .array _ :: _ => .error ⟨.trailingComma, token.pointed⟩
    | _ => .error ⟨.expectedValue, token.pointed⟩
  | .key, .closeBrace => .error ⟨.trailingComma, token.pointed⟩
  | .value, _ | .firstItem, _ => stepValue limit reader.stack token
  | .firstKey, _ | .key, _ => stepKey reader.stack token
  | .colon, .colon => .ok ⟨.value, reader.stack⟩
  | .colon, _ => .error ⟨.expectedColon, token.pointed⟩
  | .separator, _ => stepSeparator reader.stack token
  | .nothing _, _ => .error ⟨.trailingCharacters, token.pointed⟩

/-- The end of the text. -/
def finish (reader : Reader) (p : Place) : Except ReadError Json :=
  match reader.expecting, reader.stack with
  | .nothing v, _ => .ok v
  | .value, _ | .key, _ => .error ⟨.endInValue, p⟩
  | .firstItem, _ | .separator, .array _ :: _ => .error ⟨.endInList, p⟩
  | _, _ => .error ⟨.endInObject, p⟩

/-- The value that the remaining tokens complete. -/
def run (limit : Nat) (finish : Place) (reader : Reader) : List Token → Except ReadError Json
  | [] => reader.finish finish
  | token :: rest =>
    match reader.step limit token with
    | .error e => .error e
    | .ok next => next.run limit finish rest

end Reader

/-- The value of a text, with arrays and objects nested below a limit. -/
def Json.ofText (limit : Nat) (text : String) : Except ReadError Json :=
  let tokens := Tokens.ofText text
  Reader.start.run limit tokens.finish tokens.list

end JsonTypes
