/-
Places in a JSON text, and what can be wrong there.

Lines count from one. Columns count bytes, and a column is the number of bytes
of the line in front of the place, so that it is zero right after a line break.

* `Place`, `Place.advance`: the place behind a character.
* `Place.afterBytes`: the place a number of bytes further, which may lie inside
  a character.
* `ReadFault`, `ReadError`: what is wrong with a text, and where.
-/

namespace JsonTypes

/-! ### Places -/

/-- A place in a text. -/
structure Place where
  line : Nat
  column : Nat
deriving DecidableEq, Repr

namespace Place

/-- The start of a text. -/
def start : Place := ⟨1, 0⟩

/-- The place behind a character. -/
def advance (p : Place) (c : Char) : Place :=
  if c = '\n' then ⟨p.line + 1, 0⟩ else ⟨p.line, p.column + c.utf8Size⟩

/-- The place behind a number of characters of one byte each. -/
def forward (p : Place) (count : Nat) : Place := ⟨p.line, p.column + count⟩

/-- The place behind some characters. -/
def advanceAll (p : Place) (text : List Char) : Place :=
  text.foldl advance p

/-- The place a number of bytes further in the text that starts here, or the end
of the text. -/
def afterBytes (p : Place) : (count : Nat) → List Char → Place
  | 0, _ | _, [] => p
  | count + 1, c :: rest =>
    if count + 1 < c.utf8Size then p.forward (count + 1)
    else (p.advance c).afterBytes (count + 1 - c.utf8Size) rest

end Place

/-! ### Errors -/

/-- What can be wrong with a JSON text. -/
inductive ReadFault where
  | endInValue
  | endInObject
  | endInList
  | endInString
  | expectedValue
  | expectedLiteral
  | expectedColon
  | expectedCommaOrBrace
  | expectedCommaOrBracket
  | keyNotString
  | trailingComma
  | trailingCharacters
  | invalidNumber
  | numberOutOfRange
  | invalidEscape
  | loneSurrogate
  | missingSurrogate
  | controlCharacter
  | tooDeep
deriving DecidableEq, Repr

/-- The message of a fault. -/
def ReadFault.message : ReadFault → String
  | endInValue => "EOF while parsing a value"
  | endInObject => "EOF while parsing an object"
  | endInList => "EOF while parsing a list"
  | endInString => "EOF while parsing a string"
  | expectedValue => "expected value"
  | expectedLiteral => "expected ident"
  | expectedColon => "expected `:`"
  | expectedCommaOrBrace => "expected `,` or `\x7d`"
  | expectedCommaOrBracket => "expected `,` or `]`"
  | keyNotString => "key must be a string"
  | trailingComma => "trailing comma"
  | trailingCharacters => "trailing characters"
  | invalidNumber => "invalid number"
  | numberOutOfRange => "number out of range"
  | invalidEscape => "invalid escape"
  | loneSurrogate => "lone leading surrogate in hex escape"
  | missingSurrogate => "unexpected end of hex escape"
  | controlCharacter => "control character (\\u0000-\\u001F) found while parsing a string"
  | tooDeep => "recursion limit exceeded"

/-- A message with a place behind it. -/
def Place.annotate (p : Place) (message : String) : String :=
  message ++ s!" at line {p.line} column {p.column}"

/-- A fault at a place. -/
structure ReadError where
  fault : ReadFault
  place : Place
deriving DecidableEq, Repr

/-- The message of an error. -/
def ReadError.message (e : ReadError) : String :=
  e.place.annotate e.fault.message

end JsonTypes
