/-
Quoted strings of JSON texts.

* `readHex`, `readUnicode`: the four digits of a code unit, and the character of
  one unit or of a pair of surrogates.
* `readEscape`: the character that an escape stands for.
* `readQuoted`: the characters up to the closing quote.
* `quote`: a string with the quotes around it and escapes in it.
-/
import JsonTypes.Json.Literal

namespace JsonTypes

/-! ### Escapes -/

/-- The value of a hexadecimal digit. -/
def hexValue? (c : Char) : Option Nat :=
  if c.isDigit then some (digitValue c)
  else if 'a' ≤ c ∧ c ≤ 'f' then some (c.toNat - 'a'.toNat + 10)
  else if 'A' ≤ c ∧ c ≤ 'F' then some (c.toNat - 'A'.toNat + 10)
  else none

/-- The code unit of four hexadecimal digits. -/
def hexUnit? (digits : List Char) : Option Nat :=
  match digits.mapM hexValue? with
  | some [a, b, c, d] => some (((a * 16 + b) * 16 + c) * 16 + d)
  | _ => none

/-- Reads four hexadecimal digits. Four bytes are taken whatever they are. -/
def readHex (p : Place) (text : List Char) : Except ReadError Nat :=
  if ((text.take 4).map Char.utf8Size).foldr Nat.add 0 < 4 then .error ⟨.endInString, p.advanceAll text⟩
  else
    match hexUnit? (text.take 4) with
    | some unit => .ok unit
    | none => .error ⟨.invalidEscape, p.afterBytes 4 text⟩

/-- Whether a code unit is the first of a surrogate pair. -/
def isLeading (unit : Nat) : Bool := 0xD800 ≤ unit && unit ≤ 0xDBFF

/-- Whether a code unit is the second of a surrogate pair. -/
def isTrailing (unit : Nat) : Bool := 0xDC00 ≤ unit && unit ≤ 0xDFFF

/-- Reads the escape that has to follow the first unit of a pair. -/
def readTrailing (p : Place) (leading : Nat) (text : List Char) :
    Except ReadError (Scanned Char) :=
  match text with
  | [] => .error ⟨.endInString, p⟩
  | '\\' :: rest =>
    match rest with
    | [] => .error ⟨.endInString, p.forward 1⟩
    | 'u' :: digits => do
      let unit ← readHex (p.forward 2) digits
      if isTrailing unit then
        pure ⟨Char.ofNat (0x10000 + (leading - 0xD800) * 0x400 + (unit - 0xDC00)), 6⟩
      else .error ⟨.loneSurrogate, p.forward 6⟩
    | _ => .error ⟨.missingSurrogate, (p.forward 1).afterBytes 1 rest⟩
  | _ => .error ⟨.missingSurrogate, p.afterBytes 1 text⟩

/-- Reads the digits of a code unit, and the second unit of a pair if it starts
one. -/
def readUnicode (p : Place) (text : List Char) : Except ReadError (Scanned Char) := do
  let unit ← readHex p text
  if isTrailing unit then .error ⟨.loneSurrogate, p.forward 4⟩
  else if isLeading unit then
    let s ← readTrailing (p.forward 4) unit (text.drop 4)
    pure ⟨s.value, s.width + 4⟩
  else pure ⟨Char.ofNat unit, 4⟩

/-- The character that a letter behind a backslash stands for. -/
def escapeValue? : Char → Option Char
  | '"' => some '"'
  | '\\' => some '\\'
  | '/' => some '/'
  | 'b' => some '\x08'
  | 'f' => some '\x0c'
  | 'n' => some '\n'
  | 'r' => some '\r'
  | 't' => some '\t'
  | _ => none

/-- Reads the escape behind a backslash. -/
def readEscape (p : Place) (text : List Char) : Except ReadError (Scanned Char) :=
  match text with
  | [] => .error ⟨.endInString, p⟩
  | 'u' :: digits =>
    (readUnicode (p.forward 1) digits).map fun s => ⟨s.value, s.width + 1⟩
  | c :: _ =>
    match escapeValue? c with
    | some value => .ok ⟨value, 1⟩
    | none => .error ⟨.invalidEscape, p.afterBytes 1 text⟩

/-! ### Strings -/

/-- Reads the characters up to the closing quote. `reversed` are the characters
read so far, the last one first, `width` the number of characters passed, and
`skip` the number of characters that belong to an escape read before. -/
def readCharacters (p : Place) (reversed : List Char) (width : Nat) :
    (skip : Nat) → List Char → Except ReadError (Scanned String)
  | _, [] => .error ⟨.endInString, p⟩
  | skip + 1, c :: rest => readCharacters (p.advance c) reversed (width + 1) skip rest
  | 0, c :: rest =>
    if c = '"' then .ok ⟨String.ofList reversed.reverse, width + 1⟩
    else if c = '\\' then
      match readEscape (p.advance c) rest with
      | .error e => .error e
      | .ok s => readCharacters (p.advance c) (s.value :: reversed) (width + 1) s.width rest
    else if c.toNat < 0x20 then .error ⟨.controlCharacter, p.afterBytes 1 [c]⟩
    else readCharacters (p.advance c) (c :: reversed) (width + 1) 0 rest

/-- Reads the string behind an opening quote. -/
def readQuoted (p : Place) (text : List Char) : Except ReadError (Scanned String) :=
  readCharacters p [] 0 0 text

/-! ### Writing -/

/-- A hexadecimal digit. -/
def hexDigit (n : Nat) : Char :=
  if n < 10 then Char.ofNat ('0'.toNat + n) else Char.ofNat ('a'.toNat + (n - 10))

/-- A character as it stands between quotes. -/
def quoteChar (c : Char) : List Char :=
  if c = '"' then ['\\', '"']
  else if c = '\\' then ['\\', '\\']
  else if c = '\n' then ['\\', 'n']
  else if c = '\r' then ['\\', 'r']
  else if c = '\t' then ['\\', 't']
  else if c = '\x08' then ['\\', 'b']
  else if c = '\x0c' then ['\\', 'f']
  else if c.toNat < 0x20 then
    ['\\', 'u', '0', '0', hexDigit (c.toNat / 16), hexDigit (c.toNat % 16)]
  else [c]

/-- A string between quotes. -/
def quote (s : String) : String :=
  "\"" ++ String.ofList (s.toList.flatMap quoteChar) ++ "\""

end JsonTypes
