/-
The tokens of JSON texts.

A token knows the place in front of it, the place one byte into it, which errors
point at, and the place behind it. A token that cannot be read ends the list;
what is wrong with it counts only if it stands where a value or a key may stand.

* `Lexeme`, `Token`.
* `Tokens`: the tokens of a text and the place of its end; `Tokens.ofText`.
-/
import JsonTypes.Json.Quoted

namespace JsonTypes

/-- What a token is. -/
inductive Lexeme where
  | openBrace
  | closeBrace
  | openBracket
  | closeBracket
  | colon
  | comma
  /-- A string, if it can be read. -/
  | text (content : Except ReadError String)
  /-- A literal, if it can be read. -/
  | literal (content : Except ReadError Json)
  /-- A character that starts no token. -/
  | stray

/-- Whether a token cannot be read. -/
def Lexeme.isBroken : Lexeme → Bool
  | text (.error _) | literal (.error _) | stray => true
  | _ => false

/-- A token with its places. -/
structure Token where
  lexeme : Lexeme
  /-- The place in front of the token. -/
  start : Place
  /-- The place one byte into the token. -/
  pointed : Place
  /-- The place behind the token. -/
  stop : Place

/-- White space between tokens. -/
def isSeparator (c : Char) : Bool :=
  c == ' ' || c == '\n' || c == '\r' || c == '\t'

/-- A lexeme that is read, with its width. -/
def Scanned.lexeme {α : Type} (make : Except ReadError α → Lexeme)
    (read : Except ReadError (Scanned α)) : Lexeme × Nat :=
  match read with
  | .ok s => (make (.ok s.value), s.width)
  | .error e => (make (.error e), 1)

/-- The lexeme that starts with a character, and its width. -/
def lexemeAt (p : Place) (c : Char) (rest : List Char) : Lexeme × Nat :=
  match c with
  | '{' => (.openBrace, 1)
  | '}' => (.closeBrace, 1)
  | '[' => (.openBracket, 1)
  | ']' => (.closeBracket, 1)
  | ':' => (.colon, 1)
  | ',' => (.comma, 1)
  | '"' =>
    Scanned.lexeme .text ((readQuoted (p.advance c) rest).map fun s => ⟨s.value, s.width + 1⟩)
  | 'n' => Scanned.lexeme .literal (readWord p "null" .null (c :: rest))
  | 't' => Scanned.lexeme .literal (readWord p "true" (.boolean true) (c :: rest))
  | 'f' => Scanned.lexeme .literal (readWord p "false" (.boolean false) (c :: rest))
  | _ =>
    if c == '-' || c.isDigit then
      Scanned.lexeme .literal
        ((readNumber p (c :: rest)).map fun s => ⟨.number s.value, s.width⟩)
    else (.stray, 1)

/-- The tokens of the rest of a text. `skip` is the number of characters that
belong to a token read before. -/
def tokensFrom (p : Place) : (skip : Nat) → List Char → List Token
  | _, [] => []
  | skip + 1, c :: rest => tokensFrom (p.advance c) skip rest
  | 0, c :: rest =>
    if isSeparator c then tokensFrom (p.advance c) 0 rest
    else
      let (lexeme, width) := lexemeAt p c rest
      let token : Token :=
        ⟨lexeme, p, p.afterBytes 1 [c], p.advanceAll ((c :: rest).take width)⟩
      if lexeme.isBroken then [token]
      else token :: tokensFrom (p.advance c) (width - 1) rest

/-- The tokens of a text, and the place of its end. -/
structure Tokens where
  list : List Token
  finish : Place

/-- The tokens of a text. -/
def Tokens.ofText (text : String) : Tokens :=
  ⟨tokensFrom .start 0 text.toList, Place.start.advanceAll text.toList⟩

end JsonTypes
