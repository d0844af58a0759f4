/-
The tokens of written types.

A written type consists of names, parentheses and commas, with white space
anywhere between them. A name is an ASCII letter or underscore followed by ASCII
letters, digits and underscores, and it extends as far as it can.

* `Symbol`, `Token`: a symbol at its offset in bytes.
* `scan`: the tokens of a text, or the first character that starts none.
* `SyntaxError`: what is wrong with a written type, and where.
-/
import JsonTypes.Text.Ascii
import JsonTypes.Text.Blank

namespace JsonTypes.TypeText

/-! ### Symbols and errors -/

/-- The symbols of written types. -/
inductive Symbol where
  | name (text : String)
  | opening
  | closing
  | comma
deriving DecidableEq, Repr

/-- A symbol as messages show it. -/
def Symbol.text : Symbol → String
  | .name text => s!"'{text}'"
  | .opening => "'('"
  | .closing => "')'"
  | .comma => "','"

/-- A symbol and the offset of its first byte. -/
structure Token where
  symbol : Symbol
  offset : Nat
deriving DecidableEq, Repr

/-- What is wrong at a place of a written type. -/
inductive SyntaxFault where
  /-- A character that starts no symbol. -/
  | character (c : Char)
  /-- Something else, or the end, where a name has to stand. -/
  | expectedName (found : Option Symbol)
  /-- Something else behind an argument. -/
  | expectedCommaOrClosing (found : Symbol)
  /-- The end before the closing parenthesis. -/
  | unclosed
  /-- Something behind the type. -/
  | unexpected (found : Symbol)
deriving DecidableEq, Repr

/-- The message of a fault. -/
def SyntaxFault.message : SyntaxFault → String
  | .character c => "unexpected character '" ++ String.singleton c ++ "'"
  | .expectedName none => "expected a type name, found end of input"
  | .expectedName (some found) => "expected a type name, found " ++ found.text
  | .expectedCommaOrClosing found => "expected ',' or ')', found " ++ found.text
  | .unclosed => "unclosed '('"
  | .unexpected found => "unexpected " ++ found.text

/-- A fault and its offset in bytes. -/
structure SyntaxError where
  offset : Nat
  fault : SyntaxFault
deriving DecidableEq, Repr

/-- The message of an error. -/
def SyntaxError.message (e : SyntaxError) : String :=
  s!"syntax error at offset {e.offset}: " ++ e.fault.message

/-! ### Scanning -/

/-- A name that is being read: the offset of its first byte and its characters,
the last one first. -/
structure OpenName where
  offset : Nat
  reversed : List Char

/-- The token of a name that has been read. -/
def OpenName.token (name : OpenName) : Token :=
  ⟨.name (String.ofList name.reversed.reverse), name.offset⟩

/-- The character at an offset when no name is being read: the token that it
is, if it is one, or the name that it starts. -/
def startAt (offset : Nat) (c : Char) : Except SyntaxError (List Token × Option OpenName) :=
  if isBlank c then .ok ([], none)
  else if isNameStart c then .ok ([], some ⟨offset, [c]⟩)
  else
    match c with
    | '(' => .ok ([⟨.opening, offset⟩], none)
    | ')' => .ok ([⟨.closing, offset⟩], none)
    | ',' => .ok ([⟨.comma, offset⟩], none)
    | _ => .error ⟨offset, .character c⟩

/-- One character: the tokens that end with it and the name that is being read
after it. -/
def readAt (name : Option OpenName) (offset : Nat) (c : Char) :
    Except SyntaxError (List Token × Option OpenName) :=
  match name with
  | none => startAt offset c
  | some name =>
    if isNamePart c then .ok ([], some ⟨name.offset, c :: name.reversed⟩)
    else (startAt offset c).map fun (tokens, next) => (name.token :: tokens, next)

/-- The tokens of the rest of a text, at an offset. -/
def scanFrom (name : Option OpenName) (offset : Nat) : List Char → Except SyntaxError (List Token)
  | [] => .ok (name.map OpenName.token).toList
  | c :: rest => do
    let (tokens, next) ← readAt name offset c
    let later ← scanFrom next (offset + c.utf8Size) rest
    pure (tokens ++ later)

/-- The tokens of a text. -/
def scan (text : String) : Except SyntaxError (List Token) :=
  scanFrom none 0 text.toList

end JsonTypes.TypeText
