/-
Written types as trees, and how they are read from tokens.

A written type is a name, or a name with arguments in parentheses, which may be
empty. The tokens are read from left to right by a machine whose stack holds the
applications that are still open.

* `Expr`: a name applied to arguments.
* `Reading`: the state of the machine; `Reading.step` one token,
  `Reading.finish` the end.
* `Expr.ofTokens`: the tree of a list of tokens.
-/
import JsonTypes.TypeText.Token

namespace JsonTypes.TypeText

/-- A written type: a name applied to arguments. -/
inductive Expr where
  | apply (head : String) (args : List Expr)

/-! ### The state of reading -/

/-- An application whose parenthesis is open, with the arguments read so far. -/
structure OpenApplication where
  head : String
  args : List Expr

/-- The tree of an application that is closed now. -/
def OpenApplication.close (a : OpenApplication) (args : List Expr) : Expr :=
  .apply a.head (a.args ++ args)

/-- What has been read last. -/
inductive Last where
  /-- Nothing of the type that has to stand here. -/
  | nothing
  /-- The parenthesis that opens the innermost application. -/
  | opening
  /-- A name, which a parenthesis may follow. -/
  | name (head : String)
  /-- A type. -/
  | type (e : Expr)

/-- The state of reading: the open applications, innermost first. -/
structure Reading where
  last : Last
  stack : List OpenApplication

/-- The state before the first token. -/
def Reading.start : Reading := ⟨.nothing, []⟩

/-! ### Steps -/

/-- A token that follows a type. -/
def Reading.afterType (e : Expr) (stack : List OpenApplication) (symbol : Symbol) :
    Except SyntaxFault Reading :=
  match stack, symbol with
  | [], _ => .error (.unexpected symbol)
  | a :: outer, .comma => .ok ⟨.nothing, ⟨a.head, a.args ++ [e]⟩ :: outer⟩
  | a :: outer, .closing => .ok ⟨.type (a.close [e]), outer⟩
  | _ :: _, _ => .error (.expectedCommaOrClosing symbol)

/-- One token. -/
def Reading.step (reading : Reading) (symbol : Symbol) : Except SyntaxFault Reading :=
  match reading.last, symbol with
  | .nothing, .name head | .opening, .name head => .ok ⟨.name head, reading.stack⟩
  | .opening, .closing =>
    match reading.stack with
    | a :: outer => .ok ⟨.type (a.close []), outer⟩
    | [] => .error (.expectedName (some symbol))
  | .nothing, _ | .opening, _ => .error (.expectedName (some symbol))
  | .name head, .opening => .ok ⟨.opening, ⟨head, []⟩ :: reading.stack⟩
  | .name head, _ => Reading.afterType (.apply head []) reading.stack symbol
  | .type e, _ => Reading.afterType e reading.stack symbol

/-- The end of the tokens. -/
def Reading.finish (reading : Reading) : Except SyntaxFault Expr :=
  match reading.last, reading.stack with
  | .nothing, _ | .opening, _ => .error (.expectedName none)
  | .name head, [] => .ok (.apply head [])
  | .type e, [] => .ok e
  | .name _, _ :: _ | .type _, _ :: _ => .error .unclosed

/-- The tree that the remaining tokens complete. `size` is the length of the
text in bytes. -/
def Reading.run (size : Nat) (reading : Reading) : List Token → Except SyntaxError Expr
  | [] => reading.finish.mapError (⟨size, ·⟩)
  | token :: rest =>
    match reading.step token.symbol with
    | .error fault => .error ⟨token.offset, fault⟩
    | .ok next => next.run size rest

/-- The tree of the tokens of a text of `size` bytes. -/
def Expr.ofTokens (size : Nat) (tokens : List Token) : Except SyntaxError Expr :=
  Reading.start.run size tokens

/-- The tree of a text. All of the text is scanned before any of it is read. -/
def Expr.ofText (text : String) : Except SyntaxError Expr := do
  let tokens ← scan text
  Expr.ofTokens text.utf8ByteSize tokens

end JsonTypes.TypeText
