/-
Reading selectors.

    pipe  := comma ('|' comma)*
    comma := path (',' path)*
    path  := start step*
    start := '.' | '.' NAME | NAME | '(' pipe ')'
    step  := '.' NAME | '[' ']' | '[' ['-'] DIGITS ']'

* `Selector.Symbol`, `Selector.symbols`: the symbols of a text.
* `Selector.Group`: a group that is open, with what stands in front of the path
  that is being read.
* `Selector.ofText`: the selector of a text. Names are looked up when the whole text
  has turned out to be a selector.
* `Filter.ofText`: the filter of a text that is a selector.
-/
import JsonTypes.Filter.Selector
import JsonTypes.Text.Ascii
import JsonTypes.Text.Blank

namespace JsonTypes

namespace Selector

/-- Why a text is no selector. -/
inductive Fault where
  | malformed
  /-- The text uses a name that is not known. -/
  | undefined (name : String)
deriving DecidableEq, Repr

/-! ### Symbols -/

/-- The symbols of selectors. -/
inductive Symbol where
  | dot
  /-- Two dots, which stand in no selector. -/
  | twoDots
  /-- A name with a dot in front of it. -/
  | member (name : String)
  | word (name : String)
  | number (n : Nat)
  | minus
  | openBracket
  | closeBracket
  | openParen
  | closeParen
  | bar
  | comma
deriving DecidableEq, Repr

/-- A symbol that more characters can belong to. -/
inductive OpenSymbol where
  | none
  | dot
  | twoDots
  | member (reversed : List Char)
  | word (reversed : List Char)
  | number (n : Nat)

/-- The symbol that ends here. -/
def OpenSymbol.close : OpenSymbol → List Symbol
  | none => []
  | dot => [.dot]
  | twoDots => [.twoDots]
  | member reversed => [.member (String.ofList reversed.reverse)]
  | word reversed => [.word (String.ofList reversed.reverse)]
  | number n => [.number n]

/-- The symbol with one more character, if the character belongs to it. -/
def OpenSymbol.extend? (c : Char) : OpenSymbol → Option OpenSymbol
  | none => Option.none
  | dot =>
    if isNameStart c then some (member [c])
    else if c = '.' then some twoDots
    else Option.none
  | twoDots => Option.none
  | member reversed => if isNamePart c then some (member (c :: reversed)) else Option.none
  | word reversed => if isNamePart c then some (word (c :: reversed)) else Option.none
  | number n => if c.isDigit then some (number (n * 10 + digitValue c)) else Option.none

/-- A character that belongs to no symbol in front of it. -/
def symbolAt (c : Char) : Except Fault (List Symbol × OpenSymbol) :=
  if isBlank c then .ok ([], .none)
  else if isNameStart c then .ok ([], .word [c])
  else if c.isDigit then .ok ([], .number (digitValue c))
  else
    match c with
    | '.' => .ok ([], .dot)
    | '-' => .ok ([.minus], .none)
    | '[' => .ok ([.openBracket], .none)
    | ']' => .ok ([.closeBracket], .none)
    | '(' => .ok ([.openParen], .none)
    | ')' => .ok ([.closeParen], .none)
    | '|' => .ok ([.bar], .none)
    | ',' => .ok ([.comma], .none)
    | _ => .error .malformed

/-- The symbols of the rest of a text. -/
def symbolsFrom (pending : OpenSymbol) : List Char → Except Fault (List Symbol)
  | [] => .ok pending.close
  | c :: rest =>
    match pending.extend? c with
    | some longer => symbolsFrom longer rest
    | none => do
      let (ended, next) ← symbolAt c
      let later ← symbolsFrom next rest
      pure (pending.close ++ ended ++ later)

/-- The symbols of a text. -/
def symbols (text : String) : Except Fault (List Symbol) :=
  symbolsFrom .none text.toList

/-! ### Groups -/

/-- A selector whose words have not been looked up. -/
abbrev Draft : Type := Except Fault Selector

/-- Two selectors joined. -/
def Draft.join (combine : Selector → Selector → Selector) (first second : Draft) : Draft := do
  let f ← first
  let g ← second
  pure (combine f g)

/-- A path with one more step. -/
def Draft.step (path : Draft) (step : Selector) : Draft :=
  path.map fun f => f.pipe step

/-- The selector that a word stands for, if there is one. -/
def Draft.ofWord (word : String) : Draft :=
  match ofWord? word with
  | some selector => .ok selector
  | none => .error (.undefined word)

/-- A group that is open: what stands in front of the last bar, and between that
bar and the last comma. -/
structure Group where
  piped : Option Draft
  listed : Option Draft

namespace Group

/-- The group in which nothing stands. -/
def start : Group := ⟨none, none⟩

/-- What stands behind the last bar when a path ends. -/
def list (group : Group) (path : Draft) : Draft :=
  match group.listed with
  | some before => before.join .comma path
  | none => path

/-- What stands in the group when a path ends. -/
def close (group : Group) (path : Draft) : Draft :=
  match group.piped with
  | some before => before.join .pipe (group.list path)
  | none => group.list path

end Group

/-! ### Reading -/

/-- What the remaining symbols complete: `path` is the path that is being read,
if one has started, and `outer` are the groups around the innermost one. -/
def read (path : Option Draft) (group : Group) (outer : List Group) :
    List Symbol → Except Fault Draft
  | [] =>
    match path, outer with
    | some path, [] => .ok (group.close path)
    | _, _ => .error .malformed
  | .dot :: rest =>
    match path with
    | none => read (some (.ok .identity)) group outer rest
    | some _ => .error .malformed
  | .member name :: rest =>
    match path with
    | none => read (some (.ok (.field name))) group outer rest
    | some path => read (some (path.step (.field name))) group outer rest
  | .word name :: rest =>
    match path with
    | none => read (some (.ofWord name)) group outer rest
    | some _ => .error .malformed
  | .openBracket :: .closeBracket :: rest =>
    match path with
    | some path => read (some (path.step .items)) group outer rest
    | none => .error .malformed
  | .openBracket :: .number n :: .closeBracket :: rest =>
    match path with
    | some path => read (some (path.step (.index n))) group outer rest
    | none => .error .malformed
  | .openBracket :: .minus :: .number n :: .closeBracket :: rest =>
    match path with
    | some path => read (some (path.step (.index (-n)))) group outer rest
    | none => .error .malformed
  | .openParen :: rest =>
    match path with
    | none => read none .start (group :: outer) rest
    | some _ => .error .malformed
  | .closeParen :: rest =>
    match path, outer with
    | some path, around :: outer => read (some (group.close path)) around outer rest
    | _, _ => .error .malformed
  | .bar :: rest =>
    match path with
    | some path => read none ⟨some (group.close path), none⟩ outer rest
    | none => .error .malformed
  | .comma :: rest =>
    match path with
    | some path => read none ⟨group.piped, some (group.list path)⟩ outer rest
    | none => .error .malformed
  | _ => .error .malformed

/-- The selector of a text. -/
def ofText (text : String) : Except Fault Selector := do
  let list ← symbols text
  let draft ← read none .start [] list
  draft

/-- A fault in a text, as one of the filter. -/
def Fault.inText (text : String) : Fault → FilterFault
  | malformed => .malformed [("the filter is malformed", text)]
  | undefined name => .undefined [⟨name, "name", text⟩]

end Selector

/-- The filter of a text that is a selector. Filters of any other sort are refused. -/
def Filter.ofText (text : String) : Except FilterFault Filter :=
  ((Selector.ofText text).map Selector.filter).mapError (·.inText text)

end JsonTypes
