/-
Patterns for names.

    *      any characters
    ?      one character
    [ab]   one of the characters, with `a-z` for a range
    [!ab]  one other character
    **     as a whole component of a path: any directories

* `NamePattern`, `NamePattern.accepts`: patterns and the names that they match.
  `NamePattern.accepts_iff`: what it means to match, `NamePattern.matchesParts`,
  agrees with the comparison that is run, `NamePattern.fit`.
* `NamePattern.ofText`: the pattern of a text. Every other character stands for
  itself.
* `PatternError`: what is wrong with a pattern, and where.
-/

namespace JsonTypes

/-! ### Patterns -/

/-- The characters between two characters, both included. -/
structure CharRange where
  first : Char
  last : Char
deriving DecidableEq, Repr

/-- Whether a character lies in a range. -/
def CharRange.contains (range : CharRange) (c : Char) : Bool :=
  range.first ≤ c && c ≤ range.last

/-- A part of a pattern. -/
inductive PatternPart where
  | literal (c : Char)
  | anyChar
  | oneOf (ranges : List CharRange)
  | noneOf (ranges : List CharRange)
  | anyChars
  /-- Any directories. -/
  | anyDirectories
deriving DecidableEq, Repr

/-- Whether a part stands for any number of characters. -/
def PatternPart.isMany : PatternPart → Bool
  | .anyChars | .anyDirectories => true
  | _ => false

/-- Whether a part that stands for one character stands for the given one. -/
def PatternPart.admits (c : Char) : PatternPart → Bool
  | .literal d => c == d
  | .anyChar => true
  | .oneOf ranges => ranges.any (·.contains c)
  | .noneOf ranges => !ranges.any (·.contains c)
  | .anyChars | .anyDirectories => false

/-- The character of a part that stands for itself. -/
def PatternPart.literal? : PatternPart → Option Char
  | .literal c => some c
  | _ => none

/-- A pattern for names. -/
structure NamePattern where
  parts : List PatternPart
deriving DecidableEq, Repr

namespace NamePattern

/-! ### Matching -/

/-- Whether some end of a text satisfies a test. -/
def someEnd (test : List Char → Bool) : List Char → Bool
  | [] => test []
  | c :: rest => test (c :: rest) || someEnd test rest

/-- Whether parts match a text as a whole. This says what matching means, and
tries every way to match; `fit` looks at few of them. -/
def matchesParts : List PatternPart → List Char → Bool
  | [], text => text.isEmpty
  | part :: parts, text =>
    if part.isMany then someEnd (matchesParts parts) text
    else
      match text with
      | [] => false
      | c :: rest => part.admits c && matchesParts parts rest

/-- How parts and a text compare. -/
inductive Fit where
  /-- The parts match the text as a whole. -/
  | whole
  /-- They do not match the text. -/
  | differs
  /-- They match neither the text nor any end of it: the text is too short. -/
  | short
deriving DecidableEq, Repr

/-- The comparison with the first end of a text that is not merely different. -/
def firstFit (compare : List Char → Fit) : List Char → Fit
  | [] => compare []
  | c :: rest =>
    match compare (c :: rest) with
    | .differs => firstFit compare rest
    | settled => settled

/-- The comparison of parts with a text. -/
def fit : List PatternPart → List Char → Fit
  | [], text => if text.isEmpty then .whole else .differs
  | part :: parts, text =>
    if part.isMany then firstFit (fit parts) text
    else
      match text with
      | [] => .short
      | c :: rest => if part.admits c then fit parts rest else .differs

/-- Whether a pattern matches a name. -/
def accepts (pattern : NamePattern) (name : String) : Bool :=
  fit pattern.parts name.toList == .whole

/-- An end of a text satisfies a test exactly if `someEnd` says so. -/
theorem someEnd_iff {test : List Char → Bool} {text : List Char} :
    someEnd test text = true ↔ ∃ t, t <:+ text ∧ test t = true := by
  induction text with
  | nil => simp [someEnd]
  | cons c rest ih => simp [someEnd, List.suffix_cons_iff, ih, or_and_right, exists_or]

/-- If a comparison is right about whole matches and about texts that are too
short, so is its first settled result. -/
theorem firstFit_spec {compare : List Char → Fit} {test : List Char → Bool}
    (whole : ∀ t, compare t = .whole ↔ test t = true)
    (short : ∀ t, compare t = .short → ∀ u, u <:+ t → test u = false) (text : List Char) :
    (firstFit compare text = .whole ↔ someEnd test text = true) ∧
      (firstFit compare text = .short → someEnd test text = false) := by
  induction text with
  | nil =>
    refine ⟨whole [], fun h => ?_⟩
    exact short [] h [] (List.suffix_refl _)
  | cons c rest ih =>
    have none_of_short (h : compare (c :: rest) = .short) : someEnd test (c :: rest) = false := by
      refine Bool.eq_false_iff.2 fun found => ?_
      obtain ⟨t, ht, hit⟩ := someEnd_iff.1 found
      exact Bool.eq_false_iff.1 (short _ h t ht) hit
    have here := whole (c :: rest)
    unfold firstFit
    cases h : compare (c :: rest) with
    | whole => simp [someEnd, here.1 h]
    | short => simp [none_of_short h]
    | differs =>
      have miss : test (c :: rest) = false :=
        Bool.eq_false_iff.2 fun hit => by simp [here.2 hit] at h
      simpa [someEnd, miss] using ih

/-- The comparison finds a whole match exactly if there is one, and if it finds
the text too short then no end of the text matches. -/
theorem fit_spec (parts : List PatternPart) :
    (∀ text, fit parts text = .whole ↔ matchesParts parts text = true) ∧
      (∀ text, fit parts text = .short → ∀ t, t <:+ text → matchesParts parts t = false) := by
  induction parts with
  | nil =>
    refine ⟨fun text => by cases text <;> simp [fit, matchesParts], fun text => ?_⟩
    cases text <;> simp [fit]
  | cons part parts ih =>
    obtain ⟨whole, short⟩ := ih
    cases many : part.isMany with
    | true =>
      have spec := firstFit_spec whole short
      refine ⟨fun text => by simpa [fit, matchesParts, many] using (spec text).1, ?_⟩
      intro text h t ht
      simp only [fit, matchesParts, many, if_true] at h ⊢
      refine Bool.eq_false_iff.2 fun found => ?_
      obtain ⟨u, hu, hit⟩ := someEnd_iff.1 found
      exact Bool.eq_false_iff.1 ((spec text).2 h) (someEnd_iff.2 ⟨u, hu.trans ht, hit⟩)
    | false =>
      constructor
      · intro text
        cases text with
        | nil => simp [fit, matchesParts, many]
        | cons c rest => cases h : part.admits c <;> simp [fit, matchesParts, many, h, whole]
      · intro text h t ht
        cases t with
        | nil => simp [matchesParts, many]
        | cons d t =>
          obtain ⟨front, rfl⟩ := ht
          simp only [matchesParts, many, Bool.false_eq_true, if_false]
          refine Bool.and_eq_false_imp.2 fun _ => ?_
          cases front with
          | nil =>
            cases admitted : part.admits d with
            | false => simp [fit, many, admitted] at h
            | true =>
              refine short t ?_ t (List.suffix_refl t)
              simpa [fit, many, admitted] using h
          | cons c front =>
            cases admitted : part.admits c with
            | false => simp [fit, many, admitted] at h
            | true =>
              refine short (front ++ d :: t) ?_ t ?_
              · simpa [fit, many, admitted] using h
              · exact ⟨front ++ [d], by simp⟩

/-- A pattern accepts the names that its parts match. -/
theorem accepts_iff (pattern : NamePattern) (name : String) :
    pattern.accepts name = true ↔ matchesParts pattern.parts name.toList = true := by
  simp [accepts, (fit_spec pattern.parts).1]

/-- The name that a pattern without wildcards stands for. -/
def literal? (pattern : NamePattern) : Option String :=
  (pattern.parts.mapM PatternPart.literal?).map String.ofList

/-- Whether a pattern stands for any directories. -/
def isRecursive (pattern : NamePattern) : Bool :=
  pattern.parts.contains .anyDirectories

/-- Whether a pattern starts with a dot. -/
def startsWithDot (pattern : NamePattern) : Bool :=
  pattern.parts.head? == some (.literal '.')

end NamePattern

/-! ### Errors -/

/-- What can be wrong with a pattern. -/
inductive PatternFault where
  /-- Three stars or more. -/
  | tooManyStars
  /-- Two stars that share their component with something else. -/
  | sharedComponent
  /-- A bracket that opens no class of characters. -/
  | invalidRange
deriving DecidableEq, Repr

/-- A fault and the number of characters in front of it. -/
structure PatternError where
  position : Nat
  fault : PatternFault
deriving DecidableEq, Repr

/-- The message of a fault. -/
def PatternFault.message : PatternFault → String
  | tooManyStars => "wildcards are either regular `*` or recursive `**`"
  | sharedComponent => "recursive wildcards must form a single path component"
  | invalidRange => "invalid range pattern"

/-- The message of an error. -/
def PatternError.message (e : PatternError) : String :=
  s!"Pattern syntax error near position {e.position}: " ++ e.fault.message

/-! ### Reading -/

namespace NamePattern

/-- The ranges of the text between the brackets of a class. -/
def ranges : List Char → List CharRange
  | first :: '-' :: last :: rest => ⟨first, last⟩ :: ranges rest
  | c :: rest => ⟨c, c⟩ :: ranges rest
  | [] => []

/-- The characters up to a closing bracket, of which there has to be one at
least: a bracket that comes first stands for itself. -/
def classBody? : List Char → Option (List Char)
  | [] => none
  | first :: rest =>
    if rest.contains ']' then some (first :: rest.takeWhile (· != ']')) else none

/-- The class behind an opening bracket, with the number of characters of its
text, the closing bracket included. -/
def class? : List Char → Option (PatternPart × Nat)
  | '!' :: rest => (classBody? rest).map fun body => (.noneOf (ranges body), body.length + 2)
  | text => (classBody? text).map fun body => (.oneOf (ranges body), body.length + 1)

/-- The part that some stars stand for, with the number of characters behind
them that belong to it. `before` is the character in front of the stars, `after`
the text behind them. -/
def ofStars (position count : Nat) (before : Option Char) (after : List Char) :
    Except PatternError (PatternPart × Nat) :=
  if count > 2 then .error ⟨position + 2, .tooManyStars⟩
  else if count < 2 then .ok (.anyChars, 0)
  else if before.all (· == '/') then
    match after with
    | [] => .ok (.anyDirectories, 0)
    | '/' :: _ => .ok (.anyDirectories, 1)
    | _ => .error ⟨position + 2, .sharedComponent⟩
  else .error ⟨position - 1, .sharedComponent⟩

/-- The parts of the rest of a text. The first `skip` characters belong to the
part in front of them. -/
def partsFrom (position : Nat) (before : Option Char) :
    (skip : Nat) → List Char → Except PatternError (List PatternPart)
  | _, [] => .ok []
  | skip + 1, c :: rest => partsFrom (position + 1) (some c) skip rest
  | 0, '?' :: rest => do
    let parts ← partsFrom (position + 1) (some '?') 0 rest
    pure (.anyChar :: parts)
  | 0, '*' :: rest => do
    let stars := (rest.takeWhile (· == '*')).length
    let (part, extra) ← ofStars position (stars + 1) before (rest.drop stars)
    let parts ← partsFrom (position + 1) (some '*') (stars + extra) rest
    pure (part :: parts)
  | 0, '[' :: rest =>
    match class? rest with
    | some (part, skip) => do
      let parts ← partsFrom (position + 1) (some '[') skip rest
      pure (part :: parts)
    | none => .error ⟨position, .invalidRange⟩
  | 0, c :: rest => do
    let parts ← partsFrom (position + 1) (some c) 0 rest
    pure (.literal c :: parts)

/-- The pattern of a text. -/
def ofText (text : String) : Except PatternError NamePattern :=
  (partsFrom 0 none 0 text.toList).map NamePattern.mk

end NamePattern

end JsonTypes
