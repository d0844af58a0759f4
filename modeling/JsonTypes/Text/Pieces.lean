/-
Texts in pieces.

* `pieces`: the pieces between the occurrences of a separator; there is one more
  of them than there are separators.
* `lines`: the lines of a text. A line ends with a line feed, in front of which a
  carriage return may stand; the last line need not be ended.
-/

namespace JsonTypes

/-! ### Pieces -/

/-- A character in front of pieces: it belongs to the first of them, or separates
an empty piece from them. -/
def putInFront (separator c : Char) : List (List Char) → List (List Char)
  | [] => if c = separator then [[], []] else [[c]]
  | piece :: later =>
    if c = separator then [] :: piece :: later else (c :: piece) :: later

/-- The pieces of a text between the occurrences of a separator. -/
def pieces (separator : Char) (text : List Char) : List (List Char) :=
  text.foldr (putInFront separator) [[]]

/-- The pieces of a string between the occurrences of a separator. -/
def stringPieces (separator : Char) (text : String) : List String :=
  (pieces separator text.toList).map String.ofList

theorem length_putInFront (separator c : Char) {later : List (List Char)} (h : later ≠ []) :
    (putInFront separator c later).length =
      (if c = separator then 1 else 0) + later.length := by
  cases later with
  | nil => exact absurd rfl h
  | cons piece later =>
    by_cases hc : c = separator <;> simp [putInFront, hc, Nat.add_comm]

/-- There is one more piece than there are separators. -/
theorem length_pieces (separator : Char) (text : List Char) :
    (pieces separator text).length = text.count separator + 1 := by
  induction text with
  | nil => rfl
  | cons c rest ih =>
    have h : pieces separator rest ≠ [] := by
      intro e
      simp [e] at ih
    show (putInFront separator c (pieces separator rest)).length = _
    rw [length_putInFront separator c h, ih, List.count_cons]
    by_cases hc : c = separator <;> simp [hc, Nat.add_comm, Nat.add_left_comm]

/-! ### Lines -/

/-- A line that has been ended by a line feed, without the carriage return in
front of it. -/
def withoutReturn (line : List Char) : List Char :=
  if line.getLast? = some '\r' then line.dropLast else line

/-- The lines of the pieces of a text between its line feeds. -/
def closeLines : List (List Char) → List (List Char)
  | [] => []
  | [last] => if last.isEmpty then [] else [last]
  | line :: next :: later => withoutReturn line :: closeLines (next :: later)

/-- The lines of a text. -/
def lines (text : String) : List String :=
  (closeLines (pieces '\n' text.toList)).map String.ofList

end JsonTypes
