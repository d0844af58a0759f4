/-
The lines of texts, and their numbers.

A text is split at its line feeds, then the pieces are closed and the blank ones passed
over. Here the same lines are described by rules, without pieces: a line feed ends a line,
together with a carriage return in front of it, and what stands behind the last line feed
is a line of its own, unless nothing stands there.

* `HasLines`: the lines of a text, by rules; `hasLines_iff`: they are the ones that are
  found.
* `LineAt`: the line with a number.
* `NumbersLines`: the lines that are not blank, in order, with the numbers that they have
  among all lines; `numbersLines_iff`: no other list is this one.
-/
import JsonTypes.Text.Blank
import JsonTypes.Text.Pieces
import Mathlib.Data.List.Basic
import Mathlib.Tactic.Lemma

namespace JsonTypes

/-! ### Pieces -/

section Pieces

variable {separator : Char} {piece rest : List Char}

lemma pieces_ne_nil (separator : Char) (text : List Char) : pieces separator text ≠ [] := by
  intro h
  have hlength := length_pieces separator text
  rw [h, List.length_nil] at hlength
  omega

lemma pieces_cons (separator c : Char) (text : List Char) :
    pieces separator (c :: text) = putInFront separator c (pieces separator text) := rfl

/-- A text without separators is a single piece. -/
lemma pieces_of_not_mem (h : separator ∉ piece) : pieces separator piece = [piece] := by
  induction piece with
  | nil => rfl
  | cons c piece ih =>
      obtain ⟨hc, hpiece⟩ := List.ne_and_not_mem_of_not_mem_cons h
      rw [pieces_cons, ih hpiece, putInFront, if_neg (Ne.symm hc)]

/-- The first separator ends the first piece. -/
lemma pieces_append (h : separator ∉ piece) :
    pieces separator (piece ++ separator :: rest) = piece :: pieces separator rest := by
  induction piece with
  | nil =>
      obtain ⟨first, later, hpieces⟩ := List.exists_cons_of_ne_nil (pieces_ne_nil separator rest)
      rw [List.nil_append, pieces_cons, hpieces, putInFront, if_pos rfl]
  | cons c piece ih =>
      obtain ⟨hc, hpiece⟩ := List.ne_and_not_mem_of_not_mem_cons h
      rw [List.cons_append, pieces_cons, ih hpiece, putInFront, if_neg (Ne.symm hc)]

end Pieces

/-! ### Lines -/

/-- The lines of a text. -/
inductive HasLines : List Char → List (List Char) → Prop where
  | nil : HasLines [] []
  /-- The last line, which nothing ends. -/
  | last {line : List Char} (filled : line ≠ []) (whole : '\n' ∉ line) : HasLines line [line]
  /-- A line that a line feed ends. -/
  | feed {line rest : List Char} {later : List (List Char)} (whole : '\n' ∉ line)
      (plain : line.getLast? ≠ some '\r') (behind : HasLines rest later) :
      HasLines (line ++ '\n' :: rest) (line :: later)
  /-- A line that a carriage return and a line feed end. -/
  | returnFeed {line rest : List Char} {later : List (List Char)} (whole : '\n' ∉ line)
      (behind : HasLines rest later) :
      HasLines (line ++ '\r' :: '\n' :: rest) (line :: later)

/-- A line that has been ended is closed, whatever comes behind it. -/
lemma closeLines_cons {line : List Char} (text : List Char) :
    closeLines (line :: pieces '\n' text) =
      withoutReturn line :: closeLines (pieces '\n' text) := by
  obtain ⟨first, later, hpieces⟩ := List.exists_cons_of_ne_nil (pieces_ne_nil '\n' text)
  rw [hpieces, closeLines]

lemma closeLines_append {line rest : List Char} (whole : '\n' ∉ line) :
    closeLines (pieces '\n' (line ++ '\n' :: rest)) =
      withoutReturn line :: closeLines (pieces '\n' rest) := by
  rw [pieces_append whole, closeLines_cons]

lemma withoutReturn_append (line : List Char) : withoutReturn (line ++ ['\r']) = line := by
  rw [withoutReturn, if_pos (by simp), List.dropLast_concat]

/-- The lines that are found are the lines of the text. -/
lemma hasLines_closeLines (text : List Char) :
    HasLines text (closeLines (pieces '\n' text)) := by
  induction hlength : text.length using Nat.strongRecOn generalizing text with
  | _ length ih =>
  by_cases hmem : '\n' ∈ text
  · obtain ⟨line, rest, rfl, hwhole⟩ := List.eq_append_cons_of_mem hmem
    have hbehind : HasLines rest (closeLines (pieces '\n' rest)) :=
      ih rest.length (by simp [← hlength]; omega) rest rfl
    rw [closeLines_append hwhole]
    by_cases hreturn : line.getLast? = some '\r'
    · obtain ⟨start, rfl⟩ := List.getLast?_eq_some_iff.mp hreturn
      rw [withoutReturn_append, List.append_assoc]
      exact .returnFeed (fun h => hwhole (List.mem_append_left _ h)) hbehind
    · rw [withoutReturn, if_neg hreturn]
      exact .feed hwhole hreturn hbehind
  · rw [pieces_of_not_mem hmem]
    cases text with
    | nil => exact .nil
    | cons c text => exact .last (List.cons_ne_nil c text) hmem

/-- A text has no other lines than the ones that are found. -/
lemma HasLines.eq_closeLines {text : List Char} {found : List (List Char)}
    (h : HasLines text found) : closeLines (pieces '\n' text) = found := by
  induction h with
  | nil => rfl
  | last hfilled hwhole =>
      rw [pieces_of_not_mem hwhole, closeLines, if_neg (by simpa using hfilled)]
  | feed hwhole hplain _ ih => rw [closeLines_append hwhole, withoutReturn, if_neg hplain, ih]
  | @returnFeed line rest _ hwhole _ ih =>
      have hreturn : '\n' ∉ line ++ ['\r'] := by simpa using hwhole
      have hsplit : line ++ '\r' :: '\n' :: rest = (line ++ ['\r']) ++ '\n' :: rest := by simp
      rw [hsplit, closeLines_append hreturn, withoutReturn_append, ih]

/-- **The lines of a text** are the ones that the rules give, and no others. -/
lemma hasLines_iff {text : List Char} {found : List (List Char)} :
    HasLines text found ↔ closeLines (pieces '\n' text) = found :=
  ⟨HasLines.eq_closeLines, fun h => h ▸ hasLines_closeLines text⟩

/-! ### Numbers -/

/-- The line of a text that has a number, counted from one among all lines. -/
def LineAt (text : String) (number : ℕ) (line : String) : Prop :=
  ∃ all, HasLines text.toList all ∧ 0 < number ∧ all[number - 1]? = some line.toList

/-- The lines of a text that are not blank, from the first to the last one, with the
numbers that they have among all lines. -/
structure NumbersLines (text : String) (numbered : List (ℕ × String)) : Prop where
  ascending : numbered.Pairwise fun a b => a.1 < b.1
  mem_iff : ∀ number line, (number, line) ∈ numbered ↔
    LineAt text number line ∧ isBlankText line = false

/-- The lines of a text that are not blank, with their numbers. -/
def numberedLines (text : String) : List (ℕ × String) :=
  ((lines text).mapIdx fun i line => (i + 1, line)).filter fun line => !isBlankText line.2

lemma lineAt_iff {text line : String} {number : ℕ} :
    LineAt text number line ↔ ∃ i, (lines text)[i]? = some line ∧ i + 1 = number := by
  simp only [LineAt, hasLines_iff, exists_eq_left', lines, List.getElem?_map,
    Option.map_eq_some_iff]
  constructor
  · rintro ⟨hpos, hline⟩
    exact ⟨number - 1, ⟨_, hline, String.ofList_toList⟩, by omega⟩
  · rintro ⟨i, ⟨chars, hchars, rfl⟩, rfl⟩
    exact ⟨by omega, by simpa using hchars⟩

lemma numbersLines_numberedLines (text : String) : NumbersLines text (numberedLines text) where
  ascending := by
    refine List.Pairwise.filter _ (List.pairwise_iff_getElem.mpr ?_)
    intro i j hi hj hij
    simpa using hij
  mem_iff number line := by
    simp only [numberedLines, List.mem_filter, List.mem_mapIdx, lineAt_iff, Prod.mk.injEq,
      Bool.not_eq_true']
    refine and_congr_left fun _ => ?_
    constructor
    · rintro ⟨i, hi, hnumber, hline⟩
      exact ⟨i, List.getElem?_eq_some_iff.mpr ⟨hi, hline⟩, hnumber⟩
    · rintro ⟨i, hline, hnumber⟩
      obtain ⟨hi, hline⟩ := List.getElem?_eq_some_iff.mp hline
      exact ⟨i, hi, hnumber, hline⟩

/-- Lists of ascending numbers with the same members are the same. -/
lemma eq_of_ascending {α : Type} {a b : List (ℕ × α)} (ha : a.Pairwise fun x y => x.1 < y.1)
    (hb : b.Pairwise fun x y => x.1 < y.1) (h : ∀ x, x ∈ a ↔ x ∈ b) : a = b := by
  have hnodup : ∀ {list : List (ℕ × α)}, (list.Pairwise fun x y => x.1 < y.1) → list.Nodup :=
    fun hlist => hlist.imp fun hlt heq => by rw [heq] at hlt; exact Nat.lt_irrefl _ hlt
  refine ((List.perm_ext_iff_of_nodup (hnodup ha) (hnodup hb)).mpr h).eq_of_pairwise ?_ ha hb
  intro x y _ _ hxy hyx
  exact absurd hxy (Nat.lt_asymm hyx)

/-- **The numbered lines of a text** are the ones that are found. -/
lemma numbersLines_iff {text : String} {numbered : List (ℕ × String)} :
    NumbersLines text numbered ↔ numberedLines text = numbered := by
  constructor
  · intro h
    have hfound := numbersLines_numberedLines text
    refine eq_of_ascending hfound.ascending h.ascending ?_
    rintro ⟨number, line⟩
    rw [hfound.mem_iff, h.mem_iff]
  · rintro rfl
    exact numbersLines_numberedLines text

end JsonTypes
