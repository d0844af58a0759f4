/-
Which symbols a text consists of.

White space may stand in front of every symbol and behind the last one; between two
symbols it is needed only where they would otherwise be one name. The scan finds
these symbols, and it fails on all other texts.

* `Consists`: the texts of a list of symbols, by rules. A name extends as far as it can.
* `ScansTo`, `Consists.scansTo`: the scan of such a text yields the symbols.
* `Placed`: the same rules for tokens, with the place of each in bytes; `placed_scanFrom`:
  the tokens that the scan yields are placed like this. A name that is being read counts
  as text that lies ahead.
* `exists_scan_iff`, `Consists.unique`: the two directions together, and that a text
  consists of one list of symbols only.
-/
import JsonTypes.Proofs.WrittenTrees
import Mathlib.Data.String.Basic

namespace JsonTypes.TypeText

/-- The text consists of the symbols, with white space in any places between them and
around them. -/
inductive Consists : List Char → List Symbol → Prop where
  | done : Consists [] []
  | blank {c : Char} {rest : List Char} {symbols : List Symbol} (white : isBlank c = true)
      (later : Consists rest symbols) : Consists (c :: rest) symbols
  | opening {rest : List Char} {symbols : List Symbol} (later : Consists rest symbols) :
      Consists ('(' :: rest) (.opening :: symbols)
  | closing {rest : List Char} {symbols : List Symbol} (later : Consists rest symbols) :
      Consists (')' :: rest) (.closing :: symbols)
  | comma {rest : List Char} {symbols : List Symbol} (later : Consists rest symbols) :
      Consists (',' :: rest) (.comma :: symbols)
  /-- A name extends to the first character that cannot continue it. -/
  | name {name : String} {rest : List Char} {symbols : List Symbol}
      (identifier : isIdentifier name = true) (ends : EndsName rest)
      (later : Consists rest symbols) : Consists (name.toList ++ rest) (.name name :: symbols)

/-! ### From texts to tokens -/

/-- White space is skipped. -/
lemma readAt_blank {c : Char} (h : isBlank c = true) (offset : ℕ) :
    readAt none offset c = .ok ([], none) := by
  unfold readAt startAt
  rw [if_pos h]

/-- The scan yields the symbols, wherever the text begins. -/
def ScansTo (chars : List Char) (symbols : List Symbol) : Prop :=
  ∀ offset, ∃ tokens, scanFrom none offset chars = .ok tokens ∧ tokens.map Token.symbol = symbols

/-- A character that is a symbol of its own is scanned as that symbol. -/
lemma ScansTo.cons {c : Char} {symbol : Symbol}
    (hread : ∀ offset, readAt none offset c = .ok ([⟨symbol, offset⟩], none)) {rest : List Char}
    {symbols : List Symbol} (h : ScansTo rest symbols) :
    ScansTo (c :: rest) (symbol :: symbols) := by
  intro offset
  obtain ⟨tokens, hscan, rfl⟩ := h (offset + c.utf8Size)
  refine ⟨⟨symbol, offset⟩ :: tokens, ?_, rfl⟩
  rw [scanFrom_cons (hread offset), hscan]
  rfl

/-- **The scan finds the symbols of a text.** -/
lemma Consists.scansTo {chars : List Char} {symbols : List Symbol}
    (h : Consists chars symbols) : ScansTo chars symbols := by
  induction h with
  | done => exact fun offset => ⟨[], rfl, rfl⟩
  | @blank c rest symbols hwhite _ ih =>
      intro offset
      obtain ⟨tokens, hscan, hsymbols⟩ := ih (offset + c.utf8Size)
      refine ⟨tokens, ?_, hsymbols⟩
      rw [scanFrom_skip (readAt_blank hwhite offset), hscan]
  | opening _ ih => exact ih.cons fun offset => rfl
  | closing _ ih => exact ih.cons fun offset => rfl
  | comma _ ih => exact ih.cons fun offset => rfl
  | @name name rest symbols hidentifier hends _ ih =>
      intro offset
      obtain ⟨first, after, hfirst, hname⟩ := Scanned.name hidentifier hends offset
      obtain ⟨tokens, hscan, rfl⟩ := ih after
      have hspell : spell [.name name] = name.toList := List.append_nil name.toList
      rw [hspell, hscan] at hname
      refine ⟨first ++ tokens, hname, ?_⟩
      rw [List.map_append, hfirst]
      rfl

/-! ### From tokens to texts -/

/-- The symbol that a character is by itself. -/
def signOf? : Char → Option Symbol
  | '(' => some .opening
  | ')' => some .closing
  | ',' => some .comma
  | _ => none

/-- Where no name is open a character is skipped, starts a name, or is a symbol. -/
lemma startAt_eq (offset : ℕ) (c : Char) :
    startAt offset c =
      if isBlank c then .ok ([], none)
      else if isNameStart c then .ok ([], some ⟨offset, [c]⟩)
      else match signOf? c with
        | some symbol => .ok ([⟨symbol, offset⟩], none)
        | none => .error ⟨offset, .character c⟩ := by
  unfold startAt signOf?
  refine if_congr Iff.rfl rfl (if_congr Iff.rfl rfl ?_)
  split <;> simp [*]

/-- The text that begins at an offset consists of the tokens, each at its own offset. -/
inductive Placed : ℕ → List Char → List Token → Prop where
  | done {offset : ℕ} : Placed offset [] []
  | blank {offset : ℕ} {c : Char} {rest : List Char} {tokens : List Token}
      (white : isBlank c = true) (later : Placed (offset + c.utf8Size) rest tokens) :
      Placed offset (c :: rest) tokens
  | sign {offset : ℕ} {c : Char} {symbol : Symbol} {rest : List Char} {tokens : List Token}
      (sign : signOf? c = some symbol) (later : Placed (offset + c.utf8Size) rest tokens) :
      Placed offset (c :: rest) (⟨symbol, offset⟩ :: tokens)
  | name {offset : ℕ} {name : String} {rest : List Char} {tokens : List Token}
      (identifier : isIdentifier name = true) (ends : EndsName rest)
      (later : Placed (offset + name.utf8ByteSize) rest tokens) :
      Placed offset (name.toList ++ rest) (⟨.name name, offset⟩ :: tokens)

lemma Consists.sign {c : Char} {symbol : Symbol} (h : signOf? c = some symbol)
    {rest : List Char} {symbols : List Symbol} (later : Consists rest symbols) :
    Consists (c :: rest) (symbol :: symbols) := by
  unfold signOf? at h
  split at h <;> cases h
  · exact .opening later
  · exact .closing later
  · exact .comma later

/-- Without the places, the text consists of the symbols. -/
lemma Placed.consists {offset : ℕ} {chars : List Char} {tokens : List Token}
    (h : Placed offset chars tokens) : Consists chars (tokens.map Token.symbol) := by
  induction h with
  | done => exact .done
  | blank hwhite _ ih => exact .blank hwhite ih
  | sign hsign _ ih => exact .sign hsign ih
  | name hidentifier hends _ ih => exact .name hidentifier hends ih

/-- The characters of the name that is being read, if there is one. -/
def pending (name : Option OpenName) : List Char :=
  match name with
  | some name => name.reversed.reverse
  | none => []

/-- The name that is being read ahead of an offset is an identifier, and it began where its
characters say. -/
def OpenName.Reaches (name : OpenName) (offset : ℕ) : Prop :=
  name.token.symbol.Spelled ∧ name.offset + String.utf8Len name.reversed.reverse = offset

/-- The offset of the text with the characters of the open name put back. -/
def beginning (name : Option OpenName) (offset : ℕ) : ℕ :=
  match name with
  | some name => name.offset
  | none => offset

/-- A character that no name is open at: it is skipped, is a symbol, or starts a name
that the rest of the text continues. -/
lemma placed_startAt {offset : ℕ} {c : Char} {tokens later : List Token}
    {next : Option OpenName} (h : startAt offset c = .ok (tokens, next)) {rest : List Char}
    (hrest : Placed (beginning next (offset + c.utf8Size)) (pending next ++ rest) later) :
    Placed offset (c :: rest) (tokens ++ later) := by
  rw [startAt_eq] at h
  split_ifs at h with hwhite hstart
  · cases h
    exact .blank hwhite hrest
  · cases h
    exact hrest
  · cases hsign : signOf? c with
    | none => simp [hsign] at h
    | some symbol =>
        rw [hsign] at h
        cases h
        exact .sign hsign hrest

lemma reaches_startAt {offset : ℕ} {c : Char} {tokens : List Token} {next : Option OpenName}
    (h : startAt offset c = .ok (tokens, next)) :
    ∀ n ∈ next, n.Reaches (offset + c.utf8Size) := by
  intro n hn
  refine ⟨(holdsIdentifiers_of_startAt h).2 n hn, ?_⟩
  rw [startAt_eq] at h
  split_ifs at h with hwhite hstart
  · cases h
    cases hn
  · cases h
    cases hn
    simp
  · cases hsign : signOf? c <;> rw [hsign] at h <;> cases h
    cases hn

/-- An open name as a token in front of the rest. -/
lemma OpenName.Reaches.placed {name : OpenName} {offset : ℕ} (h : name.Reaches offset)
    {rest : List Char} {tokens : List Token} (hends : EndsName rest)
    (hrest : Placed offset rest tokens) :
    Placed name.offset (name.reversed.reverse ++ rest) (name.token :: tokens) := by
  obtain ⟨hspelled, hoffset⟩ := h
  have hname : isIdentifier (String.ofList name.reversed.reverse) = true := hspelled
  have hlater : Placed (name.offset + (String.ofList name.reversed.reverse).utf8ByteSize) rest
      tokens := by rwa [String.utf8ByteSize_ofList, hoffset]
  have hplaced := Placed.name hname hends hlater
  rwa [String.toList_ofList] at hplaced

/-- **A text that is scanned consists of the tokens found, in their places.** The characters
of an open name have been passed already, so they are put back in front of the text. -/
lemma placed_scanFrom {chars : List Char} {name : Option OpenName} {offset : ℕ}
    {tokens : List Token} (hname : ∀ n ∈ name, n.Reaches offset)
    (h : scanFrom name offset chars = .ok tokens) :
    Placed (beginning name offset) (pending name ++ chars) tokens := by
  induction chars generalizing name offset tokens with
  | nil =>
      cases h
      cases name with
      | none => exact .done
      | some name => exact (hname name rfl).placed nofun .done
  | cons c rest ih =>
      rw [scanFrom, except_bind_ok] at h
      obtain ⟨⟨ended, next⟩, hread, h⟩ := h
      obtain ⟨later, hlater, hjoined⟩ := except_bind_ok.mp h
      cases hjoined
      cases name with
      | none => exact placed_startAt hread (ih (reaches_startAt hread) hlater)
      | some name =>
          rw [readAt] at hread
          split_ifs at hread with hpart
          · -- the character belongs to the open name
            cases hread
            have hlonger : OpenName.Reaches ⟨name.offset, c :: name.reversed⟩
                (offset + c.utf8Size) := by
              obtain ⟨hspelled, hoffset⟩ := hname name rfl
              refine ⟨?_, ?_⟩
              · rw [OpenName.token, List.reverse_cons]
                exact isIdentifier_append hspelled hpart
              · rw [← hoffset, List.reverse_cons, String.utf8Len_append]
                simp [Nat.add_assoc]
            have hrest := ih (fun n hn => by cases hn; exact hlonger) hlater
            rw [pending, List.reverse_cons, List.append_assoc] at hrest
            exact hrest
          · obtain ⟨⟨started, next'⟩, hstarted, hended⟩ := except_map_ok.mp hread
            cases hended
            have hends : EndsName (c :: rest) := by
              intro d hd
              cases hd
              exact eq_false_of_ne_true hpart
            have hrest := placed_startAt hstarted (ih (reaches_startAt hstarted) hlater)
            exact (hname name rfl).placed hends hrest

/-! ### Texts and symbols -/

/-- The tokens of a text stand in their places. -/
lemma placed_of_scan {text : String} {tokens : List Token} (h : scan text = .ok tokens) :
    Placed 0 text.toList tokens := by
  have hnone : ∀ n ∈ (none : Option OpenName), n.Reaches 0 := nofun
  exact placed_scanFrom hnone h

/-- **A text is scanned as some symbols if and only if it consists of them.** -/
lemma exists_scan_iff {text : String} {symbols : List Symbol} :
    (∃ tokens, scan text = .ok tokens ∧ tokens.map Token.symbol = symbols) ↔
      Consists text.toList symbols := by
  constructor
  · rintro ⟨tokens, hscan, rfl⟩
    exact (placed_of_scan hscan).consists
  · intro h
    exact h.scansTo 0

/-- A text consists of one list of symbols only. -/
lemma Consists.unique {chars : List Char} {symbols symbols' : List Symbol}
    (h : Consists chars symbols) (h' : Consists chars symbols') : symbols' = symbols := by
  obtain ⟨tokens, hscan, rfl⟩ := h.scansTo 0
  obtain ⟨tokens', hscan', rfl⟩ := h'.scansTo 0
  rw [hscan] at hscan'
  cases hscan'
  rfl

end JsonTypes.TypeText
