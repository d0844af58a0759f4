/-
Which symbols a JSON text consists of.

White space may stand in front of every symbol. Strings and numbers are symbols as they are
written. The tokens of a text are its symbols, except that what cannot be read ends them; of the
symbols only a number can be like that, if it is out of range.

* `Symbol`, `Symbol.Spells`: the symbols, and how they are spelled.
* `Symbol.IsRead`: what a symbol is read as.
* `Symbol.Spells.exists_lexeme`, `stands_of_lexeme`: a symbol is read where it is spelled,
  and only there.
* `Lexes`: the text starts with these symbols, and the rest of it comes after them.
* `Lexes.exists_token`, `exists_lexes`: the tokens of a text are its symbols.
* `Lexes.append_right`: more text may follow.
-/
import JsonTypes.Json.Token
import JsonTypes.Proofs.WrittenNumerals
import JsonTypes.Proofs.WrittenStrings

namespace JsonTypes.Json

/-! ### Symbols -/

/-- What a JSON text consists of. -/
inductive Symbol where
  | openBrace
  | closeBrace
  | openBracket
  | closeBracket
  | colon
  | comma
  | null
  | boolean (b : Bool)
  | text (s : String)
  | number (n : Numeral)

namespace Symbol

/-- How a symbol is spelled. Only strings can be spelled in several ways. -/
inductive Spells : Symbol → List Char → Prop where
  | openBrace : Spells openBrace ['{']
  | closeBrace : Spells closeBrace ['}']
  | openBracket : Spells openBracket ['[']
  | closeBracket : Spells closeBracket [']']
  | colon : Spells colon [':']
  | comma : Spells comma [',']
  | null : Spells null "null".toList
  | yes : Spells (boolean true) "true".toList
  | no : Spells (boolean false) "false".toList
  | text {chars content : List Char} (writes : JsonTypes.Writes chars content) :
      Spells (text (String.ofList chars)) ('"' :: (content ++ ['"']))
  | number {n : Numeral} (numeral : n.WellFormed) : Spells (number n) n.chars

/-- A string may be spelled without escapes if all of its characters stand for themselves. -/
lemma Spells.plain (s : String)
    (h : s.toList.all (fun c => c != '"' && c != '\\' && Nat.ble 0x20 c.toNat) = true) :
    Spells (.text s) ('"' :: (s.toList ++ ['"'])) := by
  have hspells := Spells.text (Writes.plain h)
  rwa [String.ofList_toList] at hspells

/-- What may follow a symbol. -/
def EndsBefore : Symbol → List Char → Prop
  | number n, tail => n.EndsBefore tail
  | _, _ => True

/-- The lexeme is the symbol. Of numbers only those that are natural are told apart. -/
def IsRead : Symbol → Lexeme → Prop
  | openBrace, lexeme => lexeme = .openBrace
  | closeBrace, lexeme => lexeme = .closeBrace
  | openBracket, lexeme => lexeme = .openBracket
  | closeBracket, lexeme => lexeme = .closeBracket
  | colon, lexeme => lexeme = .colon
  | comma, lexeme => lexeme = .comma
  | null, lexeme => lexeme = .literal (.ok .null)
  | boolean b, lexeme => lexeme = .literal (.ok (.boolean b))
  | text s, lexeme => lexeme = .text (.ok s)
  | number n, lexeme => ∃ result : Except ReadError Number,
      lexeme = .literal (result.map .number) ∧
        ∀ k : ℕ, result = .ok (.integer k) ↔ n.IsNatural k

end Symbol

/-! ### Lexemes -/

section Lexemes

variable {p : Place}

lemma readLetters_ok_iff {word text : List Char} {u : Unit} :
    readLetters p word text = .ok u ↔ ∃ tail, text = word ++ tail := by
  induction word generalizing p text with
  | nil => exact iff_of_true rfl ⟨text, rfl⟩
  | cons letter word ih =>
      cases text with
      | nil => exact iff_of_false nofun (by rintro ⟨_, ⟨⟩⟩)
      | cons c text =>
          rw [readLetters]
          split_ifs with heq
          · rw [ih, heq]
            simp
          · refine iff_of_false nofun ?_
            rintro ⟨_, ⟨⟩⟩
            exact heq rfl

/-- A word is read where it is spelled out. -/
lemma readWord_ok_iff {word : String} {value : Json} {text : List Char} {s : Scanned Json} :
    readWord p word value text = .ok s ↔
      (∃ tail, text = word.toList ++ tail) ∧ s = ⟨value, word.length⟩ := by
  rw [readWord, except_map_ok]
  constructor
  · rintro ⟨u, hread, rfl⟩
    exact ⟨readLetters_ok_iff.mp hread, rfl⟩
  · rintro ⟨htext, rfl⟩
    exact ⟨(), readLetters_ok_iff.mpr htext, rfl⟩

lemma lexemeAt_number {c : Char} (hc : c = '-' ∨ c.isDigit = true) (p : Place)
    (rest : List Char) :
    lexemeAt p c rest = Scanned.lexeme .literal
      ((readNumber p (c :: rest)).map fun s => ⟨.number s.value, s.width⟩) := by
  have hstart : (c == '-' || c.isDigit) = true := by simpa using hc
  unfold lexemeAt
  split
  all_goals first | exact absurd hstart (by decide) | exact if_pos hstart

lemma isSeparator_digit {c : Char} (hc : c.isDigit = true) : isSeparator c = false := by
  have hne : c ≠ ' ' ∧ c ≠ '\n' ∧ c ≠ '\r' ∧ c ≠ '\t' := by
    refine ⟨?_, ?_, ?_, ?_⟩ <;> (rintro rfl; cases hc)
  simp [isSeparator, hne]

lemma lexeme_ok {α : Type} {make : Except ReadError α → Lexeme}
    {read : Except ReadError (Scanned α)} {s : Scanned α} (h : read = .ok s) :
    Scanned.lexeme make read = (make (.ok s.value), s.width) := by
  rw [h, Scanned.lexeme]

/-- **A symbol is read where it is spelled.** -/
lemma Symbol.Spells.exists_lexeme {symbol : Symbol} {cs tail : List Char} (h : symbol.Spells cs)
    (hends : symbol.EndsBefore tail) (p : Place) :
    ∃ c rest lexeme width, cs = c :: rest ∧ isSeparator c = false ∧
      lexemeAt p c (rest ++ tail) = (lexeme, width) ∧ symbol.IsRead lexeme ∧
      (lexeme.isBroken = false → width = cs.length) := by
  have hword : ∀ (word : String) (value : Json), Scanned.lexeme .literal
      (readWord p word value (word.toList ++ tail)) = (.literal (.ok value), word.length) :=
    fun word value => lexeme_ok (readWord_ok_iff.mpr ⟨⟨tail, rfl⟩, rfl⟩)
  cases h with
  | openBrace | closeBrace | openBracket | closeBracket | colon | comma =>
      exact ⟨_, _, _, _, rfl, rfl, rfl, rfl, fun _ => rfl⟩
  | null => exact ⟨'n', _, _, _, rfl, rfl, hword "null" .null, rfl, fun _ => rfl⟩
  | yes => exact ⟨'t', _, _, _, rfl, rfl, hword "true" (.boolean true), rfl, fun _ => rfl⟩
  | no => exact ⟨'f', _, _, _, rfl, rfl, hword "false" (.boolean false), rfl, fun _ => rfl⟩
  | @text chars content hwrites =>
      have hread : readQuoted (p.advance '"') (content ++ ['"'] ++ tail) =
          .ok ⟨String.ofList chars, content.length + 1⟩ :=
        readQuoted_ok_iff.mpr ⟨content, tail, chars, by simp, hwrites, rfl⟩
      refine ⟨'"', _, _, _, rfl, rfl, lexeme_ok (except_map_ok.mpr ⟨_, hread, rfl⟩), rfl, ?_⟩
      intro _
      simp
  | @number n hn =>
      obtain ⟨c, rest, hchars, hc⟩ := n.exists_chars_eq_cons hn
      have hseparator : isSeparator c = false := by
        rcases hc with rfl | hc
        · rfl
        · exact isSeparator_digit hc
      have hlexeme := lexemeAt_number hc p (rest ++ tail)
      rw [← List.cons_append, ← hchars] at hlexeme
      have hnatural := fun k : ℕ => @Numeral.readNumber_natural_iff n _ k hn hends p
      cases hread : readNumber p (n.chars ++ tail) with
      | error e =>
          rw [hread] at hlexeme hnatural
          exact ⟨c, rest, _, _, hchars, hseparator, hlexeme, ⟨.error e, rfl, hnatural⟩, nofun⟩
      | ok s =>
          rw [hread] at hlexeme hnatural
          have hwidth := (Numeral.readNumber_ok hn hends hread).1
          exact ⟨c, rest, _, _, hchars, hseparator, hlexeme, ⟨.ok s.value, rfl, hnatural⟩,
            fun _ => hwidth⟩

/-- What a lexeme that is not broken was read from. -/
lemma ok_of_lexeme {α : Type} {make : Except ReadError α → Lexeme}
    {read : Except ReadError (Scanned α)} {lexeme : Lexeme} {width : ℕ}
    (hmake : ∀ e, (make (.error e)).isBroken = true)
    (h : Scanned.lexeme make read = (lexeme, width)) (hbroken : lexeme.isBroken = false) :
    ∃ s, read = .ok s ∧ lexeme = make (.ok s.value) ∧ width = s.width := by
  cases read with
  | error e =>
      cases h
      exact absurd (hmake e) (by rw [hbroken]; nofun)
  | ok s =>
      cases h
      exact ⟨s, rfl, rfl, rfl⟩

/-- A symbol stands in front of a text, and is read as a lexeme there. -/
def Stands (text : List Char) (lexeme : Lexeme) (width : ℕ) : Prop :=
  ∃ symbol : Symbol, ∃ cs tail, text = cs ++ tail ∧ symbol.Spells cs ∧ symbol.EndsBefore tail ∧
    symbol.IsRead lexeme ∧ width = cs.length

lemma stands_of_readWord {word : String} {value : Json} {symbol : Symbol} {text : List Char}
    {lexeme : Lexeme} {width : ℕ} (hspells : symbol.Spells word.toList)
    (hread : symbol.IsRead (.literal (.ok value))) (hends : ∀ tail, symbol.EndsBefore tail)
    (h : Scanned.lexeme .literal (readWord p word value text) = (lexeme, width))
    (hbroken : lexeme.isBroken = false) : Stands text lexeme width := by
  obtain ⟨s, hs, rfl, rfl⟩ := ok_of_lexeme (fun _ => rfl) h hbroken
  obtain ⟨⟨tail, htext⟩, rfl⟩ := readWord_ok_iff.mp hs
  exact ⟨symbol, word.toList, tail, htext, hspells, hends tail, hread, String.length_toList.symm⟩

lemma stands_of_readNumber {text : List Char} {lexeme : Lexeme} {width : ℕ}
    (h : Scanned.lexeme .literal
      ((readNumber p text).map fun s => ⟨Json.number s.value, s.width⟩) = (lexeme, width))
    (hbroken : lexeme.isBroken = false) : Stands text lexeme width := by
  obtain ⟨s, hs, rfl, rfl⟩ := ok_of_lexeme (fun _ => rfl) h hbroken
  obtain ⟨t, ht, rfl⟩ := except_map_ok.mp hs
  obtain ⟨n, tail, htext, hn, hends, hwidth, -⟩ := exists_numeral_of_readNumber ht
  have hnatural := fun k : ℕ => @Numeral.readNumber_natural_iff n _ k hn hends p
  rw [← htext, ht] at hnatural
  exact ⟨.number n, n.chars, tail, htext, .number hn, hends, ⟨.ok t.value, rfl, hnatural⟩, hwidth⟩

/-- **Where a symbol is read, it is spelled.** -/
lemma stands_of_lexeme {c : Char} {rest : List Char} {lexeme : Lexeme} {width : ℕ}
    (h : lexemeAt p c rest = (lexeme, width)) (hbroken : lexeme.isBroken = false) :
    Stands (c :: rest) lexeme width := by
  unfold lexemeAt at h
  split at h
  · cases h
    exact ⟨.openBrace, ['{'], rest, rfl, .openBrace, trivial, rfl, rfl⟩
  · cases h
    exact ⟨.closeBrace, ['}'], rest, rfl, .closeBrace, trivial, rfl, rfl⟩
  · cases h
    exact ⟨.openBracket, ['['], rest, rfl, .openBracket, trivial, rfl, rfl⟩
  · cases h
    exact ⟨.closeBracket, [']'], rest, rfl, .closeBracket, trivial, rfl, rfl⟩
  · cases h
    exact ⟨.colon, [':'], rest, rfl, .colon, trivial, rfl, rfl⟩
  · cases h
    exact ⟨.comma, [','], rest, rfl, .comma, trivial, rfl, rfl⟩
  · obtain ⟨s, hs, rfl, rfl⟩ := ok_of_lexeme (fun _ => rfl) h hbroken
    obtain ⟨t, ht, rfl⟩ := except_map_ok.mp hs
    obtain ⟨content, tail, chars, rfl, hwrites, rfl⟩ := readQuoted_ok_iff.mp ht
    exact ⟨.text (String.ofList chars), '"' :: (content ++ ['"']), tail, by simp, .text hwrites,
      trivial, rfl, by simp⟩
  · exact stands_of_readWord .null rfl (fun _ => trivial) h hbroken
  · exact stands_of_readWord .yes rfl (fun _ => trivial) h hbroken
  · exact stands_of_readWord .no rfl (fun _ => trivial) h hbroken
  · split at h
    · exact stands_of_readNumber h hbroken
    · cases h
      cases hbroken

end Lexemes

/-! ### Texts -/

/-- The text starts with the symbols, and with white space in front of them. The rest of it comes
after the last one. -/
inductive Lexes (tail : List Char) : List Char → List Symbol → Prop where
  | done : Lexes tail tail []
  | blank {c : Char} {rest : List Char} {symbols : List Symbol} (white : isSeparator c = true)
      (later : Lexes tail rest symbols) : Lexes tail (c :: rest) symbols
  | symbol {symbol : Symbol} {cs rest : List Char} {symbols : List Symbol}
      (spelled : symbol.Spells cs) (ends : symbol.EndsBefore rest)
      (later : Lexes tail rest symbols) : Lexes tail (cs ++ rest) (symbol :: symbols)

section Texts

variable {p : Place} {text tail : List Char} {symbols : List Symbol}

/-- The characters of a token that has been read are passed. -/
lemma tokensFrom_skip (p : Place) (skipped rest : List Char) :
    tokensFrom p skipped.length (skipped ++ rest) = tokensFrom (p.advanceAll skipped) 0 rest := by
  induction skipped generalizing p with
  | nil => cases rest <;> rfl
  | cons c skipped ih =>
      rw [List.length_cons, List.cons_append, tokensFrom, ih]
      rfl

/-- The first token of a text is its first symbol. The others follow, unless it cannot be read. -/
lemma Lexes.exists_token {symbol : Symbol} (h : Lexes tail text (symbol :: symbols)) (p : Place) :
    ∃ token rest q, symbol.IsRead token.lexeme ∧ Lexes tail rest symbols ∧
      tokensFrom p 0 text =
        token :: (if token.lexeme.isBroken then [] else tokensFrom q 0 rest) := by
  generalize hall : symbol :: symbols = all at h
  induction h generalizing p with
  | done => cases hall
  | @blank c rest _ hwhite _ ih =>
      obtain ⟨token, rest', q, hread, hlater, htokens⟩ := ih (p.advance c) hall
      exact ⟨token, rest', q, hread, hlater, by rw [tokensFrom, if_pos hwhite, htokens]⟩
  | @symbol _ cs rest _ hspelled hends hlater _ =>
      cases hall
      obtain ⟨c, others, lexeme, width, rfl, hwhite, hlexeme, hread, hwidth⟩ :=
        hspelled.exists_lexeme hends p
      refine ⟨⟨lexeme, p, p.afterBytes 1 [c], p.advanceAll ((c :: (others ++ rest)).take width)⟩,
        rest, (p.advance c).advanceAll others, hread, hlater, ?_⟩
      rw [List.cons_append, tokensFrom, hwhite, if_neg Bool.false_ne_true, hlexeme]
      by_cases hbroken : lexeme.isBroken = true
      · simp [hbroken]
      · have hskip : width - 1 = others.length := by
          rw [hwidth (Bool.eq_false_iff.mpr hbroken)]
          rfl
        simp [hbroken, hskip, tokensFrom_skip]

/-- Unless a token of a text cannot be read, the tokens are the symbols of the text, and nothing
but white space comes after them. -/
lemma exists_lexes (p : Place) (text : List Char)
    (h : ∀ token ∈ tokensFrom p 0 text, token.lexeme.isBroken = false) :
    ∃ symbols, Lexes [] text symbols ∧
      List.Forall₂ (fun symbol token => Symbol.IsRead symbol token.lexeme) symbols
        (tokensFrom p 0 text) := by
  match text with
  | [] => exact ⟨[], .done, .nil⟩
  | c :: rest =>
      rw [tokensFrom] at h ⊢
      by_cases hwhite : isSeparator c = true
      · rw [if_pos hwhite] at h ⊢
        obtain ⟨symbols, hsymbols, hread⟩ := exists_lexes _ rest h
        exact ⟨symbols, .blank hwhite hsymbols, hread⟩
      · rw [if_neg hwhite] at h ⊢
        cases hlexeme : lexemeAt p c rest with
        | mk lexeme width =>
            simp only [hlexeme] at h ⊢
            have hbroken : lexeme.isBroken = false := by
              split at h
              · exact h _ List.mem_cons_self
              · exact h _ List.mem_cons_self
            obtain ⟨symbol, cs, tail, htext, hspells, hends, hread, hwidth⟩ :=
              stands_of_lexeme hlexeme hbroken
            obtain ⟨c', others, _, _, rfl, -⟩ := hspells.exists_lexeme hends p
            simp only [List.cons_append, List.cons.injEq] at htext
            obtain ⟨rfl, hrest⟩ := htext
            have hshorter : tail.length ≤ rest.length := by
              rw [hrest, List.length_append]
              exact Nat.le_add_left _ _
            have hskip : width - 1 = others.length := by
              rw [hwidth]
              rfl
            rw [hbroken, if_neg Bool.false_ne_true, hskip, hrest, tokensFrom_skip] at h ⊢
            obtain ⟨symbols, hsymbols, hall⟩ :=
              exists_lexes _ tail fun token ht => h token (List.mem_cons_of_mem _ ht)
            exact ⟨symbol :: symbols, .symbol hspells hends hsymbols, .cons hread hall⟩
termination_by text.length
decreasing_by
  · exact Nat.lt_succ_self _
  · exact Nat.lt_succ_of_le hshorter

lemma Lexes.text_ne_nil {symbol : Symbol} (h : Lexes tail text (symbol :: symbols)) :
    text ≠ [] := by
  rintro rfl
  obtain ⟨token, rest, q, -, -, htokens⟩ := h.exists_token .start
  cases htokens

lemma Symbol.EndsBefore.append_right {symbol : Symbol} {rest : List Char}
    (h : symbol.EndsBefore rest) (hrest : rest ≠ []) (extra : List Char) :
    symbol.EndsBefore (rest ++ extra) := by
  obtain ⟨c, rest, rfl⟩ := List.exists_cons_of_ne_nil hrest
  cases symbol with
  | number n => exact ⟨h.digit, h.letter, h.point⟩
  | _ => trivial

/-- More text may follow, unless a number ends the text. -/
lemma Lexes.append_right (h : Lexes tail text symbols) (extra : List Char)
    (hlast : ∀ n, symbols.getLast? ≠ some (.number n)) :
    Lexes (tail ++ extra) (text ++ extra) symbols := by
  induction h with
  | done => exact .done
  | blank hwhite _ ih => exact .blank hwhite (ih hlast)
  | @symbol symbol cs rest symbols hspelled hends hlater ih =>
      rw [List.append_assoc]
      cases symbols with
      | nil =>
          have hend : symbol.EndsBefore (rest ++ extra) := by
            cases symbol with
            | number n => exact absurd rfl (hlast n)
            | _ => trivial
          exact .symbol hspelled hend (ih nofun)
      | cons next symbols =>
          rw [List.getLast?_cons_cons] at hlast
          exact .symbol hspelled (hends.append_right hlater.text_ne_nil extra) (ih hlast)

end Texts

end JsonTypes.Json
