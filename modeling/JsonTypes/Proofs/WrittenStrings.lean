/-
How strings are written in JSON texts.

Between the quotes a character stands for itself, unless it is a quote, a backslash or a control
character, or an escape stands for it: a letter behind a backslash, the four digits of its code
unit, or those of the two code units of a surrogate pair. What is read are the characters that are
written, however they are written.

* `Escapes`: what may stand behind a backslash for a character.
* `WritesChar`, `Writes`: the texts of a character and of several, between quotes.
* `readEscape_ok_iff`: an escape is read wherever one stands, and only there.
* `Writes.readCharacters`, `exists_writes_of_readCharacters`: the same for the characters between
  quotes; `readQuoted_ok_iff`: both together.
-/
import JsonTypes.Json.Quoted
import JsonTypes.Proofs.Traces

namespace JsonTypes

/-! ### What is written -/

/-- The character of the code units of a surrogate pair. -/
@[irreducible]
def pairedChar (leading trailing : ℕ) : Char :=
  Char.ofNat (0x10000 + (leading - 0xD800) * 0x400 + (trailing - 0xDC00))

/-- What may stand behind a backslash for a character. -/
inductive Escapes : Char → List Char → Prop where
  /-- A letter. -/
  | letter {letter c : Char} (value : escapeValue? letter = some c) : Escapes c [letter]
  /-- The digits of a code unit. -/
  | unit {a b c d : Char} {unit : ℕ} (digits : hexUnit? [a, b, c, d] = some unit)
      (leading : isLeading unit = false) (trailing : isTrailing unit = false) :
      Escapes (Char.ofNat unit) ['u', a, b, c, d]
  /-- The digits of two code units, with a backslash of its own for the second. -/
  | pair {a b c d a' b' c' d' : Char} {unit unit' : ℕ}
      (digits : hexUnit? [a, b, c, d] = some unit) (leading : isLeading unit = true)
      (digits' : hexUnit? [a', b', c', d'] = some unit') (trailing : isTrailing unit' = true) :
      Escapes (pairedChar unit unit') ['u', a, b, c, d, '\\', 'u', a', b', c', d']

/-- What may stand between quotes for a character. -/
inductive WritesChar : Char → List Char → Prop where
  | plain {c : Char} (quote : c ≠ '"') (backslash : c ≠ '\\') (control : 0x20 ≤ c.toNat) :
      WritesChar c [c]
  | escaped {c : Char} {cs : List Char} (escape : Escapes c cs) : WritesChar c ('\\' :: cs)

/-- What may stand between quotes for some characters. -/
inductive Writes : List Char → List Char → Prop where
  | nil : Writes [] []
  | cons {c : Char} {cs chars content : List Char} (first : WritesChar c cs)
      (others : Writes chars content) : Writes (c :: chars) (cs ++ content)

/-- Characters that stand for themselves. -/
lemma Writes.plain {chars : List Char}
    (h : chars.all (fun c => c != '"' && c != '\\' && Nat.ble 0x20 c.toNat) = true) :
    Writes chars chars := by
  induction chars with
  | nil => exact .nil
  | cons c chars ih =>
      simp only [List.all_cons, Bool.and_eq_true, bne_iff_ne, Nat.ble_eq] at h
      obtain ⟨⟨⟨hquote, hbackslash⟩, hcontrol⟩, hchars⟩ := h
      exact .cons (.plain hquote hbackslash hcontrol) (ih (by simpa using hchars))

/-! ### Code units -/

section Units

variable {p : Place} {unit : ℕ}

lemma readHex_append {a b c d : Char} (h : hexUnit? [a, b, c, d] = some unit) (p : Place)
    (tail : List Char) : readHex p (a :: b :: c :: d :: tail) = .ok unit := by
  have hsize : ¬ ([a, b, c, d].map Char.utf8Size).foldr Nat.add 0 < 4 := by
    have ha := a.utf8Size_pos
    have hb := b.utf8Size_pos
    have hc := c.utf8Size_pos
    have hd := d.utf8Size_pos
    show ¬ a.utf8Size + (b.utf8Size + (c.utf8Size + (d.utf8Size + 0))) < 4
    omega
  rw [readHex, List.take_succ_cons, List.take_succ_cons, List.take_succ_cons, List.take_succ_cons,
    List.take_zero, if_neg hsize, h]

lemma length_mapM_option {α β : Type} {f : α → Option β} {list : List α} {results : List β}
    (h : list.mapM f = some results) : results.length = list.length := by
  induction list generalizing results with
  | nil =>
      rw [List.mapM_nil] at h
      cases h
      rfl
  | cons a list ih =>
      rw [List.mapM_cons] at h
      obtain ⟨b, -, h⟩ := Option.bind_eq_some_iff.mp h
      obtain ⟨others, hothers, h⟩ := Option.bind_eq_some_iff.mp h
      cases h
      rw [List.length_cons, List.length_cons, ih hothers]

lemma length_of_hexUnit? {digits : List Char} (h : hexUnit? digits = some unit) :
    digits.length = 4 := by
  unfold hexUnit? at h
  split at h
  · rename_i hvalues
    exact (length_mapM_option hvalues).symm
  · cases h

/-- Where a code unit is read there are four digits. -/
lemma exists_digits_of_readHex {text : List Char} (h : readHex p text = .ok unit) :
    ∃ a b c d tail, text = a :: b :: c :: d :: tail ∧ hexUnit? [a, b, c, d] = some unit := by
  have hdigits : hexUnit? (text.take 4) = some unit := by
    unfold readHex at h
    split at h
    · cases h
    · split at h
      · rename_i unit' hunit
        cases h
        exact hunit
      · cases h
  have hlength := length_of_hexUnit? hdigits
  match text with
  | a :: b :: c :: d :: tail => exact ⟨a, b, c, d, tail, rfl, hdigits⟩
  | [] | [_] | [_, _] | [_, _, _] => cases hlength

lemma isTrailing_of_isLeading (h : isLeading unit = true) : isTrailing unit = false := by
  simp only [isLeading, isTrailing, Bool.and_eq_true, decide_eq_true_eq, Bool.and_eq_false_imp,
    decide_eq_false_iff_not] at h ⊢
  omega

lemma readTrailing_ok_iff {leading : ℕ} {text : List Char} {s : Scanned Char} :
    readTrailing p leading text = .ok s ↔
      ∃ a b c d unit tail, text = '\\' :: 'u' :: a :: b :: c :: d :: tail ∧
        hexUnit? [a, b, c, d] = some unit ∧ isTrailing unit = true ∧
        s = ⟨pairedChar leading unit, 6⟩ := by
  constructor
  · intro h
    unfold readTrailing at h
    split at h
    · cases h
    · split at h
      · cases h
      · obtain ⟨unit, hunit, hread⟩ := except_bind_ok.mp h
        obtain ⟨a, b, c, d, tail, rfl, hdigits⟩ := exists_digits_of_readHex hunit
        split at hread
        · rename_i htrailing
          have hs := Except.ok.inj hread
          refine ⟨a, b, c, d, unit, tail, rfl, hdigits, htrailing, ?_⟩
          unfold pairedChar
          exact hs.symm
        · cases hread
      · cases h
    · cases h
  · rintro ⟨a, b, c, d, unit, tail, rfl, hdigits, htrailing, rfl⟩
    refine except_bind_ok.mpr ⟨unit, readHex_append hdigits _ tail, ?_⟩
    rw [if_pos htrailing]
    unfold pairedChar
    generalize Char.ofNat _ = c
    rfl

/-- What is read behind the letter of an escape by code units: one unit, or a pair. -/
lemma readUnicode_ok_iff {text : List Char} {s : Scanned Char} :
    readUnicode p text = .ok s ↔
      ∃ a b c d unit tail, text = a :: b :: c :: d :: tail ∧
        hexUnit? [a, b, c, d] = some unit ∧
        (isLeading unit = false ∧ isTrailing unit = false ∧ s = ⟨Char.ofNat unit, 4⟩ ∨
          isLeading unit = true ∧ ∃ t, readTrailing (p.forward 4) unit tail = .ok t ∧
            s = ⟨t.value, t.width + 4⟩) := by
  constructor
  · intro h
    obtain ⟨unit, hunit, hread⟩ := except_bind_ok.mp h
    obtain ⟨a, b, c, d, tail, rfl, hdigits⟩ := exists_digits_of_readHex hunit
    refine ⟨a, b, c, d, unit, tail, rfl, hdigits, ?_⟩
    split at hread
    · cases hread
    · rename_i htrailing
      split at hread
      · rename_i hleading
        obtain ⟨t, ht, heq⟩ := except_bind_ok.mp hread
        cases heq
        exact .inr ⟨hleading, t, ht, rfl⟩
      · rename_i hleading
        cases hread
        exact .inl ⟨Bool.eq_false_iff.mpr hleading, Bool.eq_false_iff.mpr htrailing, rfl⟩
  · rintro ⟨a, b, c, d, unit, tail, rfl, hdigits, h⟩
    refine except_bind_ok.mpr ⟨unit, readHex_append hdigits p tail, ?_⟩
    rcases h with ⟨hleading, htrailing, rfl⟩ | ⟨hleading, t, ht, rfl⟩
    · simp only [htrailing, hleading, Bool.false_eq_true, if_false]
      rfl
    · simp only [isTrailing_of_isLeading hleading, hleading, Bool.false_eq_true, if_false, if_true]
      exact except_bind_ok.mpr ⟨t, ht, rfl⟩

end Units

/-! ### Escapes -/

lemma Escapes.readEscape {c : Char} {cs : List Char} (h : Escapes c cs) (p : Place)
    (tail : List Char) : JsonTypes.readEscape p (cs ++ tail) = .ok ⟨c, cs.length⟩ := by
  cases h with
  | @letter letter _ hvalue =>
      unfold JsonTypes.readEscape
      split
      · rename_i hempty
        cases hempty
      · rename_i hu
        cases hu
        cases hvalue
      · rename_i heq
        cases heq
        rw [hvalue]
        rfl
  | unit hdigits hleading htrailing =>
      exact except_map_ok.mpr ⟨_, readUnicode_ok_iff.mpr
        ⟨_, _, _, _, _, tail, rfl, hdigits, .inl ⟨hleading, htrailing, rfl⟩⟩, rfl⟩
  | @pair a b c d a' b' c' d' unit unit' hdigits hleading hdigits' htrailing =>
      have htrail : readTrailing ((p.forward 1).forward 4) unit
          ('\\' :: 'u' :: a' :: b' :: c' :: d' :: tail) = .ok ⟨pairedChar unit unit', 6⟩ :=
        readTrailing_ok_iff.mpr ⟨a', b', c', d', unit', tail, rfl, hdigits', htrailing, rfl⟩
      have hread : readUnicode (p.forward 1)
          (a :: b :: c :: d :: '\\' :: 'u' :: a' :: b' :: c' :: d' :: tail) =
            .ok ⟨pairedChar unit unit', 10⟩ :=
        readUnicode_ok_iff.mpr
          ⟨a, b, c, d, unit, _, rfl, hdigits, .inr ⟨hleading, _, htrail, rfl⟩⟩
      refine except_map_ok.mpr ⟨_, hread, ?_⟩
      rfl

lemma exists_escapes_of_readEscape {p : Place} {text : List Char} {s : Scanned Char}
    (h : readEscape p text = .ok s) :
    ∃ cs tail, text = cs ++ tail ∧ Escapes s.value cs ∧ s.width = cs.length := by
  unfold readEscape at h
  split at h
  · cases h
  · obtain ⟨t, ht, rfl⟩ := except_map_ok.mp h
    obtain ⟨a, b, c, d, unit, tail, rfl, hdigits, hunit | hpair⟩ := readUnicode_ok_iff.mp ht
    · obtain ⟨hleading, htrailing, rfl⟩ := hunit
      exact ⟨['u', a, b, c, d], tail, rfl, .unit hdigits hleading htrailing, rfl⟩
    · obtain ⟨hleading, t, htrail, rfl⟩ := hpair
      obtain ⟨a', b', c', d', unit', tail, rfl, hdigits', htrailing, rfl⟩ :=
        readTrailing_ok_iff.mp htrail
      have hescape := Escapes.pair hdigits hleading hdigits' htrailing
      exact ⟨_, tail, rfl, hescape, rfl⟩
  · rename_i letter tail _
    split at h
    · rename_i value hvalue
      cases h
      exact ⟨[letter], tail, rfl, .letter hvalue, rfl⟩
    · cases h

/-- **An escape is read wherever one stands, and only there.** -/
lemma readEscape_ok_iff {p : Place} {text : List Char} {s : Scanned Char} :
    readEscape p text = .ok s ↔
      ∃ cs tail, text = cs ++ tail ∧ Escapes s.value cs ∧ s.width = cs.length := by
  constructor
  · exact exists_escapes_of_readEscape
  · rintro ⟨cs, tail, rfl, hescape, hwidth⟩
    rw [hescape.readEscape, ← hwidth]

/-! ### Strings -/

section Strings

variable {p : Place} {reversed chars content tail : List Char} {width : ℕ}

/-- The characters of an escape that has been read are passed. -/
lemma readCharacters_skip (p : Place) (reversed : List Char) (width : ℕ) (skipped : List Char) :
    ∀ tail : List Char, readCharacters p reversed width skipped.length (skipped ++ tail) =
      readCharacters (p.advanceAll skipped) reversed (width + skipped.length) 0 tail := by
  induction skipped generalizing p width with
  | nil => exact fun tail => rfl
  | cons c skipped ih =>
      intro tail
      rw [List.cons_append, List.length_cons, readCharacters, ih, Place.advanceAll,
        Place.advanceAll, List.foldl_cons, Nat.add_right_comm, Nat.add_assoc]

/-- Of what is written for a character, the character is read. -/
lemma WritesChar.readCharacters {c : Char} {cs : List Char} (h : WritesChar c cs) (p : Place)
    (reversed : List Char) (width : ℕ) (tail : List Char) :
    ∃ q, JsonTypes.readCharacters p reversed width 0 (cs ++ tail) =
      JsonTypes.readCharacters q (c :: reversed) (width + cs.length) 0 tail := by
  cases h with
  | plain hquote hbackslash hcontrol =>
      refine ⟨p.advance c, ?_⟩
      rw [List.singleton_append, JsonTypes.readCharacters, if_neg hquote, if_neg hbackslash,
        if_neg (Nat.not_lt.mpr hcontrol)]
      rfl
  | @escaped cs hescape =>
      have hread : readEscape (p.advance '\\') (cs ++ tail) = .ok ⟨c, cs.length⟩ :=
        readEscape_ok_iff.mpr ⟨cs, tail, rfl, hescape, rfl⟩
      refine ⟨(p.advance '\\').advanceAll cs, ?_⟩
      rw [List.cons_append, JsonTypes.readCharacters, if_neg (by decide), if_pos rfl, hread]
      simp only [readCharacters_skip, List.length_cons, Nat.add_assoc, Nat.add_comm 1]

/-- **A string is read as the characters that are written for it.** -/
lemma Writes.readCharacters (h : Writes chars content) (p : Place) (reversed : List Char)
    (width : ℕ) (tail : List Char) :
    JsonTypes.readCharacters p reversed width 0 (content ++ '"' :: tail) =
      .ok ⟨String.ofList (reversed.reverse ++ chars), width + content.length + 1⟩ := by
  induction h generalizing p reversed width with
  | nil =>
      rw [List.nil_append, JsonTypes.readCharacters, if_pos rfl, List.append_nil]
      rfl
  | cons hfirst _ ih =>
      obtain ⟨q, hq⟩ := hfirst.readCharacters p reversed width (_ ++ '"' :: tail)
      rw [List.append_assoc, hq, ih]
      simp [Nat.add_assoc]

/-- Where a string is read, one is written, up to its closing quote. The induction is on the text;
what is passed of an escape is the escape. -/
lemma exists_writes_of_readCharacters {skip : ℕ} {text : List Char} {s : Scanned String}
    (h : readCharacters p reversed width skip text = .ok s) :
    ∃ skipped content tail chars, text = skipped ++ (content ++ '"' :: tail) ∧
      skipped.length = skip ∧ Writes chars content ∧
      s = ⟨String.ofList (reversed.reverse ++ chars), width + skip + content.length + 1⟩ := by
  induction text generalizing p reversed width skip with
  | nil => cases skip <;> cases h
  | cons c rest ih =>
      cases skip with
      | succ skip =>
          obtain ⟨skipped, content, tail, chars, rfl, rfl, hwrites, rfl⟩ := ih h
          refine ⟨c :: skipped, content, tail, chars, rfl, rfl, hwrites, ?_⟩
          rw [Nat.add_assoc width 1, Nat.add_comm 1]
      | zero =>
          rw [readCharacters] at h
          split_ifs at h with hquote hbackslash hcontrol
          · subst hquote
            cases h
            exact ⟨[], [], rest, [], rfl, rfl, .nil, by simp⟩
          · subst hbackslash
            split at h
            · cases h
            · rename_i t ht
              obtain ⟨skipped, content, tail, chars, rfl, hskip, hwrites, rfl⟩ := ih h
              obtain ⟨cs, tail', htext, hescape, hwidth⟩ := readEscape_ok_iff.mp ht
              obtain ⟨rfl, -⟩ := List.append_inj htext (hskip.trans hwidth)
              refine ⟨[], '\\' :: skipped ++ content, tail, t.value :: chars, by simp, rfl,
                .cons (.escaped hescape) hwrites, ?_⟩
              simp [hwidth]
              omega
          · obtain ⟨skipped, content, tail, chars, rfl, hskip, hwrites, rfl⟩ := ih h
            obtain rfl := List.length_eq_zero_iff.mp hskip
            refine ⟨[], [c] ++ content, tail, c :: chars, rfl, rfl,
              .cons (.plain hquote hbackslash (Nat.not_lt.mp hcontrol)) hwrites, ?_⟩
            simp
            omega

/-- The same for a string behind its opening quote. -/
lemma readQuoted_ok_iff {text : List Char} {s : Scanned String} :
    readQuoted p text = .ok s ↔ ∃ content tail chars, text = content ++ '"' :: tail ∧
      Writes chars content ∧ s = ⟨String.ofList chars, content.length + 1⟩ := by
  constructor
  · intro h
    obtain ⟨skipped, content, tail, chars, rfl, hskip, hwrites, rfl⟩ :=
      exists_writes_of_readCharacters h
    obtain rfl := List.length_eq_zero_iff.mp hskip
    exact ⟨content, tail, chars, rfl, hwrites, by simp⟩
  · rintro ⟨content, tail, chars, rfl, hwrites, rfl⟩
    rw [readQuoted, hwrites.readCharacters]
    simp

end Strings

end JsonTypes
