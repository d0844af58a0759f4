/-
How numbers are written in JSON texts.

A numeral has digits, perhaps a sign in front, a fraction and an exponent. It is read as far as
it goes: a character that could belong to it does, so that where it ends is seen from the text.
Of the integers that are not negative, exactly those are read that are written as digits alone and
are below `2 ^ 64`.

* `Numeral`, `Numeral.WellFormed`: numerals; `Numeral.EndsBefore`: what may follow one.
* `Numeral.IsNatural`: the number of a numeral that is nothing but digits.
* `Significand.ofWhole_eq`: the digits of a whole number, and whether they all count.
* `exists_numeral_of_readNumber`: where a number is read there stands a numeral.
* `Numeral.append_inj`: where a numeral ends.
* `Numeral.readNumber_natural_iff`: the integers that are read.
-/
import JsonTypes.Json.Literal
import JsonTypes.Proofs.Traces
import Mathlib.Algebra.Group.Nat.Defs
import Mathlib.Data.Int.Notation
import Mathlib.Tactic.SplitIfs

namespace JsonTypes

/-! ### Digits -/

/-- Some digits. -/
def Digits (cs : List Char) : Prop :=
  cs ≠ [] ∧ ∀ c ∈ cs, c.isDigit = true

/-- No digit comes next. -/
def NoDigit (tail : List Char) : Prop :=
  ∀ c ∈ tail.head?, c.isDigit = false

/-- The digits in front of a text. -/
lemma exists_digits (cs : List Char) :
    ∃ digits tail, cs = digits ++ tail ∧ (∀ c ∈ digits, c.isDigit = true) ∧ NoDigit tail := by
  induction cs with
  | nil => exact ⟨[], [], rfl, List.forall_mem_nil _, nofun⟩
  | cons c cs ih =>
      by_cases hc : c.isDigit = true
      · obtain ⟨digits, tail, rfl, hdigits, htail⟩ := ih
        exact ⟨c :: digits, tail, rfl, List.forall_mem_cons.mpr ⟨hc, hdigits⟩, htail⟩
      · refine ⟨[], c :: cs, rfl, List.forall_mem_nil _, ?_⟩
        rintro _ ⟨⟩
        exact Bool.eq_false_iff.mpr hc

lemma takeWhile_isDigit_append {digits tail : List Char}
    (hdigits : ∀ c ∈ digits, c.isDigit = true) (htail : NoDigit tail) :
    (digits ++ tail).takeWhile Char.isDigit = digits := by
  rw [List.takeWhile_append_of_pos hdigits]
  cases tail with
  | nil => simp
  | cons c tail =>
      have hc : c.isDigit = false := htail c rfl
      simp [hc]

lemma leadingDigits_append {digits tail : List Char} (hdigits : ∀ c ∈ digits, c.isDigit = true)
    (htail : NoDigit tail) : leadingDigits (digits ++ tail) = digits.map digitValue := by
  rw [leadingDigits, takeWhile_isDigit_append hdigits htail]

/-- Where the digits end is seen from the text. -/
lemma digits_append_inj {digits digits' tail tail' : List Char}
    (hdigits : ∀ c ∈ digits, c.isDigit = true) (hdigits' : ∀ c ∈ digits', c.isDigit = true)
    (htail : NoDigit tail) (htail' : NoDigit tail') (h : digits ++ tail = digits' ++ tail') :
    digits = digits' ∧ tail = tail' := by
  have heq : digits = digits' := by
    rw [← takeWhile_isDigit_append hdigits htail, h, takeWhile_isDigit_append hdigits' htail']
  exact ⟨heq, List.append_cancel_left (heq ▸ h)⟩

/-! ### Numerals -/

/-- A number as it is written. There is a point only if digits follow it, and the exponent comes
with its letter and sign. -/
structure Numeral where
  negative : Bool
  whole : List Char
  fraction : List Char
  exponent : List Char

/-- The sign of an exponent, or none. -/
def IsSign (sign : List Char) : Prop :=
  sign = [] ∨ sign = ['+'] ∨ sign = ['-']

/-- An exponent with its letter, and perhaps a sign. -/
inductive IsExponent : List Char → Prop where
  | mk {letter : Char} {sign digits : List Char} (hletter : letter = 'e' ∨ letter = 'E')
      (hsign : IsSign sign) (hdigits : Digits digits) :
      IsExponent (letter :: (sign ++ digits))

lemma IsExponent.ne_nil {exponent : List Char} (h : IsExponent exponent) : exponent ≠ [] := by
  cases h
  exact List.cons_ne_nil _ _

/-- A fraction with its point. -/
def pointed (fraction : List Char) : List Char :=
  if fraction = [] then [] else '.' :: fraction

namespace Numeral

/-- The characters of a numeral behind its sign. -/
def afterSign (n : Numeral) : List Char :=
  n.whole ++ (pointed n.fraction ++ n.exponent)

/-- The characters of a numeral. -/
def chars (n : Numeral) : List Char :=
  if n.negative then '-' :: n.afterSign else n.afterSign

/-- The parts of a numeral are what they have to be. A zero in front is the only whole digit. -/
structure WellFormed (n : Numeral) : Prop where
  whole : Digits n.whole
  zero : ∀ rest, n.whole = '0' :: rest → rest = []
  fraction : ∀ c ∈ n.fraction, c.isDigit = true
  exponent : n.exponent = [] ∨ IsExponent n.exponent

/-- Nothing comes next that would belong to the numeral. -/
structure EndsBefore (n : Numeral) (tail : List Char) : Prop where
  digit : NoDigit tail
  letter : n.exponent = [] → ∀ c ∈ tail.head?, c ≠ 'e' ∧ c ≠ 'E'
  point : n.exponent = [] → n.fraction = [] → tail.head? ≠ some '.'

/-- The numeral is digits alone, and they stand for a number below `2 ^ 64`. -/
structure IsNatural (n : Numeral) (k : ℕ) : Prop where
  sign : n.negative = false
  fraction : n.fraction = []
  exponent : n.exponent = []
  value : decimalValue n.whole = k
  lt : k < 2 ^ 64

end Numeral

/-! ### Whole numbers -/

namespace Significand

/-- The number that some more digits make. -/
def appended (digits : ℕ) (more : List ℕ) : ℕ :=
  more.foldl (fun n digit => n * 10 + digit) digits

lemma le_appended (digits : ℕ) (more : List ℕ) : digits ≤ appended digits more := by
  induction more generalizing digits with
  | nil => exact Nat.le_refl _
  | cons digit more ih =>
      have hle : digits ≤ digits * 10 + digit := by omega
      exact Nat.le_trans hle (ih _)

/-- If a whole number is below `2 ^ 64`, all of its digits count. -/
lemma ofWhole_eq {digits : ℕ} {more : List ℕ} (h : appended digits more < 2 ^ 64) :
    ofWhole digits more = ⟨appended digits more, 0⟩ := by
  induction more generalizing digits with
  | nil => rfl
  | cons digit more ih =>
      have hle := le_appended (digits * 10 + digit) more
      have hfits : fits digits digit = true := decide_eq_true (Nat.lt_of_le_of_lt hle h)
      rw [ofWhole, if_pos hfits]
      exact ih h

/-- Otherwise some of them are left over. -/
lemma ofWhole_scale_pos {digits : ℕ} {more : List ℕ} (hdigits : digits < 2 ^ 64)
    (h : 2 ^ 64 ≤ appended digits more) : 0 < (ofWhole digits more).scale := by
  induction more generalizing digits with
  | nil => exact absurd hdigits (Nat.not_lt.mpr h)
  | cons digit more ih =>
      rw [ofWhole]
      split_ifs with hfits
      · exact ih (of_decide_eq_true hfits) h
      · exact Int.natCast_pos.mpr (Nat.succ_pos _)

lemma appended_map (cs : List Char) : appended 0 (cs.map digitValue) = decimalValue cs :=
  List.foldl_map

end Significand

lemma finishDouble_ne_integer {p : Place} {negative : Bool} {x : Significand} {k : ℤ} :
    finishDouble p negative x ≠ .ok (.integer k) := by
  rw [finishDouble]
  split <;> nofun

/-- Of the integers that are not negative, those below `2 ^ 64` are kept, if they have no
sign. -/
lemma wholeNumber_eq_natural {p : Place} {negative : Bool} {digits : List Char} {k : ℕ} :
    wholeNumber p negative (.ofWhole 0 (digits.map digitValue)) = .ok (.integer k) ↔
      negative = false ∧ decimalValue digits = k ∧ k < 2 ^ 64 := by
  rw [← Significand.appended_map]
  by_cases hlt : Significand.appended 0 (digits.map digitValue) < 2 ^ 64
  · rw [Significand.ofWhole_eq hlt, wholeNumber, if_neg (not_not_intro rfl)]
    cases negative with
    | false =>
        rw [if_neg Bool.false_ne_true]
        constructor
        · intro h
          cases h
          exact ⟨rfl, rfl, hlt⟩
        · rintro ⟨-, rfl, -⟩
          rfl
    | true =>
        rw [if_pos rfl]
        refine iff_of_false ?_ nofun
        split_ifs with hrange
        · intro h
          have hk := Number.integer.inj (Except.ok.inj h)
          omega
        · nofun
  · have hscale := Significand.ofWhole_scale_pos (Nat.two_pow_pos 64) (Nat.not_lt.mp hlt)
    rw [wholeNumber, if_pos (Int.ne_of_gt hscale)]
    refine iff_of_false finishDouble_ne_integer ?_
    rintro ⟨-, rfl, h⟩
    exact hlt h

/-! ### Reading -/

section Reading

variable {p : Place} {negative : Bool} {x : Significand} {tail : List Char}

/-- What is read behind the sign of an exponent. -/
def readMagnitude (p : Place) (negative : Bool) (x : Significand) (down : Bool) (signs : ℕ)
    (text : List Char) : Except ReadError (Scanned Number) :=
  match text, leadingDigits text with
  | [], _ => .error ⟨.endInValue, p⟩
  | _ :: _, [] => .error ⟨.invalidNumber, p.afterBytes 1 text⟩
  | _, first :: rest =>
    let width := signs + (leadingDigits text).length
    match readExponentDigits first 1 rest with
    | .ok exponent =>
      let shift : ℤ := if down then -exponent else exponent
      (finishDouble (p.forward (leadingDigits text).length) negative
        ⟨x.digits, x.scale + shift⟩).map (⟨·, width⟩)
    | .error count =>
      if x.digits ≠ 0 && !down then .error ⟨.numberOutOfRange, p.forward count⟩
      else .ok ⟨.double (signed negative 0), width⟩

lemma exists_sign (p : Place) (negative : Bool) (x : Significand) (text : List Char) :
    ∃ sign rest down, text = sign ++ rest ∧ IsSign sign ∧
      readExponent p negative x text =
        readMagnitude (p.forward sign.length) negative x down sign.length rest := by
  unfold readExponent
  split
  · exact ⟨['+'], _, _, rfl, .inr (.inl rfl), rfl⟩
  · exact ⟨['-'], _, _, rfl, .inr (.inr rfl), rfl⟩
  · exact ⟨[], _, _, rfl, .inl rfl, rfl⟩

/-- An exponent has digits behind its sign, is read as far as they go, and makes a double. -/
lemma readMagnitude_ok {down : Bool} {signs : ℕ} {text : List Char} {s : Scanned Number}
    (h : readMagnitude p negative x down signs text = .ok s) :
    ∃ digits tail, text = digits ++ tail ∧ Digits digits ∧ NoDigit tail ∧
      s.width = signs + digits.length ∧ ∀ k, s.value ≠ .integer k := by
  obtain ⟨digits, tail, rfl, hall, htail⟩ := exists_digits text
  simp only [readMagnitude, leadingDigits_append hall htail, List.length_map] at h
  split at h
  · cases h
  · cases h
  · rename_i hdigits _
    have hne : digits ≠ [] := by
      rintro rfl
      cases hdigits
    refine ⟨digits, tail, rfl, ⟨hne, hall⟩, htail, ?_⟩
    split at h
    · obtain ⟨value, hvalue, rfl⟩ := except_map_ok.mp h
      refine ⟨rfl, fun k hk => ?_⟩
      exact finishDouble_ne_integer (hvalue.trans (congrArg Except.ok hk))
    · split at h
      · cases h
      · cases h
        exact ⟨rfl, nofun⟩

/-- Behind the digits stands an exponent, or none. -/
lemma readAfterDigits_ok {text : List Char} {finish : Except ReadError Number}
    {s : Scanned Number} (h : readAfterDigits p negative x text finish = .ok s) :
    ∃ exponent tail, text = exponent ++ tail ∧ s.width = exponent.length ∧
      (exponent = [] ∧ (∀ c ∈ tail.head?, c ≠ 'e' ∧ c ≠ 'E') ∧ finish = .ok s.value ∨
        IsExponent exponent ∧ NoDigit tail ∧ ∀ k, s.value ≠ .integer k) := by
  have hletter : ∀ {letter : Char} {rest : List Char} {q : Place},
      letter = 'e' ∨ letter = 'E' →
      (readExponent q negative x rest).map (fun s => Scanned.mk s.value (s.width + 1)) = .ok s →
      ∃ exponent tail, letter :: rest = exponent ++ tail ∧ s.width = exponent.length ∧
        IsExponent exponent ∧ NoDigit tail ∧ ∀ k, s.value ≠ .integer k := by
    intro letter rest q hletter hread
    obtain ⟨t, ht, rfl⟩ := except_map_ok.mp hread
    obtain ⟨sign, rest, down, rfl, hsign, heq⟩ := exists_sign q negative x rest
    obtain ⟨digits, tail, rfl, hdigits, htail, hwidth, hvalue⟩ := readMagnitude_ok (heq ▸ ht)
    refine ⟨letter :: (sign ++ digits), tail, ?_, ?_, .mk hletter hsign hdigits, htail, hvalue⟩
    · simp
    · simp [hwidth]
  unfold readAfterDigits at h
  split at h
  · obtain ⟨exponent, tail, htext, hwidth, hrest⟩ := hletter (.inl rfl) h
    exact ⟨exponent, tail, htext, hwidth, .inr hrest⟩
  · obtain ⟨exponent, tail, htext, hwidth, hrest⟩ := hletter (.inr rfl) h
    exact ⟨exponent, tail, htext, hwidth, .inr hrest⟩
  · rename_i he hE
    obtain ⟨value, hfinish, rfl⟩ := except_map_ok.mp h
    refine ⟨[], text, rfl, rfl, .inl ⟨rfl, ?_, hfinish⟩⟩
    rintro c hc
    obtain ⟨rest, rfl⟩ := List.head?_eq_some_iff.mp hc
    exact ⟨by rintro rfl; exact he _ rfl, by rintro rfl; exact hE _ rfl⟩

/-- Behind the whole digits stand a fraction and an exponent, or only one of them, or neither. An
integer is what the whole digits make. -/
lemma readAfterWhole_ok {whole text : List Char} {s : Scanned Number} (hwhole : Digits whole)
    (hzero : ∀ rest, whole = '0' :: rest → rest = []) (hstart : NoDigit text)
    (h : readAfterWhole p negative x text = .ok s) :
    ∃ n : Numeral, ∃ tail, n.negative = negative ∧ n.whole = whole ∧
      text = pointed n.fraction ++ (n.exponent ++ tail) ∧ n.WellFormed ∧ n.EndsBefore tail ∧
      s.width = (pointed n.fraction ++ n.exponent).length ∧
      ∀ k, s.value = .integer k →
        n.fraction = [] ∧ n.exponent = [] ∧ wholeNumber p negative x = .ok (.integer k) := by
  unfold readAfterWhole at h
  split at h
  · rename_i rest
    obtain ⟨digits, tail, rfl, hall, htail⟩ := exists_digits rest
    simp only [leadingDigits_append hall htail, List.length_map, List.drop_left] at h
    split at h
    · cases h
    · cases h
    · rename_i hdigits _
      have hne : digits ≠ [] := by
        rintro rfl
        cases hdigits
      have hpointed : pointed digits = '.' :: digits := if_neg hne
      obtain ⟨t, ht, rfl⟩ := except_map_ok.mp h
      obtain ⟨exponent, tail, rfl, hwidth, hrest⟩ := readAfterDigits_ok ht
      have hlength : t.width + digits.length + 1 = (pointed digits ++ exponent).length := by
        simp [hwidth, hpointed]
        omega
      refine ⟨⟨negative, whole, digits, exponent⟩, tail, rfl, rfl, by rw [hpointed]; rfl, ?_⟩
      rcases hrest with ⟨rfl, hletter, hfinish⟩ | ⟨hexponent, hdigit, hvalue⟩
      · refine ⟨⟨hwhole, hzero, hall, .inl rfl⟩,
          ⟨htail, fun _ => hletter, fun _ h => absurd h hne⟩, hlength, fun k hk => ?_⟩
        exact absurd hfinish (hk ▸ finishDouble_ne_integer)
      · exact ⟨⟨hwhole, hzero, hall, .inr hexponent⟩,
          ⟨hdigit, fun h => absurd h hexponent.ne_nil, fun _ h => absurd h hne⟩, hlength,
          fun k hk => absurd hk (hvalue k)⟩
  · rename_i hpoint
    obtain ⟨exponent, tail, rfl, hwidth, hrest⟩ := readAfterDigits_ok h
    refine ⟨⟨negative, whole, [], exponent⟩, tail, rfl, rfl, rfl, ?_⟩
    rcases hrest with ⟨rfl, hletter, hfinish⟩ | ⟨hexponent, hdigit, hvalue⟩
    · refine ⟨⟨hwhole, hzero, List.forall_mem_nil _, .inl rfl⟩,
        ⟨hstart, fun _ => hletter, fun _ _ htail => ?_⟩, hwidth, fun k hk => ?_⟩
      · obtain ⟨rest, rfl⟩ := List.head?_eq_some_iff.mp htail
        exact hpoint _ rfl
      · exact ⟨rfl, rfl, hk ▸ hfinish⟩
    · exact ⟨⟨hwhole, hzero, List.forall_mem_nil _, .inr hexponent⟩,
        ⟨hdigit, fun h => absurd h hexponent.ne_nil, fun h => absurd h hexponent.ne_nil⟩,
        hwidth, fun k hk => absurd hk (hvalue k)⟩

/-- The digits in front are read as far as they go; what is behind them is looked at next. -/
lemma readUnsigned_ok {text : List Char} {s : Scanned Number}
    (h : readUnsigned p negative text = .ok s) :
    ∃ n : Numeral, ∃ tail, n.negative = negative ∧ text = n.afterSign ++ tail ∧ n.WellFormed ∧
      n.EndsBefore tail ∧ s.width = n.afterSign.length ∧
      ∀ k : ℕ, s.value = .integer k → n.IsNatural k := by
  obtain ⟨whole, rest, rfl, hall, hrest⟩ := exists_digits text
  unfold readUnsigned at h
  rw [leadingDigits_append hall hrest] at h
  split at h
  · cases h
  · cases h
  · cases h
  · rename_i hempty hleading hnone
    have hne : whole ≠ [] := by
      rintro rfl
      cases rest with
      | nil => exact hempty rfl
      | cons c rest => exact hnone c rest rfl rfl
    have hzero : ∀ others, whole = '0' :: others → others = [] := by
      rintro others rfl
      cases others with
      | nil => rfl
      | cons c others => exact (hleading _ _ rfl).elim
    obtain ⟨t, ht, rfl⟩ := except_map_ok.mp h
    rw [List.length_map, List.drop_left] at ht
    obtain ⟨n, tail, rfl, rfl, rfl, hn, hends, hwidth, hvalue⟩ :=
      readAfterWhole_ok ⟨hne, hall⟩ hzero hrest ht
    refine ⟨n, tail, rfl, ?_, hn, hends, ?_, ?_⟩
    · simp [Numeral.afterSign]
    · simp [Numeral.afterSign, hwidth]
      omega
    · intro k hk
      obtain ⟨hfraction, hexponent, hnumber⟩ := hvalue _ hk
      obtain ⟨hsign, hk, hlt⟩ := wholeNumber_eq_natural.mp hnumber
      exact ⟨hsign, hfraction, hexponent, hk, hlt⟩

/-- **Where a number is read, a numeral stands.** It is read as far as it goes, and kept as an
integer that is not negative only if it is digits alone. -/
lemma exists_numeral_of_readNumber {text : List Char} {s : Scanned Number}
    (h : readNumber p text = .ok s) :
    ∃ n : Numeral, ∃ tail, text = n.chars ++ tail ∧ n.WellFormed ∧ n.EndsBefore tail ∧
      s.width = n.chars.length ∧ ∀ k : ℕ, s.value = .integer k → n.IsNatural k := by
  unfold readNumber at h
  split at h
  · obtain ⟨t, ht, rfl⟩ := except_map_ok.mp h
    obtain ⟨n, tail, hnegative, rfl, hn, hends, hwidth, hvalue⟩ := readUnsigned_ok ht
    have hchars : n.chars = '-' :: n.afterSign := if_pos hnegative
    exact ⟨n, tail, by rw [hchars]; rfl, hn, hends, by simp [hwidth, hchars], hvalue⟩
  · obtain ⟨n, tail, hnegative, rfl, hn, hends, hwidth, hvalue⟩ := readUnsigned_ok h
    have hchars : n.chars = n.afterSign := by simp [Numeral.chars, hnegative]
    exact ⟨n, tail, by rw [hchars], hn, hends, by rw [hwidth, hchars], hvalue⟩

end Reading

namespace Numeral

/-! ### Where numerals end -/

variable {n m : Numeral} {tail rest : List Char}

/-- A sign is seen from the text, because a digit follows it. -/
lemma sign_append_inj {sign sign' cs cs' : List Char} {d d' : Char}
    (hsign : IsSign sign) (hsign' : IsSign sign') (hd : d.isDigit = true)
    (hd' : d'.isDigit = true) (h : sign ++ d :: cs = sign' ++ d' :: cs') :
    sign = sign' ∧ d :: cs = d' :: cs' := by
  have hplus : ∀ {c : Char}, c.isDigit = true → c ≠ '+' ∧ c ≠ '-' := by
    intro c hc
    exact ⟨fun heq => by simp [heq] at hc, fun heq => by simp [heq] at hc⟩
  have hne := hplus hd
  have hne' := hplus hd'
  rcases hsign with rfl | rfl | rfl <;> rcases hsign' with rfl | rfl | rfl <;> grind

/-- Whether an exponent follows is seen from the text, and also where it ends. -/
lemma exponent_append_inj {exponent exponent' : List Char}
    (he : exponent = [] ∨ IsExponent exponent) (he' : exponent' = [] ∨ IsExponent exponent')
    (htail : NoDigit tail) (hrest : NoDigit rest)
    (hletter : exponent = [] → ∀ c ∈ tail.head?, c ≠ 'e' ∧ c ≠ 'E')
    (hletter' : exponent' = [] → ∀ c ∈ rest.head?, c ≠ 'e' ∧ c ≠ 'E')
    (h : exponent ++ tail = exponent' ++ rest) : exponent = exponent' ∧ tail = rest := by
  rcases he with rfl | he
  · rcases he' with rfl | ⟨hl, _, _⟩
    · exact ⟨rfl, h⟩
    · subst h
      exact absurd hl (not_or.mpr (hletter rfl _ rfl))
  · obtain ⟨hl, hsign, hdigits⟩ := he
    rcases he' with rfl | ⟨hl', hsign', hdigits'⟩
    · subst h
      exact absurd hl (not_or.mpr (hletter' rfl _ rfl))
    · obtain ⟨d, ds, rfl⟩ := List.exists_cons_of_ne_nil hdigits.1
      obtain ⟨d', ds', rfl⟩ := List.exists_cons_of_ne_nil hdigits'.1
      simp only [List.cons_append, List.append_assoc, List.cons.injEq] at h
      obtain ⟨rfl, h⟩ := h
      obtain ⟨rfl, hbehind⟩ := sign_append_inj hsign hsign' (hdigits.2 _ List.mem_cons_self)
        (hdigits'.2 _ List.mem_cons_self) h
      obtain ⟨heq, hrest⟩ := digits_append_inj hdigits.2 hdigits'.2 htail hrest hbehind
      exact ⟨by rw [heq], hrest⟩

/-- No digit stands in front of an exponent. -/
lemma noDigit_exponent {exponent : List Char} (he : exponent = [] ∨ IsExponent exponent)
    (htail : NoDigit tail) : NoDigit (exponent ++ tail) := by
  rcases he with rfl | ⟨rfl | rfl, _, _⟩
  · exact htail
  · rintro _ ⟨⟩
    rfl
  · rintro _ ⟨⟩
    rfl

/-- No digit stands in front of a fraction with its point. -/
lemma noDigit_pointed (fraction : List Char) (hrest : NoDigit rest) :
    NoDigit (pointed fraction ++ rest) := by
  unfold pointed
  split_ifs
  · exact hrest
  · rintro _ ⟨⟩
    rfl

lemma head_ne_point {exponent : List Char} (he : exponent = [] ∨ IsExponent exponent)
    (htail : exponent = [] → tail.head? ≠ some '.') : (exponent ++ tail).head? ≠ some '.' := by
  rcases he with rfl | ⟨rfl | rfl, _, _⟩
  · exact htail rfl
  · nofun
  · nofun

/-- Where a fraction ends is seen from the text, if it is seen whether there is one. -/
lemma pointed_append_inj {fraction fraction' : List Char}
    (hfraction : ∀ c ∈ fraction, c.isDigit = true) (hfraction' : ∀ c ∈ fraction', c.isDigit = true)
    (htail : NoDigit tail) (hrest : NoDigit rest)
    (hpoint : fraction = [] → tail.head? ≠ some '.')
    (hpoint' : fraction' = [] → rest.head? ≠ some '.')
    (h : pointed fraction ++ tail = pointed fraction' ++ rest) :
    fraction = fraction' ∧ tail = rest := by
  unfold pointed at h
  split_ifs at h with hempty hempty' hempty'
  · exact ⟨hempty.trans hempty'.symm, h⟩
  · exact absurd (congrArg List.head? h) (hpoint hempty)
  · exact absurd (congrArg List.head? h).symm (hpoint' hempty')
  · exact digits_append_inj hfraction hfraction' htail hrest (List.cons.inj h).2

/-- Where a numeral without its sign ends is seen from the text. -/
lemma afterSign_append_inj (hn : n.WellFormed) (hm : m.WellFormed) (hends : n.EndsBefore tail)
    (hends' : m.EndsBefore rest) (h : n.afterSign ++ tail = m.afterSign ++ rest) :
    n.whole = m.whole ∧ n.fraction = m.fraction ∧ n.exponent = m.exponent ∧ tail = rest := by
  have hexponent := noDigit_exponent hn.exponent hends.digit
  have hexponent' := noDigit_exponent hm.exponent hends'.digit
  simp only [afterSign, List.append_assoc] at h
  obtain ⟨hwhole, h⟩ := digits_append_inj hn.whole.2 hm.whole.2 (noDigit_pointed _ hexponent)
    (noDigit_pointed _ hexponent') h
  obtain ⟨hfraction, h⟩ := pointed_append_inj hn.fraction hm.fraction hexponent hexponent'
    (fun hf => head_ne_point hn.exponent fun he => hends.point he hf)
    (fun hf => head_ne_point hm.exponent fun he => hends'.point he hf) h
  obtain ⟨hexponent, h⟩ := exponent_append_inj hn.exponent hm.exponent hends.digit hends'.digit
    hends.letter hends'.letter h
  exact ⟨hwhole, hfraction, hexponent, h⟩

/-- A numeral starts with a digit or its sign. -/
lemma exists_chars_eq_cons (hn : n.WellFormed) :
    ∃ c cs, n.chars = c :: cs ∧ (c = '-' ∨ c.isDigit = true) := by
  obtain ⟨d, ds, hwhole⟩ := List.exists_cons_of_ne_nil hn.whole.1
  have hd : d.isDigit = true := hn.whole.2 d (hwhole ▸ List.mem_cons_self)
  unfold chars
  split_ifs
  · exact ⟨'-', _, rfl, .inl rfl⟩
  · rw [afterSign, hwhole]
    exact ⟨d, _, rfl, .inr hd⟩

lemma afterSign_ne_minus (hn : n.WellFormed) {cs : List Char} :
    n.afterSign ++ tail ≠ '-' :: cs := by
  obtain ⟨d, ds, hwhole⟩ := List.exists_cons_of_ne_nil hn.whole.1
  have hd : d.isDigit = true := hn.whole.2 d (hwhole ▸ List.mem_cons_self)
  intro h
  rw [afterSign, hwhole] at h
  rw [(List.cons.inj h).1] at hd
  cases hd

/-- **Where a numeral ends is seen from the text.** -/
lemma append_inj (hn : n.WellFormed) (hm : m.WellFormed) (hends : n.EndsBefore tail)
    (hends' : m.EndsBefore rest) (h : n.chars ++ tail = m.chars ++ rest) :
    n = m ∧ tail = rest := by
  have hsign : n.negative = m.negative ∧ n.afterSign ++ tail = m.afterSign ++ rest := by
    unfold chars at h
    split_ifs at h with hminus hminus' hminus'
    · exact ⟨hminus.trans hminus'.symm, (List.cons.inj h).2⟩
    · exact absurd h.symm (afterSign_ne_minus hm)
    · exact absurd h (afterSign_ne_minus hn)
    · exact ⟨by simp_all, h⟩
  obtain ⟨hwhole, hfraction, hexponent, hrest⟩ := afterSign_append_inj hn hm hends hends' hsign.2
  cases n
  cases m
  simp_all

/-! ### Integers that are not negative -/

/-- A numeral is read to its end, and kept as an integer that is not negative only if it is digits
alone. -/
lemma readNumber_ok (hn : n.WellFormed) (hends : n.EndsBefore tail) {p : Place}
    {s : Scanned Number} (h : readNumber p (n.chars ++ tail) = .ok s) :
    s.width = n.chars.length ∧ ∀ k : ℕ, s.value = .integer k → n.IsNatural k := by
  obtain ⟨m, rest, htext, hm, hends', hwidth, hvalue⟩ := exists_numeral_of_readNumber h
  obtain ⟨rfl, -⟩ := append_inj hn hm hends hends' htext
  exact ⟨hwidth, hvalue⟩

lemma eq_zero_of_digitValue {c : Char} (hc : c.isDigit = true) (h : digitValue c = 0) :
    c = '0' := by
  have hrange : 48 ≤ c.val := (by simpa [Char.isDigit] using hc : _ ∧ _).1
  have hle : c.val ≤ 48 := by
    unfold digitValue at h
    exact Nat.sub_eq_zero_iff_le.mp h
  exact Char.le_antisymm hle hrange

/-- Behind digits alone nothing is taken. -/
lemma readAfterWhole_eq {p : Place} {negative : Bool} {x : Significand} {value : Number}
    (hletter : ∀ c ∈ tail.head?, c ≠ 'e' ∧ c ≠ 'E') (hpoint : tail.head? ≠ some '.')
    (hvalue : wholeNumber p negative x = .ok value) :
    readAfterWhole p negative x tail = .ok ⟨value, 0⟩ := by
  unfold readAfterWhole readAfterDigits
  split
  · exact absurd rfl hpoint
  · split
    · exact absurd rfl (hletter 'e' rfl).1
    · exact absurd rfl (hletter 'E' rfl).2
    · rw [hvalue]
      rfl

/-- A numeral that is digits alone is read as its number. -/
lemma IsNatural.readNumber {k : ℕ} (h : n.IsNatural k) (hn : n.WellFormed)
    (hends : n.EndsBefore tail) (p : Place) :
    JsonTypes.readNumber p (n.chars ++ tail) = .ok ⟨.integer k, n.chars.length⟩ := by
  have hchars : n.chars = n.whole := by
    simp [chars, afterSign, pointed, h.sign, h.fraction, h.exponent]
  have hleading := leadingDigits_append hn.whole.2 hends.digit
  have hvalue : ∀ q, wholeNumber q false (.ofWhole 0 (n.whole.map digitValue)) =
      .ok (.integer k) := fun q => wholeNumber_eq_natural.mpr ⟨rfl, h.value, h.lt⟩
  rw [hchars]
  obtain ⟨d, ds, hwhole⟩ := List.exists_cons_of_ne_nil hn.whole.1
  have hd : d.isDigit = true := hn.whole.2 d (hwhole ▸ List.mem_cons_self)
  unfold JsonTypes.readNumber
  split
  · rename_i rest hminus
    rw [hwhole] at hminus
    cases hminus
    cases hd
  · unfold readUnsigned
    rw [hleading]
    split
    · rename_i hempty
      simp [hwhole] at hempty
    · rename_i hnone
      simp [hwhole] at hnone
    · rename_i hzero _
      rw [hwhole, List.map_cons, List.cons.injEq] at hzero
      have hds : ds = [] := hn.zero ds (by rw [hwhole, eq_zero_of_digitValue hd hzero.1])
      simp [hds] at hzero
    · rw [List.length_map, List.drop_left, readAfterWhole_eq (hends.letter h.exponent)
        (hends.point h.exponent h.fraction) (hvalue _)]
      simp [Except.map]

/-- **Of the integers that are not negative, those are read that are digits alone and below
`2 ^ 64`.** -/
lemma readNumber_natural_iff {k : ℕ} (hn : n.WellFormed) (hends : n.EndsBefore tail) (p : Place) :
    (readNumber p (n.chars ++ tail)).map Scanned.value = .ok (.integer k) ↔ n.IsNatural k := by
  rw [except_map_ok]
  constructor
  · rintro ⟨s, hread, hvalue⟩
    exact (readNumber_ok hn hends hread).2 k hvalue
  · intro h
    exact ⟨_, h.readNumber hn hends p, rfl⟩

end Numeral

end JsonTypes
