/-
Where a text is malformed.

The scan goes over the whole text first, so a character that belongs to no symbol is
reported before anything else. Otherwise the error is at the first symbol that no sentence
has there, or at the end of the text if only the end comes too early.

* `EndsInName`, `Stray`, `Clean`: characters that belong to no symbol, and texts without
  them. `scanFrom_error`, `scanFrom_clean`: the scan fails at the first of them.
* `Placed.split`: where the text of a token begins.
* `Viable`: symbols that a sentence begins with. `Reading.completes`: from every state of
  the machine there is a way to the end; `Reading.run_error`: where it fails.
* `syntax_error_place`: the place of an error.
-/
import JsonTypes.Proofs.ResolutionOrder

namespace JsonTypes

namespace TypeText

/-! ### Stray characters -/

/-- The text ends in a name. -/
def EndsInName (before : List Char) : Prop :=
  ∃ start name : List Char, before = start ++ name ∧ isIdentifier (String.ofList name) = true

/-- Behind the text, the character belongs to no symbol: it is no white space, starts no name
and is no symbol by itself, nor does it continue a name. -/
structure Stray (before : List Char) (c : Char) : Prop where
  visible : isBlank c = false
  starts : isNameStart c = false
  sign : signOf? c = none
  continues : ¬ (isNamePart c = true ∧ EndsInName before)

/-- No character of the text is stray. -/
def Clean (chars : List Char) : Prop :=
  ∀ before c after, chars = before ++ c :: after → ¬ Stray before c

/-- A text ends in a name after a character that starts one, or continues the one before. -/
lemma endsInName_concat {before : List Char} {c : Char} :
    EndsInName (before ++ [c]) ↔
      isNameStart c = true ∨ isNamePart c = true ∧ EndsInName before := by
  constructor
  · rintro ⟨start, name, hsplit, hname⟩
    -- the character is the last one of the name
    rcases name.eq_nil_or_concat' with rfl | ⟨front, d, rfl⟩
    · cases hname
    · rw [← List.append_assoc] at hsplit
      obtain ⟨rfl, hd⟩ := List.append_inj' hsplit rfl
      obtain rfl := List.singleton_inj.mp hd
      cases front with
      | nil => exact Or.inl (isIdentifier_ofList.mp hname).1
      | cons first front =>
          obtain ⟨hfirst, hparts⟩ := isIdentifier_ofList.mp hname
          refine Or.inr ⟨hparts c (by simp), start, first :: front, rfl, ?_⟩
          exact isIdentifier_ofList.mpr ⟨hfirst, fun d hd => hparts d (by simp [hd])⟩
  · rintro (hstart | ⟨hpart, start, name, rfl, hname⟩)
    · exact ⟨before, [c], rfl, isIdentifier_ofList.mpr ⟨hstart, nofun⟩⟩
    · exact ⟨start, name ++ [c], List.append_assoc .., isIdentifier_append hname hpart⟩

section Scan

variable {passed : List Char} {name next : Option OpenName} {offset : ℕ} {c : Char}
  {tokens : List Token} {e : SyntaxError}

/-- Where no name goes on, a character that is read is not stray. -/
lemma startAt_clean (hends : ¬ (isNamePart c = true ∧ EndsInName passed))
    (h : startAt offset c = .ok (tokens, next)) :
    ¬ Stray passed c ∧ (next.isSome = true ↔ EndsInName (passed ++ [c])) := by
  rw [startAt_eq] at h
  rw [endsInName_concat, or_iff_left hends]
  split_ifs at h with hwhite hstart
  · cases h
    have hstart : isNameStart c = false := by
      by_contra hstart
      rw [isBlank_of_isNameStart (eq_true_of_ne_false hstart)] at hwhite
      cases hwhite
    refine ⟨fun hstray => ?_, by simp [hstart]⟩
    rw [hstray.visible] at hwhite
    cases hwhite
  · cases h
    refine ⟨fun hstray => ?_, by simp [hstart]⟩
    rw [hstray.starts] at hstart
    cases hstart
  · cases hsign : signOf? c with
    | none => simp [hsign] at h
    | some symbol =>
        rw [hsign] at h
        cases h
        refine ⟨fun hstray => ?_, by simp [hstart]⟩
        rw [hstray.sign] at hsign
        cases hsign

/-- The only failure is at a stray character. -/
lemma startAt_error (hends : ¬ (isNamePart c = true ∧ EndsInName passed))
    (h : startAt offset c = .error e) : Stray passed c ∧ e.offset = offset := by
  rw [startAt_eq] at h
  split_ifs at h with hwhite hstart
  cases hsign : signOf? c with
  | some symbol => simp [hsign] at h
  | none =>
      rw [hsign] at h
      cases h
      exact ⟨⟨eq_false_of_ne_true hwhite, eq_false_of_ne_true hstart, hsign, hends⟩, rfl⟩

/-- Where a name is open exactly if the text before ends in one, this is so also after a
character that is read, and the character is not stray. -/
lemma readAt_clean (hname : name.isSome = true ↔ EndsInName passed)
    (h : readAt name offset c = .ok (tokens, next)) :
    ¬ Stray passed c ∧ (next.isSome = true ↔ EndsInName (passed ++ [c])) := by
  cases name with
  | none => exact startAt_clean (fun hboth => nomatch hname.mpr hboth.2) h
  | some name =>
      rw [readAt] at h
      split_ifs at h with hpart
      · cases h
        have hboth : isNamePart c = true ∧ EndsInName passed := ⟨hpart, hname.mp rfl⟩
        exact ⟨fun hstray => hstray.continues hboth, by simp [endsInName_concat, hboth]⟩
      · obtain ⟨⟨started, next'⟩, hstarted, hended⟩ := except_map_ok.mp h
        cases hended
        exact startAt_clean (fun hboth => hpart hboth.1) hstarted

lemma readAt_error (hname : name.isSome = true ↔ EndsInName passed)
    (h : readAt name offset c = .error e) : Stray passed c ∧ e.offset = offset := by
  cases name with
  | none => exact startAt_error (fun hboth => nomatch hname.mpr hboth.2) h
  | some name =>
      rw [readAt] at h
      split_ifs at h with hpart
      cases hstart : startAt offset c with
      | ok read => simp [hstart, Except.map] at h
      | error e' =>
          rw [hstart] at h
          cases h
          exact startAt_error (fun hboth => hpart hboth.1) hstart

lemma Clean.concat (hpassed : Clean passed) (hc : ¬ Stray passed c) : Clean (passed ++ [c]) := by
  intro before d after hsplit
  rcases after.eq_nil_or_concat' with rfl | ⟨after, last, rfl⟩
  · obtain ⟨rfl, hd⟩ := List.append_inj' hsplit rfl
    rwa [← List.singleton_inj.mp hd]
  · rw [← List.cons_append, ← List.append_assoc] at hsplit
    exact hpassed before d after (List.append_inj_left' hsplit rfl)

/-- **A text that is scanned is clean.** -/
lemma scanFrom_clean {chars : List Char} (hname : name.isSome = true ↔ EndsInName passed)
    (hpassed : Clean passed) (h : scanFrom name offset chars = .ok tokens) :
    Clean (passed ++ chars) := by
  induction chars generalizing passed name offset tokens with
  | nil => rwa [List.append_nil]
  | cons c rest ih =>
      rw [scanFrom, except_bind_ok] at h
      obtain ⟨⟨ended, next⟩, hread, h⟩ := h
      obtain ⟨later, hlater, -⟩ := except_bind_ok.mp h
      obtain ⟨hc, hnext⟩ := readAt_clean hname hread
      have hclean := ih hnext (hpassed.concat hc) hlater
      rwa [List.append_assoc] at hclean

/-- **A scan that fails does so at the first stray character.** -/
lemma scanFrom_error {chars : List Char} (hname : name.isSome = true ↔ EndsInName passed)
    (hpassed : Clean passed) (h : scanFrom name offset chars = .error e) :
    ∃ before c after, chars = before ++ c :: after ∧ e.offset = offset + String.utf8Len before ∧
      Stray (passed ++ before) c ∧ Clean (passed ++ before) := by
  induction chars generalizing passed name offset with
  | nil => cases h
  | cons c rest ih =>
      rw [scanFrom, except_bind_error] at h
      rcases h with hread | ⟨⟨ended, next⟩, hread, h⟩
      · obtain ⟨hc, hoffset⟩ := readAt_error hname hread
        exact ⟨[], c, rest, rfl, hoffset, by rwa [List.append_nil], by rwa [List.append_nil]⟩
      · obtain ⟨hc, hnext⟩ := readAt_clean hname hread
        have hrest : scanFrom next (offset + c.utf8Size) rest = .error e :=
          (except_bind_error.mp h).resolve_right (by simp [pure, Except.pure])
        obtain ⟨before, d, after, rfl, hoffset, hd, hclean⟩ := ih hnext (hpassed.concat hc) hrest
        rw [List.append_assoc] at hd hclean
        refine ⟨c :: before, d, after, rfl, ?_, hd, hclean⟩
        rw [hoffset, String.utf8Len_cons]
        omega

end Scan

lemma clean_nil : Clean [] := by
  intro before c after h
  cases before <;> cases h

/-- The scan of a text begins where no name is open. -/
lemma endsInName_nil : (none : Option OpenName).isSome = true ↔ EndsInName [] := by
  refine iff_of_false nofun ?_
  rintro ⟨start, name, hsplit, hname⟩
  rw [(List.append_eq_nil_iff.mp hsplit.symm).2] at hname
  cases hname

/-! ### The places of tokens -/

lemma isBlank_of_signOf? {c : Char} {symbol : Symbol} (h : signOf? c = some symbol) :
    isBlank c = false := by
  unfold signOf? at h
  split at h <;> first | rfl | cases h

/-- A text that begins with a name begins with no white space. -/
lemma isBlank_of_isIdentifier {name : String} (h : isIdentifier name = true) {rest : List Char} :
    ∀ c ∈ (name.toList ++ rest).head?, isBlank c = false := by
  intro c hc
  rw [isIdentifier] at h
  split at h
  · cases h
  next first parts hname =>
    rw [hname] at hc
    cases hc
    exact isBlank_of_isNameStart (Bool.and_eq_true_iff.mp h).1

/-- **Where a token begins.** The text in front of it consists of the tokens before, and the
rest of the text of the token and the tokens behind it, without white space in front. -/
lemma Placed.split {offset : ℕ} {chars : List Char} {tokens first later : List Token}
    {token : Token} (h : Placed offset chars tokens) (hsplit : tokens = first ++ token :: later) :
    ∃ before after, chars = before ++ after ∧ token.offset = offset + String.utf8Len before ∧
      Consists before (first.map Token.symbol) ∧
      Consists after ((token :: later).map Token.symbol) ∧
      ∀ c ∈ after.head?, isBlank c = false := by
  induction h generalizing first with
  | done => simp at hsplit
  | @blank offset c rest tokens hwhite _ ih =>
      obtain ⟨before, after, rfl, hoffset, hbefore, hafter⟩ := ih hsplit
      refine ⟨c :: before, after, rfl, ?_, .blank hwhite hbefore, hafter⟩
      rw [hoffset, String.utf8Len_cons]
      omega
  | @sign offset c symbol rest tokens hsign hlater ih =>
      cases first with
      | nil =>
          obtain ⟨rfl, rfl⟩ := List.cons.inj hsplit
          refine ⟨[], c :: rest, rfl, rfl, .done, .sign hsign hlater.consists, ?_⟩
          rintro _ ⟨⟩
          exact isBlank_of_signOf? hsign
      | cons head first =>
          obtain ⟨rfl, hrest⟩ := List.cons.inj hsplit
          obtain ⟨before, after, rfl, hoffset, hbefore, hafter⟩ := ih hrest
          refine ⟨c :: before, after, rfl, ?_, .sign hsign hbefore, hafter⟩
          rw [hoffset, String.utf8Len_cons]
          omega
  | @name offset name rest tokens hidentifier hends hlater ih =>
      cases first with
      | nil =>
          obtain ⟨rfl, rfl⟩ := List.cons.inj hsplit
          exact ⟨[], _, rfl, rfl, .done, .name hidentifier hends hlater.consists,
            isBlank_of_isIdentifier hidentifier⟩
      | cons head first =>
          obtain ⟨rfl, hrest⟩ := List.cons.inj hsplit
          obtain ⟨before, after, rfl, hoffset, hbefore, hafter⟩ := ih hrest
          -- what stands in front of the token begins as the rest of the text does
          have hends' : EndsName before := by
            intro c hc
            refine hends c ?_
            rw [List.head?_append, Option.mem_def.mp hc]
            rfl
          refine ⟨name.toList ++ before, after, (List.append_assoc ..).symm, ?_,
            .name hidentifier hends' hbefore, hafter⟩
          rw [hoffset, String.utf8Len_append, String.utf8Len_toList, Nat.add_assoc]

/-! ### Beginnings of sentences -/

/-- Some continuation makes the symbols a sentence. -/
def Viable (symbols : List Symbol) : Prop :=
  ∃ continuation e, (∀ symbol ∈ continuation, symbol.Spelled) ∧
    Sentence (symbols ++ continuation) e

/-- Behind a type, closing parentheses complete the applications that are open. -/
lemma Last.Holds.advance_closings {last : Last} {e : Expr} (h : last.Holds e)
    (stack : List OpenApplication) :
    ∃ final e', Reading.advance ⟨last, stack⟩ (List.replicate stack.length .closing) =
      .ok ⟨final, []⟩ ∧ Last.Holds final e' := by
  induction stack generalizing last e with
  | nil => exact ⟨last, e, rfl, h⟩
  | cons a outer ih =>
      obtain ⟨final, e', hadvance, hfinal⟩ := ih (Last.Holds.type (a.close [e]))
      refine ⟨final, e', ?_, hfinal⟩
      rw [List.length_cons, List.replicate_succ, Reading.advance_cons (h.step_closing a outer)]
      exact hadvance

/-- Behind a type there is a way to the end. -/
lemma Last.Holds.completes {last : Last} {e : Expr} (h : last.Holds e)
    (stack : List OpenApplication) :
    ∃ continuation last' e', (∀ symbol ∈ continuation, symbol.Spelled) ∧
      Reading.advance ⟨last, stack⟩ continuation = .ok last' ∧ last'.finish = .ok e' := by
  obtain ⟨final, e', hadvance, hfinal⟩ := h.advance_closings stack
  refine ⟨_, _, e', fun symbol hsymbol => ?_, hadvance, hfinal.finish⟩
  rw [List.eq_of_mem_replicate hsymbol]
  exact trivial

/-- **There is a way to the end** from every state: a name where a type has to stand, and
then the parentheses that are missing. -/
lemma Reading.completes (reading : Reading) :
    ∃ continuation last e, (∀ symbol ∈ continuation, symbol.Spelled) ∧
      reading.advance continuation = .ok last ∧ last.finish = .ok e := by
  obtain ⟨last, stack⟩ := reading
  have hname (h : last.IsAwaiting) : ∃ continuation last' e,
      (∀ symbol ∈ continuation, symbol.Spelled) ∧
        Reading.advance ⟨last, stack⟩ continuation = .ok last' ∧ last'.finish = .ok e := by
    obtain ⟨continuation, last', e, hspelled, hadvance, hfinish⟩ :=
      (Last.Holds.name "x").completes stack
    have hx : Symbol.Spelled (.name "x") := by rfl
    refine ⟨.name "x" :: continuation, last', e, List.forall_mem_cons.mpr ⟨hx, hspelled⟩, ?_,
      hfinish⟩
    rwa [Reading.advance_cons (h.step_name "x" stack)]
  cases last with
  | nothing => exact hname (Or.inl rfl)
  | opening => exact hname (Or.inr rfl)
  | name head => exact (Last.Holds.name head).completes stack
  | type e => exact (Last.Holds.type e).completes stack

section Run

variable {symbols : List Symbol} {symbol : Symbol} {reading : Reading} {fault : SyntaxFault}

/-- Symbols that the machine takes are the beginning of a sentence. -/
lemma viable_of_advance (h : Reading.start.advance symbols = .ok reading) : Viable symbols := by
  obtain ⟨continuation, last, e, hspelled, hadvance, hfinish⟩ := reading.completes
  refine ⟨continuation, e, hspelled, Reading.accepts_iff.mp ⟨last, ?_, hfinish⟩⟩
  rwa [Reading.advance_append h]

/-- A symbol that the machine refuses stands there in no sentence. -/
lemma not_sentence_of_step (h : Reading.start.advance symbols = .ok reading)
    (hstep : reading.step symbol = .error fault) (continuation : List Symbol) (e : Expr) :
    ¬ Sentence (symbols ++ symbol :: continuation) e := by
  intro hsentence
  obtain ⟨last, hadvance, -⟩ := Reading.accepts_iff.mpr hsentence
  rw [Reading.advance_append h, Reading.advance, List.foldlM_cons, hstep] at hadvance
  cases hadvance

/-- Where the machine does not end, there is no sentence. -/
lemma not_sentence_of_finish (h : Reading.start.advance symbols = .ok reading)
    (hfinish : reading.finish = .error fault) (e : Expr) : ¬ Sentence symbols e := by
  intro hsentence
  obtain ⟨last, hadvance, hend⟩ := Reading.accepts_iff.mpr hsentence
  obtain rfl := Except.ok.inj (h.symm.trans hadvance)
  cases hfinish.symm.trans hend

/-- A run fails at the first token that the machine refuses, or at the end. -/
lemma Reading.run_error {size : ℕ} {tokens : List Token} {error : SyntaxError}
    (h : reading.run size tokens = .error error) :
    (∃ first token later between fault, tokens = first ++ token :: later ∧
        reading.advance (first.map Token.symbol) = .ok between ∧
        between.step token.symbol = .error fault ∧ error.offset = token.offset) ∨
      ∃ last fault, reading.advance (tokens.map Token.symbol) = .ok last ∧
        last.finish = .error fault ∧ error.offset = size := by
  induction tokens generalizing reading with
  | nil =>
      rw [run] at h
      cases hfinish : reading.finish with
      | ok e => simp [hfinish] at h
      | error fault =>
          rw [hfinish] at h
          cases h
          exact Or.inr ⟨reading, fault, rfl, hfinish, rfl⟩
  | cons token rest ih =>
      rw [run] at h
      cases hstep : reading.step token.symbol with
      | error fault =>
          rw [hstep] at h
          cases h
          exact Or.inl ⟨[], token, rest, reading, fault, rfl, rfl, hstep, rfl⟩
      | ok next =>
          rw [hstep] at h
          rcases ih h with ⟨first, bad, later, between, fault, rfl, hadvance, hbad, hoffset⟩ |
            ⟨last, fault, hadvance, hfinish, hoffset⟩
          · refine Or.inl ⟨token :: first, bad, later, between, fault, rfl, ?_, hbad, hoffset⟩
            rwa [List.map_cons, advance_cons hstep]
          · refine Or.inr ⟨last, fault, ?_, hfinish, hoffset⟩
            rwa [List.map_cons, advance_cons hstep]

end Run

/-! ### The main statement -/

/-- What there is at the place of an error. The text is cut in two there. If it holds stray
characters, the first of them is behind the cut. If not, the symbols in front are the
beginning of a sentence; and the symbol behind the cut, which begins there, continues it to
no sentence, or nothing is behind the cut and the symbols are no sentence yet. -/
structure ErrorPlace (before after : List Char) : Prop where
  stray : ¬ Clean (before ++ after) →
    ∃ c rest, after = c :: rest ∧ Stray before c ∧ Clean before
  clean : Clean (before ++ after) →
    ∃ first rest, Consists before first ∧ Consists after rest ∧
      Consists (before ++ after) (first ++ rest) ∧ Viable first ∧
      ((∃ symbol later, rest = symbol :: later ∧ (∀ c ∈ after.head?, isBlank c = false) ∧
          ∀ continuation e, ¬ Sentence (first ++ symbol :: continuation) e) ∨
        after = [] ∧ ∀ e, ¬ Sentence first e)

/-- A text whose scan fails is cut at the first stray character. -/
lemma errorPlace_of_scan {text : String} {error : SyntaxError} (h : scan text = .error error) :
    ∃ before after, text.toList = before ++ after ∧ error.offset = String.utf8Len before ∧
      ErrorPlace before after := by
  obtain ⟨before, c, after, htext, hoffset, hstray, hclean⟩ :=
    scanFrom_error endsInName_nil clean_nil h
  refine ⟨before, c :: after, htext, by rw [hoffset, Nat.zero_add], ?_, fun hall => ?_⟩
  · exact fun _ => ⟨c, after, rfl, hstray, hclean⟩
  · exact absurd hstray (hall before c after rfl)

/-- A text whose symbols are not read to the end is cut at the first symbol that is refused,
or at the end. -/
lemma errorPlace_of_run {text : String} {tokens : List Token} {error : SyntaxError}
    (hscan : scan text = .ok tokens)
    (h : Reading.start.run text.utf8ByteSize tokens = .error error) :
    ∃ before after, text.toList = before ++ after ∧ error.offset = String.utf8Len before ∧
      ErrorPlace before after := by
  have hclean : Clean text.toList := scanFrom_clean endsInName_nil clean_nil hscan
  have hplaced := placed_of_scan hscan
  have hconsists := hplaced.consists
  rcases Reading.run_error h with ⟨first, token, later, between, fault, rfl, hadvance, hstep,
    hoffset⟩ | ⟨last, fault, hadvance, hfinish, hoffset⟩
  · obtain ⟨before, after, htext, htoken, hbefore, hafter, hhead⟩ := hplaced.split rfl
    rw [htext] at hclean hconsists
    refine ⟨before, after, htext, by rw [hoffset, htoken, Nat.zero_add],
      fun hstray => absurd hclean hstray, fun _ => ?_⟩
    rw [List.map_append] at hconsists
    exact ⟨_, _, hbefore, hafter, hconsists, viable_of_advance hadvance,
      Or.inl ⟨_, _, rfl, hhead, not_sentence_of_step hadvance hstep⟩⟩
  · refine ⟨text.toList, [], (List.append_nil _).symm, by rw [hoffset, String.utf8Len_toList],
      fun hstray => ?_, fun _ => ?_⟩
    · rw [List.append_nil] at hstray
      exact absurd hclean hstray
    · refine ⟨_, [], hconsists, .done, ?_, viable_of_advance hadvance,
        Or.inr ⟨rfl, not_sentence_of_finish hadvance hfinish⟩⟩
      rwa [List.append_nil, List.append_nil]

end TypeText

open TypeText

/-- **Syntax errors point at the first offending place.** The offset of an error is that of a
cut of the text, in bytes, so it lies within the text and between two characters; and the
cut is where the first stray character stands, or else where the symbols first fail to
begin a sentence. -/
theorem syntax_error_place (registry : Registry) (text : String) (error : SyntaxError)
    (malformed : Ty.ofText registry text = .error (.malformed error)) :
    error.offset ≤ text.utf8ByteSize ∧ String.Pos.Raw.IsValid text ⟨error.offset⟩ ∧
      ∃ before after : String, text = before ++ after ∧ before.utf8ByteSize = error.offset ∧
        ErrorPlace before.toList after.toList := by
  have hplace : ∃ before after, text.toList = before ++ after ∧
      error.offset = String.utf8Len before ∧ ErrorPlace before after := by
    have hfails := Ty.ofText_malformed_iff.mp malformed
    rw [Expr.ofText, except_bind_error] at hfails
    rcases hfails with hscan | ⟨tokens, hscan, hrun⟩
    · exact errorPlace_of_scan hscan
    · exact errorPlace_of_run hscan hrun
  obtain ⟨before, after, htext, hoffset, hplace⟩ := hplace
  have hsplit : text = String.ofList before ++ String.ofList after := by
    rw [← String.ofList_append, ← htext, String.ofList_toList]
  have hsize : (String.ofList before).utf8ByteSize = error.offset := by
    rw [String.utf8ByteSize_ofList, hoffset]
  refine ⟨?_, ?_, String.ofList before, String.ofList after, hsplit, hsize, ?_⟩
  · rw [hsplit, String.utf8ByteSize_append, hsize]
    exact Nat.le_add_right ..
  · refine String.Pos.Raw.isValid_iff_exists_append.mpr ⟨_, _, hsplit, ?_⟩
    rw [← hsize]
    rfl
  · rwa [String.toList_ofList, String.toList_ofList]

/-- White space of several bytes counts with its bytes. A stray letter is reported although a
comma that no sentence has there stands in front of it; without it, the parenthesis behind
the comma is reported. A text may also end too early. -/
theorem syntax_error_place_wide :
    (Ty.ofText Prelude.registry "List,\u2003é" = .error (.malformed ⟨8, .character 'é'⟩) ∧
      ∃ before after : String, "List,\u2003é" = before ++ after ∧ before.utf8ByteSize = 8 ∧
        ErrorPlace before.toList after.toList) ∧
    (Ty.ofText Prelude.registry "List(number,\u2003)" =
        .error (.malformed ⟨15, .expectedName (some .closing)⟩) ∧
      ∃ before after : String, "List(number,\u2003)" = before ++ after ∧
        before.utf8ByteSize = 15 ∧ ErrorPlace before.toList after.toList) ∧
    Ty.ofText Prelude.registry "Map(\u2003" = .error (.malformed ⟨7, .expectedName none⟩) ∧
      ∃ before after : String, "Map(\u2003" = before ++ after ∧ before.utf8ByteSize = 7 ∧
        ErrorPlace before.toList after.toList :=
  ⟨⟨rfl, (syntax_error_place Prelude.registry _ ⟨8, .character 'é'⟩ rfl).2.2⟩,
    ⟨rfl, (syntax_error_place Prelude.registry _ ⟨15, .expectedName (some .closing)⟩ rfl).2.2⟩,
    rfl, (syntax_error_place Prelude.registry _ ⟨7, .expectedName none⟩ rfl).2.2⟩

end JsonTypes
