/-
The text of trees, read back.

A tree of identifiers is spelled out symbol by symbol, each comma with a blank behind
it. Scanning recovers the symbols, since a name is followed by a parenthesis, a comma or
the end, and the machine that reads symbols recovers the tree: when it has read a tree,
it stands where it stood before with that tree in hand.

* `isIdentifier`, `Expr.Spelled`: trees whose names are identifiers.
* `Expr.symbols`, `Expr.text`: the symbols and the text of a tree.
* `Scanned`: symbols that are recovered in front of some text;
  `Expr.Spelled.scanned_symbols`: those of a tree are.
* `Reading.advance`: several steps of the machine; `Expr.Spelled.advance_symbols`: its
  run over a tree.
* `Expr.Spelled.ofText_text`: the text of a tree of identifiers is read as the tree.
* `Reading.Spelled.step`, `Expr.spelled_of_ofText`: only such trees are ever read.
-/
import JsonTypes.Proofs.Traces
import JsonTypes.Ty.Text
import JsonTypes.TypeText.Expr
import Mathlib.Data.Nat.Notation
import Mathlib.Tactic.SplitIfs

namespace JsonTypes.TypeText

/-! ### Identifiers -/

/-- Whether a text is a name: a character that starts names, and others that continue
them. -/
def isIdentifier (name : String) : Bool :=
  match name.toList with
  | [] => false
  | c :: rest => isNameStart c && rest.all isNamePart

lemma isIdentifier_ofList {c : Char} {rest : List Char} :
    isIdentifier (String.ofList (c :: rest)) = true ↔
      isNameStart c = true ∧ ∀ d ∈ rest, isNamePart d = true := by
  simp [isIdentifier]

lemma isIdentifier_append {chars : List Char} {c : Char}
    (h : isIdentifier (String.ofList chars) = true) (hc : isNamePart c = true) :
    isIdentifier (String.ofList (chars ++ [c])) = true := by
  cases chars with
  | nil => cases h
  | cons first rest =>
      obtain ⟨hfirst, hrest⟩ := isIdentifier_ofList.mp h
      refine isIdentifier_ofList.mpr ⟨hfirst, fun d hd => ?_⟩
      rcases List.mem_append.mp hd with hd | hd
      · exact hrest d hd
      · rwa [List.mem_singleton.mp hd]

/-- All names of a tree are identifiers. -/
inductive Expr.Spelled : Expr → Prop where
  | apply {head : String} {args : List Expr} (name : isIdentifier head = true)
      (each : ∀ e ∈ args, e.Spelled) : Spelled (.apply head args)

/-! ### Symbols and texts of trees -/

/-- The characters of a symbol: behind a comma stands a blank. -/
def Symbol.spelling : Symbol → List Char
  | .name text => text.toList
  | .opening => ['(']
  | .closing => [')']
  | .comma => [',', ' ']

/-- The characters of symbols. -/
def spell (symbols : List Symbol) : List Char :=
  symbols.flatMap Symbol.spelling

@[simp] lemma spell_cons (symbol : Symbol) (symbols : List Symbol) :
    spell (symbol :: symbols) = symbol.spelling ++ spell symbols := List.flatMap_cons

@[simp] lemma spell_append (symbols later : List Symbol) :
    spell (symbols ++ later) = spell symbols ++ spell later := List.flatMap_append

namespace Expr

mutual

/-- The symbols of a tree. -/
def symbols : Expr → List Symbol
  | .apply head [] => [.name head]
  | .apply head (first :: more) =>
    .name head :: .opening :: (first.symbols ++ moreSymbols more)

/-- The symbols behind the first argument: each of the others follows a comma. -/
def moreSymbols : List Expr → List Symbol
  | [] => [.closing]
  | e :: rest => .comma :: (e.symbols ++ moreSymbols rest)

end

/-- The text of a tree. -/
def text (e : Expr) : String :=
  String.ofList (spell e.symbols)

lemma toList_intercalate (first : Expr) (more : List Expr) :
    (String.intercalate ", " ((first :: more).map text)).toList ++ [')'] =
      spell (first.symbols ++ moreSymbols more) := by
  induction more generalizing first with
  | nil => simp [text, moreSymbols, Symbol.spelling, spell]
  | cons e rest ih =>
      have hrest := ih e
      rw [List.map_cons] at hrest
      rw [List.map_cons, List.map_cons, String.intercalate_cons_cons]
      simp [moreSymbols, ← hrest, text, Symbol.spelling]

/-- The text of a tree is its name applied to the texts of the arguments. -/
lemma text_apply (head : String) (args : List Expr) :
    (apply head args).text = applicationText head (args.map text) := by
  cases args with
  | nil => simp [text, symbols, applicationText, spell, Symbol.spelling]
  | cons first more =>
      rw [← String.toList_inj, text, String.toList_ofList, symbols, spell_cons, spell_cons,
        ← toList_intercalate]
      simp [applicationText, Symbol.spelling]

end Expr

/-! ### Scanning symbols -/

/-- A character that starts a name is no white space. -/
lemma isBlank_of_isNameStart {c : Char} (h : isNameStart c = true) : isBlank c = false := by
  rw [isNameStart, Bool.or_eq_true, beq_iff_eq] at h
  rcases h with h | rfl
  · change (decide (65 ≤ c.val ∧ c.val ≤ 90) ||
      decide (97 ≤ c.val) && decide (c.val ≤ 122)) = true at h
    simp only [Bool.or_eq_true, Bool.and_eq_true, decide_eq_true_eq,
      UInt32.le_iff_toNat_le] at h
    change ((65 ≤ c.toNat ∧ c.toNat ≤ 90) ∨ (97 ≤ c.toNat ∧ c.toNat ≤ 122)) at h
    simp only [isBlank, Bool.or_eq_false_iff, Bool.and_eq_false_iff, decide_eq_false_iff_not,
      beq_eq_false_iff_ne]
    omega
  · rfl

/-- A text that no name continues into. -/
def EndsName (tail : List Char) : Prop :=
  ∀ c ∈ tail.head?, isNamePart c = false

lemma scanFrom_cons {name next : Option OpenName} {offset : ℕ} {c : Char} {tokens : List Token}
    (h : readAt name offset c = .ok (tokens, next)) (rest : List Char) :
    scanFrom name offset (c :: rest) =
      (scanFrom next (offset + c.utf8Size) rest).map (tokens ++ ·) := by
  rw [scanFrom, h]
  rfl

lemma scanFrom_skip {name next : Option OpenName} {offset : ℕ} {c : Char}
    (h : readAt name offset c = .ok ([], next)) (rest : List Char) :
    scanFrom name offset (c :: rest) = scanFrom next (offset + c.utf8Size) rest := by
  rw [scanFrom_cons h]
  cases scanFrom next (offset + c.utf8Size) rest <;> rfl

/-- An open name takes in all characters that continue it. -/
lemma scanFrom_parts (parts tail : List Char) (hparts : ∀ d ∈ parts, isNamePart d = true)
    (name : OpenName) (offset : ℕ) :
    ∃ later, scanFrom (some name) offset (parts ++ tail) =
      scanFrom (some ⟨name.offset, parts.reverse ++ name.reversed⟩) later tail := by
  induction parts generalizing name offset with
  | nil => exact ⟨offset, rfl⟩
  | cons d parts ih =>
      obtain ⟨hd, hparts⟩ := List.forall_mem_cons.mp hparts
      have hread : readAt (some name) offset d =
          .ok ([], some ⟨name.offset, d :: name.reversed⟩) := by rw [readAt, if_pos hd]
      obtain ⟨later, hlater⟩ := ih hparts ⟨name.offset, d :: name.reversed⟩ (offset + d.utf8Size)
      refine ⟨later, ?_⟩
      rw [List.cons_append, scanFrom_skip hread, hlater, List.reverse_cons, List.append_assoc]
      rfl

/-- Where no name continues, an open name becomes a token. -/
lemma scanFrom_ends {tail : List Char} (htail : EndsName tail) (name : OpenName) (offset : ℕ) :
    scanFrom (some name) offset tail = (scanFrom none offset tail).map (name.token :: ·) := by
  cases tail with
  | nil => rfl
  | cons c rest =>
      have hc : isNamePart c = false := htail c rfl
      have hclosed : readAt (some name) offset c = (readAt none offset c).map
          fun read => (name.token :: read.1, read.2) := by
        simp only [readAt, hc, Bool.false_eq_true, if_false]
      cases hread : readAt none offset c with
      | error e =>
          rw [hread] at hclosed
          rw [scanFrom, scanFrom, hread, hclosed]
          rfl
      | ok read =>
          rw [hread] at hclosed
          rw [scanFrom_cons hread, scanFrom_cons hclosed]
          cases scanFrom read.2 (offset + c.utf8Size) rest <;> rfl

/-- In front of `tail`, the characters of the symbols are scanned as these symbols, and
no name stays open. -/
def Scanned (symbols : List Symbol) (tail : List Char) : Prop :=
  ∀ offset, ∃ tokens later, tokens.map Token.symbol = symbols ∧
    scanFrom none offset (spell symbols ++ tail) = (scanFrom none later tail).map (tokens ++ ·)

namespace Scanned

variable {symbols later : List Symbol} {tail : List Char}

lemma append (h : Scanned symbols (spell later ++ tail)) (h' : Scanned later tail) :
    Scanned (symbols ++ later) tail := by
  intro offset
  obtain ⟨tokens, between, rfl, hfirst⟩ := h offset
  obtain ⟨tokens', after, rfl, hlater⟩ := h' between
  refine ⟨tokens ++ tokens', after, List.map_append, ?_⟩
  rw [spell_append, List.append_assoc, hfirst, hlater]
  cases scanFrom none after tail <;> simp [Except.map]

lemma opening (tail : List Char) : Scanned [.opening] tail := fun offset =>
  ⟨[⟨.opening, offset⟩], _, rfl, scanFrom_cons rfl tail⟩

lemma closing (tail : List Char) : Scanned [.closing] tail := fun offset =>
  ⟨[⟨.closing, offset⟩], _, rfl, scanFrom_cons rfl tail⟩

/-- The blank behind a comma is skipped. -/
lemma comma (tail : List Char) : Scanned [.comma] tail := by
  intro offset
  have hcomma : readAt none offset ',' = .ok ([⟨.comma, offset⟩], none) := rfl
  have hblank : readAt none (offset + 1) ' ' = .ok ([], none) := rfl
  refine ⟨[⟨.comma, offset⟩], offset + 2, rfl, ?_⟩
  rw [show spell [.comma] ++ tail = ',' :: ' ' :: tail from rfl, scanFrom_cons hcomma]
  exact congrArg (Except.map _) (scanFrom_skip hblank tail)

lemma name {text : String} (htext : isIdentifier text = true) (htail : EndsName tail) :
    Scanned [.name text] tail := by
  obtain ⟨chars, rfl⟩ : ∃ chars, text = String.ofList chars := ⟨text.toList, by simp⟩
  cases chars with
  | nil => cases htext
  | cons c parts =>
      obtain ⟨hc, hparts⟩ := isIdentifier_ofList.mp htext
      intro offset
      have hread : readAt none offset c = .ok ([], some ⟨offset, [c]⟩) := by
        unfold readAt startAt
        rw [isBlank_of_isNameStart hc, if_neg Bool.false_ne_true, if_pos hc]
      obtain ⟨later, hlater⟩ := scanFrom_parts parts tail hparts ⟨offset, [c]⟩ (offset + c.utf8Size)
      refine ⟨[⟨.name (String.ofList (c :: parts)), offset⟩], later, rfl, ?_⟩
      have hspell : spell [.name (String.ofList (c :: parts))] ++ tail = c :: (parts ++ tail) := by
        simp [spell, Symbol.spelling]
      rw [hspell, scanFrom_skip hread, hlater, scanFrom_ends htail, OpenName.token,
        List.reverse_append, List.reverse_reverse]
      rfl

end Scanned

/-- What follows an argument ends its last name. -/
lemma endsName_moreSymbols (rest : List Expr) (tail : List Char) :
    EndsName (spell (Expr.moreSymbols rest) ++ tail) := by
  cases rest with
  | nil =>
      rintro c ⟨⟩
      rfl
  | cons e rest =>
      rintro c ⟨⟩
      rfl

/-- The symbols behind the first argument are recovered if those of the others are. -/
lemma scanned_moreSymbols {rest : List Expr} (tail : List Char)
    (each : ∀ e ∈ rest, ∀ tail, EndsName tail → Scanned e.symbols tail) :
    Scanned (Expr.moreSymbols rest) tail := by
  induction rest with
  | nil =>
      rw [Expr.moreSymbols]
      exact .closing tail
  | cons e rest ih =>
      obtain ⟨he, hrest⟩ := List.forall_mem_cons.mp each
      rw [Expr.moreSymbols]
      have hfirst := (he _ (endsName_moreSymbols rest tail)).append (ih hrest)
      exact (Scanned.comma _).append hfirst

/-- **The symbols of a tree of identifiers are recovered** in front of any text that no
name continues into. -/
lemma Expr.Spelled.scanned_symbols {e : Expr} (h : e.Spelled) {tail : List Char}
    (htail : EndsName tail) : Scanned e.symbols tail := by
  induction h generalizing tail with
  | @apply head args hhead hargs ih =>
    cases args with
    | nil =>
        rw [symbols]
        exact .name hhead htail
    | cons first more =>
        obtain ⟨hfirst, hmore⟩ := List.forall_mem_cons.mp ih
        rw [symbols]
        have hargs := (hfirst (endsName_moreSymbols more tail)).append
          (scanned_moreSymbols tail fun e he tail htail => hmore e he htail)
        have hopen := (Scanned.opening _).append hargs
        exact (Scanned.name hhead (by rintro c ⟨⟩; rfl)).append hopen

/-- The text of a tree of identifiers consists of the symbols of the tree. -/
lemma Expr.Spelled.scan_text {e : Expr} (h : e.Spelled) :
    ∃ tokens, scan e.text = .ok tokens ∧ tokens.map Token.symbol = e.symbols := by
  have hscanned : Scanned e.symbols [] := h.scanned_symbols nofun
  obtain ⟨tokens, later, hsymbols, hscan⟩ := hscanned 0
  refine ⟨tokens, ?_, hsymbols⟩
  rw [List.append_nil] at hscan
  rw [scan, text, String.toList_ofList, hscan]
  exact congrArg Except.ok (List.append_nil tokens)

/-! ### Reading symbols -/

/-- Several symbols. -/
def Reading.advance (reading : Reading) (symbols : List Symbol) : Except SyntaxFault Reading :=
  symbols.foldlM Reading.step reading

lemma Reading.advance_cons {reading next : Reading} {symbol : Symbol}
    (h : reading.step symbol = .ok next) (later : List Symbol) :
    reading.advance (symbol :: later) = next.advance later := by
  rw [advance, List.foldlM_cons, h]
  rfl

lemma Reading.advance_append {reading next : Reading} {symbols : List Symbol}
    (h : reading.advance symbols = .ok next) (later : List Symbol) :
    reading.advance (symbols ++ later) = next.advance later := by
  rw [advance, List.foldlM_append]
  rw [advance] at h
  rw [h]
  rfl

/-- A run over tokens is a run over their symbols, with the places of errors. -/
lemma Reading.run_ok {size : ℕ} {reading : Reading} {tokens : List Token} {e : Expr} :
    reading.run size tokens = .ok e ↔
      ∃ last, reading.advance (tokens.map Token.symbol) = .ok last ∧ last.finish = .ok e := by
  induction tokens generalizing reading with
  | nil => simp [run, advance, pure, Except.pure, except_mapError_ok]
  | cons token rest ih =>
      rw [run, List.map_cons, advance, List.foldlM_cons]
      cases h : reading.step token.symbol with
      | error fault => simp [bind, Except.bind]
      | ok next => exact ih

/-- A tree that has been read: a bare name may still get arguments. -/
def Expr.last : Expr → Last
  | .apply head [] => .name head
  | e => .type e

lemma Reading.step_comma (e : Expr) (a : OpenApplication) (outer : List OpenApplication) :
    Reading.step ⟨e.last, a :: outer⟩ .comma =
      .ok ⟨.nothing, ⟨a.head, a.args ++ [e]⟩ :: outer⟩ := by
  obtain ⟨head, _ | ⟨first, more⟩⟩ := e <;> rfl

lemma Reading.step_closing (e : Expr) (a : OpenApplication) (outer : List OpenApplication) :
    Reading.step ⟨e.last, a :: outer⟩ .closing = .ok ⟨.type (a.close [e]), outer⟩ := by
  obtain ⟨head, _ | ⟨first, more⟩⟩ := e <;> rfl

lemma Reading.finish_last (e : Expr) : Reading.finish ⟨e.last, []⟩ = .ok e := by
  obtain ⟨head, _ | ⟨first, more⟩⟩ := e <;> rfl

/-- The symbols behind an argument complete the innermost application, if the symbols of
the other arguments are read as these. -/
lemma Reading.advance_moreSymbols {rest : List Expr}
    (each : ∀ e ∈ rest, ∀ stack, Reading.advance ⟨.nothing, stack⟩ e.symbols =
      .ok ⟨e.last, stack⟩) (e : Expr) (a : OpenApplication) (outer : List OpenApplication) :
    Reading.advance ⟨e.last, a :: outer⟩ (Expr.moreSymbols rest) =
      .ok ⟨.type (a.close (e :: rest)), outer⟩ := by
  induction rest generalizing e a with
  | nil =>
      rw [Expr.moreSymbols, advance_cons (step_closing e a outer)]
      rfl
  | cons next rest ih =>
      obtain ⟨hnext, hrest⟩ := List.forall_mem_cons.mp each
      rw [Expr.moreSymbols, advance_cons (step_comma e a outer), advance_append (hnext _), ih hrest]
      simp [OpenApplication.close]

/-- **A tree is read from its symbols**, wherever a type has to stand: what was open
before is open afterwards. -/
lemma Expr.Spelled.advance_symbols {e : Expr} (h : e.Spelled) {awaiting : Last}
    (hawaiting : awaiting = .nothing ∨ awaiting = .opening) (stack : List OpenApplication) :
    Reading.advance ⟨awaiting, stack⟩ e.symbols = .ok ⟨e.last, stack⟩ := by
  induction h generalizing awaiting stack with
  | @apply head args hhead hargs ih =>
    have hname : Reading.step ⟨awaiting, stack⟩ (.name head) = .ok ⟨.name head, stack⟩ := by
      rcases hawaiting with rfl | rfl <;> rfl
    cases args with
    | nil =>
        rw [symbols, Reading.advance_cons hname]
        rfl
    | cons first more =>
        obtain ⟨hfirst, hmore⟩ := List.forall_mem_cons.mp ih
        have hopen : Reading.step ⟨.name head, stack⟩ .opening =
            .ok ⟨.opening, ⟨head, []⟩ :: stack⟩ := rfl
        rw [symbols, Reading.advance_cons hname, Reading.advance_cons hopen,
          Reading.advance_append (hfirst (Or.inr rfl) _),
          Reading.advance_moreSymbols fun e he stack => hmore e he (Or.inl rfl) stack]
        rfl

/-- **The text of a tree of identifiers is read back as the tree.** -/
theorem Expr.Spelled.ofText_text {e : Expr} (h : e.Spelled) : Expr.ofText e.text = .ok e := by
  obtain ⟨tokens, hscan, hsymbols⟩ := h.scan_text
  have hread : Reading.start.run e.text.utf8ByteSize tokens = .ok e := by
    refine Reading.run_ok.mpr ⟨⟨e.last, []⟩, ?_, Reading.finish_last e⟩
    rw [hsymbols]
    exact h.advance_symbols (Or.inl rfl) []
  rw [ofText, hscan]
  exact hread

/-! ### Trees of texts -/

/-- The name of a symbol, if it is one, is an identifier. -/
def Symbol.Spelled : Symbol → Prop
  | .name text => isIdentifier text = true
  | .opening | .closing | .comma => True

/-- The tokens hold identifiers, and so would the name that is being read. -/
def HoldsIdentifiers (read : List Token × Option OpenName) : Prop :=
  (∀ token ∈ read.1, token.symbol.Spelled) ∧ ∀ name ∈ read.2, name.token.symbol.Spelled

lemma holdsIdentifiers_of_startAt {offset : ℕ} {c : Char} {read : List Token × Option OpenName}
    (h : startAt offset c = .ok read) : HoldsIdentifiers read := by
  unfold startAt at h
  split_ifs at h with hblank hstart
  · cases h
    exact ⟨nofun, nofun⟩
  · cases h
    refine ⟨nofun, fun name hname => ?_⟩
    obtain rfl := Option.mem_some_iff.mp hname
    exact isIdentifier_ofList.mpr ⟨hstart, nofun⟩
  · split at h <;> cases h
    all_goals exact ⟨by simp [Symbol.Spelled], nofun⟩

/-- One character leaves identifiers behind. -/
lemma holdsIdentifiers_of_readAt {name : Option OpenName} {offset : ℕ} {c : Char}
    {read : List Token × Option OpenName} (hname : ∀ n ∈ name, n.token.symbol.Spelled)
    (h : readAt name offset c = .ok read) : HoldsIdentifiers read := by
  cases name with
  | none => exact holdsIdentifiers_of_startAt h
  | some name =>
      have htoken := hname name rfl
      rw [readAt] at h
      split_ifs at h with hpart
      · cases h
        refine ⟨nofun, fun longer hlonger => ?_⟩
        obtain rfl := Option.mem_some_iff.mp hlonger
        rw [OpenName.token, List.reverse_cons]
        exact isIdentifier_append htoken hpart
      · obtain ⟨started, hstarted, rfl⟩ := except_map_ok.mp h
        obtain ⟨htokens, hnext⟩ := holdsIdentifiers_of_startAt hstarted
        exact ⟨List.forall_mem_cons.mpr ⟨htoken, htokens⟩, hnext⟩

/-- The tokens of a text hold identifiers. -/
lemma spelled_of_scanFrom {name : Option OpenName} {offset : ℕ} {chars : List Char}
    {tokens : List Token} (hname : ∀ n ∈ name, n.token.symbol.Spelled)
    (h : scanFrom name offset chars = .ok tokens) : ∀ token ∈ tokens, token.symbol.Spelled := by
  induction chars generalizing name offset tokens with
  | nil =>
      cases h
      cases name with
      | none => exact nofun
      | some name => simpa using hname
  | cons c rest ih =>
      rw [scanFrom, except_bind_ok] at h
      obtain ⟨⟨ended, next⟩, hread, h⟩ := h
      obtain ⟨later, hlater, hjoined⟩ := except_bind_ok.mp h
      cases hjoined
      obtain ⟨hended, hnext⟩ := holdsIdentifiers_of_readAt hname hread
      intro token htoken
      exact (List.mem_append.mp htoken).elim (hended token) (ih hnext hlater token)

/-- All names of an open application are identifiers. -/
structure OpenApplication.Spelled (a : OpenApplication) : Prop where
  head : isIdentifier a.head = true
  args : ∀ e ∈ a.args, e.Spelled

/-- All names of what has been read last are identifiers. -/
def Last.Spelled : Last → Prop
  | .nothing | .opening => True
  | .name head => isIdentifier head = true
  | .type e => e.Spelled

/-- All names that have been read are identifiers. -/
structure Reading.Spelled (reading : Reading) : Prop where
  last : reading.last.Spelled
  stack : ∀ a ∈ reading.stack, a.Spelled

lemma OpenApplication.Spelled.close {a : OpenApplication} (ha : a.Spelled) {args : List Expr}
    (hargs : ∀ e ∈ args, e.Spelled) : (a.close args).Spelled :=
  .apply ha.head fun e he => (List.mem_append.mp he).elim (ha.args e) (hargs e)

lemma Reading.Spelled.afterType {e : Expr} {stack : List OpenApplication} {symbol : Symbol}
    {next : Reading} (he : e.Spelled) (hstack : ∀ a ∈ stack, a.Spelled)
    (h : Reading.afterType e stack symbol = .ok next) : next.Spelled := by
  cases stack with
  | nil => cases h
  | cons a outer =>
      obtain ⟨ha, houter⟩ := List.forall_mem_cons.mp hstack
      cases symbol with
      | comma =>
          cases h
          refine ⟨trivial, List.forall_mem_cons.mpr ⟨⟨ha.head, fun e' he' => ?_⟩, houter⟩⟩
          rcases List.mem_append.mp he' with hargs | hlast
          · exact ha.args e' hargs
          · rwa [List.mem_singleton.mp hlast]
      | closing =>
          cases h
          exact ⟨ha.close (List.forall_mem_singleton.mpr he), houter⟩
      | name | opening => cases h

/-- One symbol leaves trees of identifiers behind. -/
lemma Reading.Spelled.step {reading next : Reading} {symbol : Symbol} (hreading : reading.Spelled)
    (hsymbol : symbol.Spelled) (h : reading.step symbol = .ok next) : next.Spelled := by
  obtain ⟨last, stack⟩ := reading
  obtain ⟨hlast, hstack⟩ := hreading
  cases last with
  | nothing =>
      cases symbol <;> cases h
      exact ⟨hsymbol, hstack⟩
  | opening =>
      cases symbol with
      | name head =>
          cases h
          exact ⟨hsymbol, hstack⟩
      | closing =>
          cases stack with
          | nil => cases h
          | cons a outer =>
              obtain ⟨ha, houter⟩ := List.forall_mem_cons.mp hstack
              cases h
              exact ⟨ha.close nofun, houter⟩
      | opening | comma => cases h
  | name head =>
      cases symbol with
      | opening =>
          cases h
          exact ⟨trivial, List.forall_mem_cons.mpr ⟨⟨hlast, nofun⟩, hstack⟩⟩
      | name | closing | comma =>
          exact .afterType (.apply hlast (List.forall_mem_nil _)) hstack h
  | type e => exact .afterType hlast hstack h

lemma Reading.Spelled.advance {reading next : Reading} {symbols : List Symbol}
    (hreading : reading.Spelled) (hsymbols : ∀ symbol ∈ symbols, symbol.Spelled)
    (h : reading.advance symbols = .ok next) : next.Spelled := by
  induction symbols generalizing reading with
  | nil =>
      cases h
      exact hreading
  | cons symbol rest ih =>
      obtain ⟨hsymbol, hrest⟩ := List.forall_mem_cons.mp hsymbols
      rw [Reading.advance, List.foldlM_cons, except_bind_ok] at h
      obtain ⟨between, hstep, h⟩ := h
      exact ih (hreading.step hsymbol hstep) hrest h

lemma Reading.Spelled.finish {reading : Reading} (hreading : reading.Spelled) {e : Expr}
    (h : reading.finish = .ok e) : e.Spelled := by
  obtain ⟨last, stack⟩ := reading
  obtain ⟨hlast, -⟩ := hreading
  cases last with
  | nothing | opening => cases h
  | name head =>
      cases stack <;> cases h
      exact .apply hlast nofun
  | type e =>
      cases stack <;> cases h
      exact hlast

/-- **The tree of a text is a tree of identifiers.** -/
theorem Expr.spelled_of_ofText {text : String} {e : Expr} (h : Expr.ofText text = .ok e) :
    e.Spelled := by
  obtain ⟨tokens, hscan, hrun⟩ := except_bind_ok.mp h
  obtain ⟨last, hadvance, hfinish⟩ := Reading.run_ok.mp hrun
  have hstart : Reading.start.Spelled := ⟨trivial, nofun⟩
  have hopen : ∀ name ∈ (none : Option OpenName), name.token.symbol.Spelled := nofun
  have htokens := spelled_of_scanFrom hopen hscan
  refine (hstart.advance ?_ hadvance).finish hfinish
  intro symbol hsymbol
  obtain ⟨token, htoken, rfl⟩ := List.mem_map.mp hsymbol
  exact htokens token htoken

end JsonTypes.TypeText
