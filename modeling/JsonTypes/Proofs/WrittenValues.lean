/-
How values are written in JSON texts.

A value is written as one symbol, or as the items of an array or the members of an object between
brackets, with commas between them. Where a value is read from a text, it is written there: what
has been read so far are the parts in front of the next symbol that are complete, and arrays and
objects that are still open.

* `WrittenAs`: the symbols of a value; `objectSymbols`: those of an object.
* `Kept`: the parts of an array or object that is open.
* `Opened`, `Passed`: what has been read in a state of the reader.
* `Passed.step`, `Passed.run`: one symbol, and the rest of a text.
* `exists_written_of_ofText`: a value that is read is written.
-/
import JsonTypes.Json.Reader
import JsonTypes.Proofs.WrittenLexemes

namespace JsonTypes.Json

/-! ### Values -/

/-- Some parts with commas between them. -/
def commaSeparated : List (List Symbol) → List Symbol
  | [] => []
  | part :: parts => part ++ parts.flatMap (Symbol.comma :: ·)

/-- A member of an object: its key, and the symbols of its value. -/
structure Member where
  key : String
  symbols : List Symbol

/-- The symbols of a member. -/
def Member.written (member : Member) : List Symbol :=
  .text member.key :: .colon :: member.symbols

/-- The symbols of an object. -/
def objectSymbols (members : List Member) : List Symbol :=
  .openBrace :: (commaSeparated (members.map Member.written) ++ [.closeBrace])

/-- The symbols of an array. -/
def arraySymbols (items : List (List Symbol)) : List Symbol :=
  .openBracket :: (commaSeparated items ++ [.closeBracket])

/-- The value is written with the symbols. -/
inductive WrittenAs : Json → List Symbol → Prop where
  | null : WrittenAs .null [.null]
  | boolean (b : Bool) : WrittenAs (.boolean b) [.boolean b]
  | string (s : String) : WrittenAs (.string s) [.text s]
  | number {x : Number} {n : Numeral} (natural : ∀ k : ℕ, x = .integer k ↔ n.IsNatural k) :
      WrittenAs (.number x) [.number n]
  | array (items : List (Json × List Symbol)) (written : ∀ item ∈ items, WrittenAs item.1 item.2) :
      WrittenAs (.ofItems (items.map Prod.fst)) (arraySymbols (items.map Prod.snd))
  | object (members : List (Json × Member))
      (written : ∀ member ∈ members, WrittenAs member.1 member.2.symbols) :
      WrittenAs (.ofMembers (members.map fun member => (member.2.key, member.1)))
        (objectSymbols (members.map Prod.snd))

/-- A comma behind parts. -/
lemma commaSeparated_comma {parts : List (List Symbol)} (h : parts ≠ []) :
    commaSeparated parts ++ [.comma] = parts.flatMap (· ++ [.comma]) := by
  obtain ⟨part, parts, rfl⟩ := List.exists_cons_of_ne_nil h
  induction parts generalizing part with
  | nil => simp [commaSeparated]
  | cons next parts ih =>
      have hnext := ih next (List.cons_ne_nil _ _)
      simp only [commaSeparated, List.flatMap_cons, List.append_assoc, List.cons_append] at hnext ⊢
      rw [hnext]
      simp

/-- Another part behind parts and their commas. -/
lemma commaSeparated_concat (parts : List (List Symbol)) (last : List Symbol) :
    commaSeparated (parts ++ [last]) = parts.flatMap (· ++ [.comma]) ++ last := by
  cases parts with
  | nil => simp [commaSeparated]
  | cons part parts =>
      rw [← commaSeparated_comma (List.cons_ne_nil _ _)]
      simp [commaSeparated]

/-! ### What has been read -/

/-- The parts of an array or object that is open, with the symbol that has opened it. -/
inductive Kept : Frame → Symbol → List (List Symbol) → Prop where
  | array (items : List (Json × List Symbol)) (written : ∀ item ∈ items, WrittenAs item.1 item.2) :
      Kept (.array (items.map Prod.fst).reverse) .openBracket (items.map Prod.snd)
  | object (members : List (Json × Member))
      (written : ∀ member ∈ members, WrittenAs member.1 member.2.symbols) (key : String) :
      Kept (.object (members.map fun member => (member.2.key, member.1)).reverse key) .openBrace
        ((members.map Prod.snd).map Member.written)

section Kept

variable {opening : Symbol} {parts : List (List Symbol)} {symbols : List Symbol} {v : Json}
  {items : List Json} {members : List (String × Json)} {key : String}

lemma Kept.exists_items (h : Kept (.array items) opening parts) :
    ∃ items' : List (Json × List Symbol), (∀ item ∈ items', WrittenAs item.1 item.2) ∧
      items = (items'.map Prod.fst).reverse ∧ opening = .openBracket ∧
      parts = items'.map Prod.snd := by
  generalize hframe : Frame.array items = frame at h
  cases h with
  | array items' hitems =>
      cases hframe
      exact ⟨items', hitems, rfl, rfl, rfl⟩
  | object members' hmembers key => cases hframe

lemma Kept.exists_members (h : Kept (.object members key) opening parts) :
    ∃ members' : List (Json × Member), (∀ member ∈ members', WrittenAs member.1 member.2.symbols) ∧
      members = (members'.map fun member => (member.2.key, member.1)).reverse ∧
      opening = .openBrace ∧ parts = (members'.map Prod.snd).map Member.written := by
  generalize hframe : Frame.object members key = frame at h
  cases h with
  | array items' hitems => cases hframe
  | object members' hmembers key =>
      cases hframe
      exact ⟨members', hmembers, rfl, rfl, rfl⟩

/-- Another item. -/
lemma Kept.item (h : Kept (.array items) opening parts) (hv : WrittenAs v symbols) :
    Kept (.array (v :: items)) opening (parts ++ [symbols]) := by
  obtain ⟨items', hitems, rfl, rfl, rfl⟩ := h.exists_items
  have hkept := Kept.array (items' ++ [(v, symbols)])
    (List.forall_mem_append.mpr ⟨hitems, List.forall_mem_singleton.mpr hv⟩)
  simpa using hkept

/-- The value of another member. -/
lemma Kept.member (h : Kept (.object members key) opening parts) (hv : WrittenAs v symbols) :
    Kept (.object ((key, v) :: members) key) opening
      (parts ++ [.text key :: .colon :: symbols]) := by
  obtain ⟨members', hmembers, rfl, rfl, rfl⟩ := h.exists_members
  have hkept := Kept.object (members' ++ [(v, ⟨key, symbols⟩)])
    (List.forall_mem_append.mpr ⟨hmembers, List.forall_mem_singleton.mpr hv⟩) key
  simpa [Member.written] using hkept

/-- Another key. -/
lemma Kept.rekey (h : Kept (.object members key) opening parts) (next : String) :
    Kept (.object members next) opening parts := by
  obtain ⟨members', hmembers, rfl, rfl, rfl⟩ := h.exists_members
  exact .object members' hmembers next

/-- The end of an array. -/
lemma Kept.closeArray (h : Kept (.array items) opening parts) :
    WrittenAs (.ofItems items.reverse) (opening :: (commaSeparated parts ++ [.closeBracket])) := by
  obtain ⟨items', hitems, rfl, rfl, rfl⟩ := h.exists_items
  rw [List.reverse_reverse]
  exact .array items' hitems

/-- The end of an object. -/
lemma Kept.closeObject (h : Kept (.object members key) opening parts) :
    WrittenAs (.ofMembers members.reverse)
      (opening :: (commaSeparated parts ++ [.closeBrace])) := by
  obtain ⟨members', hmembers, rfl, rfl, rfl⟩ := h.exists_members
  rw [List.reverse_reverse]
  exact .object members' hmembers

end Kept

/-- Where a value has to stand: the symbols in front of it. -/
inductive Opened : List Frame → List Symbol → Prop where
  | nil : Opened [] []
  | array {outer : List Frame} {front : List Symbol} {items : List Json} {opening : Symbol}
      {parts : List (List Symbol)} (kept : Kept (.array items) opening parts)
      (later : Opened outer front) :
      Opened (.array items :: outer) (front ++ opening :: parts.flatMap (· ++ [.comma]))
  | object {outer : List Frame} {front : List Symbol} {members : List (String × Json)}
      {key : String} {opening : Symbol} {parts : List (List Symbol)}
      (kept : Kept (.object members key) opening parts) (later : Opened outer front) :
      Opened (.object members key :: outer)
        (front ++ opening :: (parts.flatMap (· ++ [.comma]) ++ [.text key, .colon]))

/-- The symbols in front of a state. -/
inductive Passed : Reader → List Symbol → Prop where
  | value {stack : List Frame} {front : List Symbol} (opened : Opened stack front) :
      Passed ⟨.value, stack⟩ front
  | firstItem {outer : List Frame} {front : List Symbol} (opened : Opened outer front) :
      Passed ⟨.firstItem, .array [] :: outer⟩ (front ++ [.openBracket])
  | firstKey {outer : List Frame} {front : List Symbol} {key : String}
      (opened : Opened outer front) :
      Passed ⟨.firstKey, .object [] key :: outer⟩ (front ++ [.openBrace])
  | key {outer : List Frame} {front : List Symbol} {members : List (String × Json)} {key : String}
      {opening : Symbol} {parts : List (List Symbol)}
      (kept : Kept (.object members key) opening parts) (opened : Opened outer front) :
      Passed ⟨.key, .object members key :: outer⟩
        (front ++ opening :: parts.flatMap (· ++ [.comma]))
  | colon {outer : List Frame} {front : List Symbol} {members : List (String × Json)}
      {key : String} {opening : Symbol} {parts : List (List Symbol)}
      (kept : Kept (.object members key) opening parts) (opened : Opened outer front) :
      Passed ⟨.colon, .object members key :: outer⟩
        (front ++ opening :: (parts.flatMap (· ++ [.comma]) ++ [.text key]))
  | separator {outer : List Frame} {front : List Symbol} {frame : Frame} {opening : Symbol}
      {parts : List (List Symbol)} (kept : Kept frame opening parts) (nonempty : parts ≠ [])
      (opened : Opened outer front) :
      Passed ⟨.separator, frame :: outer⟩ (front ++ opening :: commaSeparated parts)
  | nothing {v : Json} {symbols : List Symbol} (written : WrittenAs v symbols) :
      Passed ⟨.nothing v, []⟩ symbols

section Passed

variable {limit : ℕ} {stack : List Frame} {front symbols : List Symbol} {symbol : Symbol}
  {token : Token} {reader next : Reader} {v : Json}

/-- A value that is complete belongs to the innermost array or object. -/
lemma Opened.complete (h : Opened stack front) (hv : WrittenAs v symbols) :
    Passed (Reader.complete v stack) (front ++ symbols) := by
  cases h with
  | nil => exact .nothing hv
  | array hkept hlater =>
      have hpassed := Passed.separator (hkept.item hv) (by simp) hlater
      simpa [commaSeparated_concat, Reader.complete] using hpassed
  | object hkept hlater =>
      have hpassed := Passed.separator (hkept.member hv) (by simp) hlater
      simpa [commaSeparated_concat, Reader.complete] using hpassed

/-- A symbol where a value has to stand. -/
lemma Opened.stepValue (h : Opened stack front) (hread : symbol.IsRead token.lexeme)
    (hstep : Reader.stepValue limit stack token = .ok next) : Passed next (front ++ [symbol]) := by
  unfold Reader.stepValue at hstep
  cases symbol with
  | text s =>
      rw [show token.lexeme = _ from hread] at hstep
      cases hstep
      exact h.complete (.string s)
  | null =>
      rw [show token.lexeme = _ from hread] at hstep
      cases hstep
      exact h.complete .null
  | boolean b =>
      rw [show token.lexeme = _ from hread] at hstep
      cases hstep
      exact h.complete (.boolean b)
  | number n =>
      obtain ⟨result, hlexeme, hnatural⟩ := hread
      rw [hlexeme] at hstep
      obtain ⟨_, hresult, rfl⟩ := except_map_ok.mp hstep
      obtain ⟨x, rfl, rfl⟩ := except_map_ok.mp hresult
      exact h.complete (.number fun k => by rw [← hnatural k, Except.ok.injEq])
  | openBracket =>
      rw [show token.lexeme = _ from hread] at hstep
      simp only [Reader.opened] at hstep
      split_ifs at hstep
      cases hstep
      exact .firstItem h
  | openBrace =>
      rw [show token.lexeme = _ from hread] at hstep
      simp only [Reader.opened] at hstep
      split_ifs at hstep
      cases hstep
      exact .firstKey h
  | closeBrace | closeBracket | colon | comma =>
      rw [show token.lexeme = _ from hread] at hstep
      cases hstep

/-- What stands where a key is read. -/
lemma stepKey_ok {reversed : List (String × Json)} {key : String}
    (hread : symbol.IsRead token.lexeme)
    (hstep : Reader.stepKey (.object reversed key :: stack) token = .ok next) :
    ∃ s, symbol = .text s ∧ next = ⟨.colon, .object reversed s :: stack⟩ := by
  unfold Reader.stepKey at hstep
  cases symbol with
  | text s =>
      rw [show token.lexeme = _ from hread] at hstep
      cases hstep
      exact ⟨s, rfl, rfl⟩
  | number n =>
      obtain ⟨result, hlexeme, -⟩ := hread
      rw [hlexeme] at hstep
      cases hstep
  | _ =>
      rw [show token.lexeme = _ from hread] at hstep
      cases hstep

/-- Brackets, braces, colons and commas are read only where they stand. -/
lemma eq_of_isRead (other : Symbol) {lexeme : Lexeme} (h : symbol.IsRead lexeme)
    (hother : other.IsRead lexeme)
    (hmark : other = .closeBrace ∨ other = .closeBracket ∨ other = .colon ∨ other = .comma) :
    symbol = other := by
  rcases hmark with rfl | rfl | rfl | rfl
  all_goals
    cases hother
    cases symbol with
    | number n =>
        obtain ⟨_, h, -⟩ := h
        cases h
    | _ => first | rfl | cases h

lemma step_value_ok (h : Reader.step limit ⟨.value, stack⟩ token = .ok next) :
    Reader.stepValue limit stack token = .ok next := by
  obtain ⟨lexeme, start, pointed, stop⟩ := token
  cases lexeme with
  | closeBracket =>
      rcases stack with _ | ⟨_ | _, _⟩
      all_goals cases h
  | _ => exact h

lemma step_firstItem_ok (h : Reader.step limit ⟨.firstItem, stack⟩ token = .ok next) :
    token.lexeme = .closeBracket ∧ next = Reader.complete (.ofItems []) (stack.drop 1) ∨
      Reader.stepValue limit stack token = .ok next := by
  obtain ⟨lexeme, start, pointed, stop⟩ := token
  cases lexeme with
  | closeBracket =>
      cases h
      exact .inl ⟨rfl, rfl⟩
  | _ => exact .inr h

lemma step_firstKey_ok (h : Reader.step limit ⟨.firstKey, stack⟩ token = .ok next) :
    token.lexeme = .closeBrace ∧ next = Reader.complete (.ofMembers []) (stack.drop 1) ∨
      Reader.stepKey stack token = .ok next := by
  obtain ⟨lexeme, start, pointed, stop⟩ := token
  cases lexeme with
  | closeBrace =>
      cases h
      exact .inl ⟨rfl, rfl⟩
  | _ => exact .inr h

lemma step_key_ok (h : Reader.step limit ⟨.key, stack⟩ token = .ok next) :
    Reader.stepKey stack token = .ok next := by
  obtain ⟨lexeme, start, pointed, stop⟩ := token
  cases lexeme with
  | closeBrace => cases h
  | _ => exact h

lemma step_colon_ok (h : Reader.step limit ⟨.colon, stack⟩ token = .ok next) :
    token.lexeme = .colon ∧ next = ⟨.value, stack⟩ := by
  obtain ⟨lexeme, start, pointed, stop⟩ := token
  cases lexeme with
  | colon =>
      cases h
      exact ⟨rfl, rfl⟩
  | _ => cases h

lemma step_items_ok {reversed : List Json}
    (h : Reader.step limit ⟨.separator, .array reversed :: stack⟩ token = .ok next) :
    token.lexeme = .comma ∧ next = ⟨.value, .array reversed :: stack⟩ ∨
      token.lexeme = .closeBracket ∧
        next = Reader.complete (.ofItems reversed.reverse) stack := by
  obtain ⟨lexeme, start, pointed, stop⟩ := token
  cases lexeme with
  | comma =>
      cases h
      exact .inl ⟨rfl, rfl⟩
  | closeBracket =>
      cases h
      exact .inr ⟨rfl, rfl⟩
  | _ => cases h

lemma step_members_ok {reversed : List (String × Json)} {key : String}
    (h : Reader.step limit ⟨.separator, .object reversed key :: stack⟩ token = .ok next) :
    token.lexeme = .comma ∧ next = ⟨.key, .object reversed key :: stack⟩ ∨
      token.lexeme = .closeBrace ∧
        next = Reader.complete (.ofMembers reversed.reverse) stack := by
  obtain ⟨lexeme, start, pointed, stop⟩ := token
  cases lexeme with
  | comma =>
      cases h
      exact .inl ⟨rfl, rfl⟩
  | closeBrace =>
      cases h
      exact .inr ⟨rfl, rfl⟩
  | _ => cases h

/-- **One symbol.** It completes a part, opens an array or object, or stands between parts. -/
lemma Passed.step (h : Passed reader front) (hread : symbol.IsRead token.lexeme)
    (hstep : reader.step limit token = .ok next) : Passed next (front ++ [symbol]) := by
  have hitems : Kept (.array []) .openBracket [] := .array [] (List.forall_mem_nil _)
  have hmembers : ∀ key, Kept (.object [] key) .openBrace [] := .object [] (List.forall_mem_nil _)
  cases h with
  | value hopened => exact hopened.stepValue hread (step_value_ok hstep)
  | firstItem hopened =>
      rcases step_firstItem_ok hstep with ⟨hlexeme, rfl⟩ | hvalue
      · obtain rfl := eq_of_isRead .closeBracket hread hlexeme (by simp)
        rw [List.append_assoc]
        exact hopened.complete hitems.closeArray
      · exact (hopened.array hitems).stepValue hread hvalue
  | @firstKey _ _ key hopened =>
      rcases step_firstKey_ok hstep with ⟨hlexeme, rfl⟩ | hkey
      · obtain rfl := eq_of_isRead .closeBrace hread hlexeme (by simp)
        rw [List.append_assoc]
        exact hopened.complete (hmembers key).closeObject
      · obtain ⟨s, rfl, rfl⟩ := stepKey_ok hread hkey
        rw [List.append_assoc]
        exact .colon (hmembers s) hopened
  | key hkept hopened =>
      obtain ⟨s, rfl, rfl⟩ := stepKey_ok hread (step_key_ok hstep)
      rw [List.append_assoc, List.cons_append]
      exact .colon (hkept.rekey s) hopened
  | colon hkept hopened =>
      obtain ⟨hlexeme, rfl⟩ := step_colon_ok hstep
      obtain rfl := eq_of_isRead .colon hread hlexeme (by simp)
      rw [List.append_assoc, List.cons_append, List.append_assoc]
      exact .value (hopened.object hkept)
  | @separator _ _ frame _ _ hkept hne hopened =>
      rw [List.append_assoc, List.cons_append]
      cases frame with
      | array items =>
          rcases step_items_ok hstep with ⟨hlexeme, rfl⟩ | ⟨hlexeme, rfl⟩
          · obtain rfl := eq_of_isRead .comma hread hlexeme (by simp)
            rw [commaSeparated_comma hne]
            exact .value (hopened.array hkept)
          · obtain rfl := eq_of_isRead .closeBracket hread hlexeme (by simp)
            exact hopened.complete hkept.closeArray
      | object members key =>
          rcases step_members_ok hstep with ⟨hlexeme, rfl⟩ | ⟨hlexeme, rfl⟩
          · obtain rfl := eq_of_isRead .comma hread hlexeme (by simp)
            rw [commaSeparated_comma hne]
            exact .key hkept hopened
          · obtain rfl := eq_of_isRead .closeBrace hread hlexeme (by simp)
            exact hopened.complete hkept.closeObject
  | nothing hwritten => cases hstep

/-- The rest of a text: all of its symbols come to belong to the value. -/
lemma Passed.run {tokens : List Token} {finish : Place} (h : Passed reader front)
    (hread : List.Forall₂ (fun symbol token => Symbol.IsRead symbol token.lexeme) symbols tokens)
    (hrun : reader.run limit finish tokens = .ok v) : WrittenAs v (front ++ symbols) := by
  induction hread generalizing reader front with
  | nil =>
      rw [List.append_nil]
      cases h with
      | nothing hwritten =>
          cases hrun
          exact hwritten
      | @separator _ _ frame => cases frame <;> cases hrun
      | _ => cases hrun
  | @cons symbol token symbols tokens hsymbol _ ih =>
      rw [Reader.run] at hrun
      split at hrun
      · cases hrun
      · rename_i next hstep
        rw [List.append_cons]
        exact ih (h.step hsymbol hstep) hrun

/-- A token that is passed can be read. -/
lemma not_broken_of_step (hstep : reader.step limit token = .ok next) :
    token.lexeme.isBroken = false := by
  obtain ⟨expecting, stack⟩ := reader
  obtain ⟨lexeme, start, pointed, stop⟩ := token
  have hunread : ∀ lexeme : Lexeme,
      (lexeme = .stray ∨ ∃ e, lexeme = .text (.error e) ∨ lexeme = .literal (.error e)) →
      Reader.step limit ⟨expecting, stack⟩ ⟨lexeme, start, pointed, stop⟩ ≠ .ok next := by
    rintro _ (rfl | ⟨e, rfl | rfl⟩) h
    all_goals
      cases expecting
      all_goals rcases stack with _ | ⟨_ | _, _⟩
      all_goals cases h
  cases lexeme with
  | text content =>
      cases content with
      | error e => exact absurd hstep (hunread _ (.inr ⟨e, .inl rfl⟩))
      | ok s => rfl
  | literal content =>
      cases content with
      | error e => exact absurd hstep (hunread _ (.inr ⟨e, .inr rfl⟩))
      | ok v => rfl
  | stray => exact absurd hstep (hunread _ (.inl rfl))
  | _ => rfl

lemma not_broken_of_run {tokens : List Token} {finish : Place}
    (hrun : reader.run limit finish tokens = .ok v) :
    ∀ token ∈ tokens, token.lexeme.isBroken = false := by
  induction tokens generalizing reader with
  | nil => exact List.forall_mem_nil _
  | cons token tokens ih =>
      rw [Reader.run] at hrun
      split at hrun
      · cases hrun
      · rename_i next hstep
        exact List.forall_mem_cons.mpr ⟨not_broken_of_step hstep, ih hrun⟩

end Passed

/-- **What is read from a text is written in it.** Only white space comes after it. -/
lemma exists_written_of_ofText {limit : ℕ} {text : String} {v : Json}
    (h : ofText limit text = .ok v) :
    ∃ symbols, WrittenAs v symbols ∧ Lexes [] text.toList symbols := by
  obtain ⟨symbols, hlexes, hread⟩ := exists_lexes .start text.toList (not_broken_of_run h)
  exact ⟨symbols, (Passed.value .nil).run hread h, hlexes⟩

end JsonTypes.Json
