/-
The grammar of written types.

A written type is a name, which a parenthesis with any number of written types may
follow, separated by commas. The machine that reads symbols accepts the sentences of this
grammar and nothing else, and yields the tree of the sentence.

* `Sentence`, `Arguments`: the grammar, with the tree of each sentence.
* `Last.Holds`: what has been read last is a tree; a bare name is one without arguments.
* `ReadsAs`, `Sentence.readsAs`: a sentence is read as its tree, wherever a type may stand.
* `Begun`, `Awaits`, `Reading.Follows`: the symbols behind which the machine is in a state:
  the open applications, their arguments so far, and what has been read last.
* `Reading.Follows.step`, `Reading.Follows.advance`: one symbol, and several.
* `Reading.accepts_iff`: the machine accepts exactly the sentences.
* `Sentence.unique`: a sentence has one tree.
* `Expr.ofText_ok_iff`: the trees of texts.
-/
import JsonTypes.Proofs.WrittenSymbols

namespace JsonTypes.TypeText

/-! ### The grammar -/

mutual

/-- The symbols form a written type, with the tree. -/
inductive Sentence : List Symbol → Expr → Prop where
  | bare (head : String) : Sentence [.name head] (.apply head [])
  | empty (head : String) : Sentence [.name head, .opening, .closing] (.apply head [])
  | apply (head : String) {inner : List Symbol} {args : List Expr}
      (arguments : Arguments inner args) :
      Sentence (.name head :: .opening :: (inner ++ [.closing])) (.apply head args)

/-- The symbols form written types with commas between them, with the trees. -/
inductive Arguments : List Symbol → List Expr → Prop where
  | single {symbols : List Symbol} {e : Expr} (first : Sentence symbols e) :
      Arguments symbols [e]
  | more {symbols later : List Symbol} {e : Expr} {args : List Expr}
      (first : Sentence symbols e) (others : Arguments later args) :
      Arguments (symbols ++ .comma :: later) (e :: args)

end

/-- One more argument at the end. -/
lemma Arguments.concat {inner symbols : List Symbol} {args : List Expr} {e : Expr}
    (h : Arguments inner args) (he : Sentence symbols e) :
    Arguments (inner ++ .comma :: symbols) (args ++ [e]) := by
  induction args generalizing inner with
  | nil => cases h
  | cons first args ih =>
      cases h with
      | single hfirst => exact .more hfirst (.single he)
      | more hfirst hothers =>
          rw [List.append_assoc]
          exact .more hfirst (ih hothers)

/-! ### Reading sentences -/

/-- What has been read last is the tree; a name may still get arguments. -/
inductive Last.Holds : Last → Expr → Prop where
  | name (head : String) : Holds (.name head) (.apply head [])
  | type (e : Expr) : Holds (.type e) e

namespace Last.Holds

variable {last : Last} {e : Expr}

lemma step_comma (h : last.Holds e) (a : OpenApplication) (outer : List OpenApplication) :
    Reading.step ⟨last, a :: outer⟩ .comma = .ok ⟨.nothing, ⟨a.head, a.args ++ [e]⟩ :: outer⟩ := by
  cases h <;> rfl

lemma step_closing (h : last.Holds e) (a : OpenApplication) (outer : List OpenApplication) :
    Reading.step ⟨last, a :: outer⟩ .closing = .ok ⟨.type (a.close [e]), outer⟩ := by
  cases h <;> rfl

lemma finish (h : last.Holds e) : Reading.finish ⟨last, []⟩ = .ok e := by
  cases h <;> rfl

end Last.Holds

/-- A type may stand next. -/
def Last.IsAwaiting (last : Last) : Prop :=
  last = .nothing ∨ last = .opening

lemma Last.IsAwaiting.step_name {last : Last} (h : last.IsAwaiting) (head : String)
    (stack : List OpenApplication) :
    Reading.step ⟨last, stack⟩ (.name head) = .ok ⟨.name head, stack⟩ := by
  rcases h with rfl | rfl <;> rfl

/-- The symbols are read as the tree wherever a type may stand: what was open before is
open afterwards. -/
def ReadsAs (symbols : List Symbol) (e : Expr) : Prop :=
  ∀ awaiting stack, awaiting.IsAwaiting →
    ∃ last, last.Holds e ∧ Reading.advance ⟨awaiting, stack⟩ symbols = .ok ⟨last, stack⟩

/-- Behind an opening parenthesis, or a comma, the symbols are read as the remaining
arguments of the innermost application, which a closing parenthesis completes. -/
def ReadAsArguments (inner : List Symbol) (args : List Expr) : Prop :=
  ∀ awaiting a outer, awaiting.IsAwaiting →
    Reading.advance ⟨awaiting, a :: outer⟩ (inner ++ [.closing]) =
      .ok ⟨.type (a.close args), outer⟩

/-- **A sentence is read as its tree.** -/
lemma Sentence.readsAs {symbols : List Symbol} {e : Expr} (h : Sentence symbols e) :
    ReadsAs symbols e := by
  induction h using Sentence.rec (motive_2 := fun inner args _ => ReadAsArguments inner args) with
  | bare head =>
      intro awaiting stack hawaiting
      refine ⟨.name head, .name head, ?_⟩
      rw [Reading.advance_cons (hawaiting.step_name head stack)]
      rfl
  | empty head =>
      intro awaiting stack hawaiting
      refine ⟨.type (.apply head []), .type _, ?_⟩
      rw [Reading.advance_cons (hawaiting.step_name head stack)]
      rfl
  | @apply head inner args _ ih =>
      intro awaiting stack hawaiting
      have hopen : Reading.step ⟨.name head, stack⟩ .opening =
          .ok ⟨.opening, ⟨head, []⟩ :: stack⟩ := rfl
      refine ⟨.type (.apply head args), .type _, ?_⟩
      rw [Reading.advance_cons (hawaiting.step_name head stack), Reading.advance_cons hopen,
        ih .opening ⟨head, []⟩ stack (Or.inr rfl)]
      rfl
  | @single symbols e _ ih =>
      intro awaiting a outer hawaiting
      obtain ⟨last, hlast, hread⟩ := ih awaiting (a :: outer) hawaiting
      rw [Reading.advance_append hread, Reading.advance_cons (hlast.step_closing a outer)]
      rfl
  | @more symbols later e args _ _ ihfirst ihothers =>
      intro awaiting a outer hawaiting
      obtain ⟨last, hlast, hread⟩ := ihfirst awaiting (a :: outer) hawaiting
      have hothers := ihothers .nothing ⟨a.head, a.args ++ [e]⟩ outer (Or.inl rfl)
      rw [List.append_assoc, Reading.advance_append hread, List.cons_append,
        Reading.advance_cons (hlast.step_comma a outer), hothers, OpenApplication.close,
        OpenApplication.close, List.append_assoc]
      rfl

/-! ### The symbols behind a state -/

/-- The symbols between the parenthesis of an application and the place where the next
argument may stand, with the arguments before that place. -/
inductive Begun : List Symbol → List Expr → Last → Prop where
  | opening : Begun [] [] .opening
  | comma {inner : List Symbol} {args : List Expr} (arguments : Arguments inner args) :
      Begun (inner ++ [.comma]) args .nothing

/-- With one more argument the arguments are a list of arguments. -/
lemma Begun.arguments {inner symbols : List Symbol} {args : List Expr} {awaiting : Last}
    {e : Expr} (h : Begun inner args awaiting) (he : Sentence symbols e) :
    Arguments (inner ++ symbols) (args ++ [e]) := by
  cases h with
  | opening => exact .single he
  | comma harguments =>
      rw [List.append_assoc]
      exact harguments.concat he

/-- The symbols that lead to a place where a type may stand, inside the open
applications. -/
inductive Awaits : List Symbol → Last → List OpenApplication → Prop where
  | start : Awaits [] .nothing []
  | inside {before inner : List Symbol} {outside awaiting : Last} {outer : List OpenApplication}
      (head : String) {args : List Expr} (h : Awaits before outside outer)
      (begun : Begun inner args awaiting) :
      Awaits (before ++ .name head :: .opening :: inner) awaiting (⟨head, args⟩ :: outer)

/-- The symbols that lead to a state of the machine. -/
inductive Reading.Follows : List Symbol → Reading → Prop where
  | awaiting {before : List Symbol} {last : Last} {stack : List OpenApplication}
      (h : Awaits before last stack) : Follows before ⟨last, stack⟩
  | name {before : List Symbol} {last : Last} {stack : List OpenApplication} (head : String)
      (h : Awaits before last stack) : Follows (before ++ [.name head]) ⟨.name head, stack⟩
  | type {before symbols : List Symbol} {last : Last} {stack : List OpenApplication} {e : Expr}
      (h : Awaits before last stack) (sentence : Sentence symbols e) :
      Follows (before ++ symbols) ⟨.type e, stack⟩

namespace Reading.Follows

variable {consumed : List Symbol} {reading next : Reading} {symbol : Symbol}

/-- A comma behind a type begins the next argument, a closing parenthesis completes the
innermost application. -/
lemma afterType {before symbols : List Symbol} {last : Last} {stack : List OpenApplication}
    {e : Expr} (h : Awaits before last stack) (he : Sentence symbols e)
    (hstep : Reading.afterType e stack symbol = .ok next) :
    Follows (before ++ symbols ++ [symbol]) next := by
  cases h with
  | start => cases hstep
  | @inside before inner outside _ outer head args houter hbegun =>
      have harguments := hbegun.arguments he
      cases symbol with
      | comma =>
          cases hstep
          have hnext := Awaits.inside head houter (.comma harguments)
          simpa using Follows.awaiting hnext
      | closing =>
          cases hstep
          have hnext := Follows.type houter (.apply head harguments)
          simpa [OpenApplication.close] using hnext
      | name | opening => cases hstep

/-- **One symbol.** -/
lemma step (h : Follows consumed reading) (hstep : reading.step symbol = .ok next) :
    Follows (consumed ++ [symbol]) next := by
  cases h with
  | @awaiting _ last stack h =>
      cases last with
      | nothing =>
          cases symbol <;> cases hstep
          exact .name _ h
      | opening =>
          cases symbol with
          | name head =>
              cases hstep
              exact .name head h
          | closing =>
              cases h with
              | inside head houter hbegun =>
                  cases hbegun
                  cases hstep
                  simpa [OpenApplication.close] using Follows.type houter (.empty head)
          | opening | comma => cases hstep
      | name head => cases h with | inside _ _ hbegun => cases hbegun
      | type e => cases h with | inside _ _ hbegun => cases hbegun
  | @name before last stack head h =>
      cases symbol with
      | opening =>
          cases hstep
          simpa using Follows.awaiting (.inside head h .opening)
      | name | closing | comma => exact afterType h (.bare head) hstep
  | type h hsentence => exact afterType h hsentence hstep

/-- **Several symbols.** -/
lemma advance {symbols : List Symbol} (h : Follows consumed reading)
    (hadvance : reading.advance symbols = .ok next) : Follows (consumed ++ symbols) next := by
  induction symbols generalizing consumed reading with
  | nil =>
      cases hadvance
      rwa [List.append_nil]
  | cons symbol rest ih =>
      rw [Reading.advance, List.foldlM_cons, except_bind_ok] at hadvance
      obtain ⟨between, hstep, hrest⟩ := hadvance
      have hfollows := ih (h.step hstep) hrest
      rwa [List.append_assoc] at hfollows

/-- At the end no application is open, so the symbols are a sentence. -/
lemma finish {e : Expr} (h : Follows consumed reading) (hfinish : reading.finish = .ok e) :
    Sentence consumed e := by
  cases h with
  | @awaiting _ last stack h =>
      cases h with
      | start => cases hfinish
      | inside _ _ hbegun => cases hbegun <;> cases hfinish
  | name head h =>
      cases h with
      | start =>
          cases hfinish
          exact .bare head
      | inside => cases hfinish
  | type h hsentence =>
      cases h with
      | start =>
          cases hfinish
          exact hsentence
      | inside => cases hfinish

end Reading.Follows

/-! ### Sentences and trees -/

/-- **The machine accepts exactly the sentences**, with their trees. -/
lemma Reading.accepts_iff {symbols : List Symbol} {e : Expr} :
    (∃ last, Reading.start.advance symbols = .ok last ∧ last.finish = .ok e) ↔
      Sentence symbols e := by
  constructor
  · rintro ⟨last, hadvance, hfinish⟩
    have hstart : Reading.Follows [] Reading.start := .awaiting .start
    exact (hstart.advance hadvance).finish hfinish
  · intro h
    obtain ⟨last, hlast, hadvance⟩ := h.readsAs .nothing [] (Or.inl rfl)
    exact ⟨⟨last, []⟩, hadvance, hlast.finish⟩

/-- A sentence has one tree. -/
lemma Sentence.unique {symbols : List Symbol} {e e' : Expr} (h : Sentence symbols e)
    (h' : Sentence symbols e') : e' = e := by
  obtain ⟨last, hadvance, hfinish⟩ := Reading.accepts_iff.mpr h
  obtain ⟨last', hadvance', hfinish'⟩ := Reading.accepts_iff.mpr h'
  rw [hadvance] at hadvance'
  cases hadvance'
  rw [hfinish] at hfinish'
  cases hfinish'
  rfl

/-- **The trees of texts.** A text has a tree if and only if it consists of the symbols of
a sentence, and the tree is the one of the sentence. -/
lemma Expr.ofText_ok_iff {text : String} {e : Expr} :
    Expr.ofText text = .ok e ↔ ∃ symbols, Consists text.toList symbols ∧ Sentence symbols e := by
  rw [ofText, except_bind_ok]
  constructor
  · rintro ⟨tokens, hscan, hrun⟩
    have haccepts := Reading.run_ok.mp hrun
    exact ⟨_, exists_scan_iff.mp ⟨tokens, hscan, rfl⟩, Reading.accepts_iff.mp haccepts⟩
  · rintro ⟨symbols, hconsists, hsentence⟩
    obtain ⟨tokens, hscan, rfl⟩ := exists_scan_iff.mpr hconsists
    exact ⟨tokens, hscan, Reading.run_ok.mpr (Reading.accepts_iff.mpr hsentence)⟩

end JsonTypes.TypeText
