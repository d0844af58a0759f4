/-
Computations that leave a trace.

* `Event`: what the walk over definitions and the check of values report, with
  the level, the message and the named values of its log line.
* `Traced`: events in order beside a result. A failing computation keeps the
  events up to the failure.
* `Traced.bind`, with `do` notation: events are appended, the first failure ends
  the computation. `Traced.thread` and `Traced.forEach` run over lists.
* `Traced.shown`: the events are shown or not; the result is the same.
-/
import JsonTypes.Ty.Text

namespace JsonTypes

/-! ### Events -/

/-- One report. -/
inductive Event where
  /-- An instance is expanded by the walk over definitions, below `depth` others. -/
  | expanding (i : Instance) (depth : Nat)
  /-- An instance is met while it is being expanded. -/
  | inProgress (i : Instance)
  /-- A definition has been found well-formed. -/
  | wellFormed (description : Description)
  /-- An instance is expanded by the check of a value. -/
  | expandingForCheck (i : Instance)
  /-- A check has failed. -/
  | failed (type : Ty) (error : CheckError)

namespace Event

/-- The level of a report. -/
def level : Event → String
  | expandingForCheck _ => "TRACE"
  | _ => "DEBUG"

/-- The message of a report. -/
def message : Event → String
  | expanding .. => "expanding"
  | inProgress _ => "already in progress"
  | wellFormed _ => "definition is well-formed"
  | expandingForCheck _ => "expanding for check"
  | failed _ error => error.message

/-- The named values of a report. -/
def values : Event → List (String × String)
  | expanding i depth => [("instance", i.text), ("depth", toString depth)]
  | inProgress i | expandingForCheck i => [("instance", i.text)]
  | wellFormed description => [("definition", description.text)]
  | failed type error => [("ty", type.text), ("kind", error.tag.text)]

end Event

/-! ### Traced computations -/

/-- A result beside the events that led to it. -/
structure Traced (ε α : Type) where
  events : List Event
  result : Except ε α

namespace Traced

variable {ε α β : Type}

/-- A result without events. -/
def of (result : Except ε α) : Traced ε α := ⟨[], result⟩

/-- A failure without events. -/
def fail (error : ε) : Traced ε α := ⟨[], .error error⟩

/-- One event. -/
def report (event : Event) : Traced ε Unit := ⟨[event], .ok ()⟩

/-- One computation after another. -/
def bind (first : Traced ε α) (next : α → Traced ε β) : Traced ε β :=
  match first.result with
  | .error error => ⟨first.events, .error error⟩
  | .ok a =>
    let rest := next a
    ⟨first.events ++ rest.events, rest.result⟩

instance : Monad (Traced ε) where
  pure a := ⟨[], .ok a⟩
  bind := bind

/-- The same computation with another account of its failure. -/
def mapError {ε' : Type} (f : ε → ε') (run : Traced ε α) : Traced ε' α :=
  ⟨run.events, run.result.mapError f⟩

/-- Runs over a list in order, handing a state on, until one run fails. -/
def thread {ι : Type} (run : ι → α → Traced ε α) : List ι → α → Traced ε α
  | [], state => pure state
  | i :: rest, state => (run i state).bind (thread run rest)

/-- Runs over a list in order until one run fails. -/
def forEach {ι : Type} (run : ι → Traced ε Unit) : List ι → Traced ε Unit
  | [] => pure ()
  | i :: rest => (run i).bind fun _ => forEach run rest

/-- The same computation with its events shown or not. -/
def shown (visible : Bool) (run : Traced ε α) : Traced ε α :=
  if visible then run else ⟨[], run.result⟩

end Traced

end JsonTypes
