import BlockLexer.Event
import BlockLexer.Fault

/-!
# Results with events

What a run answers together with what happened on the way to it.

* `Reported.andThen` goes on with a result, and stops at a fault;
* `Reported.map` changes a result.
-/

namespace BlockLexer

/-- A result, or a fault, with the events on the way to it, the first one first. -/
structure Reported (α : Type) where
  outcome : Except Fault α
  events : List Event := []

namespace Reported

variable {α β : Type}

/-- The result that is followed by another one, unless there is a fault. -/
def andThen (r : Reported α) (f : α → Reported β) : Reported β :=
  match r.outcome with
  | .error fault => { outcome := .error fault, events := r.events }
  | .ok a =>
    let more := f a
    { outcome := more.outcome, events := r.events ++ more.events }

/-- The result changed by a function. -/
def map (f : α → β) (r : Reported α) : Reported β :=
  { outcome := r.outcome.map f, events := r.events }

@[simp] theorem outcome_andThen (r : Reported α) (f : α → Reported β) :
    (r.andThen f).outcome = r.outcome.bind fun a => (f a).outcome := by
  unfold andThen
  cases r.outcome <;> rfl

@[simp] theorem outcome_map (f : α → β) (r : Reported α) :
    (r.map f).outcome = r.outcome.map f := rfl

end Reported

end BlockLexer
