import TraceContract.Session.Perform

/-!
# Sessions

A session runs steps one after the other in one process.

- `Session.run` does one step and tells what the outside saw of it: records, entries and lines
  that were taken, what was printed, and what was complained of.
- `Session.runAll` does steps until one of them is the end of the program.
- `Session.finish` lets go of all spans that are left, in the order of their names.
-/

namespace TraceContract

/-- What is told of a step. -/
structure Outcome where
  answer : Answer
  /-- The contacts with the outside that were not refused, those with the standard output and the
  error output apart. -/
  events : List Event
  output : Text
  complaints : Text

namespace Event

/-- Whether the outside kept the event. -/
def isKept : Event → Bool
  | .emitted _ _ _ refusal | .entry _ _ refusal | .line _ _ refusal => refusal.isNone
  | .written _ _ | .asked _ _ => true
  | .printed _ | .complained _ => false

def printed? : Event → Option Line
  | .printed l => some l
  | _ => none

def complaint? : Event → Option Text
  | .complained t => some t
  | _ => none

end Event

namespace Session

/-- What is told of a step that began when `before` events had been seen. -/
def tell (before : Nat) (s : Session) (answer : Answer) : Outcome :=
  let events := s.process.events.drop before
  { answer := answer
    events := events.filter Event.isKept
    output := (events.filterMap Event.printed?).flatMap Line.shown
    complaints := (events.filterMap Event.complaint?).flatten }

/-- Does a step and tells what came of it. -/
def run (s : Session) (step : Step) : Session × Outcome :=
  let (after, answer) := s.perform step
  (after, tell s.process.events.length after answer)

def runAll (s : Session) : List Step → Session × List Outcome
  | [] => (s, [])
  | step :: rest =>
    let (next, outcome) := s.run step
    if outcome.answer.isFatal then (next, [outcome])
    else
      let (last, outcomes) := next.runAll rest
      (last, outcome :: outcomes)

/-- Lets go of the spans of some names, one after the other. -/
def dropAll (s : Session) : List Text → Session × Answer
  | [] => (s, .done)
  | name :: rest =>
    let (next, answer) := s.perform (.span (.drop name))
    if answer.isFatal then (next, answer) else next.dropAll rest

/-- Lets go of all spans that are left. -/
def finish (s : Session) : Session × Outcome :=
  let (after, answer) := s.dropAll s.spans.names
  (after, tell s.process.events.length after answer)

end Session

end TraceContract
