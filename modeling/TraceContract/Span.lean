import TraceContract.Process.Emit
import TraceContract.Time.Elapsed

/-!
# Timed spans

A span writes a record when it begins and one when it is closed, with the time between.  A span
that is let go without being closed is closed then; what fails at that point can only be
complained of, unless no program survives it.  A span can be moved into a new one, which then is the
one to close.

- `Surroundings` is what spans ask of the world that they live in; `Span.beginIn`,
  `Span.closeIn`, `Span.releaseIn` and `Trace.startIn` are what is done with a span in any such
  world.
- `Span.begin` and `Trace.start` begin a span in a process, `Span.close` closes it and
  `Span.release` lets it go.
- `Span.leftover` is what a span is after it was moved.
-/

namespace TraceContract

structure Span where
  /-- Where its records go; a span without a sink is silent. -/
  sink : Option Handle
  logger : Text
  name : Text
  fields : Fields
  level : Level
  started : Int
  /-- The milliseconds from the beginning to the close. -/
  elapsed : Int := 0
  closed : Bool := false

/-- What spans need of the world that they live in. -/
structure Surroundings (σ : Type) where
  emit : σ → Handle → Text → Record → σ × Except Failure Unit
  /-- The clock that durations are measured by. -/
  clock : σ → Int
  /-- Writes to the error output. -/
  complain : σ → Text → σ

def Process.surroundings : Surroundings Process where
  emit := Process.emit
  clock := Process.ticks
  complain p text := p.saw [.complained text]

namespace Span

def record (s : Span) (message : Text) : Record :=
  { message := message, fields := s.fields, level := s.level }

/-- The message of the record at the beginning. -/
def opening (s : Span) : Text := s.name ++ ascii " [+]"

/-- The message of the record at the close. -/
def closing (s : Span) : Text := s.name ++ ascii " [" ++ Elapsed.text s.elapsed ++ ascii "]"

/-- The line that says why a span could not be closed. -/
def complaintOf (s : Span) (reason : Text) : Text :=
  ascii "[LunarTrace][Activity] failed to emit closing record for " ++
    Text.quoted s.name.terminated ++ ascii ": " ++ reason ++ ascii "\n"

/-- What is said of a failure by which a span could not be closed.  Of one that is the end of the
program nothing can be said, and what an exception without a message is made into is not
defined. -/
def complaint (s : Span) : Failure → Except Failure Text
  | .absent | .outside .foreign => .ok (s.complaintOf (ascii "unknown exception"))
  | .endless => .error .endless
  | failure =>
    match failure.shown? with
    | some reason => .ok (s.complaintOf reason)
    | none => .error .undefined

/-! ## In any surroundings -/

section

variable {σ : Type} (around : Surroundings σ)

/-- Gives a record of the span to its sink; a span without one, or of no level, is silent. -/
def emitIn (w : σ) (s : Span) (message : Text) : σ × Except Failure Unit :=
  match s.sink with
  | none => (w, .ok ())
  | some h => if s.level = .none then (w, .ok ()) else around.emit w h s.logger (s.record message)

/-- Begins a span.  There is none where its first record is refused. -/
def beginIn (w : σ) (sink : Option Handle) (logger name : Text) (fields : Fields)
    (level : Level) : σ × Except Failure Span :=
  let s : Span := { sink, logger, name, fields, level, started := around.clock w }
  match s.emitIn around w s.opening with
  | (w, .error failure) => (w, .error failure)
  | (w, .ok ()) => (w, .ok s)

/-- Closes a span that is open.  It is closed even where its last record is refused. -/
def closeIn (w : σ) (s : Span) : σ × Span × Except Failure Unit :=
  if s.closed then (w, s, .ok ())
  else
    let s := { s with
      closed := true, elapsed := Elapsed.ofNanoseconds (around.clock w - s.started) }
    let (w, outcome) := s.emitIn around w s.closing
    (w, s, outcome)

/-- Lets a span go, closing it if it is open.  It fails only with what is the end of the
program. -/
def releaseIn (w : σ) (s : Span) : σ × Except Failure Unit :=
  match s.closeIn around w with
  | (w, _, .ok ()) => (w, .ok ())
  | (w, _, .error failure) =>
    match s.complaint failure with
    | .error fatal => (w, .error fatal)
    | .ok text => (around.complain w text, .ok ())

end

/-! ## In a process -/

def begin (p : Process) (sink : Option Handle) (logger name : Text) (fields : Fields)
    (level : Level) : Process × Except Failure Span :=
  beginIn Process.surroundings p sink logger name fields level

def close (p : Process) (s : Span) : Process × Span × Except Failure Unit :=
  s.closeIn Process.surroundings p

def release (p : Process) (s : Span) : Process × Except Failure Unit :=
  s.releaseIn Process.surroundings p

/-- What is left of a span that was moved: it counts as closed and has nothing to write to. -/
def leftover (s : Span) : Span :=
  { s with sink := none, logger := [], name := [], fields := [], closed := true }

end Span

namespace Trace

/-- Begins the span of a call in any surroundings; an operation that never writes gives a silent
one. -/
def startIn {σ : Type} (around : Surroundings σ) (w : σ) (t : Trace) (name : Text)
    (arguments : List Value) : σ × Except Failure Span :=
  match t.prepare true name arguments with
  | .error failure => (w, .error failure)
  | .ok none => Span.beginIn around w none t.owner name [] .none
  | .ok (some r) => Span.beginIn around w (some t.sink) t.owner r.message r.fields r.level

def start (p : Process) (t : Trace) (name : Text) (arguments : List Value) :
    Process × Except Failure Span :=
  startIn Process.surroundings p t name arguments

end Trace

end TraceContract
