import TraceContract.Grading
import TraceContract.Sink

/-!
# The hub

A hub makes entries of records and hands them to its sinks in the order in which they were added.

- `Hub.emit` is the one path of a record.  A record whose level stands for nothing is refused, one
  of no severity or of too little is dropped, and all others go to every sink that accepts them
  until one of them throws.
-/

namespace TraceContract

/-- Sinks behind a common minimum. -/
structure Hub where
  minimum : Severity := .trace
  sinks : List Sink := []

namespace Hub

def addSink (h : Hub) (s : Sink) : Hub := { h with sinks := h.sinks ++ [s] }

def setMinimum (h : Hub) (minimum : Severity) : Hub := { h with minimum }

/-- The hub that there is before any other is set up: the console. -/
def house : Hub := { sinks := [.console] }

def entryOf (severity : Severity) (now : Int) (logger : Text) (r : Record) : Entry :=
  { severity := severity
    logger := logger
    message := r.message
    instant := now
    fields := r.fields
    exception := r.exception.map Exception.report }

/-- Hands an entry to each sink that accepts it, until one throws. -/
def writeAll (e : Entry) : List Sink → Effect (List Sink) Thrown
  | [] => ⟨[], [], none⟩
  | s :: rest =>
    if s.accepts e.severity then
      let r := s.write e
      match r.stopped with
      | some thrown => ⟨r.state :: rest, r.events, some thrown⟩
      | none =>
        let later := writeAll e rest
        ⟨r.state :: later.state, r.events ++ later.events, later.stopped⟩
    else
      let later := writeAll e rest
      ⟨s :: later.state, later.events, later.stopped⟩

def emit (h : Hub) (now : Int) (logger : Text) (r : Record) : Effect Hub Failure :=
  match r.level.severity with
  | .error failure => ⟨h, [], some failure⟩
  | .ok severity =>
    if severity = .off then ⟨h, [], none⟩
    else if severity.reaches h.minimum then
      let w := writeAll (entryOf severity now logger r) h.sinks
      ⟨{ h with sinks := w.state }, w.events, w.stopped.map .outside⟩
    else ⟨h, [], none⟩

end Hub

end TraceContract
