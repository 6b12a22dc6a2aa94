import TraceContract.Event

/-!
# Sinks

A sink takes entries.  The console lays them out and writes the lines to its outlet; a callback
gets the entry itself, or its line.

- `Sink.accepts` is the sink's own choice by severity, which is asked by the hub.
- `Sink.write` hands over an entry whatever its severity.
-/

namespace TraceContract

/-- Where a console writes its lines. -/
inductive Outlet where
  | standard
  | named (label : Text)
  deriving DecidableEq

/-- A function of somebody else that is called with entries or lines. -/
structure Callback where
  label : Text
  /-- What the call of a number, counted from 0, throws. -/
  refusal : Nat → Option Thrown := fun _ => none
  calls : Nat := 0

namespace Callback

def steady (label : Text) : Callback := { label }

def failing (label : Text) (thrown : Thrown) : Callback := { label, refusal := fun _ => some thrown }

/-- A call, seen by the outside as `event` says. -/
def call (c : Callback) (event : Option Thrown → Event) : Effect Callback Thrown :=
  ⟨{ c with calls := c.calls + 1 }, [event (c.refusal c.calls)], c.refusal c.calls⟩

end Callback

/-- What a sink does with an entry. -/
inductive Delivery where
  | console
  | entries (callback : Option Callback)
  | lines (callback : Option Callback)

structure Sink where
  delivery : Delivery
  layout : Option Layout := none
  outlet : Option Outlet := none
  minimum : Severity := .trace

namespace Sink

/-- The console: plain lines to the standard output. -/
def console : Sink := { delivery := .console, layout := some .plain, outlet := some .standard }

def ofEntryCallback (callback : Option Callback) : Sink := { delivery := .entries callback }

/-- A sink that calls back with lines, laid out as members unless another layout is given. -/
def ofLineCallback (host : Text) (callback : Option Callback) (layout : Option Layout := none) :
    Sink :=
  { delivery := .lines callback, layout := some (layout.getD (.anonymous host)) }

def accepts (s : Sink) (severity : Severity) : Bool :=
  severity ≠ .off && severity.reaches s.minimum

/-- A line written to an outlet, as the outside sees it. -/
def writeTo (line : Line) : Outlet → Event
  | .standard => .printed line
  | .named label => .written label line

/-- Hands an entry over.  A console without layout or outlet does nothing, nor does a sink
without its callback or with nothing to lay out lines by. -/
def write (s : Sink) (e : Entry) : Effect Sink Thrown :=
  match s.delivery with
  | .console =>
    match s.layout, s.outlet with
    | some layout, some outlet =>
      match layout.line e with
      | .error thrown => ⟨s, [], some thrown⟩
      | .ok line => ⟨s, [writeTo line outlet], none⟩
    | _, _ => ⟨s, [], none⟩
  | .entries none | .lines none => ⟨s, [], none⟩
  | .entries (some callback) =>
    let r := callback.call (.entry callback.label e)
    ⟨{ s with delivery := .entries (some r.state) }, r.events, r.stopped⟩
  | .lines (some callback) =>
    match s.layout with
    | none => ⟨s, [], none⟩
    | some layout =>
      match layout.line e with
      | .error thrown => ⟨s, [], some thrown⟩
      | .ok line =>
        let r := callback.call (.line callback.label line)
        ⟨{ s with delivery := .lines (some r.state) }, r.events, r.stopped⟩

end Sink

end TraceContract
