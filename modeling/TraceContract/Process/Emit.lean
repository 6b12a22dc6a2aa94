import TraceContract.Process.Basic

/-!
# The way of a record

A deferred adapter asks the factory for its sink when the first record comes, and keeps the answer
for good.  While the factory runs it may log, even through the adapter that is waiting for it; such
a record has nowhere to go and is dropped.  Where the factory fails, the failure is that of the
record that made it run, and the next record tries again.  A factory may give an adapter to itself,
or adapters to one another; a record that comes into such a ring goes round without end.

- `Process.emit` gives a record to an adapter.
- `Process.resolve` asks the current factory, or takes the house hub where there is none.
- `Trace.log` logs a call.
-/

namespace TraceContract

namespace Process

/-! ## Asking for a sink -/

/-- How a record is given to an adapter. -/
abbrev Emit := Process → Handle → Text → Record → Process × Except Failure Unit

/-- An errand, its record going out through `emit`. -/
def runErrand (emit : Emit) (p : Process) : Errand → Process × Except Failure Unit
  | .log trace operation arguments => trace.logVia emit p operation arguments
  | .emit sink logger r => emit p sink logger r
  | .fail failure => (p, .error failure)

/-- The errands of a factory, until one of them fails. -/
def runErrands (emit : Emit) : List Errand → Process → Process × Except Failure Unit
  | [], p => (p, .ok ())
  | errand :: rest, p =>
    match runErrand emit p errand with
    | (p, .error failure) => (p, .error failure)
    | (p, .ok ()) => runErrands emit rest p

/-- Asks the installed factory for the sink of a logger, the records of its errands going out
through `emit`. -/
def resolveVia (emit : Emit) (p : Process) (logger : Text) : Process × Except Failure Handle :=
  match p.factory with
  | none => (p, .ok house)
  | some (.constant sink) => (p, .ok sink)
  | some (.outside f) =>
    let p := { p with factory := some (.outside f.called) }
    match runErrands emit f.errands (p.saw [.asked f.label logger]) with
    | (p, .error failure) => (p, .error failure)
    | (p, .ok ()) => (p, f.sinkFor logger)

/-! ## Giving a record to an adapter -/

/-- What an adapter's own step leaves behind. -/
def absorb {σ : Type} (p : Process) (h : Handle) (keep : σ → Adapter) (r : Effect σ Failure) :
    Process × Except Failure Unit :=
  ((p.put h (keep r.state)).saw r.events,
    match r.stopped with
    | some failure => .error failure
    | none => .ok ())

/-- Gives a record to an adapter.  `depth` bounds how many adapters may wait for one another; a
record that goes further goes in a ring and never comes to an end. -/
def emitWithin : (depth : Nat) → Emit
  | 0, p, _, _, _ => (p, .error .endless)
  | depth + 1, p, h, logger, r =>
    match p.adapters[h]? with
    | none | some .discard => (p, .ok ())
    | some (.recorder c) => p.absorb h .recorder (c.emit logger r)
    | some (.hub hub) => p.absorb h .hub (hub.emit p.now logger r)
    | some (.deferred _ .resolving) => (p, .ok ())
    | some (.deferred _ (.settled target)) => emitWithin depth p target logger r
    | some (.deferred name .open) =>
      match resolveVia (emitWithin depth) (p.put h (.deferred name .resolving)) name with
      | (p, .error failure) => (p.put h (.deferred name .open), .error failure)
      | (p, .ok target) =>
        emitWithin depth (p.put h (.deferred name (.settled target))) target logger r

/-- As many adapters as can wait for one another without a ring: between two that ask the factory
each may pass the record on once. -/
def depth (p : Process) : Nat := p.adapters.length * p.adapters.length + 3

/-- Gives a record to an adapter. -/
def emit : Emit := fun p h logger r => emitWithin p.depth p h logger r

/-- Asks for the sink of a logger now. -/
def resolve (p : Process) (logger : Text) : Process × Except Failure Handle :=
  resolveVia (emitWithin p.depth) p logger

end Process

/-- Logs a call of an operation that hands back nothing. -/
def Trace.log (p : Process) (t : Trace) (name : Text) (arguments : List Value) :
    Process × Except Failure Unit :=
  t.logVia Process.emit p name arguments

end TraceContract
