import TraceContract.Factory

/-!
# The process

All adapters of a running program, the factory that gives sinks to loggers, the clocks, and what
the outside has seen so far.

- `Process.add` and `Process.put` change the adapters.
- `Process.install`, `Process.disable` and `Process.reset` change the factory for the adapters that
  ask for their sink from then on.
-/

namespace TraceContract

/-- A running program, as far as its records are concerned. -/
structure Process where
  adapters : List Adapter := [.hub .house]
  factory : Option Factory := none
  /-- The time of day, in nanoseconds since the beginning of 1970. -/
  now : Int := 0
  /-- The clock that durations are measured by, in nanoseconds. -/
  ticks : Int := 0
  events : List Event := []

namespace Process

/-- The sink that serves where no factory is installed. -/
def house : Handle := 0

/-- The process after the outside saw more. -/
def saw (p : Process) (events : List Event) : Process := { p with events := p.events ++ events }

def put (p : Process) (h : Handle) (a : Adapter) : Process :=
  { p with adapters := p.adapters.set h a }

/-- The process with one adapter more, and its place. -/
def add (p : Process) (a : Adapter) : Process × Handle :=
  ({ p with adapters := p.adapters ++ [a] }, p.adapters.length)

/-- The process with a deferred adapter for a logger more, and its place. -/
def addDeferred (p : Process) (logger : Text) : Process × Handle := p.add (.deferred logger .open)

/-! ## Changing the factory -/

/-- Installs a factory for the adapters that resolve from now on. -/
def install (p : Process) (factory : Option Factory) : Process × Except Failure Unit :=
  match factory with
  | none => (p, .error .factoryRequired)
  | some factory => ({ p with factory := some factory }, .ok ())

/-- Lets the adapters that resolve from now on drop all records. -/
def disable (p : Process) : Process :=
  let (p, h) := p.add .discard
  { p with factory := some (.constant h) }

/-- Lets the adapters that resolve from now on use the house hub. -/
def reset (p : Process) : Process := { p with factory := none }

end Process

end TraceContract
