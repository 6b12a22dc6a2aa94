import TraceContract.Process.Basic

/-!
# Setting up a hub

A setup gathers a minimum level and sinks, and builds from them one hub for all loggers, once.

- `Setup.limit` and `Setup.writeTo` gather; what is wrong with their argument leaves the setup as
  it was.
- `Setup.build` makes the hub and installs it.
-/

namespace TraceContract

/-- A hub in the making. -/
structure Setup where
  minimum : Severity := .trace
  sinks : List Sink := []
  built : Bool := false

namespace Setup

def limit (s : Setup) (level : Level) : Setup × Except Failure Unit :=
  match level.severity with
  | .error failure => (s, .error failure)
  | .ok minimum => ({ s with minimum }, .ok ())

def writeTo (s : Setup) (sink : Option Sink) : Setup × Except Failure Unit :=
  match sink with
  | none => (s, .error .sinkRequired)
  | some sink => ({ s with sinks := s.sinks ++ [sink] }, .ok ())

/-- The hub that the setup makes; it has the console where no sink was added. -/
def hub (s : Setup) : Hub :=
  { minimum := s.minimum
    sinks := match s.sinks with
      | [] => [.console]
      | sinks => sinks }

/-- Builds the hub and installs it for every logger. -/
def build (p : Process) (s : Setup) : Process × Setup × Except Failure Handle :=
  if s.built then (p, s, .error .builtTwice)
  else
    let (p, h) := p.add (.hub s.hub)
    ({ p with factory := some (.constant h) }, { s with sinks := [], built := true }, .ok h)

end Setup

end TraceContract
