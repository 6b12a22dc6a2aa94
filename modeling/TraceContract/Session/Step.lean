import TraceContract.Setup
import TraceContract.Span

/-!
# Steps of a session

A session is a list of steps on things that it names: sinks, traces, spans, registries, compiled
contracts and setups.  A `Step` says what to do, an `Answer` what came of it.
-/

namespace TraceContract

/-- A factory as a session describes it, with names for sinks and traces. -/
structure FactoryPlan where
  label : Text
  /-- The sink of every logger that is not listed. -/
  default : Option Text
  listed : List (Text × Option Text)
  /-- How many of its first calls end in a throw, and what it throws then. -/
  failures : Nat
  thrown : Thrown
  /-- The call that it logs before it answers: a trace, an operation and arguments. -/
  call : Option (Text × Text × List Value)

/-- The name of the sink that a plan gives a logger. -/
def FactoryPlan.sinkName (plan : FactoryPlan) (logger : Text) : Option Text :=
  match plan.listed.find? (·.1 = logger) with
  | some (_, name) => name
  | none => plan.default

/-- Where a trace takes its contract from. -/
inductive ContractSource where
  | declared (d : ContractDecl)
  | named (name : Text)
  | missing

inductive SinkStep where
  /-- Makes a sink of somebody else; with a number and a throw, one that fails from that record
  on. -/
  | recorder (name : Text) (failing : Option (Nat × Thrown))
  | discard (name : Text)
  | deferred (name logger : Text)
  | hub (name : Text) (minimum : Severity) (sinks : List Sink)
  | addSink (hub : Text) (sink : Sink)
  | setMinimum (hub : Text) (minimum : Severity)
  | hubState (hub : Text)
  | emit (sink logger : Text) (record : Record)
  /-- Hands an entry to a sink that belongs to no hub. -/
  | write (sink : Sink) (entry : Entry)
  | isResolved (sink : Text)
  | sameSink (a b : Text)

inductive ProcessStep where
  | install (factory : Option FactoryPlan)
  | disable
  | reset
  | resolve (logger : Text) (name : Option Text)
  | configure (name : Text)
  | limit (setup : Text) (level : Level)
  | writeTo (setup : Text) (sink : Option Sink)
  | build (setup : Text) (name : Option Text)
  /-- Moves the clock that durations are measured by. -/
  | advance (nanoseconds : Int)
  | setTime (nanoseconds : Int)

inductive TraceStep where
  | registry (name : Text)
  | compile (registry key : Text) (declare : Except Failure ContractDecl) (name : Option Text)
  | registryState (registry : Text) (keys : List Text)
  | sharedContains (key : Text)
  | describe (d : ContractDecl)
  | make (name : Text) (contract : ContractSource) (owner : Text) (sink : Option Text)
  /-- Binds the contract of a key in the registry of the process; without a choice of sink, to a
  deferred one for the owner. -/
  | bind (name key : Text) (d : ContractDecl) (owner : Text) (sink : Option (Option Text))
  | info (trace : Text)
  | log (trace operation : Text) (arguments : List Value)
  | start (name trace operation : Text) (arguments : List Value)

inductive SpanStep where
  | begin (name : Text) (sink : Option Text) (logger title : Text) (fields : Fields)
      (level : Level)
  | close (span : Text)
  | drop (span : Text)
  | isClosed (span : Text)
  | state (span : Text)
  | move (span name : Text)
  /-- Moves a span and lets the new one go at once. -/
  | unwind (span : Text)

/-- What a session can do. -/
inductive Step where
  | sink (step : SinkStep)
  | process (step : ProcessStep)
  | trace (step : TraceStep)
  | span (step : SpanStep)

/-- What is told of a compiled contract: its name, its size, and the names under which the same
compilation is known. -/
structure CompilationInfo where
  name : Text
  size : Nat
  sameAs : List Text

/-- What came of a step. -/
inductive Answer where
  | done
  /-- The step named something that there is not. -/
  | missing
  | failed (failure : Failure)
  | truth (b : Bool)
  /-- The question does not apply. -/
  | inapplicable
  | names (names : List Text)
  | hubState (sinks : Nat) (minimum : Severity)
  | written (accepted : Bool) (minimum : Severity) (hasLayout : Bool)
  | compiled (declared : Bool) (result : Except Failure CompilationInfo)
  | registryState (size : Nat) (contains : List Bool)
  | contract (d : ContractDecl)
  | owner (owner : Text)
  | trace (owner contract : Text) (size : Nat) (sinks sharing : List Text)
  | span (s : Span)
  | moved (fromClosed : Bool) (moved : Span)

/-- Whether the step was the end of the program. -/
def Answer.isFatal : Answer → Bool
  | .failed failure => failure.isFatal
  | _ => false

end TraceContract
