import TraceContract.Adapter
import TraceContract.Registry

/-!
# Traces

A trace is a compiled contract in the hands of an owner, with the sink that its records go to.

- `Trace.prepare` is everything that a call does before its record goes out: it finds the
  operation, checks the form of the call, and makes the record unless the operation is silent.
- `Trace.logVia` sends that record on its way.
-/

namespace TraceContract

/-- A contract bound to an owner and a sink. -/
structure Trace where
  compilation : Compilation
  owner : Text
  sink : Handle
  deriving DecidableEq

namespace Trace

/-- A trace needs a contract and a sink. -/
def make (compilation : Option Compilation) (owner : Text) (sink : Option Handle) :
    Except Failure Trace :=
  match compilation, sink with
  | none, _ => .error .contractRequired
  | some _, none => .error (.traceSinkRequired owner)
  | some compilation, some sink => .ok ⟨compilation, owner, sink⟩

def contract (t : Trace) : Contract := t.compilation.contract

/-- The operation of a name, for a call that wants a span or one that does not. -/
def operation (t : Trace) (wantsSpan : Bool) (name : Text) : Except Failure Operation :=
  match t.contract.find? name with
  | none => .error (.dispatch ⟨t.contract.name, name, .unknownOperation⟩)
  | some op =>
    if op.handsBackSpan = wantsSpan then .ok op
    else
      .error (.dispatch ⟨t.contract.name, name,
        if wantsSpan then .handsBackNothing else .handsBackSpan⟩)

/-- The record of a call, nothing for an operation that never writes. -/
def prepare (t : Trace) (wantsSpan : Bool) (name : Text) (arguments : List Value) :
    Except Failure (Option Record) :=
  match t.operation wantsSpan name with
  | .error failure => .error failure
  | .ok op =>
    if op.level = .none then .ok none else (op.record arguments).map some

/-- Logs a call, the record going out through `emit`. -/
def logVia {σ : Type} (emit : σ → Handle → Text → Record → σ × Except Failure Unit) (s : σ)
    (t : Trace) (name : Text) (arguments : List Value) : σ × Except Failure Unit :=
  match t.prepare false name arguments with
  | .error failure => (s, .error failure)
  | .ok none => (s, .ok ())
  | .ok (some r) => emit s t.sink t.owner r

end Trace

end TraceContract
