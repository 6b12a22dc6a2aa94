import TraceContract.Hub

/-!
# Adapters

An adapter takes records: one that drops them, a sink of somebody else, a hub, or a deferred one,
which has no sink until its first record comes.
-/

namespace TraceContract

/-- The place of an adapter among all adapters of the process. -/
abbrev Handle := Nat

/-- Somebody else's sink. -/
structure Recorder where
  label : Text
  /-- What the record of a number, counted from 0, is refused with. -/
  refusal : Nat → Option Thrown := fun _ => none
  calls : Nat := 0

namespace Recorder

/-- A sink that refuses every record from a certain one on, counted from 1. -/
def failingFrom (label : Text) (first : Nat) (thrown : Thrown) : Recorder :=
  { label, refusal := fun earlier => if first ≤ earlier + 1 then some thrown else none }

def emit (c : Recorder) (logger : Text) (r : Record) : Effect Recorder Failure :=
  let refusal := c.refusal c.calls
  ⟨{ c with calls := c.calls + 1 }, [.emitted c.label logger r refusal], refusal.map .outside⟩

end Recorder

/-- How far a deferred adapter has got. -/
inductive Resolution where
  | open
  | resolving
  | settled (target : Handle)
  deriving DecidableEq

/-- What takes records. -/
inductive Adapter where
  | discard
  | recorder (recorder : Recorder)
  | hub (hub : Hub)
  /-- Waits for its first record to ask for the sink of a logger. -/
  | deferred (logger : Text) (resolution : Resolution)

end TraceContract
