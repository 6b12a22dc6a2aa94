import TraceContract.Layout
import TraceContract.Record

/-!
# What the outside sees

Records leave the library through code of others: sinks of their own make, callbacks, named
outlets, the standard output and the error output.  An `Event` is one such contact.  A contact
that was refused, because the code on the other side threw, is an event too.
-/

namespace TraceContract

/-- A contact with the outside. -/
inductive Event where
  /-- A record given to somebody else's sink. -/
  | emitted (sink logger : Text) (record : Record) (refusal : Option Thrown)
  | entry (callback : Text) (entry : Entry) (refusal : Option Thrown)
  | line (callback : Text) (line : Line) (refusal : Option Thrown)
  | written (outlet : Text) (line : Line)
  | printed (line : Line)
  | asked (factory logger : Text)
  | complained (text : Text)

/-- What a step that may be stopped leaves behind. -/
structure Effect (σ ε : Type) where
  state : σ
  events : List Event := []
  stopped : Option ε := none

end TraceContract
