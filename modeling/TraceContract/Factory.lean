import TraceContract.Trace

/-!
# Factories

A factory gives sinks to loggers.  One that somebody else wrote may log before it answers, and may
give a sink, none, or fail.
-/

namespace TraceContract

/-- What a factory may do before it answers. -/
inductive Errand where
  | log (trace : Trace) (operation : Text) (arguments : List Value)
  | emit (sink : Handle) (logger : Text) (record : Record)
  | fail (failure : Failure)

/-- Somebody else's function that gives sinks to loggers. -/
structure OutsideFactory where
  label : Text
  errands : List Errand := []
  /-- What its call of a number, counted from 0, answers a logger: a sink, no sink, or a
  failure. -/
  answer : Nat → Text → Except Failure (Option Handle)
  /-- How often it was asked, which is the number of its next call. -/
  asked : Nat := 0

namespace OutsideFactory

/-- The factory once its next call has begun.  A call has its number from its beginning, so one
that an errand sets off has a higher number than the call that runs the errand. -/
def called (f : OutsideFactory) : OutsideFactory := { f with asked := f.asked + 1 }

/-- What its next call gives a logger. -/
def sinkFor (f : OutsideFactory) (logger : Text) : Except Failure Handle :=
  match f.answer f.asked logger with
  | .error failure => .error failure
  | .ok none => .error (.noSink logger)
  | .ok (some sink) => .ok sink

end OutsideFactory

/-- What gives sinks to loggers. -/
inductive Factory where
  | constant (sink : Handle)
  | outside (factory : OutsideFactory)

end TraceContract
