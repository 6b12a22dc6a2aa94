import TraceContract.Exception.Report
import TraceContract.Fields
import TraceContract.Severity

/-!
# Entries

An entry is a record as sinks see it: with a severity, the name of the logger and the instant,
and with a report in the place of the exception.
-/

namespace TraceContract

/-- A record on its way into sinks. -/
structure Entry where
  severity : Severity := .info
  logger : Text := []
  message : Text := []
  /-- Nanoseconds since the beginning of 1970. -/
  instant : Int := 0
  fields : Fields := []
  exception : Option Report := none

end TraceContract
