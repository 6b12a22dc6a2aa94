import TraceContract.Failure
import TraceContract.Severity

/-!
# Grading

Every level has a severity, `none` that of entries that are never written.  A code that stands
for no level has none, and is refused.
-/

namespace TraceContract

/-- The severity of the records of a level. -/
def Level.severity : Level → Except Failure Severity
  | .none => .ok .off
  | .debug => .ok .debug
  | .info => .ok .info
  | .warning => .ok .warn
  | .error => .ok .error
  | .unlisted code _ => .error (.unknownLevel code)

/-- The levels that stand for something, each with its severity. -/
def Level.gradings : List (Level × Severity) :=
  [(.none, .off), (.debug, .debug), (.info, .info), (.warning, .warn), (.error, .error)]

theorem Level.severity_eq_ok_iff {level : Level} {severity : Severity} :
    level.severity = .ok severity ↔ (level, severity) ∈ gradings := by
  cases level with
  | unlisted code outside => simp [Level.severity, gradings]
  | _ => simp [Level.severity, gradings, eq_comm]

end TraceContract
