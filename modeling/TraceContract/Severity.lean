import TraceContract.Text

/-!
# Severities of entries

Sinks sort entries by severity, a finer scale than that of levels.  Severities are compared by
their codes, those outside the scale too.  Nothing of severity `off` is ever written.
-/

namespace TraceContract

inductive Severity where
  | trace | debug | info | warn | error | fatal | off
  /-- A code that stands for no severity. -/
  | unlisted (code : Int) (outside : code < 0 ∨ 6 < code)
  deriving DecidableEq

namespace Severity

def code : Severity → Int
  | trace => 0
  | debug => 1
  | info => 2
  | warn => 3
  | error => 4
  | fatal => 5
  | off => 6
  | unlisted code _ => code

def ofCode (code : Int) : Severity :=
  if outside : code < 0 ∨ 6 < code then .unlisted code outside
  else match code.toNat with
    | 0 => .trace
    | 1 => .debug
    | 2 => .info
    | 3 => .warn
    | 4 => .error
    | 5 => .fatal
    | _ => .off

def name : Severity → Text
  | trace => ascii "TRACE"
  | debug => ascii "DEBUG"
  | info => ascii "INFO"
  | warn => ascii "WARN"
  | error => ascii "ERROR"
  | fatal => ascii "FATAL"
  | off => ascii "OFF"
  | unlisted _ _ => ascii "UNKNOWN"

/-- Whether an entry of this severity passes a minimum. -/
def reaches (s minimum : Severity) : Bool := minimum.code ≤ s.code

end Severity

end TraceContract
