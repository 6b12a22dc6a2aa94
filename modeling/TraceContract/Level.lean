import TraceContract.Text

/-!
# Levels of operations

An operation is declared with a level, from the least important to the most.  The level `none`
marks an operation that never writes anything.
-/

namespace TraceContract

/-- How important an operation is. -/
inductive Level where
  | none | debug | info | warning | error
  /-- A code that stands for no level. -/
  | unlisted (code : Int) (outside : code < 0 ∨ 4 < code)
  deriving DecidableEq

namespace Level

def ofCode (code : Int) : Level :=
  if outside : code < 0 ∨ 4 < code then .unlisted code outside
  else match code.toNat with
    | 0 => .none
    | 1 => .debug
    | 2 => .info
    | 3 => .warning
    | _ => .error

def name : Level → Text
  | none => ascii "NONE"
  | debug => ascii "DEBUG"
  | info => ascii "INFO"
  | warning => ascii "WARNING"
  | error => ascii "ERROR"
  | unlisted _ _ => ascii "UNKNOWN"

end Level

end TraceContract
