import TraceContract.Exception

/-!
# Reports of exceptions

A report keeps what is written about an exception after the exception itself is gone: its type,
its message and at most twenty of its causes.

- `Exception.walk` follows the chain of causes as long as there is room.  `Exception.walkNoting`
  is the same with a note of the exceptions that it comes to.
- `Exception.report` makes the report.
- `Report.describe` writes a report with a text of the caller's choice before each cause, and
  `Report.chain` the causes alone.
-/

namespace TraceContract

/-- What is kept of an exception. -/
structure Report where
  typeName : Text
  message : Text
  /-- The outermost cause first. -/
  causes : List Cause := []
  /-- Whether there were more causes than are kept. -/
  truncated : Bool := false
  deriving DecidableEq

namespace Exception

/-- The most causes that a report keeps. -/
def causeLimit : Nat := 20

/-- The exceptions that are asked for their causes, in order; then the causes as far as there is
room for them, and whether some are left. -/
def walkNoting : Exception → (room : Nat) → List Exception × List Cause × Bool
  | root t w, _ => ([root t w], [], false)
  | hollow t w, _ => ([hollow t w], [], false)
  | causedByForeign t w, 0 => ([causedByForeign t w], [], true)
  | causedBy t w cause, 0 => ([causedBy t w cause], [], true)
  | causedByForeign t w, _ + 1 => ([causedByForeign t w], [Cause.foreign], false)
  | causedBy t w cause, room + 1 =>
    let (asked, rest, more) := cause.walkNoting room
    (causedBy t w cause :: asked, cause.asCause :: rest, more)

/-- The causes of an exception as far as there is room for them, and whether some are left. -/
def walk (e : Exception) (room : Nat) : List Cause × Bool := (e.walkNoting room).2

/-- The report of an exception. -/
def report (e : Exception) : Report :=
  let (causes, truncated) := e.walk causeLimit
  ⟨e.typeName, e.message, causes, truncated⟩

end Exception

namespace Report

def summary (r : Report) : Text := r.typeName ++ ascii ": " ++ r.message

/-- The lines of the causes, added one by one to what is written so far; a line break stands
before each but the one that finds nothing written. -/
def chainFrom (written : Text) : List Cause → Text
  | [] => written
  | cause :: rest =>
    chainFrom ((if written = [] then written else written ++ [Text.newline]) ++ cause.line) rest

/-- One line per cause. -/
def chain (r : Report) : Text := chainFrom [] r.causes

/-- The summary and every cause, `before` standing in front of each cause and of the mark for
those that are left out. -/
def describe (before : Text) (r : Report) : Text :=
  r.summary ++ r.causes.flatMap (fun cause => before ++ cause.line) ++
    (if r.truncated then before ++ ascii "..." else [])

end Report

end TraceContract
