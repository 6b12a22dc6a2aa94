import TraceContract.Entry
import TraceContract.Time.Instant

/-!
# The plain layout

An entry on one line, `2026-02-16 12:00:00.000 [INFO] shop - Hello Ada` with its fields between
braces at the end, and below it a line for its exception and one for each cause.
-/

namespace TraceContract

namespace Plain

/-- The fields as `name=value`; the first one that cannot be rendered ends the attempt. -/
def fieldTexts : Fields → Except Thrown (List Text)
  | [] => .ok []
  | (name, value) :: rest =>
    match value.render with
    | .error thrown => .error thrown
    | .ok text => (fieldTexts rest).map ((name ++ ascii "=" ++ text) :: ·)

/-- The fields between braces, nothing where there are none. -/
def fieldList (fields : Fields) : Except Thrown Text :=
  match fields with
  | [] => .ok []
  | fields => (fieldTexts fields).map fun texts =>
    ascii " \x7b" ++ List.intercalate (ascii ", ") texts ++ ascii "\x7d"

def heading (e : Entry) : Text :=
  Instant.text e.instant ++ ascii " [" ++ e.severity.name ++ ascii "] " ++
    (if e.logger = [] then [] else e.logger ++ ascii " - ") ++ e.message

def exceptionLines : Option Report → Text
  | none => []
  | some report => ascii "\n  " ++ report.describe (ascii "\n  caused by ")

def text (e : Entry) : Except Thrown Text :=
  (fieldList e.fields).map fun fields => heading e ++ fields ++ exceptionLines e.exception

end Plain

end TraceContract
