import TraceContract.Layout.Members
import TraceContract.Layout.Plain

/-!
# Layouts of entries

- `Layout` chooses how an entry is laid out, `Line` is what comes of it.
- `Host.name` is the name of the machine that the member layout writes.
-/

namespace TraceContract

/-- How entries are laid out. -/
inductive Layout where
  | plain
  /-- Members, with the names of the application, of its environment and of the machine. -/
  | members (application environment host : Text)
  deriving DecidableEq

/-- An entry laid out. -/
inductive Line where
  | text (t : Text)
  | members (m : Members)
  deriving DecidableEq

namespace Line

/-- What the standard output shows of a line: its text and a line break.  Members have no text of
their own. -/
def shown : Line → Text
  | .text t => t ++ [Text.newline]
  | .members _ => []

end Line

namespace Host

/-- The most bytes of a machine's name that are read. -/
def maxLength : Nat := 255

/-- The name of a machine: nothing if it is not known, else what stands before its first zero
byte, as far as it is read. -/
def name : Option Text → Text
  | none => []
  | some t => Text.terminated (t.take maxLength)

end Host

namespace Layout

/-- The member layout that names neither an application nor an environment. -/
def anonymous (host : Text) : Layout := .members [] [] host

def line (l : Layout) (e : Entry) : Except Thrown Line :=
  match l with
  | .plain => (Plain.text e).map .text
  | .members application environment host =>
    (Members.ofEntry application environment host e).map .members

end Layout

end TraceContract
