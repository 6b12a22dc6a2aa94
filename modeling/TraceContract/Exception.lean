import TraceContract.Text

/-!
# Exceptions

Programs report failures as exceptions: values with a type name and a message, raised perhaps
while another failure was being handled, which then is their cause.

- `Exception` is such a value with the chain of its causes.
- `Thrown` is what a call of somebody else's code can end in: an exception, or a value that says
  nothing about itself.
- `Cause` is what is kept of one cause.
- `Exception.links` is the whole chain of causes.
-/

namespace TraceContract

/-- An exception.  The message is absent where the exception gives none. -/
inductive Exception where
  | root (typeName : Text) (what : Option Text)
  /-- An exception that can hold a cause and holds none. -/
  | hollow (typeName : Text) (what : Option Text)
  /-- An exception whose cause is a value that is no exception. -/
  | causedByForeign (typeName : Text) (what : Option Text)
  | causedBy (typeName : Text) (what : Option Text) (cause : Exception)
  deriving DecidableEq

/-- What a call of somebody else's code ends in when it does not return. -/
inductive Thrown where
  | exception (e : Exception)
  /-- A value that is no exception. -/
  | foreign
  deriving DecidableEq

/-- What is kept of one cause. -/
structure Cause where
  typeName : Text
  message : Text
  deriving DecidableEq

namespace Exception

def typeName : Exception → Text
  | root t _ | hollow t _ | causedByForeign t _ | causedBy t _ _ => t

def what : Exception → Option Text
  | root _ w | hollow _ w | causedByForeign _ w | causedBy _ w _ => w

/-- The message as a reader sees it: up to its first zero byte, or a remark where there is
none. -/
def message (e : Exception) : Text :=
  match e.what with
  | some text => text.terminated
  | none => ascii "(no message)"

def describe (e : Exception) : Text := e.typeName ++ ascii ": " ++ e.message

def asCause (e : Exception) : Cause := ⟨e.typeName, e.message⟩

end Exception

namespace Cause

/-- The cause that is no exception. -/
def foreign : Cause := ⟨ascii "unknown exception", []⟩

/-- The cause on one line; one without a message is its type alone. -/
def line (c : Cause) : Text :=
  if c.message = [] then c.typeName else c.typeName ++ ascii ": " ++ c.message

end Cause

namespace Exception

/-- Every cause, the outermost first. -/
def links : Exception → List Cause
  | root _ _ | hollow _ _ => []
  | causedByForeign _ _ => [Cause.foreign]
  | causedBy _ _ cause => cause.asCause :: cause.links

/-- Whether there is a cause: the exception can hold one, and does. -/
def hasCause : Exception → Bool
  | root _ _ | hollow _ _ => false
  | causedByForeign _ _ | causedBy _ _ _ => true

end Exception

end TraceContract
