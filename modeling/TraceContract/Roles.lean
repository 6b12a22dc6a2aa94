import TraceContract.Declaration

/-!
# Roles of parameters

Every parameter may appear in the message.  Those of text, number or truth value become fields
of the record besides, and one exception may travel with the record of an operation that hands
back nothing.

- `Roles.assign` goes through the parameters and gives each its role, or finds the first one
  that can have none.
-/

namespace TraceContract

/-- How the parameters of an operation feed its records; parameters are given by their places. -/
structure Roles where
  exception : Option Nat := none
  /-- The parameters that become fields, in order. -/
  fields : List Nat := []
  all : List Nat := []
  deriving DecidableEq

/-- Why an exception parameter can have no role. -/
inductive RoleFault where
  /-- An operation that hands back a span carries no exception. -/
  | exceptionInSpan
  /-- Another parameter, of the given name, already carries the exception. -/
  | secondException (first : Text)
  deriving DecidableEq

namespace Roles

/-- Gives roles to the parameters from place `i` on; `carrier` is the name of the parameter
before them that carries the exception. -/
def assign (inSpan : Bool) :
    (i : Nat) → (carrier : Option Text) → List Parameter → Except (Text × RoleFault) Roles
  | _, _, [] => .ok {}
  | i, carrier, p :: rest =>
    if p.kind = .exception then
      if inSpan then .error (p.name, .exceptionInSpan)
      else match carrier with
        | some first => .error (p.name, .secondException first)
        | none => (assign inSpan (i + 1) (some p.name) rest).map fun roles =>
            { roles with exception := some i, all := i :: roles.all }
    else (assign inSpan (i + 1) carrier rest).map fun roles =>
      { roles with
        fields := if p.kind.isField then i :: roles.fields else roles.fields
        all := i :: roles.all }

/-- The roles of the parameters of an operation. -/
def ofParameters (handback : Handback) (parameters : List Parameter) :
    Except (Text × RoleFault) Roles :=
  assign handback.isSpan 0 none parameters

end Roles

end TraceContract
