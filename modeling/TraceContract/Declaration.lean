import TraceContract.Kind
import TraceContract.Level

/-!
# Declarations of contracts

A contract declares operations by name.  An operation has a level, a template for its message,
typed parameters, and says what a call of it hands back: nothing, or a timed span.

- `OperationDecl` and `ContractDecl` are the declared data, before any check.
- `Clause` is one clause of a declaration and `OperationDecl.ofClauses` reads a list of them: the
  last clause on the level, on the template with it, and on what is handed back counts, and
  parameters gather in order.
-/

namespace TraceContract

/-- What a call of an operation hands back. -/
inductive Handback where
  | nothing
  | span
  | unsupported
  /-- A code that stands for none of these. -/
  | unlisted (code : Int) (outside : code < 0 ∨ 2 < code)
  deriving DecidableEq

namespace Handback

def ofCode (code : Int) : Handback :=
  if outside : code < 0 ∨ 2 < code then .unlisted code outside
  else match code.toNat with
    | 0 => .nothing
    | 1 => .span
    | _ => .unsupported

def isSpan (h : Handback) : Bool := h = .span

end Handback

structure Parameter where
  name : Text
  kind : Kind
  /-- The place in the list of parameters, from 0. -/
  position : Nat
  /-- The name of the declared type. -/
  typeName : Text := []
  deriving DecidableEq

structure OperationDecl where
  name : Text
  /-- Absent where none was declared. -/
  level : Option Level := none
  template : Text := []
  parameters : List Parameter := []
  handback : Handback := .nothing
  handbackType : Text := []
  deriving DecidableEq

/-- The operations of one contract in the order of declaration. -/
structure ContractDecl where
  name : Text
  operations : List OperationDecl
  deriving DecidableEq

/-- A clause of the declaration of an operation. -/
inductive Clause where
  | level (level : Level) (template : Text)
  | parameter (name : Text) (kind : Kind) (typeName : Text)
  | handsBack (handback : Handback) (typeName : Text)
  deriving DecidableEq

namespace Clause

def debug (template : Text) : Clause := .level .debug template

def info (template : Text) : Clause := .level .info template

def warning (template : Text) : Clause := .level .warning template

def error (template : Text) : Clause := .level .error template

/-- An operation that never writes; its template serves as a remark. -/
def ignored (remark : Text := ascii "ignored") : Clause := .level .none remark

end Clause

namespace OperationDecl

def parameterNames (d : OperationDecl) : List Text := d.parameters.map (·.name)

/-- The declaration with one clause more. -/
def add (d : OperationDecl) : Clause → OperationDecl
  | .level level template => { d with level := some level, template := template }
  | .parameter name kind typeName =>
    { d with parameters := d.parameters ++ [⟨name, kind, d.parameters.length, typeName⟩] }
  | .handsBack handback typeName => { d with handback := handback, handbackType := typeName }

/-- The declaration that a list of clauses makes. -/
def ofClauses (name : Text) (clauses : List Clause) : OperationDecl :=
  clauses.foldl add { name }

end OperationDecl

end TraceContract
