import TraceContract.Directory
import TraceContract.Record

/-!
# Compiled contracts

A contract is compiled before it is used, so that no call can find a fault in its declaration.

- `Operation.compile` checks one declared operation.
- `Contract.compile` checks them all in order and stops at the first fault.
- `Contract.index` is the table of places by which `Contract.find?` finds an operation.
- `Operation.record` makes the record of a call, and `Operation.recordNoting` notes besides which
  arguments it asks for their texts.
-/

namespace TraceContract

/-- An operation that was compiled. -/
structure Operation where
  decl : OperationDecl
  template : Template
  roles : Roles
  deriving DecidableEq

/-- A contract that was compiled. -/
structure Contract where
  name : Text
  operations : List Operation
  deriving DecidableEq

namespace Operation

def name (op : Operation) : Text := op.decl.name

def level (op : Operation) : Level := op.decl.level.getD .none

def handsBackSpan (op : Operation) : Bool := op.decl.handback.isSpan

/-- Checks a template for an operation's parameters. -/
def readTemplate (contract operation : Text) (names : List Text) (source : Text) :
    Except DeclarationError Template :=
  (Template.read names source).mapError fun token => .template contract operation token source

/-- Gives roles to an operation's parameters. -/
def assignRoles (contract operation : Text) (handback : Handback) (parameters : List Parameter) :
    Except DeclarationError Roles :=
  (Roles.ofParameters handback parameters).mapError fun (parameter, fault) =>
    .role contract operation parameter fault

/-- Compiles an operation whose name is not taken. -/
def compile (contract : Text) (d : OperationDecl) : Except DeclarationError Operation :=
  if d.level = none then .error (.operation contract d.name .withoutLevel)
  else if d.handback = .unsupported then
    .error (.operation contract d.name (.unsupportedHandback d.handbackType))
  else
    match readTemplate contract d.name d.parameterNames d.template with
    | .error e => .error e
    | .ok template =>
      match assignRoles contract d.name d.handback d.parameters with
      | .error e => .error e
      | .ok roles => .ok ⟨d, template, roles⟩

/-- The places of the arguments that a call asks for their texts, in order, and its record. -/
def recordNoting (op : Operation) (values : List Value) : List Nat × Except Failure Record :=
  match Binding.bind op.name op.decl.parameters values with
  | .error e => ([], .error (.format e))
  | .ok bound =>
    Record.ofBoundNoting op.name op.level op.template op.roles op.decl.parameters bound

def record (op : Operation) (values : List Value) : Except Failure Record :=
  (op.recordNoting values).2

theorem record_of_refused {op : Operation} {values : List Value} {e : FormatError}
    (h : Binding.bind op.name op.decl.parameters values = .error e) :
    op.record values = .error (.format e) := by
  rw [record, recordNoting, h]

theorem record_of_accepted {op : Operation} {values bound : List Value}
    (h : Binding.bind op.name op.decl.parameters values = .ok bound) :
    op.record values =
      Record.ofBound op.name op.level op.template op.roles op.decl.parameters bound := by
  rw [record, recordNoting, h]
  rfl

end Operation

namespace Contract

/-- Compiles operations in order; `taken` are the names declared before them. -/
def compileFrom (contract : Text) (taken : List Text) :
    List OperationDecl → Except DeclarationError (List Operation)
  | [] => .ok []
  | d :: rest =>
    if d.name ∈ taken then .error (.operation contract d.name .declaredTwice)
    else
      match Operation.compile contract d with
      | .error e => .error e
      | .ok op => (compileFrom contract (d.name :: taken) rest).map (op :: ·)

/-- Compiles a contract, or finds the first fault of its declaration. -/
def compile (d : ContractDecl) : Except DeclarationError Contract :=
  (compileFrom d.name [] d.operations).map (⟨d.name, ·⟩)

/-- Enters operations in a table, each at its place; what the table holds under a name gives way
to what is entered under it later. -/
def enter (table : Directory Nat) : (i : Nat) → List Operation → Directory Nat
  | _, [] => table
  | i, op :: rest => enter (table.put op.name i) (i + 1) rest

/-- The places of the operations by name. -/
def index (c : Contract) : Directory Nat := enter [] 0 c.operations

def find? (c : Contract) (name : Text) : Option Operation :=
  (c.index.get? name).bind (c.operations[·]?)

end Contract

end TraceContract
