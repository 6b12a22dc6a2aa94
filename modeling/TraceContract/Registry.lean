import TraceContract.Contract

/-!
# The registry of compiled contracts

A contract is compiled at the first call for its key and shared from then on.  A declaration
that fails leaves nothing behind, so a later call for the key declares anew.

- `Registry.obtainIn` is the one operation, `Registry.obtain` the same with a declaration that
  leaves the world alone.
- `Registry.contains` and `Registry.size` show what was compiled.
-/

namespace TraceContract

/-- A compiled contract with the number of its compilation, which tells it from contracts that
merely look the same. -/
structure Compilation where
  number : Nat
  contract : Contract
  deriving DecidableEq

/-- Compiled contracts by key. -/
structure Registry where
  entries : List (Text × Compilation) := []
  deriving DecidableEq

/-- What a call for a contract leaves behind. -/
structure Obtained where
  registry : Registry
  /-- Whether the declaration was asked for. -/
  declared : Bool
  result : Except Failure Compilation

namespace Registry

/-- The contract compiled for a key. -/
def find? (r : Registry) (key : Text) : Option Compilation :=
  (r.entries.find? (·.1 = key)).map (·.2)

def contains (r : Registry) (key : Text) : Bool := (r.find? key).isSome

def size (r : Registry) : Nat := r.entries.length

/-- Compiles what was declared, if the declaration came to something. -/
def compileDeclared : Except Failure ContractDecl → Except Failure Contract
  | .error failure => .error failure
  | .ok d => (Contract.compile d).mapError .declaration

/-- The contract for a key.  At the first call it is declared, compiled and given a number.  The
declaration is a program in a world, and what it did there stays done whatever comes of it. -/
def obtainIn {σ : Type} (r : Registry) (key : Text)
    (declare : σ → σ × Except Failure ContractDecl) (number : Nat) (w : σ) :
    σ × Registry × Except Failure Compilation :=
  match r.find? key with
  | some known => (w, r, .ok known)
  | none =>
    let (w, declared) := declare w
    match compileDeclared declared with
    | .error failure => (w, r, .error failure)
    | .ok contract =>
      let fresh : Compilation := ⟨number, contract⟩
      (w, ⟨r.entries ++ [(key, fresh)]⟩, .ok fresh)

/-- The contract for a key, with a declaration that does nothing but tell that it was asked for. -/
def obtain (r : Registry) (key : Text) (declare : Unit → Except Failure ContractDecl)
    (number : Nat) : Obtained :=
  let (declared, registry, result) :=
    r.obtainIn key (fun _ => (true, declare ())) number false
  ⟨registry, declared, result⟩

end Registry

end TraceContract
