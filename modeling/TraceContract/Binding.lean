import TraceContract.Failure
import TraceContract.Value

/-!
# Binding arguments to parameters

The arguments of a call are brought to the kinds that its parameters declare.

- `Value.bindTo?` brings one argument to a kind: numbers change between the integer kinds where
  they keep their value, integers become floating-point numbers, and an object parameter takes
  everything but an exception as it is.
- `Binding.bind` does so for a whole call, or finds the first argument that does not fit.
-/

namespace TraceContract

/-- The argument as one of the declared kind, if it can be one. -/
def Value.bindTo? (declared : Kind) (v : Value) : Option Value :=
  if v.kind = declared then some v
  else match declared, v with
    | .integer, .unsigned u =>
      if u.toNat < 0x8000000000000000 then some (.integer (Int64.ofNat u.toNat)) else none
    | .unsigned, .integer i =>
      if 0 ≤ i.toInt then some (.unsigned (UInt64.ofNat i.toInt.toNat)) else none
    | .floating, .integer i => some (.floating (Binary64.ofInt i.toInt))
    | .floating, .unsigned u => some (.floating (Binary64.ofNat u.toNat))
    | .object, .exception _ _ => none
    | .object, v => some v
    | _, _ => none

namespace Binding

/-- The parameter that stands for arguments beyond the last one. -/
def extra : Text := ascii "<extra>"

/-- Brings each argument to the kind of its parameter. -/
def bindEach (operation : Text) : List Parameter → List Value → Except FormatError (List Value)
  | p :: parameters, v :: values =>
    match v.bindTo? p.kind with
    | none => .error ⟨operation, p.name, .kind p.kind v.kind⟩
    | some bound => (bindEach operation parameters values).map (bound :: ·)
  | _, _ => .ok []

/-- Brings the arguments of a call to the kinds of its parameters.  Of too few arguments, the
first parameter without one is at fault. -/
def bind (operation : Text) (parameters : List Parameter) (values : List Value) :
    Except FormatError (List Value) :=
  if values.length = parameters.length then bindEach operation parameters values
  else
    let atFault := match parameters[values.length]? with
      | some p => p.name
      | none => extra
    .error ⟨operation, atFault, .count parameters.length values.length⟩

end Binding

end TraceContract
