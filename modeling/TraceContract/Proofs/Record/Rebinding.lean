import TraceContract.Proofs.Record.Bounds

/-!
# Arguments that are bound already

Binding an argument a second time changes nothing.  What comes of binding is what stays as it is when
it is bound, for one argument and for all the arguments of a call:

    (∃ values, bind operation parameters values = .ok bound) ↔
      bind operation parameters bound = .ok bound

* `Value.Meets`: the argument has the declared kind, or an object is declared and it is taken for
  one.  `Value.bindsTo_self_iff`: exactly these arguments stay as they are.
* `Binding.bind_eq_self_iff`: which arguments of a call do.  Of the parameters only the kinds play a
  part in that.
* `Binding.exists_bind_eq_ok_iff` is the equivalence above.
* `Binding.bind_bound`: binding again, for the same parameters or for others of the same kinds.
* `Operation.record_bound`: a call may as well be made with its bound arguments.
-/

namespace TraceContract

/-! ### One argument -/

namespace Value

/-- The argument is what binding it to the declared kind can give. -/
def Meets (declared : Kind) (v : Value) : Prop :=
  v.kind = declared ∨ (declared = .object ∧ v.kind ≠ .exception)

variable {declared : Kind} {v b : Value}

theorem BindsTo.meets (h : BindsTo declared v b) : b.Meets declared := by
  cases h with
  | same hv => exact Or.inl hv
  | toInteger u hu => exact Or.inl rfl
  | toUnsigned i hi => exact Or.inl rfl
  | ofInteger i => exact Or.inl rfl
  | ofUnsigned u => exact Or.inl rfl
  | asObject _ hv => exact Or.inr ⟨rfl, hv⟩

/-- **Which arguments stay as they are.** -/
theorem bindsTo_self_iff : BindsTo declared v v ↔ v.Meets declared := by
  refine ⟨BindsTo.meets, ?_⟩
  rintro (hsame | ⟨rfl, hother⟩)
  · exact .same hsame
  · exact .asObject v hother

end Value

/-! ### The arguments of a call -/

namespace Binding

open Value (Meets)

variable {operation : Text} {parameters : List Parameter} {values bound : List Value}

theorem meets_of_bind (h : bind operation parameters values = .ok bound) :
    List.Forall₂ Meets (parameters.map (·.kind)) bound := by
  obtain ⟨hlen, hall⟩ := bind_ok_iff.mp h
  have hkinds : (parameters.zip values).map (fun pv => pv.1.kind) = parameters.map (·.kind) := by
    show (parameters.zip values).map ((·.kind) ∘ Prod.fst) = _
    rw [← List.map_map, List.map_fst_zip (by omega)]
  rw [← hkinds, List.forall₂_map_left_iff]
  exact hall.imp fun _ _ hb => hb.meets

/-- **Which arguments of a call stay as they are**: those that meet the declared kinds, one for
each. -/
theorem bind_eq_self_iff :
    bind operation parameters values = .ok values ↔
      List.Forall₂ Meets (parameters.map (·.kind)) values := by
  refine ⟨meets_of_bind, fun h => ?_⟩
  rw [List.forall₂_map_left_iff] at h
  refine bind_ok_iff.mpr ⟨h.length_eq.symm, ?_⟩
  induction h with
  | nil => exact .nil
  | cons hv _ ih => exact .cons (Value.bindsTo_self_iff.mpr hv) ih

theorem exists_bind_eq_ok_iff :
    (∃ values, bind operation parameters values = .ok bound) ↔
      bind operation parameters bound = .ok bound := by
  refine ⟨?_, fun h => ⟨bound, h⟩⟩
  rintro ⟨values, h⟩
  exact bind_eq_self_iff.mpr (meets_of_bind h)

/-- **Bound arguments are bound as they are**, for the parameters that they were bound for, and for
any others that declare the same kinds in the same order, whatever these are called and whatever
operation they belong to. -/
theorem bind_bound (h : bind operation parameters values = .ok bound) :
    bind operation parameters bound = .ok bound ∧
    ∀ operation' parameters', parameters'.map (·.kind) = parameters.map (·.kind) →
      bind operation' parameters' bound = .ok bound := by
  refine ⟨exists_bind_eq_ok_iff.mp ⟨values, h⟩, ?_⟩
  intro operation' parameters' hkinds
  rw [bind_eq_self_iff, hkinds]
  exact meets_of_bind h

/-- Parameters of the kinds to which arguments are converted, and of those that take them as they
are. -/
def waybill : List Parameter :=
  [⟨ascii "weight", .floating, 0, []⟩, ⟨ascii "pieces", .unsigned, 1, []⟩,
    ⟨ascii "delta", .integer, 2, []⟩, ⟨ascii "remark", .object, 3, []⟩,
    ⟨ascii "cause", .exception, 4, []⟩]

/-- Every number is converted here and the text is taken for an object.  The second time all of them
stay, for nameless parameters too. -/
theorem bind_bound_waybill :
    ∃ bound, bind [] waybill [.unsigned 3, .integer 4, .unsigned 5, .string (ascii "wet"),
        .exception 0 (.root (ascii "E") none)] = .ok bound ∧
      bound = [.floating (Binary64.ofNat 3), .unsigned 4, .integer 5, .string (ascii "wet"),
        .exception 0 (.root (ascii "E") none)] ∧
      bind [] waybill bound = .ok bound ∧
      bind (ascii "Return") (waybill.map fun p => ⟨[], p.kind, 0, []⟩) bound = .ok bound := by
  have h : bind [] waybill [.unsigned 3, .integer 4, .unsigned 5, .string (ascii "wet"),
      .exception 0 (.root (ascii "E") none)] =
        .ok [.floating (Binary64.ofNat 3), .unsigned 4, .integer 5, .string (ascii "wet"),
          .exception 0 (.root (ascii "E") none)] := rfl
  obtain ⟨hagain, hothers⟩ := bind_bound h
  exact ⟨_, h, rfl, hagain, hothers _ _ rfl⟩

end Binding

/-- A call with bound arguments makes the record that the call with the given ones makes, or fails
with the same. -/
theorem Operation.record_bound {op : Operation} {values bound : List Value}
    (h : Binding.bind op.name op.decl.parameters values = .ok bound) :
    op.record bound = op.record values := by
  have hagain := Binding.exists_bind_eq_ok_iff.mp ⟨values, h⟩
  rw [record_of_bind h, record_of_bind hagain]

end TraceContract
