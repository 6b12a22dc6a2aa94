import TraceContract.Proofs.Exception.Causes
import TraceContract.Proofs.Record.Rendering
import TraceContract.Proofs.Record.Texts

/-!
# The causes of a call that fails in a renderer

Where the renderer of an object throws an exception, the call that shows the object fails with an
error of this library.  The exception becomes the cause of the error, so that what was its first
cause is the error's second: the whole chain moves by one place, and a report of the error has room
for one cause less of it.

* `OperationDecl.Throws`: a call comes to an object that its template shows, and the object throws.
* `Operation.Makes.record_of_throws` and `Operation.Makes.record_threw_iff`: what such a call fails
  with, and that no other fails so.
* `FormatError.report_of_threw`: what a report of the error keeps.
* `Operation.record_keeps_causes`: both for every call of every operation.
-/

namespace TraceContract

/-! ### Arguments with a text -/

namespace Value

/-- An argument has a text unless it is an object that has no renderer or whose renderer throws. -/
theorem exists_rendersTo_iff {v : Value} :
    (∃ text, v.RendersTo text) ↔ (∀ fault, ¬ v.FailsWith fault) ∧ ¬ v.ThrowsForeign := by
  constructor
  · rintro ⟨text, hrenderable, hrender⟩
    refine ⟨fun fault hfails => ?_, ?_⟩
    · cases hfails with
      | missing typeName => exact absurd hrenderable (by simp [isRenderable])
      | threw typeName e spoken => exact absurd hrender (by simp [render])
      | mute typeName e unsaid => exact absurd hrender (by simp [render])
    · rintro ⟨typeName, rfl⟩
      exact absurd hrender (by simp [render])
  · rintro ⟨hfails, hforeign⟩
    cases v with
    | object typeName renderer =>
      cases renderer with
      | none => exact absurd (.missing typeName) (hfails _)
      | some outcome =>
        cases outcome with
        | ok text => exact ⟨text, rfl, rfl⟩
        | error thrown =>
          cases thrown with
          | exception e =>
            obtain ⟨fault, hfault⟩ := exists_failsWith_of_threw typeName e
            exact absurd hfault (hfails fault)
          | foreign => exact absurd ⟨typeName, rfl⟩ hforeign
    | _ => exact ⟨_, rfl, rfl⟩

/-- What binding makes of an argument has a text where the argument has one, foreign throws
included. -/
theorem BindsTo.exists_rendersTo_iff {declared : Kind} {v b : Value} (h : BindsTo declared v b) :
    (∃ text, b.RendersTo text) ↔ ∃ text, v.RendersTo text := by
  have hforeign : b.ThrowsForeign ↔ v.ThrowsForeign := exists_congr fun _ => h.object_iff
  rw [Value.exists_rendersTo_iff, Value.exists_rendersTo_iff, hforeign]
  simp only [h.failsWith_iff]

end Value

namespace Record

variable {operation name : Text} {p : Parameter} {v : Value} {e : Exception}

theorem exists_renderArgument_iff (operation : Text) (p : Parameter) (v : Value) :
    (∃ text, renderArgument operation p v = .ok text) ↔ ∃ text, v.RendersTo text := by
  constructor
  · rintro ⟨text, htext⟩
    refine ⟨text, ?_, render_of_renderArgument htext⟩
    cases v with
    | object typeName renderer =>
      cases renderer with
      | none => exact absurd htext (by simp [renderArgument])
      | some outcome => rfl
    | _ => rfl
  · rintro ⟨text, htext⟩
    exact ⟨text, renderArgument_of_rendersTo htext operation p⟩

/-- Where rendering fails with the words of an exception, the argument's renderer throws it. -/
theorem failsWith_of_renderArgument {spoken : e.what.isSome}
    (h : renderArgument operation p v = .error (.format ⟨operation, name, .threw e spoken⟩)) :
    p.name = name ∧ v.FailsWith (some (.threw e spoken)) := by
  rcases renderArgument_error h with ⟨fault, hfails, hfailure⟩ | ⟨hfailure, -⟩
  · cases fault with
    | none => exact absurd hfailure (by simp [Failure.rendering])
    | some fault =>
      cases hfailure
      exact ⟨rfl, hfails⟩
  · exact absurd hfailure (by simp)

end Record

/-! ### Calls that fail in a renderer -/

/-- A call with these arguments comes to the object at place `i`, of the parameter `p`, and its
renderer throws the exception `e`: the arguments are accepted, the template shows the object, and
whatever it shows before has a text. -/
structure OperationDecl.Throws (d : OperationDecl) (values : List Value) (i : Nat) (p : Parameter)
    (e : Exception) : Prop where
  accepted : ∃ bound, Binding.bind d.name d.parameters values = .ok bound
  parameter : d.parameters[i]? = some p
  argument : ∃ typeName, values[i]? = some (.object typeName (some (.error (.exception e))))
  reached : ∃ before after, d.references = before ++ i :: after ∧
    ∀ j ∈ before, ∀ v, values[j]? = some v → ∃ text, v.RendersTo text

theorem OperationDecl.Throws.kind_eq {d : OperationDecl} {values : List Value} {i : Nat}
    {p : Parameter} {e : Exception} (h : d.Throws values i p e) : p.kind = .object := by
  obtain ⟨typeName, hargument⟩ := h.argument
  have hfits := (Binding.exists_bind_iff.mp h.accepted).2 i p _ h.parameter hargument
  exact (Value.fits_iff_of_object rfl).mp hfits

namespace Operation

variable {d : OperationDecl} {op : Operation} {values bound : List Value} {i : Nat} {name : Text}
  {e : Exception}

theorem Makes.exists_text_iff (h : Makes d op)
    (hb : Binding.bind op.name op.decl.parameters values = .ok bound) (hi : i ∈ d.references) :
    (∃ text, Record.renderAt d.name d.parameters bound i = .ok text) ↔
      ∀ v, values[i]? = some v → ∃ text, v.RendersTo text := by
  obtain ⟨p, v, b, hp, hgiven, hbound, hbinds⟩ := h.exists_bindsTo hb hi
  rw [Record.renderAt_eq hp hbound, Record.exists_renderArgument_iff, hbinds.exists_rendersTo_iff]
  simp only [hgiven, Option.some.injEq, forall_eq']

/-- **What a call fails with in a renderer.** -/
theorem Makes.record_of_throws (h : Makes d op) {p : Parameter} (ht : d.Throws values i p e) :
    op.record values = .error (Record.rendererThrew d.name p (.exception e)) := by
  obtain ⟨⟨bound, hb⟩, hp, ⟨typeName, hgiven⟩, before, after, hsplit, hbefore⟩ := ht
  rw [← h.name_eq, ← h.decl] at hb
  have hbound := (Binding.getElem?_object_iff hb).mpr hgiven
  rw [record_of_bind hb, map_eq_error_iff, Record.compose_error_iff, h.slots_eq, h.decl, h.name_eq]
  refine ⟨before, i, after, hsplit, ?_, ?_⟩
  · intro j hj
    have hin : j ∈ d.references := by
      rw [hsplit]
      exact List.mem_append_left _ hj
    exact (h.exists_text_iff hb hin).mpr (hbefore j hj)
  · rw [Record.renderAt_eq hp hbound]
    rfl

/-- **Which calls fail in a renderer**, and in whose. -/
theorem Makes.record_threw_iff (h : Makes d op) (spoken : e.what.isSome) :
    op.record values = .error (.format ⟨d.name, name, .threw e spoken⟩) ↔
      ∃ i p, d.Throws values i p e ∧ p.name = name := by
  constructor
  · intro hrecord
    cases hb : Binding.bind op.name op.decl.parameters values with
    | error refusal =>
      -- Arguments that are refused are not rendered.
      have hthrew : refusal.fault ≠ .threw e spoken := by
        rcases Binding.bind_error_iff.mp hb with ⟨p, -, rfl⟩ | ⟨-, rfl⟩ | ⟨-, p, v, -, rfl⟩ <;> simp
      rw [record_of_refused hb] at hrecord
      cases hrecord
      exact absurd rfl hthrew
    | ok bound =>
      rw [record_of_bind hb, map_eq_error_iff, Record.compose_error_iff, h.slots_eq, h.decl,
        h.name_eq] at hrecord
      obtain ⟨before, i, after, hsplit, hbefore, hi⟩ := hrecord
      have hmem {j : Nat} (hj : j ∈ before ++ i :: after) : j ∈ d.references := hsplit ▸ hj
      have hin : i ∈ d.references := hmem (by simp)
      obtain ⟨p, v, b, hp, hgiven, hbound, hbinds⟩ := h.exists_bindsTo hb hin
      rw [Record.renderAt_eq hp hbound] at hi
      obtain ⟨hname, hfails⟩ := Record.failsWith_of_renderArgument hi
      obtain ⟨typeName, hthrows⟩ :
          ∃ typeName, v = .object typeName (some (.error (.exception e))) := by
        cases hbinds.failsWith_iff.mp hfails
        exact ⟨_, rfl⟩
      refine ⟨i, p, ⟨⟨bound, ?_⟩, hp, ⟨typeName, hthrows ▸ hgiven⟩, before, after, hsplit, ?_⟩, hname⟩
      · rw [← h.name_eq, ← h.decl]
        exact hb
      · intro j hj
        exact (h.exists_text_iff hb (hmem (List.mem_append_left _ hj))).mp (hbefore j hj)
  · rintro ⟨i, p, hthrows, rfl⟩
    rw [h.record_of_throws hthrows, Record.rendererThrew_of_spoken]

end Operation

/-! ### What a report keeps -/

namespace FormatError

/-- The report of an error has what was thrown in front of the causes of that. -/
theorem report_of_threw {error : FormatError} {e : Exception} {spoken : e.what.isSome}
    (h : error.fault = .threw e spoken) :
    error.asException.report.causes =
        ((Thrown.exception e :: e.payloads).take 20).map Thrown.asCause ∧
      error.asException.report.truncated = decide (20 ≤ e.payloads.length) := by
  have hlinks : error.asException.links =
      (Thrown.exception e :: e.payloads).map Thrown.asCause := by
    rw [Exception.links_eq, asException, h]
    rfl
  rw [Exception.report_eq]
  simp only [hlinks, List.map_take, List.length_map, List.length_cons, Nat.lt_succ_iff, and_self]

theorem reason_of_threw {e : Exception} {text : Text} (h : e.what = some text)
    (spoken : e.what.isSome) :
    reason (.threw e spoken) = ascii "rendering threw: " ++ text.terminated := by
  simp only [reason, h, Option.get_some]

end FormatError

namespace Operation

/-- **A call that fails in a renderer keeps the failure and its causes.**

A call fails in a renderer if and only if it comes to an object that throws an exception, where that
object is shown.  If the exception has a message, the error is that of the object's parameter, whose
reason gives the message up to its first zero byte.  A report of the error keeps the exception as
its first cause and behind it the causes of the exception, as far as there are twenty in all, what
is no exception included; and it is cut short if and only if the exception has twenty causes or
more.  If the exception has no message, what the call ends in is not defined. -/
theorem record_keeps_causes {contract : Text} {d : OperationDecl} {op : Operation}
    (hc : compile contract d = .ok op) (values : List Value) (e : Exception) :
    (∀ spoken name, op.record values = .error (.format ⟨d.name, name, .threw e spoken⟩) ↔
      ∃ i p, d.Throws values i p e ∧ p.name = name) ∧
    (∀ i p, d.Throws values i p e → e.what = none → op.record values = .error .undefined) ∧
    (∀ i p text, d.Throws values i p e → e.what = some text →
      p.kind = .object ∧
      ∃ error, op.record values = .error (.format error) ∧
        error.operation = d.name ∧ error.parameter = p.name ∧
        FormatError.reason error.fault = ascii "rendering threw: " ++ text.terminated ∧
        error.asException.report.causes =
          ((Thrown.exception e :: e.payloads).take 20).map Thrown.asCause ∧
        (error.asException.report.truncated = true ↔ 20 ≤ e.payloads.length) ∧
        error.asException.report.causes =
          ⟨e.typeName, text.terminated⟩ :: (e.payloads.take 19).map Thrown.asCause) := by
  obtain ⟨-, hm⟩ := compile_ok_iff.mp hc
  refine ⟨fun spoken name => hm.record_threw_iff spoken, ?_, ?_⟩
  · intro i p hthrows hwhat
    rw [hm.record_of_throws hthrows, Record.rendererThrew_of_mute d.name p hwhat]
  intro i p text hthrows hwhat
  have spoken : e.what.isSome := by
    rw [hwhat]
    rfl
  have hfault : (FormatError.mk d.name p.name (.threw e spoken)).fault = .threw e spoken := rfl
  obtain ⟨hcauses, htruncated⟩ := FormatError.report_of_threw hfault
  refine ⟨hthrows.kind_eq, ⟨d.name, p.name, .threw e spoken⟩,
    (hm.record_threw_iff spoken).mpr ⟨i, p, hthrows, rfl⟩, rfl, rfl,
    FormatError.reason_of_threw hwhat spoken, hcauses, ?_, ?_⟩
  · rw [htruncated, decide_eq_true_iff]
  · rw [hcauses, List.take_succ_cons, List.map_cons, Thrown.asCause, hwhat]
    rfl

/-- An operation that shows a note in front of the object that is declared before it. -/
def unloading : OperationDecl where
  name := ascii "Unload"
  level := some .info
  template := Piece.spell [.placeholder (ascii "note"), .byte 32, .placeholder (ascii "crate")]
  parameters := [⟨ascii "crate", .object, 0, []⟩, ⟨ascii "note", .string, 1, []⟩]

/-- An exception with twenty causes, the last of which is no exception. -/
def breakage : Exception :=
  .causedBy (ascii "Broken") (some (ascii "at the hinge"))
    (Nat.repeat (.causedBy (ascii "Worn") none) 18 (.causedByForeign (ascii "Worn") none))

/-- The exception takes the first of the twenty places, so that its last cause is left out. -/
theorem record_keeps_causes_unloading :
    ∃ op error, compile [] unloading = .ok op ∧
      op.record [.object (ascii "Crate") (some (.error (.exception breakage))),
        .string (ascii "late:")] = .error (.format error) ∧
      error.asException.report.causes.head? = some ⟨ascii "Broken", ascii "at the hinge"⟩ ∧
      error.asException.report.truncated = true := by
  have hc : compile [] unloading = .ok
      ⟨unloading, ⟨ascii "\x7b1\x7d \x7b0\x7d", [⟨[], some 1⟩, ⟨ascii " ", some 0⟩]⟩,
        { fields := [1], all := [0, 1] }⟩ := rfl
  have hreferences : unloading.references = [1, 0] := by
    have hall : ∀ p ∈ [Piece.placeholder (ascii "note"), .byte 32, .placeholder (ascii "crate")],
        p.Allowed unloading.parameterNames := by decide
    rw [OperationDecl.references, show unloading.template = Piece.spell _ from rfl,
      Piece.contents_spell hall]
    rfl
  have hthrows : unloading.Throws [.object (ascii "Crate") (some (.error (.exception breakage))),
      .string (ascii "late:")] 0 ⟨ascii "crate", .object, 0, []⟩ breakage := by
    refine ⟨⟨_, rfl⟩, rfl, ⟨_, rfl⟩, [1], [], hreferences, fun j hj v hv => ?_⟩
    obtain rfl := List.mem_singleton.mp hj
    cases hv
    exact ⟨_, rfl, rfl⟩
  obtain ⟨-, -, hkept⟩ := record_keeps_causes hc _ breakage
  obtain ⟨-, error, hrecord, -, -, -, -, htruncated, hcauses⟩ := hkept 0 _ _ hthrows rfl
  refine ⟨_, error, hc, hrecord, ?_, htruncated.mpr (by decide)⟩
  rw [hcauses]
  rfl

end Operation

end TraceContract
