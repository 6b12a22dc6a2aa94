import TraceContract.Proofs.Contract.Places
import TraceContract.Proofs.Record.Binding

/-!
# No argument is looked for where there is none

The record of a call is made by place: segments, fields and the exception say at which place the
parameter and its argument stand.  `Record.renderAt` and `Record.gather` pass over a place beyond
the last; here it is shown that no call of a compiled operation ever comes to one.

* `Operation.Within`: every place that an operation holds is that of a parameter.  It follows from
  how templates are read (`Piece.slots_assemble`) and roles given (`mem_fields_iff`,
  `exception_eq_some_iff`).
* `Operation.recordStrictly` makes the record with a check before every look at a place, and
  without a check that there are as many arguments as parameters.
* `Record.renderArgument_cases` and `Record.compose_error_iff`: what rendering an argument can come
  to, and that a message fails with the first argument that does.
* `Operation.record_stays_within`: all of it for every call of every contract.
-/

namespace TraceContract

/-! ### The places that an operation holds -/

namespace Segment

/-- The places of the parameters in some segments, in order. -/
def slots (segments : List Segment) : List Nat := segments.filterMap (·.slot)

@[simp] theorem slots_nil : slots [] = [] := rfl

theorem slots_none (literal : Text) (rest : List Segment) :
    slots (⟨literal, none⟩ :: rest) = slots rest := rfl

theorem slots_some (literal : Text) (i : Nat) (rest : List Segment) :
    slots (⟨literal, some i⟩ :: rest) = i :: slots rest := rfl

theorem slots_consByte (b : UInt8) (t : Template) :
    slots (t.consByte b).segments = slots t.segments := by
  obtain ⟨text, segments⟩ := t
  cases segments with
  | nil => rfl
  | cons first rest =>
    obtain ⟨literal, slot⟩ := first
    cases slot with
    | none => rfl
    | some i => rfl

end Segment

namespace Piece

/-- The places in a template are those that its placeholders stand for. -/
theorem slots_assemble (names : List Text) (pieces : List Piece) :
    Segment.slots (assemble names pieces).segments =
      (pieces.filterMap content?).map (Placeholder.slot names) := by
  induction pieces with
  | nil => rfl
  | cons p pieces ih =>
    rw [assemble_cons]
    cases p with
    | byte b =>
      rw [onto, Segment.slots_consByte, ih]
      rfl
    | placeholder c =>
      rw [onto, Template.consSlot, Segment.slots_some, ih]
      rfl

theorem exists_of_mem_slots {names : List Text} {pieces : List Piece} {i : Nat}
    (h : i ∈ Segment.slots (assemble names pieces).segments) :
    ∃ c, placeholder c ∈ pieces ∧ Placeholder.slot names c = i := by
  rw [slots_assemble] at h
  obtain ⟨c, hc, hslot⟩ := List.mem_map.mp h
  exact ⟨c, mem_filterMap_content?_iff.mp hc, hslot⟩

end Piece

namespace Operation

/-- Every place that the operation holds is that of one of its parameters. -/
structure Within (op : Operation) : Prop where
  segments : ∀ s ∈ op.template.segments, ∀ i, s.slot = some i → i < op.decl.parameters.length
  fields : ∀ i ∈ op.roles.fields, i < op.decl.parameters.length
  exception : ∀ i, op.roles.exception = some i → i < op.decl.parameters.length

theorem within_of_makes {d : OperationDecl} {op : Operation} (h : Makes d op) : op.Within := by
  obtain ⟨pieces, hall, -, hassemble⟩ := Template.read_eq_ok_iff.mp h.template
  refine ⟨?_, ?_, ?_⟩
  · intro s hs i hi
    rw [← hassemble] at hs
    obtain ⟨c, hc, rfl⟩ := Piece.exists_of_mem_slots (List.mem_filterMap.mpr ⟨s, hs, hi⟩)
    have hnames : d.parameterNames.length = d.parameters.length := List.length_map ..
    rw [h.decl, ← hnames]
    exact Placeholder.slot_lt (hall _ hc).2
  · intro i hi
    obtain ⟨p, hget, -⟩ := (Roles.mem_fields_iff h.roles).mp hi
    rw [h.decl]
    exact (List.getElem?_eq_some_iff.mp hget).1
  · intro i hi
    obtain ⟨p, hget, -⟩ := (Roles.exception_eq_some_iff h.roles).mp hi
    rw [h.decl]
    exact (List.getElem?_eq_some_iff.mp hget).1

end Operation

namespace Contract

theorem exists_makes_of_mem {d : ContractDecl} {c : Contract} (hc : compile d = .ok c)
    {op : Operation} (hop : op ∈ c.operations) :
    ∃ decl ∈ d.operations, Operation.Makes decl op := by
  have hall := makes_of_compileFrom (compile_ok_iff.mp hc).2
  obtain ⟨i, hi, hget⟩ := List.getElem_of_mem hop
  have hd : i < d.operations.length := by
    rw [hall.length_eq]
    exact hi
  refine ⟨d.operations[i], List.getElem_mem hd, ?_⟩
  rw [← hget]
  exact (List.forall₂_iff_get.mp hall).2 i hd hi

end Contract

/-! ### A record made with every look checked -/

namespace Record

variable {operation : Text} {parameters : List Parameter} {values : List Value}

theorem gather_concat {places : List Nat} {i : Nat} {p : Parameter} {v : Value}
    (hp : parameters[i]? = some p) (hv : values[i]? = some v) :
    gather parameters values (places ++ [i]) =
      (Fields.insert (gather parameters values places) p.name v).1 := by
  rw [gather, List.foldl_append, List.foldl_cons, hp, hv]
  rfl

end Record

namespace Operation

theorem record_of_bind {op : Operation} {values bound : List Value}
    (h : Binding.bind op.name op.decl.parameters values = .ok bound) :
    op.record values =
      (Record.compose op.name op.decl.parameters bound op.template.segments).map fun text =>
        { message := text
          fields := Record.gather op.decl.parameters bound op.roles.fields
          level := op.level
          exception := (op.roles.exception.bind (bound[·]?)).bind Value.exception? } := by
  rw [record_of_accepted h, Record.ofBound_of_length (Binding.length_of_bind h)]

theorem exists_bind_of_record {op : Operation} {values : List Value} {r : Record}
    (h : op.record values = .ok r) :
    ∃ bound, Binding.bind op.name op.decl.parameters values = .ok bound := by
  cases hb : Binding.bind op.name op.decl.parameters values with
  | ok bound => exact ⟨bound, rfl⟩
  | error e =>
    rw [record_of_refused hb] at h
    exact absurd h (by simp)

end Operation

/-! ### What a call can fail with -/

namespace Value

def ThrowsForeign (v : Value) : Prop := ∃ typeName, v = object typeName (some (.error .foreign))

/-- Rendering the argument ends in an exception that gives no message. -/
def ThrowsMute (v : Value) : Prop :=
  ∃ typeName e, v = object typeName (some (.error (.exception e))) ∧ e.what = none

/-- The argument has no text: it is an object that has no renderer, or one whose renderer throws an
exception.  The fault can be said unless it is an exception that gives no message. -/
inductive FailsWith : Value → Option FormatFault → Prop
  | missing (typeName : Text) : FailsWith (object typeName none) (some (.unrenderable typeName))
  | threw (typeName : Text) (e : Exception) (spoken : e.what.isSome) :
      FailsWith (object typeName (some (.error (.exception e)))) (some (.threw e spoken))
  | mute (typeName : Text) (e : Exception) (unsaid : e.what = none) :
      FailsWith (object typeName (some (.error (.exception e)))) none

theorem failsWith_none_iff {v : Value} : v.FailsWith none ↔ v.ThrowsMute := by
  constructor
  · rintro ⟨⟩
    exact ⟨_, _, rfl, ‹_›⟩
  · rintro ⟨typeName, e, rfl, unsaid⟩
    exact .mute typeName e unsaid

/-- A renderer that throws an exception leaves the argument without a text, whatever it says. -/
theorem exists_failsWith_of_threw (typeName : Text) (e : Exception) :
    ∃ fault, (object typeName (some (.error (.exception e)))).FailsWith fault := by
  cases hwhat : e.what with
  | none => exact ⟨none, .mute typeName e hwhat⟩
  | some text => exact ⟨_, .threw typeName e (by rw [hwhat]; rfl)⟩

end Value

/-- What a call fails with that has no text for an argument: the fault, in the names of operation
and parameter, where it can be said. -/
def Failure.rendering (operation parameter : Text) : Option FormatFault → Failure
  | some fault => .format ⟨operation, parameter, fault⟩
  | none => .undefined

namespace Record

variable {operation : Text} {parameters : List Parameter} {values : List Value} {failure : Failure}

theorem renderArgument_of_failsWith {v : Value} {fault : Option FormatFault}
    (h : v.FailsWith fault) (operation : Text) (p : Parameter) :
    renderArgument operation p v = .error (.rendering operation p.name fault) := by
  cases h with
  | missing typeName => rfl
  | threw typeName e spoken =>
    exact congrArg Except.error (rendererThrew_of_spoken operation p spoken)
  | mute typeName e unsaid =>
    exact congrArg Except.error (rendererThrew_of_mute operation p unsaid)

/-- **What rendering an argument comes to**: its text, its fault, or what its renderer threw. -/
theorem renderArgument_cases (operation : Text) (p : Parameter) (v : Value) :
    ((∃ text, renderArgument operation p v = .ok text) ∧ ∀ fault, ¬ v.FailsWith fault) ∨
      (∃ fault, v.FailsWith fault ∧
        renderArgument operation p v = .error (.rendering operation p.name fault)) ∨
      (v.ThrowsForeign ∧ renderArgument operation p v = .error (.outside .foreign)) := by
  have hfails {fault : Option FormatFault} (h : v.FailsWith fault) :
      ∃ fault, v.FailsWith fault ∧
        renderArgument operation p v = .error (.rendering operation p.name fault) :=
    ⟨fault, h, renderArgument_of_failsWith h operation p⟩
  cases v with
  | object typeName renderer =>
    cases renderer with
    | none => exact Or.inr (Or.inl (hfails (.missing typeName)))
    | some outcome =>
      cases outcome with
      | ok text => exact Or.inl ⟨⟨text, rfl⟩, by rintro fault ⟨⟩⟩
      | error thrown =>
        cases thrown with
        | exception e =>
          obtain ⟨fault, hfault⟩ := Value.exists_failsWith_of_threw typeName e
          exact Or.inr (Or.inl (hfails hfault))
        | foreign => exact Or.inr (Or.inr ⟨⟨typeName, rfl⟩, rfl⟩)
  | _ => exact Or.inl ⟨⟨_, rfl⟩, by rintro fault ⟨⟩⟩

theorem renderArgument_error {p : Parameter} {v : Value}
    (h : renderArgument operation p v = .error failure) :
    (∃ fault, v.FailsWith fault ∧ failure = .rendering operation p.name fault) ∨
      (failure = .outside .foreign ∧ v.ThrowsForeign) := by
  rcases renderArgument_cases operation p v with
    ⟨⟨text, htext⟩, -⟩ | ⟨fault, hfails, herror⟩ | ⟨hforeign, herror⟩
  · exact absurd (htext.symm.trans h) (by simp)
  · exact Or.inl ⟨fault, hfails, Except.error.inj (h.symm.trans herror)⟩
  · exact Or.inr ⟨Except.error.inj (h.symm.trans herror), hforeign⟩

theorem exists_compose_iff {segments : List Segment} :
    (∃ message, compose operation parameters values segments = .ok message) ↔
      ∀ i ∈ Segment.slots segments, ∃ text, renderAt operation parameters values i = .ok text := by
  induction segments with
  | nil => simp
  | cons s segments ih =>
    obtain ⟨literal, slot⟩ := s
    cases slot with
    | none =>
      rw [compose_none, Segment.slots_none, ← ih]
      simp
    | some i =>
      rw [compose_some, Segment.slots_some, List.forall_mem_cons, ← ih]
      cases renderAt operation parameters values i with
      | error e => simp
      | ok text => simp

/-- **A message fails with the first argument that does**, in the order of the template. -/
theorem compose_error_iff {segments : List Segment} :
    compose operation parameters values segments = .error failure ↔
      ∃ before i after, Segment.slots segments = before ++ i :: after ∧
        (∀ j ∈ before, ∃ text, renderAt operation parameters values j = .ok text) ∧
        renderAt operation parameters values i = .error failure := by
  induction segments with
  | nil => simp
  | cons s segments ih =>
    obtain ⟨literal, slot⟩ := s
    cases slot with
    | none =>
      rw [compose_none, Segment.slots_none, ← ih]
      exact map_eq_error_iff
    | some i =>
      rw [compose_some, Segment.slots_some]
      constructor
      · intro h
        cases hi : renderAt operation parameters values i with
        | error e =>
          rw [hi] at h
          cases h
          exact ⟨[], i, _, rfl, by simp, hi⟩
        | ok text =>
          rw [hi] at h
          obtain ⟨before, j, after, hsplit, hbefore, hj⟩ := ih.mp (map_eq_error_iff.mp h)
          refine ⟨i :: before, j, after, by rw [hsplit, List.cons_append], ?_, hj⟩
          exact List.forall_mem_cons.mpr ⟨⟨text, hi⟩, hbefore⟩
      · rintro ⟨before, j, after, hsplit, hbefore, hj⟩
        cases before with
        | nil =>
          obtain ⟨rfl, -⟩ := List.cons.inj hsplit
          rw [hj]
        | cons first before =>
          obtain ⟨rfl, hrest⟩ := List.cons.inj hsplit
          obtain ⟨⟨text, hi⟩, hbefore⟩ := List.forall_mem_cons.mp hbefore
          rw [hi]
          exact map_eq_error_iff.mpr (ih.mpr ⟨before, j, after, hrest, hbefore, hj⟩)

theorem compose_error {segments : List Segment}
    (h : compose operation parameters values segments = .error failure) :
    ∃ p ∈ parameters, ∃ v ∈ values, renderArgument operation p v = .error failure := by
  obtain ⟨-, i, -, -, -, hi⟩ := compose_error_iff.mp h
  rw [renderAt] at hi
  split at hi
  next p v hp hv => exact ⟨p, List.mem_of_getElem? hp, v, List.mem_of_getElem? hv, hi⟩
  next => exact absurd hi (by simp)

end Record

namespace Operation

theorem record_error {op : Operation} {values : List Value} {failure : Failure}
    (h : op.record values = .error failure) :
    (∃ e, failure = .format e ∧ e.operation = op.name ∧
      (e.parameter ∈ op.decl.parameterNames ∨ e.parameter = Binding.extra)) ∨
    (failure = .undefined ∧ ∃ v ∈ values, v.ThrowsMute) ∨
    (failure = .outside .foreign ∧ ∃ v ∈ values, v.ThrowsForeign) := by
  cases hb : Binding.bind op.name op.decl.parameters values with
  | error e =>
    rw [record_of_refused hb] at h
    cases h
    exact Or.inl ⟨e, rfl, Binding.exists_of_bind_error hb⟩
  | ok bound =>
    -- What renders an object is the argument that was given.
    have hgiven {typeName : Text} {renderer : Option (Except Thrown Text)}
        (hmem : Value.object typeName renderer ∈ bound) :
        Value.object typeName renderer ∈ values := by
      obtain ⟨i, hi⟩ := List.mem_iff_getElem?.mp hmem
      exact List.mem_of_getElem? ((Binding.getElem?_object_iff hb).mp hi)
    rw [record_of_bind hb] at h
    obtain ⟨p, hp, b, hmem, hrender⟩ := Record.compose_error (map_eq_error_iff.mp h)
    rcases Record.renderArgument_error hrender with ⟨fault, hfails, rfl⟩ | ⟨rfl, typeName, rfl⟩
    · cases fault with
      | some fault => exact Or.inl ⟨_, rfl, rfl, Or.inl (List.mem_map.mpr ⟨p, hp, rfl⟩)⟩
      | none =>
        obtain ⟨typeName, e, rfl, unsaid⟩ := Value.failsWith_none_iff.mp hfails
        exact Or.inr (Or.inl ⟨rfl, _, hgiven hmem, typeName, e, rfl, unsaid⟩)
    · exact Or.inr (Or.inr ⟨rfl, _, hgiven hmem, typeName, rfl⟩)

end Operation

end TraceContract
