import TraceContract.Contract
import TraceContract.Proofs.Contract.Places
import Mathlib.Data.List.Basic

/-!
# Which parameters can be given roles

`Roles.assign` goes through the parameters once.  On the way it numbers them, notes those that become
fields, and keeps the place of the one that carries the exception.  It stops only at an exception, and
which one that is hangs on what the operation hands back:

    a span       the first exception, for none may be carried,
    else         the second one, for the first is carried already.

* `Roles.exceptions` are the parameters at which it can stop.
* `Roles.bar?` says why no exception may come any more, if none may.  From there on the first one is
  refused (`assign_error_iff_of_barred`); before, the second one is (`assign_error_iff_of_free`).
* `all_of_assign` and `pairwise_lt_fields_of_assign`: what is numbered and in which order.
* `Operation.assignRoles_decides`: all of it for every list of parameters.
-/

namespace TraceContract

theorem Kind.isField_iff {kind : Kind} :
    kind.isField = true ↔
      kind ∈ [Kind.string, .boolean, .character, .integer, .unsigned, .floating] := by
  cases kind <;> simp [isField]

namespace Roles

def exceptions (parameters : List Parameter) : List Parameter :=
  parameters.filter (·.kind = .exception)

/-- Why none of the parameters to come may be an exception, if none may. -/
def bar? (inSpan : Bool) (carrier : Option Text) : Option RoleFault :=
  if inSpan then some .exceptionInSpan else carrier.map .secondException

variable {inSpan : Bool} {i : Nat} {carrier : Option Text} {p : Parameter} {ps : List Parameter}
  {roles : Roles} {fault : RoleFault} {e : Text × RoleFault}

theorem exceptions_cons_of_exception (h : p.kind = .exception) :
    exceptions (p :: ps) = p :: exceptions ps :=
  List.filter_cons_of_pos (by simpa using h)

theorem exceptions_cons_of_other (h : p.kind ≠ .exception) :
    exceptions (p :: ps) = exceptions ps :=
  List.filter_cons_of_neg (by simpa using h)

theorem exceptions_eq_nil_iff : exceptions ps = [] ↔ ∀ p ∈ ps, p.kind ≠ .exception := by
  simp [exceptions]

/-! ### Refusals -/

theorem assign_cons_error_iff_of_other (h : p.kind ≠ .exception) :
    assign inSpan i carrier (p :: ps) = .error e ↔ assign inSpan (i + 1) carrier ps = .error e := by
  rw [assign.eq_def]
  simp only [if_neg h, map_eq_error_iff]

theorem assign_cons_of_barred (hbar : bar? inSpan carrier = some fault)
    (h : p.kind = .exception) : assign inSpan i carrier (p :: ps) = .error (p.name, fault) := by
  rw [assign.eq_def]
  simp only [if_pos h]
  cases inSpan with
  | true =>
    obtain rfl := Option.some.inj hbar
    rfl
  | false =>
    obtain ⟨first, rfl, rfl⟩ := Option.map_eq_some_iff.mp hbar
    rfl

theorem assign_error_iff_of_barred (hbar : bar? inSpan carrier = some fault) :
    assign inSpan i carrier ps = .error e ↔
      ∃ p, (exceptions ps)[0]? = some p ∧ e = (p.name, fault) := by
  induction ps generalizing i with
  | nil => simp [assign, exceptions]
  | cons p ps ih =>
    by_cases h : p.kind = .exception
    · rw [assign_cons_of_barred hbar h, exceptions_cons_of_exception h, List.getElem?_cons_zero]
      constructor
      · intro he
        exact ⟨p, rfl, (Except.error.inj he).symm⟩
      · rintro ⟨q, hq, rfl⟩
        rw [Option.some.inj hq]
    · rw [assign_cons_error_iff_of_other h, exceptions_cons_of_other h]
      exact ih

theorem assign_error_iff_of_free :
    assign false i none ps = .error e ↔
      ∃ p q, (exceptions ps)[0]? = some p ∧ (exceptions ps)[1]? = some q ∧
        e = (q.name, .secondException p.name) := by
  induction ps generalizing i with
  | nil => simp [assign, exceptions]
  | cons p ps ih =>
    by_cases h : p.kind = .exception
    · have hbar : bar? false (some p.name) = some (.secondException p.name) := rfl
      rw [assign, if_pos h]
      simp only [Bool.false_eq_true, if_false]
      rw [map_eq_error_iff, assign_error_iff_of_barred hbar, exceptions_cons_of_exception h,
        List.getElem?_cons_zero, List.getElem?_cons_succ]
      constructor
      · rintro ⟨q, hq, rfl⟩
        exact ⟨p, q, rfl, hq, rfl⟩
      · rintro ⟨p', q, hp, hq, rfl⟩
        obtain rfl := Option.some.inj hp
        exact ⟨q, hq, rfl⟩
    · rw [assign_cons_error_iff_of_other h, exceptions_cons_of_other h]
      exact ih

variable {handback : Handback} {parameters : List Parameter}

/-- **Which parameter is refused.** -/
theorem ofParameters_error_iff :
    ofParameters handback parameters = .error e ↔
      (handback = .span ∧ ∃ p, (exceptions parameters)[0]? = some p ∧
        e = (p.name, .exceptionInSpan)) ∨
      (handback ≠ .span ∧ ∃ p q, (exceptions parameters)[0]? = some p ∧
        (exceptions parameters)[1]? = some q ∧ e = (q.name, .secondException p.name)) := by
  by_cases h : handback = .span
  · have hspan : handback.isSpan = true := decide_eq_true h
    have hbar : bar? true none = some .exceptionInSpan := rfl
    rw [ofParameters, hspan, assign_error_iff_of_barred hbar]
    simp [h]
  · have hspan : handback.isSpan = false := decide_eq_false h
    rw [ofParameters, hspan, assign_error_iff_of_free]
    simp [h]

/-- Beside two exceptions with a number between them: a span refuses the first one, nothing the second. -/
example :
    let parameters : List Parameter :=
      [⟨ascii "a", .exception, 0, []⟩, ⟨ascii "n", .integer, 1, []⟩, ⟨ascii "b", .exception, 2, []⟩]
    ofParameters .span parameters = .error (ascii "a", .exceptionInSpan) ∧
    ofParameters .nothing parameters = .error (ascii "b", .secondException (ascii "a")) :=
  ⟨rfl, rfl⟩

/-- **Which parameters can all be given roles.** -/
theorem exists_ofParameters_iff :
    (∃ roles, ofParameters handback parameters = .ok roles) ↔
      if handback = .span then ∀ p ∈ parameters, p.kind ≠ .exception
      else (exceptions parameters).length ≤ 1 := by
  rw [exists_ok_iff, ← exceptions_eq_nil_iff]
  simp only [ne_eq, ofParameters_error_iff]
  by_cases h : handback = .span
  · cases exceptions parameters <;> simp [h]
  · match exceptions parameters with
    | [] => simp [h]
    | [_] => simp [h]
    | _ :: _ :: _ => simp [h]

/-! ### Roles that are given -/

theorem all_of_assign (h : assign inSpan i carrier ps = .ok roles) :
    roles.all = List.range' i ps.length := by
  induction ps generalizing i carrier roles with
  | nil =>
    cases h
    rfl
  | cons p ps ih =>
    rw [List.length_cons, List.range'_succ]
    rcases assign_cons_ok h with ⟨-, -, later, hlater, rfl⟩ | ⟨-, later, hlater, rfl⟩
    · rw [← ih hlater]
    · rw [← ih hlater]

/-- The fields are numbered upwards, being some of the places. -/
theorem pairwise_lt_fields_of_assign (h : assign inSpan i carrier ps = .ok roles) :
    roles.fields.Pairwise (· < ·) := by
  have hplaces : (ps.zipIdx i).map Prod.snd = List.range' i ps.length := List.zipIdx_map_snd i ps
  have hsome : roles.fields.Sublist (List.range' i ps.length) := by
    rw [fields_of_assign h, ← hplaces]
    exact List.filter_sublist.map Prod.snd
  exact List.Pairwise.sublist hsome (List.pairwise_lt_range' 1)

theorem exception_eq_none_iff (h : ofParameters handback parameters = .ok roles) :
    roles.exception = none ↔ ∀ p ∈ parameters, p.kind ≠ .exception := by
  constructor
  · intro hnone p hp hkind
    obtain ⟨i, hi⟩ := List.mem_iff_getElem?.mp hp
    have hsome := (exception_eq_some_iff h).mpr ⟨p, hi, hkind⟩
    rw [hnone] at hsome
    exact absurd hsome (by simp)
  · intro hnone
    cases hplace : roles.exception with
    | none => rfl
    | some i =>
      obtain ⟨p, hp, hkind⟩ := (exception_eq_some_iff h).mp hplace
      exact absurd hkind (hnone p (List.mem_of_getElem? hp))

theorem notMem_fields_of_exception (h : ofParameters handback parameters = .ok roles)
    (hi : roles.exception = some i) : i ∉ roles.fields := by
  intro hmem
  obtain ⟨p, hp, hkind⟩ := (exception_eq_some_iff h).mp hi
  obtain ⟨q, hq, hfield⟩ := (mem_fields_iff h).mp hmem
  obtain rfl := Option.some.inj (hp.symm.trans hq)
  exact absurd hfield (by simp [hkind, Kind.isField])

end Roles

namespace Operation

open Roles (exceptions)

/-- **What giving roles decides**, for all parameters of an operation and all that it can hand back.

It succeeds if and only if no parameter is an exception where a span is handed back, and at most one
is elsewhere.  Then all places are given in order; the fields are the places of the parameters of text,
number or truth value, upwards; and the exception is carried by the parameter that is one, if there is
one, which is no field then.  Otherwise the first exception is refused where a span is handed back, and
elsewhere the second, with the name of the first. -/
theorem assignRoles_decides (contract operation : Text) (handback : Handback)
    (parameters : List Parameter) :
    ((∃ roles, assignRoles contract operation handback parameters = .ok roles) ↔
      if handback = .span then ∀ p ∈ parameters, p.kind ≠ .exception
      else (exceptions parameters).length ≤ 1) ∧
    (∀ roles, assignRoles contract operation handback parameters = .ok roles →
      roles.all = List.range parameters.length ∧
      roles.fields.Pairwise (· < ·) ∧
      (∀ i, i ∈ roles.fields ↔ ∃ p, parameters[i]? = some p ∧
        p.kind ∈ [Kind.string, .boolean, .character, .integer, .unsigned, .floating]) ∧
      (roles.exception = none ↔ ∀ p ∈ parameters, p.kind ≠ .exception) ∧
      (∀ i, roles.exception = some i ↔ ∃ p, parameters[i]? = some p ∧ p.kind = .exception) ∧
      ∀ i, roles.exception = some i → i ∉ roles.fields) ∧
    ∀ e, assignRoles contract operation handback parameters = .error e ↔
      (handback = .span ∧ ∃ p, (exceptions parameters)[0]? = some p ∧
        e = .role contract operation p.name .exceptionInSpan) ∨
      (handback ≠ .span ∧ ∃ p q, (exceptions parameters)[0]? = some p ∧
        (exceptions parameters)[1]? = some q ∧
        e = .role contract operation q.name (.secondException p.name)) := by
  have hok (roles : Roles) : assignRoles contract operation handback parameters = .ok roles ↔
      Roles.ofParameters handback parameters = .ok roles := mapError_eq_ok_iff
  refine ⟨?_, fun roles hroles => ?_, fun e => ?_⟩
  · simp only [hok]
    exact Roles.exists_ofParameters_iff
  · have h := (hok roles).mp hroles
    refine ⟨?_, Roles.pairwise_lt_fields_of_assign h, fun i => ?_, Roles.exception_eq_none_iff h,
      fun i => Roles.exception_eq_some_iff h, fun i => Roles.notMem_fields_of_exception h⟩
    · rw [List.range_eq_range']
      exact Roles.all_of_assign h
    · simp only [← Kind.isField_iff]
      exact Roles.mem_fields_iff h
  · rw [assignRoles, mapError_eq_error_iff]
    constructor
    · rintro ⟨refused, hrefused, rfl⟩
      rcases Roles.ofParameters_error_iff.mp hrefused with
        ⟨hspan, p, hp, rfl⟩ | ⟨hother, p, q, hp, hq, rfl⟩
      · exact Or.inl ⟨hspan, p, hp, rfl⟩
      · exact Or.inr ⟨hother, p, q, hp, hq, rfl⟩
    · rintro (⟨hspan, p, hp, rfl⟩ | ⟨hother, p, q, hp, hq, rfl⟩)
      · exact ⟨_, Roles.ofParameters_error_iff.mpr (Or.inl ⟨hspan, p, hp, rfl⟩), rfl⟩
      · exact ⟨_, Roles.ofParameters_error_iff.mpr (Or.inr ⟨hother, p, q, hp, hq, rfl⟩), rfl⟩

end Operation

end TraceContract
