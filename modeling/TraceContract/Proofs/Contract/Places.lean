import TraceContract.Proofs.Results
import TraceContract.Roles
import Mathlib.Data.List.Basic

/-!
# The places of roles

Which parameters `Roles.ofParameters` makes fields of, and which carries the exception.

* `fields_of_assign`: the fields are the parameters whose kind is that of fields, in order.
* `exception_of_assign`: the exception is carried by the parameter of that kind, of which there is
  no second one.

Both are inductions along `Roles.assign`, of which `assign_cons_ok` says all that one parameter can
do.
-/

namespace TraceContract

namespace Roles

variable {inSpan : Bool} {i : Nat} {carrier : Option Text} {p : Parameter} {ps : List Parameter}
  {roles : Roles}

/-- The first of some parameters that are all given roles carries the exception, where none before
it does, or carries none and is a field or not. -/
theorem assign_cons_ok (h : assign inSpan i carrier (p :: ps) = .ok roles) :
    (p.kind = .exception ∧ carrier = none ∧
      ∃ later, assign inSpan (i + 1) (some p.name) ps = .ok later ∧
        roles = { later with exception := some i, all := i :: later.all }) ∨
    (p.kind ≠ .exception ∧
      ∃ later, assign inSpan (i + 1) carrier ps = .ok later ∧
        roles = { later with
          fields := if p.kind.isField then i :: later.fields else later.fields
          all := i :: later.all }) := by
  unfold assign at h
  split at h
  next hkind =>
    split at h
    · exact absurd h (by simp)
    split at h
    · exact absurd h (by simp)
    · obtain ⟨later, hlater, rfl⟩ := map_eq_ok_iff.mp h
      exact Or.inl ⟨hkind, rfl, later, hlater, rfl⟩
  next hkind =>
    obtain ⟨later, hlater, rfl⟩ := map_eq_ok_iff.mp h
    exact Or.inr ⟨hkind, later, hlater, rfl⟩

theorem fields_of_assign (h : assign inSpan i carrier ps = .ok roles) :
    roles.fields = ((ps.zipIdx i).filter (·.1.kind.isField)).map Prod.snd := by
  induction ps generalizing i carrier roles with
  | nil =>
    cases h
    rfl
  | cons p ps ih =>
    rw [List.zipIdx_cons]
    rcases assign_cons_ok h with ⟨hkind, -, later, hlater, rfl⟩ | ⟨-, later, hlater, rfl⟩
    · rw [List.filter_cons_of_neg (by simp [hkind, Kind.isField]), ← ih hlater]
    · cases hfield : p.kind.isField with
      | true =>
        rw [List.filter_cons_of_pos (by simpa using hfield), List.map_cons, ← ih hlater]
        rfl
      | false =>
        rw [List.filter_cons_of_neg (by simp [hfield]), ← ih hlater]
        rfl

theorem kind_ne_exception_of_assign {first : Text}
    (h : assign inSpan i (some first) ps = .ok roles) {q : Parameter} (hq : q ∈ ps) :
    q.kind ≠ .exception := by
  induction ps generalizing i roles with
  | nil => exact absurd hq (by simp)
  | cons p ps ih =>
    rcases assign_cons_ok h with ⟨-, hnone, -⟩ | ⟨hkind, later, hlater, -⟩
    · exact absurd hnone (by simp)
    · rcases List.mem_cons.mp hq with rfl | hrest
      · exact hkind
      · exact ih hlater hrest

theorem exception_of_assign (h : assign inSpan i carrier ps = .ok roles) {j : Nat} :
    roles.exception = some j ↔ ∃ k q, j = i + k ∧ ps[k]? = some q ∧ q.kind = .exception := by
  induction ps generalizing i carrier roles with
  | nil =>
    cases h
    simp
  | cons p ps ih =>
    -- A place behind the first, counted from the first and from the second parameter.
    have hbehind : (∃ k q, j = i + k ∧ (p :: ps)[k]? = some q ∧ q.kind = .exception) ↔
        (j = i ∧ p.kind = .exception) ∨
          ∃ k q, j = i + 1 + k ∧ ps[k]? = some q ∧ q.kind = .exception := by
      constructor
      · rintro ⟨k, q, hj, hget, hkind⟩
        cases k with
        | zero =>
          obtain rfl : p = q := Option.some.inj hget
          exact Or.inl ⟨hj, hkind⟩
        | succ k => exact Or.inr ⟨k, q, by omega, hget, hkind⟩
      · rintro (⟨hj, hkind⟩ | ⟨k, q, hj, hget, hkind⟩)
        · exact ⟨0, p, hj, rfl, hkind⟩
        · exact ⟨k + 1, q, by omega, hget, hkind⟩
    rw [hbehind]
    rcases assign_cons_ok h with ⟨hkind, -, later, hlater, rfl⟩ | ⟨hkind, later, hlater, rfl⟩
    · constructor
      · intro hj
        exact Or.inl ⟨(Option.some.inj hj).symm, hkind⟩
      · rintro (⟨rfl, -⟩ | ⟨k, q, -, hget, hq⟩)
        · rfl
        · exact absurd hq (kind_ne_exception_of_assign hlater (List.mem_of_getElem? hget))
    · show later.exception = some j ↔ _
      rw [ih hlater]
      constructor
      · exact Or.inr
      · rintro (⟨-, hfirst⟩ | hrest)
        · exact absurd hfirst hkind
        · exact hrest

variable {handback : Handback} {parameters : List Parameter}

theorem mem_fields_iff (h : ofParameters handback parameters = .ok roles) {i : Nat} :
    i ∈ roles.fields ↔ ∃ p, parameters[i]? = some p ∧ p.kind.isField = true := by
  rw [fields_of_assign h, List.mem_map]
  constructor
  · rintro ⟨⟨p, k⟩, hmem, rfl⟩
    obtain ⟨hin, hfield⟩ := List.mem_filter.mp hmem
    exact ⟨p, List.mk_mem_zipIdx_iff_getElem?.mp hin, hfield⟩
  · rintro ⟨p, hget, hfield⟩
    exact ⟨(p, i), List.mem_filter.mpr ⟨List.mk_mem_zipIdx_iff_getElem?.mpr hget, hfield⟩, rfl⟩

theorem exception_eq_some_iff (h : ofParameters handback parameters = .ok roles) {i : Nat} :
    roles.exception = some i ↔ ∃ p, parameters[i]? = some p ∧ p.kind = .exception := by
  rw [exception_of_assign h]
  constructor
  · rintro ⟨k, p, rfl, hget, hkind⟩
    exact ⟨p, by rwa [Nat.zero_add], hkind⟩
  · rintro ⟨p, hget, hkind⟩
    exact ⟨i, p, (Nat.zero_add i).symm, hget, hkind⟩

end Roles

end TraceContract
