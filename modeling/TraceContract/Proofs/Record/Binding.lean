import TraceContract.Proofs.Template.Substitution
import Mathlib.Data.List.Forall2

/-!
# What binding does to arguments

* `Value.BindsTo` lists the ways in which an argument becomes one of a declared kind, and
  `Value.bindTo?_eq_some_iff` says that there are no others.
* `Value.Fits` says which arguments can become one of a declared kind, without saying what they
  become.
* `Binding.bind_ok_iff`: arguments are bound where there is one for each parameter and each becomes
  one of its parameter's kind.
* `Binding.bind_error_iff` and `Binding.exists_of_bind_error`: the parameter that a refusal names.
* `Binding.bind_fits`: for all arguments whether they are bound, to what, and what is wrong with
  them if they are not.
-/

namespace TraceContract

namespace Value

/-- An argument `v` as one of a declared kind. -/
inductive BindsTo : Kind → Value → Value → Prop
  | same {declared : Kind} {v : Value} (h : v.kind = declared) : BindsTo declared v v
  | toInteger (u : UInt64) (h : u.toNat < 0x8000000000000000) :
      BindsTo .integer (unsigned u) (integer (Int64.ofNat u.toNat))
  | toUnsigned (i : Int64) (h : 0 ≤ i.toInt) :
      BindsTo .unsigned (integer i) (unsigned (UInt64.ofNat i.toInt.toNat))
  | ofInteger (i : Int64) : BindsTo .floating (integer i) (floating (Binary64.ofInt i.toInt))
  | ofUnsigned (u : UInt64) : BindsTo .floating (unsigned u) (floating (Binary64.ofNat u.toNat))
  | asObject (v : Value) (h : v.kind ≠ .exception) : BindsTo .object v v

variable {declared : Kind} {v b : Value}

theorem bindTo?_of_bindsTo (h : BindsTo declared v b) : v.bindTo? declared = some b := by
  cases h with
  | same hv => unfold bindTo?; rw [if_pos hv]
  | toInteger u hu => rw [bindTo?, if_neg (by simp [kind])]; exact if_pos hu
  | toUnsigned i hi => rw [bindTo?, if_neg (by simp [kind])]; exact if_pos hi
  | ofInteger i => rfl
  | ofUnsigned u => rfl
  | asObject _ hv =>
    cases v with
    | exception handle e => exact absurd rfl hv
    | _ => rfl

/-- **The ways of binding.** -/
theorem bindTo?_eq_some_iff : v.bindTo? declared = some b ↔ BindsTo declared v b := by
  refine ⟨fun h => ?_, bindTo?_of_bindsTo⟩
  unfold bindTo? at h
  split at h
  next hkind =>
    obtain rfl := Option.some.inj h
    exact .same hkind
  next hkind =>
    split at h
    next u =>
      split at h
      next hu => cases h; exact .toInteger u hu
      next => exact absurd h (by simp)
    next i =>
      split at h
      next hi => cases h; exact .toUnsigned i hi
      next => exact absurd h (by simp)
    next i => cases h; exact .ofInteger i
    next u => cases h; exact .ofUnsigned u
    next => exact absurd h (by simp)
    next hother =>
      obtain rfl := Option.some.inj h
      refine .asObject v fun hv => ?_
      cases v with
      | exception handle e => exact hother handle e rfl
      | _ => exact absurd hv (by simp [kind])
    next => exact absurd h (by simp)

namespace BindsTo

/-- But for objects, what is bound has the declared kind. -/
theorem kind_eq (h : BindsTo declared v b) (hd : declared ≠ .object) : b.kind = declared := by
  cases h with
  | same h => exact h
  | asObject => exact absurd rfl hd
  | _ => rfl

theorem of_exception (h : BindsTo .exception v b) : v = b ∧ ∃ handle e, v = exception handle e := by
  cases h with
  | same hv =>
    cases v with
    | exception handle e => exact ⟨rfl, handle, e, rfl⟩
    | _ => exact absurd hv (by simp [kind])

/-- Objects come through unchanged, and nothing becomes one. -/
theorem object_iff (h : BindsTo declared v b) {typeName : Text}
    {renderer : Option (Except Thrown Text)} :
    b = object typeName renderer ↔ v = object typeName renderer := by
  cases h with
  | same => exact Iff.rfl
  | asObject => exact Iff.rfl
  | _ => simp

/-- What has the declared kind, and what becomes an object, is bound as it is. -/
theorem eq_self (h : BindsTo declared v b) (hv : v.kind = declared ∨ declared = .object) :
    b = v := by
  cases h with
  | same => rfl
  | asObject => rfl
  | _ => exact absurd hv (by simp [kind])

end BindsTo

def number? : Value → Option Int
  | integer i => some i.toInt
  | unsigned u => some u.toNat
  | _ => none

theorem BindsTo.number?_eq (h : BindsTo declared v b) (hd : declared ≠ .floating) :
    b.number? = v.number? := by
  cases h with
  | same => rfl
  | toInteger u hu => exact congrArg some (Int64.toInt_ofNat_of_lt hu)
  | toUnsigned i hi =>
    have hlt : i.toInt.toNat < UInt64.size := by
      have := Int64.toInt_lt i
      simp only [UInt64.size]
      omega
    refine congrArg some ?_
    rw [UInt64.toNat_ofNat_of_lt' hlt, Int.toNat_of_nonneg hi]
  | ofInteger i => exact absurd rfl hd
  | ofUnsigned u => exact absurd rfl hd
  | asObject => rfl

/-- Floating point takes the number nearest to an integer. -/
theorem BindsTo.eq_floating (h : BindsTo .floating v b) {n : Int} (hn : v.number? = some n) :
    b = floating (Binary64.ofInt n) := by
  cases h with
  | same hv =>
    cases v with
    | floating x => exact absurd hn (by simp [number?])
    | _ => exact absurd hv (by simp [kind])
  | ofInteger i => rw [← Option.some.inj hn]
  | ofUnsigned u => rw [← Option.some.inj hn, Binary64.ofInt, if_neg (by omega), Int.natAbs_natCast]

/-! ### Arguments that fit -/

/-- The argument can become one of the declared kind: it has that kind; it is a number of the other
integer kind that the declared one has too; it is an integer and a floating-point number is asked
for; or an object is, which everything can be but an exception. -/
def Fits (declared : Kind) (v : Value) : Prop :=
  v.kind = declared ∨
    (declared = .integer ∧ ∃ u, v = unsigned u ∧ u.toNat ≤ 9223372036854775807) ∨
    (declared = .unsigned ∧ ∃ i, v = integer i ∧ 0 ≤ i.toInt) ∨
    (declared = .floating ∧ (v.kind = .integer ∨ v.kind = .unsigned)) ∨
    (declared = .object ∧ v.kind ≠ .exception)

theorem BindsTo.fits (h : BindsTo declared v b) : v.Fits declared := by
  cases h with
  | same hv => exact Or.inl hv
  | toInteger u hu => exact Or.inr (Or.inl ⟨rfl, u, rfl, by omega⟩)
  | toUnsigned i hi => exact Or.inr (Or.inr (Or.inl ⟨rfl, i, rfl, hi⟩))
  | ofInteger i => exact Or.inr (Or.inr (Or.inr (Or.inl ⟨rfl, Or.inl rfl⟩)))
  | ofUnsigned u => exact Or.inr (Or.inr (Or.inr (Or.inl ⟨rfl, Or.inr rfl⟩)))
  | asObject _ hv => exact Or.inr (Or.inr (Or.inr (Or.inr ⟨rfl, hv⟩)))

theorem Fits.exists_bindsTo (h : v.Fits declared) : ∃ b, BindsTo declared v b := by
  rcases h with hsame | ⟨rfl, u, rfl, hu⟩ | ⟨rfl, i, rfl, hi⟩ | ⟨rfl, hnumber⟩ | ⟨rfl, hother⟩
  · exact ⟨v, .same hsame⟩
  · exact ⟨_, .toInteger u (by omega)⟩
  · exact ⟨_, .toUnsigned i hi⟩
  · cases v with
    | integer i => exact ⟨_, .ofInteger i⟩
    | unsigned u => exact ⟨_, .ofUnsigned u⟩
    | _ => exact absurd hnumber (by simp [kind])
  · exact ⟨v, .asObject v hother⟩

theorem bindTo?_eq_none_iff : v.bindTo? declared = none ↔ ¬ v.Fits declared := by
  cases hv : v.bindTo? declared with
  | some b => simpa using (bindTo?_eq_some_iff.mp hv).fits
  | none =>
    refine ⟨fun _ hfits => ?_, fun _ => rfl⟩
    obtain ⟨b, hb⟩ := hfits.exists_bindsTo
    rw [bindTo?_of_bindsTo hb] at hv
    exact absurd hv (by simp)

instance (declared : Kind) (v : Value) : Decidable (v.Fits declared) :=
  decidable_of_iff (¬ v.bindTo? declared = none)
    (by rw [bindTo?_eq_none_iff, Classical.not_not])

/-- From here on unsigned numbers are too large to be integers. -/
example : (unsigned 0x7fffffffffffffff).Fits .integer ∧
    ¬ (unsigned 0x8000000000000000).Fits .integer := by decide

end Value

namespace Binding

open Value (BindsTo)

variable {operation : Text} {parameters : List Parameter} {values bound : List Value}

theorem bindEach_ok_iff :
    bindEach operation parameters values = .ok bound ↔
      List.Forall₂ (fun (pv : Parameter × Value) b => BindsTo pv.1.kind pv.2 b)
        (parameters.zip values) bound := by
  induction parameters generalizing values bound with
  | nil => simp [bindEach, List.forall₂_nil_left_iff, eq_comm]
  | cons p parameters ih =>
    cases values with
    | nil => simp [bindEach, List.forall₂_nil_left_iff, eq_comm]
    | cons v values =>
      rw [bindEach, List.zip_cons_cons]
      cases hv : v.bindTo? p.kind with
      | none =>
        constructor
        · intro h
          exact absurd h (by simp)
        · intro h
          cases h with
          | cons hfirst _ =>
            rw [Value.bindTo?_of_bindsTo hfirst] at hv
            exact absurd hv (by simp)
      | some b =>
        rw [map_eq_ok_iff]
        constructor
        · rintro ⟨later, hlater, rfl⟩
          exact .cons (Value.bindTo?_eq_some_iff.mp hv) (ih.mp hlater)
        · intro h
          cases h with
          | cons hfirst hrest =>
            rw [Value.bindTo?_of_bindsTo hfirst, Option.some.injEq] at hv
            exact ⟨_, ih.mpr hrest, by rw [hv]⟩

/-- **Which arguments are bound, and to what.** -/
theorem bind_ok_iff :
    bind operation parameters values = .ok bound ↔
      values.length = parameters.length ∧
        List.Forall₂ (fun (pv : Parameter × Value) b => BindsTo pv.1.kind pv.2 b)
          (parameters.zip values) bound := by
  rw [bind]
  by_cases hlen : values.length = parameters.length
  · rw [if_pos hlen, bindEach_ok_iff]
    exact ⟨fun h => ⟨hlen, h⟩, fun h => h.2⟩
  · rw [if_neg hlen]
    constructor
    · intro h
      exact absurd h (by simp)
    · intro h
      exact absurd h.1 hlen

theorem bindsTo_of_bind (h : bind operation parameters values = .ok bound) {i : Nat}
    {p : Parameter} (hp : parameters[i]? = some p) :
    ∃ v b, values[i]? = some v ∧ bound[i]? = some b ∧ BindsTo p.kind v b := by
  obtain ⟨hlen, hall⟩ := bind_ok_iff.mp h
  have hi : i < parameters.length := (List.getElem?_eq_some_iff.mp hp).1
  have hv : i < values.length := by omega
  have hb : i < bound.length := by
    rw [length_of_bind h]
    exact hi
  refine ⟨values[i], bound[i], List.getElem?_eq_getElem hv, List.getElem?_eq_getElem hb, ?_⟩
  have hz : i < (parameters.zip values).length := by
    rw [List.length_zip]
    omega
  have hbinds := (List.forall₂_iff_get.mp hall).2 i hz hb
  rw [List.getElem?_eq_getElem hi, Option.some.injEq] at hp
  simpa [hp] using hbinds

theorem getElem?_object_iff (h : bind operation parameters values = .ok bound) {i : Nat}
    {typeName : Text} {renderer : Option (Except Thrown Text)} :
    bound[i]? = some (.object typeName renderer) ↔
      values[i]? = some (.object typeName renderer) := by
  by_cases hi : i < parameters.length
  · obtain ⟨v, b, hv, hb, hbinds⟩ := bindsTo_of_bind h (List.getElem?_eq_getElem hi)
    rw [hv, hb, Option.some.injEq, Option.some.injEq]
    exact hbinds.object_iff
  · have hlen := (bind_ok_iff.mp h).1
    have hbound := length_of_bind h
    rw [List.getElem?_eq_none (by omega), List.getElem?_eq_none (by omega)]

/-! ### Refusals -/

/-- The argument `v` at place `i` is the first that does not fit its parameter, which is `p`. -/
structure FirstMisfit (parameters : List Parameter) (values : List Value) (i : Nat)
    (p : Parameter) (v : Value) : Prop where
  parameter : parameters[i]? = some p
  argument : values[i]? = some v
  misfit : ¬ v.Fits p.kind
  before : ∀ j q w, j < i → parameters[j]? = some q → values[j]? = some w → w.Fits q.kind

theorem exists_firstMisfit_cons_iff {p q : Parameter} {v w : Value} :
    (∃ i, FirstMisfit (q :: parameters) (w :: values) i p v) ↔
      (¬ w.Fits q.kind ∧ p = q ∧ v = w) ∨
        (w.Fits q.kind ∧ ∃ i, FirstMisfit parameters values i p v) := by
  constructor
  · rintro ⟨i, hp, hv, hmisfit, hbefore⟩
    cases i with
    | zero =>
      obtain rfl : q = p := by simpa using hp
      obtain rfl : w = v := by simpa using hv
      exact Or.inl ⟨hmisfit, rfl, rfl⟩
    | succ i =>
      refine Or.inr ⟨hbefore 0 q w (by omega) rfl rfl, i, hp, hv, hmisfit, ?_⟩
      intro j q' w' hj hq' hw'
      exact hbefore (j + 1) q' w' (by omega) hq' hw'
  · rintro (⟨hmisfit, rfl, rfl⟩ | ⟨hhead, i, hp, hv, hmisfit, hbefore⟩)
    · exact ⟨0, rfl, rfl, hmisfit, fun j _ _ hj => absurd hj (by omega)⟩
    · refine ⟨i + 1, hp, hv, hmisfit, ?_⟩
      intro j q' w' hj hq' hw'
      cases j with
      | zero =>
        cases hq'
        cases hw'
        exact hhead
      | succ j => exact hbefore j q' w' (by omega) hq' hw'

/-- The first argument that does not fit is refused in the name of its parameter. -/
theorem bindEach_error_iff {e : FormatError} :
    bindEach operation parameters values = .error e ↔
      ∃ p v, (∃ i, FirstMisfit parameters values i p v) ∧
        e = ⟨operation, p.name, .kind p.kind v.kind⟩ := by
  induction parameters generalizing values with
  | nil =>
    refine ⟨fun h => absurd h (by simp [bindEach]), ?_⟩
    rintro ⟨p, v, ⟨i, hp, -⟩, -⟩
    exact absurd hp (by simp)
  | cons q parameters ih =>
    cases values with
    | nil =>
      refine ⟨fun h => absurd h (by simp [bindEach]), ?_⟩
      rintro ⟨p, v, ⟨i, -, hv, -⟩, -⟩
      exact absurd hv (by simp)
    | cons w values =>
      simp only [exists_firstMisfit_cons_iff]
      rw [bindEach]
      cases hw : w.bindTo? q.kind with
      | none =>
        have hmisfit := Value.bindTo?_eq_none_iff.mp hw
        simp only [Except.error.injEq, hmisfit, not_false_eq_true, true_and, false_and, or_false]
        constructor
        · rintro rfl
          exact ⟨q, w, ⟨rfl, rfl⟩, rfl⟩
        · rintro ⟨p, v, ⟨rfl, rfl⟩, rfl⟩
          rfl
      | some b =>
        have hfits := (Value.bindTo?_eq_some_iff.mp hw).fits
        simp only [map_eq_error_iff, ih, hfits, not_true_eq_false, false_and, true_and, false_or]

/-- **Why arguments are refused.**  There are too few of them, too many, or one that does not
fit. -/
theorem bind_error_iff {e : FormatError} :
    bind operation parameters values = .error e ↔
      (∃ p, parameters[values.length]? = some p ∧
        e = ⟨operation, p.name, .count parameters.length values.length⟩) ∨
      (parameters.length < values.length ∧
        e = ⟨operation, extra, .count parameters.length values.length⟩) ∨
      (values.length = parameters.length ∧
        ∃ p v, (∃ i, FirstMisfit parameters values i p v) ∧
          e = ⟨operation, p.name, .kind p.kind v.kind⟩) := by
  rw [bind]
  by_cases hlen : values.length = parameters.length
  · rw [if_pos hlen, bindEach_error_iff, List.getElem?_eq_none (by omega)]
    simp [hlen]
  · rw [if_neg hlen]
    cases hget : parameters[values.length]? with
    | some p =>
      have hlt := (List.getElem?_eq_some_iff.mp hget).1
      have hle : ¬ parameters.length < values.length := by omega
      simp [hlen, hle, eq_comm]
    | none =>
      have hlt : parameters.length < values.length := by
        have := List.getElem?_eq_none_iff.mp hget
        omega
      simp [hlen, hlt, eq_comm]

/-- **What a refusal names**: the operation, and a parameter or what is there beyond them. -/
theorem exists_of_bind_error {e : FormatError} (h : bind operation parameters values = .error e) :
    e.operation = operation ∧ (e.parameter ∈ parameters.map (·.name) ∨ e.parameter = extra) := by
  have named {i : Nat} {p : Parameter} (hp : parameters[i]? = some p) :
      p.name ∈ parameters.map (·.name) := List.mem_map.mpr ⟨p, List.mem_of_getElem? hp, rfl⟩
  rcases bind_error_iff.mp h with ⟨p, hp, rfl⟩ | ⟨-, rfl⟩ | ⟨-, p, v, ⟨i, hfirst⟩, rfl⟩
  · exact ⟨rfl, Or.inl (named hp)⟩
  · exact ⟨rfl, Or.inr rfl⟩
  · exact ⟨rfl, Or.inl (named hfirst.parameter)⟩

theorem exists_bind_iff :
    (∃ bound, bind operation parameters values = .ok bound) ↔
      values.length = parameters.length ∧
        ∀ (i : Nat) (p : Parameter) (v : Value),
          parameters[i]? = some p → values[i]? = some v → v.Fits p.kind := by
  constructor
  · rintro ⟨bound, hb⟩
    refine ⟨(bind_ok_iff.mp hb).1, ?_⟩
    intro i p v hp hv
    obtain ⟨w, b, hw, -, hbinds⟩ := bindsTo_of_bind hb hp
    obtain rfl := Option.some.inj (hv.symm.trans hw)
    exact hbinds.fits
  · rintro ⟨hlen, hfits⟩
    cases hb : bind operation parameters values with
    | ok bound => exact ⟨bound, rfl⟩
    | error e =>
      rcases bind_error_iff.mp hb with ⟨p, hp, -⟩ | ⟨hlt, -⟩ | ⟨-, p, v, ⟨i, hfirst⟩, -⟩
      · rw [List.getElem?_eq_none (by omega)] at hp
        exact absurd hp (by simp)
      · omega
      · exact absurd (hfits i p v hfirst.parameter hfirst.argument) hfirst.misfit

/-- **What comes of binding**, for all parameters and all arguments.

Arguments are bound if and only if there is one for each parameter and each fits.  What is bound has
the declared kind unless that is an object's; numbers stay the same between the integer kinds, and
become the nearest ones in floating point; what has the declared kind, or becomes an object, stays
as it is.  Of too few arguments the first parameter without one is at fault, of too many what is
there beyond the parameters, and otherwise the first parameter whose argument does not fit, with the
kind that it declares and the kind that was given. -/
theorem bind_fits (operation : Text) (parameters : List Parameter) (values : List Value) :
    ((∃ bound, bind operation parameters values = .ok bound) ↔
      values.length = parameters.length ∧
        ∀ (i : Nat) (p : Parameter) (v : Value),
          parameters[i]? = some p → values[i]? = some v → v.Fits p.kind) ∧
    (∀ bound, bind operation parameters values = .ok bound →
      bound.length = parameters.length ∧
      ∀ (i : Nat) (p : Parameter), parameters[i]? = some p →
        ∃ v b, values[i]? = some v ∧ bound[i]? = some b ∧
          (p.kind ≠ .object → b.kind = p.kind) ∧
          (p.kind = .integer ∨ p.kind = .unsigned → b.number? = v.number?) ∧
          (p.kind = .floating → ∀ n, v.number? = some n → b = .floating (Binary64.ofInt n)) ∧
          (v.kind = p.kind ∨ p.kind = .object → b = v)) ∧
    (∀ e, bind operation parameters values = .error e →
      (values.length < parameters.length → ∃ p, parameters[values.length]? = some p ∧
        e = ⟨operation, p.name, .count parameters.length values.length⟩) ∧
      (parameters.length < values.length →
        e = ⟨operation, extra, .count parameters.length values.length⟩) ∧
      (values.length = parameters.length → ∃ i p v, FirstMisfit parameters values i p v ∧
        e = ⟨operation, p.name, .kind p.kind v.kind⟩)) := by
  refine ⟨exists_bind_iff, ?_, ?_⟩
  · intro bound hb
    refine ⟨length_of_bind hb, ?_⟩
    intro i p hp
    obtain ⟨v, b, hv, hbound, hbinds⟩ := bindsTo_of_bind hb hp
    refine ⟨v, b, hv, hbound, hbinds.kind_eq, ?_, ?_, hbinds.eq_self⟩
    · intro hkind
      exact hbinds.number?_eq (by rcases hkind with h | h <;> simp [h])
    · intro hkind n hn
      rw [hkind] at hbinds
      exact hbinds.eq_floating hn
  · intro e he
    rcases bind_error_iff.mp he with ⟨p, hp, rfl⟩ | ⟨hlt, rfl⟩ | ⟨hlen, p, v, ⟨i, hfirst⟩, rfl⟩
    · have hlt := (List.getElem?_eq_some_iff.mp hp).1
      exact ⟨fun _ => ⟨p, hp, rfl⟩, fun h => by omega, fun h => by omega⟩
    · exact ⟨fun h => by omega, fun _ => rfl, fun h => by omega⟩
    · exact ⟨fun h => by omega, fun h => by omega, fun _ => ⟨i, p, v, hfirst, rfl⟩⟩

end Binding

end TraceContract
