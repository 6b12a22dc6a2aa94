import TraceContract.Registry
import TraceContract.Proofs.FirstOccurrences
import TraceContract.Proofs.Results

/-!
# One contract for all who ask

Programs ask a registry for contracts, each with a declaration of its own, which may do anything
to the world that it runs in and may fail.  A `History` runs `Registry.obtainIn` through such calls
and takes down what each was answered.

* `obtainIn_of_found`, `obtainIn_of_refused` and `obtainIn_of_compiled` say all that a call can do.
* `History.Kept` is the invariant: the registry holds, in the order in which they were first given
  out, the contracts that callers were answered with.
* `Kept.call` is the step and `kept_run` the run.
* `obtained_once`: what the next call does after any calls, and what the registry shows then.
-/

namespace TraceContract

namespace Registry

/-! ### One call -/

section

variable {σ : Type} {r : Registry} {key : Text} {declare : σ → σ × Except Failure ContractDecl}
  {w : σ}

theorem obtainIn_of_found {known : Compilation} (h : r.find? key = some known) (number : Nat) :
    r.obtainIn key declare number w = (w, r, .ok known) := by
  rw [obtainIn, h]

/-- A declaration that fails, or is refused, leaves the registry as it was. -/
theorem obtainIn_of_refused (h : r.find? key = none) {failure : Failure}
    (hd : compileDeclared (declare w).2 = .error failure) (number : Nat) :
    r.obtainIn key declare number w = ((declare w).1, r, .error failure) := by
  rw [obtainIn, h]
  simp only [hd]

theorem obtainIn_of_compiled (h : r.find? key = none) {contract : Contract}
    (hd : compileDeclared (declare w).2 = .ok contract) (number : Nat) :
    r.obtainIn key declare number w =
      ((declare w).1, ⟨r.entries ++ [(key, ⟨number, contract⟩)]⟩, .ok ⟨number, contract⟩) := by
  rw [obtainIn, h]
  simp only [hd]

end

theorem find?_concat (r : Registry) (key other : Text) (c : Compilation) :
    (⟨r.entries ++ [(key, c)]⟩ : Registry).find? other =
      (r.find? other).or (if key = other then some c else none) := by
  rw [find?, find?, List.find?_append]
  cases r.entries.find? (·.1 = other) with
  | some entry => rfl
  | none =>
    by_cases h : key = other
    · simp [h]
    · simp [h]

/-! ### Calls one after the other -/

structure Call (σ : Type) where
  key : Text
  declare : σ → σ × Except Failure ContractDecl

/-- A world and a registry in it, and what the callers were answered. -/
structure History (σ : Type) where
  world : σ
  registry : Registry := {}
  /-- The answers in order, each with the key that was asked for. -/
  answers : List (Text × Except Failure Compilation) := []

namespace History

variable {σ : Type}

/-- What comes of a call.  A contract that it compiles has the number of the call. -/
def outcome (h : History σ) (c : Call σ) : σ × Registry × Except Failure Compilation :=
  h.registry.obtainIn c.key c.declare h.answers.length h.world

def call (h : History σ) (c : Call σ) : History σ :=
  let (world, registry, answer) := h.outcome c
  ⟨world, registry, h.answers ++ [(c.key, answer)]⟩

def run (w : σ) (calls : List (Call σ)) : History σ := calls.foldl call { world := w }

/-- A call for the key was answered with the contract. -/
def Served (h : History σ) (key : Text) (c : Compilation) : Prop := (key, .ok c) ∈ h.answers

def servedKeys (h : History σ) : List Text :=
  h.answers.filterMap fun answer =>
    match answer.2 with
    | .ok _ => some answer.1
    | .error _ => none

theorem mem_servedKeys {h : History σ} {key : Text} :
    key ∈ h.servedKeys ↔ ∃ c, h.Served key c := by
  rw [servedKeys, List.mem_filterMap]
  constructor
  · rintro ⟨⟨asked, answer⟩, hmem, hkey⟩
    cases answer with
    | error failure => exact absurd hkey (by simp)
    | ok c =>
      obtain rfl : asked = key := Option.some.inj hkey
      exact ⟨c, hmem⟩
  · rintro ⟨c, hmem⟩
    exact ⟨(key, .ok c), hmem, rfl⟩

/-- The invariant of all runs. -/
structure Kept (h : History σ) : Prop where
  found : ∀ key c, h.registry.find? key = some c ↔ h.Served key c
  keys : h.registry.entries.map Prod.fst = h.servedKeys.eraseDups
  /-- A contract that is given out was compiled by the call of its number. -/
  compiled : ∀ key c, h.Served key c → h.answers[c.number]? = some (key, .ok c)

namespace Kept

variable {h : History σ}

theorem start (w : σ) : Kept { world := w } where
  found key c := by simp [Registry.find?, Served]
  keys := rfl
  compiled key c hserved := absurd hserved (by simp [Served])

theorem find?_eq_none_iff (hk : Kept h) {key : Text} :
    h.registry.find? key = none ↔ ∀ c, ¬ h.Served key c := by
  rw [Option.eq_none_iff_forall_ne_some]
  constructor
  · intro hnone c hserved
    exact hnone c ((hk.found key c).mpr hserved)
  · intro hnone c hfound
    exact hnone c ((hk.found key c).mp hfound)

theorem compiled_concat (hk : Kept h) {key : Text} {c : Compilation} (hs : h.Served key c)
    (answer : Text × Except Failure Compilation) :
    (h.answers ++ [answer])[c.number]? = some (key, .ok c) := by
  have hget := hk.compiled key c hs
  have hlt : c.number < h.answers.length := (List.getElem?_eq_some_iff.mp hget).1
  rw [List.getElem?_append_left hlt, hget]

section

variable {key : Text} {world : σ}

theorem again (hk : Kept h) {known : Compilation} (hfound : h.registry.find? key = some known) :
    Kept ⟨world, h.registry, h.answers ++ [(key, .ok known)]⟩ := by
  have hserved : h.Served key known := (hk.found key known).mp hfound
  have hmem (other : Text) (c : Compilation) :
      (other, .ok c) ∈ h.answers ++ [(key, .ok known)] ↔ h.Served other c := by
    rw [List.mem_append, List.mem_singleton, Prod.mk.injEq, Except.ok.injEq]
    constructor
    · rintro (hold | ⟨rfl, rfl⟩)
      · exact hold
      · exact hserved
    · exact Or.inl
  refine ⟨fun other c => ?_, ?_, fun other c hs => ?_⟩
  · rw [Served, hmem]
    exact hk.found other c
  · have hkeys : servedKeys ⟨world, h.registry, h.answers ++ [(key, .ok known)]⟩ =
        h.servedKeys ++ [key] := by
      simp [servedKeys]
    rw [hkeys, eraseDups_concat_of_mem (mem_servedKeys.mpr ⟨known, hserved⟩)]
    exact hk.keys
  · exact hk.compiled_concat ((hmem other c).mp hs) _

theorem refused (hk : Kept h) (failure : Failure) :
    Kept ⟨world, h.registry, h.answers ++ [(key, .error failure)]⟩ := by
  have hmem (other : Text) (c : Compilation) :
      (other, .ok c) ∈ h.answers ++ [(key, .error failure)] ↔ h.Served other c := by
    simp [Served]
  refine ⟨fun other c => ?_, ?_, fun other c hs => ?_⟩
  · rw [Served, hmem]
    exact hk.found other c
  · have hkeys : servedKeys ⟨world, h.registry, h.answers ++ [(key, .error failure)]⟩ =
        h.servedKeys := by
      simp [servedKeys]
    rw [hkeys]
    exact hk.keys
  · exact hk.compiled_concat ((hmem other c).mp hs) _

theorem fresh (hk : Kept h) (hnone : h.registry.find? key = none) (contract : Contract) :
    Kept ⟨world, ⟨h.registry.entries ++ [(key, ⟨h.answers.length, contract⟩)]⟩,
      h.answers ++ [(key, .ok ⟨h.answers.length, contract⟩)]⟩ := by
  have hunserved := hk.find?_eq_none_iff.mp hnone
  have hmem (other : Text) (c : Compilation) :
      (other, .ok c) ∈ h.answers ++ [(key, .ok ⟨h.answers.length, contract⟩)] ↔
        h.Served other c ∨ other = key ∧ c = ⟨h.answers.length, contract⟩ := by
    rw [List.mem_append, List.mem_singleton, Prod.mk.injEq, Except.ok.injEq]
    exact Iff.rfl
  refine ⟨fun other c => ?_, ?_, fun other c hs => ?_⟩
  · rw [Served, hmem, find?_concat]
    by_cases hkey : key = other
    · subst hkey
      rw [hnone, if_pos rfl, Option.none_or, Option.some.injEq]
      constructor
      · rintro rfl
        exact Or.inr ⟨rfl, rfl⟩
      · rintro (hold | ⟨-, rfl⟩)
        · exact absurd hold (hunserved c)
        · rfl
    · rw [if_neg hkey, Option.or_none, hk.found]
      constructor
      · exact Or.inl
      · rintro (hold | ⟨rfl, -⟩)
        · exact hold
        · exact absurd rfl hkey
  · have hkeys : servedKeys ⟨world, ⟨h.registry.entries ++ [(key, ⟨h.answers.length, contract⟩)]⟩,
        h.answers ++ [(key, .ok ⟨h.answers.length, contract⟩)]⟩ = h.servedKeys ++ [key] := by
      simp [servedKeys]
    have hnew : key ∉ h.servedKeys := by
      intro hin
      obtain ⟨c, hs⟩ := mem_servedKeys.mp hin
      exact hunserved c hs
    rw [hkeys, eraseDups_concat_of_notMem hnew, List.map_append, hk.keys]
    rfl
  · rcases (hmem other c).mp hs with hold | ⟨rfl, rfl⟩
    · exact hk.compiled_concat hold _
    · exact List.getElem?_concat_length ..

end

/-- Every call keeps the invariant, whatever comes of its declaration. -/
theorem call (hk : Kept h) (c : Call σ) : Kept (h.call c) := by
  rw [History.call, outcome]
  cases hfound : h.registry.find? c.key with
  | some known =>
    rw [obtainIn_of_found hfound]
    exact hk.again hfound
  | none =>
    cases hd : compileDeclared (c.declare h.world).2 with
    | error failure =>
      rw [obtainIn_of_refused hfound hd]
      exact hk.refused failure
    | ok contract =>
      rw [obtainIn_of_compiled hfound hd]
      exact hk.fresh hfound contract

end Kept

/-! ### Whole runs -/

theorem kept_run (w : σ) (calls : List (Call σ)) : Kept (run w calls) := by
  have go : ∀ (h : History σ), Kept h → Kept (calls.foldl call h) := by
    induction calls with
    | nil => exact fun h hk => hk
    | cons c calls ih => exact fun h hk => ih (h.call c) (hk.call c)
  exact go _ (Kept.start w)

theorem keys_answers_run (w : σ) (calls : List (Call σ)) :
    (run w calls).answers.map Prod.fst = calls.map Call.key := by
  have go : ∀ (h : History σ),
      (calls.foldl call h).answers.map Prod.fst = h.answers.map Prod.fst ++ calls.map Call.key := by
    induction calls with
    | nil => simp
    | cons c calls ih =>
      intro h
      rw [List.foldl_cons, ih, call, List.map_append, List.append_assoc]
      rfl
  exact go _

theorem length_answers_run (w : σ) (calls : List (Call σ)) :
    (run w calls).answers.length = calls.length := by
  rw [← List.length_map Prod.fst, keys_answers_run, List.length_map]

/-- **A contract is compiled once**, in any world and after any calls.

A call for a key for which an earlier call was answered with a contract is answered with the same
one, and nothing happens besides.  Any other call runs its declaration once.  Where that fails, or
what was declared does not compile, the failure is the answer and the registry is as it was;
otherwise the contract is added under the key, behind all that was there.

At every point the registry has a contract for the keys of the calls that were answered with one,
as many as there are different ones; what one key is answered with never changes, and was compiled
by the call of its number. -/
theorem obtained_once (w : σ) (calls : List (Call σ)) :
    let h := run w calls
    (∀ c : Call σ,
      (∀ known, h.Served c.key known → h.outcome c = (h.world, h.registry, .ok known)) ∧
      ((∀ known, ¬ h.Served c.key known) → ∀ world declared,
        c.declare h.world = (world, declared) →
        (∀ failure, declared = .error failure →
          h.outcome c = (world, h.registry, .error failure)) ∧
        (∀ d e, declared = .ok d → Contract.compile d = .error e →
          h.outcome c = (world, h.registry, .error (.declaration e))) ∧
        (∀ d contract, declared = .ok d → Contract.compile d = .ok contract →
          h.outcome c = (world, ⟨h.registry.entries ++ [(c.key, ⟨calls.length, contract⟩)]⟩,
            .ok ⟨calls.length, contract⟩)))) ∧
    h.answers.map Prod.fst = calls.map Call.key ∧
    (∀ key, h.registry.contains key = true ↔ ∃ known, h.Served key known) ∧
    h.registry.size = h.servedKeys.eraseDups.length ∧
    (∀ key known known', h.Served key known → h.Served key known' → known = known') ∧
    (∀ key known, h.Served key known → h.answers[known.number]? = some (key, .ok known)) := by
  intro h
  have hk : Kept h := kept_run w calls
  refine ⟨fun c => ⟨?_, ?_⟩, keys_answers_run w calls, ?_, ?_, ?_, hk.compiled⟩
  · intro known hserved
    exact obtainIn_of_found ((hk.found c.key known).mpr hserved) _
  · intro hunserved world declared hdeclare
    have hnone := hk.find?_eq_none_iff.mpr hunserved
    have hnumber : h.answers.length = calls.length := length_answers_run w calls
    obtain ⟨hworld, hdeclared⟩ := Prod.mk.inj hdeclare
    refine ⟨?_, ?_, ?_⟩
    · intro failure hd
      rw [← hworld]
      refine obtainIn_of_refused hnone ?_ _
      rw [hdeclared, hd]
      rfl
    · intro d e hd he
      rw [← hworld]
      refine obtainIn_of_refused hnone ?_ _
      rw [hdeclared, hd, compileDeclared, he]
      rfl
    · intro d contract hd hc
      rw [← hworld, ← hnumber]
      refine obtainIn_of_compiled hnone ?_ _
      rw [hdeclared, hd, compileDeclared, hc]
      rfl
  · intro key
    rw [contains, Option.isSome_iff_exists]
    simp only [hk.found]
  · rw [size, ← hk.keys, List.length_map]
  · intro key known known' hs hs'
    have hfound := (hk.found key known).mpr hs
    rw [(hk.found key known').mpr hs'] at hfound
    exact (Option.some.inj hfound).symm

/-- The declarations that were run are counted: the one that fails and the first that compiles. -/
example :
    let ask (d : Except Failure ContractDecl) : Call Nat := ⟨ascii "shop", fun n => (n + 1, d)⟩
    let h := run 0 [ask (.error .absent), ask (.ok ⟨ascii "A", []⟩), ask (.ok ⟨ascii "B", []⟩)]
    h.world = 2 ∧ h.answers.map (·.2.toOption) =
      [none, some ⟨1, ⟨ascii "A", []⟩⟩, some ⟨1, ⟨ascii "A", []⟩⟩] := by
  decide

end History

end Registry

end TraceContract
