import TraceContract.Proofs.Process.Adapters
import Mathlib.Data.Finset.Card
import Mathlib.Data.Finset.Range

/-!
# The way of a record through adapters

A record that is given to a deferred adapter goes on to the adapter's target, and from there on to
the target of that.  `Process.emitWithin` follows it with a bound on its steps.  Here it is shown
that the bound does not show: only a record in a ring of settled adapters goes on for longer, and it
exhausts every bound.  So `Process.emit` obeys equations without one.

* `Process.Passes` is the way of a record along settled adapters, and `Process.Returns` tells the
  adapters that it leads back to.
* `Process.emitWithin_of_returns`: a record in a ring exhausts every bound.
* `Process.reach` is the most steps that a record can take where it is in no ring.  The induction
  that uses it carries the settled adapters that were passed since an open one, a `Process.Trail`.
* `Process.emitWithin_congr`: two bounds that are large enough make no difference.
* `Process.emit_of_settled` and `Process.emit_of_open`: what a deferred adapter does with a record.
* `Process.emit_of_passes` and `Process.emit_of_returns`: what comes of a record by where its way
  leads, and `Process.ends_or_returns`: the way ends, or it leads into a ring.
-/

namespace TraceContract

/-! ### How far a record can go -/

namespace Adapter

def isOpen : Adapter → Bool
  | .deferred _ .open => true
  | _ => false

theorem isOpen_iff {a : Adapter} : a.isOpen = true ↔ ∃ name, a = .deferred name .open := by
  constructor
  · intro h
    match a, h with
    | .deferred name .open, _ => exact ⟨name, rfl⟩
  · rintro ⟨name, rfl⟩
    rfl

end Adapter

namespace Process

variable {p q : Process} {h k : Handle} {name : Text} {target : Handle}

def opens (p : Process) : Finset Nat :=
  (Finset.range p.adapters.length).filter fun h => p.adapters[h]?.any Adapter.isOpen

theorem mem_opens : h ∈ p.opens ↔ ∃ name, p.adapters[h]? = some (.deferred name .open) := by
  rw [opens, Finset.mem_filter, Finset.mem_range]
  constructor
  · rintro ⟨-, hany⟩
    obtain ⟨a, ha, hopen⟩ := Option.any_eq_true _ _ |>.mp hany
    obtain ⟨name, rfl⟩ := Adapter.isOpen_iff.mp hopen
    exact ⟨name, ha⟩
  · rintro ⟨name, ho⟩
    refine ⟨lt_of_getElem? ho, ?_⟩
    rw [ho]
    rfl

theorem Leads.opens_subset (hl : Leads p q) : q.opens ⊆ p.opens := by
  intro h hq
  rw [mem_opens] at hq ⊢
  obtain ⟨name, hq⟩ := hq
  obtain ⟨before, hp, rfl | rfl⟩ := hl.origin hq
  · exact ⟨name, hp⟩
  · exact ⟨name, hp⟩

theorem opens_put {a : Adapter} (ha : a.isOpen = false) : (p.put h a).opens = p.opens.erase h := by
  ext k
  rw [Finset.mem_erase, mem_opens, mem_opens]
  by_cases hk : h = k
  · subst hk
    constructor
    · rintro ⟨name, ho⟩
      have hlt := lt_of_getElem? ho
      rw [length_put] at hlt
      rw [getElem?_put_self hlt] at ho
      obtain rfl := Option.some.inj ho
      exact absurd ha (by simp [Adapter.isOpen])
    · rintro ⟨hne, -⟩
      exact absurd rfl hne
  · rw [getElem?_put_of_ne hk]
    exact ⟨fun ho => ⟨Ne.symm hk, ho⟩, And.right⟩

/-- The most steps of a record among `n` adapters of which `k` are open.  Before each open adapter
it may pass all that are settled by then. -/
def steps (n : Nat) : (k : Nat) → Nat
  | 0 => n + 1
  | k + 1 => steps n k + (n - k)

theorem steps_mono (n : Nat) {j k : Nat} (hjk : j ≤ k) : steps n j ≤ steps n k := by
  induction hjk with
  | refl => exact Nat.le_refl _
  | step _ ih => exact ih.trans (Nat.le_add_right _ _)

theorem lt_steps (n k : Nat) : n < steps n k := by
  have hle : steps n 0 ≤ steps n k := steps_mono n (Nat.zero_le k)
  exact hle

theorem two_mul_steps {n k : Nat} (h : k ≤ n) :
    2 * steps n k + k * k = 2 * (n + 1) + 2 * (k * n) + k := by
  induction k with
  | zero => rw [steps]; omega
  | succ k ih =>
    have ih := ih (by omega)
    have hsquare : (k + 1) * (k + 1) = k * k + 2 * k + 1 := by
      rw [Nat.succ_mul, Nat.mul_succ]
      omega
    rw [steps, hsquare, Nat.succ_mul k n]
    omega

def reach (p : Process) : Nat := steps p.adapters.length p.opens.card

/-- The bound of `Process.emit` leaves one step to spare. -/
theorem reach_lt_depth (p : Process) : p.reach < p.depth := by
  have hcard : p.opens.card ≤ p.adapters.length := by
    have hle := Finset.card_filter_le (Finset.range p.adapters.length)
      fun h => p.adapters[h]?.any Adapter.isOpen
    rwa [Finset.card_range] at hle
  have hmost := steps_mono p.adapters.length hcard
  have htwice := two_mul_steps (Nat.le_refl p.adapters.length)
  rw [reach, depth]
  generalize p.adapters.length = n at *
  have hsquare : 3 * n ≤ n * n + 3 := by
    rcases Nat.lt_or_ge n 3 with hlt | hge
    · have hsmall : n = 0 ∨ n = 1 ∨ n = 2 := by omega
      rcases hsmall with rfl | rfl | rfl
      · decide
      · decide
      · decide
    · have hle := Nat.mul_le_mul_right n hge
      omega
  omega

theorem length_lt_reach (p : Process) : p.adapters.length < p.reach := lt_steps _ _

theorem reach_put_le {a : Adapter} (ha : a.isOpen = false) : (p.put h a).reach ≤ p.reach := by
  rw [reach, reach, length_put, opens_put ha]
  exact steps_mono _ (Finset.card_le_card (Finset.erase_subset h p.opens))

/-- While an adapter asks for its sink, records have less steps to go, by all that it takes to get
there. -/
theorem reach_asking (ho : p.adapters[h]? = some (.deferred name .open))
    (hl : Leads (p.put h (.deferred name .resolving)) q) :
    q.reach + (p.adapters.length + 1 - p.opens.card) ≤ p.reach := by
  have hlen := hl.length_eq
  rw [length_put] at hlen
  have hsub := hl.opens_subset
  rw [opens_put rfl] at hsub
  have hmem : h ∈ p.opens := mem_opens.mpr ⟨name, ho⟩
  have hfewer : (p.opens.erase h).card + 1 = p.opens.card := Finset.card_erase_add_one hmem
  have hsteps := steps_mono p.adapters.length (Finset.card_le_card hsub)
  rw [reach, reach, hlen, ← hfewer, steps]
  omega

/-! ### Rings -/

/-- Along settled adapters, what is given to `h` comes to `k`. -/
inductive Passes (p : Process) : Handle → Handle → Prop
  | here (h : Handle) : Passes p h h
  | on {h target k : Handle} {name : Text}
      (hs : p.adapters[h]? = some (.deferred name (.settled target))) (hp : Passes p target k) :
      Passes p h k

theorem Passes.trans {l : Handle} (hp : p.Passes h k) (hq : p.Passes k l) : p.Passes h l := by
  induction hp with
  | here => exact hq
  | on hs _ ih => exact .on hs (ih hq)

/-- The adapter is settled, and what is given to its target comes back to it. -/
def Returns (p : Process) (h : Handle) : Prop :=
  ∃ name target, p.adapters[h]? = some (.deferred name (.settled target)) ∧ p.Passes target h

/-- **A record in a ring exhausts every bound.** -/
theorem emitWithin_of_returns (hr : p.Returns h) (hp : p.Passes k h) (depth : Nat) (logger : Text)
    (r : Record) : emitWithin depth p k logger r = (p, .error .endless) := by
  induction depth generalizing k with
  | zero => rfl
  | succ depth ih =>
    cases hp with
    | here =>
      obtain ⟨name, target, hs, hback⟩ := hr
      rw [emitWithin_of_settled depth logger r hs]
      exact ih hback
    | on hs hp =>
      rw [emitWithin_of_settled depth logger r hs]
      exact ih hp

/-- Settled adapters that a record passed on its way to `h`. -/
def Trail (p : Process) (passed : Finset Nat) (h : Handle) : Prop :=
  ∀ s ∈ passed, ∃ name target, p.adapters[s]? = some (.deferred name (.settled target)) ∧
    p.Passes target h

namespace Trail

variable {passed : Finset Nat}

theorem empty (p : Process) (h : Handle) : Trail p ∅ h := by
  intro s hs
  exact absurd hs (Finset.notMem_empty s)

theorem insert (ht : Trail p passed h)
    (hs : p.adapters[h]? = some (.deferred name (.settled target))) :
    Trail p (Insert.insert h passed) target := by
  intro s hmem
  rcases Finset.mem_insert.mp hmem with rfl | hold
  · exact ⟨name, target, hs, .here target⟩
  · obtain ⟨name', next, hnext, hp⟩ := ht s hold
    exact ⟨name', next, hnext, hp.trans (.on hs (.here target))⟩

theorem card_le (ht : Trail p passed h) : passed.card + p.opens.card ≤ p.adapters.length := by
  have hdisjoint : Disjoint passed p.opens := by
    rw [Finset.disjoint_left]
    intro s hs ho
    obtain ⟨name, target, hsettled, -⟩ := ht s hs
    obtain ⟨name', hopen⟩ := mem_opens.mp ho
    exact absurd (hsettled.symm.trans hopen) (by simp)
  have hsubset : passed ∪ p.opens ⊆ Finset.range p.adapters.length := by
    intro s hs
    rw [Finset.mem_range]
    rcases Finset.mem_union.mp hs with hold | ho
    · obtain ⟨name, target, hsettled, -⟩ := ht s hold
      exact lt_of_getElem? hsettled
    · obtain ⟨name, hopen⟩ := mem_opens.mp ho
      exact lt_of_getElem? hopen
  have hle := Finset.card_le_card hsubset
  rwa [Finset.card_union_of_disjoint hdisjoint, Finset.card_range] at hle

/-- From adapters that were passed, the way ends at one that is not settled or comes back. -/
theorem ends_or_returns (ht : Trail p passed h) :
    ∃ k, p.Passes h k ∧
      (p.Stops k ∨ (∃ name, p.adapters[k]? = some (.deferred name .open)) ∨ p.Returns k) := by
  generalize hfree : p.adapters.length - passed.card = free
  induction free generalizing h passed with
  | zero =>
    rcases stops_or p h with hs | ho | ⟨name, target, hs⟩
    · exact ⟨h, .here h, Or.inl hs⟩
    · exact ⟨h, .here h, Or.inr (Or.inl ho)⟩
    · -- There is no adapter left that was not passed.
      by_cases hin : h ∈ passed
      · exact ⟨h, .here h, Or.inr (Or.inr (ht h hin))⟩
      · have hle := (ht.insert hs).card_le
        rw [Finset.card_insert_of_notMem hin] at hle
        omega
  | succ free ih =>
    rcases stops_or p h with hs | ho | ⟨name, target, hs⟩
    · exact ⟨h, .here h, Or.inl hs⟩
    · exact ⟨h, .here h, Or.inr (Or.inl ho)⟩
    · by_cases hin : h ∈ passed
      · exact ⟨h, .here h, Or.inr (Or.inr (ht h hin))⟩
      · have hpassed := Finset.card_insert_of_notMem hin
        obtain ⟨k, hp, hend⟩ := ih (ht.insert hs) (by omega)
        exact ⟨k, .on hs hp, hend⟩

end Trail

/-- **The way of a record ends, or it leads into a ring.** -/
theorem ends_or_returns (p : Process) (h : Handle) :
    ∃ k, p.Passes h k ∧
      (p.Stops k ∨ (∃ name, p.adapters[k]? = some (.deferred name .open)) ∨ p.Returns k) :=
  (Trail.empty p h).ends_or_returns

/-! ### The bound does not show -/

section

variable {emit emit' : Emit} (hemit : ∀ q h logger r, Leads q (emit q h logger r).1)
  (heq : ∀ q, Leads p q → ∀ h logger r, emit q h logger r = emit' q h logger r)

include hemit heq

theorem runErrands_congr (errands : List Errand) {q : Process} (hq : Leads p q) :
    runErrands emit errands q = runErrands emit' errands q := by
  induction errands generalizing q with
  | nil => rfl
  | cons errand errands ih =>
    have hfirst : runErrand emit q errand = runErrand emit' q errand := by
      rcases errand.run_cases with ⟨sink, logger, r, -, hrun⟩ | ⟨outcome, -, hrun⟩
      · rw [hrun, hrun]
        exact heq q hq sink logger r
      · rw [hrun, hrun]
    have hlater := hq.trans (leads_runErrand hemit q errand)
    rw [runErrands, runErrands, ← hfirst]
    rcases hrun : runErrand emit q errand with ⟨q', failure | u⟩
    · rfl
    · rw [hrun] at hlater
      exact ih hlater

theorem resolveVia_congr (name : Text) : resolveVia emit p name = resolveVia emit' p name := by
  rcases p.factory_cases with ⟨sink, hknown⟩ | ⟨f, hf⟩
  · rw [hknown emit p name rfl, hknown emit' p name rfl]
  · rw [resolveVia_outside emit hf, resolveVia_outside emit' hf,
      runErrands_congr hemit heq f.errands (leads_asking hf name)]

end

/-- **The bound does not show** where it is large enough for what a record still can pass. -/
theorem emitWithin_congr {passed : Finset Nat} {depth depth' : Nat} (ht : Trail p passed h)
    (hd : p.reach ≤ depth + passed.card) (hd' : p.reach ≤ depth' + passed.card)
    (logger : Text) (r : Record) :
    emitWithin depth p h logger r = emitWithin depth' p h logger r := by
  have hlt := p.length_lt_reach
  have hcard := ht.card_le
  induction depth generalizing depth' p h passed logger r with
  | zero => omega
  | succ depth ih =>
    obtain ⟨depth', rfl⟩ : ∃ d, depth' = d + 1 := ⟨depth' - 1, by omega⟩
    rcases stops_or p h with hs | ⟨name, ho⟩ | ⟨name, target, hs⟩
    · rw [emitWithin_of_stops depth logger r hs, emitWithin_of_stops depth' logger r hs]
    · -- From here on there is one open adapter less, and no adapter has been passed yet.
      have hagree (q : Process) (hfar : q.reach + (p.adapters.length + 1 - p.opens.card) ≤ p.reach)
          (k : Handle) (logger : Text) (r : Record) :
          emitWithin depth q k logger r = emitWithin depth' q k logger r := by
        have hnone : (∅ : Finset Nat).card = 0 := Finset.card_empty
        have hempty := Trail.empty q k
        exact ih hempty (by omega) (by omega) logger r q.length_lt_reach hempty.card_le
      have hasking (q : Process) (hl : Leads (p.put h (.deferred name .resolving)) q) :=
        hagree q (reach_asking ho hl)
      have hresolve := leads_resolveVia (leads_emitWithin depth)
        (p.put h (.deferred name .resolving)) name
      rw [emitWithin_of_open depth logger r ho, emitWithin_of_open depth' logger r ho,
        ← resolveVia_congr (leads_emitWithin depth) hasking name]
      rcases hanswer : resolveVia (emitWithin depth) (p.put h (.deferred name .resolving)) name with
        ⟨q, failure | target⟩
      · rfl
      · rw [hanswer] at hresolve
        have hfar : q.reach + (p.adapters.length + 1 - p.opens.card) ≤ p.reach :=
          reach_asking ho hresolve
        have hput : (q.put h (.deferred name (.settled target))).reach ≤ q.reach :=
          reach_put_le rfl
        exact hagree _ (by omega) target logger r
    · by_cases hin : h ∈ passed
      · rw [emitWithin_of_returns (ht h hin) (.here h), emitWithin_of_returns (ht h hin) (.here h)]
      · have hpassed : (Insert.insert h passed).card = passed.card + 1 :=
          Finset.card_insert_of_notMem hin
        have hnext := ht.insert hs
        rw [emitWithin_of_settled depth logger r hs, emitWithin_of_settled depth' logger r hs]
        exact ih hnext (by omega) (by omega) logger r hlt hnext.card_le

/-- One step more than `Process.emit` allows makes no difference. -/
theorem emitWithin_depth_succ (p : Process) (h : Handle) (logger : Text) (r : Record) :
    emitWithin (p.depth + 1) p h logger r = p.emit h logger r := by
  have hlt := p.reach_lt_depth
  exact emitWithin_congr (.empty p h) (by omega) (by omega) logger r

/-! ### What one adapter does with a record -/

theorem emit_of_drops (hd : Adapter.Drops p.adapters[h]?) (logger : Text) (r : Record) :
    p.emit h logger r = (p, .ok ()) :=
  emitWithin_of_drops _ logger r hd

theorem emit_of_recorder {c : Recorder} (hc : p.adapters[h]? = some (.recorder c)) (logger : Text)
    (r : Record) : p.emit h logger r = p.absorb h .recorder (c.emit logger r) :=
  emitWithin_of_recorder _ logger r hc

theorem emit_of_hub {hub : Hub} (hh : p.adapters[h]? = some (.hub hub)) (logger : Text)
    (r : Record) : p.emit h logger r = p.absorb h .hub (hub.emit p.now logger r) :=
  emitWithin_of_hub _ logger r hh

/-- **A settled adapter hands the record to its target**, and does nothing else. -/
theorem emit_of_settled (hs : p.adapters[h]? = some (.deferred name (.settled target)))
    (logger : Text) (r : Record) : p.emit h logger r = p.emit target logger r := by
  rw [← emitWithin_depth_succ, emitWithin_of_settled p.depth logger r hs, emit]

/-- **A record in a ring comes to no end.** -/
theorem emit_of_returns (hr : p.Returns h) (logger : Text) (r : Record) :
    p.emit h logger r = (p, .error .endless) :=
  emitWithin_of_returns hr (.here h) p.depth logger r

/-- **An open adapter asks for its sink** and passes the record on to it, or is open again. -/
theorem emit_of_open (ho : p.adapters[h]? = some (.deferred name .open)) (logger : Text)
    (r : Record) :
    p.emit h logger r =
      answered emit h name logger r ((p.put h (.deferred name .resolving)).resolve name) := by
  have hdepth : (p.put h (.deferred name .resolving)).depth = p.depth := by
    rw [Process.depth, Process.depth, length_put]
  have hasked : (p.put h (.deferred name .resolving)).resolve name =
      resolveVia (emitWithin p.depth) (p.put h (.deferred name .resolving)) name := by
    rw [resolve, hdepth]
  have hlen := (leads_resolve (p.put h (.deferred name .resolving)) name).length_eq
  rw [length_put] at hlen
  rw [← emitWithin_depth_succ, emitWithin_of_open p.depth logger r ho, ← hasked]
  rcases hanswer : (p.put h (.deferred name .resolving)).resolve name with ⟨q, failure | target⟩
  · rw [answered, answered]
  · rw [hanswer] at hlen
    have hsame : (q.put h (.deferred name (.settled target))).depth = p.depth := by
      rw [Process.depth, Process.depth, length_put, hlen]
    rw [answered, answered, emit, hsame]

end Process

end TraceContract
