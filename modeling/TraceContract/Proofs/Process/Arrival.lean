import TraceContract.Proofs.Process.Forwarding

/-!
# Where a record comes to

A record that is given to a deferred adapter goes on from target to target, and on its way open
adapters may ask for theirs:

    settled ── record ──> its target
    open    ── record ──> the sink that the factory gives

It ends where there is nobody to go on to, where the factory gives no sink, or in a ring.

* `Process.Goes` is the way of a record, and `Process.Ending` what comes of it at its end.
* `Process.Goes.emit_eq`: nothing else happens to the record on its way.
* `Process.Ending.emit_eq` and `Process.goes_to_ending`: every record comes to just one ending.
-/

namespace TraceContract

namespace Process

variable {p q : Process} {h k : Handle} {logger : Text} {r : Record}
  {outcome : Process × Except Failure Unit}

/-- A record that is given to an adapter in a state is in the end given to `k` in the state `q`. -/
inductive Goes (q : Process) (k : Handle) : Process → Handle → Prop
  | here : Goes q k q k
  | passed {p : Process} {h target : Handle} {name : Text}
      (hs : p.adapters[h]? = some (.deferred name (.settled target)))
      (hg : Goes q k p target) : Goes q k p h
  | answered {p p' : Process} {h target : Handle} {name : Text}
      (ho : p.adapters[h]? = some (.deferred name .open))
      (hr : (p.put h (.deferred name .resolving)).resolve name = (p', .ok target))
      (hg : Goes q k (p'.put h (.deferred name (.settled target))) target) : Goes q k p h

namespace Goes

theorem of_passes {l : Handle} (hp : p.Passes h k) (hg : Goes q l p k) : Goes q l p h := by
  induction hp with
  | here => exact hg
  | on hs _ ih => exact .passed hs (ih hg)

/-- **On its way nothing happens to a record.** -/
theorem emit_eq (hg : Goes q k p h) (logger : Text) (r : Record) :
    p.emit h logger r = q.emit k logger r := by
  induction hg with
  | here => rfl
  | passed hs _ ih => exact (emit_of_settled hs logger r).trans ih
  | answered ho hr _ ih =>
    rw [emit_of_open ho, hr, Process.answered]
    exact ih

end Goes

/-- What comes of a record that is given to `k` in the state `q` and goes no further. -/
inductive Ending (q : Process) (k : Handle) (logger : Text) (r : Record) :
    Process × Except Failure Unit → Prop
  | recorder {c : Recorder} (hc : q.adapters[k]? = some (.recorder c)) :
      Ending q k logger r (q.absorb k .recorder (c.emit logger r))
  | hub {hub : Hub} (hh : q.adapters[k]? = some (.hub hub)) :
      Ending q k logger r (q.absorb k .hub (hub.emit q.now logger r))
  | dropped (hd : Adapter.Drops q.adapters[k]?) : Ending q k logger r (q, .ok ())
  | unanswered {q' : Process} {name : Text} {failure : Failure}
      (ho : q.adapters[k]? = some (.deferred name .open))
      (hr : (q.put k (.deferred name .resolving)).resolve name = (q', .error failure)) :
      Ending q k logger r (q'.put k (.deferred name .open), .error failure)
  | endless (hr : q.Returns k) : Ending q k logger r (q, .error .endless)

theorem Ending.emit_eq (he : Ending q k logger r outcome) : q.emit k logger r = outcome := by
  cases he with
  | recorder hc => exact emit_of_recorder hc logger r
  | hub hh => exact emit_of_hub hh logger r
  | dropped hd => exact emit_of_drops hd logger r
  | unanswered ho hr => rw [emit_of_open ho, hr, answered]
  | endless hr => exact emit_of_returns hr logger r

theorem ending_of_stops (hs : q.Stops k) (logger : Text) (r : Record) :
    ∃ outcome, Ending q k logger r outcome := by
  rcases hs.cases with hd | ⟨c, hc⟩ | ⟨hub, hh⟩
  · exact ⟨_, .dropped hd⟩
  · exact ⟨_, .recorder hc⟩
  · exact ⟨_, .hub hh⟩

/-- Whoever has got a sink is open no more, nor is anybody else who was not. -/
theorem card_opens_answered {name : Text} {target : Handle}
    (ho : p.adapters[h]? = some (.deferred name .open))
    (hl : Leads (p.put h (.deferred name .resolving)) q) :
    (q.put h (.deferred name (.settled target))).opens.card < p.opens.card := by
  have hsubset : q.opens ⊆ p.opens.erase h := by
    rw [← opens_put (a := .deferred name .resolving) rfl]
    exact hl.opens_subset
  have hfewer : (p.opens.erase h).card < p.opens.card :=
    Finset.card_erase_lt_of_mem (mem_opens.mpr ⟨name, ho⟩)
  rw [opens_put rfl]
  calc (q.opens.erase h).card ≤ q.opens.card := Finset.card_erase_le
    _ ≤ (p.opens.erase h).card := Finset.card_le_card hsubset
    _ < p.opens.card := hfewer

/-- **Every record comes to an ending.** -/
theorem goes_to_ending (p : Process) (h : Handle) (logger : Text) (r : Record) :
    ∃ q k outcome, Goes q k p h ∧ Ending q k logger r outcome := by
  -- Each asking on the way leaves fewer adapters that are open.
  induction hn : p.opens.card using Nat.strong_induction_on generalizing p h with
  | _ n ih =>
    subst hn
    obtain ⟨k, hp, hs | ⟨name, ho⟩ | hr⟩ := ends_or_returns p h
    · obtain ⟨outcome, he⟩ := ending_of_stops hs logger r
      exact ⟨p, k, outcome, .of_passes hp .here, he⟩
    · have hl := leads_resolve (p.put k (.deferred name .resolving)) name
      rcases hr : (p.put k (.deferred name .resolving)).resolve name with ⟨p', failure | target⟩
      · exact ⟨p, k, _, .of_passes hp .here, .unanswered ho hr⟩
      · rw [hr] at hl
        obtain ⟨q, l, outcome, hg, he⟩ := ih _ (card_opens_answered ho hl) _ target rfl
        exact ⟨q, l, outcome, .of_passes hp (.answered ho hr hg), he⟩
    · exact ⟨p, k, _, .of_passes hp .here, .endless hr⟩

end Process

end TraceContract
