import TraceContract.Proofs.Process.Programs

/-!
# Deferred adapters settle once

A deferred adapter asks for its sink when a record comes to it, be it from the program or from an
adapter that was settled on it, and it asks until it gets one.

* `Process.asks` is the state in which an adapter asks where a record is given to some adapter, and
  `Process.asksOf` are these states for a whole program.
* `Process.Comes.emit_eq`: a record that makes an adapter ask is given to that adapter in the end.
* `Process.deferred_emit` is the step, what one record does to a deferred adapter, and
  `Process.deferred_after` the run: the adapter has the first sink that it was given.
* `Process.obeys_of_asks`: whom it asks is what the program decided last.
* `Process.emit_of_disable`: an adapter that is settled in silence stays silent.
* `Process.settles_once`: all that becomes of a deferred adapter.
-/

namespace TraceContract

namespace Process

variable {p q : Process} {h k : Handle} {name : Text} {target : Handle}

/-! ### Where an adapter asks -/

/-- The state in which `h`, being open, asks for its sink because a record is given to `k`.  The
record comes to it by adapters that are settled or get their sinks, in at most `depth` steps. -/
def asksWithin (h : Handle) : (depth : Nat) → Process → Handle → Option Process
  | 0, _, _ => none
  | depth + 1, p, k =>
    match p.adapters[k]? with
    | some (.deferred _ (.settled target)) => asksWithin h depth p target
    | some (.deferred name .open) =>
      if k = h then some p
      else
        match p.resolve name with
        | (_, .error _) => none
        | (q, .ok target) => asksWithin h depth (q.put k (.deferred name (.settled target))) target
    | _ => none

def asks (p : Process) (h k : Handle) : Option Process := asksWithin h p.depth p k

def sinkOf (name : Text) (q : Process) : Option Handle :=
  match (q.resolve name).2 with
  | .error _ => none
  | .ok target => some target

/-- What one act makes an open adapter ask. -/
def asksAt (p : Process) (h : Handle) : Act → Option Process
  | .emit k _ _ => p.asks h k
  | _ => none

/-- The states in which the open adapter `h` asks for its sink in the course of some acts. -/
def asksOf (h : Handle) : Process → List Act → List Process
  | _, [] => []
  | p, act :: rest => (p.asksAt h act).toList ++ asksOf h (p.act act) rest

section

variable (depth : Nat)

theorem asksWithin_of_stops (hs : p.Stops k) : asksWithin h depth p k = none := by
  cases depth with
  | zero => rfl
  | succ depth =>
    rw [asksWithin]
    split
    next hsettled => exact absurd hsettled (hs.ne_settled _ _)
    next hopen => exact absurd hopen (hs.ne_open _)
    next => rfl

theorem asksWithin_of_settled (hs : p.adapters[k]? = some (.deferred name (.settled target))) :
    asksWithin h (depth + 1) p k = asksWithin h depth p target := by
  rw [asksWithin, hs]

theorem asksWithin_self (ho : p.adapters[h]? = some (.deferred name .open)) :
    asksWithin h (depth + 1) p h = some p := by
  rw [asksWithin, ho]
  exact if_pos rfl

theorem asksWithin_of_error (hne : k ≠ h) (ho : p.adapters[k]? = some (.deferred name .open))
    {failure : Failure} (hr : p.resolve name = (q, .error failure)) :
    asksWithin h (depth + 1) p k = none := by
  rw [asksWithin, ho]
  simp only [if_neg hne, hr]

theorem asksWithin_of_ok (hne : k ≠ h) (ho : p.adapters[k]? = some (.deferred name .open))
    (hr : p.resolve name = (q, .ok target)) :
    asksWithin h (depth + 1) p k =
      asksWithin h depth (q.put k (.deferred name (.settled target))) target := by
  rw [asksWithin, ho]
  simp only [if_neg hne, hr]

end

/-- The way of a record that is given to an adapter in a state and comes to `h`, which is open, in
the state `q`. -/
inductive Comes (h : Handle) (q : Process) : Process → Handle → Prop
  | here {name : Text} (ho : q.adapters[h]? = some (.deferred name .open)) : Comes h q q h
  | passed {p : Process} {k target : Handle} {name : Text}
      (hs : p.adapters[k]? = some (.deferred name (.settled target)))
      (hc : Comes h q p target) : Comes h q p k
  | answered {p p' : Process} {k target : Handle} {name : Text} (hne : k ≠ h)
      (ho : p.adapters[k]? = some (.deferred name .open)) (hr : p.resolve name = (p', .ok target))
      (hc : Comes h q (p'.put k (.deferred name (.settled target))) target) : Comes h q p k

theorem comes_of_asks (hq : p.asks h k = some q) : Comes h q p k := by
  rw [asks] at hq
  generalize p.depth = depth at hq
  induction depth generalizing p k with
  | zero => exact absurd hq (by simp [asksWithin])
  | succ depth ih =>
    rcases stops_or p k with hstops | ⟨name, ho⟩ | ⟨name, target, hs⟩
    · rw [asksWithin_of_stops (depth + 1) hstops] at hq
      exact absurd hq (by simp)
    · by_cases hk : k = h
      · subst hk
        rw [asksWithin_self depth ho, Option.some.injEq] at hq
        subst hq
        exact .here ho
      · rcases hr : p.resolve name with ⟨p', failure | target⟩
        · rw [asksWithin_of_error depth hk ho hr] at hq
          exact absurd hq (by simp)
        · rw [asksWithin_of_ok depth hk ho hr] at hq
          exact .answered hk ho hr (ih hq)
    · rw [asksWithin_of_settled depth hs] at hq
      exact .passed hs (ih hq)

/-- On its way to the adapter a record does what records do. -/
theorem leads_of_comes (hc : Comes h q p k) : Leads p q := by
  induction hc with
  | here ho => exact .refl q
  | passed hs hc ih => exact ih
  | @answered p p' k next other hne ho hr hc ih =>
    have hl := leads_resolve p other
    rw [hr] at hl
    have hput : Leads (p.put k (.deferred other .open)) p' := by
      rw [put_self ho]
      exact hl
    exact (hput.put ho (.settles other next)).trans ih

/-- **Whom the adapter asks** is what the program decided last. -/
theorem obeys_of_asks {regime : Regime} (ho : p.Obeys regime) {acts : List Act}
    (hq : (p.after acts).asks h k = some q) : q.Obeys (regime.following acts) :=
  (ho.after acts).of_leads (leads_of_comes (comes_of_asks hq))

/-- **Where the record comes to.**  A record that makes `h` ask is in the end a record that is given
to `h`, in the state in which it asks. -/
theorem Comes.emit_eq (hc : Comes h q p k) (ha : p.Aloof) :
    q.Aloof ∧ (∀ name, p.adapters[h]? = some (.deferred name .open) →
        q.adapters[h]? = some (.deferred name .open)) ∧
      ∀ logger r, p.emit k logger r = q.emit h logger r := by
  induction hc with
  | here ho => exact ⟨ha, fun name hname => hname, fun logger r => rfl⟩
  | passed hs hc ih =>
    obtain ⟨haloof, hsame, hemit⟩ := ih ha
    refine ⟨haloof, hsame, ?_⟩
    intro logger r
    rw [emit_of_settled hs]
    exact hemit logger r
  | @answered p p' k next other hne ho hr hc ih =>
    have hasked := ha.resolve other
    rw [hr] at hasked
    obtain ⟨haloof, hsame, hemit⟩ := ih (hasked.put (deferred_resolve ha ho other hr) _)
    refine ⟨haloof, ?_, ?_⟩
    · intro name hname
      exact hsame name ((getElem?_put_of_ne hne _).trans (deferred_resolve ha hname other hr))
    · intro logger r
      rw [emit_of_open_ok ha ho hr]
      exact hemit logger r

theorem deferred_emit_of_not_asks (ha : p.Aloof) (hq : p.asks h k = none)
    (ho : p.adapters[h]? = some (.deferred name .open)) (logger : Text) (r : Record) :
    (p.emit k logger r).1.adapters[h]? = some (.deferred name .open) := by
  rw [asks] at hq
  rw [emit]
  generalize p.depth = depth at hq
  induction depth generalizing p k with
  | zero => exact ho
  | succ depth ih =>
    rcases stops_or p k with hstops | ⟨other, hopen⟩ | ⟨other, next, hsettled⟩
    · exact (frame_of_stops hstops (depth + 1) logger r).deferred h name .open ho
    · have hne : k ≠ h := by
        rintro rfl
        rw [asksWithin_self depth hopen] at hq
        exact absurd hq (by simp)
      have haloof := ha.put hopen (.deferred other .resolving)
      have hbefore := (getElem?_put_of_ne hne (.deferred other .resolving)).trans ho
      have hafter := deferred_resolveVia haloof hbefore depth other
      rw [emitWithin_of_open depth logger r hopen]
      rcases hvia : resolveVia (emitWithin depth) (p.put k (.deferred other .resolving)) other with
        ⟨q, failure | next⟩
      · rw [hvia] at hafter
        exact (getElem?_put_of_ne hne _).trans hafter
      · rw [hvia] at hafter
        have hput := (getElem?_put_of_ne hne (.deferred other (.settled next))).trans hafter
        cases depth with
        | zero => exact hput
        | succ depth =>
          -- The bound was large enough for the asking, which therefore came to the same.
          rw [resolveVia_succ haloof, resolve_put ha hopen] at hvia
          obtain ⟨hstate, hanswer⟩ := Prod.mk.inj hvia
          have hr : p.resolve other = ((p.resolve other).1, .ok next) := by
            rw [← hanswer]
          rw [asksWithin_of_ok (depth + 1) hne hopen hr] at hq
          have hkept := deferred_resolve ha hopen other hr
          rw [← hstate, put_put] at hput
          rw [Process.answered, ← hstate, put_put]
          exact ih ((ha.resolve other).put hkept _) hput hq
    · rw [asksWithin_of_settled depth hsettled] at hq
      rw [emitWithin_of_settled depth logger r hsettled]
      exact ih ha ho hq

/-! ### What becomes of a deferred adapter -/

end Process

/-- How far an adapter has got that was given a sink, or none yet. -/
def Resolution.ofSink : Option Handle → Resolution
  | none => .open
  | some target => .settled target

namespace Process

variable {p q : Process} {h k : Handle} {name : Text} {target : Handle}

/-- **What one record does to an open adapter**: it is settled on the sink that it is given where it
asks for one, and is open still where it does not ask or gets none. -/
theorem deferred_emit (ha : p.Aloof) (ho : p.adapters[h]? = some (.deferred name .open))
    (k : Handle) (logger : Text) (r : Record) :
    (p.emit k logger r).1.adapters[h]? =
      some (.deferred name (.ofSink ((p.asks h k).bind (sinkOf name)))) := by
  cases hq : p.asks h k with
  | none => exact deferred_emit_of_not_asks ha hq ho logger r
  | some q =>
    obtain ⟨haloof, hsame, hemit⟩ := (comes_of_asks hq).emit_eq ha
    have hopen := hsame name ho
    rw [hemit logger r, Option.bind_some, sinkOf]
    rcases hr : q.resolve name with ⟨q', failure | target⟩
    · rw [emit_of_open_error haloof hopen hr]
      exact deferred_resolve haloof hopen name hr
    · have hlt := lt_of_getElem? (deferred_resolve haloof hopen name hr)
      rw [emit_of_open_ok haloof hopen hr]
      exact (leads_emit _ target logger r).settled (getElem?_put_self hlt _)

theorem deferred_act (ho : p.adapters[h]? = some (.deferred name .open)) {act : Act}
    (ha : ∀ k logger r, act = .emit k logger r → p.Aloof) :
    (p.act act).adapters[h]? =
      some (.deferred name (.ofSink ((p.asksAt h act).bind (sinkOf name)))) := by
  cases act with
  | emit k logger r => exact deferred_emit (ha k logger r rfl) ho k logger r
  | _ =>
    refine kept_act ho _ ?_
    intro k logger r
    exact Act.noConfusion

/-- **A deferred adapter has the first sink that it is given**, for good. -/
theorem deferred_after (ho : p.adapters[h]? = some (.deferred name .open)) {acts : List Act}
    (hu : p.Undisturbed acts) :
    (p.after acts).adapters[h]? =
      some (.deferred name (.ofSink ((asksOf h p acts).findSome? (sinkOf name)))) := by
  induction acts generalizing p with
  | nil => exact ho
  | cons act rest ih =>
    have hstep := deferred_act ho hu.1
    have hfirst : (p.asksAt h act).toList.findSome? (sinkOf name) =
        (p.asksAt h act).bind (sinkOf name) := by
      cases p.asksAt h act with
      | none => rfl
      | some q =>
        rw [Option.toList_some, List.findSome?_singleton]
        rfl
    rw [asksOf, List.findSome?_append, hfirst]
    cases hsink : (p.asksAt h act).bind (sinkOf name) with
    | none =>
      rw [hsink] at hstep
      exact ih hstep hu.2
    | some target =>
      rw [hsink] at hstep
      exact settled_after hstep rest

/-- The states in which an adapter asks are each in the course of one record. -/
theorem asks_of_mem_asksOf {acts : List Act} (hq : q ∈ asksOf h p acts) :
    ∃ before k logger r later, acts = before ++ .emit k logger r :: later ∧
      (p.after before).asks h k = some q := by
  induction acts generalizing p with
  | nil => exact absurd hq List.not_mem_nil
  | cons act rest ih =>
    rcases List.mem_append.mp hq with hfirst | hlater
    · rw [Option.mem_toList] at hfirst
      cases act with
      | emit k logger r => exact ⟨[], k, logger, r, rest, rfl, hfirst⟩
      | _ => exact absurd hfirst (by simp [asksAt])
    · obtain ⟨before, k, logger, r, later, rfl, hasks⟩ := ih hlater
      exact ⟨act :: before, k, logger, r, later, rfl, hasks⟩

/-! ### Silence -/

section

variable {sink : Handle} (hf : p.factory = some (.constant sink))

include hf

/-- Where one sink is the answer to all, it is the sink of whoever is settled. -/
theorem target_of_constant (ho : p.adapters[h]? = some (.deferred name .open)) {acts : List Act}
    (hkeep : ∀ act ∈ acts, act.KeepsFactory) (hu : p.Undisturbed acts)
    (hs : (p.after acts).adapters[h]? = some (.deferred name (.settled target))) :
    target = sink := by
  have hafter := deferred_after ho hu
  rw [hs, Option.some.injEq, Adapter.deferred.injEq] at hafter
  cases hfind : (asksOf h p acts).findSome? (sinkOf name) with
  | none =>
    rw [hfind] at hafter
    exact absurd hafter.2 (by simp [Resolution.ofSink])
  | some first =>
    rw [hfind] at hafter
    obtain rfl := Resolution.settled.inj hafter.2
    obtain ⟨q, hq, hsink⟩ := List.exists_of_findSome?_eq_some hfind
    obtain ⟨before, k, logger, r, later, hsplit, hasks⟩ := asks_of_mem_asksOf hq
    have hbefore : ∀ act ∈ before, act.KeepsFactory := by
      intro act hmem
      refine hkeep act ?_
      rw [hsplit]
      exact List.mem_append_left _ hmem
    have hobeys := obeys_of_asks (obeys_constant.mpr hf) hasks
    rw [Regime.following_of_keeps _ hbefore, obeys_constant] at hobeys
    rw [sinkOf, resolve, resolveVia, hobeys] at hsink
    exact (Option.some.inj hsink).symm

theorem emit_of_constant (ho : p.adapters[h]? = some (.deferred name .open)) (logger : Text)
    (r : Record) :
    p.emit h logger r = (p.put h (.deferred name (.settled sink))).emit sink logger r := by
  have hr : p.resolve name = (p, .ok sink) := by
    rw [resolve, resolveVia, hf]
  exact emit_of_open_ok (aloof_of_constant hf) ho hr logger r

end

end Process

end TraceContract
