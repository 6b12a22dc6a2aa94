import TraceContract.Setup
import TraceContract.Proofs.Program.Turn

/-!
# From the calls of a program to the sinks of its hub

A program binds contracts, then builds a hub whose sinks never throw, and goes on as it likes with
the old traces and with new ones, but leaves the factory alone.  Nobody made a record before the hub
was there.

* `Program.quiet_after`: what is done before the hub is built leaves all traces pointing to it.
* `Program.Serves` is the invariant from then on: the hub has what the ledger says, and nothing else
  was seen.  `Program.Serves.act` is the step and `Program.Serves.after` the run.
* `Program.Answered` says how the answers of calls go together with the ledger.
* `Program.delivers_every_call`: what the sinks get in the course of a program.
-/

namespace TraceContract

/-! ### Before the hub is built -/

theorem Ledger.exists_notices_act (l : Ledger) (a : Program.Act) :
    ∃ more, (l.act a).notices = l.notices ++ more := by
  have hsame : ∃ more, l.notices = l.notices ++ more := ⟨[], (List.append_nil _).symm⟩
  have hended (k : Nat) : ∃ more, (l.ended k).notices = l.notices ++ more := by
    rw [ended]
    split
    · exact hsame
    · exact ⟨_, rfl⟩
  cases a with
  | log k name arguments =>
    rw [act]
    split
    · exact hsame
    · exact ⟨_, rfl⟩
  | start k name arguments =>
    rw [act]
    split
    · exact hsame
    · exact ⟨_, rfl⟩
  | close k => exact hended k
  | release k => exact hended k
  | _ => exact hsame

theorem Ledger.exists_notices_after (l : Ledger) (acts : List Program.Act) :
    ∃ more, (l.after acts).notices = l.notices ++ more := by
  induction acts generalizing l with
  | nil => exact ⟨[], (List.append_nil _).symm⟩
  | cons a rest ih =>
    obtain ⟨first, hfirst⟩ := l.exists_notices_act a
    obtain ⟨later, hlater⟩ := ih (l.act a)
    refine ⟨first ++ later, ?_⟩
    rw [← List.append_assoc, ← hfirst]
    exact hlater

namespace Program

variable {p : Program} {goal : Option Handle}

theorem kept_start (process : Process) (goal : Option Handle) : Kept goal { process } where
  registry key known hknown := absurd hknown (by simp [Registry.find?])
  traces t ht := absurd ht List.not_mem_nil
  spans s hs := absurd hs List.not_mem_nil

/-- **While nobody has a record**, nothing is given to adapters and nothing is seen. -/
theorem quiet_after (hk : Kept goal p) {acts : List Act} (hgraded : ∀ a ∈ acts, a.Graded)
    (hnone : ((p.told []).after acts).notices = []) :
    Kept goal (p.after acts) ∧ (p.after acts).process.events = p.process.events ∧
      (p.told []).after acts = (p.after acts).told [] := by
  induction acts generalizing p with
  | nil => exact ⟨hk, rfl, rfl⟩
  | cons a rest ih =>
    rcases turn hk (hgraded a List.mem_cons_self) [] with hquiet | ⟨h, owner, r, hloud⟩
    · have hrest : ((p.told []).act a).after rest = (p.told []).after (a :: rest) := rfl
      rw [← hrest, hquiet.told] at hnone ⊢
      obtain ⟨hkept, hevents, htold⟩ :=
        ih hquiet.kept (fun b hb => hgraded b (List.mem_cons_of_mem a hb)) hnone
      exact ⟨hkept, hevents.trans hquiet.calm.events, htold⟩
    · obtain ⟨more, hmore⟩ := ((p.told []).act a).exists_notices_after rest
      have hsome : ((p.told []).after (a :: rest)).notices =
          [⟨p.process.now, owner, r⟩] ++ more := hmore.trans (by rw [hloud.noticed, List.nil_append])
      rw [hnone] at hsome
      exact absurd hsome (by simp)

/-- As nothing was given to them, all adapters are open, and may be settled on any goal. -/
theorem Kept.of_none (hk : Kept none p) (goal : Option Handle) : Kept goal p := by
  have hpoints {owner : Text} {h : Handle} (hp : p.process.Points none owner h) :
      p.process.Points goal owner h := by
    rcases hp with ho | ⟨target, htarget, -⟩
    · exact Or.inl ho
    · exact absurd htarget (by simp)
  refine ⟨hk.registry, ?_, ?_⟩
  · intro t ht
    exact ⟨(hk.traces t ht).1, hpoints (hk.traces t ht).2⟩
  · intro s hs h ho
    exact ⟨hpoints (hk.spans s hs h ho).1, (hk.spans s hs h ho).2⟩

end Program

/-! ### Once the hub is built -/

def Hub.entriesOf (h : Hub) (notices : List Notice) : List Entry :=
  notices.filterMap fun n => h.entryFor? n.now n.owner n.record

theorem Hub.entriesOf_concat (h : Hub) (notices : List Notice) (now : Int) (owner : Text)
    (r : Record) :
    h.entriesOf (notices ++ [⟨now, owner, r⟩]) =
      h.entriesOf notices ++ (h.entryFor? now owner r).toList := by
  rw [entriesOf, List.filterMap_append, ← entriesOf]
  cases hentry : h.entryFor? now owner r <;> simp [hentry]

namespace Program

variable {p : Program} {l : Ledger} {hub : Hub} {g : Handle} {seen : List Event}

/-- The hub, which the factory gives to all, has what the ledger says, and the outside has seen
nothing else since. -/
structure Serves (hub : Hub) (g : Handle) (seen : List Event) (p : Program) (l : Ledger) :
    Prop where
  told : l = p.told l.notices
  kept : Kept (some g) p
  factory : p.process.factory = some (.constant g)
  there : p.process.adapters[g]? = some (.hub (hub.having (hub.entriesOf l.notices)))
  events : p.process.events = seen ++ hub.shown (hub.entriesOf l.notices)

theorem Serves.exists_emit (hs : Serves hub g seen p l) (hsteady : ∀ s ∈ hub.sinks, s.Steady)
    {h : Handle} {owner : Text} {r : Record} (hp : p.process.Points (some g) owner h)
    (hlisted : r.level.Listed) (hwritable : r.fields.Writable) :
    ∃ q, p.process.emit h owner r = (q, .ok ()) ∧ Passed (some g) p.process q ∧
      q.factory = p.process.factory ∧
      q.adapters[g]? =
        some (.hub (hub.having (hub.entriesOf (l.notices ++ [⟨p.process.now, owner, r⟩])))) ∧
      q.events = seen ++ hub.shown (hub.entriesOf (l.notices ++ [⟨p.process.now, owner, r⟩])) := by
  obtain ⟨severity, hseverity⟩ := hlisted
  have hemit := Process.emit_of_points hs.factory hs.there hp owner r
  have hlt : g < (p.process.put h (.deferred owner (.settled g))).adapters.length := by
    rw [Process.length_put]
    exact Process.lt_of_getElem? hs.there
  rw [Hub.emit_having hsteady _ _ _ hseverity hwritable, ← Hub.entriesOf_concat] at hemit
  refine ⟨_, hemit, ⟨rfl, rfl, Process.keeps_of_points hs.there hp rfl⟩, rfl,
    Process.getElem?_put_self hlt _, ?_⟩
  have hshown : hub.shown (hub.entriesOf (l.notices ++ [⟨p.process.now, owner, r⟩])) =
      hub.shown (hub.entriesOf l.notices) ++
        hub.shown (hub.entryFor? p.process.now owner r).toList := by
    rw [Hub.entriesOf_concat, Hub.shown, List.flatMap_append]
    rfl
  rw [hshown, ← List.append_assoc, ← hs.events]
  rfl

/-- **The step**: what the hub has and what the ledger says stay the same, whatever is done.  An act
that fails changes neither. -/
theorem Serves.act (hs : Serves hub g seen p l) (hsteady : ∀ s ∈ hub.sinks, s.Steady) {a : Act}
    (hgraded : a.Graded) (hkeeps : a.KeepsFactory) :
    Serves hub g seen (p.act a).1 (l.act a) ∧
      ∀ failure, (p.act a).2 = .error failure → (l.act a).notices = l.notices := by
  have htold := hs.told
  rcases turn hs.kept hgraded l.notices with hquiet | ⟨h, owner, r, hloud⟩
  · have hact : l.act a = (p.act a).1.told l.notices := by
      rw [← hquiet.told, ← htold]
    rw [hact]
    refine ⟨⟨rfl, hquiet.kept, (hquiet.factory hkeeps).trans hs.factory,
      hquiet.calm.getElem? hs.there, hquiet.calm.events.trans hs.events⟩, ?_⟩
    exact fun _ _ => rfl
  · obtain ⟨q, hemit, hpassed, hfactory, hthere, hevents⟩ :=
      hs.exists_emit hsteady hloud.points hloud.listed hloud.writable
    obtain ⟨hok, hprocess, hsame, hkept⟩ := hloud.arrived q hemit hpassed
    have hact : l.act a =
        (p.act a).1.told (l.notices ++ [⟨p.process.now, owner, r⟩]) := by
      rw [← hsame, ← htold]
    rw [hact]
    refine ⟨⟨rfl, hkept, ?_, ?_, ?_⟩, ?_⟩
    · rw [hprocess, hfactory]
      exact hs.factory
    · rw [hprocess]
      exact hthere
    · rw [hprocess]
      exact hevents
    · intro failure hfailure
      exact absurd (hok.symm.trans hfailure) (by simp)

/-- **The run.** -/
theorem Serves.after (hs : Serves hub g seen p l) (hsteady : ∀ s ∈ hub.sinks, s.Steady)
    {acts : List Act} (hgraded : ∀ a ∈ acts, a.Graded) (hkeeps : ∀ a ∈ acts, a.KeepsFactory) :
    Serves hub g seen (p.after acts) (l.after acts) := by
  induction acts generalizing p l with
  | nil => exact hs
  | cons a rest ih =>
    have hstep := hs.act hsteady (hgraded a List.mem_cons_self) (hkeeps a List.mem_cons_self)
    exact ih hstep.1 (fun b hb => hgraded b (List.mem_cons_of_mem a hb))
      (fun b hb => hkeeps b (List.mem_cons_of_mem a hb))

theorem steady_hub (setup : Setup) (hsteady : ∀ s ∈ setup.sinks, s.Steady) :
    ∀ s ∈ setup.hub.sinks, s.Steady := by
  rw [Setup.hub]
  split
  next => exact List.forall_mem_singleton.mpr Sink.steady_console
  next => exact hsteady

/-- A hub that is built where nothing was given to adapters serves from the beginning. -/
theorem serves_of_build (hk : Kept none p) {setup built : Setup} {q : Process}
    (hbuild : setup.build p.process = (q, built, .ok g)) :
    Serves setup.hub g p.process.events { p with process := q } (p.told []) := by
  rw [Setup.build] at hbuild
  split at hbuild
  · exact absurd hbuild (by simp)
  · obtain ⟨rfl, -, hg⟩ : _ ∧ _ ∧ _ := ⟨congrArg Prod.fst hbuild,
      congrArg (·.2.1) hbuild, congrArg (·.2.2) hbuild⟩
    obtain rfl := Except.ok.inj hg
    have hadd := p.process.calm_add (.hub setup.hub)
    refine ⟨rfl, (hk.of_none (some _)).same_spans (hadd.keeps _), rfl, ?_, ?_⟩
    · rw [show (p.told []).notices = [] from rfl, Hub.entriesOf, List.filterMap_nil,
        Hub.having_nil]
      exact List.getElem?_concat_length
    · exact (List.append_nil _).symm

/-! ### What calls are answered -/

/-- What comes of a call on a trace, of a form that is to send the record as `sent` says.

It fails only where it would anywhere.  A call of a declared operation that succeeds is heard once,
unless the operation never writes. -/
structure Sent (p : Program) (l : Ledger) (a : Act) (t : Trace) (wantsSpan : Bool) (name : Text)
    (arguments : List Value) (sent : Record → Record) : Prop where
  outcome : (p.act a).2 = (t.prepare wantsSpan name arguments).map fun _ => ()
  heard : ∀ op ∈ t.contract.operations, op.name = name → op.level ≠ .none →
    (p.act a).2 = .ok () → ∃ r, op.record arguments = .ok r ∧
      (l.act a).notices = l.notices ++ [⟨p.process.now, t.owner, sent r⟩]
  silent : ∀ op ∈ t.contract.operations, op.name = name → op.level = .none →
    (l.act a).notices = l.notices

/-- How the answer to an act goes together with the ledger. -/
structure Answered (p : Program) (l : Ledger) (a : Act) : Prop where
  failed : ∀ failure, (p.act a).2 = .error failure → (l.act a).notices = l.notices
  logged : ∀ k name arguments t, a = .log k name arguments → p.trace? k = some t →
    Sent p l a t false name arguments id
  started : ∀ k name arguments t, a = .start k name arguments → p.trace? k = some t →
    Sent p l a t true name arguments Trace.opening
  /-- The last record of a span that is open and heard, once. -/
  ended : ∀ k, a = .close k ∨ a = .release k →
    (p.act a).2 = .ok () ∧
    (l.act a).notices = l.notices ++ ((p.span? k).bind Span.pending?).toList.map
      (fun s => ⟨p.process.now, s.owner, s.last p.process.ticks⟩) ∧
    ((p.act a).1.span? k).bind Span.pending? = none

section

variable (hs : Serves hub g seen p l) (hsteady : ∀ s ∈ hub.sinks, s.Steady)

include hs in
theorem Serves.now_eq : l.now = p.process.now := by
  rw [hs.told]
  rfl

include hs in
theorem Serves.sent {k : Nat} {t : Trace} (ht : p.trace? k = some t) {a : Act} {wantsSpan : Bool}
    {name : Text} {arguments : List Value} {sent : Record → Record}
    (houtcome : (p.act a).2 = (t.prepare wantsSpan name arguments).map fun _ => ())
    (hnotices : (l.act a).notices = l.notices ++
      (l.said? wantsSpan k name arguments).toList.map fun s => ⟨l.now, s.1, sent s.2⟩) :
    Sent p l a t wantsSpan name arguments sent := by
  obtain ⟨d, hc⟩ := hs.kept.exists_compile ht
  refine ⟨houtcome, ?_, ?_⟩
  · rintro op hop rfl hlevel hok
    have hprepare := Trace.prepare_of_mem hc hop wantsSpan arguments
    rw [if_neg hlevel] at hprepare
    split at hprepare
    next hspan =>
      cases hr : op.record arguments with
      | error failure =>
        rw [hr] at hprepare
        rw [houtcome, hprepare] at hok
        exact absurd hok (by simp [Except.map])
      | ok r =>
        rw [hr] at hprepare
        have hsaid := said?_of_record l.notices ht hc hprepare
        rw [← hs.told] at hsaid
        refine ⟨r, rfl, ?_⟩
        rw [hnotices, hsaid, hs.now_eq]
        rfl
    next =>
      rw [houtcome, hprepare] at hok
      exact absurd hok (by simp [Except.map])
  · rintro op hop rfl hlevel
    have hprepare := Trace.prepare_of_mem hc hop wantsSpan arguments
    have hsaid := said?_of_no_record l.notices ht hc
      (show ∀ r, t.prepare wantsSpan op.name arguments ≠ .ok (some r) by
        intro r hr
        rw [hprepare, if_pos hlevel] at hr
        split at hr
        · exact absurd hr (by simp)
        · exact absurd hr (by simp))
    rw [← hs.told] at hsaid
    rw [hnotices, hsaid]
    exact List.append_nil _

include hs hsteady in
theorem Serves.emit_ok {h : Handle} {owner : Text} {r : Record}
    (hp : p.process.Points (some g) owner h) (hlisted : r.level.Listed)
    (hwritable : r.fields.Writable) : (p.process.emit h owner r).2 = .ok () := by
  obtain ⟨q, hemit, -⟩ := hs.exists_emit hsteady hp hlisted hwritable
  rw [hemit]

include hs hsteady in
/-- A call that logs is answered by what comes of it before its record goes out. -/
theorem Serves.outcome_log {k : Nat} {t : Trace} (ht : p.trace? k = some t) (name : Text)
    (arguments : List Value) :
    (p.act (.log k name arguments)).2 = (t.prepare false name arguments).map fun _ => () := by
  rw [Program.act, ht]
  rcases hprepare : t.prepare false name arguments with failure | _ | r
  · simp only [Trace.log, Trace.logVia_of_error _ hprepare]
    rfl
  · simp only [Trace.log, Trace.logVia_of_silent _ hprepare]
    rfl
  · obtain ⟨hpoints, -, hlisted, hwritable⟩ := hs.kept.call ht hprepare
    simp only [Trace.log, Trace.logVia_of_record _ hprepare,
      hs.emit_ok hsteady hpoints hlisted hwritable]
    rfl

include hs hsteady in
theorem Serves.outcome_start {k : Nat} {t : Trace} (ht : p.trace? k = some t) (name : Text)
    (arguments : List Value) :
    (p.act (.start k name arguments)).2 = (t.prepare true name arguments).map fun _ => () := by
  rw [Program.act, ht]
  rcases hprepare : t.prepare true name arguments with failure | _ | r
  · simp only [Trace.start, Trace.startIn_of_error _ _ hprepare]
    rfl
  · simp only [Trace.start, Trace.startIn_of_silent _ _ hprepare]
    rfl
  · obtain ⟨hpoints, hlevel, hlisted, hwritable⟩ := hs.kept.call ht hprepare
    have hok : (Process.surroundings.emit p.process t.sink t.owner (Trace.opening r)).2 = .ok () :=
      hs.emit_ok hsteady hpoints hlisted hwritable
    simp only [Trace.start, Trace.startIn_of_record _ _ hprepare hlevel, hok]
    rfl

include hs hsteady in
/-- An object that is closed or let go is answered well, and has no last record any more. -/
theorem Serves.ended {a : Act} {k : Nat} (ha : Ends p a k) :
    (p.act a).2 = .ok () ∧
    (l.act a).notices = l.notices ++ ((p.span? k).bind Span.pending?).toList.map
      (fun s => ⟨p.process.now, s.owner, s.last p.process.ticks⟩) ∧
    ((p.act a).1.span? k).bind Span.pending? = none := by
  have hnotices : (l.act a).notices = l.notices ++ ((p.span? k).bind Span.pending?).toList.map
      (fun s => ⟨p.process.now, s.owner, s.last p.process.ticks⟩) := by
    rw [ha.ledger, Ledger.ended, hs.told, pending_told]
    cases (p.span? k).bind Span.pending? with
    | none => exact (List.append_nil _).symm
    | some s => rfl
  have hset {q : Process} {slot : Option Span} {s : Span} (hspan : p.span? k = some s)
      (hspent : Spent slot) :
      (({ p with process := q, spans := p.spans.set k slot } : Program).span? k).bind
        Span.pending? = none := by
    obtain ⟨hlt, -⟩ := List.getElem?_eq_some_iff.mp (Option.join_eq_some_iff.mp hspan)
    rw [span?, List.getElem?_set_self hlt]
    exact hspent.pending?
  have hanswer : (p.act a).2 = .ok () ∧ ((p.act a).1.span? k).bind Span.pending? = none := by
    cases hspan : p.span? k with
    | none =>
      rw [ha.absent hspan, hspan]
      exact ⟨rfl, rfl⟩
    | some s =>
      rcases s.quiet_or_open with hquiet | ⟨h, ho⟩
      · obtain ⟨slot, hspent, hact⟩ := ha.quiet s hspan hquiet
        rw [hact]
        exact ⟨rfl, hset hspan hspent⟩
      · obtain ⟨last, hlast, -, hpoints, hlisted, hwritable⟩ := hs.kept.last hspan ho
        obtain ⟨q, hemit, -⟩ := hs.exists_emit hsteady hpoints hlisted hwritable
        obtain ⟨slot, hspent, hact⟩ := ha.opened s h last hspan ho hlast q hemit
        rw [hact]
        exact ⟨rfl, hset hspan hspent⟩
  exact ⟨hanswer.1, hnotices, hanswer.2⟩

include hs hsteady in
theorem Serves.answered {a : Act} (hgraded : a.Graded) (hkeeps : a.KeepsFactory) :
    Answered p l a where
  failed := (hs.act hsteady hgraded hkeeps).2
  logged := by
    rintro k name arguments t rfl ht
    refine hs.sent ht (hs.outcome_log hsteady ht name arguments) ?_
    rw [Ledger.act]
    cases l.said? false k name arguments with
    | none => exact (List.append_nil _).symm
    | some s => rfl
  started := by
    rintro k name arguments t rfl ht
    refine hs.sent ht (hs.outcome_start hsteady ht name arguments) ?_
    rw [Ledger.act]
    cases l.said? true k name arguments with
    | none => exact (List.append_nil _).symm
    | some s => rfl
  ended := by
    rintro k (rfl | rfl)
    · exact hs.ended hsteady (ends_close p k)
    · exact hs.ended hsteady (ends_release p k)

end

/-! ### The whole program -/

/-- **The sinks of a hub get what a program has to say**, all of it and nothing else, in order.

Before the hub is built, no call has a record.  The levels of all declarations stand for something,
the factory is left alone once the hub is built, and no function that a sink calls back throws; that
apart, the program does what it likes.

The records that the ledger has notices of make entries at the hub, where they reach its minimum.
Of these each sink of the hub is written those that it wants, in their order and nothing else, and
the outside sees just that.  The ledger is told the acts alone, and how it goes together with the
answers of calls is said by `Answered`, for each act. -/
theorem delivers_every_call {process q : Process} {setup built : Setup} {g : Handle}
    {before later : List Act}
    (hquiet : (({ now := process.now, ticks := process.ticks } : Ledger).after before).notices = [])
    (hbuild : setup.build (({ process } : Program).after before).process = (q, built, .ok g))
    (hgraded : ∀ a ∈ before ++ later, a.Graded) (hkeeps : ∀ a ∈ later, a.KeepsFactory)
    (hsteady : ∀ s ∈ setup.sinks, s.Steady) :
    let serving : Program := { ({ process } : Program).after before with process := q }
    let ledger (acts : List Act) : Ledger :=
      ({ now := process.now, ticks := process.ticks } : Ledger).after (before ++ acts)
    let entries := setup.hub.entriesOf (ledger later).notices
    (serving.after later).process.adapters[g]? = some (.hub
      { minimum := setup.minimum
        sinks := setup.hub.sinks.map fun s => s.afterWrites (entries.filter fun e => s.Wants e) }) ∧
    (serving.after later).process.events =
      process.events ++ entries.flatMap (fun e => setup.hub.sinks.flatMap (·.shown e)) ∧
    ledger later = (serving.after later).told (ledger later).notices ∧
    ∀ done a rest, later = done ++ a :: rest → Answered (serving.after done) (ledger done) a := by
  intro serving ledger entries
  have hstart : { now := process.now, ticks := process.ticks } = ({ process } : Program).told [] :=
    rfl
  have hsinks := steady_hub setup hsteady
  rw [hstart] at hquiet
  obtain ⟨hkept, hevents, htold⟩ := quiet_after (kept_start process none)
    (fun a ha => hgraded a (List.mem_append_left later ha)) hquiet
  have hserves := serves_of_build hkept hbuild
  have hrun (acts : List Act) (rest : List Act) (hsplit : later = acts ++ rest) :
      Serves setup.hub g process.events (serving.after acts) (ledger acts) := by
    have hmem : ∀ a ∈ acts, a ∈ later := by
      intro a ha
      rw [hsplit]
      exact List.mem_append_left rest ha
    have hafter := hserves.after hsinks
      (fun a ha => hgraded a (List.mem_append_right before (hmem a ha)))
      (fun a ha => hkeeps a (hmem a ha))
    rw [hevents, ← htold, ← Ledger.after_append] at hafter
    exact hafter
  have hend := hrun later [] (List.append_nil later).symm
  refine ⟨hend.there, hend.events, hend.told, ?_⟩
  intro done a rest hsplit
  have hmem : a ∈ later := by
    rw [hsplit]
    exact List.mem_append_right done List.mem_cons_self
  exact (hrun done (a :: rest) hsplit).answered hsinks
    (hgraded a (List.mem_append_right before hmem)) (hkeeps a hmem)

/-- A contract with a sale that is logged and a service that takes its time. -/
def stall : ContractDecl where
  name := ascii "Stall"
  operations :=
    [{ name := ascii "Sell", level := some .info, template := ascii "Sold \x7b0\x7d",
       parameters := [{ name := ascii "what", kind := .string, position := 0 }] },
      { name := ascii "Serve", level := some .warning, template := ascii "Serving \x7b0\x7d",
        parameters := [{ name := ascii "guest", kind := .string, position := 0 }],
        handback := .span }]

/-- One sink wants all entries and one wants warnings. -/
def stallSetup : Setup where
  minimum := .info
  sinks := [.ofEntryCallback (some (.steady (ascii "all"))),
    { Sink.ofEntryCallback (some (.steady (ascii "some"))) with minimum := .warn }]

def stallActs : List Act × List Act :=
  ([.bind (ascii "stall") (fun _ => .ok stall) (ascii "left")],
    [.bind (ascii "stall") (fun _ => .ok stall) (ascii "right"),
      .start 0 (ascii "Serve") [.string (ascii "Ada")], .wait 7 1500000000,
      .log 1 (ascii "Sell") [.string (ascii "tea")], .log 0 (ascii "Sell") [], .release 0])

/-- What the outside sees of an entry that a sink is written: the label of the sink, and the owner
and the message of the entry. -/
def briefly : Event → Option (Text × Text × Text)
  | .entry label e _ => some (label, e.logger, e.message)
  | _ => none

/-- Two owners are bound, one before the hub is built and one after.  A sale without a thing sold is
not heard. -/
theorem delivers_every_call_stall :
    ∃ q built,
      stallSetup.build (({ process := {} } : Program).after stallActs.1).process =
        (q, built, .ok 2) ∧
      (({ ({ process := {} } : Program).after stallActs.1 with
          process := q } : Program).after stallActs.2).process.events.filterMap briefly =
        [(ascii "all", ascii "left", ascii "Serving Ada [+]"),
          (ascii "some", ascii "left", ascii "Serving Ada [+]"),
          (ascii "all", ascii "right", ascii "Sold tea"),
          (ascii "all", ascii "left", ascii "Serving Ada [1.500]"),
          (ascii "some", ascii "left", ascii "Serving Ada [1.500]")] := by
  have hquiet : (({ now := 0, ticks := 0 } : Ledger).after stallActs.1).notices = [] := rfl
  have hbuild : stallSetup.build (({ process := {} } : Program).after stallActs.1).process =
      (_, _, .ok 2) := rfl
  have hbind (owner : Text) : (Act.bind (ascii "stall") (fun _ => .ok stall) owner).Graded := by
    intro d hd op hop code outside
    obtain rfl := Except.ok.inj hd
    simp only [stall, List.mem_cons, List.not_mem_nil, or_false] at hop
    rcases hop with rfl | rfl <;> simp
  have hgraded : ∀ a ∈ stallActs.1 ++ stallActs.2, a.Graded := by
    intro a ha
    simp only [stallActs, List.mem_append, List.mem_cons, List.not_mem_nil, or_false] at ha
    rcases ha with rfl | rfl | rfl | rfl | rfl | rfl | rfl
    exacts [hbind _, hbind _, trivial, trivial, trivial, trivial, trivial]
  have hkeeps : ∀ a ∈ stallActs.2, a.KeepsFactory := by
    intro a ha
    simp only [stallActs, List.mem_cons, List.not_mem_nil, or_false] at ha
    rcases ha with rfl | rfl | rfl | rfl | rfl | rfl <;> trivial
  have hsteady : ∀ s ∈ stallSetup.sinks, s.Steady := by
    intro s hs c hc n
    simp only [stallSetup, List.mem_cons, List.not_mem_nil, or_false] at hs
    rcases hs with rfl | rfl <;> obtain rfl := Option.some.inj hc <;> rfl
  obtain ⟨-, hevents, -⟩ := delivers_every_call hquiet hbuild hgraded hkeeps hsteady
  refine ⟨_, _, hbuild, ?_⟩
  rw [hevents]
  rfl

end Program

end TraceContract
