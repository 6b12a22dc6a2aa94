import TraceContract.Process.Emit

/-!
# What records do to adapters

A record that is given to an adapter may be passed on to others and may make a factory send more
records on their way.  What all of this does to the adapters of the process is said here, whatever
the bound on its steps.

* `Process.Leads`: no adapter comes or goes, no deferred adapter changes unless it was open and is
  settled, and the factory is the same, though it may have been asked some times more.
* `Process.Stops` tells the adapters that pass no record on; `Process.emitWithin_of_stops`,
  `Process.emitWithin_of_settled` and `Process.emitWithin_of_open` are the steps of a record.
* `Errand.run_cases` and `Process.resolveVia_outside`: what a factory does before it answers.
* `Process.leads_emitWithin`: giving a record to an adapter leads on.
-/

namespace TraceContract

/-! ### What becomes of adapters -/

namespace Adapter

/-- What an adapter may have become after records were given to adapters. -/
inductive Becomes : Adapter → Adapter → Prop
  | discard : Becomes .discard .discard
  | recorder (c c' : Recorder) : Becomes (.recorder c) (.recorder c')
  | hub (hub hub' : Hub) : Becomes (.hub hub) (.hub hub')
  | stays (name : Text) (resolution : Resolution) :
      Becomes (.deferred name resolution) (.deferred name resolution)
  | settles (name : Text) (target : Handle) :
      Becomes (.deferred name .open) (.deferred name (.settled target))

theorem Becomes.refl (a : Adapter) : Becomes a a := by
  cases a with
  | discard => exact .discard
  | recorder c => exact .recorder c c
  | hub hub => exact .hub hub hub
  | deferred name resolution => exact .stays name resolution

theorem Becomes.trans {a b c : Adapter} (h : Becomes a b) (g : Becomes b c) : Becomes a c := by
  cases h with
  | discard => exact g
  | recorder c c' =>
    cases g with
    | recorder _ c'' => exact .recorder c c''
  | hub hub hub' =>
    cases g with
    | hub _ hub'' => exact .hub hub hub''
  | stays name resolution => exact g
  | settles name target =>
    cases g with
    | stays => exact .settles name target

/-- What is at a place where all records are dropped: nothing, an adapter for that, or one that
waits for its sink. -/
inductive Drops : Option Adapter → Prop
  | absent : Drops none
  | discard : Drops (some .discard)
  | resolving (name : Text) : Drops (some (.deferred name .resolving))

end Adapter

namespace Factory

/-- What the factory of a process, if it has one, may have become after records were given to
adapters: only how often it was asked may be another. -/
inductive Continues : Option Factory → Option Factory → Prop
  | none : Continues none none
  | constant (sink : Handle) : Continues (some (.constant sink)) (some (.constant sink))
  | outside (f : OutsideFactory) {asked : Nat} (hle : f.asked ≤ asked) :
      Continues (some (.outside f)) (some (.outside { f with asked }))

theorem Continues.refl (f : Option Factory) : Continues f f := by
  match f with
  | .none => exact .none
  | some (.constant sink) => exact .constant sink
  | some (.outside f) => exact .outside f (Nat.le_refl f.asked)

theorem Continues.trans {f g k : Option Factory} (hfg : Continues f g) (hgk : Continues g k) :
    Continues f k := by
  cases hfg with
  | none => exact hgk
  | constant sink => exact hgk
  | outside f hle =>
    cases hgk with
    | outside _ hlater => exact .outside f (Nat.le_trans hle hlater)

end Factory

namespace Process

variable {p q : Process} {h k : Handle} {name : Text} {target : Handle}

theorem getElem?_put_self (hlt : h < p.adapters.length) (a : Adapter) :
    (p.put h a).adapters[h]? = some a :=
  List.getElem?_set_self hlt

theorem getElem?_put_of_ne (hne : h ≠ k) (a : Adapter) :
    (p.put h a).adapters[k]? = p.adapters[k]? :=
  List.getElem?_set_ne hne

theorem length_put (p : Process) (h : Handle) (a : Adapter) :
    (p.put h a).adapters.length = p.adapters.length :=
  List.length_set

theorem lt_of_getElem? {a : Adapter} (ha : p.adapters[h]? = some a) : h < p.adapters.length :=
  (List.getElem?_eq_some_iff.mp ha).1

/-- The adapters of `q` and its factory are those of `p` after records were given to adapters. -/
structure Leads (p q : Process) : Prop where
  length_eq : q.adapters.length = p.adapters.length
  becomes : ∀ (h : Nat) (a : Adapter), p.adapters[h]? = some a →
    ∃ b, q.adapters[h]? = some b ∧ a.Becomes b
  factory : Factory.Continues p.factory q.factory

namespace Leads

theorem of_adapters_eq (heq : q.adapters = p.adapters)
    (hfactory : Factory.Continues p.factory q.factory) : Leads p q := by
  refine ⟨by rw [heq], ?_, hfactory⟩
  intro h a ha
  exact ⟨a, by rw [heq, ha], .refl a⟩

theorem refl (p : Process) : Leads p p := of_adapters_eq rfl (.refl p.factory)

theorem trans {p' : Process} (hpq : Leads p q) (hqp : Leads q p') : Leads p p' := by
  refine ⟨hqp.length_eq.trans hpq.length_eq, ?_, hpq.factory.trans hqp.factory⟩
  intro h a ha
  obtain ⟨b, hb, hab⟩ := hpq.becomes h a ha
  obtain ⟨c, hc, hbc⟩ := hqp.becomes h b hb
  exact ⟨c, hc, hab.trans hbc⟩

/-- Whatever an adapter was in between, only what it is in the end counts. -/
theorem put {a b c : Adapter} (ha : p.adapters[h]? = some a) (hl : Leads (p.put h b) q)
    (hac : a.Becomes c) : Leads p (q.put h c) := by
  have hlen : q.adapters.length = p.adapters.length := by
    rw [hl.length_eq, length_put]
  refine ⟨by rw [length_put, hlen], ?_, hl.factory⟩
  intro k x hx
  by_cases hk : h = k
  · subst hk
    obtain rfl := Option.some.inj (ha.symm.trans hx)
    have hlt : h < q.adapters.length := by
      rw [hlen]
      exact lt_of_getElem? ha
    exact ⟨c, getElem?_put_self hlt c, hac⟩
  · rw [← getElem?_put_of_ne hk b] at hx
    rw [getElem?_put_of_ne hk]
    exact hl.becomes k x hx

theorem settled (hl : Leads p q) (hs : p.adapters[h]? = some (.deferred name (.settled target))) :
    q.adapters[h]? = some (.deferred name (.settled target)) := by
  obtain ⟨b, hb, hbecomes⟩ := hl.becomes h _ hs
  cases hbecomes
  exact hb

end Leads

theorem put_self {a : Adapter} (ha : p.adapters[h]? = some a) : p.put h a = p := by
  obtain ⟨hlt, rfl⟩ := List.getElem?_eq_some_iff.mp ha
  have hset : p.adapters.set h p.adapters[h] = p.adapters := List.set_getElem_self hlt
  rw [put, hset]

theorem leads_put {a b : Adapter} (ha : p.adapters[h]? = some a) (hab : a.Becomes b) :
    Leads p (p.put h b) := by
  have hl : Leads (p.put h a) p := by
    rw [put_self ha]
    exact .refl p
  exact hl.put ha hab

/-! ### Adapters that pass nothing on -/

/-- The adapter passes no record on: it is no deferred one, or one that waits for its sink. -/
structure Stops (p : Process) (h : Handle) : Prop where
  ne_open : ∀ name, p.adapters[h]? ≠ some (.deferred name .open)
  ne_settled : ∀ name target, p.adapters[h]? ≠ some (.deferred name (.settled target))

theorem stops_or (p : Process) (h : Handle) :
    p.Stops h ∨ (∃ name, p.adapters[h]? = some (.deferred name .open)) ∨
      ∃ name target, p.adapters[h]? = some (.deferred name (.settled target)) := by
  by_cases hopen : ∃ name, p.adapters[h]? = some (.deferred name .open)
  · exact Or.inr (Or.inl hopen)
  by_cases hsettled : ∃ name target, p.adapters[h]? = some (.deferred name (.settled target))
  · exact Or.inr (Or.inr hsettled)
  refine Or.inl ⟨?_, ?_⟩
  · intro name heq
    exact hopen ⟨name, heq⟩
  · intro name target heq
    exact hsettled ⟨name, target, heq⟩

/-- A deferred adapter was there before, as it is or open. -/
theorem Leads.origin (hl : Leads p q) {resolution : Resolution}
    (hq : q.adapters[h]? = some (.deferred name resolution)) :
    ∃ before, p.adapters[h]? = some (.deferred name before) ∧
      (before = resolution ∨ before = .open) := by
  have hlt : h < p.adapters.length := by
    rw [← hl.length_eq]
    exact lt_of_getElem? hq
  have hp := List.getElem?_eq_getElem hlt
  obtain ⟨b, hb, hbecomes⟩ := hl.becomes h _ hp
  obtain rfl := Option.some.inj (hb.symm.trans hq)
  generalize p.adapters[h] = a at hp hbecomes
  cases hbecomes with
  | stays => exact ⟨resolution, hp, Or.inl rfl⟩
  | settles name target => exact ⟨.open, hp, Or.inr rfl⟩

theorem Stops.of_leads (hs : p.Stops h) (hl : Leads p q) : q.Stops h := by
  constructor
  · intro name hq
    obtain ⟨before, hp, rfl | rfl⟩ := hl.origin hq
    · exact hs.ne_open name hp
    · exact hs.ne_open name hp
  · intro name target hq
    obtain ⟨before, hp, rfl | rfl⟩ := hl.origin hq
    · exact hs.ne_settled name target hp
    · exact hs.ne_open name hp

theorem Stops.ne_of_open (hs : p.Stops k) (ho : p.adapters[h]? = some (.deferred name .open)) :
    h ≠ k := by
  rintro rfl
  exact hs.ne_open name ho

theorem Stops.put (hs : p.Stops k) (hne : h ≠ k) (a : Adapter) : (p.put h a).Stops k := by
  constructor
  · rw [getElem?_put_of_ne hne]
    exact hs.ne_open
  · rw [getElem?_put_of_ne hne]
    exact hs.ne_settled

/-! ### What one adapter does -/

/-- What comes of a record whose adapter asked for its sink: where there is none the adapter is open
again, else it is settled and the record goes on. -/
def answered (emit : Emit) (h : Handle) (name logger : Text) (r : Record) :
    Process × Except Failure Handle → Process × Except Failure Unit
  | (p, .error failure) => (p.put h (.deferred name .open), .error failure)
  | (p, .ok target) => emit (p.put h (.deferred name (.settled target))) target logger r

variable (depth : Nat) (logger : Text) (r : Record)

theorem emitWithin_of_settled (hs : p.adapters[h]? = some (.deferred name (.settled target))) :
    emitWithin (depth + 1) p h logger r = emitWithin depth p target logger r := by
  rw [emitWithin, hs]

theorem emitWithin_of_open (ho : p.adapters[h]? = some (.deferred name .open)) :
    emitWithin (depth + 1) p h logger r =
      answered (emitWithin depth) h name logger r
        (resolveVia (emitWithin depth) (p.put h (.deferred name .resolving)) name) := by
  rw [emitWithin, ho]
  simp only
  rcases resolveVia (emitWithin depth) (p.put h (.deferred name .resolving)) name with
    ⟨q, failure | target⟩
  · rfl
  · rfl

theorem emitWithin_of_recorder {c : Recorder} (hc : p.adapters[h]? = some (.recorder c)) :
    emitWithin (depth + 1) p h logger r = p.absorb h .recorder (c.emit logger r) := by
  rw [emitWithin, hc]

theorem emitWithin_of_hub {hub : Hub} (hh : p.adapters[h]? = some (.hub hub)) :
    emitWithin (depth + 1) p h logger r = p.absorb h .hub (hub.emit p.now logger r) := by
  rw [emitWithin, hh]

theorem emitWithin_of_drops (hd : Adapter.Drops p.adapters[h]?) :
    emitWithin (depth + 1) p h logger r = (p, .ok ()) := by
  generalize ha : p.adapters[h]? = a at hd
  cases hd with
  | absent => rw [emitWithin, ha]
  | discard => rw [emitWithin, ha]
  | resolving name => rw [emitWithin, ha]

theorem Stops.cases (hs : p.Stops h) :
    Adapter.Drops p.adapters[h]? ∨ (∃ c, p.adapters[h]? = some (.recorder c)) ∨
      ∃ hub, p.adapters[h]? = some (.hub hub) := by
  cases ha : p.adapters[h]? with
  | none => exact Or.inl .absent
  | some a =>
    cases a with
    | discard => exact Or.inl .discard
    | recorder c => exact Or.inr (Or.inl ⟨c, rfl⟩)
    | hub hub => exact Or.inr (Or.inr ⟨hub, rfl⟩)
    | deferred name resolution =>
      cases resolution with
      | «open» => exact absurd ha (hs.ne_open name)
      | resolving => exact Or.inl (.resolving name)
      | settled target => exact absurd ha (hs.ne_settled name target)

theorem emitWithin_of_stops (hs : p.Stops h) :
    emitWithin (depth + 1) p h logger r = emitWithin 1 p h logger r := by
  rcases hs.cases with hd | ⟨c, hc⟩ | ⟨hub, hh⟩
  · rw [emitWithin_of_drops _ logger r hd, emitWithin_of_drops _ logger r hd]
  · rw [emitWithin_of_recorder depth logger r hc, emitWithin_of_recorder 0 logger r hc]
  · rw [emitWithin_of_hub depth logger r hh, emitWithin_of_hub 0 logger r hh]

/-- What an adapter that passes nothing on does is done to itself alone. -/
theorem leads_of_stops (hs : p.Stops h) : Leads p (emitWithin 1 p h logger r).1 := by
  rcases hs.cases with hd | ⟨c, hc⟩ | ⟨hub, hh⟩
  · rw [emitWithin_of_drops 0 logger r hd]
    exact .refl p
  · rw [emitWithin_of_recorder 0 logger r hc]
    have hput := leads_put hc (.recorder c (c.emit logger r).state)
    exact hput.trans (.of_adapters_eq rfl (.refl p.factory))
  · rw [emitWithin_of_hub 0 logger r hh]
    have hput := leads_put hh (.hub hub (hub.emit p.now logger r).state)
    exact hput.trans (.of_adapters_eq rfl (.refl p.factory))

/-! ### Errands -/

end Process

namespace Errand

def given? : Errand → Option (Handle × Text × Record)
  | .log trace operation arguments =>
    match trace.prepare false operation arguments with
    | .ok (some r) => some (trace.sink, trace.owner, r)
    | _ => none
  | .emit sink logger r => some (sink, logger, r)
  | .fail _ => none

/-- An errand gives a record to an adapter, or it does nothing but fail or succeed. -/
theorem run_cases (errand : Errand) :
    (∃ sink logger r, errand.given? = some (sink, logger, r) ∧
      ∀ emit p, Process.runErrand emit p errand = emit p sink logger r) ∨
    ∃ outcome, errand.given? = none ∧
      ∀ emit p, Process.runErrand emit p errand = (p, outcome) := by
  cases errand with
  | log trace operation arguments =>
    cases hprepare : trace.prepare false operation arguments with
    | error failure =>
      refine Or.inr ⟨.error failure, ?_, ?_⟩
      · rw [given?, hprepare]
      · intro emit p
        rw [Process.runErrand, Trace.logVia, hprepare]
    | ok prepared =>
      cases prepared with
      | none =>
        refine Or.inr ⟨.ok (), ?_, ?_⟩
        · rw [given?, hprepare]
        · intro emit p
          rw [Process.runErrand, Trace.logVia, hprepare]
      | some r =>
        refine Or.inl ⟨trace.sink, trace.owner, r, ?_, ?_⟩
        · rw [given?, hprepare]
        · intro emit p
          rw [Process.runErrand, Trace.logVia, hprepare]
  | emit sink logger r => exact Or.inl ⟨sink, logger, r, rfl, fun _ _ => rfl⟩
  | fail failure => exact Or.inr ⟨.error failure, rfl, fun _ _ => rfl⟩

end Errand

namespace Process

variable {p q : Process} {h k : Handle} {name : Text} {target : Handle}

/-- The process that has just begun to ask a factory for the sink of a logger. -/
def asking (p : Process) (f : OutsideFactory) (name : Text) : Process :=
  ({ p with factory := some (.outside f.called) } : Process).saw [.asked f.label name]

theorem leads_asking {f : OutsideFactory} (hf : p.factory = some (.outside f)) (name : Text) :
    Leads p (p.asking f name) := by
  refine .of_adapters_eq rfl ?_
  rw [hf]
  exact .outside f (Nat.le_succ f.asked)

theorem resolveVia_outside {f : OutsideFactory} (emit : Emit)
    (hf : p.factory = some (.outside f)) (name : Text) :
    resolveVia emit p name =
      ((runErrands emit f.errands (p.asking f name)).1,
        (runErrands emit f.errands (p.asking f name)).2.bind fun _ => f.sinkFor name) := by
  rw [resolveVia, hf]
  simp only
  rw [← asking]
  rcases runErrands emit f.errands (p.asking f name) with ⟨q, failure | u⟩
  · rfl
  · rfl

/-- A factory of somebody else is there to be asked, or the answer is known beforehand. -/
theorem factory_cases (p : Process) :
    (∃ sink, ∀ (emit : Emit) (q : Process) (name : Text), q.factory = p.factory →
      resolveVia emit q name = (q, .ok sink)) ∨
    ∃ f, p.factory = some (.outside f) := by
  cases hf : p.factory with
  | none =>
    refine Or.inl ⟨house, ?_⟩
    intro emit q name hq
    rw [resolveVia, hq]
  | some factory =>
    cases factory with
    | constant sink =>
      refine Or.inl ⟨sink, ?_⟩
      intro emit q name hq
      rw [resolveVia, hq]
    | outside f => exact Or.inr ⟨f, rfl⟩

/-! ### Records leave adapters where they are -/

section

variable {emit : Emit} (hemit : ∀ q h logger r, Leads q (emit q h logger r).1)

include hemit

theorem leads_runErrand (p : Process) (errand : Errand) : Leads p (runErrand emit p errand).1 := by
  rcases errand.run_cases with ⟨sink, logger, r, -, hrun⟩ | ⟨outcome, -, hrun⟩
  · rw [hrun]
    exact hemit p sink logger r
  · rw [hrun]
    exact .refl p

theorem leads_runErrands (errands : List Errand) (p : Process) :
    Leads p (runErrands emit errands p).1 := by
  induction errands generalizing p with
  | nil => exact .refl p
  | cons errand errands ih =>
    have hfirst := leads_runErrand hemit p errand
    rw [runErrands]
    rcases hrun : runErrand emit p errand with ⟨q, failure | u⟩
    · rw [hrun] at hfirst
      exact hfirst
    · rw [hrun] at hfirst
      exact hfirst.trans (ih q)

theorem leads_resolveVia (p : Process) (name : Text) : Leads p (resolveVia emit p name).1 := by
  rcases p.factory_cases with ⟨sink, hknown⟩ | ⟨f, hf⟩
  · rw [hknown emit p name rfl]
    exact .refl p
  · rw [resolveVia_outside emit hf]
    exact (leads_asking hf name).trans (leads_runErrands hemit f.errands (p.asking f name))

end

/-- **No adapter comes or goes** where a record is given to one, no deferred adapter changes unless
it was open and is settled, and the factory is asked at most. -/
theorem leads_emitWithin (depth : Nat) (p : Process) (h : Handle) (logger : Text) (r : Record) :
    Leads p (emitWithin depth p h logger r).1 := by
  induction depth generalizing p h logger r with
  | zero => exact .refl p
  | succ depth ih =>
    rcases stops_or p h with hs | ⟨name, ho⟩ | ⟨name, target, hs⟩
    · rw [emitWithin_of_stops depth logger r hs]
      exact leads_of_stops logger r hs
    · rw [emitWithin_of_open depth logger r ho]
      have hresolve := leads_resolveVia ih (p.put h (.deferred name .resolving)) name
      rcases hanswer : resolveVia (emitWithin depth) (p.put h (.deferred name .resolving)) name with
        ⟨q, failure | target⟩
      · rw [hanswer] at hresolve
        exact hresolve.put ho (.stays name .open)
      · rw [hanswer] at hresolve
        have hput := hresolve.put ho (.settles name target)
        exact hput.trans (ih (q.put h (.deferred name (.settled target))) target logger r)
    · rw [emitWithin_of_settled depth logger r hs]
      exact ih p target logger r

theorem leads_emit (p : Process) (h : Handle) (logger : Text) (r : Record) :
    Leads p (p.emit h logger r).1 :=
  leads_emitWithin p.depth p h logger r

theorem leads_resolve (p : Process) (name : Text) : Leads p (p.resolve name).1 :=
  leads_resolveVia (leads_emitWithin p.depth) p name

end Process

end TraceContract
