import TraceContract.Proofs.Process.Asking

/-!
# Programs and the factory in force

A program installs factories, silences or resets them, makes adapters and gives records to these, in
any order.  Which factory an adapter asks is decided by the last installing, silencing or resetting
before it asks, and by nothing else.

* `Process.Act` is what a program may do, and `Process.after` a run of it.
* `Process.Regime.following` reads off the acts alone what was decided last, and `Process.Obeys`
  says that the factory of a process is as decided.
* `Process.Obeys.act` is the step: an act that decides something is obeyed, and any other, records
  included, leaves the factory what it was.  `Process.Obeys.after` is the run.
* `Process.becomes_after`: no adapter goes, and no deferred one changes unless it was open and is
  settled.
-/

namespace TraceContract

namespace Process

/-- What a program may do with its adapters and the factory. -/
inductive Act where
  | install (factory : Option Factory)
  | disable
  | reset
  /-- Makes an adapter, be it a deferred one or another. -/
  | add (a : Adapter)
  /-- Does nothing until the time of day is another. -/
  | wait (now : Int)
  | emit (h : Handle) (logger : Text) (r : Record)

/-- What is decided about the sinks of the adapters that ask. -/
inductive Regime where
  /-- There is no factory: the house hub is the sink of all. -/
  | standard
  /-- The sink of all is one that drops what it gets. -/
  | silenced
  | chosen (factory : Factory)

def Act.decides : Act → Option Regime
  | .install (some factory) => some (.chosen factory)
  | .disable => some .silenced
  | .reset => some .standard
  | .install none | .add _ | .wait _ | .emit .. => none

def Act.KeepsFactory (act : Act) : Prop := act.decides = none

/-- What was decided last, be it by the acts or before them. -/
def Regime.following (regime : Regime) (acts : List Act) : Regime :=
  (acts.filterMap Act.decides).getLastD regime

theorem Regime.following_cons (regime : Regime) (act : Act) (rest : List Act) :
    regime.following (act :: rest) = (act.decides.getD regime).following rest := by
  rw [following, List.filterMap_cons]
  cases act.decides with
  | none => rfl
  | some decided => exact List.getLastD_cons

theorem Regime.following_of_keeps (regime : Regime) {acts : List Act}
    (hkeep : ∀ act ∈ acts, act.KeepsFactory) : regime.following acts = regime := by
  rw [following, List.filterMap_eq_nil_iff.mpr hkeep]
  rfl

variable {p q : Process} {h k : Handle} {name : Text} {target : Handle}

def act (p : Process) : Act → Process
  | .install factory => (p.install factory).1
  | .disable => p.disable
  | .reset => p.reset
  | .add a => (p.add a).1
  | .wait now => { p with now }
  | .emit h logger r => (p.emit h logger r).1

def after (p : Process) (acts : List Act) : Process := acts.foldl act p

theorem after_append (p : Process) (acts later : List Act) :
    p.after (acts ++ later) = (p.after acts).after later :=
  List.foldl_append

/-! ### What becomes of adapters -/

theorem open_of_addDeferred (hadd : p.addDeferred name = (q, h)) :
    q.adapters[h]? = some (.deferred name .open) := by
  obtain ⟨rfl, rfl⟩ := Prod.mk.inj hadd
  exact List.getElem?_concat_length

/-- Only records change adapters. -/
theorem kept_act {a : Adapter} (ha : p.adapters[h]? = some a) (act : Act)
    (hact : ∀ k logger r, act ≠ .emit k logger r) : (p.act act).adapters[h]? = some a := by
  have hadd (b : Adapter) : (p.add b).1.adapters[h]? = some a := by
    rw [add, List.getElem?_append_left (lt_of_getElem? ha)]
    exact ha
  cases act with
  | install factory =>
    cases factory with
    | none => exact ha
    | some factory => exact ha
  | disable => exact hadd .discard
  | reset => exact ha
  | add b => exact hadd b
  | wait now => exact ha
  | emit k logger r => exact absurd rfl (hact k logger r)

theorem becomes_act {a : Adapter} (ha : p.adapters[h]? = some a) (act : Act) :
    ∃ b, (p.act act).adapters[h]? = some b ∧ a.Becomes b := by
  by_cases hact : ∃ k logger r, act = .emit k logger r
  · obtain ⟨k, logger, r, rfl⟩ := hact
    exact (leads_emit p k logger r).becomes h a ha
  · have hother : ∀ k logger r, act ≠ .emit k logger r := by
      intro k logger r heq
      exact hact ⟨k, logger, r, heq⟩
    exact ⟨a, kept_act ha act hother, .refl a⟩

theorem becomes_after {a : Adapter} (ha : p.adapters[h]? = some a) (acts : List Act) :
    ∃ b, (p.after acts).adapters[h]? = some b ∧ a.Becomes b := by
  induction acts generalizing p a with
  | nil => exact ⟨a, ha, .refl a⟩
  | cons act rest ih =>
    obtain ⟨b, hb, hab⟩ := becomes_act ha act
    obtain ⟨c, hc, hbc⟩ := ih hb
    exact ⟨c, hc, hab.trans hbc⟩

theorem settled_after (hs : p.adapters[h]? = some (.deferred name (.settled target)))
    (acts : List Act) : (p.after acts).adapters[h]? = some (.deferred name (.settled target)) := by
  obtain ⟨b, hb, hbecomes⟩ := becomes_after hs acts
  cases hbecomes
  exact hb

/-- The regime of a process that nothing is known about but its factory. -/
def regime (p : Process) : Regime :=
  match p.factory with
  | none => .standard
  | some factory => .chosen factory

/-- The factory of the process is what the regime says, though it may have been asked since. -/
def Obeys (p : Process) : Regime → Prop
  | .standard => p.factory = none
  | .silenced => ∃ sink, p.factory = some (.constant sink) ∧ p.adapters[sink]? = some .discard
  | .chosen factory => Factory.Continues (some factory) p.factory

theorem obeys_constant {sink : Handle} :
    p.Obeys (.chosen (.constant sink)) ↔ p.factory = some (.constant sink) := by
  show Factory.Continues (some (.constant sink)) p.factory ↔ _
  constructor
  · intro hc
    generalize p.factory = later at hc
    cases hc
    rfl
  · intro hf
    rw [hf]
    exact .constant sink

namespace Obeys

variable {regime : Regime}

/-- Where the factory goes on and what drops all records stays, so does the regime. -/
theorem mono (ho : p.Obeys regime) (hf : Factory.Continues p.factory q.factory)
    (hd : ∀ k : Nat, p.adapters[k]? = some .discard → q.adapters[k]? = some .discard) :
    q.Obeys regime := by
  cases regime with
  | standard =>
    have hnone : p.factory = none := ho
    show q.factory = none
    rw [hnone] at hf
    generalize q.factory = later at hf
    cases hf
    rfl
  | silenced =>
    obtain ⟨sink, hconstant, hdiscard⟩ := ho
    refine ⟨sink, ?_, hd sink hdiscard⟩
    rw [hconstant] at hf
    exact obeys_constant.mp hf
  | chosen factory => exact Factory.Continues.trans ho hf

/-- **Records decide nothing**: they leave the factory what it was. -/
theorem of_leads (ho : p.Obeys regime) (hl : Leads p q) : q.Obeys regime := by
  refine ho.mono hl.factory ?_
  intro k hd
  obtain ⟨b, hb, hbecomes⟩ := hl.becomes k _ hd
  cases hbecomes
  exact hb

/-- **An act that decides something is obeyed**, and any other leaves the regime as it is. -/
theorem act (ho : p.Obeys regime) (act : Act) : (p.act act).Obeys (act.decides.getD regime) := by
  have hkept (act : Act) (hact : ∀ k logger r, act ≠ .emit k logger r)
      (hf : (p.act act).factory = p.factory) : (p.act act).Obeys regime := by
    refine ho.mono ?_ fun k hd => kept_act hd act hact
    rw [hf]
    exact .refl p.factory
  cases act with
  | install factory =>
    cases factory with
    | none => exact ho
    | some factory => exact Factory.Continues.refl (some factory)
  | disable => exact ⟨p.adapters.length, rfl, List.getElem?_concat_length⟩
  | reset => exact rfl
  | add a => exact hkept (.add a) (fun _ _ _ => Act.noConfusion) rfl
  | wait now => exact hkept (.wait now) (fun _ _ _ => Act.noConfusion) rfl
  | emit k logger r => exact ho.of_leads (leads_emit p k logger r)

/-- **What was decided last is in force**, however many records went by. -/
theorem after (ho : p.Obeys regime) (acts : List Act) :
    (p.after acts).Obeys (regime.following acts) := by
  induction acts generalizing p regime with
  | nil => exact ho
  | cons act rest ih =>
    rw [Regime.following_cons]
    exact ih (ho.act act)

end Obeys

theorem factory_after_of_constant {sink : Handle} (hf : p.factory = some (.constant sink))
    {acts : List Act} (hkeep : ∀ act ∈ acts, act.KeepsFactory) :
    (p.after acts).factory = some (.constant sink) := by
  have hafter := (obeys_constant.mpr hf).after acts
  rw [Regime.following_of_keeps _ hkeep] at hafter
  exact obeys_constant.mp hafter

/-! ### Programs that nothing interferes with -/

/-- Whenever a record is given to an adapter, the factory sends records only to adapters that pass
nothing on. -/
def Undisturbed : Process → List Act → Prop
  | _, [] => True
  | p, act :: rest =>
    (∀ h logger r, act = .emit h logger r → p.Aloof) ∧ (p.act act).Undisturbed rest

theorem aloof_of_constant {sink : Handle} (hf : p.factory = some (.constant sink)) : p.Aloof := by
  intro f hfactory
  exact absurd (hf.symm.trans hfactory) (by simp)

theorem undisturbed_of_constant {sink : Handle} (hf : p.factory = some (.constant sink))
    {acts : List Act} (hkeep : ∀ act ∈ acts, act.KeepsFactory) : p.Undisturbed acts := by
  induction acts generalizing p with
  | nil => trivial
  | cons act rest ih =>
    have hact := (obeys_constant.mpr hf).act act
    have hkept : act.decides = none := hkeep act List.mem_cons_self
    rw [hkept] at hact
    refine ⟨fun _ _ _ _ => aloof_of_constant hf, ih (obeys_constant.mp hact) ?_⟩
    intro other hmem
    exact hkeep other (List.mem_cons_of_mem act hmem)

end Process

end TraceContract
