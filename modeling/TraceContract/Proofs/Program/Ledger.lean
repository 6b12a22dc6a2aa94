import TraceContract.Proofs.Registry.Sharing
import TraceContract.Proofs.Trace.Dispatch

/-!
# What a program has to say

A program binds contracts to owners, calls their operations and holds the spans that these hand back,
as many of each as it likes and in any order.  A `Program` runs the code through such acts.  Beside
it stands a `Ledger`, which is told the acts alone: it knows who is bound to which contract and what
spans are open, and takes a `Notice` of every record that should reach somebody.  It knows nothing of
adapters, factories, hubs or sinks.

* `Trace.prepare_eq_some_iff` and `Ledger.record?_eq_some_iff`: the code and the ledger mean the same
  calls by those that have a record.
* `Span.quiet_or_open`: a span that is closed or silent gives nothing to anybody, any other one gives
  its last record.
* `Program.told` is the ledger that the state of a program amounts to.
-/

namespace TraceContract

/-! ### Calls that have a record -/

theorem Trace.prepare_of_mem {d : ContractDecl} {t : Trace}
    (hc : Contract.compile d = .ok t.contract) {op : Operation} (hop : op ∈ t.contract.operations)
    (wantsSpan : Bool) (arguments : List Value) :
    t.prepare wantsSpan op.name arguments =
      if op.handsBackSpan = wantsSpan then
        if op.level = .none then .ok none else (op.record arguments).map some
      else .error (t.refusal op.name (if wantsSpan then .handsBackNothing else .handsBackSpan)) := by
  have hform := operation_of_mem hc hop wantsSpan
  by_cases hspan : op.handsBackSpan = wantsSpan
  · rw [if_pos hspan] at hform ⊢
    rw [prepare, hform]
  · rw [if_neg hspan] at hform ⊢
    exact prepare_of_error hform arguments

/-- **Which calls have a record**, and what it is. -/
theorem Trace.prepare_eq_some_iff {d : ContractDecl} {t : Trace}
    (hc : Contract.compile d = .ok t.contract) {wantsSpan : Bool} {name : Text}
    {arguments : List Value} {r : Record} :
    t.prepare wantsSpan name arguments = .ok (some r) ↔
      ∃ op ∈ t.contract.operations, op.name = name ∧ op.handsBackSpan = wantsSpan ∧
        op.level ≠ .none ∧ op.record arguments = .ok r := by
  constructor
  · intro h
    rw [prepare] at h
    split at h
    · exact absurd h (by simp)
    next op hfound =>
    split at h
    · exact absurd h (by simp)
    next hlevel =>
    rw [operation] at hfound
    split at hfound
    · exact absurd hfound (by simp)
    next op' hfind =>
    split at hfound
    next hspan =>
      obtain rfl := Except.ok.inj hfound
      obtain ⟨hop, hname⟩ :=
        (Contract.find?_eq_some_iff (Contract.names_nodup_of_compile hc)).mp hfind
      obtain ⟨r', hr, hsome⟩ := map_eq_ok_iff.mp h
      obtain rfl := Option.some.inj hsome
      exact ⟨op', hop, hname, hspan, hlevel, hr⟩
    · exact absurd hfound (by simp)
  · rintro ⟨op, hop, rfl, hspan, hlevel, hr⟩
    rw [prepare_of_mem hc hop, if_pos hspan, if_neg hlevel, hr]
    rfl

/-! ### Ledgers -/

/-- A record that an owner should be heard with at a time of day. -/
structure Notice where
  now : Int
  owner : Text
  record : Record

/-- A span that is open and is to give a last record. -/
structure Pending where
  owner : Text
  title : Text
  fields : Fields
  level : Level
  started : Int

/-- The last record of the span, with the milliseconds since it was started. -/
def Pending.last (s : Pending) (ticks : Int) : Record where
  message := s.title ++ ascii " [" ++ Elapsed.text ((ticks - s.started).tdiv 1000000) ++ ascii "]"
  fields := s.fields
  level := s.level

/-- What is known of a program by its acts alone. -/
structure Ledger where
  registry : Registry := {}
  now : Int
  ticks : Int
  /-- The contracts that were bound, each with its owner; where one was refused there is none. -/
  bound : List (Option (Contract × Text)) := []
  /-- The objects, each with its span if that is open and heard. -/
  pending : List (Option Pending) := []
  notices : List Notice := []

/-- A program with its traces and the objects that hold its spans, both counted from the first that
was asked for. -/
structure Program where
  process : Process
  registry : Registry := {}
  /-- Where a contract was refused there is no trace. -/
  traces : List (Option Trace) := []
  /-- Where a call was refused there is no object, nor where it was let go. -/
  spans : List (Option Span) := []

namespace Program

/-- What a program may do. -/
inductive Act where
  | install (factory : Option Factory)
  | disable
  | reset
  /-- Does nothing until the clocks show other times. -/
  | wait (now ticks : Int)
  /-- Binds the contract of a key to an owner, whose sink is a deferred adapter. -/
  | bind (key : Text) (declare : Unit → Except Failure ContractDecl) (owner : Text)
  | log (k : Nat) (name : Text) (arguments : List Value)
  | start (k : Nat) (name : Text) (arguments : List Value)
  | move (k : Nat)
  | close (k : Nat)
  | release (k : Nat)

def Act.KeepsFactory : Act → Prop
  | .install (some _) | .disable | .reset => False
  | .install none | .wait .. | .bind .. | .log .. | .start .. | .move _ | .close _ |
    .release _ => True

variable (p : Program)

def trace? (k : Nat) : Option Trace := p.traces[k]?.join

def span? (k : Nat) : Option Span := p.spans[k]?.join

/-- One act, and what came of it.  What is done to something that is not there is not done. -/
def act : Act → Program × Except Failure Unit
  | .install factory =>
    let (process, outcome) := p.process.install factory
    ({ p with process }, outcome)
  | .disable => ({ p with process := p.process.disable }, .ok ())
  | .reset => ({ p with process := p.process.reset }, .ok ())
  | .wait now ticks => ({ p with process := { p.process with now, ticks } }, .ok ())
  | .bind key declare owner =>
    let (process, h) := p.process.addDeferred owner
    let obtained := p.registry.obtain key declare p.traces.length
    let made := obtained.result.bind fun c => Trace.make (some c) owner (some h)
    ({ p with process, registry := obtained.registry, traces := p.traces ++ [made.toOption] },
      made.map fun _ => ())
  | .log k name arguments =>
    match p.trace? k with
    | none => (p, .ok ())
    | some t =>
      let (process, outcome) := t.log p.process name arguments
      ({ p with process }, outcome)
  | .start k name arguments =>
    match p.trace? k with
    | none => ({ p with spans := p.spans ++ [none] }, .ok ())
    | some t =>
      let (process, started) := t.start p.process name arguments
      ({ p with process, spans := p.spans ++ [started.toOption] }, started.map fun _ => ())
  | .move k =>
    ({ p with spans := p.spans.set k ((p.span? k).map Span.leftover) ++ [p.span? k] }, .ok ())
  | .close k =>
    match p.span? k with
    | none => (p, .ok ())
    | some s =>
      let (process, s, outcome) := s.close p.process
      ({ p with process, spans := p.spans.set k (some s) }, outcome)
  | .release k =>
    match p.span? k with
    | none => (p, .ok ())
    | some s =>
      let (process, outcome) := s.release p.process
      ({ p with process, spans := p.spans.set k none }, outcome)

def after (acts : List Act) : Program := acts.foldl (fun p a => (p.act a).1) p

end Program

namespace Ledger

/-- The record of a call that fits an operation of the contract, unless the operation never writes
or has none for these arguments. -/
def record? (c : Contract) (wantsSpan : Bool) (name : Text) (arguments : List Value) :
    Option Record :=
  (c.operations.find? fun op =>
    op.name = name ∧ op.handsBackSpan = wantsSpan ∧ op.level ≠ .none).bind fun op =>
      (op.record arguments).toOption

variable (l : Ledger)

def said? (wantsSpan : Bool) (k : Nat) (name : Text) (arguments : List Value) :
    Option (Text × Record) :=
  l.bound[k]?.join.bind fun (c, owner) => (record? c wantsSpan name arguments).map (owner, ·)

def heard (owner : Text) (r : Record) : Ledger :=
  { l with notices := l.notices ++ [⟨l.now, owner, r⟩] }

/-- An object is closed or let go. -/
def ended (k : Nat) : Ledger :=
  match l.pending[k]?.join with
  | none => l
  | some s => { l.heard s.owner (s.last l.ticks) with pending := l.pending.set k none }

/-- What the ledger makes of an act. -/
def act : Program.Act → Ledger
  | .install _ | .disable | .reset => l
  | .wait now ticks => { l with now, ticks }
  | .bind key declare owner =>
    let obtained := l.registry.obtain key declare l.bound.length
    { l with
      registry := obtained.registry
      bound := l.bound ++ [obtained.result.toOption.map fun c => (c.contract, owner)] }
  | .log k name arguments =>
    match l.said? false k name arguments with
    | none => l
    | some (owner, r) => l.heard owner r
  | .start k name arguments =>
    match l.said? true k name arguments with
    | none => { l with pending := l.pending ++ [none] }
    | some (owner, r) =>
      { l.heard owner (Trace.opening r) with
        pending := l.pending ++ [some ⟨owner, r.message, r.fields, r.level, l.ticks⟩] }
  | .move k => { l with pending := l.pending.set k none ++ [l.pending[k]?.join] }
  | .close k | .release k => l.ended k

def after (acts : List Program.Act) : Ledger := acts.foldl act l

theorem after_append (acts later : List Program.Act) :
    l.after (acts ++ later) = (l.after acts).after later :=
  List.foldl_append

/-- The operation that fits is found by its name, which no other operation has. -/
theorem record?_eq_some_iff {d : ContractDecl} {c : Contract} (hc : Contract.compile d = .ok c)
    {wantsSpan : Bool} {name : Text} {arguments : List Value} {r : Record} :
    record? c wantsSpan name arguments = some r ↔
      ∃ op ∈ c.operations, op.name = name ∧ op.handsBackSpan = wantsSpan ∧
        op.level ≠ .none ∧ op.record arguments = .ok r := by
  have hoption (op : Operation) : (op.record arguments).toOption = some r ↔
      op.record arguments = .ok r := by
    cases op.record arguments <;> simp [Except.toOption]
  rw [record?, Option.bind_eq_some_iff]
  constructor
  · rintro ⟨op, hfind, hr⟩
    have hfits := List.find?_some hfind
    rw [decide_eq_true_iff] at hfits
    exact ⟨op, List.mem_of_find?_eq_some hfind, hfits.1, hfits.2.1, hfits.2.2, (hoption op).mp hr⟩
  · rintro ⟨op, hop, hname, hspan, hlevel, hr⟩
    refine ⟨op, ?_, (hoption op).mpr hr⟩
    cases hfind : c.operations.find? fun op =>
        op.name = name ∧ op.handsBackSpan = wantsSpan ∧ op.level ≠ .none with
    | none =>
      have hnone := List.find?_eq_none.mp hfind op hop
      exact absurd (decide_eq_true ⟨hname, hspan, hlevel⟩) hnone
    | some other =>
      have hfits := List.find?_some hfind
      rw [decide_eq_true_iff] at hfits
      have hfound {op' : Operation} (hop' : op' ∈ c.operations) (hname' : op'.name = name) :=
        (Contract.find?_eq_some_iff (Contract.names_nodup_of_compile hc)).mpr ⟨hop', hname'⟩
      exact (hfound (List.mem_of_find?_eq_some hfind) hfits.1).symm.trans (hfound hop hname)

end Ledger

/-! ### What a program amounts to -/

namespace Span

/-- Nothing comes of the span any more. -/
def Quiet (s : Span) : Prop := s.closed = true ∨ s.Silent

def pending? (s : Span) : Option Pending :=
  if s.closed = true ∨ s.sink = none ∨ s.level = .none then none
  else some ⟨s.logger, s.name, s.fields, s.level, s.started⟩

variable {σ : Type} (around : Surroundings σ) {s : Span}

theorem pending?_of_quiet (hs : s.Quiet) : s.pending? = none := if_pos hs

/-- The span is open, and the adapter is to have its last record. -/
structure Open (s : Span) (h : Handle) : Prop where
  closed : s.closed = false
  sink : s.sink = some h
  level : s.level ≠ .none

theorem quiet_or_open (s : Span) : s.Quiet ∨ ∃ h, s.Open h := by
  by_cases hquiet : s.Quiet
  · exact Or.inl hquiet
  · rw [Quiet, Silent, not_or, not_or, Bool.not_eq_true] at hquiet
    obtain ⟨h, hsink⟩ := Option.ne_none_iff_exists'.mp hquiet.2.1
    exact Or.inr ⟨h, hquiet.1, hsink, hquiet.2.2⟩

theorem Quiet.not_open (hs : s.Quiet) (h : Handle) : ¬ s.Open h := by
  intro ho
  rcases hs with hclosed | hsink | hlevel
  · exact absurd (ho.closed.symm.trans hclosed) (by simp)
  · exact absurd (ho.sink.symm.trans hsink) (by simp)
  · exact ho.level hlevel

theorem Open.pending? {h : Handle} (hs : s.Open h) :
    s.pending? = some ⟨s.logger, s.name, s.fields, s.level, s.started⟩ := by
  exact if_neg fun hquiet => Quiet.not_open hquiet h hs

theorem closeIn_of_quiet (hs : s.Quiet) (w : σ) :
    ∃ s', s.closeIn around w = (w, s', .ok ()) ∧ s'.closed = true := by
  rcases hs with hclosed | hsilent
  · exact ⟨s, closeIn_of_closed around w hclosed, hclosed⟩
  · exact closeIn_of_silent around hsilent w

theorem releaseIn_of_quiet (hs : s.Quiet) (w : σ) : s.releaseIn around w = (w, .ok ()) := by
  rcases hs with hclosed | hsilent
  · exact releaseIn_of_closed around w hclosed
  · exact releaseIn_of_silent around hsilent w

theorem Open.closeIn {h : Handle} (hs : s.Open h) {last : Pending} (hlast : s.pending? = some last)
    (w : σ) :
    ∃ s', s'.closed = true ∧ s.closeIn around w =
      ((around.emit w h s.logger (last.last (around.clock w))).1, s',
        (around.emit w h s.logger (last.last (around.clock w))).2) := by
  obtain rfl := Option.some.inj (hs.pending?.symm.trans hlast)
  refine ⟨s.endedAt (around.clock w), rfl, ?_⟩
  have hemit (s' : Span) (hsink : s'.sink = some h) (hlevel : s'.level ≠ .none) (message : Text) :
      s'.emitIn around w message = around.emit w h s'.logger (s'.record message) := by
    rw [emitIn, hsink]
    exact if_neg hlevel
  rw [closeIn_of_open around w hs.closed, hemit (s.endedAt (around.clock w)) hs.sink hs.level]
  rfl

end Span

namespace Program

variable (p : Program) (notices : List Notice)

/-- The ledger of a program that was to be heard with these records. -/
def told : Ledger where
  registry := p.registry
  now := p.process.now
  ticks := p.process.ticks
  bound := p.traces.map (Option.map fun t => (t.contract, t.owner))
  pending := p.spans.map (·.bind Span.pending?)
  notices := notices

theorem pending_told (k : Nat) :
    (p.told notices).pending[k]?.join = (p.span? k).bind Span.pending? := by
  rw [told, span?, List.getElem?_map]
  rcases p.spans[k]? with _ | _ | s
  · rfl
  · rfl
  · rfl

theorem bound_told (k : Nat) :
    (p.told notices).bound[k]?.join = (p.trace? k).map fun t => (t.contract, t.owner) := by
  rw [told, trace?, List.getElem?_map]
  rcases p.traces[k]? with _ | _ | t
  · rfl
  · rfl
  · rfl

variable {p} {k : Nat}

theorem said?_of_absent (ht : p.trace? k = none) (wantsSpan : Bool) (name : Text)
    (arguments : List Value) : (p.told notices).said? wantsSpan k name arguments = none := by
  rw [Ledger.said?, bound_told, ht]
  rfl

theorem said?_told {t : Trace} (ht : p.trace? k = some t) (wantsSpan : Bool) (name : Text)
    (arguments : List Value) :
    (p.told notices).said? wantsSpan k name arguments =
      (Ledger.record? t.contract wantsSpan name arguments).map (t.owner, ·) := by
  rw [Ledger.said?, bound_told, ht]
  rfl

variable {d : ContractDecl} {t : Trace} (ht : p.trace? k = some t)
  (hc : Contract.compile d = .ok t.contract) {wantsSpan : Bool} {name : Text}
  {arguments : List Value}

include ht hc

/-- **The ledger is told a record where the code makes one**, and it is the same. -/
theorem said?_of_record {r : Record} (h : t.prepare wantsSpan name arguments = .ok (some r)) :
    (p.told notices).said? wantsSpan k name arguments = some (t.owner, r) := by
  have hrecord := (Ledger.record?_eq_some_iff hc).mpr ((Trace.prepare_eq_some_iff hc).mp h)
  rw [said?_told notices ht, hrecord]
  rfl

theorem said?_of_no_record (h : ∀ r, t.prepare wantsSpan name arguments ≠ .ok (some r)) :
    (p.told notices).said? wantsSpan k name arguments = none := by
  rw [said?_told notices ht]
  cases hrecord : Ledger.record? t.contract wantsSpan name arguments with
  | none => rfl
  | some r =>
    have hmade := (Ledger.record?_eq_some_iff hc).mp hrecord
    exact absurd ((Trace.prepare_eq_some_iff hc).mpr hmade) (h r)

end Program

end TraceContract
