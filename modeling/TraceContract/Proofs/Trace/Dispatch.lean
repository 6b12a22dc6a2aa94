import TraceContract.Proofs.Record.Bounds
import TraceContract.Proofs.Span.Noting

/-!
# What a call comes to

A call names an operation, and is of one of two forms: it logs, or it starts a span.  What can be
wrong with it is found in a fixed order, and nothing is given to a sink before all of it is known to
be right.  Everything is said for any surroundings, so for any sink and whatever that does.

* `Trace.operation_of_mem` and `Trace.operation_of_undeclared`: which operation a call finds.
* `Trace.prepare_of_silent` and `Trace.prepare_of_heard`: the record that it makes.
* `Span.closeIn_of_silent`: a silent span gives nothing to a sink.
* `Trace.logVia_noting` and `Trace.startIn_of_record`: a record is given to the sink once.
* `Trace.gives_once_or_nothing`: all that can come of a call, in both forms.
-/

namespace TraceContract

/-! ### The record of a call -/

theorem Operation.level_of_record {op : Operation} {arguments : List Value} {r : Record}
    (h : op.record arguments = .ok r) : r.level = op.level := by
  obtain ⟨bound, hb⟩ := exists_bind_of_record h
  rw [record_of_bind hb] at h
  obtain ⟨text, -, rfl⟩ := map_eq_ok_iff.mp h
  rfl

theorem Operation.record_ne_dispatch (op : Operation) (arguments : List Value)
    (e : DispatchError) : op.record arguments ≠ .error (.dispatch e) := by
  intro h
  rcases record_error h with ⟨e', he, -⟩ | ⟨he, -⟩ | ⟨he, -⟩
  · exact absurd he (by simp)
  · exact absurd he (by simp)
  · exact absurd he (by simp)

namespace Trace

/-- The refusal of a call by its name or its form. -/
def refusal (t : Trace) (name : Text) (fault : DispatchFault) : Failure :=
  .dispatch ⟨t.contract.name, name, fault⟩

variable {d : ContractDecl} {t : Trace} {op : Operation}

theorem operation_of_undeclared (hc : Contract.compile d = .ok t.contract) {name : Text}
    (hname : name ∉ d.operations.map (·.name)) (wantsSpan : Bool) :
    t.operation wantsSpan name = .error (t.refusal name .unknownOperation) := by
  rw [operation, (Contract.find?_eq_none_iff_of_compile hc).mpr hname]
  rfl

theorem operation_of_mem (hc : Contract.compile d = .ok t.contract)
    (hop : op ∈ t.contract.operations) (wantsSpan : Bool) :
    t.operation wantsSpan op.name =
      if op.handsBackSpan = wantsSpan then .ok op
      else .error (t.refusal op.name (if wantsSpan then .handsBackNothing else .handsBackSpan)) := by
  have hfind : t.contract.find? op.name = some op :=
    (Contract.find?_eq_some_iff (Contract.names_nodup_of_compile hc)).mpr ⟨hop, rfl⟩
  rw [operation, hfind]
  rfl

theorem prepare_of_error {wantsSpan : Bool} {name : Text} {failure : Failure}
    (h : t.operation wantsSpan name = .error failure) (arguments : List Value) :
    t.prepare wantsSpan name arguments = .error failure := by
  rw [prepare, h]

theorem prepare_of_silent {wantsSpan : Bool} {name : Text} (h : t.operation wantsSpan name = .ok op)
    (hlevel : op.level = .none) (arguments : List Value) :
    t.prepare wantsSpan name arguments = .ok none := by
  rw [prepare, h]
  exact if_pos hlevel

theorem prepare_of_heard {wantsSpan : Bool} {name : Text} (h : t.operation wantsSpan name = .ok op)
    (hlevel : op.level ≠ .none) (arguments : List Value) :
    t.prepare wantsSpan name arguments = (op.record arguments).map some := by
  rw [prepare, h]
  exact if_neg hlevel

end Trace

/-! ### Silent spans -/

namespace Span

def Silent (s : Span) : Prop := s.sink = none ∨ s.level = .none

variable {σ : Type} (around : Surroundings σ) {s : Span}

theorem emitIn_of_silent (hs : s.Silent) (w : σ) (message : Text) :
    s.emitIn around w message = (w, .ok ()) := by
  rw [emitIn]
  rcases hs with hsink | hlevel
  · rw [hsink]
  · cases s.sink with
    | none => rfl
    | some h => exact if_pos hlevel

theorem closeIn_of_silent (hs : s.Silent) (w : σ) :
    ∃ s', s.closeIn around w = (w, s', .ok ()) ∧ s'.closed = true := by
  cases hclosed : s.closed with
  | true => exact ⟨s, closeIn_of_closed around w hclosed, hclosed⟩
  | false =>
    have hended : (s.endedAt (around.clock w)).Silent := hs
    rw [closeIn_of_open around w hclosed, emitIn_of_silent around hended]
    exact ⟨_, rfl, rfl⟩

theorem releaseIn_of_silent (hs : s.Silent) (w : σ) : s.releaseIn around w = (w, .ok ()) := by
  obtain ⟨s', hclose, -⟩ := closeIn_of_silent around hs w
  rw [releaseIn, hclose]

end Span

/-! ### From a call to the sink -/

namespace Trace

variable {σ : Type} (around : Surroundings σ) (w : σ) {t : Trace} {name : Text}
  {arguments : List Value}

theorem logVia_of_error {emit : σ → Handle → Text → Record → σ × Except Failure Unit}
    {failure : Failure} (h : t.prepare false name arguments = .error failure) :
    logVia emit w t name arguments = (w, .error failure) := by
  rw [logVia, h]

theorem logVia_of_silent {emit : σ → Handle → Text → Record → σ × Except Failure Unit}
    (h : t.prepare false name arguments = .ok none) :
    logVia emit w t name arguments = (w, .ok ()) := by
  rw [logVia, h]

theorem logVia_of_record {emit : σ → Handle → Text → Record → σ × Except Failure Unit}
    {r : Record} (h : t.prepare false name arguments = .ok (some r)) :
    logVia emit w t name arguments = emit w t.sink t.owner r := by
  rw [logVia, h]

theorem startIn_of_error {failure : Failure} (h : t.prepare true name arguments = .error failure) :
    startIn around w t name arguments = (w, .error failure) := by
  rw [startIn, h]

def silentSpan (t : Trace) (name : Text) (now : Int) : Span :=
  Span.fresh none t.owner name [] .none now

theorem startIn_of_silent (h : t.prepare true name arguments = .ok none) :
    startIn around w t name arguments = (w, .ok (t.silentSpan name (around.clock w))) := by
  have hsilent : (t.silentSpan name (around.clock w)).Silent := Or.inl rfl
  rw [startIn, h, Span.beginIn_eq around w _ _ _ _ _ rfl]
  have hemit := Span.emitIn_of_silent around hsilent w (t.silentSpan name (around.clock w)).opening
  rw [silentSpan] at hemit
  simp only [hemit]
  rfl

def span (t : Trace) (r : Record) (now : Int) : Span :=
  Span.fresh (some t.sink) t.owner r.message r.fields r.level now

def opening (r : Record) : Record :=
  { message := r.message ++ ascii " [+]", fields := r.fields, level := r.level, exception := none }

theorem startIn_of_record {r : Record} (h : t.prepare true name arguments = .ok (some r))
    (hlevel : r.level ≠ .none) :
    startIn around w t name arguments =
      ((around.emit w t.sink t.owner (opening r)).1,
        (around.emit w t.sink t.owner (opening r)).2.map fun _ => t.span r (around.clock w)) := by
  have hemit : (t.span r (around.clock w)).emitIn around w (t.span r (around.clock w)).opening =
      around.emit w t.sink t.owner (opening r) := if_neg hlevel
  rw [startIn, h]
  simp only
  rw [Span.beginIn_eq around w _ _ _ _ _ rfl, ← span, hemit]

/-- Taking down what sinks are given changes nothing else. -/
theorem logVia_noting (t : Trace) (name : Text) (arguments : List Value) :
    logVia around.emit w t name arguments =
      ((logVia around.noting.emit (w, []) t name arguments).1.1,
        (logVia around.noting.emit (w, []) t name arguments).2) := by
  rw [logVia, logVia]
  split
  · rfl
  · rfl
  · rfl

theorem startIn_noting (t : Trace) (name : Text) (arguments : List Value) :
    startIn around w t name arguments =
      ((startIn around.noting (w, []) t name arguments).1.1,
        (startIn around.noting (w, []) t name arguments).2) := by
  rw [startIn, startIn]
  split
  · rfl
  · rw [Span.beginIn_noting around w _ _ _ _ _ rfl, Span.beginIn_eq around w _ _ _ _ _ rfl]
  · rw [Span.beginIn_noting around w _ _ _ _ _ rfl, Span.beginIn_eq around w _ _ _ _ _ rfl]

/-! ### All that can come of a call -/

/-- What is to come of a call that fits its operation: nothing is given to a sink where the
operation never writes, whatever the arguments, nor where there is no record of the call; else the
sink is given `sent r` once, for the record `r`, and the call ends as that does.  It is answered
with `answer r` then. -/
structure Law {α : Type} (t : Trace) (op : Operation) (arguments : List Value)
    (sent : Record → Record) (answer : Record → α) (silent : α → Prop)
    (result : (σ × List Call) × Except Failure α) : Prop where
  ofSilent : op.level = .none → ∃ a, result = ((w, []), .ok a) ∧ silent a
  ofFailure : op.level ≠ .none → ∀ failure, op.record arguments = .error failure →
    result = ((w, []), .error failure)
  ofRecord : op.level ≠ .none → ∀ r, op.record arguments = .ok r → r.level = op.level ∧
    result = (((around.emit w t.sink t.owner (sent r)).1,
        [⟨t.sink, t.owner, sent r, (around.emit w t.sink t.owner (sent r)).2⟩]),
      (around.emit w t.sink t.owner (sent r)).2.map fun _ => answer r)

theorem Law.not_refused {α : Type} {op : Operation} {sent : Record → Record} {answer : Record → α}
    {silent : α → Prop} {result : (σ × List Call) × Except Failure α}
    (h : Law around w t op arguments sent answer silent result) (e : DispatchError) :
    result ≠ ((w, []), .error (.dispatch e)) := by
  intro he
  by_cases hlevel : op.level = .none
  · obtain ⟨a, ha, -⟩ := h.ofSilent hlevel
    exact absurd (ha.symm.trans he) (by simp)
  cases hr : op.record arguments with
  | error failure =>
    have hfailure := (h.ofFailure hlevel failure hr).symm.trans he
    rw [Prod.mk.injEq, Except.error.injEq] at hfailure
    exact op.record_ne_dispatch arguments e (hr.trans (congrArg _ hfailure.2))
  | ok r =>
    have hgiven := (h.ofRecord hlevel r hr).2.symm.trans he
    rw [Prod.mk.injEq, Prod.mk.injEq] at hgiven
    exact absurd hgiven.1.2 (by simp)

variable {d : ContractDecl} {op : Operation}

theorem law_of_log (hc : Contract.compile d = .ok t.contract)
    (hop : op ∈ t.contract.operations) (hspan : op.handsBackSpan = false) :
    Law around w t op arguments id (fun _ => ()) (fun _ => True)
      (logVia around.noting.emit (w, []) t op.name arguments) := by
  have hfound : t.operation false op.name = .ok op := by
    rw [operation_of_mem hc hop, if_pos hspan]
  constructor
  · intro hlevel
    exact ⟨(), logVia_of_silent _ (prepare_of_silent hfound hlevel arguments), trivial⟩
  · intro hlevel failure hr
    have hprepare := prepare_of_heard hfound hlevel arguments
    rw [hr] at hprepare
    exact logVia_of_error _ hprepare
  · intro hlevel r hr
    have hprepare := prepare_of_heard hfound hlevel arguments
    rw [hr] at hprepare
    refine ⟨op.level_of_record hr, ?_⟩
    rw [logVia_of_record _ hprepare]
    have hanswer (outcome : Except Failure Unit) : outcome.map (fun _ => ()) = outcome := by
      cases outcome with
      | error failure => rfl
      | ok u => rfl
    rw [id, hanswer]
    rfl

theorem law_of_start (hc : Contract.compile d = .ok t.contract)
    (hop : op ∈ t.contract.operations) (hspan : op.handsBackSpan = true) :
    Law around w t op arguments opening (fun r => t.span r (around.clock w)) Span.Silent
      (startIn around.noting (w, []) t op.name arguments) := by
  have hfound : t.operation true op.name = .ok op := by
    rw [operation_of_mem hc hop, if_pos hspan]
  constructor
  · intro hlevel
    exact ⟨_, startIn_of_silent _ _ (prepare_of_silent hfound hlevel arguments), Or.inl rfl⟩
  · intro hlevel failure hr
    have hprepare := prepare_of_heard hfound hlevel arguments
    rw [hr] at hprepare
    exact startIn_of_error _ _ hprepare
  · intro hlevel r hr
    have hprepare := prepare_of_heard hfound hlevel arguments
    rw [hr] at hprepare
    have hsame := op.level_of_record hr
    refine ⟨hsame, ?_⟩
    rw [startIn_of_record around.noting _ hprepare (hsame ▸ hlevel)]
    rfl

/-- **A call gives its record to the sink once, or nothing to anybody**, whatever the sink does.

A call for a name that is not declared is refused, in both forms.  A call for a declared operation
is refused in the form that does not fit what the operation hands back.  In the form that fits, it
comes to what `Law` says: a call that logs sends its record as it is, and one that starts a span
sends a record with the same fields and no exception, which marks the message as that of a
beginning.  The span of an operation that never writes gives nothing to a sink later either. -/
theorem gives_once_or_nothing {d : ContractDecl} {t : Trace}
    (hc : Contract.compile d = .ok t.contract) {σ : Type} (around : Surroundings σ) (w : σ)
    (name : Text) (arguments : List Value) :
    let log := logVia around.noting.emit (w, []) t name arguments
    let start := startIn around.noting (w, []) t name arguments
    (logVia around.emit w t name arguments = (log.1.1, log.2) ∧
      startIn around w t name arguments = (start.1.1, start.2)) ∧
    (name ∉ d.operations.map (·.name) →
      log = ((w, []), .error (t.refusal name .unknownOperation)) ∧
      start = ((w, []), .error (t.refusal name .unknownOperation))) ∧
    (∀ op ∈ t.contract.operations, op.name = name → op.handsBackSpan = false →
      start = ((w, []), .error (t.refusal name .handsBackNothing)) ∧
      Law around w t op arguments id (fun _ => ()) (fun _ => True) log) ∧
    (∀ op ∈ t.contract.operations, op.name = name → op.handsBackSpan = true →
      log = ((w, []), .error (t.refusal name .handsBackSpan)) ∧
      Law around w t op arguments opening (fun r => t.span r (around.clock w)) Span.Silent start) ∧
    (∀ s : Span, s.Silent → ∀ w' : σ,
      (∃ s', s.closeIn around.noting (w', []) = ((w', []), s', .ok ()) ∧ s'.closed = true) ∧
      s.releaseIn around.noting (w', []) = ((w', []), .ok ())) ∧
    (name ∈ d.operations.map (·.name) →
      ((∃ e, log = ((w, []), .error (.dispatch e))) ↔
        ¬ ∃ e, start = ((w, []), .error (.dispatch e)))) := by
  intro log start
  have hnothing : ∀ op ∈ t.contract.operations, op.name = name → op.handsBackSpan = false →
      start = ((w, []), .error (t.refusal name .handsBackNothing)) ∧
      Law around w t op arguments id (fun _ => ()) (fun _ => True) log := by
    rintro op hop rfl hspan
    have hform := operation_of_mem hc hop true
    rw [if_neg (by simp [hspan]), if_pos rfl] at hform
    exact ⟨startIn_of_error _ _ (prepare_of_error hform arguments),
      law_of_log around w hc hop hspan⟩
  have hspans : ∀ op ∈ t.contract.operations, op.name = name → op.handsBackSpan = true →
      log = ((w, []), .error (t.refusal name .handsBackSpan)) ∧
      Law around w t op arguments opening (fun r => t.span r (around.clock w)) Span.Silent
        start := by
    rintro op hop rfl hspan
    have hform := operation_of_mem hc hop false
    rw [if_neg (by simp [hspan]), if_neg (by simp)] at hform
    exact ⟨logVia_of_error _ (prepare_of_error hform arguments),
      law_of_start around w hc hop hspan⟩
  refine ⟨⟨logVia_noting around w t name arguments, startIn_noting around w t name arguments⟩, ?_,
    hnothing, hspans, ?_, ?_⟩
  · intro hname
    have hunknown (wantsSpan : Bool) := operation_of_undeclared hc hname wantsSpan
    exact ⟨logVia_of_error _ (prepare_of_error (hunknown false) arguments),
      startIn_of_error _ _ (prepare_of_error (hunknown true) arguments)⟩
  · intro s hs w'
    exact ⟨Span.closeIn_of_silent around.noting hs (w', []),
      Span.releaseIn_of_silent around.noting hs (w', [])⟩
  · intro hname
    rw [← Contract.names_of_makes (Contract.makes_of_compileFrom
      (Contract.compile_ok_iff.mp hc).2)] at hname
    obtain ⟨op, hop, hopname⟩ := List.mem_map.mp hname
    cases hspan : op.handsBackSpan with
    | false =>
      obtain ⟨hrefused, hlaw⟩ := hnothing op hop hopname hspan
      constructor
      · rintro ⟨e, he⟩
        exact absurd he (hlaw.not_refused around w e)
      · exact fun hno => absurd ⟨_, hrefused⟩ hno
    | true =>
      obtain ⟨hrefused, hlaw⟩ := hspans op hop hopname hspan
      constructor
      · rintro - ⟨e, he⟩
        exact hlaw.not_refused around w e he
      · exact fun _ => ⟨_, hrefused⟩

/-- A silent operation and one that starts a span. -/
def desk : ContractDecl where
  name := ascii "Desk"
  operations :=
    [{ name := ascii "Hush", level := some .none, template := ascii "\x7bload\x7d",
       parameters := [⟨ascii "load", .object, 0, []⟩] },
      { name := ascii "Serve", level := some .info, template := ascii "Serving \x7bguest\x7d",
        parameters := [⟨ascii "guest", .string, 0, []⟩], handback := .span }]

/-- A world that counts the records and refuses them all. -/
def fullWorld : Surroundings Nat where
  emit n _ _ _ := (n + 1, .error (.outside .foreign))
  clock n := n
  complain n _ := n

/-- The silent operation takes any arguments, none included.  The other one is refused where it is
to be logged, and where it is started its record is given to the sink once and the call ends as
that does. -/
theorem gives_once_or_nothing_desk :
    ∃ c, Contract.compile desk = .ok c ∧
      logVia fullWorld.noting.emit (0, []) ⟨⟨0, c⟩, ascii "inn", 3⟩ (ascii "Hush") [] =
        ((0, []), .ok ()) ∧
      logVia fullWorld.noting.emit (0, []) ⟨⟨0, c⟩, ascii "inn", 3⟩ (ascii "Serve") [] =
        ((0, []), .error (.dispatch ⟨ascii "Desk", ascii "Serve", .handsBackSpan⟩)) ∧
      startIn fullWorld.noting (0, []) ⟨⟨0, c⟩, ascii "inn", 3⟩ (ascii "Serve")
          [.string (ascii "Ada")] =
        ((1, [⟨3, ascii "inn",
          ⟨ascii "Serving Ada [+]", [(ascii "guest", .string (ascii "Ada"))], .info, none⟩,
          .error (.outside .foreign)⟩]), .error (.outside .foreign)) := by
  obtain ⟨c, hc⟩ : ∃ c, c = (⟨ascii "Desk",
      [⟨desk.operations[0], ⟨ascii "\x7b0\x7d", [⟨[], some 0⟩]⟩, { all := [0] }⟩,
        ⟨desk.operations[1], ⟨ascii "Serving \x7b0\x7d", [⟨ascii "Serving ", some 0⟩]⟩,
          { fields := [0], all := [0] }⟩]⟩ : Contract) := ⟨_, rfl⟩
  have hcompile : Contract.compile desk = .ok c := by
    rw [hc]
    rfl
  have hcalls (name : Text) (arguments : List Value) :=
    gives_once_or_nothing (t := ⟨⟨0, c⟩, ascii "inn", 3⟩) hcompile fullWorld 0 name arguments
  subst hc
  refine ⟨_, hcompile, ?_, ?_, ?_⟩
  · obtain ⟨-, -, hnothing, -⟩ := hcalls (ascii "Hush") []
    obtain ⟨-, hlaw⟩ := hnothing _ List.mem_cons_self rfl rfl
    obtain ⟨u, hlog, -⟩ := hlaw.ofSilent rfl
    exact hlog
  · obtain ⟨-, -, -, hspan, -⟩ := hcalls (ascii "Serve") []
    exact (hspan _ (List.mem_cons_of_mem _ List.mem_cons_self) rfl rfl).1
  · obtain ⟨-, -, -, hspan, -⟩ := hcalls (ascii "Serve") [.string (ascii "Ada")]
    obtain ⟨-, hlaw⟩ := hspan _ (List.mem_cons_of_mem _ List.mem_cons_self) rfl rfl
    exact (hlaw.ofRecord (by decide) _ rfl).2

end Trace

end TraceContract
