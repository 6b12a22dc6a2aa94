import TraceContract.Proofs.Hub.Steady
import TraceContract.Proofs.Process.Asking
import TraceContract.Proofs.Program.Ledger

/-!
# What one act of a program gives to adapters

Every record of a program goes to a deferred adapter of its owner.  All of these are to come to one
goal, or to none as long as nothing is given to them.

* `Process.Points`: the adapter waits, or is settled on the goal.  `Process.emit_of_points` is the
  way of a record where the goal is a hub that the factory gives to all.
* `Program.Kept` is the invariant: all traces and all open spans point to the goal, and their records
  can be graded and laid out.
* `Program.Quiet` and `Program.Loud` are the two kinds of acts, and `Program.turn` says that there are
  no others: an act gives nothing to any adapter, or the one record that the ledger has a notice of.
-/

namespace TraceContract

/-! ### Levels that stand for something -/

def Level.Listed (level : Level) : Prop := ∃ severity, level.severity = .ok severity

/-- The contract was compiled, and the levels of its operations all stand for something. -/
def Contract.Graded (c : Contract) : Prop :=
  (∃ d, compile d = .ok c) ∧ ∀ op ∈ c.operations, op.level.Listed

/-- No level that is declared is a code that stands for nothing. -/
def Program.Act.Graded : Act → Prop
  | .bind _ declare _ =>
    ∀ d, declare () = .ok d → ∀ op ∈ d.operations, ∀ code outside,
      op.level ≠ some (.unlisted code outside)
  | _ => True

theorem Contract.graded_of_compile {d : ContractDecl} {c : Contract} (hc : compile d = .ok c)
    (hd : ∀ op ∈ d.operations, ∀ code outside, op.level ≠ some (.unlisted code outside)) :
    c.Graded := by
  refine ⟨⟨d, hc⟩, ?_⟩
  intro op hop
  obtain ⟨decl, hdecl, hm⟩ := exists_makes_of_mem hc hop
  rw [Operation.level, hm.decl]
  cases hlevel : decl.level with
  | none => exact ⟨_, rfl⟩
  | some level =>
    cases level with
    | unlisted code outside => exact absurd hlevel (hd decl hdecl code outside)
    | _ => exact ⟨_, rfl⟩

theorem Registry.graded_obtain {r : Registry} {key : Text}
    {declare : Unit → Except Failure ContractDecl} (number : Nat)
    (hr : ∀ key known, r.find? key = some known → known.contract.Graded)
    (hd : ∀ d, declare () = .ok d → ∀ op ∈ d.operations, ∀ code outside,
      op.level ≠ some (.unlisted code outside)) :
    (∀ key' known, (r.obtain key declare number).registry.find? key' = some known →
      known.contract.Graded) ∧
    ∀ c, (r.obtain key declare number).result = .ok c → c.contract.Graded := by
  rw [obtain]
  cases hfind : r.find? key with
  | some known =>
    rw [obtainIn_of_found hfind]
    refine ⟨hr, ?_⟩
    rintro c hc
    obtain rfl := Except.ok.inj hc
    exact hr key known hfind
  | none =>
    cases hcompiled : compileDeclared (declare ()) with
    | error failure =>
      rw [obtainIn_of_refused hfind hcompiled]
      exact ⟨hr, fun c hc => absurd hc (by simp)⟩
    | ok contract =>
      have hgraded : contract.Graded := by
        cases hdeclare : declare () with
        | error failure =>
          rw [hdeclare] at hcompiled
          exact absurd hcompiled (by simp [compileDeclared])
        | ok d =>
          rw [hdeclare] at hcompiled
          exact Contract.graded_of_compile (mapError_eq_ok_iff.mp hcompiled) (hd d hdeclare)
      rw [obtainIn_of_compiled hfind hcompiled]
      constructor
      · intro key' known hknown
        rw [find?_concat, Option.or_eq_some_iff] at hknown
        rcases hknown with hold | ⟨-, hnew⟩
        · exact hr key' known hold
        · split at hnew
          · obtain rfl := Option.some.inj hnew
            exact hgraded
          · exact absurd hnew (by simp)
      · intro c hc
        obtain rfl := Except.ok.inj hc
        exact hgraded

/-! ### Adapters on their way to one goal -/

namespace Process

variable {p q : Process} {goal : Option Handle} {owner : Text} {h : Handle}

/-- The adapter waits for the sink of an owner, or is settled on the goal. -/
def Points (p : Process) (goal : Option Handle) (owner : Text) (h : Handle) : Prop :=
  p.adapters[h]? = some (.deferred owner .open) ∨
    ∃ target ∈ goal, p.adapters[h]? = some (.deferred owner (.settled target))

theorem Points.exists_deferred (hp : p.Points goal owner h) :
    ∃ resolution, p.adapters[h]? = some (.deferred owner resolution) := by
  rcases hp with ho | ⟨target, -, hs⟩
  · exact ⟨_, ho⟩
  · exact ⟨_, hs⟩

theorem Points.ne_of_hub (hp : p.Points goal owner h) {g : Handle} {hub : Hub}
    (hg : p.adapters[g]? = some (.hub hub)) : h ≠ g := by
  rintro rfl
  obtain ⟨resolution, hd⟩ := hp.exists_deferred
  exact absurd (hd.symm.trans hg) (by simp)

theorem Points.owner_eq {other : Text} (hp : p.Points goal owner h) (ho : p.Points goal other h) :
    owner = other := by
  obtain ⟨resolution, hd⟩ := hp.exists_deferred
  obtain ⟨resolution', hd'⟩ := ho.exists_deferred
  have heq := hd.symm.trans hd'
  rw [Option.some.injEq, Adapter.deferred.injEq] at heq
  exact heq.1

/-- All adapters that point to the goal do so still. -/
def Keeps (goal : Option Handle) (p q : Process) : Prop :=
  ∀ owner h, p.Points goal owner h → q.Points goal owner h

/-- Nothing was given to an adapter meanwhile, though some may have been added. -/
structure Calm (p q : Process) : Prop where
  adapters : ∃ more, q.adapters = p.adapters ++ more
  events : q.events = p.events

theorem Calm.of_adapters_eq (ha : q.adapters = p.adapters) (he : q.events = p.events) :
    Calm p q := ⟨⟨[], by rw [ha, List.append_nil]⟩, he⟩

theorem Calm.getElem? (hc : Calm p q) {a : Adapter} (ha : p.adapters[h]? = some a) :
    q.adapters[h]? = some a := by
  obtain ⟨more, hmore⟩ := hc.adapters
  rw [hmore, List.getElem?_append_left (lt_of_getElem? ha)]
  exact ha

theorem Calm.keeps (hc : Calm p q) (goal : Option Handle) : Keeps goal p q := by
  rintro owner h (ho | ⟨target, htarget, hs⟩)
  · exact Or.inl (hc.getElem? ho)
  · exact Or.inr ⟨target, htarget, hc.getElem? hs⟩

theorem calm_add (p : Process) (a : Adapter) : Calm p (p.add a).1 := ⟨⟨[a], rfl⟩, rfl⟩

/-- **The way of a record to the goal**, where the factory gives all owners the hub there: the
adapter is settled, and the hub has the record. -/
theorem emit_of_points {g : Handle} (hf : p.factory = some (.constant g)) {hub : Hub}
    (hg : p.adapters[g]? = some (.hub hub)) (hp : p.Points (some g) owner h) (logger : Text)
    (r : Record) :
    p.emit h logger r =
      (p.put h (.deferred owner (.settled g))).absorb g .hub (hub.emit p.now logger r) := by
  have hthere : (p.put h (.deferred owner (.settled g))).adapters[g]? = some (.hub hub) :=
    (getElem?_put_of_ne (hp.ne_of_hub hg) _).trans hg
  have hemit := emit_of_hub hthere logger r
  rcases hp with ho | ⟨target, htarget, hs⟩
  · have haloof : p.Aloof := fun f hfactory => absurd (hf.symm.trans hfactory) (by simp)
    have hresolve : p.resolve owner = (p, .ok g) := by rw [resolve, resolveVia, hf]
    rw [emit_of_open_ok haloof ho hresolve, hemit]
    rfl
  · obtain rfl := Option.some.inj htarget
    rw [put_self hs] at hemit ⊢
    rw [emit_of_settled hs, hemit]

theorem keeps_of_points {g : Handle} {hub hub' : Hub} (hg : p.adapters[g]? = some (.hub hub))
    (hp : p.Points (some g) owner h) (ha : q.adapters =
      ((p.put h (.deferred owner (.settled g))).put g (.hub hub')).adapters) :
    Keeps (some g) p q := by
  intro other k hk
  have hother : q.adapters[k]? = (p.put h (.deferred owner (.settled g))).adapters[k]? := by
    rw [ha]
    exact getElem?_put_of_ne (hk.ne_of_hub hg).symm _
  rw [Points, hother]
  by_cases hhk : h = k
  · subst hhk
    obtain rfl := hp.owner_eq hk
    obtain ⟨resolution, hd⟩ := hp.exists_deferred
    exact Or.inr ⟨g, rfl, getElem?_put_self (lt_of_getElem? hd) _⟩
  · rw [getElem?_put_of_ne hhk]
    exact hk

end Process

/-! ### One act -/

/-- The last record of the span, if it is to have one, can reach the goal and be written there. -/
def Span.Ready (p : Process) (goal : Option Handle) (s : Span) : Prop :=
  ∀ h, s.Open h → p.Points goal s.logger h ∧ s.level.Listed ∧ s.fields.Writable

theorem Span.ready_of_closed {s : Span} (hs : s.closed = true) (p : Process)
    (goal : Option Handle) : s.Ready p goal :=
  fun _ ho => absurd (ho.closed.symm.trans hs) (by simp)

namespace Program

variable {p : Program} {goal : Option Handle} {notices : List Notice}

theorem mem_of_trace? {k : Nat} {t : Trace} (ht : p.trace? k = some t) : some t ∈ p.traces :=
  List.mem_of_getElem? (Option.join_eq_some_iff.mp ht)

theorem mem_of_span? {k : Nat} {s : Span} (hs : p.span? k = some s) : some s ∈ p.spans :=
  List.mem_of_getElem? (Option.join_eq_some_iff.mp hs)

/-- The invariant of a program all of whose records are to reach one goal. -/
structure Kept (goal : Option Handle) (p : Program) : Prop where
  registry : ∀ key known, p.registry.find? key = some known → known.contract.Graded
  traces : ∀ t, some t ∈ p.traces →
    t.contract.Graded ∧ p.process.Points goal t.owner t.sink
  spans : ∀ s, some s ∈ p.spans → s.Ready p.process goal

/-- What keeps the adapters keeps the invariant, whatever new spans are ready. -/
theorem Kept.elsewhere (hk : Kept goal p) {q : Process} (hq : p.process.Keeps goal q)
    {spans : List (Option Span)}
    (hs : ∀ s, some s ∈ spans → some s ∈ p.spans ∨ s.Ready q goal) :
    Kept goal { p with process := q, spans := spans } where
  registry := hk.registry
  traces t ht := ⟨(hk.traces t ht).1, hq _ _ (hk.traces t ht).2⟩
  spans s hmem := by
    rcases hs s hmem with hold | hready
    · intro h ho
      obtain ⟨hpoints, hrest⟩ := hk.spans s hold h ho
      exact ⟨hq _ _ hpoints, hrest⟩
    · exact hready

theorem Kept.same_spans (hk : Kept goal p) {q : Process} (hq : p.process.Keeps goal q) :
    Kept goal { p with process := q } :=
  hk.elsewhere hq fun _ hs => Or.inl hs

/-- An act that gives nothing to any adapter, of which the ledger says so too. -/
structure Quiet (goal : Option Handle) (p : Program) (a : Act) (notices : List Notice) : Prop where
  calm : p.process.Calm (p.act a).1.process
  factory : a.KeepsFactory → (p.act a).1.process.factory = p.process.factory
  told : (p.told notices).act a = (p.act a).1.told notices
  kept : Kept goal (p.act a).1

/-- The process after a record was given to an adapter that points to the goal. -/
structure Passed (goal : Option Handle) (p q : Process) : Prop where
  now : q.now = p.now
  ticks : q.ticks = p.ticks
  keeps : p.Keeps goal q

/-- An act that gives one record to an adapter, the one that the ledger has a notice of. -/
structure Loud (goal : Option Handle) (p : Program) (a : Act) (notices : List Notice) (h : Handle)
    (owner : Text) (r : Record) : Prop where
  points : p.process.Points goal owner h
  listed : r.level.Listed
  writable : r.fields.Writable
  noticed : ((p.told notices).act a).notices = notices ++ [⟨p.process.now, owner, r⟩]
  /-- What comes of the act where the record arrives. -/
  arrived : ∀ q, p.process.emit h owner r = (q, .ok ()) → Passed goal p.process q →
    (p.act a).2 = .ok () ∧ (p.act a).1.process = q ∧
    (p.told notices).act a = (p.act a).1.told (notices ++ [⟨p.process.now, owner, r⟩]) ∧
    Kept goal (p.act a).1

theorem quiet_bind (hk : Kept goal p) {key owner : Text}
    {declare : Unit → Except Failure ContractDecl} (ha : (Act.bind key declare owner).Graded) :
    Quiet goal p (.bind key declare owner) notices := by
  obtain ⟨hregistry, hresult⟩ := Registry.graded_obtain p.traces.length hk.registry ha
  have hcalm := p.process.calm_add (.deferred owner .open)
  refine ⟨hcalm, fun _ => rfl, ?_, ?_, ?_, ?_⟩
  · have hlength : (p.told notices).bound.length = p.traces.length := List.length_map ..
    rw [Ledger.act, hlength]
    simp only [act, told, List.map_append, List.map_singleton]
    cases (p.registry.obtain key declare p.traces.length).result with
    | error failure => rfl
    | ok c => rfl
  · exact hregistry
  · intro t ht
    rcases List.mem_append.mp ht with hold | hnew
    · exact ⟨(hk.traces t hold).1, hcalm.keeps goal _ _ (hk.traces t hold).2⟩
    · cases hmade : (p.registry.obtain key declare p.traces.length).result with
      | error failure =>
        rw [hmade] at hnew
        exact absurd hnew (by simp [Except.bind, Except.toOption])
      | ok c =>
        rw [hmade] at hnew
        obtain rfl := Option.some.inj (List.mem_singleton.mp hnew)
        exact ⟨hresult c hmade, Or.inl List.getElem?_concat_length⟩
  · intro s hs h ho
    obtain ⟨hpoints, hrest⟩ := hk.spans s hs h ho
    exact ⟨hcalm.keeps goal _ _ hpoints, hrest⟩

theorem Quiet.of_same (hk : Kept goal p) {a : Act} (outcome : Except Failure Unit)
    (hact : p.act a = (p, outcome)) (htold : (p.told notices).act a = p.told notices) :
    Quiet goal p a notices := by
  refine ⟨?_, ?_, ?_, ?_⟩ <;> rw [hact]
  · exact .of_adapters_eq rfl rfl
  · exact fun _ => rfl
  · exact htold
  · exact hk

theorem Quiet.of_span (hk : Kept goal p) {a : Act} (slot : Option Span)
    (outcome : Except Failure Unit)
    (hact : p.act a = ({ p with spans := p.spans ++ [slot] }, outcome))
    (htold : (p.told notices).act a =
      { p.told notices with pending := (p.told notices).pending ++ [none] })
    (hquiet : ∀ s, slot = some s → s.Quiet) : Quiet goal p a notices := by
  have hpending : slot.bind Span.pending? = none := by
    cases slot with
    | none => rfl
    | some s => exact Span.pending?_of_quiet (hquiet s rfl)
  refine ⟨?_, ?_, ?_, ?_⟩ <;> rw [hact]
  · exact .of_adapters_eq rfl rfl
  · exact fun _ => rfl
  · have hspans : (p.spans ++ [slot]).map (·.bind Span.pending?) =
        (p.told notices).pending ++ [none] := by
      rw [List.map_append, List.map_singleton, hpending]
      rfl
    rw [htold, ← hspans]
    rfl
  · refine hk.elsewhere (fun _ _ hpoints => hpoints) fun s hs => ?_
    rcases List.mem_append.mp hs with hold | hnew
    · exact Or.inl hold
    · refine Or.inr fun h ho => absurd ho ?_
      exact (hquiet s (List.mem_singleton.mp hnew).symm).not_open h

/-- After a record has passed, the ledger has its notice, and knows the spans that there are. -/
theorem heard_told {q : Process} (hq : Passed goal p.process q) (spans : List (Option Span))
    (owner : Text) (r : Record) :
    { (p.told notices).heard owner r with pending := spans.map (·.bind Span.pending?) } =
      ({ p with process := q, spans := spans } : Program).told
        (notices ++ [⟨p.process.now, owner, r⟩]) := by
  simp only [told, Ledger.heard, hq.now, hq.ticks]

theorem Kept.exists_compile (hk : Kept goal p) {k : Nat} {t : Trace} (ht : p.trace? k = some t) :
    ∃ d, Contract.compile d = .ok t.contract :=
  (hk.traces t (mem_of_trace? ht)).1.1

/-- What the last record of an open span has in any case. -/
theorem Kept.last (hk : Kept goal p) {k : Nat} {s : Span} (hs : p.span? k = some s) {h : Handle}
    (ho : s.Open h) :
    ∃ last, s.pending? = some last ∧ last.owner = s.logger ∧
      p.process.Points goal s.logger h ∧ (last.last p.process.ticks).level.Listed ∧
      (last.last p.process.ticks).fields.Writable :=
  ⟨_, ho.pending?, rfl, hk.spans s (mem_of_span? hs) h ho⟩

theorem Kept.call (hk : Kept goal p) {k : Nat} {t : Trace} (ht : p.trace? k = some t)
    {wantsSpan : Bool} {name : Text} {arguments : List Value} {r : Record}
    (hr : t.prepare wantsSpan name arguments = .ok (some r)) :
    p.process.Points goal t.owner t.sink ∧ r.level ≠ .none ∧ r.level.Listed ∧
      r.fields.Writable := by
  obtain ⟨⟨⟨d, hc⟩, hlisted⟩, hpoints⟩ := hk.traces t (mem_of_trace? ht)
  obtain ⟨op, hop, -, -, hlevel, hmade⟩ := (Trace.prepare_eq_some_iff hc).mp hr
  have hsame := op.level_of_record hmade
  rw [hsame]
  exact ⟨hpoints, hlevel, hlisted op hop, Operation.writable_record hc hop hmade⟩

theorem turn_log (hk : Kept goal p) (k : Nat) (name : Text) (arguments : List Value) :
    Quiet goal p (.log k name arguments) notices ∨
      ∃ h owner r, Loud goal p (.log k name arguments) notices h owner r := by
  cases ht : p.trace? k with
  | none =>
    refine Or.inl (.of_same hk (.ok ()) ?_ ?_)
    · rw [act, ht]
    · rw [Ledger.act, said?_of_absent notices ht]
  | some t =>
    obtain ⟨d, hc⟩ := hk.exists_compile ht
    rcases hprepare : t.prepare false name arguments with failure | _ | r
    · refine Or.inl (.of_same hk (.error failure) ?_ ?_)
      · rw [act, ht]
        simp only [Trace.log, Trace.logVia_of_error _ hprepare]
      · rw [Ledger.act, said?_of_no_record notices ht hc (by simp [hprepare])]
    · refine Or.inl (.of_same hk (.ok ()) ?_ ?_)
      · rw [act, ht]
        simp only [Trace.log, Trace.logVia_of_silent _ hprepare]
      · rw [Ledger.act, said?_of_no_record notices ht hc (by simp [hprepare])]
    · obtain ⟨hpoints, -, hlisted, hwritable⟩ := hk.call ht hprepare
      have hledger : (p.told notices).act (.log k name arguments) =
          (p.told notices).heard t.owner r := by
        rw [Ledger.act, said?_of_record notices ht hc hprepare]
      refine Or.inr ⟨t.sink, t.owner, r, hpoints, hlisted, hwritable, by rw [hledger]; rfl, ?_⟩
      intro q hemit hq
      have hact : p.act (.log k name arguments) = ({ p with process := q }, .ok ()) := by
        rw [act, ht]
        simp only [Trace.log, Trace.logVia_of_record _ hprepare, hemit]
      rw [hact, hledger]
      exact ⟨rfl, rfl, heard_told hq p.spans t.owner r, hk.same_spans hq.keeps⟩

theorem turn_start (hk : Kept goal p) (k : Nat) (name : Text) (arguments : List Value) :
    Quiet goal p (.start k name arguments) notices ∨
      ∃ h owner r, Loud goal p (.start k name arguments) notices h owner r := by
  cases ht : p.trace? k with
  | none =>
    refine Or.inl (.of_span hk none (.ok ()) ?_ ?_ ?_)
    · rw [act, ht]
    · rw [Ledger.act, said?_of_absent notices ht]
    · exact fun s hs => absurd hs (by simp)
  | some t =>
    obtain ⟨d, hc⟩ := hk.exists_compile ht
    rcases hprepare : t.prepare true name arguments with failure | _ | r
    · refine Or.inl (.of_span hk none (.error failure) ?_ ?_ ?_)
      · rw [act, ht]
        simp only [Trace.start, Trace.startIn_of_error _ _ hprepare]
        rfl
      · rw [Ledger.act, said?_of_no_record notices ht hc (by simp [hprepare])]
      · exact fun s hs => absurd hs (by simp)
    · refine Or.inl (.of_span hk (some (t.silentSpan name p.process.ticks)) (.ok ()) ?_ ?_ ?_)
      · rw [act, ht]
        simp only [Trace.start, Trace.startIn_of_silent _ _ hprepare]
        rfl
      · rw [Ledger.act, said?_of_no_record notices ht hc (by simp [hprepare])]
      · rintro s hs
        obtain rfl := Option.some.inj hs
        exact Or.inr (Or.inl rfl)
    · obtain ⟨hpoints, hlevel, hlisted, hwritable⟩ := hk.call ht hprepare
      have hledger : (p.told notices).act (.start k name arguments) =
          { (p.told notices).heard t.owner (Trace.opening r) with
            pending := (p.spans ++ [some (t.span r p.process.ticks)]).map
              (·.bind Span.pending?) } := by
        have hopen : (t.span r p.process.ticks).Open t.sink := ⟨rfl, rfl, hlevel⟩
        rw [Ledger.act, said?_of_record notices ht hc hprepare, List.map_append,
          List.map_singleton, Option.bind_some, hopen.pending?]
        rfl
      refine Or.inr ⟨t.sink, t.owner, Trace.opening r, hpoints, hlisted, hwritable,
        by rw [hledger]; rfl, ?_⟩
      intro q hemit hq
      have hact : p.act (.start k name arguments) =
          ({ p with process := q, spans := p.spans ++ [some (t.span r p.process.ticks)] },
            .ok ()) := by
        have hgiven : Process.surroundings.emit p.process t.sink t.owner (Trace.opening r) =
            (q, .ok ()) := hemit
        rw [act, ht]
        simp only [Trace.start, Trace.startIn_of_record _ _ hprepare hlevel, hgiven]
        rfl
      rw [hact, hledger]
      refine ⟨rfl, rfl, heard_told hq _ t.owner _, hk.elsewhere hq.keeps ?_⟩
      intro s hs
      rcases List.mem_append.mp hs with hold | hnew
      · exact Or.inl hold
      · obtain rfl := Option.some.inj (List.mem_singleton.mp hnew)
        refine Or.inr fun h ho => ?_
        obtain rfl := Option.some.inj (ho.sink.symm.trans (show _ = some t.sink from rfl))
        exact ⟨hq.keeps _ _ hpoints, hlisted, hwritable⟩

theorem quiet_move (hk : Kept goal p) (k : Nat) : Quiet goal p (.move k) notices := by
  refine ⟨.of_adapters_eq rfl rfl, fun _ => rfl, ?_, ?_⟩
  · have hleft : ((p.span? k).map Span.leftover).bind Span.pending? = none := by
      cases p.span? k with
      | none => rfl
      | some s => exact Span.pending?_of_quiet (Or.inl rfl)
    rw [Ledger.act, pending_told]
    simp only [act, told, List.map_append, List.map_set, List.map_singleton, hleft]
  · refine hk.elsewhere (fun _ _ hpoints => hpoints) fun s hs => ?_
    rcases List.mem_append.mp hs with hset | hnew
    · rcases List.mem_or_eq_of_mem_set hset with hold | heq
      · exact Or.inl hold
      · obtain ⟨s', -, rfl⟩ := Option.map_eq_some_iff.mp heq.symm
        exact Or.inr (Span.ready_of_closed rfl _ _)
    · exact Or.inl (mem_of_span? (List.mem_singleton.mp hnew).symm)

/-- What is left in the place of an object that was closed or let go. -/
def Spent (slot : Option Span) : Prop := ∀ s, slot = some s → s.closed = true

theorem Spent.pending? {slot : Option Span} (h : Spent slot) : slot.bind Span.pending? = none := by
  cases slot with
  | none => rfl
  | some s => exact Span.pending?_of_quiet (Or.inl (h s rfl))

structure Ends (p : Program) (a : Act) (k : Nat) : Prop where
  ledger : ∀ l : Ledger, l.act a = l.ended k
  absent : p.span? k = none → p.act a = (p, .ok ())
  quiet : ∀ s, p.span? k = some s → s.Quiet → ∃ slot, Spent slot ∧
    p.act a = ({ p with spans := p.spans.set k slot }, .ok ())
  opened : ∀ s h last, p.span? k = some s → s.Open h → s.pending? = some last →
    ∀ q, p.process.emit h s.logger (last.last p.process.ticks) = (q, .ok ()) →
      ∃ slot, Spent slot ∧
        p.act a = ({ p with process := q, spans := p.spans.set k slot }, .ok ())

theorem exists_closed {s : Span} {h : Handle} (ho : s.Open h) {last : Pending}
    (hlast : s.pending? = some last) {process q : Process}
    (hemit : process.emit h s.logger (last.last process.ticks) = (q, .ok ())) :
    ∃ s', s'.closed = true ∧ s.closeIn Process.surroundings process = (q, s', .ok ()) := by
  obtain ⟨s', hclosed, hclose⟩ := ho.closeIn Process.surroundings hlast process
  have hgiven : Process.surroundings.emit process h s.logger
      (last.last (Process.surroundings.clock process)) = (q, .ok ()) := hemit
  rw [hgiven] at hclose
  exact ⟨s', hclosed, hclose⟩

theorem ends_close (p : Program) (k : Nat) : Ends p (.close k) k where
  ledger _ := rfl
  absent hs := by rw [act, hs]
  quiet s hs hquiet := by
    obtain ⟨s', hclose, hclosed⟩ := s.closeIn_of_quiet Process.surroundings hquiet p.process
    refine ⟨some s', fun _ heq => Option.some.inj heq ▸ hclosed, ?_⟩
    rw [act, hs]
    simp only [Span.close, hclose]
  opened s h last hs ho hlast q hemit := by
    obtain ⟨s', hclosed, hclose⟩ := exists_closed ho hlast hemit
    refine ⟨some s', fun _ heq => Option.some.inj heq ▸ hclosed, ?_⟩
    rw [act, hs]
    simp only [Span.close, hclose]

theorem ends_release (p : Program) (k : Nat) : Ends p (.release k) k where
  ledger _ := rfl
  absent hs := by rw [act, hs]
  quiet s hs hquiet := by
    refine ⟨none, fun _ heq => absurd heq (by simp), ?_⟩
    rw [act, hs]
    simp only [Span.release, s.releaseIn_of_quiet Process.surroundings hquiet]
  opened s h last hs ho hlast q hemit := by
    obtain ⟨s', -, hclose⟩ := exists_closed ho hlast hemit
    refine ⟨none, fun _ heq => absurd heq (by simp), ?_⟩
    rw [act, hs]
    simp only [Span.release, Span.releaseIn, hclose]

theorem set_of_join_eq_none {α : Type} {xs : List (Option α)} {k : Nat}
    (h : xs[k]?.join = none) : xs.set k none = xs := by
  rcases hk : xs[k]? with _ | _ | x
  · exact List.set_eq_of_length_le (List.getElem?_eq_none_iff.mp hk)
  · obtain ⟨hlt, hnone⟩ := List.getElem?_eq_some_iff.mp hk
    rw [← hnone]
    exact List.set_getElem_self hlt
  · rw [hk] at h
    exact absurd h (by simp)

theorem Kept.set_spent (hk : Kept goal p) {q : Process} (hq : p.process.Keeps goal q) (k : Nat)
    {slot : Option Span} (hs : Spent slot) :
    Kept goal { p with process := q, spans := p.spans.set k slot } := by
  refine hk.elsewhere hq fun s hmem => ?_
  rcases List.mem_or_eq_of_mem_set hmem with hold | heq
  · exact Or.inl hold
  · exact Or.inr (Span.ready_of_closed (hs s heq.symm) _ _)

theorem turn_ended (hk : Kept goal p) {a : Act} {k : Nat} (ha : Ends p a k) :
    Quiet goal p a notices ∨ ∃ h owner r, Loud goal p a notices h owner r := by
  cases hs : p.span? k with
  | none =>
    have hpending : (p.told notices).pending[k]?.join = none := by
      rw [pending_told, hs]
      rfl
    refine Or.inl (.of_same hk (.ok ()) (ha.absent hs) ?_)
    rw [ha.ledger, Ledger.ended, hpending]
  | some s =>
    have hspans {slot : Option Span} (hspent : Spent slot) :
        (p.spans.set k slot).map (·.bind Span.pending?) = (p.told notices).pending.set k none := by
      rw [List.map_set, hspent.pending?]
      rfl
    rcases s.quiet_or_open with hquiet | ⟨h, ho⟩
    · obtain ⟨slot, hspent, hact⟩ := ha.quiet s hs hquiet
      have hpending : (p.told notices).pending[k]?.join = none := by
        rw [pending_told, hs, Option.bind_some, Span.pending?_of_quiet hquiet]
      refine Or.inl ⟨?_, ?_, ?_, ?_⟩ <;> rw [hact]
      · exact .of_adapters_eq rfl rfl
      · exact fun _ => rfl
      · have hsame : ({ p with spans := p.spans.set k slot } : Program).told notices =
            { p.told notices with pending := (p.told notices).pending.set k none } := by
          rw [← hspans hspent]
          rfl
        rw [ha.ledger, Ledger.ended, hpending]
        show p.told notices = ({ p with spans := p.spans.set k slot } : Program).told notices
        rw [hsame, set_of_join_eq_none hpending]
      · exact hk.set_spent (fun _ _ hpoints => hpoints) k hspent
    · obtain ⟨last, hlast, howner, hpoints, hlisted, hwritable⟩ := hk.last hs ho
      have hledger : (p.told notices).act a =
          { (p.told notices).heard s.logger (last.last p.process.ticks) with
            pending := (p.told notices).pending.set k none } := by
        rw [ha.ledger, Ledger.ended, pending_told, hs, Option.bind_some, hlast, ← howner]
        rfl
      refine Or.inr ⟨h, s.logger, last.last p.process.ticks, hpoints, hlisted, hwritable,
        by rw [hledger]; rfl, ?_⟩
      intro q hemit hq
      obtain ⟨slot, hspent, hact⟩ := ha.opened s h last hs ho hlast q hemit
      rw [hact, hledger, ← hspans hspent]
      exact ⟨rfl, rfl, heard_told hq _ s.logger _, hk.set_spent hq.keeps k hspent⟩

/-- **What one act does**: it gives nothing to any adapter, or one record, and the ledger says which. -/
theorem turn (hk : Kept goal p) {a : Act} (ha : a.Graded) (notices : List Notice) :
    Quiet goal p a notices ∨ ∃ h owner r, Loud goal p a notices h owner r := by
  have hcalm {q : Process} (hq : q.adapters = p.process.adapters) (he : q.events = p.process.events) :
      Kept goal { p with process := q } :=
    hk.same_spans ((Process.Calm.of_adapters_eq hq he).keeps goal)
  cases a with
  | install factory =>
    refine Or.inl ?_
    cases factory with
    | none => exact ⟨.of_adapters_eq rfl rfl, fun _ => rfl, rfl, hcalm rfl rfl⟩
    | some factory => exact ⟨.of_adapters_eq rfl rfl, False.elim, rfl, hcalm rfl rfl⟩
  | disable =>
    have hadd : p.process.Calm p.process.disable := ⟨⟨[.discard], rfl⟩, rfl⟩
    exact Or.inl ⟨hadd, False.elim, rfl, hk.same_spans (hadd.keeps goal)⟩
  | reset => exact Or.inl ⟨.of_adapters_eq rfl rfl, False.elim, rfl, hcalm rfl rfl⟩
  | wait now ticks =>
    exact Or.inl ⟨.of_adapters_eq rfl rfl, fun _ => rfl, rfl, hcalm rfl rfl⟩
  | bind key declare owner => exact Or.inl (quiet_bind hk ha)
  | log k name arguments => exact turn_log hk k name arguments
  | start k name arguments => exact turn_start hk k name arguments
  | move k => exact Or.inl (quiet_move hk k)
  | close k => exact turn_ended hk (ends_close p k)
  | release k => exact turn_ended hk (ends_release p k)

end Program

end TraceContract
