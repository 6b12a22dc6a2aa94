import TraceContract.Proofs.Process.Arrival
import TraceContract.Proofs.Process.Deferral

/-!
# Records that come back to an adapter that asks

While a deferred adapter asks for its sink, the factory may log, and what it logs may come back to
that very adapter, straight from the factory or by way of other adapters.  The adapter is resolving
then, and stays so until the factory has answered:

    open ── record ──> resolving ── sink ────> settled, the record goes on
                                 ── failure ─> open, the record is lost

so whatever comes back to it meanwhile is dropped, and leaves no trace.

* `Process.Sends` and `Process.Gives`: what a factory sends while an adapter asks, and what comes of
  a record, at any depth.
* `Process.resolving_of_gives`: an adapter that is resolving is so in every state on the way.
* `Process.runErrands_of_resolving`: records through that adapter do nothing for a factory.
* `Process.drops_reentrant_records`: what comes of an adapter that is asked through itself.
-/

namespace TraceContract

namespace Process

variable {p q : Process} {h k : Handle} {name : Text} {target : Handle}

/-! ### The way of the records that a factory sends -/

/-- The bound on the errands of a factory does not show. -/
theorem resolve_eq (p : Process) (name : Text) : p.resolve name = resolveVia emit p name := by
  refine resolveVia_congr (leads_emitWithin p.depth) ?_ name
  intro q hl k logger r
  have hdepth : q.depth = p.depth := by
    rw [Process.depth, Process.depth, hl.length_eq]
  rw [emit, hdepth]

/-- While `h` asks for its sink in the state `p`, the factory gives the record `r` to `k` in the
state `q`. -/
def Sends (p : Process) (h : Handle) (name : Text) (q : Process) (k : Handle) (logger : Text)
    (r : Record) : Prop :=
  ∃ f before errand later, p.factory = some (.outside f) ∧ f.errands = before ++ errand :: later ∧
    runErrands emit before ((p.put h (.deferred name .resolving)).asking f name) = (q, .ok ()) ∧
    errand.given? = some (k, logger, r)

/-- In the course of a record that is given to an adapter in a state, the record `r` is given to `k`
in the state `q`. -/
inductive Gives (q : Process) (k : Handle) (logger : Text) (r : Record) :
    Process → Handle → Text → Record → Prop
  | here : Gives q k logger r q k logger r
  | passed {p : Process} {h target : Handle} {name first : Text} {s : Record}
      (hs : p.adapters[h]? = some (.deferred name (.settled target)))
      (hg : Gives q k logger r p target first s) : Gives q k logger r p h first s
  | sent {p p' : Process} {h h' : Handle} {name first second : Text} {s s' : Record}
      (ho : p.adapters[h]? = some (.deferred name .open))
      (hsent : p.Sends h name p' h' second s')
      (hg : Gives q k logger r p' h' second s') : Gives q k logger r p h first s
  | answered {p p' : Process} {h target : Handle} {name first : Text} {s : Record}
      (ho : p.adapters[h]? = some (.deferred name .open))
      (hr : (p.put h (.deferred name .resolving)).resolve name = (p', .ok target))
      (hg : Gives q k logger r (p'.put h (.deferred name (.settled target))) target first s) :
      Gives q k logger r p h first s

theorem Leads.resolving (hl : Leads p q)
    (hr : p.adapters[h]? = some (.deferred name .resolving)) :
    q.adapters[h]? = some (.deferred name .resolving) := by
  obtain ⟨b, hb, hbecomes⟩ := hl.becomes h _ hr
  cases hbecomes
  exact hb

theorem resolving_of_sends {other : Text} {logger : Text} {r : Record}
    (hr : (p.put k (.deferred other .resolving)).adapters[h]? = some (.deferred name .resolving))
    {target : Handle} (hs : p.Sends k other q target logger r) :
    q.adapters[h]? = some (.deferred name .resolving) := by
  obtain ⟨f, before, errand, later, -, -, hrun, -⟩ := hs
  have hl := leads_runErrands leads_emit before
    ((p.put k (.deferred other .resolving)).asking f other)
  rw [hrun] at hl
  exact hl.resolving hr

/-- **An adapter that is resolving is so to the end**, whatever is given to whom in the meantime. -/
theorem resolving_of_gives {logger first : Text} {r s : Record} {h' : Handle}
    (hg : Gives q k logger r p h' first s)
    (hr : p.adapters[h]? = some (.deferred name .resolving)) :
    q.adapters[h]? = some (.deferred name .resolving) := by
  have hne {p : Process} {h' : Handle} {other : Text}
      (hr : p.adapters[h]? = some (.deferred name .resolving))
      (ho : p.adapters[h']? = some (.deferred other .open)) : h' ≠ h := by
    rintro rfl
    exact absurd (ho.symm.trans hr) (by simp)
  induction hg with
  | here => exact hr
  | passed hs hg ih => exact ih hr
  | @sent p p' h' next other first second s s' ho hsent hg ih =>
    have hput := (getElem?_put_of_ne (hne hr ho) (.deferred other .resolving)).trans hr
    exact ih (resolving_of_sends hput hsent)
  | @answered p p' h' target other first s ho hanswer hg ih =>
    have hput := (getElem?_put_of_ne (hne hr ho) (.deferred other .resolving)).trans hr
    have hl := leads_resolve (p.put h' (.deferred other .resolving)) other
    rw [hanswer] at hl
    exact ih ((getElem?_put_of_ne (hne hr ho) _).trans (hl.resolving hput))

theorem emit_of_resolving (hr : p.adapters[h]? = some (.deferred name .resolving)) (logger : Text)
    (r : Record) : p.emit h logger r = (p, .ok ()) := by
  refine emit_of_drops ?_ logger r
  rw [hr]
  exact .resolving name

/-! ### A factory whose records all come back -/

end Process

/-- What the errand fails with by itself, before any record goes out. -/
def Errand.failure? : Errand → Option Failure
  | .log trace operation arguments =>
    match trace.prepare false operation arguments with
    | .error failure => some failure
    | .ok _ => none
  | .emit .. => none
  | .fail failure => some failure

/-- What errands come to that fail only by themselves. -/
def Errand.outcome : List Errand → Except Failure Unit
  | [] => .ok ()
  | errand :: rest =>
    match errand.failure? with
    | some failure => .error failure
    | none => outcome rest

/-- What the next call of a factory comes to where no record of its errands does. -/
def OutsideFactory.verdict (f : OutsideFactory) (logger : Text) : Except Failure Handle :=
  (Errand.outcome f.errands).bind fun _ => f.sinkFor logger

namespace Process

variable {p q : Process} {h k : Handle} {name : Text} {target : Handle}

def AllTo (h : Handle) (errands : List Errand) : Prop :=
  ∀ errand ∈ errands, ∀ sink logger r, errand.given? = some (sink, logger, r) → sink = h

/-- The records that the factory of the process sends all go to `h`. -/
def KeepsTo (p : Process) (h : Handle) : Prop :=
  ∀ f, p.factory = some (.outside f) → AllTo h f.errands

/-- What the factory of the process answers where no record comes to anything. -/
def verdict (p : Process) (name : Text) : Except Failure Handle :=
  match p.factory with
  | none => .ok house
  | some (.constant sink) => .ok sink
  | some (.outside f) => f.verdict name

/-- The process after its factory was asked once, and nothing else happened. -/
def askedOnce (p : Process) (name : Text) : Process :=
  match p.factory with
  | none | some (.constant _) => p
  | some (.outside f) => p.asking f name

theorem askedOnce_adapters (p : Process) (name : Text) :
    (p.askedOnce name).adapters = p.adapters := by
  rw [askedOnce]
  split
  · rfl
  · rfl
  · rfl

theorem askedOnce_now (p : Process) (name : Text) : (p.askedOnce name).now = p.now := by
  rw [askedOnce]
  split
  · rfl
  · rfl
  · rfl

section

variable (hr : p.adapters[h]? = some (.deferred name .resolving))

include hr

theorem runErrand_of_resolving {errand : Errand}
    (hto : ∀ sink logger r, errand.given? = some (sink, logger, r) → sink = h) :
    runErrand emit p errand = (p, Errand.outcome [errand]) := by
  have hdropped (logger : Text) (r : Record) (sink : Handle) (hsink : sink = h) :
      emit p sink logger r = (p, .ok ()) := by
    rw [hsink]
    exact emit_of_resolving hr logger r
  cases errand with
  | log trace operation arguments =>
    rw [runErrand, Trace.logVia, Errand.outcome, Errand.failure?]
    cases hprepare : trace.prepare false operation arguments with
    | error failure => rfl
    | ok prepared =>
      cases prepared with
      | none => rfl
      | some r =>
        refine hdropped _ r _ (hto trace.sink trace.owner r ?_)
        rw [Errand.given?, hprepare]
  | emit sink logger r => exact hdropped logger r sink (hto sink logger r rfl)
  | fail failure => rfl

/-- Errands whose records all come back to an adapter that is resolving leave no trace. -/
theorem runErrands_of_resolving {errands : List Errand} (hto : AllTo h errands) :
    runErrands emit errands p = (p, Errand.outcome errands) := by
  induction errands with
  | nil => rfl
  | cons errand rest ih =>
    have hfirst := runErrand_of_resolving hr (hto errand List.mem_cons_self)
    have hrest := ih fun other hmem => hto other (List.mem_cons_of_mem errand hmem)
    rw [runErrands, hfirst]
    cases hfails : errand.failure? with
    | some failure => simp only [Errand.outcome, hfails]
    | none => simpa only [Errand.outcome, hfails] using hrest

/-- **The factory answers as if it had sent no record**, and is asked once. -/
theorem resolve_of_resolving (hkeeps : p.KeepsTo h) (asker : Text) :
    p.resolve asker = (p.askedOnce asker, p.verdict asker) := by
  rw [resolve_eq, askedOnce, verdict]
  cases hf : p.factory with
  | none => rw [resolveVia, hf]
  | some factory =>
    cases factory with
    | constant sink => rw [resolveVia, hf]
    | outside f =>
      have hasking : (p.asking f asker).adapters[h]? = some (.deferred name .resolving) := hr
      rw [resolveVia_outside emit hf, runErrands_of_resolving hasking (hkeeps f hf)]
      rfl

end

theorem askedOnce_put (p : Process) (h : Handle) (a : Adapter) (name : Text) :
    (p.put h a).askedOnce name = (p.askedOnce name).put h a := by
  have hfactory : (p.put h a).factory = p.factory := rfl
  rw [askedOnce, askedOnce, hfactory]
  split
  · rfl
  · rfl
  · rfl

theorem settled_askedOnce (ho : p.adapters[h]? = some (.deferred name .open)) (target : Handle) :
    ((p.askedOnce name).put h (.deferred name (.settled target))).adapters[h]? =
      some (.deferred name (.settled target)) := by
  refine getElem?_put_self ?_ _
  rw [askedOnce_adapters]
  exact lt_of_getElem? ho

theorem target_askedOnce (ho : p.adapters[h]? = some (.deferred name .open)) {a : Adapter}
    (ha : p.adapters[target]? = some a) (hown : ∀ resolution, a ≠ .deferred name resolution) :
    ((p.askedOnce name).put h (.deferred name (.settled target))).adapters[target]? = some a := by
  have hne : h ≠ target := by
    rintro rfl
    exact hown .open (Option.some.inj (ha.symm.trans ho))
  rw [getElem?_put_of_ne hne, askedOnce_adapters]
  exact ha

/-- What comes of the record that makes an adapter ask, where the factory's records come back. -/
theorem emit_of_keepsTo (ho : p.adapters[h]? = some (.deferred name .open))
    (hkeeps : p.KeepsTo h) (logger : Text) (r : Record) :
    p.emit h logger r =
      answered emit h name logger r
        ((p.askedOnce name).put h (.deferred name .resolving), p.verdict name) := by
  have hwaits := getElem?_put_self (lt_of_getElem? ho) (.deferred name .resolving)
  have hkeeps' : (p.put h (.deferred name .resolving)).KeepsTo h := hkeeps
  have hverdict : (p.put h (.deferred name .resolving)).verdict name = p.verdict name := rfl
  rw [emit_of_open ho, resolve_of_resolving hwaits hkeeps', askedOnce_put, hverdict]

theorem emit_of_keepsTo_error (ho : p.adapters[h]? = some (.deferred name .open))
    (hkeeps : p.KeepsTo h) {failure : Failure} (hverdict : p.verdict name = .error failure)
    (logger : Text) (r : Record) : p.emit h logger r = (p.askedOnce name, .error failure) := by
  have hsame : (p.askedOnce name).adapters[h]? = some (.deferred name .open) := by
    rw [askedOnce_adapters]
    exact ho
  rw [emit_of_keepsTo ho hkeeps, hverdict, answered, put_put, put_self hsame]

theorem emit_of_keepsTo_ok (ho : p.adapters[h]? = some (.deferred name .open))
    (hkeeps : p.KeepsTo h) (hverdict : p.verdict name = .ok target) (logger : Text) (r : Record) :
    p.emit h logger r =
      ((p.askedOnce name).put h (.deferred name (.settled target))).emit target logger r := by
  rw [emit_of_keepsTo ho hkeeps, hverdict, answered, put_put]

/-! ### Between two records of the program -/

/-- **No record of the program leaves a deferred adapter resolving.** -/
theorem open_or_settled_after (ho : p.adapters[h]? = some (.deferred name .open))
    (acts : List Act) :
    (p.after acts).adapters[h]? = some (.deferred name .open) ∨
      ∃ target, (p.after acts).adapters[h]? = some (.deferred name (.settled target)) := by
  obtain ⟨b, hb, hbecomes⟩ := becomes_after ho acts
  cases hbecomes with
  | stays => exact Or.inl hb
  | settles _ target => exact Or.inr ⟨target, hb⟩

theorem kept_after {a : Adapter} (ha : p.adapters[h]? = some a) {acts : List Act}
    (hacts : ∀ act ∈ acts, ∀ k logger r, act ≠ .emit k logger r) :
    (p.after acts).adapters[h]? = some a := by
  induction acts generalizing p with
  | nil => exact ha
  | cons act rest ih =>
    refine ih (kept_act ha act (hacts act List.mem_cons_self)) ?_
    intro other hmem
    exact hacts other (List.mem_cons_of_mem act hmem)

/-- **Records that come back to an adapter that asks are dropped**, and that is all.

A program makes a deferred adapter and goes on in any way.  Between its records the adapter is open
or settled, never resolving.  Let it be open, at any moment, when a record is given to it.

Whatever the factory sends meanwhile, to whomever: a record that comes back to the adapter succeeds,
and the process is after it what it was before.  If the factory gives no sink, the adapter is open
as before, and the failure is that of the record.  If it gives one, the adapter is settled on that
for good, and the record is passed on to it, once.  From there it goes its way to just one ending:
it is delivered to the sink or the hub where the way ends, or dropped at what drops all, or a
factory that is asked on the way gives no sink, or the way leads into a ring and the record has no
end.

If the factory sends its records to the adapter alone, nothing happens but that it is asked once.
Where it fails, the adapter and all others are as they were, and the adapter is open until the next
record, which asks the factory of that moment.  Where it gives a sink, the record is given to that,
and what comes of it there comes of it once. -/
theorem drops_reentrant_records {p start : Process} {h : Handle} {name : Text}
    (hadd : p.addDeferred name = (start, h)) :
    (∀ acts, (start.after acts).adapters[h]? = some (.deferred name .open) ∨
      ∃ target, (start.after acts).adapters[h]? = some (.deferred name (.settled target))) ∧
    ∀ q : Process, q.adapters[h]? = some (.deferred name .open) →
      (∀ q' k first sent back logger r, q.Sends h name q' k first sent →
        Gives back h logger r q' k first sent → back.emit h logger r = (back, .ok ())) ∧
      (∀ q' failure, (q.put h (.deferred name .resolving)).resolve name = (q', .error failure) →
        ∀ logger r, q.emit h logger r = (q'.put h (.deferred name .open), .error failure)) ∧
      (∀ q' target, (q.put h (.deferred name .resolving)).resolve name = (q', .ok target) →
        ∀ logger r,
          q.emit h logger r =
            (q'.put h (.deferred name (.settled target))).emit target logger r ∧
          (∀ later, ((q.emit h logger r).1.after later).adapters[h]? =
            some (.deferred name (.settled target))) ∧
          (∀ back k outcome, Goes back k (q'.put h (.deferred name (.settled target))) target →
            Ending back k logger r outcome → q.emit h logger r = outcome) ∧
          ∃ back k outcome, Goes back k (q'.put h (.deferred name (.settled target))) target ∧
            Ending back k logger r outcome) ∧
      (q.KeepsTo h →
        (∀ failure, q.verdict name = .error failure →
          (∀ logger r, q.emit h logger r = (q.askedOnce name, .error failure)) ∧
          ∀ quiet, (∀ act ∈ quiet, ∀ k logger r, act ≠ .emit k logger r) →
            ((q.askedOnce name).after quiet).adapters[h]? = some (.deferred name .open)) ∧
        ∀ target, q.verdict name = .ok target → ∀ logger r,
          q.emit h logger r =
            ((q.askedOnce name).put h (.deferred name (.settled target))).emit target logger r ∧
          (q.emit h logger r).1.adapters[h]? = some (.deferred name (.settled target)) ∧
          (∀ c, q.adapters[target]? = some (.recorder c) →
            (q.emit h logger r).1.events = (q.askedOnce name).events ++ (c.emit logger r).events) ∧
          ∀ hub, q.adapters[target]? = some (.hub hub) →
            (q.emit h logger r).1.events =
              (q.askedOnce name).events ++ (hub.emit q.now logger r).events) := by
  have hopen := open_of_addDeferred hadd
  refine ⟨open_or_settled_after hopen, ?_⟩
  intro q ho
  have hlt := lt_of_getElem? ho
  refine ⟨?_, ?_, ?_, ?_⟩
  · intro q' k first sent back logger r hsends hgives
    have hwaits := getElem?_put_self hlt (.deferred name .resolving)
    exact emit_of_resolving (resolving_of_gives hgives (resolving_of_sends hwaits hsends)) logger r
  · intro q' failure hr logger r
    rw [emit_of_open ho, hr, answered]
  · intro q' target hr logger r
    have hl := leads_resolve (q.put h (.deferred name .resolving)) name
    rw [hr] at hl
    have hlt' : h < q'.adapters.length := by
      rw [hl.length_eq, length_put]
      exact hlt
    have hsettled := getElem?_put_self hlt' (.deferred name (.settled target))
    have hemit : q.emit h logger r =
        (q'.put h (.deferred name (.settled target))).emit target logger r := by
      rw [emit_of_open ho, hr, answered]
    refine ⟨hemit, ?_, ?_, goes_to_ending _ target logger r⟩
    · rw [hemit]
      exact settled_after ((leads_emit _ target logger r).settled hsettled)
    · intro back k outcome hgoes hending
      rw [hemit, hgoes.emit_eq, hending.emit_eq]
  intro hkeeps
  refine ⟨?_, ?_⟩
  · intro failure hverdict
    refine ⟨emit_of_keepsTo_error ho hkeeps hverdict, ?_⟩
    intro quiet hquiet
    have hsame : (q.askedOnce name).adapters[h]? = some (.deferred name .open) := by
      rw [askedOnce_adapters]
      exact ho
    exact kept_after hsame hquiet
  · intro target hverdict logger r
    have hemit := emit_of_keepsTo_ok ho hkeeps hverdict logger r
    refine ⟨hemit, ?_, ?_, ?_⟩
    · rw [hemit]
      exact (leads_emit _ target logger r).settled (settled_askedOnce ho target)
    · intro c hc
      have htaken := target_askedOnce ho hc fun _ => Adapter.noConfusion
      rw [hemit, emit_of_recorder htaken]
      rfl
    · intro hub hh
      have htaken := target_askedOnce ho hh fun _ => Adapter.noConfusion
      have hnow : ((q.askedOnce name).put h (.deferred name (.settled target))).now = q.now :=
        askedOnce_now q name
      rw [hemit, emit_of_hub htaken, hnow]
      rfl

/-- A factory that sends two records to the adapter `2` whenever it is asked, fails the first time
and gives the sink `1` from then on. -/
def insistent : OutsideFactory where
  label := ascii "insistent"
  errands :=
    [.emit 2 (ascii "factory") { message := ascii "asked" },
      .emit 2 (ascii "factory") { message := ascii "still there" }]
  answer
    | 0, _ => .error .absent
    | _, _ => .ok (some 1)

/-- An adapter that nobody has used, after the house hub and a sink. -/
def unused : Process where
  adapters := [.hub .house, .recorder { label := ascii "memory" },
    .deferred (ascii "late") .open]

/-- A record for the adapter `2` with that factory, which is lost. -/
def insistentRun : List Act :=
  [.install (some (.outside insistent)), .emit 2 (ascii "late") { message := ascii "first" }]

/-- Both records of the factory are dropped twice; of those of the program the first fails and the
second is delivered. -/
theorem drops_reentrant_records_insistent :
    ∃ start, addDeferred { adapters := [.hub .house, .recorder { label := ascii "memory" }] }
        (ascii "late") = (start, 2) ∧
      (∃ back, (start.after (insistentRun.take 1)).Sends 2 (ascii "late") back 2 (ascii "factory")
          { message := ascii "still there" } ∧
        back.emit 2 (ascii "factory") { message := ascii "still there" } = (back, .ok ())) ∧
      (∃ q, (start.after (insistentRun.take 1)).emit 2 (ascii "late")
          { message := ascii "first" } = (q, .error .absent) ∧
        q.adapters[2]? = some (.deferred (ascii "late") .open)) ∧
      ((start.after insistentRun).emit 2 (ascii "late") { message := ascii "second" }).1.events =
        [.asked (ascii "insistent") (ascii "late"), .asked (ascii "insistent") (ascii "late"),
          .emitted (ascii "memory") (ascii "late") { message := ascii "second" } none] := by
  have hkeeps (q : Process) (n : Nat)
      (hf : q.factory = some (.outside { insistent with asked := n })) : q.KeepsTo 2 := by
    intro f hfactory errand hmem sink logger r hgiven
    obtain rfl := Factory.outside.inj (Option.some.inj (hf.symm.trans hfactory))
    rcases List.mem_pair.mp hmem with rfl | rfl
    · exact (congrArg Prod.fst (Option.some.inj hgiven)).symm
    · exact (congrArg Prod.fst (Option.some.inj hgiven)).symm
  have hadd : addDeferred { adapters := [.hub .house, .recorder { label := ascii "memory" }] }
      (ascii "late") = (unused, 2) := rfl
  obtain ⟨-, hopen⟩ := drops_reentrant_records hadd
  obtain ⟨hdrops, -, -, hlaw⟩ := hopen (unused.after (insistentRun.take 1)) rfl
  obtain ⟨hfails, -⟩ := hlaw (hkeeps _ 0 rfl)
  obtain ⟨-, -, -, hlaw'⟩ := hopen (unused.after insistentRun) rfl
  obtain ⟨-, hanswers⟩ := hlaw' (hkeeps _ 1 rfl)
  refine ⟨_, hadd, ?_, ?_, ?_⟩
  · refine ⟨_, ⟨insistent, [_], _, [], rfl, rfl, rfl, rfl⟩, ?_⟩
    exact hdrops _ _ _ _ _ _ _ ⟨insistent, [_], _, [], rfl, rfl, rfl, rfl⟩ .here
  · exact ⟨_, (hfails .absent rfl).1 _ _, (hfails .absent rfl).2 [] (by simp)⟩
  · exact (hanswers 1 rfl _ _).2.2.1 _ rfl

/-- A factory that logs through the adapter `2` whenever it is asked, and gives the adapter `3` to
the logger of that, and the sink `1` to all others. -/
def circular : OutsideFactory where
  label := ascii "circular"
  errands := [.emit 2 (ascii "factory") { message := ascii "asked" }]
  answer _ logger := if logger = ascii "a" then .ok (some 3) else .ok (some 1)

/-- Two adapters that nobody has used, and that factory. -/
def waiting : Process where
  adapters := [.hub .house, .recorder { label := ascii "memory" }, .deferred (ascii "a") .open,
    .deferred (ascii "b") .open]
  factory := some (.outside circular)

/-- **A record whose sink is given may be lost.**  While `3` asks, the factory logs through `2`,
which asks too and is settled on `3`, which waits.  And an adapter may be its own sink. -/
theorem drops_reentrant_records_lost :
    (∃ q q', waiting.Sends 3 (ascii "b") q 2 (ascii "factory") { message := ascii "asked" } ∧
      q.KeepsTo 2 ∧
      (q.put 2 (.deferred (ascii "a") .resolving)).resolve (ascii "a") = (q', .ok 3) ∧
      q.emit 2 (ascii "factory") { message := ascii "asked" } =
        (q'.put 2 (.deferred (ascii "a") (.settled 3)), .ok ())) ∧
    (waiting.emit 3 (ascii "b") { message := ascii "late" }).1.events =
      [.asked (ascii "circular") (ascii "b"), .asked (ascii "circular") (ascii "a"),
        .emitted (ascii "memory") (ascii "b") { message := ascii "late" } none] ∧
    ∃ q q' : Process, q.factory = some (.constant 2) ∧
      (q.put 2 (.deferred (ascii "a") .resolving)).resolve (ascii "a") = (q', .ok 2) ∧
      (q.emit 2 (ascii "a") { message := ascii "round" }).2 = .error .endless := by
  refine ⟨⟨_, _, ⟨circular, [], _, [], rfl, rfl, rfl, rfl⟩, ?_, rfl, rfl⟩, rfl,
    { waiting with factory := some (.constant 2) }, _, rfl, rfl, rfl⟩
  intro f hfactory errand hmem sink logger r hgiven
  obtain rfl := Factory.outside.inj (Option.some.inj hfactory)
  obtain rfl := List.mem_singleton.mp hmem
  exact (congrArg Prod.fst (Option.some.inj hgiven)).symm

end Process

end TraceContract
