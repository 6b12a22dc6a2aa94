import TraceContract.Hub
import Mathlib.Data.List.Basic

/-!
# What the sinks of a hub get

A program adds sinks to a hub, changes its minimum and gives it records, in any order, and a sink
may throw whenever it is written to.

* `Hub.Delivered` says what handing an entry to a row of sinks is to be, and `Hub.delivered_writeAll`
  that it is so: each sink that wants the entry gets it once, until one throws.
* `Hub.emit_of_unlisted`, `Hub.emit_of_dropped` and `Hub.emit_of_passed`: all that can come of a
  record.
* `Hub.Gets` tells, by its place, whether a sink is written to; `Hub.getElem?_act` is the step
  for one sink and `Hub.getElem?_after` the run.
* `Hub.uncounted_after`: no record, whether it fails or not, changes what the hub consists of.
* `Hub.delivers_to_each`: all of it, for every run.
-/

namespace TraceContract

/-! ### One sink -/

namespace Sink

/-- The entry is as severe as the sink asks for. -/
def Wants (s : Sink) (e : Entry) : Prop := s.minimum.code ≤ e.severity.code

instance (s : Sink) (e : Entry) : Decidable (s.Wants e) :=
  inferInstanceAs (Decidable (s.minimum.code ≤ e.severity.code))

def Takes (s : Sink) (e : Entry) : Prop := s.Wants e → (s.write e).stopped = none

instance (s : Sink) (e : Entry) : Decidable (s.Takes e) :=
  inferInstanceAs (Decidable (s.Wants e → (s.write e).stopped = none))

/-- The sink after it was offered an entry. -/
def offered (e : Entry) (s : Sink) : Sink := if s.Wants e then (s.write e).state else s

def shown (e : Entry) (s : Sink) : List Event := if s.Wants e then (s.write e).events else []

/-- The sink after it was written to, entry by entry. -/
def afterWrites (s : Sink) (entries : List Entry) : Sink :=
  entries.foldl (fun s e => (s.write e).state) s

/-- The sink as it is but for how often it has called back. -/
def uncounted (s : Sink) : Sink :=
  { s with
    delivery := match s.delivery with
      | .console => .console
      | .entries callback => .entries (callback.map fun c => { c with calls := 0 })
      | .lines callback => .lines (callback.map fun c => { c with calls := 0 }) }

theorem accepts_iff {s : Sink} {e : Entry} (h : e.severity ≠ .off) :
    s.accepts e.severity = true ↔ s.Wants e := by
  simp [accepts, h, Severity.reaches, Wants]

theorem afterWrites_append (s : Sink) (entries later : List Entry) :
    s.afterWrites (entries ++ later) = (s.afterWrites entries).afterWrites later :=
  List.foldl_append

theorem uncounted_write (s : Sink) (e : Entry) : (s.write e).state.uncounted = s.uncounted := by
  rw [write]
  split
  · split
    · split
      · rfl
      · rfl
    · rfl
  · rfl
  · rfl
  next callback hdelivery => rw [uncounted, uncounted, hdelivery]; rfl
  next callback hdelivery =>
    split
    · rfl
    · split
      · rfl
      · rw [uncounted, uncounted, hdelivery]
        rfl

theorem uncounted_offered (s : Sink) (e : Entry) : (s.offered e).uncounted = s.uncounted := by
  rw [offered]
  split
  · exact s.uncounted_write e
  · rfl

end Sink

/-! ### A row of sinks -/

namespace Hub

/-- An entry is offered to the sinks of a row in order, to all of them or until one throws. -/
inductive Delivered (e : Entry) : List Sink → Effect (List Sink) Thrown → Prop
  | toAll {sinks : List Sink} (h : ∀ s ∈ sinks, s.Takes e) :
      Delivered e sinks ⟨sinks.map (·.offered e), sinks.flatMap (·.shown e), none⟩
  | untilThrow {before rest : List Sink} {s : Sink} {thrown : Thrown}
      (h : ∀ s' ∈ before, s'.Takes e) (hs : s.Wants e) (ht : (s.write e).stopped = some thrown) :
      Delivered e (before ++ s :: rest)
        ⟨before.map (·.offered e) ++ (s.write e).state :: rest,
          before.flatMap (·.shown e) ++ (s.write e).events, some thrown⟩

/-- The sink at a place is written to: it wants the entry, and no sink before it throws. -/
def Gets (sinks : List Sink) (e : Entry) (i : Nat) : Prop :=
  (∃ s ∈ sinks[i]?, s.Wants e) ∧ ∀ s ∈ sinks.take i, s.Takes e

instance (sinks : List Sink) (e : Entry) (i : Nat) : Decidable (Gets sinks e i) :=
  inferInstanceAs (Decidable ((∃ s ∈ sinks[i]?, s.Wants e) ∧ ∀ s ∈ sinks.take i, s.Takes e))

section

variable {e : Entry}

theorem Delivered.cons {s : Sink} {sinks : List Sink} {out : Effect (List Sink) Thrown}
    (hs : s.Takes e) (h : Delivered e sinks out) :
    Delivered e (s :: sinks) ⟨s.offered e :: out.state, s.shown e ++ out.events, out.stopped⟩ := by
  cases h with
  | toAll h => exact .toAll (List.forall_mem_cons.mpr ⟨hs, h⟩)
  | @untilThrow before rest s' thrown h hs' ht =>
    have hall : ∀ x ∈ s :: before, x.Takes e := List.forall_mem_cons.mpr ⟨hs, h⟩
    have hlonger : Delivered e ((s :: before) ++ s' :: rest) _ := .untilThrow hall hs' ht
    rw [List.flatMap_cons, List.append_assoc] at hlonger
    exact hlonger

/-- **Every sink that wants an entry gets it once**, until one throws. -/
theorem delivered_writeAll (he : e.severity ≠ .off) (sinks : List Sink) :
    Delivered e sinks (writeAll e sinks) := by
  induction sinks with
  | nil => exact .toAll fun s hs => absurd hs List.not_mem_nil
  | cons s rest ih =>
    rw [writeAll]
    by_cases hs : s.Wants e
    · rw [if_pos ((Sink.accepts_iff he).mpr hs)]
      simp only
      split
      next thrown ht =>
        have hnone : ∀ s' ∈ ([] : List Sink), s'.Takes e := fun s' hs' => absurd hs' List.not_mem_nil
        exact .untilThrow hnone hs ht
      next ht =>
        have hcons := ih.cons (s := s) fun _ => ht
        rw [Sink.offered, Sink.shown, if_pos hs, if_pos hs] at hcons
        exact hcons
    · rw [if_neg fun h => hs ((Sink.accepts_iff he).mp h)]
      have hcons := ih.cons (s := s) fun hwants => absurd hwants hs
      rw [Sink.offered, Sink.shown, if_neg hs, if_neg hs, List.nil_append] at hcons
      exact hcons

theorem gets_iff {sinks : List Sink} {i : Nat} {s : Sink} (hs : sinks[i]? = some s)
    (h : ∀ s' ∈ sinks.take i, s'.Takes e) : Gets sinks e i ↔ s.Wants e := by
  rw [Gets, hs]
  exact ⟨fun hgets => by simpa using hgets.1, fun hwants => ⟨⟨s, rfl, hwants⟩, h⟩⟩

theorem map_offered {sinks : List Sink} {i : Nat} (h : ∀ s' ∈ sinks.take i, s'.Takes e) :
    sinks[i]?.map (·.offered e) =
      sinks[i]?.map fun s => if Gets sinks e i then (s.write e).state else s := by
  cases hs : sinks[i]? with
  | none => rfl
  | some s =>
    rw [Option.map_some, Option.map_some, Sink.offered]
    by_cases hwants : s.Wants e
    · rw [if_pos hwants, if_pos ((gets_iff hs h).mpr hwants)]
    · rw [if_neg hwants, if_neg fun hgets => hwants ((gets_iff hs h).mp hgets)]

theorem Delivered.getElem? {sinks : List Sink} {out : Effect (List Sink) Thrown}
    (h : Delivered e sinks out) (i : Nat) :
    out.state[i]? = sinks[i]?.map fun s => if Gets sinks e i then (s.write e).state else s := by
  cases h with
  | toAll h =>
    rw [List.getElem?_map]
    exact map_offered fun s hs => h s (List.mem_of_mem_take hs)
  | @untilThrow before rest s thrown h hs ht =>
    rcases Nat.lt_trichotomy i before.length with hlt | rfl | hgt
    · have htake : (before ++ s :: rest).take i = before.take i :=
        List.take_append_of_le_length (Nat.le_of_lt hlt)
      have hleft : before[i]? = (before ++ s :: rest)[i]? := (List.getElem?_append_left hlt).symm
      rw [List.getElem?_append_left (by simpa using hlt), List.getElem?_map, hleft]
      refine map_offered fun s' hs' => ?_
      rw [htake] at hs'
      exact h s' (List.mem_of_mem_take hs')
    · have hlast : (before ++ s :: rest)[before.length]? = some s := by simp
      have htake : (before ++ s :: rest).take before.length = before := List.take_left
      have hgets : Gets (before ++ s :: rest) e before.length :=
        (gets_iff hlast (by rwa [htake])).mpr hs
      rw [hlast, Option.map_some, if_pos hgets]
      simp
    · -- The sink that throws is before this one.
      have hnot : ¬ Gets (before ++ s :: rest) e i := by
        rintro ⟨-, htakes⟩
        have hmem : s ∈ (before ++ s :: rest).take i := by
          obtain ⟨k, rfl⟩ : ∃ k, i = before.length + (k + 1) := ⟨i - before.length - 1, by omega⟩
          rw [List.take_length_add_append, List.take_succ_cons]
          exact List.mem_append_right before List.mem_cons_self
        have hsome := (htakes s hmem hs).symm.trans ht
        exact absurd hsome (by simp)
      obtain ⟨k, rfl⟩ : ∃ k, i = before.length + (k + 1) := ⟨i - before.length - 1, by omega⟩
      simp only [if_neg hnot, Option.map_id']
      rw [List.getElem?_append_right (by simp), List.getElem?_append_right (by simp),
        List.length_map, Nat.add_sub_cancel_left]
      rfl

theorem Delivered.uncounted {sinks : List Sink} {out : Effect (List Sink) Thrown}
    (h : Delivered e sinks out) : out.state.map Sink.uncounted = sinks.map Sink.uncounted := by
  have hall (row : List Sink) :
      (row.map (·.offered e)).map Sink.uncounted = row.map Sink.uncounted := by
    rw [List.map_map]
    exact List.map_congr_left fun s _ => s.uncounted_offered e
  cases h with
  | toAll h => exact hall sinks
  | @untilThrow before rest s thrown h hs ht =>
    simp only [List.map_append, List.map_cons, Sink.uncounted_write, hall before]

end

/-! ### One record -/

section

variable {h : Hub} {r : Record} {severity : Severity}

theorem emit_of_unlisted {code : Int} {outside : code < 0 ∨ 4 < code}
    (hr : r.level = .unlisted code outside) (now : Int) (logger : Text) :
    h.emit now logger r = ⟨h, [], some (.unknownLevel code)⟩ := by
  rw [emit, hr]
  rfl

theorem emit_of_dropped (hr : r.level.severity = .ok severity)
    (hd : severity = .off ∨ severity.code < h.minimum.code) (now : Int) (logger : Text) :
    h.emit now logger r = ⟨h, [], none⟩ := by
  rw [emit, hr]
  by_cases hoff : severity = .off
  · exact if_pos hoff
  · have hlow : severity.reaches h.minimum = false := by
      have hcode := hd.resolve_left hoff
      simp only [Severity.reaches, decide_eq_false_iff_not]
      omega
    simp [hoff, hlow]

theorem emit_of_passed (hr : r.level.severity = .ok severity) (hoff : severity ≠ .off)
    (hp : h.minimum.code ≤ severity.code) (now : Int) (logger : Text) :
    h.emit now logger r =
      ⟨{ h with sinks := (writeAll (entryOf severity now logger r) h.sinks).state },
        (writeAll (entryOf severity now logger r) h.sinks).events,
        (writeAll (entryOf severity now logger r) h.sinks).stopped.map .outside⟩ := by
  have hreaches : severity.reaches h.minimum = true := by
    simpa [Severity.reaches] using hp
  rw [emit, hr]
  simp [hoff, hreaches]

/-- The entry that a record makes at a hub, if it makes one. -/
def entryFor? (h : Hub) (now : Int) (logger : Text) (r : Record) : Option Entry :=
  match r.level.severity with
  | .error _ => none
  | .ok severity =>
    if severity ≠ .off ∧ h.minimum.code ≤ severity.code then some (entryOf severity now logger r)
    else none

theorem entryFor?_cases (h : Hub) (now : Int) (logger : Text) (r : Record) :
    (h.entryFor? now logger r = none ∧ (h.emit now logger r).state = h ∧
      (h.emit now logger r).events = []) ∨
    ∃ e, h.entryFor? now logger r = some e ∧ e.severity ≠ .off ∧
      h.emit now logger r =
        ⟨{ h with sinks := (writeAll e h.sinks).state }, (writeAll e h.sinks).events,
          (writeAll e h.sinks).stopped.map .outside⟩ := by
  rw [entryFor?]
  cases hr : r.level.severity with
  | error failure =>
    refine Or.inl ⟨rfl, ?_⟩
    rw [emit, hr]
    exact ⟨rfl, rfl⟩
  | ok severity =>
    by_cases hp : severity ≠ .off ∧ h.minimum.code ≤ severity.code
    · exact Or.inr ⟨_, if_pos hp, hp.1, emit_of_passed hr hp.1 hp.2 now logger⟩
    · have hd : severity = .off ∨ severity.code < h.minimum.code := by
        rwa [not_and_or, not_not, Int.not_le] at hp
      rw [emit_of_dropped hr hd]
      exact Or.inl ⟨if_neg hp, rfl, rfl⟩

end

/-! ### Runs -/

/-- What a program may do with a hub.  A record comes with the time of day. -/
inductive Act where
  | addSink (s : Sink)
  | setMinimum (minimum : Severity)
  | emit (now : Int) (logger : Text) (r : Record)

def Act.minimum (before : Severity) : Act → Severity
  | .setMinimum minimum => minimum
  | .addSink _ | .emit .. => before

def Act.added : Act → List Sink
  | .addSink s => [s]
  | .setMinimum _ | .emit .. => []

def act (h : Hub) : Act → Effect Hub Failure
  | .addSink s => ⟨h.addSink s, [], none⟩
  | .setMinimum minimum => ⟨h.setMinimum minimum, [], none⟩
  | .emit now logger r => h.emit now logger r

def after (h : Hub) (acts : List Act) : Hub := acts.foldl (fun h a => (h.act a).state) h

/-- The entry, if any, that the sink at a place is written in the course of an act. -/
def gotten (h : Hub) (i : Nat) : Act → List Entry
  | .emit now logger r => ((h.entryFor? now logger r).filter fun e => Gets h.sinks e i).toList
  | .addSink _ | .setMinimum _ => []

/-- The entries that the sink at a place is written in the course of a run. -/
def received (i : Nat) : Hub → List Act → List Entry
  | _, [] => []
  | h, a :: rest => h.gotten i a ++ received i (h.act a).state rest

theorem minimum_emit (h : Hub) (now : Int) (logger : Text) (r : Record) :
    (h.emit now logger r).state.minimum = h.minimum := by
  rcases h.entryFor?_cases now logger r with ⟨-, hstate, -⟩ | ⟨e, -, -, heq⟩
  · rw [hstate]
  · rw [heq]

theorem minimum_after (h : Hub) (acts : List Act) :
    (h.after acts).minimum = acts.foldl Act.minimum h.minimum := by
  induction acts generalizing h with
  | nil => rfl
  | cons a rest ih =>
    have hfirst : (h.act a).state.minimum = a.minimum h.minimum := by
      cases a with
      | addSink s => rfl
      | setMinimum minimum => rfl
      | emit now logger r => exact h.minimum_emit now logger r
    rw [List.foldl_cons, ← hfirst]
    exact ih (h.act a).state

theorem uncounted_emit (h : Hub) (now : Int) (logger : Text) (r : Record) :
    (h.emit now logger r).state.sinks.map Sink.uncounted = h.sinks.map Sink.uncounted := by
  rcases h.entryFor?_cases now logger r with ⟨-, hstate, -⟩ | ⟨e, -, hoff, heq⟩
  · rw [hstate]
  · rw [heq]
    exact (delivered_writeAll hoff h.sinks).uncounted

/-- **The sinks of a hub are those that were added**, in that order, whatever became of records. -/
theorem uncounted_after (h : Hub) (acts : List Act) :
    (h.after acts).sinks.map Sink.uncounted =
      (h.sinks ++ acts.flatMap Act.added).map Sink.uncounted := by
  induction acts generalizing h with
  | nil => rw [List.flatMap_nil, List.append_nil]; rfl
  | cons a rest ih =>
    have hfirst : (h.act a).state.sinks.map Sink.uncounted =
        (h.sinks ++ a.added).map Sink.uncounted := by
      cases a with
      | addSink s => rfl
      | setMinimum minimum => rw [Act.added, List.append_nil]; rfl
      | emit now logger r => rw [Act.added, List.append_nil]; exact h.uncounted_emit now logger r
    have hrest := ih (h.act a).state
    rw [List.map_append, hfirst, ← List.map_append, List.append_assoc] at hrest
    exact hrest

theorem getElem?_act (h : Hub) (a : Act) (i : Nat) :
    (h.act a).state.sinks[i]? = ((h.sinks ++ a.added)[i]?).map (·.afterWrites (h.gotten i a)) := by
  cases a with
  | addSink s => exact (Option.map_id' ..).symm
  | setMinimum minimum =>
    rw [Act.added, List.append_nil]
    exact (Option.map_id' ..).symm
  | emit now logger r =>
    rw [Act.added, List.append_nil, gotten]
    rcases h.entryFor?_cases now logger r with ⟨hnone, hstate, -⟩ | ⟨e, hsome, hoff, heq⟩
    · rw [hnone, show (h.act (.emit now logger r)).state = h from hstate]
      exact (Option.map_id' ..).symm
    · have hstate : (h.act (.emit now logger r)).state.sinks = (writeAll e h.sinks).state := by
        show (h.emit now logger r).state.sinks = _
        rw [heq]
      rw [hstate, hsome, (delivered_writeAll hoff h.sinks).getElem? i]
      by_cases hgets : Gets h.sinks e i
      · simp [hgets, Sink.afterWrites, Option.filter_some]
      · simp [hgets, Sink.afterWrites, Option.filter_some]

theorem length_act (h : Hub) (a : Act) :
    (h.act a).state.sinks.length = (h.sinks ++ a.added).length := by
  have hsame := congrArg List.length (h.uncounted_after [a])
  simpa [after] using hsame

/-- A sink that is added later has received nothing before. -/
theorem gotten_of_le {h : Hub} {i : Nat} (hi : h.sinks.length ≤ i) (a : Act) :
    h.gotten i a = [] := by
  cases a with
  | addSink s => rfl
  | setMinimum minimum => rfl
  | emit now logger r =>
    have hnot (e : Entry) : ¬ Gets h.sinks e i := by
      rintro ⟨⟨s, hs, -⟩, -⟩
      rw [List.getElem?_eq_none hi] at hs
      exact absurd hs (by simp)
    rw [gotten]
    cases h.entryFor? now logger r with
    | none => rfl
    | some e => simp [hnot, Option.filter_some]

/-- **A sink has been written exactly what it received**, and nothing else was done to it. -/
theorem getElem?_after (h : Hub) (acts : List Act) (i : Nat) :
    (h.after acts).sinks[i]? =
      ((h.sinks ++ acts.flatMap Act.added)[i]?).map (·.afterWrites (received i h acts)) := by
  induction acts generalizing h with
  | nil =>
    rw [List.flatMap_nil, List.append_nil]
    exact (Option.map_id' ..).symm
  | cons a rest ih =>
    have hstep : ((h.act a).state.sinks ++ rest.flatMap Act.added)[i]? =
        ((h.sinks ++ (a :: rest).flatMap Act.added)[i]?).map (·.afterWrites (h.gotten i a)) := by
      have hlen := h.length_act a
      rw [List.flatMap_cons, ← List.append_assoc]
      rcases Nat.lt_or_ge i (h.sinks ++ a.added).length with hlt | hge
      · rw [List.getElem?_append_left (by omega), List.getElem?_append_left hlt]
        exact h.getElem?_act a i
      · have hnew : h.sinks.length ≤ i := by
          rw [List.length_append] at hge
          omega
        rw [List.getElem?_append_right (by omega), List.getElem?_append_right hge, hlen,
          gotten_of_le hnew]
        exact (Option.map_id' ..).symm
    have hrest := ih (h.act a).state
    rw [hstep, Option.map_map] at hrest
    have hwrites (s : Sink) : s.afterWrites (received i h (a :: rest)) =
        (s.afterWrites (h.gotten i a)).afterWrites (received i (h.act a).state rest) :=
      s.afterWrites_append ..
    simp only [hwrites]
    exact hrest

/-- No level is as severe as what nothing reaches. -/
theorem code_lt_off {level : Level} {severity : Severity} (h : level.severity = .ok severity)
    (hoff : severity ≠ .off) : severity.code < Severity.off.code := by
  cases level with
  | none => exact absurd (Except.ok.inj h).symm hoff
  | unlisted code outside => exact absurd h (by simp [Level.severity])
  | _ =>
    obtain rfl := Except.ok.inj h
    decide

/-- The entry of a record depends on the hub's minimum alone. -/
theorem entryFor?_congr {h h' : Hub} (hsame : h.minimum = h'.minimum) (now : Int) (logger : Text)
    (r : Record) : h.entryFor? now logger r = h'.entryFor? now logger r := by
  rw [entryFor?, entryFor?, hsame]

/-- **The sinks of a hub get what passes all minimums**, after any acts and whatever sinks throw.

The minimum is the one that was set last.  The sinks are those that were added, in that order, and
each has been written to once for every entry that it received, and not otherwise touched.

For the next record: a level that stands for nothing is refused before any sink is asked, and every
other has the severity of its name, `none` that of nothing.  A record of no severity, or of less
than the minimum, is dropped.  Any other makes an entry, which is
delivered to the sinks in order, and its failure is that of the sink that throws.  A sink that asks
for what nothing reaches never gets an entry.  Whatever came of the record, the minimum and the
sinks are the same as before, so a later record makes the same entry as if there had been none. -/
theorem delivers_to_each (start : Hub) (acts : List Act) :
    let h := start.after acts
    h.minimum = acts.foldl Act.minimum start.minimum ∧
    h.sinks.map Sink.uncounted = (start.sinks ++ acts.flatMap Act.added).map Sink.uncounted ∧
    (∀ i : Nat, h.sinks[i]? =
      ((start.sinks ++ acts.flatMap Act.added)[i]?).map (·.afterWrites (received i start acts))) ∧
    ∀ (now : Int) (logger : Text) (r : Record),
      (∀ code outside, r.level = .unlisted code outside →
        h.emit now logger r = ⟨h, [], some (.unknownLevel code)⟩) ∧
      (∀ severity, r.level.severity = .ok severity ↔ (r.level, severity) ∈ Level.gradings) ∧
      (∀ severity, r.level.severity = .ok severity →
        severity = .off ∨ severity.code < h.minimum.code → h.emit now logger r = ⟨h, [], none⟩) ∧
      (∀ severity, r.level.severity = .ok severity → severity ≠ .off →
        h.minimum.code ≤ severity.code →
        ∃ (e : Entry) (out : Effect (List Sink) Thrown),
          e = { severity := severity, logger := logger, message := r.message, instant := now,
                fields := r.fields, exception := r.exception.map Exception.report } ∧
          Delivered e h.sinks out ∧
          h.emit now logger r =
            ⟨{ h with sinks := out.state }, out.events, out.stopped.map .outside⟩ ∧
          ∀ s : Sink, s.minimum = .off → ¬ s.Wants e) ∧
      ∀ later, let next := (h.emit now logger r).state.after later
        next.minimum = (h.after later).minimum ∧
        next.sinks.map Sink.uncounted = (h.after later).sinks.map Sink.uncounted ∧
        ∀ now' logger' r',
          next.entryFor? now' logger' r' = (h.after later).entryFor? now' logger' r' := by
  intro h
  refine ⟨start.minimum_after acts, start.uncounted_after acts, start.getElem?_after acts, ?_⟩
  intro now logger r
  refine ⟨?_, fun severity => Level.severity_eq_ok_iff, ?_, ?_, ?_⟩
  · intro code outside hr
    exact emit_of_unlisted hr now logger
  · intro severity hr hd
    exact emit_of_dropped hr hd now logger
  · intro severity hr hoff hp
    refine ⟨entryOf severity now logger r, writeAll (entryOf severity now logger r) h.sinks, rfl,
      delivered_writeAll hoff h.sinks, emit_of_passed hr hoff hp now logger, ?_⟩
    intro s hs hwants
    have hlt : severity.code < s.minimum.code := by
      rw [hs]
      exact code_lt_off hr hoff
    exact absurd hwants (Int.not_le.mpr hlt)
  · intro later next
    have hminimum : next.minimum = (h.after later).minimum := by
      rw [minimum_after, minimum_after, minimum_emit]
    refine ⟨hminimum, ?_, entryFor?_congr hminimum⟩
    rw [uncounted_after, uncounted_after, List.map_append, List.map_append, uncounted_emit]

/-- The first of two sinks throws at its first entry, which the second does not get, and takes the
next one.  A third, which asks for more, gets neither. -/
example :
    let h : Hub := { sinks :=
      [.ofEntryCallback (some ⟨ascii "a", fun n => if n = 0 then some .foreign else none, 0⟩),
        .ofEntryCallback (some (.steady (ascii "b"))),
        { Sink.ofEntryCallback (some (.steady (ascii "c"))) with minimum := .error }] }
    let acts : List Act :=
      [.emit 7 [] { message := ascii "x", level := .info },
        .emit 8 [] { message := ascii "y", level := .warning }]
    [0, 1, 2].map (fun i => (received i h acts).map (·.message)) =
      [[ascii "x", ascii "y"], [ascii "y"], []] := by
  decide

end Hub

end TraceContract
