import TraceContract.Proofs.Process.Deferral
import TraceContract.Setup

/-!
# A setup builds once

A program gathers a minimum and sinks in a setup and builds a hub from what it gathered.  In between
it may do whatever else it does.  Some calls of a setup are refused,

    limit    to a code that stands for no level
    writeTo  no sink
    build    once more

and a refused call leaves the setup and the process as they were.

* `Setup.gathered`: what a setup holds, read off the calls so far, as long as nothing is built.
* `Setup.setup_after` and `Setup.process_after`: so it is with a setup, and a setup that is built
  touches the process no more.
* `Setup.builds_once`: what becomes of a setup, and of the adapters that wait for a sink.
-/

namespace TraceContract

namespace Setup

/-- What a program does that has a setup: a call of the setup, or anything else. -/
inductive Move where
  | limit (level : Level)
  | writeTo (sink : Option Sink)
  | build
  | other (act : Process.Act)

structure Site where
  process : Process
  setup : Setup

namespace Site

def move (x : Site) : Move → Site
  | .limit level => { x with setup := (x.setup.limit level).1 }
  | .writeTo sink => { x with setup := (x.setup.writeTo sink).1 }
  | .build =>
    { process := (x.setup.build x.process).1, setup := (x.setup.build x.process).2.1 }
  | .other act => { x with process := x.process.act act }

def after (x : Site) (moves : List Move) : Site := moves.foldl move x

theorem after_append (x : Site) (moves later : List Move) :
    x.after (moves ++ later) = (x.after moves).after later :=
  List.foldl_append

end Site

/-! ### What a setup gathers -/

def Move.minimum? : Move → Option Severity
  | .limit level =>
    match level.severity with
    | .error _ => none
    | .ok minimum => some minimum
  | _ => none

def Move.sink? : Move → Option Sink
  | .writeTo sink => sink
  | _ => none

def Move.act? : Move → Option Process.Act
  | .other act => some act
  | _ => none

/-- The last minimum that was given, or that of all entries. -/
def minimumOf (moves : List Move) : Severity :=
  (moves.filterMap Move.minimum?).getLast?.getD .trace

def sinksOf (moves : List Move) : List Sink := moves.filterMap Move.sink?

def actsOf (moves : List Move) : List Process.Act := moves.filterMap Move.act?

/-- The setup that nothing is built from yet. -/
def gathered (moves : List Move) : Setup :=
  { minimum := minimumOf moves, sinks := sinksOf moves }

theorem minimumOf_concat (moves : List Move) (m : Move) :
    minimumOf (moves ++ [m]) = m.minimum?.getD (minimumOf moves) := by
  rw [minimumOf, List.filterMap_append, List.filterMap_eq_flatMap_toList _ [m],
    List.flatMap_singleton]
  cases m.minimum? with
  | none => rw [Option.toList_none, List.append_nil]; rfl
  | some minimum => rw [Option.toList_some, List.getLast?_concat]; rfl

theorem sinksOf_concat (moves : List Move) (m : Move) :
    sinksOf (moves ++ [m]) = sinksOf moves ++ m.sink?.toList := by
  rw [sinksOf, List.filterMap_append, List.filterMap_eq_flatMap_toList _ [m],
    List.flatMap_singleton, sinksOf]

theorem actsOf_cons (m : Move) (moves : List Move) :
    actsOf (m :: moves) = m.act?.toList ++ actsOf moves := by
  rw [actsOf, List.filterMap_eq_flatMap_toList, List.flatMap_cons,
    ← List.filterMap_eq_flatMap_toList, actsOf]

variable {x y : Site} {moves : List Move}

theorem setup_move (hx : x.setup = gathered moves) {m : Move} (hm : m ≠ .build) :
    (x.move m).setup = gathered (moves ++ [m]) := by
  have hkept (minimum : Severity) : ({ minimum, sinks := sinksOf moves } : Setup) =
      { minimum, sinks := sinksOf moves ++ [] } := by
    rw [List.append_nil]
  rw [gathered, minimumOf_concat, sinksOf_concat]
  cases m with
  | build => exact absurd rfl hm
  | other act => rw [Site.move, hx]; exact hkept _
  | writeTo sink =>
    cases sink with
    | none => rw [Site.move, writeTo, hx]; exact hkept _
    | some sink => rw [Site.move, writeTo, hx]; rfl
  | limit level =>
    rw [Site.move, limit, Move.minimum?, hx]
    cases level.severity with
    | error failure => exact hkept _
    | ok minimum => exact hkept minimum

/-- **As long as nothing is built, a setup holds what was given to it.** -/
theorem setup_after (p : Process) (hfirst : Move.build ∉ moves) :
    (Site.after { process := p, setup := {} } moves).setup = gathered moves := by
  induction moves using List.reverseRecOn with
  | nil => rfl
  | append_singleton moves m ih =>
    have hbefore : Move.build ∉ moves := fun hmem => hfirst (List.mem_append_left [m] hmem)
    have hm : m ≠ .build := by
      rintro rfl
      exact hfirst (List.mem_append_right moves List.mem_cons_self)
    rw [Site.after_append]
    exact setup_move (ih hbefore) hm

/-! ### A setup that is built -/

theorem built_move (hb : x.setup.built = true) (m : Move) :
    (x.move m).setup.built = true ∧ (x.move m).process = x.process.after m.act?.toList := by
  cases m with
  | other act => exact ⟨hb, rfl⟩
  | build =>
    rw [Site.move, build, if_pos hb]
    exact ⟨hb, rfl⟩
  | writeTo sink =>
    cases sink with
    | none => exact ⟨hb, rfl⟩
    | some sink => exact ⟨hb, rfl⟩
  | limit level =>
    rw [Site.move, limit]
    cases level.severity with
    | error failure => exact ⟨hb, rfl⟩
    | ok minimum => exact ⟨hb, rfl⟩

/-- **A setup that is built does nothing more**: the process goes on as if there were none. -/
theorem process_after (hb : x.setup.built = true) (moves : List Move) :
    (x.after moves).setup.built = true ∧
      (x.after moves).process = x.process.after (actsOf moves) := by
  induction moves generalizing x with
  | nil => exact ⟨hb, rfl⟩
  | cons m rest ih =>
    obtain ⟨hstill, hprocess⟩ := built_move hb m
    obtain ⟨hbuilt, hafter⟩ := ih hstill
    rw [actsOf_cons, Process.after_append, ← hprocess]
    exact ⟨hbuilt, hafter⟩

/-! ### The hub that is built -/

theorem hub_sinks_of_nil {s : Setup} (h : s.sinks = []) : s.hub.sinks = [.console] := by
  rw [hub, h]

theorem hub_sinks_of_ne_nil {s : Setup} (h : s.sinks ≠ []) : s.hub.sinks = s.sinks := by
  rw [hub]
  split
  next hnil => exact absurd hnil h
  next => rfl

/-- A code that stands for no level is refused, every other gives a minimum. -/
theorem limit_ofCode (s : Setup) (code : Int) :
    (code < 0 ∨ 4 < code → s.limit (.ofCode code) = (s, .error (.unknownLevel code))) ∧
    (¬(code < 0 ∨ 4 < code) → ∃ minimum, (Level.ofCode code).severity = .ok minimum ∧
      s.limit (.ofCode code) = ({ s with minimum }, .ok ())) := by
  constructor
  · intro houtside
    rw [Level.ofCode, dif_pos houtside]
    rfl
  · intro hlisted
    rw [Level.ofCode, dif_neg hlisted]
    split
    · exact ⟨.off, rfl, rfl⟩
    · exact ⟨.debug, rfl, rfl⟩
    · exact ⟨.info, rfl, rfl⟩
    · exact ⟨.warn, rfl, rfl⟩
    · exact ⟨.error, rfl, rfl⟩

theorem settles_on_hub {q : Process} {h : Handle} {hub : Hub}
    (hf : q.factory = some (.constant h)) (hh : q.adapters[h]? = some (.hub hub))
    {acts : List Process.Act} (hkeep : ∀ act ∈ acts, act.KeepsFactory) :
    (q.after acts).factory = some (.constant h) ∧
    (∃ hub', (q.after acts).adapters[h]? = some (.hub hub')) ∧
    ∀ k name, (q.after acts).adapters[k]? = some (.deferred name .open) →
      (∀ logger r, (q.after acts).emit k logger r =
        ((q.after acts).put k (.deferred name (.settled h))).emit h logger r) ∧
      ∀ next target, (∀ act ∈ next, act.KeepsFactory) →
        ((q.after acts).after next).adapters[k]? = some (.deferred name (.settled target)) →
        target = h := by
  have hstill := Process.factory_after_of_constant hf hkeep
  refine ⟨hstill, ?_, ?_⟩
  · obtain ⟨b, hb, hbecomes⟩ := Process.becomes_after hh acts
    cases hbecomes with
    | hub _ hub' => exact ⟨hub', hb⟩
  · intro k name ho
    refine ⟨Process.emit_of_constant hstill ho, ?_⟩
    intro next target hnext hs
    have hu := Process.undisturbed_of_constant hstill hnext
    exact Process.target_of_constant hstill ho hnext hu hs

/-- **A setup builds once**, whatever the program does with it before and after, in any order.

Every level has the severity of its name, `none` that of nothing.  A code that stands for no level
and a sink that is missing are refused, and the setup is as it was.
The first build gives a hub and installs it for all loggers.  The hub has the sinks that were added
by then, in their order, or the console where there is none, and the last minimum that was given by
then, or that of all entries.  Every later build is refused, and nothing changes by it, nor does the
process change by any other call of the setup from then on.

As long as the program installs no other factory, an adapter that asks for its sink after the first
build is settled on the hub that was built, and the record that made it ask goes there. -/
theorem builds_once (p : Process) {before : List Move} (hfirst : Move.build ∉ before) {x y : Site}
    (hx : Site.after { process := p, setup := {} } before = x) (hy : x.move .build = y) :
    (∀ (level : Level) minimum,
      level.severity = .ok minimum ↔ (level, minimum) ∈ Level.gradings) ∧
    (∀ (s : Setup) (code : Int),
      (code < 0 ∨ 4 < code → s.limit (.ofCode code) = (s, .error (.unknownLevel code))) ∧
      (¬(code < 0 ∨ 4 < code) → ∃ minimum, (Level.ofCode code).severity = .ok minimum ∧
        s.limit (.ofCode code) = ({ s with minimum }, .ok ()))) ∧
    (∀ s : Setup, s.writeTo none = (s, .error .sinkRequired)) ∧
    ∃ (h : Handle) (hub : Hub),
      x.setup.build x.process = (y.process, y.setup, .ok h) ∧
      (y.process = { x.process with
        adapters := x.process.adapters ++ [.hub hub], factory := some (.constant h) }) ∧
      y.process.adapters[h]? = some (.hub hub) ∧
      hub.minimum = minimumOf before ∧
      (sinksOf before = [] → hub.sinks = [.console]) ∧
      (sinksOf before ≠ [] → hub.sinks = sinksOf before) ∧
      (∀ later,
        (y.after later).setup.build (y.after later).process =
          ((y.after later).process, (y.after later).setup, .error .builtTwice) ∧
        (y.after later).process = y.process.after (actsOf later)) ∧
      ∀ later, (∀ act ∈ actsOf later, act.KeepsFactory) →
        (y.after later).process.factory = some (.constant h) ∧
        (∃ hub', (y.after later).process.adapters[h]? = some (.hub hub')) ∧
        ∀ k name, (y.after later).process.adapters[k]? = some (.deferred name .open) →
          (∀ logger r, (y.after later).process.emit k logger r =
            ((y.after later).process.put k (.deferred name (.settled h))).emit h logger r) ∧
          ∀ next target, (∀ act ∈ actsOf next, act.KeepsFactory) →
            ((y.after later).after next).process.adapters[k]? =
              some (.deferred name (.settled target)) →
            target = h := by
  have hgathered : x.setup = gathered before := by
    rw [← hx]
    exact setup_after p hfirst
  have hbuild : x.setup.build x.process =
      ({ x.process with
          adapters := x.process.adapters ++ [.hub (gathered before).hub]
          factory := some (.constant x.process.adapters.length) },
        { gathered before with sinks := [], built := true }, .ok x.process.adapters.length) := by
    rw [hgathered]
    rfl
  have hprocess := congrArg Site.process hy
  have hsetup := congrArg Site.setup hy
  rw [Site.move, hbuild] at hprocess hsetup
  have hbuilt : y.setup.built = true := by
    rw [← hsetup]
  have hhub : y.process.adapters[x.process.adapters.length]? =
      some (.hub (gathered before).hub) := by
    rw [← hprocess]
    exact List.getElem?_concat_length
  refine ⟨fun _ _ => Level.severity_eq_ok_iff, limit_ofCode, fun s => rfl,
    x.process.adapters.length, (gathered before).hub, ?_, hprocess.symm, hhub, rfl,
    hub_sinks_of_nil (s := gathered before), hub_sinks_of_ne_nil (s := gathered before), ?_, ?_⟩
  · rw [hbuild, ← hprocess, ← hsetup]
  · intro later
    obtain ⟨hstill, hafter⟩ := process_after hbuilt later
    refine ⟨?_, hafter⟩
    rw [build, if_pos hstill]
  · intro later hkeep
    obtain ⟨hstill, hafter⟩ := process_after hbuilt later
    have hf : y.process.factory = some (.constant x.process.adapters.length) := by
      rw [← hprocess]
    have hall := settles_on_hub hf hhub hkeep
    rw [← hafter] at hall
    obtain ⟨hfactory, hserves, hadapters⟩ := hall
    refine ⟨hfactory, hserves, ?_⟩
    intro k name ho
    obtain ⟨hemit, htarget⟩ := hadapters k name ho
    refine ⟨hemit, ?_⟩
    intro next target hnext hs
    rw [(process_after hstill next).2] at hs
    exact htarget (actsOf next) target hnext hs

/-- Two sinks and two minima, with calls among them that are refused, and an adapter that waits. -/
def twoSinks : List Move :=
  [.writeTo none, .writeTo (some (.ofEntryCallback (some (.steady (ascii "first"))))),
    .limit .warning, .limit (.ofCode 9),
    .writeTo (some (.ofEntryCallback (some (.steady (ascii "second"))))), .limit .info,
    .other (.add (.deferred (ascii "late") .open))]

/-- The hub has both sinks and the second minimum.  A minimum that is given later and a second build
do not touch it, and the adapter `1` is settled on it. -/
theorem builds_once_twoSinks :
    ∃ x y hub, Site.after { process := {}, setup := {} } twoSinks = x ∧ x.move .build = y ∧
      x.setup.build x.process = (y.process, y.setup, .ok 2) ∧
      y.process.adapters[2]? = some (.hub hub) ∧ hub.minimum = .info ∧
      hub.sinks = [.ofEntryCallback (some (.steady (ascii "first"))),
        .ofEntryCallback (some (.steady (ascii "second")))] ∧
      (y.after [.limit .error, .build]).setup.build (y.after [.limit .error, .build]).process =
        (y.process, (y.after [.limit .error, .build]).setup, .error .builtTwice) ∧
      y.process.emit 1 (ascii "late") { message := ascii "hello" } =
        (y.process.put 1 (.deferred (ascii "late") (.settled 2))).emit 2 (ascii "late")
          { message := ascii "hello" } := by
  have hfirst : Move.build ∉ twoSinks := by
    simp [twoSinks]
  obtain ⟨-, -, -, h, hub, hbuild, hprocess, hhub, hminimum, -, hsinks, hlater, hadapters⟩ :=
    builds_once {} hfirst rfl rfl
  obtain rfl : h = 2 := (Except.ok.inj (congrArg (·.2.2) hbuild)).symm
  refine ⟨_, _, hub, rfl, rfl, hbuild, hhub, hminimum, hsinks (List.cons_ne_nil _ _), ?_, ?_⟩
  · exact (hlater [.limit .error, .build]).1
  · exact ((hadapters [] (by simp [actsOf])).2.2 1 (ascii "late") rfl).1 _ _

end Setup

end TraceContract
