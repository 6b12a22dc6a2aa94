import TraceContract.Session.Step

/-!
# The state of a session

A session has named things of every sort, and the process that they live in.  Here stand the ways
to name a thing and to find what a step names.
-/

namespace TraceContract

/-- The things that a session has named, and the process that they live in. -/
structure Session where
  process : Process := {}
  sinks : Directory Handle := []
  setups : Directory Setup := []
  registries : Directory Registry := []
  compilations : Directory Compilation := []
  traces : Directory Trace := []
  spans : Directory Span := []
  /-- The plan of the factory that was installed last. -/
  plan : Option FactoryPlan := none
  shared : Registry := {}
  compiled : Nat := 0

namespace Session

def within (s : Session) (p : Process) : Session := { s with process := p }

def refusalOf : Failure → Answer
  | .absent => .missing
  | failure => .failed failure

def answerOf : Except Failure Unit → Answer
  | .ok () => .done
  | .error failure => refusalOf failure

def nameSink (s : Session) (name : Text) (p : Process) (h : Handle) : Session :=
  { s with process := p, sinks := s.sinks.put name h }

def nameSink? (s : Session) (name : Option Text) (h : Handle) : Session :=
  match name with
  | none => s
  | some name => { s with sinks := s.sinks.put name h }

/-- Lets a span go. -/
def letGo (s : Session) (span : Span) : Session × Except Failure Unit :=
  let (p, outcome) := span.release s.process
  (s.within p, outcome)

/-- The session with a span under a name, and an answer; the span that had the name is let go. -/
def nameSpan (s : Session) (name : Text) (span : Span) (answer : Answer) : Session × Answer :=
  let named := { s with spans := s.spans.put name span }
  match s.spans.get? name with
  | none => (named, answer)
  | some old =>
    match named.letGo old with
    | (s, .error failure) => (s, .failed failure)
    | (s, .ok ()) => (s, answer)

def hub? (s : Session) (name : Text) : Option (Handle × Hub) :=
  match s.sinks.get? name with
  | none => none
  | some h =>
    match s.process.adapters[h]? with
    | some (.hub hub) => some (h, hub)
    | _ => none

def tellHub (hub : Hub) : Answer := .hubState hub.sinks.length hub.minimum

def changeHub (s : Session) (name : Text) (change : Hub → Hub) : Session × Answer :=
  match s.hub? name with
  | none => (s, .missing)
  | some (h, hub) => (s.within (s.process.put h (.hub (change hub))), tellHub (change hub))

/-- The sink of a name that may be left out: nothing where it names no sink that there is. -/
def sink? (s : Session) : Option Text → Option (Option Handle)
  | none => some none
  | some name => (s.sinks.get? name).map some

/-! ## The factory

The names in a plan are looked up when the factory is called, so that a name stands for the last
thing that was made under it.  No step makes or names a thing while the factory runs, so it is
enough that each step begins with the factory that the plan describes at that point. -/

def plannedSink (s : Session) (plan : FactoryPlan) (logger : Text) :
    Except Failure (Option Handle) :=
  match s.sink? (plan.sinkName logger) with
  | none => .error .absent
  | some sink => .ok sink

/-- What the factory of a plan does before it answers. -/
def plannedErrands (s : Session) (plan : FactoryPlan) : List Errand :=
  match plan.call with
  | none => []
  | some (trace, operation, arguments) =>
    match s.traces.get? trace with
    | none => [.fail .absent]
    | some t => [.log t operation arguments]

/-- The factory that a plan describes, after it was asked some times. -/
def plannedFactory (s : Session) (plan : FactoryPlan) (asked : Nat) : OutsideFactory :=
  { label := plan.label
    errands := s.plannedErrands plan
    answer := fun call logger =>
      if call < plan.failures then .error (.outside plan.thrown) else s.plannedSink plan logger
    asked := asked }

/-- The session with a factory that knows what the names of its plan stand for now. -/
def informed (s : Session) : Session :=
  match s.plan, s.process.factory with
  | some plan, some (.outside f) =>
    s.within { s.process with factory := some (.outside (s.plannedFactory plan f.asked)) }
  | _, _ => s

/-! ## Contracts, traces and spans -/

def nameCompilation (s : Session) (name : Option Text) (c : Compilation) : Session :=
  match name with
  | none => s
  | some name => { s with compilations := s.compilations.put name c }

def tellCompilation (s : Session) (c : Compilation) : CompilationInfo :=
  ⟨c.contract.name, c.contract.operations.length,
    s.compilations.namesWhere (·.number = c.number)⟩

/-- Compiles a contract that no registry keeps. -/
def compileAlone (s : Session) (d : ContractDecl) : Session × Except Failure Compilation :=
  match Contract.compile d with
  | .error e => (s, .error (.declaration e))
  | .ok contract => ({ s with compiled := s.compiled + 1 }, .ok ⟨s.compiled, contract⟩)

/-- The contract of a trace to be made: nothing where it is named and there is none. -/
def source? (s : Session) :
    ContractSource → Option (Session × Except Failure (Option Compilation))
  | .missing => some (s, .ok none)
  | .named name => (s.compilations.get? name).map fun c => (s, .ok (some c))
  | .declared d =>
    match s.compileAlone d with
    | (s, .error failure) => some (s, .error failure)
    | (s, .ok c) => some (s, .ok (some c))

def makeTrace (s : Session) (name : Text) (c : Option Compilation) (owner : Text)
    (sink : Option Handle) (answer : Answer) : Session × Answer :=
  match Trace.make c owner sink with
  | .error failure => (s, .failed failure)
  | .ok t => ({ s with traces := s.traces.put name t }, answer)

/-- Binds a contract of the registry of the process. -/
def bindShared (s : Session) (name key : Text) (d : ContractDecl) (owner : Text)
    (sink : Option Handle) : Session × Answer :=
  let o := s.shared.obtain key (fun _ => .ok d) s.compiled
  let s := { s with shared := o.registry, compiled := s.compiled + 1 }
  match o.result with
  | .error failure => (s, .failed failure)
  | .ok c => s.makeTrace name (some c) owner sink (.owner owner)

def withSpan (s : Session) (name : Text) (act : Span → Session × Answer) : Session × Answer :=
  match s.spans.get? name with
  | none => (s, .missing)
  | some span => act span

def beginSpan (s : Session) (name : Text) : Process × Except Failure Span → Session × Answer
  | (p, .error failure) => (s.within p, refusalOf failure)
  | (p, .ok span) => (s.within p).nameSpan name span (.span span)

end Session

end TraceContract
