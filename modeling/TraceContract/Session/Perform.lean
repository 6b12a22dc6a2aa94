import TraceContract.Session.Basic

/-!
# Doing the steps of a session

- `Session.perform` does one step, each sort of step in a function of its own.
-/

namespace TraceContract

namespace Session

def performSink (s : Session) : SinkStep → Session × Answer
  | .recorder name failing =>
    let recorder := match failing with
      | none => { label := name }
      | some (first, thrown) => Recorder.failingFrom name first thrown
    let (p, h) := s.process.add (.recorder recorder)
    (s.nameSink name p h, .done)
  | .discard name =>
    let (p, h) := s.process.add .discard
    (s.nameSink name p h, .done)
  | .deferred name logger =>
    let (p, h) := s.process.addDeferred logger
    (s.nameSink name p h, .done)
  | .hub name minimum sinks =>
    let hub : Hub := { minimum, sinks }
    let (p, h) := s.process.add (.hub hub)
    (s.nameSink name p h, tellHub hub)
  | .addSink name sink => s.changeHub name (·.addSink sink)
  | .setMinimum name minimum => s.changeHub name (·.setMinimum minimum)
  | .hubState name => s.changeHub name id
  | .emit name logger r =>
    match s.sinks.get? name with
    | none => (s, .missing)
    | some h =>
      let (p, outcome) := s.process.emit h logger r
      (s.within p, answerOf outcome)
  | .write sink e =>
    let r := sink.write e
    (s.within (s.process.saw r.events),
      match r.stopped with
      | some thrown => .failed (.outside thrown)
      | none => .written (sink.accepts e.severity) sink.minimum sink.layout.isSome)
  | .isResolved name =>
    match s.sinks.get? name with
    | none => (s, .missing)
    | some h =>
      (s, match s.process.adapters[h]? with
        | some (.deferred _ (.settled _)) => .truth true
        | some (.deferred _ _) => .truth false
        | _ => .inapplicable)
  | .sameSink a b =>
    match s.sinks.get? a, s.sinks.get? b with
    | some a, some b => (s, .truth (a = b))
    | _, _ => (s, .missing)

def performProcess (s : Session) : ProcessStep → Session × Answer
  | .install none =>
    let (p, outcome) := s.process.install none
    (s.within p, answerOf outcome)
  | .install (some plan) =>
    let (p, outcome) := s.process.install (some (.outside (s.plannedFactory plan 0)))
    ({ s.within p with plan := some plan }, answerOf outcome)
  | .disable => (s.within s.process.disable, .done)
  | .reset => (s.within s.process.reset, .done)
  | .resolve logger name =>
    match s.process.resolve logger with
    | (p, .error failure) => (s.within p, refusalOf failure)
    | (p, .ok h) => ((s.within p).nameSink? name h, .names (s.sinks.namesWhere (· = h)))
  | .configure name => ({ s with setups := s.setups.put name {} }, .done)
  | .limit name level =>
    match s.setups.get? name with
    | none => (s, .missing)
    | some setup =>
      let (setup, outcome) := setup.limit level
      ({ s with setups := s.setups.put name setup }, answerOf outcome)
  | .writeTo name sink =>
    match s.setups.get? name with
    | none => (s, .missing)
    | some setup =>
      let (setup, outcome) := setup.writeTo sink
      ({ s with setups := s.setups.put name setup }, answerOf outcome)
  | .build name sinkName =>
    match s.setups.get? name with
    | none => (s, .missing)
    | some setup =>
      match setup.build s.process with
      | (p, _, .error failure) => (s.within p, .failed failure)
      | (p, built, .ok h) =>
        ({ s.within p with setups := s.setups.put name built }.nameSink? sinkName h,
          tellHub setup.hub)
  | .advance nanoseconds =>
    (s.within { s.process with ticks := s.process.ticks + nanoseconds }, .done)
  | .setTime nanoseconds => (s.within { s.process with now := nanoseconds }, .done)

def performTrace (s : Session) : TraceStep → Session × Answer
  | .registry name => ({ s with registries := s.registries.put name {} }, .done)
  | .compile name key declare compilationName =>
    match s.registries.get? name with
    | none => (s, .missing)
    | some registry =>
      let o := registry.obtain key (fun _ => declare) s.compiled
      let s := { s with registries := s.registries.put name o.registry, compiled := s.compiled + 1 }
      match o.result with
      | .error failure => (s, .compiled o.declared (.error failure))
      | .ok c =>
        (s.nameCompilation compilationName c, .compiled o.declared (.ok (s.tellCompilation c)))
  | .registryState name keys =>
    match s.registries.get? name with
    | none => (s, .missing)
    | some registry => (s, .registryState registry.size (keys.map registry.contains))
  | .sharedContains key => (s, .truth (s.shared.contains key))
  | .describe d => (s, .contract d)
  | .make name source owner sinkName =>
    match s.sink? sinkName with
    | none => (s, .missing)
    | some sink =>
      match s.source? source with
      | none => (s, .missing)
      | some (s, .error failure) => (s, .failed failure)
      | some (s, .ok c) => s.makeTrace name c owner sink .done
  | .bind name key d owner none =>
    let (p, h) := s.process.addDeferred owner
    (s.within p).bindShared name key d owner (some h)
  | .bind name key d owner (some sinkName) =>
    match s.sink? sinkName with
    | none => (s, .missing)
    | some sink => s.bindShared name key d owner sink
  | .info name =>
    match s.traces.get? name with
    | none => (s, .missing)
    | some t =>
      (s, .trace t.owner t.contract.name t.contract.operations.length
        (s.sinks.namesWhere (· = t.sink))
        (s.traces.namesWhere (·.compilation.number = t.compilation.number)))
  | .log name operation arguments =>
    match s.traces.get? name with
    | none => (s, .missing)
    | some t =>
      let (p, outcome) := t.log s.process operation arguments
      (s.within p, answerOf outcome)
  | .start spanName name operation arguments =>
    match s.traces.get? name with
    | none => (s, .missing)
    | some t => s.beginSpan spanName (t.start s.process operation arguments)

def performSpan (s : Session) : SpanStep → Session × Answer
  | .begin name sinkName logger title fields level =>
    match s.sink? sinkName with
    | none => (s, .missing)
    | some sink => s.beginSpan name (Span.begin s.process sink logger title fields level)
  | .close name => s.withSpan name fun span =>
    let (p, span, outcome) := span.close s.process
    ({ s.within p with spans := s.spans.put name span }, answerOf outcome)
  | .drop name => s.withSpan name fun span =>
    let (s, outcome) := { s with spans := s.spans.remove name }.letGo span
    (s, answerOf outcome)
  | .isClosed name => s.withSpan name fun span => (s, .truth span.closed)
  | .state name => s.withSpan name fun span => (s, .span span)
  | .move name target => s.withSpan name fun span =>
    { s with spans := s.spans.put name span.leftover }.nameSpan target span
      (.moved span.leftover.closed span)
  | .unwind name => s.withSpan name fun span =>
    let (s, outcome) := { s with spans := s.spans.put name span.leftover }.letGo span
    (s, answerOf outcome)

def perform (s : Session) (step : Step) : Session × Answer :=
  let s := s.informed
  match step with
  | .sink step => s.performSink step
  | .process step => s.performProcess step
  | .trace step => s.performTrace step
  | .span step => s.performSpan step

end Session

end TraceContract
