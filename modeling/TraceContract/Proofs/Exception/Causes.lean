import TraceContract.Exception.Report

/-!
# What a report keeps of the causes

An exception may have any number of causes, one behind the other.  The last of them is an exception
that cannot hold a cause, one that could and holds none, or something that is no exception.  A
report keeps the first twenty, and whether there are more.

* `Exception.payloads`: all that lies behind an exception, the outermost first, and
  `Exception.links_eq`: what can be kept of it.
* `Exception.hasCause_iff_of_chain`: an exception has a cause where something lies behind it.
* `Exception.walkNoting_eq`: whom the walk along the causes asks, and what it finds in the room that
  it has.
* `Exception.report_keeps_twenty`: the report of every exception.
-/

namespace TraceContract

namespace Thrown

def exception? : Thrown → Option Exception
  | exception e => some e
  | foreign => none

/-- What is kept of something thrown: an exception's type and message, up to the first zero byte
or with a remark in its place, and of anything else that it is unknown. -/
def asCause : Thrown → Cause
  | exception e => ⟨e.typeName, e.what.elim (ascii "(no message)") Text.terminated⟩
  | foreign => ⟨ascii "unknown exception", []⟩

theorem asCause_exception (e : Exception) : asCause (exception e) = e.asCause := by
  rw [asCause, Exception.asCause, Exception.message]
  cases e.what with
  | none => rfl
  | some text => rfl

end Thrown

namespace Exception

/-- All that lies behind an exception, the outermost first. -/
def payloads : Exception → List Thrown
  | root _ _ | hollow _ _ => []
  | causedByForeign _ _ => [.foreign]
  | causedBy _ _ cause => .exception cause :: cause.payloads

theorem links_eq (e : Exception) : e.links = e.payloads.map Thrown.asCause := by
  induction e with
  | root typeName what => rfl
  | hollow typeName what => rfl
  | causedByForeign typeName what => rfl
  | causedBy typeName what cause ih =>
    rw [links, payloads, List.map_cons, Thrown.asCause_exception, ih]

theorem hasCause_iff (e : Exception) : e.hasCause = true ↔ e.payloads ≠ [] := by
  cases e with
  | root typeName what => simp [hasCause, payloads]
  | hollow typeName what => simp [hasCause, payloads]
  | causedByForeign typeName what => simp [hasCause, payloads]
  | causedBy typeName what cause => simp [hasCause, payloads]

theorem payloads_of_chain {e x : Exception} {before after : List Thrown}
    (h : .exception e :: e.payloads = before ++ .exception x :: after) : x.payloads = after := by
  induction e generalizing before with
  | causedBy typeName what cause ih =>
    cases before with
    | nil =>
      obtain ⟨hfirst, hrest⟩ := List.cons.inj h
      rw [← Thrown.exception.inj hfirst]
      exact hrest
    | cons first before => exact ih (List.cons.inj h).2
  | _ =>
    cases before with
    | nil =>
      obtain ⟨hfirst, hrest⟩ := List.cons.inj h
      rw [← Thrown.exception.inj hfirst]
      exact hrest
    | cons first before =>
      have hrest := (List.cons.inj h).2
      rw [payloads] at hrest
      cases before <;> simp at hrest

theorem hasCause_iff_of_chain {e x : Exception} {before after : List Thrown}
    (h : .exception e :: e.payloads = before ++ .exception x :: after) :
    x.hasCause = true ↔ after ≠ [] := by
  rw [hasCause_iff, payloads_of_chain h]

/-- **The walk finds as many causes as it has room for**, and whether it left some.  One exception
is asked, and one more for each cause that there is room for. -/
theorem walkNoting_eq (e : Exception) (room : Nat) :
    e.walkNoting room =
      ((e :: e.payloads.filterMap Thrown.exception?).take (room + 1), e.links.take room,
        decide (room < e.links.length)) := by
  induction e generalizing room with
  | root typeName what => simp [walkNoting, payloads, links]
  | hollow typeName what => simp [walkNoting, payloads, links]
  | causedByForeign typeName what =>
    cases room with
    | zero => rfl
    | succ room => simp [walkNoting, payloads, links, Thrown.exception?]
  | causedBy typeName what cause ih =>
    cases room with
    | zero => simp [walkNoting, links]
    | succ room => simp [walkNoting, payloads, links, Thrown.exception?, ih]

/-! ### The report -/

theorem report_eq (e : Exception) :
    e.report = ⟨e.typeName, e.message, e.links.take 20, decide (20 < e.links.length)⟩ := by
  rw [report, walk, walkNoting_eq]
  rfl

/-- **A report keeps the first twenty causes**, and tells whether there are more.

It has the exception's type and message, and of every cause up to the twentieth the same, the
outermost first.  The causes end with one that is no exception, which is kept as unknown, or with an
exception that has no cause, be it that it cannot hold one or that it holds none.  Exceptions of one
type and message whose first twenty-one causes look alike have the same report, and the walk that
finds the causes asks no exception behind the twentieth. -/
theorem report_keeps_twenty (e : Exception) :
    e.report =
      { typeName := e.typeName
        message := e.what.elim (ascii "(no message)") Text.terminated
        causes := (e.payloads.take 20).map Thrown.asCause
        truncated := decide (20 < e.payloads.length) } ∧
    (∀ before x after, Thrown.exception e :: e.payloads = before ++ .exception x :: after →
      (x.hasCause = true ↔ after ≠ [])) ∧
    (∀ other : Exception, other.typeName = e.typeName → other.message = e.message →
      (other.payloads.take 21).map Thrown.asCause = (e.payloads.take 21).map Thrown.asCause →
      other.report = e.report) ∧
    (e.walkNoting causeLimit).1 = (e :: e.payloads.filterMap Thrown.exception?).take 21 := by
  refine ⟨?_, fun before x after => hasCause_iff_of_chain, ?_, ?_⟩
  · have hmessage : e.message = e.what.elim (ascii "(no message)") Text.terminated :=
      congrArg Cause.message (Thrown.asCause_exception e).symm
    rw [report_eq, hmessage, links_eq, List.map_take, List.length_map]
  · intro other htype hmessage hlinks
    rw [List.map_take, List.map_take, ← links_eq, ← links_eq] at hlinks
    have htake : other.links.take 20 = e.links.take 20 := by
      have := congrArg (List.take 20) hlinks
      rwa [List.take_take, List.take_take] at this
    have hmore : 20 < other.links.length ↔ 20 < e.links.length := by
      have := congrArg List.length hlinks
      rw [List.length_take, List.length_take] at this
      omega
    rw [report_eq, report_eq, htype, hmessage, htake]
    simp only [hmore]
  · rw [walkNoting_eq]
    rfl

/-- The twentieth cause is kept whatever it is, and the twenty-first is left out. -/
example :
    (Nat.repeat (causedBy [] none) 19 (causedByForeign [] none)).report.truncated = false ∧
    (Nat.repeat (causedBy [] none) 20 (causedByForeign [] none)).report.truncated = true ∧
    (Nat.repeat (causedBy [] none) 20 (hollow [] none)).report.truncated = false ∧
    (Nat.repeat (causedBy [] none) 21 (hollow [] none)).report.truncated = true := by
  decide

end Exception

end TraceContract
