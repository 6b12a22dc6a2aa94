import TraceContract.Proofs.Exception.Causes
import TraceContract.Value

/-!
# The wording of a report

A report is worded in two ways.  `Report.describe` writes the summary and puts a text of the
caller's choice in front of each cause; `Report.chain` writes the causes alone and puts a line break
in front of a cause wherever it finds something written.  Both join the same lines,

    describe before = summary ++ before ++ line ++ … ++ before ++ line
    chain           = line ++ newline ++ … ++ newline ++ line

but the second only as long as something is written after the first line, that is, as long as that
line is not empty.

* `Cause.line_eq_nil_iff`: a line is empty only for a cause without a type.
* `Report.chainFrom_eq`: once something is written, every cause gets its line break.
* `Exception.typeName_ne_nil_of_mem_causes`: the causes in the report of an exception have types.
* `Report.joins_lines`: both wordings for every report, and what they show of every exception.
-/

namespace TraceContract

theorem Text.intercalate_cons (separator first : Text) (rest : List Text) :
    List.intercalate separator (first :: rest) = first ++ rest.flatMap (separator ++ ·) := by
  induction rest generalizing first with
  | nil => rw [List.intercalate_singleton, List.flatMap_nil, List.append_nil]
  | cons second rest ih =>
    rw [List.intercalate_cons_cons, ih, List.flatMap_cons]
    simp only [List.append_assoc]

namespace Cause

theorem line_eq_nil_iff (c : Cause) : c.line = [] ↔ c.typeName = [] ∧ c.message = [] := by
  rw [line]
  by_cases hmessage : c.message = []
  · rw [if_pos hmessage]
    exact ⟨fun h => ⟨h, hmessage⟩, fun h => h.1⟩
  · rw [if_neg hmessage]
    refine ⟨fun h => ?_, fun h => absurd h.2 hmessage⟩
    exact absurd (List.append_eq_nil_iff.mp h).2 hmessage

end Cause

namespace Exception

/-- What a report keeps of a cause has a type, if the exceptions behind the one reported have. -/
theorem typeName_ne_nil_of_mem_causes {e : Exception}
    (h : ∀ behind, .exception behind ∈ e.payloads → behind.typeName ≠ []) {c : Cause}
    (hc : c ∈ e.report.causes) : c.typeName ≠ [] := by
  have hlink : c ∈ e.links := by
    rw [report_eq] at hc
    exact List.mem_of_mem_take hc
  rw [links_eq] at hlink
  obtain ⟨thrown, hthrown, rfl⟩ := List.mem_map.mp hlink
  cases thrown with
  | exception behind => exact h behind hthrown
  | foreign => exact show ascii "unknown exception" ≠ [] by decide

theorem describe_eq_summary (e : Exception) : e.describe = e.report.summary := by
  rw [report_eq, describe, Report.summary]

end Exception

namespace Report

theorem chainFrom_eq {written : Text} (h : written ≠ []) (causes : List Cause) :
    chainFrom written causes =
      written ++ (causes.map Cause.line).flatMap ([Text.newline] ++ ·) := by
  induction causes generalizing written with
  | nil => rw [chainFrom, List.map_nil, List.flatMap_nil, List.append_nil]
  | cons cause causes ih =>
    have hnext : written ++ [Text.newline] ++ cause.line ≠ [] := by simp
    rw [chainFrom, if_neg h, ih hnext, List.map_cons, List.flatMap_cons]
    simp only [List.append_assoc]

/-- **The chain joins the lines of the causes**, if the first of them is not empty. -/
theorem chain_eq {r : Report} (h : ∀ c ∈ r.causes.head?, c.line ≠ []) :
    r.chain = List.intercalate [Text.newline] (r.causes.map Cause.line) := by
  rw [chain]
  cases hcauses : r.causes with
  | nil => rfl
  | cons first rest =>
    have hfirst : first.line ≠ [] := h first (by rw [hcauses]; rfl)
    rw [chainFrom, if_pos rfl, List.nil_append, chainFrom_eq hfirst, List.map_cons,
      Text.intercalate_cons]

/-- An empty first line gets lost with its line break. -/
example : chainFrom [] [⟨[], []⟩, ⟨ascii "E", ascii "m"⟩] = ascii "E: m" := by decide

def marks (r : Report) : List Text := if r.truncated then [ascii "..."] else []

/-- **The description joins the summary, the lines of the causes and the mark.** -/
theorem describe_eq (before : Text) (r : Report) :
    r.describe before =
      List.intercalate before (r.summary :: (r.causes.map Cause.line ++ r.marks)) := by
  rw [Text.intercalate_cons, List.flatMap_append, List.flatMap_map, describe, marks,
    List.append_assoc]
  cases r.truncated with
  | false => rfl
  | true => rw [if_pos rfl, if_pos rfl, List.flatMap_singleton]

theorem flatMap_newline (causes : List Cause) :
    (causes.map Cause.line).flatMap ([Text.newline] ++ ·) =
      if causes = [] then []
      else Text.newline :: List.intercalate [Text.newline] (causes.map Cause.line) := by
  cases causes with
  | nil => rfl
  | cons first rest =>
    rw [if_neg (List.cons_ne_nil first rest), List.map_cons, Text.intercalate_cons,
      List.flatMap_cons]
    rfl

/-- **Both wordings of a report join its lines.**

If every cause of a report has a type, the description is the summary, the lines of the causes in
order and the mark of a report cut short, joined with the text of the caller's choice; the chain is
the lines alone, joined with line breaks; and the description with line breaks is the summary, the
chain on lines of its own, and the mark on the last.  The causes that are kept of an exception have
types, if the exceptions themselves have, for what is no exception is kept under a type of its own.
Of every exception the text in a message is the summary of its report, with which every description
begins. -/
theorem joins_lines :
    (∀ (r : Report) (before : Text), (∀ c ∈ r.causes, c.typeName ≠ []) →
      r.describe before =
        List.intercalate before
          (r.summary :: (r.causes.map Cause.line ++ if r.truncated then [ascii "..."] else [])) ∧
      r.chain = List.intercalate [Text.newline] (r.causes.map Cause.line) ∧
      r.describe [Text.newline] =
        r.summary ++ (if r.causes = [] then [] else Text.newline :: r.chain) ++
          (if r.truncated then Text.newline :: ascii "..." else [])) ∧
    (∀ e : Exception, (∀ behind, .exception behind ∈ e.payloads → behind.typeName ≠ []) →
      ∀ c ∈ e.report.causes, c.typeName ≠ []) ∧
    (∀ (e : Exception) (handle : Nat) (before : Text),
      e.describe = e.report.summary ∧
      (Value.exception handle e).render = .ok e.report.summary ∧
      e.report.summary <+: e.report.describe before) := by
  refine ⟨fun r before htypes => ?_, fun e htypes c hc => ?_, fun e handle before => ?_⟩
  · have hchain : r.chain = List.intercalate [Text.newline] (r.causes.map Cause.line) := by
      refine chain_eq fun c hc hline => ?_
      exact htypes c (List.mem_of_mem_head? hc) ((c.line_eq_nil_iff).mp hline).1
    refine ⟨describe_eq before r, hchain, ?_⟩
    rw [describe_eq, Text.intercalate_cons, List.flatMap_append, flatMap_newline, ← hchain,
      marks, List.append_assoc]
    cases r.truncated <;> rfl
  · exact Exception.typeName_ne_nil_of_mem_causes htypes hc
  · refine ⟨e.describe_eq_summary, ?_, ?_⟩
    · rw [← e.describe_eq_summary]
      rfl
    · rw [describe_eq, Text.intercalate_cons]
      exact List.prefix_append _ _

/-- An exception behind which there is one without a message and, at the end, none at all. -/
def relayed : Exception :=
  .causedBy (ascii "A") (some (ascii "late")) (.causedBy (ascii "B") (some [])
    (.causedByForeign (ascii "C") none))

/-- The cause whose message is empty has its type on its line, and the last the name for what is
unknown. -/
theorem joins_lines_relayed :
    (∀ c ∈ relayed.report.causes, c.typeName ≠ []) ∧
      relayed.report.describe (ascii " <- ") =
        ascii "A: late <- B <- C: (no message) <- unknown exception" ∧
      relayed.report.chain = ascii "B\nC: (no message)\nunknown exception" := by
  obtain ⟨hjoins, htypes, -⟩ := joins_lines
  have hcauses : ∀ c ∈ relayed.report.causes, c.typeName ≠ [] := by
    refine htypes relayed fun behind hbehind => ?_
    simp only [relayed, Exception.payloads, List.mem_cons, Thrown.exception.injEq, reduceCtorEq,
      List.not_mem_nil, or_false] at hbehind
    rcases hbehind with rfl | rfl
    · exact List.cons_ne_nil _ _
    · exact List.cons_ne_nil _ _
  obtain ⟨hdescribe, hchain, -⟩ := hjoins relayed.report (ascii " <- ") hcauses
  exact ⟨hcauses, hdescribe.trans (by decide), hchain.trans (by decide)⟩

end Report

end TraceContract
