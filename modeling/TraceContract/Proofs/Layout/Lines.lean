import TraceContract.Proofs.Exception.Wording
import TraceContract.Proofs.Layout.Texts
import TraceContract.Proofs.Text.Decimals

/-!
# The lines of a plain entry

The plain layout joins lines with line breaks:

    the record, its fields between braces at the end,
    two spaces and the summary of the exception,
    "  caused by " and a cause, for every cause,
    "  caused by ..." where causes are left out.

This holds of every entry (`Plain.text_eq`).  Whether these are the lines that a reader sees is
another matter, for a text of the caller may have line breaks of its own.  The layout adds none: the
wording around the texts has none, nor has any number or truth value.

* `Text.Unbroken`: there is no line break in the text.  `Value.Unbroken` and `Entry.Unbroken` ask
  this of the texts of the caller alone.
* `Value.Unbroken.render`: then it holds of whatever is rendered.  The work is with the numbers,
  `Binary64.unbroken_text` above all.
* `Plain.lines_of_entry`: the lines of an entry that is unbroken.
-/

namespace TraceContract

/-! ### Texts without line breaks -/

namespace Text

def lines (t : Text) : List Text := t.splitOn newline

/-- There is no line break in the text. -/
def Unbroken (t : Text) : Prop := newline ∉ t

instance (t : Text) : Decidable (Unbroken t) := inferInstanceAs (Decidable (newline ∉ t))

variable {s t : Text} {texts : List Text}

theorem unbroken_nil : Unbroken [] := List.not_mem_nil

@[simp] theorem unbroken_append : Unbroken (s ++ t) ↔ Unbroken s ∧ Unbroken t := by
  rw [Unbroken, List.mem_append, not_or]
  rfl

theorem Unbroken.of_sublist (h : Unbroken t) (hs : s.Sublist t) : Unbroken s :=
  fun hmem => h (hs.subset hmem)

theorem unbroken_of_isDigit (h : ∀ b ∈ t, isDigit b = true) : Unbroken t :=
  fun hmem => absurd (h newline hmem) (by decide)

theorem unbroken_decimal (n : Nat) : Unbroken (decimal n) :=
  unbroken_of_isDigit fun _ => isDigit_of_mem_decimal

theorem unbroken_padded (width n : Nat) : Unbroken (padded width n) :=
  unbroken_of_isDigit fun _ => isDigit_of_mem_padded

theorem unbroken_signed (i : Int) : Unbroken (signed i) := by
  rw [signed]
  split
  · exact unbroken_append.mpr ⟨by decide, unbroken_decimal _⟩
  · exact unbroken_decimal _

theorem unbroken_flatMap {α : Type} {f : α → Text} {l : List α} (h : ∀ a ∈ l, Unbroken (f a)) :
    Unbroken (l.flatMap f) := by
  intro hmem
  obtain ⟨a, ha, hnewline⟩ := List.mem_flatMap.mp hmem
  exact h a ha hnewline

theorem unbroken_intercalate (hs : Unbroken s) (h : ∀ t ∈ texts, Unbroken t) :
    Unbroken (List.intercalate s texts) := by
  cases texts with
  | nil => exact unbroken_nil
  | cons first rest =>
    rw [intercalate_cons]
    obtain ⟨hfirst, hrest⟩ := List.forall_mem_cons.mp h
    refine unbroken_append.mpr ⟨hfirst, unbroken_flatMap fun t ht => ?_⟩
    exact unbroken_append.mpr ⟨hs, hrest t ht⟩

/-- Lines that were joined are the lines that are seen, if they have no line breaks of their own. -/
theorem lines_intercalate (h : ∀ t ∈ texts, Unbroken t) (hne : texts ≠ []) :
    lines (List.intercalate [newline] texts) = texts :=
  List.splitOn_intercalate newline h hne

end Text

open Text (Unbroken unbroken_append)

/-! ### Numbers -/

namespace Significant

theorem unbroken_dropFinalZeros {t : Text} (h : Unbroken t) : Unbroken (dropFinalZeros t) := by
  refine h.of_sublist ?_
  have hrest := List.dropWhile_sublist (l := t.reverse) (· == 48)
  rw [← List.reverse_sublist, List.reverse_reverse] at hrest
  exact hrest

theorem unbroken_fraction {t : Text} (h : Unbroken t) : Unbroken (fraction t) := by
  have hrest := unbroken_dropFinalZeros h
  rw [fraction]
  split
  · exact Text.unbroken_nil
  · exact unbroken_append.mpr ⟨by decide, hrest⟩

theorem unbroken_exponentText (exponent : Int) : Unbroken (exponentText exponent) := by
  rw [exponentText]
  refine unbroken_append.mpr ⟨unbroken_append.mpr ⟨unbroken_append.mpr ⟨by decide, ?_⟩, ?_⟩,
    Text.unbroken_decimal _⟩
  · split
    · decide
    · decide
  · split
    · decide
    · decide

theorem unbroken_text (s : Significant) : Unbroken s.text := by
  have hdigits := Text.unbroken_padded precision s.digits
  have htake (n : Nat) := hdigits.of_sublist (List.take_sublist n _)
  have hdrop (n : Nat) := hdigits.of_sublist (List.drop_sublist n _)
  have hzeros (n : Nat) : Unbroken (List.replicate n 48) :=
    fun hmem => absurd (List.eq_of_mem_replicate hmem) (by decide)
  rw [text]
  split
  · exact unbroken_append.mpr ⟨unbroken_append.mpr ⟨htake 1, unbroken_fraction (hdrop 1)⟩,
      unbroken_exponentText _⟩
  · split
    · refine unbroken_append.mpr ⟨by decide, unbroken_fraction ?_⟩
      exact unbroken_append.mpr ⟨hzeros _, hdigits⟩
    · exact unbroken_append.mpr ⟨htake _, unbroken_fraction (hdrop _)⟩

end Significant

theorem Binary64.unbroken_text (x : Binary64) : Unbroken x.text := by
  rw [text]
  refine unbroken_append.mpr ⟨?_, ?_⟩
  · split
    · decide
    · decide
  · split
    · decide
    · split
      · decide
      · split
        · decide
        · exact Significant.unbroken_text _

/-! ### Values -/

namespace Value

/-- The caller has put no line break into the value. -/
def Unbroken : Value → Prop
  | string t => Text.Unbroken t
  | character b => b ≠ Text.newline
  | exception _ e => Text.Unbroken e.describe
  | object t none => Text.Unbroken t
  | object _ (some (.ok t)) => Text.Unbroken t
  | object _ (some (.error _)) | boolean _ | integer _ | unsigned _ | floating _ => True

/-- **The caller's line breaks are the only ones** that are rendered. -/
theorem Unbroken.render {v : Value} (h : v.Unbroken) {t : Text} (ht : v.render = .ok t) :
    Text.Unbroken t := by
  cases v with
  | string s =>
    obtain rfl := Except.ok.inj ht
    exact h
  | boolean b =>
    obtain rfl := Except.ok.inj ht
    cases b with
    | true => decide
    | false => decide
  | character b =>
    obtain rfl := Except.ok.inj ht
    exact fun hmem => h (List.mem_singleton.mp hmem).symm
  | integer i =>
    obtain rfl := Except.ok.inj ht
    exact Text.unbroken_signed _
  | unsigned u =>
    obtain rfl := Except.ok.inj ht
    exact Text.unbroken_decimal _
  | floating x =>
    obtain rfl := Except.ok.inj ht
    exact x.unbroken_text
  | exception handle e =>
    obtain rfl := Except.ok.inj ht
    exact h
  | object typeName renderer =>
    match renderer with
    | none =>
      obtain rfl := Except.ok.inj ht
      exact unbroken_append.mpr ⟨unbroken_append.mpr ⟨by decide, h⟩, by decide⟩
    | some (.ok s) =>
      obtain rfl := Except.ok.inj ht
      exact h
    | some (.error thrown) => exact absurd ht (by simp [Value.render])

end Value

/-! ### Entries -/

structure Report.Unbroken (r : Report) : Prop where
  typeName : Text.Unbroken r.typeName
  message : Text.Unbroken r.message
  causes : ∀ c ∈ r.causes, Text.Unbroken c.typeName ∧ Text.Unbroken c.message

/-- The caller has put no line break into the entry. -/
structure Entry.Unbroken (e : Entry) : Prop where
  logger : Text.Unbroken e.logger
  message : Text.Unbroken e.message
  fields : ∀ field ∈ e.fields, Text.Unbroken field.1 ∧ field.2.Unbroken
  exception : ∀ r ∈ e.exception, r.Unbroken

namespace Report

variable {r : Report}

theorem Unbroken.summary (h : r.Unbroken) : Text.Unbroken r.summary :=
  unbroken_append.mpr ⟨unbroken_append.mpr ⟨h.typeName, by decide⟩, h.message⟩

theorem Unbroken.line (h : r.Unbroken) {c : Cause} (hc : c ∈ r.causes) : Text.Unbroken c.line := by
  obtain ⟨htype, hmessage⟩ := h.causes c hc
  rw [Cause.line]
  split
  · exact htype
  · exact unbroken_append.mpr ⟨unbroken_append.mpr ⟨htype, by decide⟩, hmessage⟩

theorem Unbroken.rows (h : r.Unbroken) :
    ∀ t ∈ r.causes.map Cause.line ++ r.marks, Text.Unbroken t := by
  intro t ht
  rcases List.mem_append.mp ht with hline | hmark
  · obtain ⟨c, hc, rfl⟩ := List.mem_map.mp hline
    exact h.line hc
  · rw [marks] at hmark
    split at hmark
    · rw [List.mem_singleton.mp hmark]
      decide
    · exact absurd hmark List.not_mem_nil

end Report

namespace Plain

variable {e : Entry} {texts : List Text}

def recordLine (e : Entry) (texts : List Text) : Text :=
  heading e ++ listing (items e.fields texts)

/-- The lines below that of the record. -/
def linesBelow : Option Report → List Text
  | none => []
  | some r =>
    (ascii "  " ++ r.summary) ::
      (r.causes.map Cause.line ++ r.marks).map (ascii "  caused by " ++ ·)

/-- **The plain layout joins lines.** -/
theorem text_eq (h : e.fields.Read texts) :
    text e =
      .ok (List.intercalate [Text.newline] (recordLine e texts :: linesBelow e.exception)) := by
  rw [text_of_read h, Text.intercalate_cons, recordLine]
  cases hexception : e.exception with
  | none => rfl
  | some r =>
    have hindent (t : Text) :
        [Text.newline] ++ (ascii "  caused by " ++ t) = ascii "\n  caused by " ++ t := rfl
    rw [exceptionLines, Report.describe_eq, Text.intercalate_cons, linesBelow, List.flatMap_cons,
      List.flatMap_map]
    simp only [hindent, List.append_assoc]
    rfl

/-! ### What the layout adds -/

theorem unbroken_severity (s : Severity) : Unbroken s.name := by
  cases s with
  | unlisted code outside => exact show Unbroken (ascii "UNKNOWN") by decide
  | _ => decide

theorem unbroken_instant (nanoseconds : Int) : Unbroken (Instant.text nanoseconds) := by
  have hseparators : Unbroken (ascii "-") ∧ Unbroken (ascii " ") ∧ Unbroken (ascii ":") ∧
      Unbroken (ascii ".") := by decide
  obtain ⟨hdash, hblank, hcolon, hpoint⟩ := hseparators
  simp only [Instant.text, unbroken_append, Text.unbroken_padded, hdash, hblank, hcolon, hpoint,
    and_self]

theorem unbroken_heading (h : e.Unbroken) : Unbroken (heading e) := by
  have hlogger : Unbroken (if e.logger = [] then [] else e.logger ++ ascii " - ") := by
    split
    · exact Text.unbroken_nil
    · exact unbroken_append.mpr ⟨h.logger, by decide⟩
  have hopens : Unbroken (ascii " [") := by decide
  have hcloses : Unbroken (ascii "] ") := by decide
  simp only [heading, unbroken_append]
  exact ⟨⟨⟨⟨⟨unbroken_instant _, hopens⟩, unbroken_severity _⟩, hcloses⟩, hlogger⟩, h.message⟩

theorem unbroken_items {fields : Fields} (hread : fields.Read texts)
    (h : ∀ field ∈ fields, Unbroken field.1 ∧ field.2.Unbroken) :
    ∀ t ∈ items fields texts, Unbroken t := by
  induction hread with
  | nil => exact fun _ ht => absurd ht List.not_mem_nil
  | @cons field text fields texts hfirst hrest ih =>
    obtain ⟨hfield, hfields⟩ := List.forall_mem_cons.mp h
    refine List.forall_mem_cons.mpr ⟨?_, ih hfields⟩
    have hsign : Unbroken (ascii "=") := by decide
    exact unbroken_append.mpr ⟨unbroken_append.mpr ⟨hfield.1, hsign⟩, hfield.2.render hfirst⟩

theorem unbroken_recordLine (h : e.Unbroken) (hread : e.fields.Read texts) :
    Unbroken (recordLine e texts) := by
  refine unbroken_append.mpr ⟨unbroken_heading h, ?_⟩
  rw [listing]
  split
  · exact Text.unbroken_nil
  · have hitems := Text.unbroken_intercalate (s := ascii ", ") (by decide)
      (unbroken_items hread h.fields)
    exact unbroken_append.mpr ⟨unbroken_append.mpr ⟨by decide, hitems⟩, by decide⟩

theorem unbroken_linesBelow (h : e.Unbroken) : ∀ t ∈ linesBelow e.exception, Unbroken t := by
  cases hexception : e.exception with
  | none => exact fun _ ht => absurd ht List.not_mem_nil
  | some r =>
    have hr : r.Unbroken := h.exception r (by rw [hexception]; rfl)
    refine List.forall_mem_cons.mpr ⟨unbroken_append.mpr ⟨by decide, hr.summary⟩, ?_⟩
    intro t ht
    obtain ⟨row, hrow, rfl⟩ := List.mem_map.mp ht
    exact unbroken_append.mpr ⟨by decide, hr.rows row hrow⟩

theorem lines_text (h : e.Unbroken) (hread : e.fields.Read texts) {t : Text} (ht : text e = .ok t) :
    t.lines = recordLine e texts :: linesBelow e.exception := by
  obtain rfl := Except.ok.inj ((text_eq hread).symm.trans ht)
  refine Text.lines_intercalate ?_ (List.cons_ne_nil _ _)
  exact List.forall_mem_cons.mpr ⟨unbroken_recordLine h hread, unbroken_linesBelow h⟩

/-- **The lines of a plain entry.**

An entry has a text exactly if no field throws when it is rendered.  If the caller has put no line
break into the entry, the text is the line of the record alone where there is no exception, and
otherwise that line, two spaces and the summary on the next, and then one line for each cause, in
order, and one for the mark where causes are left out, all of which begin alike. -/
theorem lines_of_entry {e : Entry} (h : e.Unbroken) :
    ((∃ t, text e = .ok t) ↔ e.fields.thrown? = none) ∧
    ∀ t, text e = .ok t → ∃ texts, e.fields.Read texts ∧
      (e.exception = none → t.lines = [recordLine e texts]) ∧
      ∀ r, e.exception = some r →
        t.lines =
          [recordLine e texts, ascii "  " ++ r.summary] ++
            r.causes.map (fun c => ascii "  caused by " ++ c.line) ++
            (if r.truncated then [ascii "  caused by ..."] else []) ∧
        t.lines.length = 2 + (r.causes.length + if r.truncated then 1 else 0) := by
  have hok : (∃ t, text e = .ok t) ↔ e.fields.thrown? = none := by
    rw [exists_ok_iff, Option.eq_none_iff_forall_ne_some]
    simp only [ne_eq, text_error_iff]
  refine ⟨hok, fun t ht => ?_⟩
  obtain ⟨texts, hread⟩ := Fields.exists_read (hok.mp ⟨t, ht⟩)
  have hlines := lines_text h hread ht
  refine ⟨texts, hread, fun hnone => ?_, fun r hr => ?_⟩
  · rw [hlines, hnone, linesBelow]
  · have hmark : r.marks.map (ascii "  caused by " ++ ·) =
        if r.truncated then [ascii "  caused by ..."] else [] := by
      rw [Report.marks]
      cases r.truncated <;> rfl
    rw [hr, linesBelow, List.map_append, List.map_map, hmark] at hlines
    have hlength : (if r.truncated then [ascii "  caused by ..."] else []).length =
        if r.truncated then 1 else 0 := by
      cases r.truncated <;> rfl
    rw [hlines]
    refine ⟨rfl, ?_⟩
    rw [List.length_cons, List.length_cons, List.length_append, List.length_map, hlength]
    omega

/-- An entry with fields of three kinds and an exception whose causes were cut short. -/
def fogbound : Entry where
  severity := .error
  logger := ascii "harbour"
  message := ascii "late"
  fields := [(ascii "ship", .string (ascii "Ada")), (ascii "draught", .integer (-7)),
    (ascii "cargo", .object (ascii "Crate") none)]
  exception := some
    { typeName := ascii "Fog", message := ascii "no sight", causes := [⟨ascii "Damp", []⟩],
      truncated := true }

theorem lines_of_entry_fogbound :
    fogbound.Unbroken ∧ ∃ t, text fogbound = .ok t ∧ t.lines =
      [ascii "1970-01-01 00:00:00.000 [ERROR] harbour - late " ++
          ascii "\x7bship=Ada, draught=-7, cargo=<Crate>\x7d",
        ascii "  Fog: no sight", ascii "  caused by Damp", ascii "  caused by ..."] := by
  have hunbroken : fogbound.Unbroken := by
    refine ⟨by decide, by decide, ?_, ?_⟩
    · simp only [fogbound, List.forall_mem_cons, List.not_mem_nil, false_implies, implies_true]
      have hship : Value.Unbroken (.string (ascii "Ada")) := show Unbroken (ascii "Ada") by decide
      have hcargo : Value.Unbroken (.object (ascii "Crate") none) :=
        show Unbroken (ascii "Crate") by decide
      exact ⟨⟨by decide, hship⟩, ⟨by decide, trivial⟩, ⟨by decide, hcargo⟩, trivial⟩
    · rintro r hr
      obtain rfl := Option.some.inj hr
      exact ⟨by decide, by decide, by decide⟩
  obtain ⟨hok, hlines⟩ := lines_of_entry hunbroken
  obtain ⟨t, ht⟩ := hok.mpr rfl
  obtain ⟨texts, hread, -, hsome⟩ := hlines t ht
  obtain ⟨hseen, -⟩ := hsome _ rfl
  refine ⟨hunbroken, t, ht, ?_⟩
  rw [hseen]
  rcases hread with _ | ⟨hship, _ | ⟨hdraught, _ | ⟨hcargo, _ | _⟩⟩⟩
  obtain rfl := Except.ok.inj hship
  obtain rfl := Except.ok.inj hdraught
  obtain rfl := Except.ok.inj hcargo
  decide +kernel

end Plain

end TraceContract
