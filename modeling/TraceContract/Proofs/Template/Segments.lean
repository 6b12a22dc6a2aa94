import TraceContract.Proofs.Template.Positional
import Mathlib.Data.List.Nodup
import Mathlib.Data.List.Range

/-!
# The segments of a template

A template that is read keeps a text and a row of segments, and either says as much as the other.
The text is that of the segments, one behind the other, every place in decimal between braces
(`Segment.spell`).  The segments are found in the text by reading it once more, for parameters that
are called by the numbers of their places (`Placeholder.places`):

    read (places count) (spell row) = .ok ⟨spell row, row⟩

* `Segment.Cut`: the rows into which a template for so many parameters is cut.
  `Template.exists_segments_iff`: all of these are the segments of a template, and no others.
* `Segment.Cut.read_spell` is the equation above, by induction on the row.
* `Segment.Cut.eq_of_spell_eq`: **a row is told by its text**, since both can be read for as many
  parameters as either needs.
* `Operation.readTemplate_cuts`: text and segments of every accepted template, and of any two.
-/

namespace TraceContract

open Text

/-! ### Rows of segments -/

namespace Segment

def written : Segment → Text
  | ⟨literal, none⟩ => literal
  | ⟨literal, some i⟩ => literal ++ Placeholder.written (decimal i)

def spell (row : List Segment) : Text := row.flatMap written

@[simp] theorem spell_nil : spell [] = [] := rfl

@[simp] theorem spell_cons (s : Segment) (row : List Segment) :
    spell (s :: row) = s.written ++ spell row := rfl

/-- The rows of segments of the templates for `count` parameters.  There are no braces in what is
literal, and only at the end is there something literal with no place behind it. -/
inductive Cut (count : Nat) : List Segment → Prop
  | nil : Cut count []
  | literal (c : Text) (hc : Braceless c) (hne : c ≠ []) : Cut count [⟨c, none⟩]
  | slot (c : Text) (i : Nat) (row : List Segment) (hc : Braceless c) (hi : i < count)
      (h : Cut count row) : Cut count (⟨c, some i⟩ :: row)

namespace Cut

variable {count : Nat} {row : List Segment}

theorem slot_lt (h : Cut count row) : ∀ s ∈ row, ∀ i, s.slot = some i → i < count := by
  induction h with
  | nil => simp
  | literal c hc hne => simp
  | slot c i row hc hi _ ih =>
    intro s hs j hj
    rcases List.mem_cons.mp hs with rfl | hs
    · obtain rfl := Option.some.inj hj
      exact hi
    · exact ih s hs j hj

theorem braceless (h : Cut count row) : ∀ s ∈ row, Braceless s.literal := by
  induction h with
  | nil => simp
  | literal c hc hne => simpa using hc
  | slot c i row hc hi _ ih => simpa using ⟨hc, ih⟩

/-- Only the last segment can be without a place, and it is not empty then. -/
theorem last (h : Cut count row) : ∀ before s after, row = before ++ s :: after →
    s.slot = none → after = [] ∧ s.literal ≠ [] := by
  induction h with
  | nil =>
    intro before s after hrow
    exact absurd hrow (by simp)
  | literal c hc hne =>
    intro before s after hrow _
    obtain ⟨-, rfl, rfl⟩ := List.append_eq_singleton_iff.mp hrow.symm |>.resolve_right (by simp)
    exact ⟨rfl, hne⟩
  | slot c i row hc hi _ ih =>
    intro before s after hrow hs
    cases before with
    | nil =>
      obtain ⟨rfl, -⟩ := List.cons.inj hrow
      exact absurd hs (by simp)
    | cons first before => exact ih before s after (List.cons.inj hrow).2 hs

theorem mono (h : Cut count row) {more : Nat} (hle : count ≤ more) : Cut more row := by
  induction h with
  | nil => exact .nil
  | literal c hc hne => exact .literal c hc hne
  | slot c i row hc hi _ ih => exact .slot c i row hc (by omega) ih

end Cut

/-! ### The segments that reading makes -/

theorem spell_consByte (b : UInt8) (t : Template) :
    spell (t.consByte b).segments = b :: spell t.segments := by
  obtain ⟨text, segments⟩ := t
  cases segments with
  | nil => rfl
  | cons first rest =>
    obtain ⟨literal, slot⟩ := first
    cases slot with
    | none => rfl
    | some i => rfl

theorem Cut.consByte {count : Nat} {b : UInt8} (hb : isBrace b = false) {t : Template}
    (h : Cut count t.segments) : Cut count (t.consByte b).segments := by
  obtain ⟨text, segments⟩ := t
  cases h with
  | nil => exact .literal [b] (braceless_cons.mpr ⟨hb, braceless_nil⟩) (by simp)
  | literal c hc hne => exact .literal (b :: c) (braceless_cons.mpr ⟨hb, hc⟩) (by simp)
  | slot c i row hc hi h => exact .slot (b :: c) i row (braceless_cons.mpr ⟨hb, hc⟩) hi h

end Segment

namespace Piece

theorem spell_segments (names : List Text) (pieces : List Piece) :
    Segment.spell (assemble names pieces).segments = (assemble names pieces).text := by
  induction pieces with
  | nil => rfl
  | cons p pieces ih =>
    rw [assemble_cons]
    cases p with
    | byte b =>
      rw [onto, Segment.spell_consByte, ih]
      rfl
    | placeholder c =>
      rw [onto, Template.consSlot, Segment.spell_cons, ih]
      rfl

theorem cut_segments {names : List Text} {pieces : List Piece}
    (h : ∀ p ∈ pieces, p.Allowed names) :
    Segment.Cut names.length (assemble names pieces).segments := by
  induction pieces with
  | nil => exact .nil
  | cons p pieces ih =>
    have hp := h p (by simp)
    have ih := ih fun q hq => h q (by simp [hq])
    cases p with
    | byte b => exact ih.consByte hp
    | placeholder c => exact .slot [] _ _ braceless_nil (Placeholder.slot_lt hp.2) ih

end Piece

namespace Template

variable {names : List Text} {source : Text} {t : Template}

theorem spell_segments (h : read names source = .ok t) : Segment.spell t.segments = t.text := by
  obtain ⟨pieces, -, -, rfl⟩ := read_eq_ok_iff.mp h
  exact Piece.spell_segments names pieces

theorem cut_segments (h : read names source = .ok t) : Segment.Cut names.length t.segments := by
  obtain ⟨pieces, hall, -, rfl⟩ := read_eq_ok_iff.mp h
  exact Piece.cut_segments hall

end Template

/-! ### Reading a row from its text -/

namespace Placeholder

def places (count : Nat) : List Text := (List.range count).map decimal

variable {count i : Nat}

theorem getElem?_places (h : i < count) : (places count)[i]? = some (decimal i) := by
  rw [places, List.getElem?_map, List.getElem?_range h]
  rfl

theorem nodup_places (count : Nat) : (places count).Nodup :=
  List.nodup_range.map decimal_injective

theorem means_places (h : i < count) : Means (places count) (decimal i) :=
  Or.inl (List.mem_of_getElem? (getElem?_places h))

theorem slot_places (h : i < count) : slot (places count) (decimal i) = i := by
  obtain ⟨hi, hget⟩ := List.getElem?_eq_some_iff.mp (getElem?_places h)
  rw [slot, if_pos (hget ▸ List.getElem_mem hi), ← hget]
  exact (nodup_places count).idxOf_getElem i hi

end Placeholder

namespace Template

variable {names : List Text}

theorem read_literal_append {c rest text literal : Text} {slot : Option Nat} {row : List Segment}
    (hc : Braceless c) (h : read names rest = .ok ⟨text, ⟨literal, slot⟩ :: row⟩) :
    read names (c ++ rest) = .ok ⟨c ++ text, ⟨c ++ literal, slot⟩ :: row⟩ := by
  induction c with
  | nil => exact h
  | cons b c ih =>
    obtain ⟨hb, hc⟩ := braceless_cons.mp hc
    rw [List.cons_append, read_byte hb, ih hc]
    rfl

end Template

namespace Segment

open Placeholder (places)

variable {count : Nat} {row : List Segment}

/-- **The segments are read off their text**, for parameters that are called by their places. -/
theorem Cut.read_spell (h : Cut count row) :
    Template.read (places count) (spell row) = .ok ⟨spell row, row⟩ := by
  induction h with
  | nil => rfl
  | literal c hc hne =>
    -- The last byte is a segment of its own until the others stand in front of it.
    obtain ⟨front, b, rfl⟩ := (List.eq_nil_or_concat' c).resolve_left hne
    have hb : isBrace b = false := hc b (by simp)
    have hlast : Template.read (places count) [b] = .ok ⟨[b], [⟨[b], none⟩]⟩ := by
      rw [Template.read_byte hb]
      rfl
    have hread := Template.read_literal_append
      (fun d hd => hc d (List.mem_append_left [b] hd)) hlast
    simpa [written] using hread
  | slot c i row hc hi _ ih =>
    have hplace : Template.read (places count) (Placeholder.written (decimal i) ++ spell row) =
        .ok ⟨Placeholder.written (decimal i) ++ spell row, ⟨[], some i⟩ :: row⟩ := by
      rw [Template.read_placeholder (braceless_decimal i),
        Placeholder.index?_of_means (Placeholder.means_places hi), Placeholder.slot_places hi, ih]
      rfl
    have hread := Template.read_literal_append hc hplace
    rwa [List.append_nil, ← List.append_assoc] at hread

/-- **A row is told by its text.** -/
theorem Cut.eq_of_spell_eq {count' : Nat} {row' : List Segment} (h : Cut count row)
    (h' : Cut count' row') (heq : spell row = spell row') : row = row' := by
  have hread := (h.mono (Nat.le_max_left count count')).read_spell
  have hread' := (h'.mono (Nat.le_max_right count count')).read_spell
  rw [heq, hread'] at hread
  exact (Template.mk.inj (Except.ok.inj hread)).2.symm

end Segment

namespace Template

/-- **Which rows are the segments of a template.** -/
theorem exists_segments_iff {count : Nat} {row : List Segment} :
    (∃ names source t, names.length = count ∧ read names source = .ok t ∧ t.segments = row) ↔
      Segment.Cut count row := by
  constructor
  · rintro ⟨names, source, t, rfl, h, rfl⟩
    exact cut_segments h
  · intro h
    refine ⟨Placeholder.places count, _, _, ?_, h.read_spell, rfl⟩
    rw [Placeholder.places, List.length_map, List.length_range]

end Template

/-! ### Accepted templates -/

namespace Operation

/-- **Text and segments of a template say the same.**

Let a text be accepted for some names.  Then the segments, one behind the other and with every place
in decimal between braces, are the text that the template keeps.  Every place is that of a parameter
there is, and no literal piece has a brace in it.  Only the last segment may have no place, and then
its literal piece is not empty.  Of any two accepted templates, though they be for different names,
the texts are equal if and only if the segments are. -/
theorem readTemplate_cuts {contract operation : Text} {names : List Text} {source : Text}
    {t : Template} (h : readTemplate contract operation names source = .ok t) :
    Segment.spell t.segments = t.text ∧
    (∀ s ∈ t.segments, ∀ i, s.slot = some i → i < names.length) ∧
    (∀ s ∈ t.segments, Braceless s.literal) ∧
    (∀ before s after, t.segments = before ++ s :: after → s.slot = none →
      after = [] ∧ s.literal ≠ []) ∧
    (∀ contract' operation' names' source' t',
      readTemplate contract' operation' names' source' = .ok t' →
        (t.text = t'.text ↔ t.segments = t'.segments)) := by
  have hread := readTemplate_ok_iff.mp h
  have htext := Template.spell_segments hread
  have hcut := Template.cut_segments hread
  refine ⟨htext, hcut.slot_lt, hcut.braceless, hcut.last, ?_⟩
  intro contract' operation' names' source' t' h'
  have hread' := readTemplate_ok_iff.mp h'
  have htext' := Template.spell_segments hread'
  refine ⟨fun heq => ?_, fun heq => ?_⟩
  · rw [← htext, ← htext'] at heq
    exact hcut.eq_of_spell_eq (Template.cut_segments hread') heq
  · rw [← htext, ← htext', heq]

/-- Templates for different names that mean the same places. -/
theorem readTemplate_cuts_queue :
    ∃ t t', readTemplate [] [] [ascii "who", ascii "n"] (ascii "\x7bn\x7d of \x7b0\x7d!") = .ok t ∧
      readTemplate [] [] [ascii "0", ascii "1", ascii "2"] (ascii "\x7b1\x7d of \x7b00\x7d!") =
        .ok t' ∧
      t.text = t'.text ∧ t.segments = t'.segments ∧
      Segment.spell t.segments = ascii "\x7b1\x7d of \x7b0\x7d!" := by
  have h : readTemplate [] [] [ascii "who", ascii "n"] (ascii "\x7bn\x7d of \x7b0\x7d!") =
      .ok ⟨ascii "\x7b1\x7d of \x7b0\x7d!",
        [⟨[], some 1⟩, ⟨ascii " of ", some 0⟩, ⟨ascii "!", none⟩]⟩ := rfl
  obtain ⟨htext, -, -, -, hunique⟩ := readTemplate_cuts h
  have h' : ∃ t', readTemplate [] [] [ascii "0", ascii "1", ascii "2"]
      (ascii "\x7b1\x7d of \x7b00\x7d!") = .ok t' ∧ t'.text = ascii "\x7b1\x7d of \x7b0\x7d!" :=
    ⟨_, rfl, rfl⟩
  obtain ⟨t', hread', htext'⟩ := h'
  exact ⟨_, t', h, hread', htext'.symm, (hunique _ _ _ _ _ hread').mp htext'.symm, htext⟩

end Operation

end TraceContract
