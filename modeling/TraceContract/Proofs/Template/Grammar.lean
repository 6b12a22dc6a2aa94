import TraceContract.Contract
import TraceContract.Proofs.Results
import Mathlib.Data.List.Basic
import Mathlib.Tactic.ByContra
import Mathlib.Tactic.Tauto

/-!
# The grammar of message templates

A template is a row of pieces: bytes that are no braces, and placeholders.  `Template.read` takes
exactly the texts that such rows spell, and builds from them what `assemble` says:

    read names source = .ok t ↔ ∃ pieces, (∀ p ∈ pieces, p.Allowed names) ∧
      spell pieces = source ∧ assemble names pieces = t

All proofs about a text go along its braces, by `Text.brace_induction`: a text is empty, or goes on
with a byte that is no brace, with a complete placeholder, or with one of three things that no
template has, a closing brace, an opening brace that nothing closes, and an opening brace before
another one.

* `read_eq_ok_iff` is the equivalence above.
* `index?_eq_some_iff` says which contents of a placeholder stand for a parameter, and for which.
-/

namespace TraceContract

open Text (openBrace closeBrace isBrace)

/-! ### Texts without braces -/

namespace Text

def Braceless (t : Text) : Prop := ∀ b ∈ t, isBrace b = false

theorem braceless_nil : Braceless [] := by
  intro b hb
  exact absurd hb (by simp)

theorem braceless_cons {b : UInt8} {t : Text} :
    Braceless (b :: t) ↔ isBrace b = false ∧ Braceless t := by
  simp [Braceless]

theorem isBrace_eq_false_iff {b : UInt8} :
    isBrace b = false ↔ b ≠ openBrace ∧ b ≠ closeBrace := by
  simp [isBrace]

instance (t : Text) : Decidable (Braceless t) :=
  decidable_of_iff (t.all (! isBrace ·) = true) (by simp [Braceless])

theorem Braceless.ne_open {t : Text} (h : Braceless t) {b : UInt8} (hb : b ∈ t) :
    b ≠ openBrace := (isBrace_eq_false_iff.mp (h b hb)).1

theorem Braceless.ne_close {t : Text} (h : Braceless t) {b : UInt8} (hb : b ∈ t) :
    b ≠ closeBrace := (isBrace_eq_false_iff.mp (h b hb)).2

/-- A text has no brace, or a first one. -/
theorem braceless_or_first_brace (t : Text) :
    Braceless t ∨ ∃ c b rest, Braceless c ∧ isBrace b = true ∧ t = c ++ b :: rest := by
  induction t with
  | nil => exact Or.inl braceless_nil
  | cons a t ih =>
    cases ha : isBrace a with
    | true => exact Or.inr ⟨[], a, t, braceless_nil, ha, rfl⟩
    | false =>
      rcases ih with ht | ⟨c, b, rest, hc, hb, rfl⟩
      · exact Or.inl (braceless_cons.mpr ⟨ha, ht⟩)
      · exact Or.inr ⟨a :: c, b, rest, braceless_cons.mpr ⟨ha, hc⟩, hb, rfl⟩

theorem written_append (c rest : Text) :
    Placeholder.written c ++ rest = openBrace :: (c ++ closeBrace :: rest) := by
  rw [Placeholder.written, List.cons_append, List.cons_append, List.append_assoc,
    List.singleton_append]

/-- **Along the braces of a text.**  The last three cases are how a text can fail to be a
template; nothing is asked there of what follows. -/
@[elab_as_elim]
theorem brace_induction {motive : Text → Prop} (nil : motive [])
    (byte : ∀ b rest, isBrace b = false → motive rest → motive (b :: rest))
    (placeholder : ∀ c rest, Braceless c → motive rest → motive (Placeholder.written c ++ rest))
    (stray : ∀ rest, motive (closeBrace :: rest))
    (unclosed : ∀ c, Braceless c → motive (openBrace :: c))
    (reopened : ∀ c rest, Braceless c → motive (openBrace :: (c ++ openBrace :: rest)))
    (t : Text) : motive t := by
  induction hn : t.length using Nat.strongRecOn generalizing t with
  | ind n ih =>
    subst hn
    cases t with
    | nil => exact nil
    | cons a t =>
      by_cases hclose : a = closeBrace
      · subst hclose
        exact stray t
      by_cases hopen : a = openBrace
      · subst hopen
        rcases braceless_or_first_brace t with ht | ⟨c, b, rest, hc, hb, rfl⟩
        · exact unclosed t ht
        · by_cases hb' : b = openBrace
          · subst hb'
            exact reopened c rest hc
          · have : b = closeBrace := by
              by_contra hne
              rw [isBrace_eq_false_iff.mpr ⟨hb', hne⟩] at hb
              exact absurd hb (by decide)
            subst this
            rw [← written_append]
            exact placeholder c rest hc (ih rest.length (by simp; omega) rest rfl)
      · exact byte a t (isBrace_eq_false_iff.mpr ⟨hopen, hclose⟩) (ih t.length (by simp) t rfl)

end Text

open Text

/-! ### What a placeholder stands for -/

namespace Placeholder

def Numeral (content : Text) : Prop :=
  content ≠ [] ∧ content.length ≤ 9 ∧ ∀ b ∈ content, isDigit b = true

/-- The content of a placeholder that stands for a parameter: its name, or its place. -/
def Means (names : List Text) (content : Text) : Prop :=
  content ∈ names ∨ Numeral content ∧ numeralValue content < names.length

/-- The place of the first parameter of that name, and where there is none, the number. -/
def slot (names : List Text) (content : Text) : Nat :=
  if content ∈ names then names.idxOf content else numeralValue content

theorem isPlace_iff {count : Nat} {content : Text} :
    isPlace count content = true ↔ Numeral content ∧ numeralValue content < count := by
  simp only [isPlace, Bool.and_eq_true, bne_iff_ne, decide_eq_true_eq, List.all_eq_true]
  rw [Numeral, maxDigits]
  tauto

theorem index?_of_mem {names : List Text} {content : Text} (h : content ∈ names) :
    index? names content = some (names.idxOf content) := by
  have hl : names.findIdx (· == content) < names.length :=
    List.findIdx_lt_length_of_exists ⟨content, h, by simp⟩
  have hi : names.idxOf? content = some (names.idxOf content) := by
    rw [List.idxOf?, List.findIdx?_eq_guard_findIdx_lt, List.idxOf]
    exact Option.guard_eq_some_iff.mpr ⟨rfl, by simpa using hl⟩
  rw [index?, hi]

theorem index?_of_notMem {names : List Text} {content : Text} (h : content ∉ names) :
    index? names content =
      if isPlace names.length content then some (numeralValue content) else none := by
  rw [index?, List.idxOf?_eq_none_iff.mpr h]

/-- **Which contents stand for a parameter, and for which.** -/
theorem index?_eq_some_iff {names : List Text} {content : Text} {i : Nat} :
    index? names content = some i ↔ Means names content ∧ slot names content = i := by
  by_cases hm : content ∈ names
  · rw [index?_of_mem hm, slot, if_pos hm, Option.some.injEq]
    exact ⟨fun h => ⟨Or.inl hm, h⟩, fun h => h.2⟩
  · rw [index?_of_notMem hm, slot, if_neg hm]
    by_cases hp : isPlace names.length content = true
    · rw [if_pos hp, Option.some.injEq]
      exact ⟨fun h => ⟨Or.inr (isPlace_iff.mp hp), h⟩, fun h => h.2⟩
    · rw [if_neg hp]
      constructor
      · intro h
        exact absurd h (by simp)
      · rintro ⟨hmem | hplace, -⟩
        · exact absurd hmem hm
        · exact absurd (isPlace_iff.mpr hplace) hp

theorem index?_of_means {names : List Text} {content : Text} (h : Means names content) :
    index? names content = some (slot names content) :=
  index?_eq_some_iff.mpr ⟨h, rfl⟩

theorem index?_of_not_means {names : List Text} {content : Text} (h : ¬ Means names content) :
    index? names content = none := by
  cases hi : index? names content with
  | none => rfl
  | some i => exact absurd (index?_eq_some_iff.mp hi).1 h

instance (names : List Text) (content : Text) : Decidable (Means names content) :=
  decidable_of_iff ((index? names content).isSome = true) (by
    rw [Option.isSome_iff_exists]
    constructor
    · rintro ⟨i, hi⟩
      exact (index?_eq_some_iff.mp hi).1
    · exact fun h => ⟨_, index?_of_means h⟩)

theorem slot_lt {names : List Text} {content : Text} (h : Means names content) :
    slot names content < names.length := by
  rw [slot]
  split
  · next hm => exact List.idxOf_lt_length_of_mem hm
  · next hm =>
    rcases h with hmem | ⟨-, hlt⟩
    · exact absurd hmem hm
    · exact hlt

end Placeholder

/-! ### The reader on each kind of text -/

namespace Template

variable {names : List Text}

theorem read_byte {b : UInt8} (hb : isBrace b = false) (rest : Text) :
    read names (b :: rest) = (read names rest).map (consByte b) := by
  obtain ⟨hopen, hclose⟩ := isBrace_eq_false_iff.mp hb
  rw [read, scan, if_neg hopen, if_neg hclose, read]

theorem read_stray (rest : Text) : read names (closeBrace :: rest) = .error [closeBrace] := by
  rw [read, scan, if_neg (by decide), if_pos rfl]

theorem scan_held {c : Text} (hc : Braceless c) (held rest : Text) :
    scan names (some held) (c ++ rest) = scan names (some (c.reverse ++ held)) rest := by
  induction c generalizing held with
  | nil => rfl
  | cons b c ih =>
    obtain ⟨hb, hc⟩ := braceless_cons.mp hc
    obtain ⟨hopen, hclose⟩ := isBrace_eq_false_iff.mp hb
    rw [List.cons_append, scan, if_neg hopen, if_neg hclose, ih hc, List.reverse_cons,
      List.append_assoc, List.singleton_append]

theorem read_open {c : Text} (hc : Braceless c) (rest : Text) :
    read names (openBrace :: (c ++ rest)) = scan names (some c.reverse) rest := by
  rw [read, scan, if_pos rfl, scan_held hc, List.append_nil]

theorem read_unclosed {c : Text} (hc : Braceless c) :
    read names (openBrace :: c) = .error [openBrace] := by
  have h : read names (openBrace :: (c ++ [])) = .error [openBrace] := by
    rw [read_open hc, scan]
  rwa [List.append_nil] at h

theorem read_reopened {c : Text} (hc : Braceless c) (rest : Text) :
    read names (openBrace :: (c ++ openBrace :: rest)) = .error [openBrace] := by
  rw [read_open hc, scan, if_pos rfl]

theorem read_placeholder {c : Text} (hc : Braceless c) (rest : Text) :
    read names (Placeholder.written c ++ rest) =
      match Placeholder.index? names c with
      | some i => (read names rest).map (consSlot i)
      | none => .error (Placeholder.written c) := by
  rw [written_append, read_open hc, scan, if_neg (by decide), if_pos rfl, List.reverse_reverse]
  rfl

end Template

/-! ### Rows of pieces -/

/-- A piece of a template as it is written. -/
inductive Piece where
  | byte (b : UInt8)
  | placeholder (content : Text)
  deriving DecidableEq

namespace Piece

def written : Piece → Text
  | byte b => [b]
  | placeholder content => Placeholder.written content

/-- The pieces that a template for parameters of some names can have. -/
def Allowed (names : List Text) : Piece → Prop
  | byte b => isBrace b = false
  | placeholder content => Braceless content ∧ Placeholder.Means names content

instance (names : List Text) : DecidablePred (Allowed names)
  | byte b => inferInstanceAs (Decidable (isBrace b = false))
  | placeholder content =>
    inferInstanceAs (Decidable (Braceless content ∧ Placeholder.Means names content))

def spell (pieces : List Piece) : Text := pieces.flatMap written

/-- A piece put in front of a template. -/
def onto (names : List Text) : Piece → Template → Template
  | byte b, t => Template.consByte b t
  | placeholder content, t => Template.consSlot (Placeholder.slot names content) t

/-- The template that a row of pieces makes. -/
def assemble (names : List Text) (pieces : List Piece) : Template :=
  pieces.foldr (onto names) Template.empty

@[simp] theorem spell_nil : spell [] = [] := rfl

@[simp] theorem spell_cons (p : Piece) (pieces : List Piece) :
    spell (p :: pieces) = p.written ++ spell pieces := rfl

@[simp] theorem assemble_nil (names : List Text) : assemble names [] = Template.empty := rfl

@[simp] theorem assemble_cons (names : List Text) (p : Piece) (pieces : List Piece) :
    assemble names (p :: pieces) = p.onto names (assemble names pieces) := rfl

end Piece

namespace Template

open Piece (spell assemble)

variable {names : List Text}

theorem read_written {p : Piece} (hp : p.Allowed names) (rest : Text) :
    read names (p.written ++ rest) = (read names rest).map (p.onto names) := by
  cases p with
  | byte b => exact read_byte hp rest
  | placeholder c =>
    rw [Piece.written, read_placeholder hp.1, Placeholder.index?_of_means hp.2]
    rfl

/-- In front of any text, a row of pieces is read as what it makes. -/
theorem read_spell_append {pieces : List Piece} (h : ∀ p ∈ pieces, p.Allowed names) (rest : Text) :
    read names (spell pieces ++ rest) =
      (read names rest).map fun t => pieces.foldr (Piece.onto names) t := by
  induction pieces with
  | nil =>
    rw [Piece.spell_nil, List.nil_append]
    cases read names rest with
    | ok t => rfl
    | error token => rfl
  | cons p pieces ih =>
    rw [Piece.spell_cons, List.append_assoc, read_written (h p (by simp)),
      ih fun q hq => h q (by simp [hq])]
    cases read names rest with
    | ok t => rfl
    | error token => rfl

theorem read_spell {pieces : List Piece} (h : ∀ p ∈ pieces, p.Allowed names) :
    read names (spell pieces) = .ok (assemble names pieces) := by
  have := read_spell_append h []
  rwa [List.append_nil] at this

/-- What is read was spelt by a row of pieces. -/
theorem exists_pieces {source : Text} :
    ∀ {t : Template}, read names source = .ok t →
      ∃ pieces, (∀ p ∈ pieces, p.Allowed names) ∧ spell pieces = source := by
  have extend {p : Piece} (hp : p.Allowed names) {rest : Text} :
      (∃ pieces, (∀ q ∈ pieces, q.Allowed names) ∧ spell pieces = rest) →
        ∃ pieces, (∀ q ∈ pieces, q.Allowed names) ∧ spell pieces = p.written ++ rest := by
    rintro ⟨pieces, hall, rfl⟩
    exact ⟨p :: pieces, by simpa using ⟨hp, hall⟩, rfl⟩
  induction source using brace_induction with
  | nil => exact fun _ => ⟨[], by simp, rfl⟩
  | byte b rest hb ih =>
    intro t h
    rw [read_byte hb] at h
    obtain ⟨t', hr, -⟩ := map_eq_ok_iff.mp h
    exact extend (p := .byte b) hb (ih hr)
  | placeholder c rest hc ih =>
    intro t h
    rw [read_placeholder hc] at h
    cases hi : Placeholder.index? names c with
    | none => rw [hi] at h; exact absurd h (by simp)
    | some i =>
      rw [hi] at h
      obtain ⟨t', hr, -⟩ := map_eq_ok_iff.mp h
      exact extend (p := .placeholder c) ⟨hc, (Placeholder.index?_eq_some_iff.mp hi).1⟩ (ih hr)
  | stray rest => intro t h; rw [read_stray] at h; exact absurd h (by simp)
  | unclosed c hc => intro t h; rw [read_unclosed hc] at h; exact absurd h (by simp)
  | reopened c rest hc => intro t h; rw [read_reopened hc] at h; exact absurd h (by simp)

/-- **What is read, and what comes of it.** -/
theorem read_eq_ok_iff {source : Text} {t : Template} :
    read names source = .ok t ↔
      ∃ pieces, (∀ p ∈ pieces, p.Allowed names) ∧ spell pieces = source ∧
        assemble names pieces = t := by
  constructor
  · intro h
    obtain ⟨pieces, hall, rfl⟩ := exists_pieces h
    rw [read_spell hall, Except.ok.injEq] at h
    exact ⟨pieces, hall, rfl, h⟩
  · rintro ⟨pieces, hall, rfl, rfl⟩
    exact read_spell hall

end Template

end TraceContract
