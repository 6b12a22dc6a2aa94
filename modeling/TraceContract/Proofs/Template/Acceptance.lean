import TraceContract.Proofs.Template.Grammar
import TraceContract.Proofs.Text.Decimals

/-!
# Which templates are accepted

The grammar of `Grammar.lean` settles what `Operation.readTemplate` accepts; here are the things
that follow for every text and every list of names.

* `numeralValue_lt`: a numeral short enough to be a place is a small number, far inside the range
  of a machine word.
* `read_rename`: names with braces may be called anything with braces, the reading stays the same.
  Hence no placeholder ever stands for a parameter by such a name.
* `not_open_infix_spell` and `not_close_infix_spell`: no accepted text has two equal braces side by
  side, so a doubled brace is no way to write a brace.
* `readTemplate_accepts_rows`: all of it in one statement.
-/

namespace TraceContract

open Text

/-! ### Numerals -/

/-- **A place is written with a number that every machine word holds.** -/
theorem Placeholder.Numeral.numeralValue_lt {content : Text} (h : Placeholder.Numeral content) :
    numeralValue content < 1000000000 :=
  calc
    numeralValue content < Nat.pow 10 content.length := numeralValue_lt_pow h.2.2
    _ ≤ Nat.pow 10 9 := Nat.pow_le_pow_right (by decide) h.2.1

/-! ### Names with braces -/

/-- Names are changed at most where they have a brace, and keep one there. -/
structure KeepsBraceless (rename : Text → Text) : Prop where
  braceless : ∀ name, Braceless name → rename name = name
  braced : ∀ name, ¬ Braceless name → ¬ Braceless (rename name)

theorem KeepsBraceless.eq_iff {rename : Text → Text} (h : KeepsBraceless rename) {c : Text}
    (hc : Braceless c) (name : Text) : rename name = c ↔ name = c := by
  by_cases hn : Braceless name
  · rw [h.braceless name hn]
  · constructor
    · intro he
      exact absurd hc (he ▸ h.braced name hn)
    · intro he
      exact absurd hc (he ▸ hn)

theorem Placeholder.index?_rename {rename : Text → Text} (h : KeepsBraceless rename)
    (names : List Text) {c : Text} (hc : Braceless c) :
    index? (names.map rename) c = index? names c := by
  have hp : ((· == c) ∘ rename) = (· == c) := by
    funext name
    rw [Function.comp_apply, Bool.eq_iff_iff, beq_iff_eq, beq_iff_eq]
    exact h.eq_iff hc name
  have hi : (names.map rename).idxOf? c = names.idxOf? c := by
    rw [List.idxOf?, List.findIdx?_map, hp]
  rw [index?, index?, hi, List.length_map]

/-- **No placeholder stands for a parameter by a name with a brace.** -/
theorem Template.read_rename {rename : Text → Text} (h : KeepsBraceless rename)
    (names : List Text) (source : Text) : read (names.map rename) source = read names source := by
  induction source using brace_induction with
  | nil => rfl
  | byte b rest hb ih => rw [read_byte hb, read_byte hb, ih]
  | placeholder c rest hc ih =>
    rw [read_placeholder hc, read_placeholder hc, Placeholder.index?_rename h names hc, ih]
  | stray rest => rw [read_stray, read_stray]
  | unclosed c hc => rw [read_unclosed hc, read_unclosed hc]
  | reopened c rest hc => rw [read_reopened hc, read_reopened hc]

/-! ### Doubled braces -/

theorem infix_of_infix_append {a a' : UInt8} {c l : Text} (h : ∀ b ∈ c, b ≠ a)
    (hi : [a, a'] <:+: c ++ l) : [a, a'] <:+: l := by
  induction c with
  | nil => exact hi
  | cons b c ih =>
    rcases List.infix_cons_iff.mp hi with hp | hr
    · exact absurd (List.cons_prefix_cons.mp hp).1.symm (h b (by simp))
    · exact ih (fun d hd => h d (by simp [hd])) hr

namespace Piece

theorem not_open_infix_spell {names : List Text} {pieces : List Piece}
    (h : ∀ p ∈ pieces, p.Allowed names) : ¬ [openBrace, openBrace] <:+: spell pieces := by
  induction pieces with
  | nil => simp
  | cons p pieces ih =>
    intro hi
    refine ih (fun q hq => h q (by simp [hq])) ?_
    have hp := h p (by simp)
    rw [spell_cons] at hi
    cases p with
    | byte b =>
      refine infix_of_infix_append (c := [b]) ?_ hi
      intro d hd
      rw [List.mem_singleton.mp hd]
      exact (isBrace_eq_false_iff.mp hp).1
    | placeholder c =>
      rw [written, written_append] at hi
      rcases List.infix_cons_iff.mp hi with hpre | hin
      · -- The second brace would be the first byte of the content, or the closing brace.
        have hhead := (List.cons_prefix_cons.mp hpre).2
        cases c with
        | nil => exact absurd (List.cons_prefix_cons.mp hhead).1 (by decide)
        | cons d c =>
          exact absurd (List.cons_prefix_cons.mp hhead).1.symm (hp.1.ne_open (by simp))
      · have hin' := infix_of_infix_append (fun b hb => hp.1.ne_open hb) hin
        refine infix_of_infix_append (c := [closeBrace]) ?_ hin'
        intro d hd
        rw [List.mem_singleton.mp hd]
        decide

theorem spell_ne_close_cons {names : List Text} {pieces : List Piece}
    (h : ∀ p ∈ pieces, p.Allowed names) (rest : Text) :
    spell pieces ≠ closeBrace :: rest := by
  intro he
  have hr := Template.read_spell h
  rw [he, Template.read_stray] at hr
  exact absurd hr (by simp)

theorem not_close_infix_spell {names : List Text} {pieces : List Piece}
    (h : ∀ p ∈ pieces, p.Allowed names) : ¬ [closeBrace, closeBrace] <:+: spell pieces := by
  induction pieces with
  | nil => simp
  | cons p pieces ih =>
    intro hi
    have hall : ∀ q ∈ pieces, q.Allowed names := fun q hq => h q (by simp [hq])
    refine ih hall ?_
    have hp := h p (by simp)
    rw [spell_cons] at hi
    cases p with
    | byte b =>
      refine infix_of_infix_append (c := [b]) ?_ hi
      intro d hd
      rw [List.mem_singleton.mp hd]
      exact (isBrace_eq_false_iff.mp hp).2
    | placeholder c =>
      rw [written, written_append] at hi
      have hopen : ∀ d ∈ [openBrace], d ≠ closeBrace := by
        intro d hd
        rw [List.mem_singleton.mp hd]
        decide
      have hin := infix_of_infix_append hopen hi
      have hin' := infix_of_infix_append (fun b hb => hp.1.ne_close hb) hin
      rcases List.infix_cons_iff.mp hin' with hpre | hrest
      · obtain ⟨tail, htail⟩ := (List.cons_prefix_cons.mp hpre).2
        exact absurd htail.symm (spell_ne_close_cons hall tail)
      · exact hrest

end Piece

/-! ### The check of a declared template -/

namespace Operation

variable {contract operation : Text} {names : List Text} {source : Text}

theorem readTemplate_ok_iff {t : Template} :
    readTemplate contract operation names source = .ok t ↔ Template.read names source = .ok t := by
  rw [readTemplate]
  exact mapError_eq_ok_iff

theorem readTemplate_of_error {token : Text} (h : Template.read names source = .error token) :
    readTemplate contract operation names source =
      .error (.template contract operation token source) := by
  rw [readTemplate, h]
  rfl

theorem exists_readTemplate_ok_iff :
    (∃ t, readTemplate contract operation names source = .ok t) ↔
      ∃ pieces, (∀ p ∈ pieces, p.Allowed names) ∧ Piece.spell pieces = source := by
  constructor
  · rintro ⟨t, ht⟩
    exact Template.exists_pieces (readTemplate_ok_iff.mp ht)
  · rintro ⟨pieces, hall, rfl⟩
    exact ⟨_, readTemplate_ok_iff.mpr (Template.read_spell hall)⟩

theorem exists_readTemplate_error
    (h : ¬ ∃ pieces, (∀ p ∈ pieces, p.Allowed names) ∧ Piece.spell pieces = source) :
    ∃ token, readTemplate contract operation names source =
      .error (.template contract operation token source) := by
  cases hr : Template.read names source with
  | ok t => exact absurd (Template.exists_pieces hr) h
  | error token => exact ⟨token, readTemplate_of_error hr⟩

/-- **Exactly the rows of pieces are templates.**  A text is accepted if and only if it is bytes
that are no braces and placeholders, each with the name of a parameter or the place of one in one
to nine digits.  Every other text is refused with a token, and in no other way; the number of a
place is always small enough to be read; what names with braces are plays no part; and an accepted
text has no doubled brace. -/
theorem readTemplate_accepts_rows (contract operation : Text) (names : List Text)
    (source : Text) :
    ((∃ t, readTemplate contract operation names source = .ok t) ↔
      ∃ pieces, (∀ p ∈ pieces, p.Allowed names) ∧ Piece.spell pieces = source) ∧
    ((¬ ∃ pieces, (∀ p ∈ pieces, p.Allowed names) ∧ Piece.spell pieces = source) →
      ∃ token, readTemplate contract operation names source =
        .error (.template contract operation token source)) ∧
    (∀ content, Placeholder.Numeral content → numeralValue content < 1000000000) ∧
    (∀ rename, KeepsBraceless rename →
      readTemplate contract operation (names.map rename) source =
        readTemplate contract operation names source) ∧
    (∀ before after t, readTemplate contract operation names source = .ok t →
      source ≠ before ++ openBrace :: openBrace :: after ∧
        source ≠ before ++ closeBrace :: closeBrace :: after) := by
  refine ⟨exists_readTemplate_ok_iff, exists_readTemplate_error,
    fun _ hc => hc.numeralValue_lt, ?_, ?_⟩
  · intro rename hren
    rw [readTemplate, readTemplate, Template.read_rename hren]
  · intro before after t ht
    obtain ⟨pieces, hall, rfl⟩ := Template.exists_pieces (readTemplate_ok_iff.mp ht)
    constructor
    · intro he
      exact Piece.not_open_infix_spell hall ⟨before, after, by simp [he]⟩
    · intro he
      exact Piece.not_close_infix_spell hall ⟨before, after, by simp [he]⟩

end Operation

end TraceContract
