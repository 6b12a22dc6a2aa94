import TraceContract.Proofs.Contract.Compilation
import TraceContract.Proofs.Text.Decimals

/-!
# The positional text of a template

A template that is read keeps a text of its own, in which every placeholder is the place of its
parameter.  That text is a template again, for as long as places can be told from names: no
parameter is called by a number, and there are not more parameters than nine digits can count.

* `Piece.spell_positional`: the positional text is spelt by the pieces of the declared one with
  places for names.
* `Placeholder.means_decimal` and `Placeholder.slot_decimal`: a place that is written in decimal
  stands for the parameter at that place, whatever the parameters are called.
* `Operation.compile_positional`: reading the positional text changes nothing, and neither does
  declaring an operation with it.
-/

namespace TraceContract

open Text

namespace Text

theorem isBrace_of_isDigit {b : UInt8} (h : isDigit b = true) : isBrace b = false := by
  have hb := isDigit_iff.mp h
  rw [isBrace_eq_false_iff]
  constructor
  · rintro rfl
    exact absurd hb.2 (by decide)
  · rintro rfl
    exact absurd hb.2 (by decide)

theorem braceless_decimal (n : Nat) : Braceless (decimal n) := by
  intro b hb
  exact isBrace_of_isDigit (isDigit_of_mem_decimal hb)

end Text

/-! ### Places as placeholders -/

namespace Placeholder

variable {names : List Text} {i : Nat}

theorem numeral_decimal (h : i < 1000000000) : Numeral (decimal i) := by
  obtain ⟨hne, hall⟩ := digitRun_decimal i
  exact ⟨hne, (length_decimal_le_iff (by decide)).mpr h, hall⟩

theorem means_decimal (hcount : names.length ≤ 1000000000) (hi : i < names.length) :
    Means names (decimal i) := by
  refine Or.inr ⟨numeral_decimal (by omega), ?_⟩
  rw [numeralValue_decimal]
  exact hi

/-- Where no parameter is called by a number, a number means its place. -/
theorem slot_decimal (hnames : ∀ name ∈ names, ¬ DigitRun name) : slot names (decimal i) = i := by
  rw [slot, if_neg, numeralValue_decimal]
  intro hmem
  exact hnames _ hmem (digitRun_decimal i)

end Placeholder

/-! ### Pieces with places -/

namespace Piece

/-- The piece with the place of its parameter between the braces. -/
def positional (names : List Text) : Piece → Piece
  | byte b => byte b
  | placeholder c => placeholder (decimal (Placeholder.slot names c))

variable {names : List Text} {pieces : List Piece}

theorem spell_positional (names : List Text) (pieces : List Piece) :
    spell (pieces.map (positional names)) = (assemble names pieces).text := by
  induction pieces with
  | nil => rfl
  | cons p pieces ih =>
    rw [List.map_cons, spell_cons, assemble_cons, ih]
    cases p with
    | byte b => rfl
    | placeholder c => rfl

variable (hcount : names.length ≤ 1000000000) (hnames : ∀ name ∈ names, ¬ DigitRun name)

include hcount in
theorem allowed_positional (h : ∀ p ∈ pieces, p.Allowed names) :
    ∀ p ∈ pieces.map (positional names), p.Allowed names := by
  intro q hq
  obtain ⟨p, hp, rfl⟩ := List.mem_map.mp hq
  have hallowed := h p hp
  cases p with
  | byte b => exact hallowed
  | placeholder c =>
    refine ⟨braceless_decimal _, Placeholder.means_decimal hcount ?_⟩
    exact Placeholder.slot_lt hallowed.2

include hnames in
theorem assemble_positional (pieces : List Piece) :
    assemble names (pieces.map (positional names)) = assemble names pieces := by
  induction pieces with
  | nil => rfl
  | cons p pieces ih =>
    rw [List.map_cons, assemble_cons, assemble_cons, ih]
    cases p with
    | byte b => rfl
    | placeholder c => rw [positional, onto, onto, Placeholder.slot_decimal hnames]

end Piece

/-! ### Templates and operations -/

section Positional

variable {names : List Text} (hcount : names.length ≤ 1000000000)
  (hnames : ∀ name ∈ names, ¬ DigitRun name)

include hcount hnames

/-- **The positional text is read as the template that it belongs to.** -/
theorem Template.read_text {source : Text} {t : Template} (h : read names source = .ok t) :
    read names t.text = .ok t := by
  obtain ⟨pieces, hall, -, rfl⟩ := read_eq_ok_iff.mp h
  refine read_eq_ok_iff.mpr ⟨pieces.map (Piece.positional names), ?_, ?_, ?_⟩
  · exact Piece.allowed_positional hcount hall
  · exact Piece.spell_positional names pieces
  · exact Piece.assemble_positional hnames pieces

namespace Operation

theorem exists_compile_positional {contract : Text} {d : OperationDecl} {op : Operation}
    (hd : d.parameterNames = names) (h : compile contract d = .ok op) :
    ∃ again, compile contract { d with template := op.template.text } = .ok again ∧
      again.template = op.template ∧ again.roles = op.roles ∧
      ∀ values, again.record values = op.record values := by
  obtain ⟨hsound, hmakes⟩ := compile_ok_iff.mp h
  obtain rfl := hmakes.decl
  have hread := hmakes.template
  rw [hd] at hread
  have htext := Template.read_text hcount hnames hread
  rw [← hd] at htext
  refine ⟨{ op with decl := { op.decl with template := op.template.text } }, ?_, rfl, rfl,
    fun values => rfl⟩
  refine compile_ok_iff.mpr ⟨?_, rfl, htext, hmakes.roles⟩
  exact ⟨hsound.level, hsound.handback, ⟨_, htext⟩, hsound.roles⟩

/-- **A template may as well be declared by its positional text.**

Let there be not more than a thousand million parameters, and let none of them be called by a
number.  The positional text of every accepted template is accepted and read as the same template,
with the same text and the same segments.  An operation that compiles does so too when it is
declared with that text, everything else being equal: it has the same template and gives its
parameters the same roles, and any arguments make the same record of both or fail both with the
same. -/
theorem compile_positional :
    (∀ contract operation source t,
      readTemplate contract operation names source = .ok t →
        readTemplate contract operation names t.text = .ok t) ∧
    (∀ contract d op, d.parameterNames = names → compile contract d = .ok op →
      ∃ again, compile contract { d with template := op.template.text } = .ok again ∧
        again.template = op.template ∧ again.roles = op.roles ∧
        ∀ values, again.record values = op.record values) := by
  constructor
  · intro contract operation source t h
    rw [readTemplate_ok_iff] at h ⊢
    exact Template.read_text hcount hnames h
  · intro contract d op hd h
    exact exists_compile_positional hcount hnames hd h

end Operation

end Positional

/-- A parameter called by a number captures its place: what is read from the positional text here is
another template. -/
example :
    Template.read [ascii "a", ascii "0"] (ascii "\x7ba\x7d") =
      .ok ⟨ascii "\x7b0\x7d", [⟨[], some 0⟩]⟩ ∧
    Template.read [ascii "a", ascii "0"] (ascii "\x7b0\x7d") =
      .ok ⟨ascii "\x7b1\x7d", [⟨[], some 1⟩]⟩ := ⟨rfl, rfl⟩

namespace Operation

/-- An operation with a parameter whose name begins with a digit. -/
def haul : OperationDecl where
  name := ascii "Haul"
  level := some .info
  template := ascii "\x7b3rd\x7d of \x7b0\x7d"
  parameters := [⟨ascii "load", .string, 0, []⟩, ⟨ascii "3rd", .unsigned, 1, []⟩]

/-- The name has become the place 1, and the place in it has stayed. -/
theorem compile_positional_haul :
    ∃ op again, compile [] haul = .ok op ∧ op.template.text = ascii "\x7b1\x7d of \x7b0\x7d" ∧
      compile [] { haul with template := op.template.text } = .ok again ∧
      again.template = op.template ∧ again.roles = op.roles ∧
      ∀ values, again.record values = op.record values := by
  have hc : compile [] haul = .ok
      ⟨haul, ⟨ascii "\x7b1\x7d of \x7b0\x7d", [⟨[], some 1⟩, ⟨ascii " of ", some 0⟩]⟩,
        { fields := [0, 1], all := [0, 1] }⟩ := rfl
  have hnames : ∀ name ∈ [ascii "load", ascii "3rd"], ¬ DigitRun name := by decide
  obtain ⟨-, hcompile⟩ := compile_positional (by decide) hnames
  obtain ⟨again, hagain⟩ := hcompile [] haul _ rfl hc
  exact ⟨_, again, hc, rfl, hagain⟩

end Operation

end TraceContract
