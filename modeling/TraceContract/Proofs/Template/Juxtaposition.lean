import TraceContract.Proofs.Record.Bounds
import TraceContract.Proofs.Template.Refusal

/-!
# Templates laid end to end

`Template.append` puts one template behind another.  The texts are laid end to end; of the segments,
what is literal at the end of the first template and at the beginning of the second becomes one
piece (`Segment.join`), so the segments are not simply those of the one and then those of the other.

* `Template.read_append`: **reading is additive** behind an accepted text, so that

      read names (before ++ rest) = (read names rest).map t.append

  where `t` is what `before` is read as.  The induction is on the pieces of `before`.
* `Record.compose_join` and `Record.ofBound_append_iff`: messages are additive too, and the message of
  the second template is not looked at where the first one fails.
* `Operation.readTemplate_append`: acceptance, text, messages and the token of a refusal.
-/

namespace TraceContract

open Text

/-! ### Putting one template behind another -/

namespace Segment

/-- The segments of one template and then those of another.  A literal end of the first joins what
the second begins with. -/
def join : List Segment → List Segment → List Segment
  | [], later => later
  | [⟨literal, none⟩], ⟨more, slot⟩ :: later => ⟨literal ++ more, slot⟩ :: later
  | s :: rest, later => s :: join rest later

variable {later : List Segment}

@[simp] theorem join_nil_left : join [] later = later := rfl

/-- Behind the place of a parameter nothing is joined. -/
theorem join_some (literal : Text) (i : Nat) (rest : List Segment) :
    join (⟨literal, some i⟩ :: rest) later = ⟨literal, some i⟩ :: join rest later := by
  rw [join]
  simp

theorem join_cons_cons (s first : Segment) (rest : List Segment) :
    join (s :: first :: rest) later = s :: join (first :: rest) later := by
  rw [join]
  simp

end Segment

namespace Template

/-- The template with another one behind it. -/
def append (t u : Template) : Template := ⟨t.text ++ u.text, Segment.join t.segments u.segments⟩

theorem empty_append (u : Template) : empty.append u = u := rfl

theorem consByte_append (b : UInt8) (t u : Template) :
    (consByte b t).append u = consByte b (t.append u) := by
  obtain ⟨text, segments⟩ := t
  obtain ⟨text', later⟩ := u
  cases segments with
  | nil =>
    cases later with
    | nil => rfl
    | cons next later => rfl
  | cons first rest =>
    obtain ⟨literal, slot⟩ := first
    cases slot with
    | some i => simp only [append, consByte, Segment.join_some, List.cons_append]
    | none =>
      cases rest with
      | cons second rest =>
        simp only [append, consByte, Segment.join_cons_cons, List.cons_append]
      | nil =>
        cases later with
        | nil => rfl
        | cons next later => rfl

theorem consSlot_append (i : Nat) (t u : Template) :
    (consSlot i t).append u = consSlot i (t.append u) := by
  simp only [append, consSlot, Segment.join_some, List.append_assoc]

theorem foldr_onto (names : List Text) (pieces : List Piece) (u : Template) :
    pieces.foldr (Piece.onto names) u = (Piece.assemble names pieces).append u := by
  induction pieces with
  | nil => exact (empty_append u).symm
  | cons p pieces ih =>
    rw [List.foldr_cons, ih, Piece.assemble_cons]
    cases p with
    | byte b => exact (consByte_append b _ u).symm
    | placeholder c => exact (consSlot_append _ _ u).symm

/-- **Reading is additive.**  Behind an accepted text, any text is read as it would be alone. -/
theorem read_append {names : List Text} {before : Text} {t : Template}
    (h : read names before = .ok t) (rest : Text) :
    read names (before ++ rest) = (read names rest).map t.append := by
  obtain ⟨pieces, hall, rfl, rfl⟩ := read_eq_ok_iff.mp h
  rw [read_spell_append hall]
  congr 1
  funext u
  exact foldr_onto names pieces u

end Template

/-! ### Messages -/

namespace Record

variable {operation : Text} {level : Level} {roles : Roles} {parameters : List Parameter}
  {values : List Value}

/-- Literal text that is put in front of a segment's own stands in front of the message. -/
theorem compose_literal_append (literal more : Text) (slot : Option Nat) (rest : List Segment) :
    compose operation parameters values (⟨literal ++ more, slot⟩ :: rest) =
      (compose operation parameters values (⟨more, slot⟩ :: rest)).map (literal ++ ·) := by
  cases slot with
  | none =>
    rw [compose_none, compose_none]
    cases compose operation parameters values rest with
    | error failure => rfl
    | ok text => exact congrArg Except.ok (List.append_assoc literal more text)
  | some i =>
    rw [compose_some, compose_some]
    cases renderAt operation parameters values i with
    | error failure => rfl
    | ok shown =>
      cases compose operation parameters values rest with
      | error failure => rfl
      | ok text => simp [Except.map]

def both (first second : Except Failure Text) : Except Failure Text :=
  match first with
  | .error failure => .error failure
  | .ok text => second.map (text ++ ·)

theorem both_map (front : Text) (first second : Except Failure Text) :
    both (first.map (front ++ ·)) second = (both first second).map (front ++ ·) := by
  cases first with
  | error failure => rfl
  | ok text =>
    cases second with
    | error failure => rfl
    | ok more => exact congrArg Except.ok (List.append_assoc front text more)

theorem both_nil (second : Except Failure Text) : both (.ok []) second = second := by
  cases second with
  | error failure => rfl
  | ok text => rfl

theorem both_eq_ok_iff {first second : Except Failure Text} {text : Text} :
    both first second = .ok text ↔
      ∃ front more, first = .ok front ∧ second = .ok more ∧ text = front ++ more := by
  cases first with
  | error failure => simp [both]
  | ok front =>
    rw [both, map_eq_ok_iff]
    constructor
    · rintro ⟨more, hsecond, rfl⟩
      exact ⟨front, more, rfl, hsecond, rfl⟩
    · rintro ⟨_, more, ⟨⟩, hsecond, rfl⟩
      exact ⟨more, hsecond, rfl⟩

/-- **Messages are additive**: what fails in the first part fails in the whole, and otherwise the
second part stands behind the first. -/
theorem compose_join (first later : List Segment) :
    compose operation parameters values (Segment.join first later) =
      both (compose operation parameters values first)
        (compose operation parameters values later) := by
  induction first with
  | nil => exact (both_nil _).symm
  | cons s rest ih =>
    obtain ⟨literal, slot⟩ := s
    cases slot with
    | some i =>
      rw [Segment.join_some, compose_some, compose_some, ih]
      cases renderAt operation parameters values i with
      | error failure => rfl
      | ok text => exact (both_map (literal ++ text) _ _).symm
    | none =>
      cases rest with
      | cons second rest =>
        rw [Segment.join_cons_cons, compose_none, compose_none, ih]
        exact (both_map literal _ _).symm
      | nil =>
        rw [compose_none, both_map, compose_nil, both_nil]
        cases later with
        | nil => rfl
        | cons next later => exact compose_literal_append literal next.literal next.slot later

/-- A call makes a record from two templates laid end to end where it makes one from each, and only
the message is not the same in all three. -/
theorem ofBound_append_iff {t u : Template} {r : Record} :
    ofBound operation level (t.append u) roles parameters values = .ok r ↔
      ∃ first second, ofBound operation level t roles parameters values = .ok first ∧
        ofBound operation level u roles parameters values = .ok second ∧
        r = { first with message := first.message ++ second.message } := by
  by_cases hlen : values.length = parameters.length
  · rw [ofBound_of_length hlen, ofBound_of_length hlen, ofBound_of_length hlen, Template.append,
      compose_join]
    simp only [map_eq_ok_iff, both_eq_ok_iff]
    constructor
    · rintro ⟨_, ⟨text, more, hfirst, hsecond, rfl⟩, rfl⟩
      exact ⟨_, _, ⟨text, hfirst, rfl⟩, ⟨more, hsecond, rfl⟩, rfl⟩
    · rintro ⟨_, _, ⟨text, hfirst, rfl⟩, ⟨more, hsecond, rfl⟩, rfl⟩
      exact ⟨_, ⟨text, more, hfirst, hsecond, rfl⟩, rfl⟩
  · rw [ofBound_of_length_ne hlen, ofBound_of_length_ne hlen, ofBound_of_length_ne hlen]
    simp

end Record

/-! ### The check of a declared template -/

namespace Operation

variable {contract operation : Text} {names : List Text} {before : Text} {t : Template}

theorem readTemplate_append_eq_error_iff
    (h : readTemplate contract operation names before = .ok t) {rest token : Text} :
    readTemplate contract operation names (before ++ rest) =
        .error (.template contract operation token (before ++ rest)) ↔
      readTemplate contract operation names rest =
        .error (.template contract operation token rest) := by
  rw [readTemplate, readTemplate, Template.read_append (readTemplate_ok_iff.mp h),
    mapError_eq_error_iff, mapError_eq_error_iff]
  simp

/-- **Templates can be put together from accepted ones.**

Let a text be accepted for some names.  Then a text with it in front is accepted if and only if the
rest is.  The positional text is that of the first part with that of the second behind it, and so is
the message that any arguments give it, where they give one to both parts; where they do not, there
is none.  If the rest is refused, the whole is, and for the same token. -/
theorem readTemplate_append (h : readTemplate contract operation names before = .ok t)
    (rest : Text) :
    ((∃ whole, readTemplate contract operation names (before ++ rest) = .ok whole) ↔
      ∃ u, readTemplate contract operation names rest = .ok u) ∧
    (∀ u, readTemplate contract operation names rest = .ok u →
      ∃ whole, readTemplate contract operation names (before ++ rest) = .ok whole ∧
        whole.text = t.text ++ u.text ∧
        ∀ level roles parameters values r,
          Record.ofBound operation level whole roles parameters values = .ok r ↔
            ∃ first second,
              Record.ofBound operation level t roles parameters values = .ok first ∧
              Record.ofBound operation level u roles parameters values = .ok second ∧
              r = { first with message := first.message ++ second.message }) ∧
    (∀ token,
      readTemplate contract operation names (before ++ rest) =
          .error (.template contract operation token (before ++ rest)) ↔
        readTemplate contract operation names rest =
          .error (.template contract operation token rest)) := by
  have hread := readTemplate_ok_iff.mp h
  refine ⟨?_, ?_, fun token => readTemplate_append_eq_error_iff h⟩
  · simp only [readTemplate_ok_iff]
    exact Template.exists_read_append_iff ⟨t, hread⟩
  · intro u hu
    refine ⟨t.append u, ?_, rfl, ?_⟩
    · rw [readTemplate_ok_iff, Template.read_append hread, readTemplate_ok_iff.mp hu]
      rfl
    · intro level roles parameters values r
      exact Record.ofBound_append_iff

/-- The comma behind the first placeholder and the space before the second are one piece of the
whole template. -/
theorem readTemplate_append_comma :
    ∃ whole r, readTemplate [] [] [ascii "a"] (ascii "\x7ba\x7d," ++ ascii " \x7b0\x7d") = .ok whole ∧
      whole.text = ascii "\x7b0\x7d, \x7b0\x7d" ∧
      Record.ofBound [] .info whole {} [⟨ascii "a", .integer, 0, []⟩] [.integer 7] = .ok r ∧
      r.message = ascii "7, 7" := by
  have h : readTemplate [] [] [ascii "a"] (ascii "\x7ba\x7d,") =
      .ok ⟨ascii "\x7b0\x7d,", [⟨[], some 0⟩, ⟨ascii ",", none⟩]⟩ := rfl
  have hrest : readTemplate [] [] [ascii "a"] (ascii " \x7b0\x7d") =
      .ok ⟨ascii " \x7b0\x7d", [⟨ascii " ", some 0⟩]⟩ := rfl
  obtain ⟨-, haccepted, -⟩ := readTemplate_append h (ascii " \x7b0\x7d")
  obtain ⟨whole, hwhole, htext, hrecord⟩ := haccepted _ hrest
  refine ⟨whole, _, hwhole, htext, (hrecord .info {} _ _ _).mpr ⟨_, _, rfl, rfl, rfl⟩, rfl⟩

end Operation

end TraceContract
