import TraceContract.Proofs.Binary64.Integers
import TraceContract.Proofs.Record.Bounds

/-!
# Binding leaves texts alone

Binding changes the kinds of numbers.  It does not change how they read: between the integer kinds a
number stays what it is, and an integer of at most fifteen digits that becomes a floating-point
number keeps its text.  Only an integer of more digits may read differently where floating point is
asked for (`Value.Oversized`).

* `Value.BindsTo.render_eq`: the text of one argument, from the ways in which an argument is bound.
* `Record.exists_texts`: every message is its template filled with the texts of bound arguments.
* `Binding.bind_keeps_texts`: texts before and after binding, for all parameters and arguments, and
  what is seen of them in messages.
-/

namespace TraceContract

open Text

/-! ### One argument -/

namespace Value

/-- Floating point is asked for, and the argument is an integer of more than fifteen digits. -/
def Oversized (declared : Kind) (v : Value) : Prop :=
  declared = .floating ∧ ∃ n, v.number? = some n ∧ 1000000000000000 ≤ n.natAbs

variable {declared : Kind} {v b : Value} {n : Int}

/-- Of either integer kind, a number has the same text. -/
theorem render_of_number? (h : v.number? = some n) : v.render = .ok (signed n) := by
  cases v with
  | integer i =>
    obtain rfl := Option.some.inj h
    rfl
  | unsigned u =>
    obtain rfl := Option.some.inj h
    rw [render, signed, if_neg (by omega), Int.natAbs_natCast]
  | _ => exact absurd h (by simp [number?])

/-- **What is bound reads as what was given.** -/
theorem BindsTo.render_eq (h : BindsTo declared v b) (hsize : ¬ v.Oversized declared) :
    b.render = v.render := by
  -- What becomes an integer of the other kind, and what becomes a floating-point number.
  have among (hd : declared ≠ .floating) {n : Int} (hv : v.number? = some n) :
      b.render = v.render := by
    rw [render_of_number? hv, render_of_number? ((h.number?_eq hd).trans hv)]
  have widened (hd : declared = .floating) {n : Int} (hv : v.number? = some n) :
      b.render = v.render := by
    have hn : n.natAbs < 1000000000000000 := by
      refine Nat.lt_of_not_le fun hle => hsize ⟨hd, n, hv, hle⟩
    subst hd
    rw [h.eq_floating hv, render_of_number? hv, render, Binary64.text_ofInt hn]
  cases h with
  | same => rfl
  | toInteger u hu => exact among (by decide) rfl
  | toUnsigned i hi => exact among (by decide) rfl
  | ofInteger i => exact widened rfl rfl
  | ofUnsigned u => exact widened rfl rfl
  | asObject => rfl

theorem not_oversized_of_lt (hv : v.number? = some n) (hn : n.natAbs < 1000000000000000) :
    ¬ v.Oversized declared := by
  rintro ⟨-, m, hm, hle⟩
  obtain rfl := Option.some.inj (hv.symm.trans hm)
  omega

end Value

/-! ### Messages -/

theorem Template.slot_lt_of_mem_contents {names : List Text} {source : Text} {t : Template}
    (ht : read names source = .ok t) {c : Text} (hc : c ∈ contents source) :
    Placeholder.slot names c < names.length := by
  obtain ⟨pieces, hall, rfl, -⟩ := read_eq_ok_iff.mp ht
  rw [Piece.contents_spell hall, Piece.mem_filterMap_content?_iff] at hc
  exact Placeholder.slot_lt (hall _ hc).2

namespace Record

variable {operation : Text} {parameters : List Parameter} {values : List Value} {text : Text}

theorem render_of_renderArgument {p : Parameter} {v : Value}
    (h : renderArgument operation p v = .ok text) : v.render = .ok text := by
  rw [renderArgument.eq_def] at h
  split at h
  · exact absurd h (by simp)
  · exact mapError_eq_ok_iff.mp h

theorem exists_texts {names : List Text} {source : Text} {t : Template}
    (ht : Template.read names source = .ok t)
    (h : compose operation parameters values t.segments = .ok text) :
    ∃ texts, text = Template.fill texts source ∧ ∀ c ∈ Template.contents source,
      renderAt operation parameters values (Placeholder.slot names c) = .ok (texts c) := by
  obtain ⟨pieces, hall, rfl, rfl⟩ := Template.read_eq_ok_iff.mp ht
  have hslots := exists_compose_iff.mp ⟨text, h⟩
  rw [Piece.slots_assemble, ← Piece.contents_spell hall] at hslots
  have hplace (c : Text) : ∃ shown, c ∈ Template.contents (Piece.spell pieces) →
      renderAt operation parameters values (Placeholder.slot names c) = .ok shown := by
    by_cases hc : c ∈ Template.contents (Piece.spell pieces)
    · obtain ⟨shown, hshown⟩ := hslots _ (List.mem_map_of_mem hc)
      exact ⟨shown, fun _ => hshown⟩
    · exact ⟨[], fun hmem => absurd hmem hc⟩
  choose texts htexts using hplace
  refine ⟨texts, ?_, htexts⟩
  have hfilled : compose operation parameters values (Piece.assemble names pieces).segments =
      .ok (pieces.flatMap (Piece.filled texts)) :=
    compose_assemble fun c hc => htexts c (Piece.mem_contents_spell hall hc)
  rw [Piece.fill_spell texts hall]
  exact Except.ok.inj (h.symm.trans hfilled)

end Record

/-! ### Every argument of a call -/

namespace Binding

variable {operation : Text} {parameters : List Parameter} {values bound : List Value}

/-- The bound argument that a text in a message comes from, and the argument that was given there. -/
theorem exists_render_of_renderAt (hb : bind operation parameters values = .ok bound) {i : Nat}
    (hi : i < parameters.length) {text : Text}
    (h : Record.renderAt operation parameters bound i = .ok text) :
    ∃ p v, parameters[i]? = some p ∧ values[i]? = some v ∧
      (¬ v.Oversized p.kind → v.render = .ok text) := by
  have hp := List.getElem?_eq_getElem hi
  obtain ⟨v, b, hv, hbound, hbinds⟩ := bindsTo_of_bind hb hp
  refine ⟨_, v, hp, hv, fun hsize => ?_⟩
  rw [Record.renderAt, hp, hbound] at h
  rw [← hbinds.render_eq hsize]
  exact Record.render_of_renderArgument h

/-- **Arguments read the same before and after they are bound**, unless floating point is asked for
and the argument is an integer of more than fifteen digits.

Let arguments be accepted for some parameters, of which each then has one argument, as it was given
and as it is bound.  The two have the same text, or none for the same reason.  An integer of at most
fifteen digits is written in decimal whatever its parameter declares, with no digit rounded, no
point and no exponent.  So a record that is made of the bound arguments shows, at every placeholder
of its template, the text of the argument that was given. -/
theorem bind_keeps_texts (hb : bind operation parameters values = .ok bound) :
    (values.length = parameters.length ∧ bound.length = parameters.length) ∧
    (∀ (i : Nat) (p : Parameter), parameters[i]? = some p →
      ∃ v b, values[i]? = some v ∧ bound[i]? = some b ∧
        (¬ v.Oversized p.kind → b.render = v.render) ∧
        ∀ n, v.number? = some n → n.natAbs < 1000000000000000 → b.render = .ok (signed n)) ∧
    (∀ source t level roles r, Template.read (parameters.map (·.name)) source = .ok t →
      Record.ofBound operation level t roles parameters bound = .ok r →
      ∃ texts, r.message = Template.fill texts source ∧
        ∀ c ∈ Template.contents source, ∃ p v,
          parameters[Placeholder.slot (parameters.map (·.name)) c]? = some p ∧
          values[Placeholder.slot (parameters.map (·.name)) c]? = some v ∧
          (¬ v.Oversized p.kind → v.render = .ok (texts c)) ∧
          ∀ n, v.number? = some n → n.natAbs < 1000000000000000 → texts c = signed n) := by
  have hlen := length_of_bind hb
  refine ⟨⟨(bind_ok_iff.mp hb).1, hlen⟩, ?_, ?_⟩
  · intro i p hp
    obtain ⟨v, b, hv, hbound, hbinds⟩ := bindsTo_of_bind hb hp
    refine ⟨v, b, hv, hbound, hbinds.render_eq, fun n hn hsmall => ?_⟩
    rw [hbinds.render_eq (Value.not_oversized_of_lt hn hsmall), Value.render_of_number? hn]
  · intro source t level roles r ht hr
    rw [Record.ofBound_of_length hlen] at hr
    obtain ⟨text, hcompose, rfl⟩ := map_eq_ok_iff.mp hr
    obtain ⟨texts, rfl, htexts⟩ := Record.exists_texts ht hcompose
    refine ⟨texts, rfl, fun c hc => ?_⟩
    have hslot := Template.slot_lt_of_mem_contents ht hc
    rw [List.length_map] at hslot
    obtain ⟨p, v, hp, hv, hrender⟩ := exists_render_of_renderAt hb hslot (htexts c hc)
    refine ⟨p, v, hp, hv, hrender, fun n hn hsmall => ?_⟩
    have htext := hrender (Value.not_oversized_of_lt hn hsmall)
    rw [Value.render_of_number? hn] at htext
    exact (Except.ok.inj htext).symm

/-- A template with two placeholders, and parameters for them. -/
def gaugePieces : List Piece := [.placeholder (ascii "level"), .byte 47, .placeholder (ascii "1")]

def gauge : List Parameter := [⟨ascii "level", .floating, 0, []⟩, ⟨ascii "mark", .unsigned, 1, []⟩]

/-- The least integer that keeps its text in floating point, and one that changes between the integer
kinds. -/
theorem bind_keeps_texts_gauge :
    ∃ bound r, bind [] gauge [.integer (-999999999999999), .integer 40] = .ok bound ∧
      Record.ofBound [] .info ⟨ascii "\x7b0\x7d/\x7b1\x7d", [⟨[], some 0⟩, ⟨ascii "/", some 1⟩]⟩ {}
        gauge bound = .ok r ∧
      r.message = ascii "-999999999999999/40" := by
  have hb : bind [] gauge [.integer (-999999999999999), .integer 40] =
      .ok [.floating (Binary64.ofInt (-999999999999999)), .unsigned 40] := rfl
  have hread : Template.read (gauge.map (·.name)) (Piece.spell gaugePieces) =
      .ok ⟨ascii "\x7b0\x7d/\x7b1\x7d", [⟨[], some 0⟩, ⟨ascii "/", some 1⟩]⟩ := rfl
  have hall : ∀ p ∈ gaugePieces, p.Allowed (gauge.map (·.name)) := by decide
  obtain ⟨-, -, hmessages⟩ := bind_keeps_texts hb
  obtain ⟨texts, hmessage, htexts⟩ := hmessages _ _ .info {} _ hread rfl
  have hlevel : texts (ascii "level") = ascii "-999999999999999" := by
    obtain ⟨_, _, hp, hv, -, hdecimal⟩ :=
      htexts (ascii "level") (Piece.mem_contents_spell hall (by decide))
    cases hp
    cases hv
    exact hdecimal _ rfl (by decide)
  have hmark : texts (ascii "1") = ascii "40" := by
    obtain ⟨_, _, hp, hv, -, hdecimal⟩ :=
      htexts (ascii "1") (Piece.mem_contents_spell hall (by decide))
    cases hp
    cases hv
    exact hdecimal _ rfl (by decide)
  refine ⟨_, _, hb, rfl, ?_⟩
  rw [hmessage, Piece.fill_spell texts hall]
  simp only [gaugePieces, List.flatMap_cons, List.flatMap_nil, Piece.filled, hlevel, hmark]
  rfl

end Binding

end TraceContract
