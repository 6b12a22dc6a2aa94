import TraceContract.Proofs.Template.Acceptance

/-!
# Why a template is refused

A refused text begins with one that is accepted and goes on with something that no template has:
`Offends` lists what that can be, and the token that is reported for it.

* `Template.read_append_eq_error_iff`: an accepted text in front changes nothing about a refusal.
* `Template.Offends.not_read_front`: nothing that such a rest begins with is accepted, so the
  accepted text in front of it cannot be made longer.
* `Template.read_eq_error_iff`: a text is refused with a token if and only if it stops at one.
* `Operation.readTemplate_stops_once`: where it stops, and at which token, is settled by the text.
-/

namespace TraceContract

open Text

namespace Template

/-- No template goes on with this text; the second one is the token that is reported. -/
inductive Offends (names : List Text) : Text → Text → Prop
  | stray (rest : Text) : Offends names (closeBrace :: rest) [closeBrace]
  | unclosed (c : Text) (hc : Braceless c) : Offends names (openBrace :: c) [openBrace]
  | reopened (c rest : Text) (hc : Braceless c) :
      Offends names (openBrace :: (c ++ openBrace :: rest)) [openBrace]
  | unknown (c rest : Text) (hc : Braceless c) (hm : ¬ Placeholder.Means names c) :
      Offends names (Placeholder.written c ++ rest) (Placeholder.written c)

/-- The text begins with an accepted one, behind which it offends. -/
structure StopsAt (names : List Text) (source before rest token : Text) : Prop where
  split : source = before ++ rest
  accepted : ∃ t, read names before = .ok t
  offends : Offends names rest token

variable {names : List Text} {source before rest token : Text}

/-! ### Behind an accepted text -/

theorem read_append_eq_error_iff (h : ∃ t, read names before = .ok t) :
    read names (before ++ rest) = .error token ↔ read names rest = .error token := by
  obtain ⟨t, ht⟩ := h
  obtain ⟨pieces, hall, rfl⟩ := exists_pieces ht
  rw [read_spell_append hall]
  exact map_eq_error_iff

theorem exists_read_append_iff (h : ∃ t, read names before = .ok t) :
    (∃ t, read names (before ++ rest) = .ok t) ↔ ∃ t, read names rest = .ok t := by
  obtain ⟨t, ht⟩ := h
  obtain ⟨pieces, hall, rfl⟩ := exists_pieces ht
  rw [read_spell_append hall]
  simp

/-! ### What offends -/

theorem read_unknown {c : Text} (hc : Braceless c) (hm : ¬ Placeholder.Means names c)
    (rest : Text) :
    read names (Placeholder.written c ++ rest) = .error (Placeholder.written c) := by
  rw [read_placeholder hc, Placeholder.index?_of_not_means hm]

theorem Offends.read_eq (h : Offends names rest token) : read names rest = .error token := by
  cases h with
  | stray rest => exact read_stray rest
  | unclosed c hc => exact read_unclosed hc
  | reopened c rest hc => exact read_reopened hc rest
  | unknown c rest hc hm => exact read_unknown hc hm rest

/-- What a text begins with ends before its first brace, or has that brace too. -/
theorem braceless_or_of_append_eq {front back c rest : Text} {b : UInt8} (hc : Braceless c)
    (h : front ++ back = c ++ b :: rest) :
    Braceless front ∨ ∃ more, front = c ++ b :: more := by
  rcases List.append_eq_append_iff.mp h with ⟨more, rfl, -⟩ | ⟨more, rfl, hmore⟩
  · exact Or.inl fun d hd => hc d (List.mem_append_left more hd)
  · cases more with
    | nil =>
      rw [List.append_nil]
      exact Or.inl hc
    | cons d more =>
      obtain ⟨rfl, -⟩ := List.cons.inj hmore
      exact Or.inr ⟨more, rfl⟩

/-- **Nothing that an offending text begins with is accepted**, but the empty text. -/
theorem Offends.not_read_front {front back : Text} (h : Offends names (front ++ back) token)
    (hne : front ≠ []) : ¬ ∃ t, read names front = .ok t := by
  obtain ⟨first, front, rfl⟩ := List.exists_cons_of_ne_nil hne
  -- An opening brace with no further brace behind it is not closed.
  have unclosed (hfront : Braceless front) :
      ¬ ∃ t, read names (openBrace :: front) = .ok t := by
    rw [read_unclosed hfront]
    simp
  generalize hwhole : first :: front ++ back = whole at h
  rw [List.cons_append] at hwhole
  cases h with
  | stray rest =>
    obtain ⟨rfl, -⟩ := List.cons.inj hwhole
    rw [read_stray]
    simp
  | unclosed c hc =>
    obtain ⟨rfl, rfl⟩ := List.cons.inj hwhole
    exact unclosed fun b hb => hc b (List.mem_append_left back hb)
  | reopened c rest hc =>
    obtain ⟨rfl, hrest⟩ := List.cons.inj hwhole
    rcases braceless_or_of_append_eq hc hrest with hfront | ⟨more, rfl⟩
    · exact unclosed hfront
    · rw [read_reopened hc]
      simp
  | unknown c rest hc hm =>
    rw [written_append] at hwhole
    obtain ⟨rfl, hrest⟩ := List.cons.inj hwhole
    rcases braceless_or_of_append_eq hc hrest with hfront | ⟨more, rfl⟩
    · exact unclosed hfront
    · rw [← written_append, read_unknown hc hm]
      simp

/-! ### Where a text stops -/

theorem StopsAt.read_eq (h : StopsAt names source before rest token) :
    read names source = .error token := by
  rw [h.split, read_append_eq_error_iff h.accepted]
  exact h.offends.read_eq

/-- An accepted text put in front is a part of what is accepted. -/
theorem StopsAt.append {front : Text} (hfront : ∃ t, read names front = .ok t)
    (h : StopsAt names source before rest token) :
    StopsAt names (front ++ source) (front ++ before) rest token where
  split := by rw [h.split, List.append_assoc]
  accepted := (exists_read_append_iff hfront).mpr h.accepted
  offends := h.offends

theorem Offends.exists_stopsAt {known : Text} (h : Offends names source known)
    (hread : read names source = .error token) :
    ∃ before rest, StopsAt names source before rest token := by
  obtain rfl : known = token := Except.error.inj (h.read_eq.symm.trans hread)
  exact ⟨[], source, rfl, ⟨empty, rfl⟩, h⟩

theorem exists_stopsAt (h : read names source = .error token) :
    ∃ before rest, StopsAt names source before rest token := by
  -- The part before the offending one grows piece by piece.
  have extend {p : Piece} (hp : p.Allowed names) {rest : Text} :
      (∃ before behind, StopsAt names rest before behind token) →
        ∃ before behind, StopsAt names (p.written ++ rest) before behind token := by
    rintro ⟨before, behind, hstop⟩
    have hread : read names p.written = .ok (p.onto names empty) := by
      have := read_written hp []
      rwa [List.append_nil] at this
    exact ⟨_, behind, hstop.append ⟨_, hread⟩⟩
  induction source using brace_induction with
  | nil => exact absurd h (by simp [read, scan])
  | byte b rest hb ih =>
    rw [read_byte hb] at h
    exact extend (p := .byte b) hb (ih (map_eq_error_iff.mp h))
  | placeholder c rest hc ih =>
    by_cases hm : Placeholder.Means names c
    · rw [read_placeholder hc, Placeholder.index?_of_means hm] at h
      exact extend (p := .placeholder c) ⟨hc, hm⟩ (ih (map_eq_error_iff.mp h))
    · exact (Offends.unknown c rest hc hm).exists_stopsAt h
  | stray rest => exact (Offends.stray rest).exists_stopsAt h
  | unclosed c hc => exact (Offends.unclosed c hc).exists_stopsAt h
  | reopened c rest hc => exact (Offends.reopened c rest hc).exists_stopsAt h

/-- **Which texts are refused, and with which token.** -/
theorem read_eq_error_iff :
    read names source = .error token ↔ ∃ before rest, StopsAt names source before rest token := by
  refine ⟨exists_stopsAt, ?_⟩
  rintro ⟨before, rest, h⟩
  exact h.read_eq

/-- Of two places where a text stops, neither is behind the other. -/
theorem StopsAt.eq_of_append {before' rest' token' more : Text}
    (h : StopsAt names source before rest token)
    (h' : StopsAt names source before' rest' token') (hmore : before' = before ++ more) :
    before' = before := by
  have hrest : rest = more ++ rest' := by
    have heq := h.split.symm.trans h'.split
    rwa [hmore, List.append_assoc, List.append_cancel_left_eq] at heq
  by_cases hne : more = []
  · rw [hmore, hne, List.append_nil]
  · have haccepted := h'.accepted
    rw [hmore, exists_read_append_iff h.accepted] at haccepted
    exact absurd haccepted ((hrest ▸ h.offends).not_read_front hne)

/-- **A text stops at one place**, and with one token. -/
theorem StopsAt.unique {before' rest' token' : Text} (h : StopsAt names source before rest token)
    (h' : StopsAt names source before' rest' token') :
    before' = before ∧ rest' = rest ∧ token' = token := by
  have hbefore : before' = before := by
    rcases List.append_eq_append_iff.mp (h.split.symm.trans h'.split) with
      ⟨more, hmore, -⟩ | ⟨more, hmore, -⟩
    · exact h.eq_of_append h' hmore
    · exact (h'.eq_of_append h hmore).symm
  subst hbefore
  refine ⟨rfl, ?_, Except.error.inj (h'.read_eq.symm.trans h.read_eq)⟩
  have hsplit := h'.split.symm.trans h.split
  rwa [List.append_cancel_left_eq] at hsplit

end Template

namespace Operation

/-- **The token of a refusal is the first that offends.**  A refused template is in exactly one way
an accepted one with something behind it that no template goes on with: a closing brace; an opening
brace with no brace behind it, or another opening one; or a placeholder that stands for no
parameter.  The token is that brace or that placeholder, and the refusal tells besides the contract,
the operation and the whole of the template. -/
theorem readTemplate_stops_once {contract operation : Text} {names : List Text} {source : Text}
    {e : DeclarationError} (h : readTemplate contract operation names source = .error e) :
    ∃ before rest token, Template.StopsAt names source before rest token ∧
      e = .template contract operation token source ∧
      ∀ before' rest' token', Template.StopsAt names source before' rest' token' →
        before' = before ∧ rest' = rest ∧ token' = token := by
  cases hr : Template.read names source with
  | ok t =>
    rw [readTemplate_ok_iff.mpr hr] at h
    exact absurd h (by simp)
  | error token =>
    rw [readTemplate_of_error hr, Except.error.injEq] at h
    obtain ⟨before, rest, hstop⟩ := Template.read_eq_error_iff.mp hr
    exact ⟨before, rest, token, hstop, h.symm, fun _ _ _ => hstop.unique⟩

/-- The third of four placeholders is the first that stands for no parameter: there is none at
place 1. -/
theorem readTemplate_stops_once_place :
    ∃ before rest, Template.StopsAt [ascii "a"]
      (ascii "\x7ba\x7d \x7b0\x7d \x7b1\x7d \x7bb\x7d") before rest (ascii "\x7b1\x7d") := by
  have h : readTemplate [] [] [ascii "a"] (ascii "\x7ba\x7d \x7b0\x7d \x7b1\x7d \x7bb\x7d") =
      .error (.template [] [] (ascii "\x7b1\x7d")
        (ascii "\x7ba\x7d \x7b0\x7d \x7b1\x7d \x7bb\x7d")) := rfl
  obtain ⟨before, rest, token, hstop, he, -⟩ := readTemplate_stops_once h
  obtain ⟨-, -, rfl, -⟩ := DeclarationError.template.inj he
  exact ⟨before, rest, hstop⟩

end Operation

end TraceContract
