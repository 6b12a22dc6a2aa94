import TraceContract.Proofs.Contract.Compilation

/-!
# The message of a call

A call's message is made in two passes: the template is cut into segments when its contract is
compiled, and the segments are put together with the texts of the arguments at the call.
`Template.fill` does the same to the declared text at once, from the left to the right, and looks
at nothing but that text.  Here the two are shown to agree.

* `fill_spell` and `compose_assemble` say, of a row of pieces, what filling its text and composing
  its segments give, which is the same row of texts.  Both are inductions on the row; the bytes
  that wait for the end of their segment are taken care of by `compose_consByte`.
* `Operation.record_message`: the message of every call whose arguments are accepted and rendered.
-/

namespace TraceContract

open Text

/-! ### Filling a template -/

namespace Template

/-- The bytes between the opening brace that was read and the next closing one. -/
def content (rest : Text) : Text := rest.takeWhile (· != closeBrace)

def beyond (rest : Text) : Text := (rest.dropWhile (· != closeBrace)).tail

theorem length_beyond_lt (b : UInt8) (rest : Text) : (beyond rest).length < (b :: rest).length := by
  have h := (List.dropWhile_sublist (· != closeBrace) (l := rest)).length_le
  rw [beyond, List.length_tail, List.length_cons]
  omega

/-- The text with the braces and what is between them replaced, in one pass from the left. -/
def fill (texts : Text → Text) : Text → Text
  | [] => []
  | b :: rest =>
    if b = openBrace then texts (content rest) ++ fill texts (beyond rest)
    else b :: fill texts rest
termination_by source => source.length
decreasing_by
  · exact length_beyond_lt b rest
  · simp

def contents : Text → List Text
  | [] => []
  | b :: rest =>
    if b = openBrace then content rest :: contents (beyond rest) else contents rest
termination_by source => source.length
decreasing_by
  · exact length_beyond_lt b rest
  · simp

theorem content_append {c : Text} (hc : Braceless c) (rest : Text) :
    content (c ++ closeBrace :: rest) = c := by
  rw [content, List.takeWhile_append_of_pos fun b hb => by simpa using hc.ne_close hb,
    List.takeWhile_cons_of_neg (by simp), List.append_nil]

theorem beyond_append {c : Text} (hc : Braceless c) (rest : Text) :
    beyond (c ++ closeBrace :: rest) = rest := by
  rw [beyond, List.dropWhile_append_of_pos fun b hb => by simpa using hc.ne_close hb,
    List.dropWhile_cons_of_neg (by simp), List.tail_cons]

variable {texts : Text → Text}

theorem fill_placeholder {c : Text} (hc : Braceless c) (rest : Text) :
    fill texts (Placeholder.written c ++ rest) = texts c ++ fill texts rest := by
  rw [written_append, fill, if_pos rfl, content_append hc, beyond_append hc]

theorem fill_byte {b : UInt8} (hb : isBrace b = false) (rest : Text) :
    fill texts (b :: rest) = b :: fill texts rest := by
  rw [fill, if_neg (isBrace_eq_false_iff.mp hb).1]

theorem contents_placeholder {c : Text} (hc : Braceless c) (rest : Text) :
    contents (Placeholder.written c ++ rest) = c :: contents rest := by
  rw [written_append, contents, if_pos rfl, content_append hc, beyond_append hc]

theorem contents_byte {b : UInt8} (hb : isBrace b = false) (rest : Text) :
    contents (b :: rest) = contents rest := by
  rw [contents, if_neg (isBrace_eq_false_iff.mp hb).1]

end Template

namespace Piece

def filled (texts : Text → Text) : Piece → Text
  | byte b => [b]
  | placeholder content => texts content

def content? : Piece → Option Text
  | byte _ => none
  | placeholder content => some content

variable {names : List Text} {pieces : List Piece}

theorem fill_spell (texts : Text → Text) (h : ∀ p ∈ pieces, p.Allowed names) :
    Template.fill texts (spell pieces) = pieces.flatMap (filled texts) := by
  induction pieces with
  | nil => rw [spell_nil, Template.fill, List.flatMap_nil]
  | cons p pieces ih =>
    have hp := h p (by simp)
    rw [spell_cons, List.flatMap_cons, ← ih fun q hq => h q (by simp [hq])]
    cases p with
    | byte b => exact Template.fill_byte hp _
    | placeholder c => exact Template.fill_placeholder hp.1 _

theorem contents_spell (h : ∀ p ∈ pieces, p.Allowed names) :
    Template.contents (spell pieces) = pieces.filterMap content? := by
  induction pieces with
  | nil => rw [spell_nil, Template.contents, List.filterMap_nil]
  | cons p pieces ih =>
    have hp := h p (by simp)
    have ih := ih fun q hq => h q (by simp [hq])
    rw [spell_cons]
    cases p with
    | byte b =>
      rw [List.filterMap_cons_none rfl, ← ih]
      exact Template.contents_byte hp _
    | placeholder c =>
      change _ = c :: pieces.filterMap content?
      rw [← ih]
      exact Template.contents_placeholder hp.1 _

theorem mem_filterMap_content?_iff {c : Text} :
    c ∈ pieces.filterMap content? ↔ placeholder c ∈ pieces := by
  rw [List.mem_filterMap]
  constructor
  · rintro ⟨p, hp, hcontent⟩
    cases p with
    | byte b => exact absurd hcontent (by simp [content?])
    | placeholder c' =>
      obtain rfl := Option.some.inj hcontent
      exact hp
  · intro hc
    exact ⟨placeholder c, hc, rfl⟩

theorem mem_contents_spell (h : ∀ p ∈ pieces, p.Allowed names) {c : Text}
    (hc : placeholder c ∈ pieces) : c ∈ Template.contents (spell pieces) := by
  rw [contents_spell h]
  exact mem_filterMap_content?_iff.mpr hc

end Piece

/-! ### Composing segments -/

namespace Record

variable {operation : Text} {parameters : List Parameter} {values : List Value}

theorem compose_consByte (b : UInt8) (t : Template) :
    compose operation parameters values (t.consByte b).segments =
      (compose operation parameters values t.segments).map (b :: ·) := by
  obtain ⟨text, segments⟩ := t
  cases segments with
  | nil => rfl
  | cons first rest =>
    obtain ⟨literal, slot⟩ := first
    cases slot with
    | none =>
      rw [Template.consByte, compose_none, compose_none]
      cases compose operation parameters values rest with
      | error e => rfl
      | ok message => rfl
    | some i =>
      rw [Template.consByte, compose_some, compose_some]
      cases renderAt operation parameters values i with
      | error e => rfl
      | ok shown =>
        cases compose operation parameters values rest with
        | error e => rfl
        | ok message => rfl

theorem compose_consSlot {i : Nat} {shown : Text}
    (h : renderAt operation parameters values i = .ok shown) (t : Template) :
    compose operation parameters values (t.consSlot i).segments =
      (compose operation parameters values t.segments).map (shown ++ ·) := by
  rw [Template.consSlot, compose_some, h]
  rfl

/-- Where every placeholder of a row is rendered, its segments come to the texts of the row. -/
theorem compose_assemble {names : List Text} {texts : Text → Text} {pieces : List Piece}
    (h : ∀ c, Piece.placeholder c ∈ pieces →
      renderAt operation parameters values (Placeholder.slot names c) = .ok (texts c)) :
    compose operation parameters values (Piece.assemble names pieces).segments =
      .ok (pieces.flatMap (Piece.filled texts)) := by
  induction pieces with
  | nil => rfl
  | cons p pieces ih =>
    have ih := ih fun c hc => h c (List.mem_cons_of_mem p hc)
    rw [Piece.assemble_cons]
    cases p with
    | byte b =>
      rw [Piece.onto, compose_consByte, ih]
      rfl
    | placeholder c =>
      rw [Piece.onto, compose_consSlot (h c List.mem_cons_self), ih]
      rfl

end Record

/-! ### The text of an argument -/

namespace Value

/-- The argument can be rendered, and this is its text. -/
def RendersTo (v : Value) (text : Text) : Prop := v.isRenderable = true ∧ v.render = .ok text

end Value

namespace Record

theorem renderArgument_of_rendersTo {v : Value} {text : Text} (h : v.RendersTo text)
    (operation : Text) (p : Parameter) : renderArgument operation p v = .ok text := by
  obtain ⟨hr, ht⟩ := h
  cases v with
  | object typeName renderer =>
    cases renderer with
    | none => exact absurd hr (by simp [Value.isRenderable])
    | some outcome =>
      rw [renderArgument, ht]
      · rfl
      · simp
  | _ =>
    rw [renderArgument, ht]
    · rfl
    · simp

theorem renderAt_of_rendersTo {operation : Text} {parameters : List Parameter}
    {values : List Value} {i : Nat} (hi : i < parameters.length) {v : Value} {text : Text}
    (hv : values[i]? = some v) (h : v.RendersTo text) :
    renderAt operation parameters values i = .ok text := by
  rw [renderAt, List.getElem?_eq_getElem hi, hv]
  exact renderArgument_of_rendersTo h operation _

end Record

namespace Binding

theorem length_of_bindEach {operation : Text} {parameters : List Parameter}
    {values bound : List Value} (hl : values.length = parameters.length)
    (h : bindEach operation parameters values = .ok bound) : bound.length = parameters.length := by
  induction parameters generalizing values bound with
  | nil =>
    cases h
    rfl
  | cons p parameters ih =>
    cases values with
    | nil => exact absurd hl (by simp)
    | cons v values =>
      rw [bindEach] at h
      split at h
      · exact absurd h (by simp)
      · obtain ⟨later, hlater, rfl⟩ := map_eq_ok_iff.mp h
        rw [List.length_cons, List.length_cons, ih (by simpa using hl) hlater]

theorem length_of_bind {operation : Text} {parameters : List Parameter}
    {values bound : List Value} (h : bind operation parameters values = .ok bound) :
    bound.length = parameters.length := by
  rw [bind] at h
  split at h
  · next hl => exact length_of_bindEach hl h
  · exact absurd h (by simp)

end Binding

/-! ### The message -/

namespace Operation

theorem record_of_compose {op : Operation} {values bound : List Value} {message : Text}
    (hb : Binding.bind op.name op.decl.parameters values = .ok bound)
    (hm : Record.compose op.name op.decl.parameters bound op.template.segments = .ok message) :
    ∃ r, op.record values = .ok r ∧ r.message = message := by
  rw [record_of_accepted hb, Record.ofBound_of_length (Binding.length_of_bind hb), hm]
  exact ⟨_, rfl, rfl⟩

/-- **The message of a call is its template, filled.**  Let an operation compile, let the arguments
of a call be accepted, and let each argument that the template mentions be rendered.  Then the call
makes a record, and its message is the declared template with every placeholder replaced by the
text of an argument: that of the first parameter of the name between the braces, and where no
parameter has that name, the one whose place is written there. -/
theorem record_message {contract : Text} {d : OperationDecl} {op : Operation}
    (hc : compile contract d = .ok op) {values bound : List Value}
    (hb : Binding.bind d.name d.parameters values = .ok bound) {texts : Text → Text}
    (hr : ∀ c ∈ Template.contents d.template, ∀ v,
      bound[Placeholder.slot d.parameterNames c]? = some v → v.RendersTo (texts c)) :
    ∃ r, op.record values = .ok r ∧ r.message = Template.fill texts d.template ∧
      ∀ c ∈ Template.contents d.template, ∃ v,
        bound[Placeholder.slot d.parameterNames c]? = some v ∧ v.render = .ok (texts c) := by
  obtain ⟨-, hm⟩ := compile_ok_iff.mp hc
  obtain ⟨pieces, hall, hspell, hassemble⟩ := Template.read_eq_ok_iff.mp hm.template
  have hlen : bound.length = d.parameterNames.length := by
    rw [Binding.length_of_bind hb, OperationDecl.parameterNames, List.length_map]
  -- A content that stands for a parameter stands for an argument too.
  have hplace (c : Text) (hmem : Piece.placeholder c ∈ pieces) :
      ∃ v, bound[Placeholder.slot d.parameterNames c]? = some v ∧ v.RendersTo (texts c) := by
    have hlt := Placeholder.slot_lt (hall _ hmem).2
    rw [← hlen] at hlt
    have hv := List.getElem?_eq_getElem hlt
    exact ⟨_, hv, hr c (hspell ▸ Piece.mem_contents_spell hall hmem) _ hv⟩
  have hcompose : Record.compose d.name d.parameters bound op.template.segments =
      .ok (Template.fill texts d.template) := by
    rw [← hassemble, ← hspell, Piece.fill_spell texts hall]
    refine Record.compose_assemble fun c hmem => ?_
    obtain ⟨v, hv, hrender⟩ := hplace c hmem
    refine Record.renderAt_of_rendersTo ?_ hv hrender
    have hlt := Placeholder.slot_lt (hall _ hmem).2
    rwa [OperationDecl.parameterNames, List.length_map] at hlt
  have hdecl := hm.decl
  subst hdecl
  obtain ⟨r, hrec, hmsg⟩ := record_of_compose hb hcompose
  refine ⟨r, hrec, hmsg, fun c hcont => ?_⟩
  rw [← hspell, Piece.contents_spell hall, List.mem_filterMap] at hcont
  obtain ⟨p, hp, hpc⟩ := hcont
  cases p with
  | byte b => exact absurd hpc (by simp [Piece.content?])
  | placeholder c' =>
    obtain rfl := Option.some.inj hpc
    obtain ⟨v, hv, hrender⟩ := hplace c' hp
    exact ⟨v, hv, hrender.2⟩

/-- Placeholders by name, by name though it could be a place, and by place. -/
def pairPieces : List Piece :=
  [.byte 58, .placeholder (ascii "a"), .placeholder (ascii "1"), .placeholder (ascii "0")]

/-- An operation with a repeated name and a name that looks like a place. -/
def pair : OperationDecl where
  name := ascii "Pair"
  level := some .info
  template := Piece.spell pairPieces
  parameters :=
    [⟨ascii "a", .string, 0, []⟩, ⟨ascii "a", .string, 1, []⟩, ⟨ascii "1", .integer, 2, []⟩]

/-- The first argument has the bytes of a placeholder and a zero byte in it, and both go into the
message as they are. -/
theorem record_message_pair :
    ∃ op r, compile [] pair = .ok op ∧
      op.record [.string (ascii "\x7b1\x7d\x00"), .string [], .unsigned 5] = .ok r ∧
      r.message = ascii ":\x7b1\x7d\x005\x7b1\x7d\x00" := by
  have hc : compile [] pair = .ok
      ⟨pair, ⟨ascii ":\x7b0\x7d\x7b2\x7d\x7b0\x7d", [⟨ascii ":", some 0⟩, ⟨[], some 2⟩, ⟨[], some 0⟩]⟩,
        { fields := [0, 1, 2], all := [0, 1, 2] }⟩ := rfl
  have hb : Binding.bind pair.name pair.parameters
      [.string (ascii "\x7b1\x7d\x00"), .string [], .unsigned 5] =
        .ok [.string (ascii "\x7b1\x7d\x00"), .string [], .integer 5] := rfl
  have hall : ∀ p ∈ pairPieces, p.Allowed pair.parameterNames := by decide
  have hcontents : Template.contents pair.template = [ascii "a", ascii "1", ascii "0"] :=
    Piece.contents_spell hall
  have hrender : ∀ c ∈ Template.contents pair.template, ∀ v,
      ([.string (ascii "\x7b1\x7d\x00"), .string [], .integer 5] : List Value)[
        Placeholder.slot pair.parameterNames c]? = some v →
      v.RendersTo (if c = ascii "1" then ascii "5" else ascii "\x7b1\x7d\x00") := by
    intro c hmem v hv
    rw [hcontents] at hmem
    simp only [List.mem_cons, List.not_mem_nil, or_false] at hmem
    rcases hmem with rfl | rfl | rfl
    · cases hv; exact ⟨rfl, rfl⟩
    · cases hv; exact ⟨rfl, rfl⟩
    · cases hv; exact ⟨rfl, rfl⟩
  obtain ⟨r, hr, hm, -⟩ := record_message hc hb hrender
  refine ⟨_, r, hc, hr, ?_⟩
  rw [hm, show pair.template = Piece.spell pairPieces from rfl, Piece.fill_spell _ hall]
  rfl

end Operation

end TraceContract
