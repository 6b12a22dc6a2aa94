import TraceContract.Proofs.Record.Fields
import TraceContract.Proofs.Record.Rendering
import TraceContract.Proofs.Record.Texts

/-!
# The message and the fields agree

A name may be declared more than once.  Two rules choose among its arguments: a placeholder stands for
the first parameter of the name, and a field is that of the first one whose kind is a field's.  They
choose the same argument where the first parameter of the name has a field's kind, whatever the others
are, and then the message shows the text of the field.

* `Parameter.firstField_of_find?`: the two rules on a list of parameters.
* `Operation.Makes.lookup?_fields`: the field of a name, by its parameter.
* `Operation.Makes.exists_texts`: the message, by the bound arguments.
* `Operation.record_shows_fields`: both for every record of every contract.
-/

namespace TraceContract

namespace Parameter

variable {parameters : List Parameter} {name : Text} {p : Parameter}

theorem exists_of_find? (h : parameters.find? (·.name = name) = some p) :
    p.name = name ∧ parameters[(parameters.map (·.name)).idxOf name]? = some p ∧
      ∀ j q, j < (parameters.map (·.name)).idxOf name → parameters[j]? = some q → q.name ≠ name := by
  obtain ⟨hname, before, after, rfl, hbefore⟩ := List.find?_eq_some_iff_append.mp h
  have hname : p.name = name := by simpa using hname
  have hbefore : ∀ q ∈ before, q.name ≠ name := by simpa using hbefore
  have hplace : ((before ++ p :: after).map (·.name)).idxOf name = before.length := by
    have hnew : name ∉ before.map (·.name) := by
      rw [List.mem_map]
      rintro ⟨q, hq, hsame⟩
      exact hbefore q hq hsame
    rw [List.map_append, List.map_cons, hname, List.idxOf_append_of_notMem hnew,
      List.idxOf_cons_self, List.length_map, Nat.add_zero]
  rw [hplace]
  refine ⟨hname, by simp, fun j q hj hq => ?_⟩
  rw [List.getElem?_append_left hj] at hq
  exact hbefore q (List.mem_of_getElem? hq)

/-- **Two rules that choose the same**: the first parameter of a name, if it has a field's kind, is
the first of that name that has one. -/
theorem firstField_of_find? (h : parameters.find? (·.name = name) = some p)
    (hfield : p.kind.isField = true) :
    FirstField parameters name (Placeholder.slot (parameters.map (·.name)) name) p := by
  obtain ⟨hname, hplace, hfirst⟩ := exists_of_find? h
  have hmem : name ∈ parameters.map (·.name) :=
    List.mem_map.mpr ⟨p, List.mem_of_getElem? hplace, hname⟩
  rw [Placeholder.slot, if_pos hmem]
  exact ⟨hplace, hfield, hname, fun j q hj hq _ => hfirst j q hj hq⟩

end Parameter

namespace Operation

variable {d : OperationDecl} {op : Operation} {values bound : List Value} {r : Record}

theorem Makes.lookup?_fields (h : Makes d op) (hr : op.record values = .ok r)
    (hb : Binding.bind op.name op.decl.parameters values = .ok bound) {name : Text} {value : Value} :
    Fields.lookup? r.fields name = some value ↔
      ∃ i p, Parameter.FirstField op.decl.parameters name i p ∧ bound[i]? = some value := by
  rw [fields_of_makes h hr hb, Fields.lookup?_insertAll]
  exact Record.lookup?_offered (Binding.length_of_bind hb)

theorem Makes.exists_texts (h : Makes d op) (hr : op.record values = .ok r)
    (hb : Binding.bind op.name op.decl.parameters values = .ok bound) :
    ∃ texts, r.message = Template.fill texts d.template ∧
      ∀ content ∈ Template.contents d.template, ∃ v,
        bound[Placeholder.slot d.parameterNames content]? = some v ∧
          v.render = .ok (texts content) := by
  rw [record_of_bind hb] at hr
  obtain ⟨text, hcompose, rfl⟩ := map_eq_ok_iff.mp hr
  obtain ⟨texts, rfl, htexts⟩ := Record.exists_texts h.template hcompose
  refine ⟨texts, rfl, fun content hcontent => ?_⟩
  obtain ⟨p, -, v, hp, -, hv, -⟩ := h.exists_bindsTo hb (List.mem_map_of_mem hcontent)
  have hrender := htexts content hcontent
  rw [h.decl, Record.renderAt_eq hp hv] at hrender
  exact ⟨v, hv, Record.render_of_renderArgument hrender⟩

/-- **The message shows the fields.**  Let a call of an operation make a record.  Its message is the
declared template filled with texts of bound arguments, at each placeholder that of the parameter that
the placeholder stands for.  Where a placeholder is a name and the first parameter of that name has a
field's kind, the record has a field of the name, and its text is the one in the message.  That holds
whatever other parameters have the name, and also where the argument was converted. -/
theorem record_shows_fields {decl : ContractDecl} {c : Contract}
    (hc : Contract.compile decl = .ok c) {op : Operation} (hop : op ∈ c.operations)
    {values : List Value} {r : Record} (hr : op.record values = .ok r) :
    ∃ bound texts, Binding.bind op.name op.decl.parameters values = .ok bound ∧
      r.message = Template.fill texts op.decl.template ∧
      (∀ content ∈ Template.contents op.decl.template, ∃ v,
        bound[Placeholder.slot op.decl.parameterNames content]? = some v ∧
          v.render = .ok (texts content)) ∧
      ∀ name ∈ Template.contents op.decl.template, ∀ p,
        op.decl.parameters.find? (·.name = name) = some p → p.kind.isField = true →
        ∃ value, Fields.lookup? r.fields name = some value ∧ value.render = .ok (texts name) := by
  obtain ⟨d, -, hm⟩ := Contract.exists_makes_of_mem hc hop
  obtain ⟨bound, hb⟩ := exists_bind_of_record hr
  obtain ⟨texts, hmessage, htexts⟩ := hm.exists_texts hr hb
  rw [← hm.decl] at hmessage htexts
  refine ⟨bound, texts, hb, hmessage, htexts, fun name hname p hfind hfield => ?_⟩
  obtain ⟨value, hvalue, hrender⟩ := htexts name hname
  exact ⟨value, (hm.lookup?_fields hr hb).mpr
    ⟨_, p, Parameter.firstField_of_find? hfind hfield, hvalue⟩, hrender⟩

/-- An operation that has each of two names for parameters of several kinds. -/
def tallyPieces : List Piece :=
  [.placeholder (ascii "sum"), .byte 47, .placeholder (ascii "unit"), .byte 47,
    .placeholder (ascii "sum")]

def tally : OperationDecl where
  name := ascii "Tally"
  level := some .info
  template := Piece.spell tallyPieces
  parameters :=
    [⟨ascii "sum", .floating, 0, []⟩, ⟨ascii "unit", .object, 1, []⟩,
      ⟨ascii "sum", .string, 2, []⟩, ⟨ascii "unit", .unsigned, 3, []⟩]

def tallying : Operation where
  decl := tally
  template := ⟨ascii "\x7b0\x7d/\x7b1\x7d/\x7b0\x7d",
    [⟨[], some 0⟩, ⟨ascii "/", some 1⟩, ⟨ascii "/", some 0⟩]⟩
  roles := { fields := [0, 2, 3], all := [0, 1, 2, 3] }

/-- The sum is converted, and both its placeholders show its field.  The unit is an object first, so
that the message shows the object and the field is another. -/
theorem record_shows_fields_tally :
    ∃ c r, Contract.compile ⟨[], [tally]⟩ = .ok c ∧ tallying ∈ c.operations ∧
      tallying.record [.integer 40, .boolean true, .string (ascii "none"), .integer 7] = .ok r ∧
      r.message = ascii "40/true/40" ∧
      ∃ value, Fields.lookup? r.fields (ascii "sum") = some value ∧
        value.render = .ok (ascii "40") := by
  have hc : Contract.compile ⟨[], [tally]⟩ = .ok ⟨[], [tallying]⟩ := rfl
  have hop : tallying ∈ [tallying] := List.mem_singleton.mpr rfl
  have hb : Binding.bind tallying.name tallying.decl.parameters
      [.integer 40, .boolean true, .string (ascii "none"), .integer 7] =
        .ok [.floating (Binary64.ofInt 40), .boolean true, .string (ascii "none"), .unsigned 7] := rfl
  have hall : ∀ p ∈ tallyPieces, p.Allowed tally.parameterNames := by decide
  obtain ⟨r, hr⟩ : ∃ r, tallying.record
      [.integer 40, .boolean true, .string (ascii "none"), .integer 7] = .ok r := ⟨_, rfl⟩
  obtain ⟨bound, texts, hbound, hmessage, htexts, hfields⟩ := record_shows_fields hc hop hr
  obtain rfl := Except.ok.inj (hb.symm.trans hbound)
  have hsum : texts (ascii "sum") = ascii "40" := by
    obtain ⟨v, hv, hrender⟩ := htexts (ascii "sum") (Piece.mem_contents_spell hall (by decide))
    obtain rfl := Option.some.inj hv
    rw [Value.render, Binary64.text_ofInt (by decide)] at hrender
    exact (Except.ok.inj hrender).symm
  have hunit : texts (ascii "unit") = ascii "true" := by
    obtain ⟨v, hv, hrender⟩ := htexts (ascii "unit") (Piece.mem_contents_spell hall (by decide))
    obtain rfl := Option.some.inj hv
    exact (Except.ok.inj hrender).symm
  refine ⟨_, r, hc, hop, hr, ?_, ?_⟩
  · rw [hmessage]
    show Template.fill texts (Piece.spell tallyPieces) = _
    rw [Piece.fill_spell texts hall]
    simp only [tallyPieces, List.flatMap_cons, List.flatMap_nil, Piece.filled, hsum, hunit]
    rfl
  · rw [← hsum]
    exact hfields _ (Piece.mem_contents_spell hall (by decide)) _ rfl rfl

end Operation

end TraceContract
