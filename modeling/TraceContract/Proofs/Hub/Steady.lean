import TraceContract.Proofs.Hub.Delivery
import TraceContract.Proofs.Record.Fields

/-!
# Hubs whose sinks never throw

A sink throws where the function that it calls back does, or where a field cannot be laid out.  The
fields of a record always can, so a sink throws only through the code of others.

* `Sink.Steady`: that code never throws.  `Sink.Steady.stopped_write` and
  `Sink.Steady.events_afterWrites`: nor does the sink then, and what the outside sees of an entry
  does not depend on the entries before it.
* `Hub.having` is what a hub is after some entries went to all sinks that want them, and
  `Hub.emit_having` the step from there.
* `Operation.writable_record`: the fields of records can be laid out.
-/

namespace TraceContract

/-- All values are of a field's kind, so that every layout can show them. -/
def Fields.Writable (fields : Fields) : Prop := ∀ field ∈ fields, field.2.kind.isField = true

/-! ### One sink -/

def Delivery.callback? : Delivery → Option Callback
  | .console => none
  | .entries callback | .lines callback => callback

namespace Sink

/-- The function that the sink calls back, if it has one, throws at no call. -/
def Steady (s : Sink) : Prop := ∀ c ∈ s.delivery.callback?, ∀ n, c.refusal n = none

theorem steady_console : console.Steady := by
  intro c hc
  exact absurd hc (by simp [console, Delivery.callback?])

variable {s : Sink} {e : Entry}

theorem Steady.stopped_write (hs : s.Steady) (he : e.fields.Writable) :
    (s.write e).stopped = none := by
  rw [write]
  split
  · split
    · split
      next layout _ _ _ _ thrown hthrown =>
        obtain ⟨line, hline⟩ := Layout.exists_line he layout
        exact absurd (hline.symm.trans hthrown) (by simp)
      · rfl
    · rfl
  · rfl
  · rfl
  next callback hdelivery => exact hs callback (by rw [hdelivery]; rfl) callback.calls
  next callback hdelivery =>
    split
    · rfl
    next layout _ =>
      split
      next thrown hthrown =>
        obtain ⟨line, hline⟩ := Layout.exists_line he layout
        exact absurd (hline.symm.trans hthrown) (by simp)
      · exact hs callback (by rw [hdelivery]; rfl) callback.calls

theorem steady_uncounted : s.uncounted.Steady ↔ s.Steady := by
  obtain ⟨delivery, layout, outlet, minimum⟩ := s
  cases delivery with
  | console => exact Iff.rfl
  | entries callback => cases callback <;> simp [Steady, uncounted, Delivery.callback?]
  | lines callback => cases callback <;> simp [Steady, uncounted, Delivery.callback?]

theorem Steady.events_uncounted (hs : s.Steady) (e : Entry) :
    (s.uncounted.write e).events = (s.write e).events := by
  obtain ⟨delivery, layout, outlet, minimum⟩ := s
  have hrefusal (callback : Callback) (hc : delivery.callback? = some callback) (n : Nat) :
      callback.refusal n = none := hs callback (by rw [hc]; rfl) n
  cases delivery with
  | console => rfl
  | entries callback =>
    cases callback with
    | none => rfl
    | some callback => simp [uncounted, write, Callback.call, hrefusal callback rfl]
  | lines callback =>
    cases callback with
    | none => rfl
    | some callback =>
      cases layout with
      | none => rfl
      | some layout =>
        simp only [uncounted, write, Option.map_some]
        split
        · rfl
        · simp [Callback.call, hrefusal callback rfl]

theorem uncounted_afterWrites (s : Sink) (entries : List Entry) :
    (s.afterWrites entries).uncounted = s.uncounted := by
  induction entries generalizing s with
  | nil => rfl
  | cons e rest ih => exact (ih (s.write e).state).trans (s.uncounted_write e)

theorem Steady.afterWrites (hs : s.Steady) (entries : List Entry) :
    (s.afterWrites entries).Steady := by
  rw [← steady_uncounted, uncounted_afterWrites, steady_uncounted]
  exact hs

theorem Steady.events_afterWrites (hs : s.Steady) (entries : List Entry) (e : Entry) :
    ((s.afterWrites entries).write e).events = (s.write e).events := by
  rw [← (hs.afterWrites entries).events_uncounted, uncounted_afterWrites, hs.events_uncounted]

theorem wants_afterWrites (entries : List Entry) :
    (s.afterWrites entries).Wants e ↔ s.Wants e := by
  have hsame : (s.afterWrites entries).uncounted.minimum = s.uncounted.minimum := by
    rw [uncounted_afterWrites]
  have hminimum : (s.afterWrites entries).minimum = s.minimum := hsame
  rw [Wants, Wants, hminimum]

end Sink

/-! ### The hub -/

namespace Hub

def having (h : Hub) (entries : List Entry) : Hub :=
  { h with sinks := h.sinks.map fun s => s.afterWrites (entries.filter fun e => s.Wants e) }

def shown (h : Hub) (entries : List Entry) : List Event :=
  entries.flatMap fun e => h.sinks.flatMap (·.shown e)

variable {h : Hub}

theorem having_nil (h : Hub) : h.having [] = h := by
  rw [having]
  simp [Sink.afterWrites]

theorem Delivered.of_takes {e : Entry} {sinks : List Sink} {out : Effect (List Sink) Thrown}
    (hd : Delivered e sinks out) (h : ∀ s ∈ sinks, s.Takes e) :
    out = ⟨sinks.map (·.offered e), sinks.flatMap (·.shown e), none⟩ := by
  cases hd with
  | toAll => rfl
  | @untilThrow before rest s thrown _ hs ht =>
    have hnone := h s (List.mem_append_right before List.mem_cons_self) hs
    exact absurd (hnone.symm.trans ht) (by simp)

/-- **One more entry** goes to all sinks that want it. -/
theorem writeAll_having (hsteady : ∀ s ∈ h.sinks, s.Steady) (entries : List Entry) {e : Entry}
    (hoff : e.severity ≠ .off) (he : e.fields.Writable) :
    writeAll e (h.having entries).sinks =
      ⟨(h.having (entries ++ [e])).sinks, h.shown [e], none⟩ := by
  have htakes : ∀ s ∈ (h.having entries).sinks, s.Takes e := by
    intro s hs _
    obtain ⟨s, hmem, rfl⟩ := List.mem_map.mp hs
    exact ((hsteady s hmem).afterWrites _).stopped_write he
  rw [(delivered_writeAll hoff _).of_takes htakes, having, having, shown, List.map_map,
    List.flatMap_map]
  have hstates : h.sinks.map (Sink.offered e ∘
        fun s => s.afterWrites (entries.filter fun e => s.Wants e)) =
      h.sinks.map fun s => s.afterWrites ((entries ++ [e]).filter fun e => s.Wants e) := by
    refine List.map_congr_left fun s hs => ?_
    rw [Function.comp_apply, Sink.offered, List.filter_append, Sink.afterWrites_append]
    by_cases hwants : s.Wants e
    · rw [if_pos ((Sink.wants_afterWrites _).mpr hwants), List.filter_singleton]
      simp [hwants, Sink.afterWrites]
    · rw [if_neg fun hw => hwants ((Sink.wants_afterWrites _).mp hw), List.filter_singleton]
      simp [hwants, Sink.afterWrites]
  have hevents : (h.sinks.flatMap fun s =>
        (s.afterWrites (entries.filter fun e => s.Wants e)).shown e) =
      h.sinks.flatMap (·.shown e) := by
    refine List.flatMap_congr fun s hs => ?_
    rw [Sink.shown, Sink.shown, (hsteady s hs).events_afterWrites]
    by_cases hwants : s.Wants e
    · rw [if_pos ((Sink.wants_afterWrites _).mpr hwants), if_pos hwants]
    · rw [if_neg fun hw => hwants ((Sink.wants_afterWrites _).mp hw), if_neg hwants]
  rw [hstates, hevents, List.flatMap_singleton]

/-- **A record given to a hub whose sinks never throw**: its entry, if it makes one, goes to all
sinks that want it. -/
theorem emit_having (hsteady : ∀ s ∈ h.sinks, s.Steady) (entries : List Entry) (now : Int)
    (logger : Text) {r : Record} {severity : Severity} (hr : r.level.severity = .ok severity)
    (he : r.fields.Writable) :
    (h.having entries).emit now logger r =
      ⟨h.having (entries ++ (h.entryFor? now logger r).toList),
        h.shown (h.entryFor? now logger r).toList, none⟩ := by
  have hentry : h.entryFor? now logger r =
      if severity ≠ .off ∧ h.minimum.code ≤ severity.code then
        some (entryOf severity now logger r)
      else none := by
    rw [entryFor?, hr]
  rw [hentry]
  by_cases hp : severity ≠ .off ∧ h.minimum.code ≤ severity.code
  · have hpassed : (h.having entries).minimum.code ≤ severity.code := hp.2
    rw [if_pos hp, emit_of_passed hr hp.1 hpassed, writeAll_having hsteady entries hp.1 he]
    rfl
  · have hd : severity = .off ∨ severity.code < h.minimum.code := by
      rwa [not_and_or, not_not, Int.not_le] at hp
    rw [if_neg hp, emit_of_dropped (h := h.having entries) hr hd, Option.toList_none,
      List.append_nil]
    rfl

end Hub

/-! ### The fields of records -/

theorem Fields.mem_of_mem_insertAll {fields : Fields} {pairs : List (Text × Value)}
    {field : Text × Value} (h : field ∈ (insertAll fields pairs).1) :
    field ∈ fields ∨ field ∈ pairs := by
  induction pairs generalizing fields with
  | nil => exact Or.inl h
  | cons pair rest ih =>
    obtain ⟨name, value⟩ := pair
    rw [insertAll_cons] at h
    rcases ih h with hbefore | hrest
    · by_cases hname : name ∈ fields.map Prod.fst
      · rw [insert_of_mem hname] at hbefore
        exact Or.inl hbefore
      · rw [insert_of_notMem hname, List.mem_append, List.mem_singleton] at hbefore
        rcases hbefore with hold | rfl
        · exact Or.inl hold
        · exact Or.inr List.mem_cons_self
    · exact Or.inr (List.mem_cons_of_mem _ hrest)

/-- **The fields of a record can be laid out**: they are arguments that were bound to parameters of
a field's kind. -/
theorem Operation.writable_record {d : ContractDecl} {c : Contract}
    (hc : Contract.compile d = .ok c) {op : Operation} (hop : op ∈ c.operations)
    {arguments : List Value} {r : Record} (hr : op.record arguments = .ok r) :
    r.fields.Writable := by
  obtain ⟨decl, -, hm⟩ := Contract.exists_makes_of_mem hc hop
  obtain ⟨bound, hb⟩ := exists_bind_of_record hr
  rw [fields_of_makes hm hr hb]
  intro field hfield
  rcases Fields.mem_of_mem_insertAll hfield with hnone | hoffered
  · exact absurd hnone List.not_mem_nil
  obtain ⟨⟨p, v⟩, hmem, rfl⟩ := List.mem_map.mp hoffered
  obtain ⟨hzip, hfieldKind⟩ := List.mem_filter.mp hmem
  obtain ⟨i, hi⟩ := List.mem_iff_getElem?.mp hzip
  obtain ⟨hp, hv⟩ := List.getElem?_zip_eq_some.mp hi
  obtain ⟨given, b, -, hbound, hbinds⟩ := Binding.bindsTo_of_bind hb hp
  obtain rfl := Option.some.inj (hbound.symm.trans hv)
  have hkind : p.kind ≠ .object := by
    rintro hobject
    rw [hobject] at hfieldKind
    exact absurd hfieldKind (by simp [Kind.isField])
  show b.kind.isField = true
  rw [hbinds.kind_eq hkind]
  exact hfieldKind

end TraceContract
