import TraceContract.Proofs.FirstOccurrences
import TraceContract.Proofs.Layout.Texts
import TraceContract.Proofs.Record.Bounds
import Mathlib.Data.List.Induction

/-!
# The fields of a record

A record has a field for every name that a parameter of a field's kind has, with the argument of
the first such parameter.  Names may be repeated, also by parameters of other kinds.

* `Fields.map_fst_insertAll` and `Fields.lookup?_insertAll`: what is in a list of fields to which
  others were added, by name.
* `Record.gather_eq`: the fields of a record are those that its arguments offer, added one by one.
* `Record.lookup?_offered`: the first of the offered fields of a name is that of the parameter that
  `Parameter.FirstField` tells.
* `Layout.exists_line`: entries whose fields all have a field's kind can be laid out.
* `Operation.record_fields`: all of it for every record of every contract.
-/

namespace TraceContract

/-! ### Lists of fields -/

namespace Fields

theorem any_iff {fields : Fields} {name : Text} :
    fields.any (·.1 = name) = true ↔ name ∈ fields.map Prod.fst := by
  simp

theorem insert_of_mem {fields : Fields} {name : Text} (h : name ∈ fields.map Prod.fst)
    (value : Value) : insert fields name value = (fields, false) := by
  rw [insert, if_pos (any_iff.mpr h)]

theorem insert_of_notMem {fields : Fields} {name : Text} (h : name ∉ fields.map Prod.fst)
    (value : Value) : insert fields name value = (fields ++ [(name, value)], true) := by
  rw [insert, if_neg fun hany => h (any_iff.mp hany)]

theorem insertAll_cons (fields : Fields) (name : Text) (value : Value)
    (rest : List (Text × Value)) :
    (insertAll fields ((name, value) :: rest)).1 =
      (insertAll (insert fields name value).1 rest).1 := rfl

theorem insertAll_concat (fields : Fields) (pairs : List (Text × Value)) (name : Text)
    (value : Value) :
    (insertAll fields (pairs ++ [(name, value)])).1 =
      (insert (insertAll fields pairs).1 name value).1 := by
  induction pairs generalizing fields with
  | nil => rfl
  | cons pair pairs ih => exact ih (insert fields pair.1 pair.2).1

theorem map_fst_insert {fields : Fields} {names : List Text}
    (h : fields.map Prod.fst = names.eraseDups) (name : Text) (value : Value) :
    (insert fields name value).1.map Prod.fst = (names ++ [name]).eraseDups := by
  by_cases hmem : name ∈ names
  · have hin : name ∈ fields.map Prod.fst := by
      rw [h]
      exact List.mem_eraseDups.mpr hmem
    rw [insert_of_mem hin, eraseDups_concat_of_mem hmem]
    exact h
  · have hout : name ∉ fields.map Prod.fst := by
      rw [h]
      exact fun hin => hmem (List.mem_eraseDups.mp hin)
    rw [insert_of_notMem hout, eraseDups_concat_of_notMem hmem, List.map_append, h]
    rfl

/-- **The names of the fields** are all names that were there or came later, where they first
occur. -/
theorem map_fst_insertAll {fields : Fields} {names : List Text}
    (h : fields.map Prod.fst = names.eraseDups) (pairs : List (Text × Value)) :
    (insertAll fields pairs).1.map Prod.fst = (names ++ pairs.map Prod.fst).eraseDups := by
  induction pairs generalizing fields names with
  | nil =>
    rw [List.map_nil, List.append_nil]
    exact h
  | cons pair pairs ih =>
    obtain ⟨name, value⟩ := pair
    rw [insertAll_cons, ih (map_fst_insert h name value), List.append_assoc]
    rfl

theorem lookup?_append (fields more : Fields) (name : Text) :
    lookup? (fields ++ more) name = (lookup? fields name).or (lookup? more name) := by
  rw [lookup?, lookup?, lookup?, List.find?_append]
  cases fields.find? (·.1 = name) with
  | none => rfl
  | some field => rfl

theorem lookup?_cons (name : Text) (value : Value) (rest : Fields) (other : Text) :
    lookup? ((name, value) :: rest) other =
      if name = other then some value else lookup? rest other := by
  by_cases h : name = other
  · rw [lookup?, List.find?_cons_of_pos (by simpa using h), if_pos h]
    rfl
  · rw [lookup?, List.find?_cons_of_neg (by simpa using h), if_neg h]
    rfl

theorem lookup?_isSome_iff {fields : Fields} {name : Text} :
    (lookup? fields name).isSome = true ↔ name ∈ fields.map Prod.fst := by
  rw [lookup?, Option.isSome_map, List.find?_isSome]
  simp

theorem lookup?_insert (fields : Fields) (name : Text) (value : Value) (other : Text) :
    lookup? (insert fields name value).1 other =
      (lookup? fields other).or (if name = other then some value else none) := by
  by_cases hmem : name ∈ fields.map Prod.fst
  · rw [insert_of_mem hmem]
    by_cases h : name = other
    · obtain ⟨known, hknown⟩ := Option.isSome_iff_exists.mp (lookup?_isSome_iff.mpr (h ▸ hmem))
      rw [hknown]
      rfl
    · rw [if_neg h, Option.or_none]
  · rw [insert_of_notMem hmem, lookup?_append, lookup?_cons]
    rfl

/-- **The value under a name** is the first that was added. -/
theorem lookup?_insertAll (fields : Fields) (pairs : List (Text × Value)) (name : Text) :
    lookup? (insertAll fields pairs).1 name = (lookup? fields name).or (lookup? pairs name) := by
  induction pairs generalizing fields with
  | nil => exact (Option.or_none ..).symm
  | cons pair pairs ih =>
    obtain ⟨first, value⟩ := pair
    rw [insertAll_cons, ih, lookup?_insert, lookup?_cons, Option.or_assoc]
    by_cases h : first = name
    · simp [h]
    · simp [h]

theorem mem_iff_lookup? {fields : Fields} (h : (fields.map Prod.fst).Nodup) {name : Text}
    {value : Value} : (name, value) ∈ fields ↔ lookup? fields name = some value := by
  induction fields with
  | nil => simp [lookup?]
  | cons field fields ih =>
    obtain ⟨first, known⟩ := field
    rw [List.map_cons, List.nodup_cons] at h
    rw [List.mem_cons, Prod.mk.injEq, lookup?_cons, ih h.2]
    by_cases hname : first = name
    · subst hname
      rw [if_pos rfl, Option.some.injEq]
      constructor
      · rintro (⟨-, rfl⟩ | hlater)
        · rfl
        · exact absurd (lookup?_isSome_iff.mp (by rw [hlater]; rfl)) h.1
      · rintro rfl
        exact Or.inl ⟨rfl, rfl⟩
    · rw [if_neg hname]
      exact ⟨fun hor => hor.resolve_left fun heq => hname heq.1.symm, Or.inr⟩

end Fields

/-! ### The fields that arguments offer -/

/-- The parameter `p` at place `i` is the first of a field's kind that has the name. -/
structure Parameter.FirstField (parameters : List Parameter) (name : Text) (i : Nat)
    (p : Parameter) : Prop where
  place : parameters[i]? = some p
  isField : p.kind.isField = true
  name_eq : p.name = name
  first : ∀ j q, j < i → parameters[j]? = some q → q.kind.isField = true → q.name ≠ name

theorem Parameter.FirstField.unique {parameters : List Parameter} {name : Text} {i j : Nat}
    {p q : Parameter} (hi : FirstField parameters name i p) (hj : FirstField parameters name j q) :
    i = j := by
  rcases Nat.lt_trichotomy i j with hlt | heq | hgt
  · exact absurd hi.name_eq (hj.first i p hlt hi.place hi.isField)
  · exact heq
  · exact absurd hj.name_eq (hi.first j q hgt hj.place hj.isField)

namespace Record

def offered (parameters : List Parameter) (values : List Value) : List (Text × Value) :=
  ((parameters.zip values).filter (·.1.kind.isField)).map fun (p, v) => (p.name, v)

variable {parameters : List Parameter} {values : List Value}

theorem map_fst_offered (h : values.length = parameters.length) :
    (offered parameters values).map Prod.fst =
      (parameters.filter (·.kind.isField)).map (·.name) := by
  induction parameters generalizing values with
  | nil => rfl
  | cons p parameters ih =>
    cases values with
    | nil => exact absurd h (by simp)
    | cons v values =>
      have ih := ih (show values.length = parameters.length by simpa using h)
      rw [offered] at ih ⊢
      rw [List.zip_cons_cons]
      cases hfield : p.kind.isField with
      | true =>
        rw [List.filter_cons_of_pos (by simpa using hfield),
          List.filter_cons_of_pos (by simpa using hfield), List.map_cons, List.map_cons, ih]
        rfl
      | false =>
        rw [List.filter_cons_of_neg (by simp [hfield]),
          List.filter_cons_of_neg (by simp [hfield]), ih]

theorem lookup?_offered (h : values.length = parameters.length) {name : Text} {value : Value} :
    Fields.lookup? (offered parameters values) name = some value ↔
      ∃ i p, Parameter.FirstField parameters name i p ∧ values[i]? = some value := by
  rw [Fields.lookup?, offered, List.find?_map, List.find?_filter, Option.map_map,
    Option.map_eq_some_iff]
  constructor
  · rintro ⟨⟨p, v⟩, hfind, rfl⟩
    obtain ⟨hp, i, hi, hget, hfirst⟩ := List.find?_eq_some_iff_getElem.mp hfind
    have hzip := List.getElem?_zip_eq_some.mp (List.getElem?_eq_some_iff.mpr ⟨hi, hget⟩)
    simp only [Function.comp_apply, decide_eq_true_eq] at hp
    refine ⟨i, p, ⟨hzip.1, hp.1, hp.2, ?_⟩, hzip.2⟩
    intro j q hj hq hfield hname
    have hlt : j < values.length := by
      rw [h]
      exact (List.getElem?_eq_some_iff.mp hq).1
    have hno := hfirst j hj
    rw [List.getElem_zip] at hno
    rw [(List.getElem?_eq_some_iff.mp hq).2] at hno
    simp [hfield, hname] at hno
  · rintro ⟨i, p, hfirst, hvalue⟩
    have hzip : (parameters.zip values)[i]? = some (p, value) :=
      List.getElem?_zip_eq_some.mpr ⟨hfirst.place, hvalue⟩
    obtain ⟨hi, hget⟩ := List.getElem?_eq_some_iff.mp hzip
    refine ⟨(p, value), List.find?_eq_some_iff_getElem.mpr ⟨?_, i, hi, hget, ?_⟩, rfl⟩
    · simp [hfirst.isField, hfirst.name_eq]
    · intro j hj
      have hlt : j < parameters.length := by
        rw [List.length_zip] at hi
        omega
      have hno := hfirst.first j parameters[j] hj (List.getElem?_eq_getElem hlt)
      rw [List.getElem_zip]
      cases hfield : parameters[j].kind.isField with
      | false => simp
      | true => simpa [hfield] using hno hfield

theorem gather_places (entries : List ((Parameter × Value) × Nat))
    (h : ∀ e ∈ entries, parameters[e.2]? = some e.1.1 ∧ values[e.2]? = some e.1.2) :
    gather parameters values (entries.map Prod.snd) =
      (Fields.insertAll [] (entries.map fun e => (e.1.1.name, e.1.2))).1 := by
  induction entries using List.reverseRecOn with
  | nil => rfl
  | append_singleton entries e ih =>
    have hlast := h e (List.mem_append_right entries List.mem_cons_self)
    have ih := ih fun other hmem => h other (List.mem_append_left [e] hmem)
    rw [List.map_append, List.map_append, List.map_singleton, List.map_singleton,
      gather_concat hlast.1 hlast.2, ih, Fields.insertAll_concat]

/-- **What a record has for fields** is what its arguments offer, added in order. -/
theorem gather_eq {handback : Handback} {roles : Roles}
    (hr : Roles.ofParameters handback parameters = .ok roles)
    (hlen : values.length = parameters.length) :
    gather parameters values roles.fields =
      (Fields.insertAll [] (offered parameters values)).1 := by
  have hfirsts : (parameters.zip values).map Prod.fst = parameters :=
    List.map_fst_zip (Nat.le_of_eq hlen.symm)
  have hplaces : roles.fields =
      ((parameters.zip values).zipIdx.filter (·.1.1.kind.isField)).map Prod.snd := by
    have hindexed : parameters.zipIdx =
        (parameters.zip values).zipIdx.map (Prod.map Prod.fst id) := by
      rw [← List.zipIdx_map, hfirsts]
    rw [Roles.fields_of_assign hr, hindexed, List.filter_map, List.map_map]
    rfl
  have hoffered : offered parameters values =
      ((parameters.zip values).zipIdx.filter (·.1.1.kind.isField)).map
        fun e => (e.1.1.name, e.1.2) := by
    show _ = ((parameters.zip values).zipIdx.filter
      ((fun e => e.1.kind.isField) ∘ Prod.fst)).map ((fun e => (e.1.name, e.2)) ∘ Prod.fst)
    rw [← List.map_map, ← List.filter_map, List.zipIdx_map_fst]
    rfl
  rw [hplaces, hoffered]
  refine gather_places _ ?_
  rintro ⟨⟨p, v⟩, i⟩ hmem
  exact List.getElem?_zip_eq_some.mp (List.mem_zipIdx_iff_getElem?.mp (List.mem_of_mem_filter hmem))

end Record

/-! ### Laying out fields -/

namespace Value

theorem exists_render {v : Value} (h : v.kind.isField = true) : ∃ text, v.render = .ok text := by
  cases v with
  | exception handle e => exact absurd h (by simp [kind, Kind.isField])
  | object typeName renderer => exact absurd h (by simp [kind, Kind.isField])
  | _ => exact ⟨_, rfl⟩

end Value

/-- **An entry whose fields have kinds of fields can be laid out.** -/
theorem Layout.exists_line {e : Entry} (h : ∀ field ∈ e.fields, field.2.kind.isField = true)
    (layout : Layout) : ∃ line, layout.line e = .ok line :=
  (exists_line_iff layout).mpr fun field hfield => Value.exists_render (h field hfield)

/-! ### The record of a call -/

namespace Operation

theorem fields_of_makes {d : OperationDecl} {op : Operation} (hm : Makes d op)
    {values bound : List Value} {r : Record} (hr : op.record values = .ok r)
    (hb : Binding.bind op.name op.decl.parameters values = .ok bound) :
    r.fields = (Fields.insertAll [] (Record.offered op.decl.parameters bound)).1 := by
  rw [record_of_bind hb] at hr
  obtain ⟨text, -, rfl⟩ := map_eq_ok_iff.mp hr
  have hroles := hm.roles
  rw [← hm.decl] at hroles
  exact Record.gather_eq hroles (Binding.length_of_bind hb)

theorem exception_of_makes {d : OperationDecl} {op : Operation} (hm : Makes d op)
    {values bound : List Value} {r : Record} (hr : op.record values = .ok r)
    (hb : Binding.bind op.name op.decl.parameters values = .ok bound) :
    (∀ (i : Nat) (p : Parameter), op.decl.parameters[i]? = some p → p.kind = .exception →
      ∃ handle e, values[i]? = some (.exception handle e) ∧ r.exception = some e) ∧
    ((∀ p ∈ op.decl.parameters, p.kind ≠ .exception) → r.exception = none) := by
  rw [record_of_bind hb] at hr
  obtain ⟨text, -, rfl⟩ := map_eq_ok_iff.mp hr
  have hroles := hm.roles
  rw [← hm.decl] at hroles
  constructor
  · intro i p hp hkind
    obtain ⟨v, b, hv, hbound, hbinds⟩ := Binding.bindsTo_of_bind hb hp
    rw [hkind] at hbinds
    obtain ⟨rfl, handle, e, rfl⟩ := hbinds.of_exception
    refine ⟨handle, e, hv, ?_⟩
    rw [(Roles.exception_eq_some_iff hroles).mpr ⟨p, hp, hkind⟩, Option.bind_some, hbound]
    rfl
  · intro hnone
    cases hplace : op.roles.exception with
    | none => rfl
    | some i =>
      obtain ⟨p, hp, hkind⟩ := (Roles.exception_eq_some_iff hroles).mp hplace
      exact absurd hkind (hnone p (List.mem_of_getElem? hp))

/-- **The fields and the exception of a record**, for every call of every contract that makes one.

The names of the fields are distinct: they are those of the parameters of a field's kind, in the
order in which these first have them.  The value under a name is the bound argument of the first
such parameter, and has the kind that was declared for it, so it is neither an exception nor an
object.  The exception is the argument of the parameter that is declared to be one, as it was given,
and there is none where none is declared.  Every entry with the fields of the record can be laid
out. -/
theorem record_fields {d : ContractDecl} {c : Contract} (hc : Contract.compile d = .ok c)
    {op : Operation} (hop : op ∈ c.operations) {values : List Value} {r : Record}
    (hr : op.record values = .ok r) :
    ∃ bound, Binding.bind op.name op.decl.parameters values = .ok bound ∧
      (r.fields.map Prod.fst).Nodup ∧
      r.fields.map Prod.fst =
        ((op.decl.parameters.filter (·.kind.isField)).map (·.name)).eraseDups ∧
      (∀ (name : Text) (value : Value), (name, value) ∈ r.fields ↔
        ∃ i p, Parameter.FirstField op.decl.parameters name i p ∧ bound[i]? = some value) ∧
      (∀ (i : Nat) (p : Parameter) (name : Text) (value : Value),
        Parameter.FirstField op.decl.parameters name i p → (name, value) ∈ r.fields →
          value.kind = p.kind) ∧
      (∀ field ∈ r.fields, field.2.kind ≠ .exception ∧ field.2.kind ≠ .object) ∧
      (∀ (i : Nat) (p : Parameter), op.decl.parameters[i]? = some p → p.kind = .exception →
        ∃ handle e, values[i]? = some (.exception handle e) ∧ r.exception = some e) ∧
      ((∀ p ∈ op.decl.parameters, p.kind ≠ .exception) → r.exception = none) ∧
      (∀ e : Entry, e.fields = r.fields → ∀ layout : Layout, ∃ line, layout.line e = .ok line) := by
  obtain ⟨decl, -, hm⟩ := Contract.exists_makes_of_mem hc hop
  obtain ⟨bound, hb⟩ := exists_bind_of_record hr
  have hlen := Binding.length_of_bind hb
  have hfields := fields_of_makes hm hr hb
  have hnames : r.fields.map Prod.fst =
      ((op.decl.parameters.filter (·.kind.isField)).map (·.name)).eraseDups := by
    have hempty : ([] : Fields).map Prod.fst = ([] : List Text).eraseDups := rfl
    rw [hfields, Fields.map_fst_insertAll hempty, List.nil_append, Record.map_fst_offered hlen]
  have hnodup : (r.fields.map Prod.fst).Nodup := by
    rw [hnames]
    exact nodup_eraseDups _
  have hmem (name : Text) (value : Value) : (name, value) ∈ r.fields ↔
      ∃ i p, Parameter.FirstField op.decl.parameters name i p ∧ bound[i]? = some value := by
    rw [Fields.mem_iff_lookup? hnodup, hfields, Fields.lookup?_insertAll]
    exact Record.lookup?_offered hlen
  -- Where two parameters are said to be the first of a name, they are the same.
  have hkind (name : Text) (value : Value) (i : Nat) (p : Parameter)
      (hfirst : Parameter.FirstField op.decl.parameters name i p)
      (hvalue : bound[i]? = some value) : value.kind = p.kind := by
    obtain ⟨v, b, -, hbound, hbinds⟩ := Binding.bindsTo_of_bind hb hfirst.place
    obtain rfl := Option.some.inj (hbound.symm.trans hvalue)
    refine hbinds.kind_eq ?_
    intro hobject
    exact absurd hfirst.isField (by simp [hobject, Kind.isField])
  have hisField : ∀ field ∈ r.fields, field.2.kind.isField = true := by
    rintro ⟨name, value⟩ hin
    obtain ⟨i, p, hfirst, hvalue⟩ := (hmem name value).mp hin
    rw [hkind name value i p hfirst hvalue]
    exact hfirst.isField
  obtain ⟨hexception, hnone⟩ := exception_of_makes hm hr hb
  refine ⟨bound, hb, hnodup, hnames, hmem, ?_, ?_, hexception, hnone, ?_⟩
  · intro i p name value hfirst hin
    obtain ⟨j, q, hother, hvalue⟩ := (hmem name value).mp hin
    obtain rfl : i = j := hfirst.unique hother
    obtain rfl := Option.some.inj (hfirst.place.symm.trans hother.place)
    exact hkind name value i p hother hvalue
  · intro field hin
    have hfield := hisField field hin
    constructor
    · intro hexc
      exact absurd hfield (by simp [hexc, Kind.isField])
    · intro hobj
      exact absurd hfield (by simp [hobj, Kind.isField])
  · intro e he layout
    exact Layout.exists_line (he ▸ hisField) layout

/-- An operation that has a name for three parameters, the first of which is of no field's kind. -/
def parcel : OperationDecl where
  name := ascii "Parcel"
  level := some .warning
  template := ascii "\x7bid\x7d lost"
  parameters :=
    [⟨ascii "id", .object, 0, []⟩, ⟨ascii "cause", .exception, 1, []⟩,
      ⟨ascii "id", .integer, 2, []⟩, ⟨ascii "id", .string, 3, []⟩]

/-- The message shows the first argument of the name, and the one field has the second. -/
theorem record_fields_parcel :
    ∃ c op r, Contract.compile ⟨[], [parcel]⟩ = .ok c ∧ op ∈ c.operations ∧
      op.record [.boolean true, .exception 0 (.root (ascii "E") none), .integer 7,
        .string (ascii "seven")] = .ok r ∧
      r.message = ascii "true lost" ∧ (ascii "id", Value.integer 7) ∈ r.fields ∧
      r.fields.map Prod.fst = [ascii "id"] ∧
      r.exception = some (.root (ascii "E") none) := by
  have hc : Contract.compile ⟨[], [parcel]⟩ = .ok ⟨[],
      [⟨parcel, ⟨ascii "\x7b0\x7d lost", [⟨[], some 0⟩, ⟨ascii " lost", none⟩]⟩,
        { exception := some 1, fields := [2, 3], all := [0, 1, 2, 3] }⟩]⟩ := rfl
  have hr : Operation.record
      ⟨parcel, ⟨ascii "\x7b0\x7d lost", [⟨[], some 0⟩, ⟨ascii " lost", none⟩]⟩,
        { exception := some 1, fields := [2, 3], all := [0, 1, 2, 3] }⟩
      [.boolean true, .exception 0 (.root (ascii "E") none), .integer 7, .string (ascii "seven")] =
        .ok ⟨ascii "true lost", [(ascii "id", .integer 7)], .warning,
          some (.root (ascii "E") none)⟩ := rfl
  refine ⟨_, _, _, hc, List.mem_singleton.mpr rfl, hr, rfl, ?_⟩
  obtain ⟨bound, hb, -, hnames, hmem, -, -, hexception, -⟩ :=
    record_fields hc (List.mem_singleton.mpr rfl) hr
  obtain rfl := Except.ok.inj hb
  have hfirst : Parameter.FirstField parcel.parameters (ascii "id") 2
      ⟨ascii "id", .integer, 2, []⟩ := by
    refine ⟨rfl, rfl, rfl, ?_⟩
    intro j q hj hq hfield
    match j with
    | 0 => exact absurd hfield (by cases hq; decide)
    | 1 => exact absurd hfield (by cases hq; decide)
    | _ + 2 => omega
  obtain ⟨handle, e, hgiven, hthrown⟩ := hexception 1 _ rfl rfl
  obtain ⟨-, rfl⟩ := Value.exception.inj (Option.some.inj hgiven)
  exact ⟨(hmem _ _).mpr ⟨2, _, hfirst, rfl⟩, hnames, hthrown⟩

end Operation

end TraceContract
