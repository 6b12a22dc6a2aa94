import TraceContract.Proofs.Layout.Texts

/-!
# Fields with the names of attributes

A field may have the name of an attribute.  It is marked if its key is taken, and the key of an
attribute is taken where the entry has the attribute:

    Application    if an application is named,
    Environment    if an environment is named,
    Exception      if the entry has an exception,

and always for the other five.  So a member under the key of an attribute that is there is that
attribute, whatever the fields.  But an attribute that is left out leaves its key to the fields.

* `mem_keys_attributes_iff` is the table above.
* `marked_eq_iff`: no name of an attribute comes about by marks.
* `fields_leave_attributes`: which keys the fields of any entry get, beside those of its attributes.
* `fields_under_attribute_keys`: an entry in which fields have the three keys.
-/

namespace TraceContract

namespace Members

/-! ### Which attributes are there -/

variable {application environment host : Text} {e : Entry}

theorem keys_attributes :
    keys (attributes application environment host e) =
      [ascii "Timestamp"] ++
        (if application = [] then [] else [ascii "Application"]) ++
        (if environment = [] then [] else [ascii "Environment"]) ++
        [ascii "Hostname", ascii "LoggerName", ascii "Level", ascii "Message"] ++
        (if e.exception = none then [] else [ascii "Exception"]) := by
  obtain ⟨severity, logger, message, instant, fields, exception⟩ := e
  by_cases happlication : application = [] <;> by_cases henvironment : environment = [] <;>
    cases exception <;>
    simp only [attributes, optional, happlication, henvironment, if_true, if_false] <;>
    rfl

/-- **Which attributes an entry has.** -/
theorem mem_keys_attributes_iff :
    ∀ key ∈ attributeKeys, (key ∈ keys (attributes application environment host e) ↔
      (key = ascii "Application" → application ≠ []) ∧
      (key = ascii "Environment" → environment ≠ []) ∧
      (key = ascii "Exception" → e.exception ≠ none)) := by
  rw [keys_attributes]
  by_cases happlication : application = [] <;> by_cases henvironment : environment = [] <;>
    by_cases hexception : e.exception = none <;>
    simp only [happlication, henvironment, hexception, if_true, if_false, ne_eq, not_true_eq_false,
      not_false_eq_true] <;>
    decide

/-! ### Which names marks lead to -/

theorem head?_ne_mark_of_mem_attributeKeys : ∀ key ∈ attributeKeys, key.head? ≠ some mark := by
  decide

theorem marked_eq_iff {key : Text} (h : key.head? ≠ some mark) {n : Nat} {name : Text} :
    marked n name = key ↔ n = 0 ∧ name = key := by
  constructor
  · rintro rfl
    cases n with
    | zero => exact ⟨rfl, rfl⟩
    | succ n => exact absurd rfl h
  · rintro ⟨rfl, rfl⟩
    rfl

/-! ### Which keys fields get -/

namespace Lays

variable {taken : List Text} {fields : Fields} {added : Members}

theorem notMem_taken (h : Lays taken fields added) {key : Text} (hkey : key ∈ keys added) :
    key ∉ taken := by
  induction h with
  | nil => exact absurd hkey (by simp [keys])
  | @cons taken name value rest n v members hn hv hrest ih =>
    rcases List.mem_cons.mp hkey with rfl | hlater
    · exact hn.free
    · exact fun hmem => ih hlater (List.mem_append_left _ hmem)

theorem mem_keys_iff (h : Lays taken fields added) {key : Text} (hmark : key.head? ≠ some mark)
    (hfree : key ∉ taken) : key ∈ keys added ↔ key ∈ fields.map Prod.fst := by
  induction h with
  | nil => exact Iff.rfl
  | @cons taken name value rest n v members hn hv hrest ih =>
    have hmarked : key = marked n name ↔ n = 0 ∧ name = key := eq_comm.trans (marked_eq_iff hmark)
    rw [keys, List.map_cons, List.map_cons, List.mem_cons, List.mem_cons]
    by_cases hname : key = name
    · -- A name that is free is not marked.
      subst hname
      have hzero : n = 0 := by
        refine Nat.eq_zero_of_not_pos fun hpos => hfree ?_
        exact hn.least 0 hpos
      exact iff_of_true (Or.inl (hmarked.mpr ⟨hzero, rfl⟩)) (Or.inl rfl)
    · have hother : key ≠ marked n name := fun heq => hname (hmarked.mp heq).2.symm
      have hfree' : key ∉ taken ++ [marked n name] := by
        simp only [List.mem_append, List.mem_singleton, not_or]
        exact ⟨hfree, hother⟩
      rw [← ih hfree', keys]
      simp only [hother, hname, false_or]

end Lays

theorem exists_lays {members : Members}
    (h : ofEntry application environment host e = .ok members) :
    ∃ added, members = attributes application environment host e ++ added ∧
      Lays (keys (attributes application environment host e)) e.fields added := by
  obtain ⟨added, hadd, hlays⟩ := lays_addFields (exists_ofEntry_iff.mp ⟨members, h⟩)
    (attributes application environment host e)
  exact ⟨added, Except.ok.inj (h.symm.trans hadd), hlays⟩

/-! ### An entry -/

/-- **Fields leave the attributes of an entry alone**, whatever their names.

There are members where all fields can be rendered: those of the attributes that the entry has, and
one for each field.  No field has the key of an attribute that is there, and a field of such a name is
marked, so that the member under the key is the attribute.  An attribute is there unless it is the
application or the environment and none is named, or the exception and the entry has none; a field has
the key of an attribute that is not there if and only if a field has its name. -/
theorem fields_leave_attributes (application environment host : Text) (e : Entry) :
    let own := attributes application environment host e
    ((∃ members, ofEntry application environment host e = .ok members) ↔
      ∀ field ∈ e.fields, ∃ text, field.2.render = .ok text) ∧
    (∀ members, ofEntry application environment host e = .ok members →
      ∃ added, members = own ++ added ∧ added.length = e.fields.length ∧
        (∀ (i : Nat) (name : Text) (value : Value), e.fields[i]? = some (name, value) →
          ∃ n v, added[i]? = some (marked n name, v) ∧ marked n name ∉ keys own ∧
            (name ∈ keys own → 0 < n)) ∧
        (∀ member ∈ members, member.1 ∈ keys own → member ∈ own) ∧
        ∀ key ∈ attributeKeys, key ∉ keys own →
          (key ∈ keys members ↔ key ∈ e.fields.map Prod.fst)) ∧
    ∀ key ∈ attributeKeys, (key ∈ keys own ↔
      (key = ascii "Application" → application ≠ []) ∧
      (key = ascii "Environment" → environment ≠ []) ∧
      (key = ascii "Exception" → e.exception ≠ none)) := by
  intro own
  refine ⟨exists_ofEntry_iff, fun members hmembers => ?_, mem_keys_attributes_iff⟩
  obtain ⟨added, rfl, hlays⟩ := exists_lays hmembers
  refine ⟨added, rfl, hlays.length_eq, ?_, ?_, ?_⟩
  · intro i name value hi
    obtain ⟨n, v, hget, -, hleast⟩ := hlays.getElem? hi
    have hfree : marked n name ∉ keys own := fun hmem =>
      hleast.free (List.mem_append_left _ hmem)
    refine ⟨n, v, hget, hfree, fun hname => Nat.pos_of_ne_zero ?_⟩
    rintro rfl
    exact hfree hname
  · intro member hmember hkey
    rcases List.mem_append.mp hmember with hown | hadded
    · exact hown
    · exact absurd hkey (hlays.notMem_taken (List.mem_map_of_mem hadded))
  · intro key hkey hfree
    rw [keys_append, List.mem_append]
    have hfields := hlays.mem_keys_iff (head?_ne_mark_of_mem_attributeKeys key hkey) hfree
    rw [← hfields]
    exact or_iff_right hfree

theorem addFields_of_free {members : Members} {name : Text} {value : Value} {rest : Fields}
    {v : MemberValue} (hv : ofValue value = .ok v) (hfree : name ∉ members.keys) :
    addFields members ((name, value) :: rest) = addFields (members ++ [(name, v)]) rest := by
  rw [addFields, hv]
  simp only
  rw [freeKey, if_neg hfree]

/-- An entry without an exception that has fields with the names of attributes. -/
def namesakes : Entry where
  fields := [(ascii "Application", .string (ascii "shop")), (ascii "Environment", .boolean true),
    (ascii "Exception", .integer 7)]

/-- **The key of an attribute that is left out is open to fields.**  With neither an application nor an
environment named, all three fields are written as they are called, under keys of attributes. -/
theorem fields_under_attribute_keys :
    let own := attributes [] [] (ascii "host") namesakes
    let added : Members := [(ascii "Application", .string (ascii "shop")),
      (ascii "Environment", .boolean true), (ascii "Exception", .integer 7)]
    ofEntry [] [] (ascii "host") namesakes = .ok (own ++ added) ∧
      ∀ member ∈ added, member.1 ∈ attributeKeys := by
  intro own added
  have hown : own.keys = [ascii "Timestamp", ascii "Hostname", ascii "LoggerName", ascii "Level",
    ascii "Message"] := rfl
  constructor
  · show addFields own _ = _
    rw [namesakes, addFields_of_free rfl (by rw [hown]; decide),
      addFields_of_free rfl (by rw [keys_append, hown]; decide),
      addFields_of_free rfl (by rw [keys_append, keys_append, hown]; decide)]
    rfl
  · decide

end Members

end TraceContract
