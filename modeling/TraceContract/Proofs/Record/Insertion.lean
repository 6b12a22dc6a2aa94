import TraceContract.Proofs.Record.Fields

/-!
# Fields that are inserted one after the other

The first field of a name stays, and later ones of that name are not added.  So a row of insertions
into no fields at all leaves a map from names to values in which the first pair of a name counts,
with the names in the order of these first pairs:

    lookup? (insertAll [] pairs).1 name = some value ↔ FirstUnder pairs name value

* `Fields.insertAll_append`: a row of insertions taken apart, the fields and what was said of each.
* `Fields.fst_insertAll`: what is added, and nothing else, is those pairs of which it was said.
* `Fields.getElem?_snd_insertAll`: of a pair it is said that it was added if its name is new.
* `Fields.insertAll_first_wins`: all of it for every row of insertions.
-/

namespace TraceContract

namespace Fields

/-! ### One insertion -/

theorem snd_insert_eq_true_iff {fields : Fields} {name : Text} {value : Value} :
    (insert fields name value).2 = true ↔ name ∉ fields.map Prod.fst := by
  by_cases hmem : name ∈ fields.map Prod.fst
  · rw [insert_of_mem hmem]
    simp [hmem]
  · rw [insert_of_notMem hmem]
    simp [hmem]

/-! ### Insertions in a row -/

/-- The pairs that were added, where it is known of each whether it was. -/
def kept (pairs : List (Text × Value)) (added : List Bool) : List (Text × Value) :=
  ((pairs.zip added).filter (·.2)).map Prod.fst

def FirstUnder (pairs : List (Text × Value)) (name : Text) (value : Value) : Prop :=
  ∃ before after, pairs = before ++ (name, value) :: after ∧ name ∉ before.map Prod.fst

variable {pairs : List (Text × Value)} {name : Text} {value : Value}

theorem insertAll_cons_eq (fields : Fields) (name : Text) (value : Value)
    (rest : List (Text × Value)) :
    insertAll fields ((name, value) :: rest) =
      ((insertAll (insert fields name value).1 rest).1,
        (insert fields name value).2 :: (insertAll (insert fields name value).1 rest).2) := rfl

theorem insertAll_append (fields : Fields) (pairs more : List (Text × Value)) :
    insertAll fields (pairs ++ more) =
      ((insertAll (insertAll fields pairs).1 more).1,
        (insertAll fields pairs).2 ++ (insertAll (insertAll fields pairs).1 more).2) := by
  induction pairs generalizing fields with
  | nil => rfl
  | cons pair pairs ih =>
    obtain ⟨name, value⟩ := pair
    rw [List.cons_append, insertAll_cons_eq, ih]
    rfl

theorem length_snd_insertAll (fields : Fields) (pairs : List (Text × Value)) :
    (insertAll fields pairs).2.length = pairs.length := by
  induction pairs generalizing fields with
  | nil => rfl
  | cons pair pairs ih => exact congrArg Nat.succ (ih (insert fields pair.1 pair.2).1)

/-- **What insertions add** is the pairs of which it was said that they were added, in order. -/
theorem fst_insertAll (fields : Fields) (pairs : List (Text × Value)) :
    (insertAll fields pairs).1 = fields ++ kept pairs (insertAll fields pairs).2 := by
  induction pairs generalizing fields with
  | nil => exact (List.append_nil fields).symm
  | cons pair pairs ih =>
    obtain ⟨name, value⟩ := pair
    -- What the first pair adds is there already when the others are inserted.
    rw [insertAll_cons_eq, ih]
    by_cases hmem : name ∈ fields.map Prod.fst
    · rw [insert_of_mem hmem]
      rfl
    · rw [insert_of_notMem hmem, List.append_assoc]
      rfl

theorem map_fst_insertAll_nil (pairs : List (Text × Value)) :
    (insertAll [] pairs).1.map Prod.fst = (pairs.map Prod.fst).eraseDups := by
  have hempty : ([] : Fields).map Prod.fst = ([] : List Text).eraseDups := rfl
  exact map_fst_insertAll hempty pairs

/-- **What is said of a pair**: that it was added, if no pair before it has its name. -/
theorem getElem?_snd_insertAll (before after : List (Text × Value)) (name : Text) (value : Value) :
    ∃ added, (insertAll [] (before ++ (name, value) :: after)).2[before.length]? = some added ∧
      (added = true ↔ name ∉ before.map Prod.fst) := by
  refine ⟨(insert (insertAll [] before).1 name value).2, ?_, ?_⟩
  · have hlength := length_snd_insertAll [] before
    rw [insertAll_append, List.getElem?_append_right (by omega), hlength, Nat.sub_self]
    rfl
  · rw [snd_insert_eq_true_iff, map_fst_insertAll_nil, List.mem_eraseDups]

/-! ### The map that is left -/

theorem lookup?_eq_some_iff : lookup? pairs name = some value ↔ FirstUnder pairs name value := by
  rw [lookup?, Option.map_eq_some_iff]
  constructor
  · rintro ⟨⟨name', value'⟩, hfind, rfl⟩
    obtain ⟨hname, before, after, rfl, hbefore⟩ := List.find?_eq_some_iff_append.mp hfind
    obtain rfl : name' = name := by simpa using hname
    refine ⟨before, after, rfl, fun hmem => ?_⟩
    obtain ⟨pair, hpair, rfl⟩ := List.mem_map.mp hmem
    simpa using hbefore pair hpair
  · rintro ⟨before, after, rfl, hbefore⟩
    refine ⟨(name, value), List.find?_eq_some_iff_append.mpr ⟨by simp, before, after, rfl, ?_⟩, rfl⟩
    intro pair hpair
    have hne : pair.1 ≠ name := fun heq => hbefore (heq ▸ List.mem_map_of_mem hpair)
    simpa using hne

theorem lookup?_eq_none_iff : lookup? pairs name = none ↔ name ∉ pairs.map Prod.fst := by
  rw [← lookup?_isSome_iff]
  simp

/-- **The first insertion of a name counts.**

Let pairs be inserted one after the other, into no fields at first.  Each insertion says that it
added its pair if and only if no earlier one was for that name.  The fields are the pairs that were
added, in order: their names are distinct, and are all names that were inserted in the order of
their first insertions, and each has the value of its first insertion.  That value is found under
the name, and nothing is found under a name if and only if it was never inserted. -/
theorem insertAll_first_wins (pairs : List (Text × Value)) :
    (insertAll [] pairs).2.length = pairs.length ∧
    (∀ before name value after, pairs = before ++ (name, value) :: after →
      ∃ added, (insertAll [] pairs).2[before.length]? = some added ∧
        (added = true ↔ name ∉ before.map Prod.fst)) ∧
    (insertAll [] pairs).1 = kept pairs (insertAll [] pairs).2 ∧
    ((insertAll [] pairs).1.map Prod.fst).Nodup ∧
    (insertAll [] pairs).1.map Prod.fst = (pairs.map Prod.fst).eraseDups ∧
    (∀ name value, (name, value) ∈ (insertAll [] pairs).1 ↔ FirstUnder pairs name value) ∧
    (∀ name value, lookup? (insertAll [] pairs).1 name = some value ↔
      FirstUnder pairs name value) ∧
    (∀ name, lookup? (insertAll [] pairs).1 name = none ↔ name ∉ pairs.map Prod.fst) := by
  have hnames := map_fst_insertAll_nil pairs
  have hnodup : ((insertAll [] pairs).1.map Prod.fst).Nodup := by
    rw [hnames]
    exact nodup_eraseDups _
  have hlookup (name : Text) : lookup? (insertAll [] pairs).1 name = lookup? pairs name :=
    lookup?_insertAll [] pairs name
  refine ⟨length_snd_insertAll [] pairs, ?_, fst_insertAll [] pairs, hnodup, hnames, ?_, ?_, ?_⟩
  · rintro before name value after rfl
    exact getElem?_snd_insertAll before after name value
  · intro name value
    rw [mem_iff_lookup? hnodup, hlookup, lookup?_eq_some_iff]
  · intro name value
    rw [hlookup, lookup?_eq_some_iff]
  · intro name
    rw [hlookup, lookup?_eq_none_iff]

/-- The second pair of a name is passed over, though what it has for a value is new. -/
example : insertAll [] [(ascii "b", .integer 1), (ascii "a", .boolean true), (ascii "b", .integer 2)] =
    ([(ascii "b", .integer 1), (ascii "a", .boolean true)], [true, true, false]) := rfl

end Fields

end TraceContract
