import TraceContract.Layout.Members
import Mathlib.Data.List.Basic
import Mathlib.Data.List.Nodup

/-!
# The keys of members

The fields of an entry follow its attributes.  A field may have any name, one that is taken too, and
is then marked until its key is free.

* `Members.LeastMarks` says how many marks a name gets, and `Members.exists_leastMarks` that so many
  are found, after at most as many tries as keys are taken.
* `Members.Lays` is what the members of some fields are to be, one for one and in order, and
  `Members.lays_addFields` that they are so.
* `Members.assignAll_of_nodup`: members with distinct keys are what an object holds that they are
  written to one by one, and in which a key that is written again gets the new value.
* `Members.members_of_entry`: all members of an entry.
-/

namespace TraceContract

namespace Members

theorem keys_append (members others : Members) :
    keys (members ++ others) = members.keys ++ others.keys := List.map_append ..

/-! ### Marks -/

/-- A name with marks in front. -/
def marked (n : Nat) (name : Text) : Text := List.replicate n mark ++ name

/-- With so many marks the name is free, and with fewer it is taken. -/
structure LeastMarks (taken : List Text) (name : Text) (n : Nat) : Prop where
  free : marked n name ∉ taken
  least : ∀ m, m < n → marked m name ∈ taken

theorem marked_succ (n : Nat) (name : Text) : marked (n + 1) name = marked n (mark :: name) := by
  rw [marked, marked, List.replicate_succ', List.append_assoc]
  rfl

theorem LeastMarks.succ {taken : List Text} {name : Text} {n : Nat} (hname : name ∈ taken)
    (h : LeastMarks taken (mark :: name) n) : LeastMarks taken name (n + 1) := by
  constructor
  · rw [marked_succ]
    exact h.free
  · intro m hm
    cases m with
    | zero => exact hname
    | succ m =>
      rw [marked_succ]
      exact h.least m (by omega)

/-- **A name is marked no more than it takes.**  Each mark leaves fewer keys that are long enough to
be in the way. -/
theorem exists_leastMarks (taken : List Text) (name : Text) :
    ∃ n, freeKey taken name = marked n name ∧ LeastMarks taken name n ∧ n ≤ taken.length := by
  have hrivals : rivals taken name ≤ taken.length := List.countP_le_length
  suffices h : ∃ n, freeKey taken name = marked n name ∧ LeastMarks taken name n ∧
      n ≤ rivals taken name by
    obtain ⟨n, hkey, hleast, hn⟩ := h
    exact ⟨n, hkey, hleast, Nat.le_trans hn hrivals⟩
  clear hrivals
  induction hr : rivals taken name using Nat.strongRecOn generalizing name with
  | ind r ih =>
    subst hr
    rw [freeKey]
    by_cases hname : name ∈ taken
    · have hlt := rivals_cons_lt mark hname
      obtain ⟨n, hkey, hleast, hn⟩ := ih _ hlt (mark :: name) rfl
      rw [if_pos hname, hkey]
      exact ⟨n + 1, (marked_succ n name).symm, hleast.succ hname, by omega⟩
    · rw [if_neg hname]
      exact ⟨0, rfl, ⟨hname, fun m hm => absurd hm (Nat.not_lt_zero m)⟩, Nat.zero_le _⟩

theorem LeastMarks.unique {taken : List Text} {name : Text} {m n : Nat}
    (hm : LeastMarks taken name m) (hn : LeastMarks taken name n) : m = n := by
  rcases Nat.lt_trichotomy m n with h | h | h
  · exact absurd (hn.least m h) hm.free
  · exact h
  · exact absurd (hm.least n h) hn.free

/-! ### Members of fields -/

/-- The value of a member for a value of a field.  Only what has no type of its own among members is
shown by its text. -/
inductive Shows : Value → MemberValue → Prop
  | string (t : Text) : Shows (.string t) (.string t)
  | boolean (b : Bool) : Shows (.boolean b) (.boolean b)
  | integer (i : Int64) : Shows (.integer i) (.integer i)
  | unsigned (u : UInt64) : Shows (.unsigned u) (.unsigned u)
  | floating (x : Binary64) : Shows (.floating x) (.floating x)
  | text {v : Value} {t : Text} (hkind : v.kind = .character ∨ v.kind = .exception ∨ v.kind = .object)
      (ht : v.render = .ok t) : Shows v (.string t)

theorem Shows.ofValue_eq {v : Value} {m : MemberValue} (h : Shows v m) : ofValue v = .ok m := by
  cases h with
  | @text _ t hkind ht =>
    have hmap : v.render.map MemberValue.string = .ok (.string t) := by
      rw [ht]
      rfl
    cases v with
    | string | boolean | integer | unsigned | floating =>
      rcases hkind with hkind | hkind | hkind <;> cases hkind
    | character | exception | object => exact hmap
  | _ => rfl

theorem exists_shows {v : Value} (h : ∃ t, v.render = .ok t) : ∃ m, Shows v m := by
  obtain ⟨t, ht⟩ := h
  cases v with
  | string t => exact ⟨_, .string t⟩
  | boolean b => exact ⟨_, .boolean b⟩
  | integer i => exact ⟨_, .integer i⟩
  | unsigned u => exact ⟨_, .unsigned u⟩
  | floating x => exact ⟨_, .floating x⟩
  | character b => exact ⟨_, .text (Or.inl rfl) ht⟩
  | exception handle e => exact ⟨_, .text (Or.inr (Or.inl rfl)) ht⟩
  | object typeName renderer => exact ⟨_, .text (Or.inr (Or.inr rfl)) ht⟩

/-- The members that fields make where some keys are taken. -/
inductive Lays : List Text → Fields → Members → Prop
  | nil (taken : List Text) : Lays taken [] []
  | cons {taken : List Text} {name : Text} {value : Value} {rest : Fields} {n : Nat}
      {v : MemberValue} {members : Members} (hn : LeastMarks taken name n) (hv : Shows value v)
      (hrest : Lays (taken ++ [marked n name]) rest members) :
      Lays taken ((name, value) :: rest) ((marked n name, v) :: members)

theorem lays_addFields {fields : Fields} (h : ∀ field ∈ fields, ∃ t, field.2.render = .ok t)
    (members : Members) :
    ∃ added, addFields members fields = .ok (members ++ added) ∧ Lays members.keys fields added := by
  induction fields generalizing members with
  | nil => exact ⟨[], by rw [List.append_nil]; rfl, .nil _⟩
  | cons field rest ih =>
    obtain ⟨name, value⟩ := field
    obtain ⟨v, hshows⟩ := exists_shows (h (name, value) List.mem_cons_self)
    obtain ⟨n, hkey, hleast, -⟩ := exists_leastMarks members.keys name
    obtain ⟨added, hadd, hlays⟩ := ih (fun other hother => h other (List.mem_cons_of_mem _ hother))
      (members ++ [(marked n name, v)])
    refine ⟨(marked n name, v) :: added, ?_, ?_⟩
    · rw [addFields, hshows.ofValue_eq]
      simp only
      rw [hkey, hadd, List.append_assoc]
      rfl
    · rw [keys_append] at hlays
      exact .cons hleast hshows hlays

namespace Lays

variable {taken : List Text} {fields : Fields} {members : Members}

theorem length_eq (h : Lays taken fields members) : members.length = fields.length := by
  induction h with
  | nil => rfl
  | cons hn hv hrest ih => rw [List.length_cons, List.length_cons, ih]

theorem nodup (h : Lays taken fields members) (htaken : taken.Nodup) :
    (taken ++ members.keys).Nodup := by
  induction h with
  | nil taken =>
    rw [keys, List.map_nil, List.append_nil]
    exact htaken
  | @cons taken name value rest n v members hn hv hrest ih =>
    have hmore : (taken ++ [marked n name]).Nodup :=
      List.nodup_append'.mpr ⟨htaken, List.nodup_singleton _, by simpa using hn.free⟩
    have hall := ih hmore
    rw [List.append_assoc] at hall
    exact hall

theorem getElem? (h : Lays taken fields members) {i : Nat} {name : Text} {value : Value}
    (hi : fields[i]? = some (name, value)) :
    ∃ n v, members[i]? = some (marked n name, v) ∧ Shows value v ∧
      LeastMarks (taken ++ keys (members.take i)) name n := by
  induction h generalizing i with
  | nil => exact absurd hi (by simp)
  | @cons taken first value' rest n v members hn hv hrest ih =>
    cases i with
    | zero =>
      obtain ⟨rfl, rfl⟩ := Prod.mk.inj (Option.some.inj hi)
      refine ⟨n, v, rfl, hv, ?_⟩
      rw [List.take_zero, keys, List.map_nil, List.append_nil]
      exact hn
    | succ i =>
      obtain ⟨k, w, hget, hshows, hleast⟩ := ih hi
      refine ⟨k, w, hget, hshows, ?_⟩
      rw [List.append_assoc] at hleast
      exact hleast

end Lays

/-! ### An object -/

/-- Writes a member to an object.  A key that the object has stays where it is and gets the value;
any other is put at the end. -/
def assign (members : Members) (member : Text × MemberValue) : Members :=
  if member.1 ∈ members.keys then
    members.map fun other => if other.1 = member.1 then member else other
  else members ++ [member]

def assignAll (written : Members) (members : Members) : Members := members.foldl assign written

theorem assignAll_of_nodup {written members : Members} (h : (keys (written ++ members)).Nodup) :
    assignAll written members = written ++ members := by
  induction members generalizing written with
  | nil => rw [List.append_nil]; rfl
  | cons member rest ih =>
    have hnew : member.1 ∉ written.keys := by
      intro hold
      rw [keys_append, List.nodup_append] at h
      exact h.2.2 _ hold _ List.mem_cons_self rfl
    have hstep : assign written member = written ++ [member] := if_neg hnew
    rw [List.append_cons] at h ⊢
    rw [assignAll, List.foldl_cons, hstep]
    exact ih h

/-! ### The attributes -/

/-- The attributes in order, each with its text if the entry has it. -/
def attributeTexts (application environment host : Text) (e : Entry) :
    List (Text × Option Text) :=
  [(ascii "Timestamp", some (Instant.text e.instant)),
    (ascii "Application", if application = [] then none else some application),
    (ascii "Environment", if environment = [] then none else some environment),
    (ascii "Hostname", some host), (ascii "LoggerName", some e.logger),
    (ascii "Level", some e.severity.name), (ascii "Message", some e.message),
    (ascii "Exception", e.exception.map (·.describe [Text.newline]))]

/-- The keys of all attributes, whether an entry has them or not. -/
def attributeKeys : List Text :=
  [ascii "Timestamp", ascii "Application", ascii "Environment", ascii "Hostname",
    ascii "LoggerName", ascii "Level", ascii "Message", ascii "Exception"]

def shown? (item : Text × Option Text) : Option (Text × MemberValue) :=
  item.2.map fun text => (item.1, .string text)

theorem attributes_eq (application environment host : Text) (e : Entry) :
    attributes application environment host e =
      (attributeTexts application environment host e).filterMap shown? := by
  obtain ⟨severity, logger, message, instant, fields, exception⟩ := e
  by_cases happlication : application = [] <;> by_cases henvironment : environment = [] <;>
    cases exception <;>
    simp only [attributes, attributeTexts, optional, happlication, henvironment, if_true, if_false] <;>
    rfl

theorem keys_shown_sublist (items : List (Text × Option Text)) :
    (keys (items.filterMap shown?)).Sublist (items.map (·.1)) := by
  induction items with
  | nil => exact List.Sublist.slnil
  | cons item rest ih =>
    obtain ⟨key, text⟩ := item
    cases text with
    | none => exact ih.cons key
    | some text => exact ih.cons_cons key

/-- The attributes have eight different names. -/
theorem nodup_keys_attributes (application environment host : Text) (e : Entry) :
    (attributes application environment host e).keys.Nodup := by
  rw [attributes_eq]
  refine (keys_shown_sublist _).nodup ?_
  show attributeKeys.Nodup
  decide

/-! ### An entry -/

/-- **The members of an entry.**  Where all fields can be rendered there are members:

* first those of the attributes that the entry has, each with its own text, whatever the fields;
* then one of each field, in order, with the value of the field, under the name of the field with the
  least number of marks with which neither an attribute nor a field before it has taken it.

No key is there twice, so that an object that they are written to one by one holds all of them as they
are.  Whatever is taken and whether the fields can be rendered or not, a name gets no more marks than
there are keys taken. -/
theorem members_of_entry (application environment host : Text) (e : Entry) {fields : Fields}
    (h : ∀ field ∈ fields, ∃ text, field.2.render = .ok text) :
    let own := (attributeTexts application environment host e).filterMap shown?
    ∃ added : Members,
      ofEntry application environment host { e with fields := fields } = .ok (own ++ added) ∧
      added.length = fields.length ∧
      (∀ i name value, fields[i]? = some (name, value) →
        ∃ n v, added[i]? = some (marked n name, v) ∧ Shows value v ∧
          LeastMarks (keys (own ++ added.take i)) name n) ∧
      (keys (own ++ added)).Nodup ∧
      assignAll [] (own ++ added) = own ++ added ∧
      ∀ taken name, ∃ n, freeKey taken name = marked n name ∧ LeastMarks taken name n ∧
        n ≤ taken.length := by
  intro own
  have hown : attributes application environment host { e with fields := fields } = own :=
    attributes_eq application environment host _
  have hdistinct : (keys own).Nodup := by
    rw [← hown]
    exact nodup_keys_attributes application environment host _
  obtain ⟨added, hadd, hlays⟩ := lays_addFields h own
  have hnodup : (keys (own ++ added)).Nodup := by
    rw [keys, List.map_append]
    exact hlays.nodup hdistinct
  refine ⟨added, ?_, hlays.length_eq, ?_, hnodup, assignAll_of_nodup hnodup, exists_leastMarks⟩
  · rw [ofEntry, hown]
    exact hadd
  · intro i name value hi
    obtain ⟨n, v, hget, hshows, hleast⟩ := hlays.getElem? hi
    have htaken : keys own ++ keys (added.take i) = keys (own ++ added.take i) :=
      (List.map_append ..).symm
    exact ⟨n, v, hget, hshows, htaken ▸ hleast⟩

/-- A name that looks marked, and twice the name of an attribute. -/
def alike : Fields :=
  [(ascii "@Message", .integer 1), (ascii "Message", .boolean true), (ascii "Message", .string [])]

def fewest : List Text :=
  [ascii "Timestamp", ascii "Hostname", ascii "LoggerName", ascii "Level", ascii "Message"]

/-- The first name is free as it is, the second needs a mark more than that, and the third one more. -/
theorem members_of_entry_alike :
    ∃ own added : Members,
      ofEntry [] [] (ascii "web") { message := ascii "Hello", fields := alike } =
        .ok (own ++ added) ∧
      keys own = fewest ∧
      added = [(ascii "@Message", .integer 1), (ascii "@@Message", .boolean true),
        (ascii "@@@Message", .string [])] := by
  have hrender : ∀ field ∈ alike, ∃ text, field.2.render = .ok text := by
    intro field hfield
    simp only [alike, List.mem_cons, List.not_mem_nil, or_false] at hfield
    rcases hfield with rfl | rfl | rfl <;> exact ⟨_, rfl⟩
  obtain ⟨added, hentry, hlength, hmembers, -⟩ :=
    members_of_entry [] [] (ascii "web") { message := ascii "Hello" } hrender
  refine ⟨_, added, hentry, rfl, ?_⟩
  match added, hlength, hmembers with
  | [first, second, third], _, hmembers =>
    obtain ⟨n, v, hfirst, hv, hn⟩ := hmembers 0 _ _ rfl
    have hn : LeastMarks fewest (ascii "@Message") n := hn
    obtain rfl : n = 0 := hn.unique ⟨by decide, by decide⟩
    cases hv.ofValue_eq
    obtain rfl := Option.some.inj hfirst
    obtain ⟨n, v, hsecond, hv, hn⟩ := hmembers 1 _ _ rfl
    have hn : LeastMarks (fewest ++ [ascii "@Message"]) (ascii "Message") n := hn
    obtain rfl : n = 2 := hn.unique ⟨by decide, by decide⟩
    cases hv.ofValue_eq
    obtain rfl := Option.some.inj hsecond
    obtain ⟨n, v, hthird, hv, hn⟩ := hmembers 2 _ _ rfl
    have hn : LeastMarks (fewest ++ [ascii "@Message", ascii "@@Message"]) (ascii "Message") n := hn
    obtain rfl : n = 3 := hn.unique ⟨by decide, by decide⟩
    cases hv.ofValue_eq
    obtain rfl := Option.some.inj hthird
    rfl

end Members

end TraceContract
