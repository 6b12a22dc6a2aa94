import TraceContract.Entry
import TraceContract.Time.Instant

/-!
# The member layout

An entry as an ordered list of members, each a key with a value: first the attributes of the
entry, then its fields.  A field whose name is taken gets marks in front of it until it is not.

- `Members.attributes` are the members that an entry has whatever its fields.
- `Members.freeKey` is the key that a field gets.
- `Members.ofEntry` is the whole list.
-/

namespace TraceContract

inductive MemberValue where
  | string (t : Text)
  | boolean (b : Bool)
  | integer (i : Int64)
  | unsigned (u : UInt64)
  | floating (x : Binary64)
  deriving DecidableEq

abbrev Members := List (Text × MemberValue)

namespace Members

def keys (members : Members) : List Text := members.map (·.1)

/-- The mark put in front of a key that is taken. -/
def mark : UInt8 := 64

/-- How many of the taken keys are at least as long as a key. -/
def rivals (taken : List Text) (key : Text) : Nat := taken.countP (key.length ≤ ·.length)

/-- A taken key is one of its own rivals, and none of a longer one. -/
theorem rivals_cons_lt {taken : List Text} {key : Text} (b : UInt8) (h : key ∈ taken) :
    rivals taken (b :: key) < rivals taken key := by
  have le (t : List Text) : rivals t (b :: key) ≤ rivals t key := by
    refine List.countP_mono_left fun x _ hx => ?_
    simp only [List.length_cons, decide_eq_true_eq] at hx ⊢
    omega
  obtain ⟨before, after, rfl⟩ := List.append_of_mem h
  have h1 := le before
  have h2 := le after
  simp only [rivals, List.length_cons] at h1 h2
  simp only [rivals, List.countP_append, List.countP_cons, List.length_cons, decide_eq_true_eq]
  rw [if_neg (by omega), if_pos (Nat.le_refl _)]
  omega

/-- The key with the fewest marks in front that is not taken.  Each mark makes the key longer,
so that it has fewer rivals. -/
def freeKey (taken : List Text) (key : Text) : Text :=
  if key ∈ taken then freeKey taken (mark :: key) else key
termination_by rivals taken key
decreasing_by exact rivals_cons_lt mark (by assumption)

/-- The value of a member for a field.  Truth values and numbers keep their type. -/
def ofValue : Value → Except Thrown MemberValue
  | .boolean b => .ok (.boolean b)
  | .integer i => .ok (.integer i)
  | .unsigned u => .ok (.unsigned u)
  | .floating x => .ok (.floating x)
  | .string t => .ok (.string t)
  | v => v.render.map .string

/-- A member that is left out where its text is empty. -/
def optional (key value : Text) : Members := if value = [] then [] else [(key, .string value)]

/-- The members for what an entry says besides its fields. -/
def attributes (application environment host : Text) (e : Entry) : Members :=
  [(ascii "Timestamp", .string (Instant.text e.instant))] ++
    optional (ascii "Application") application ++
    optional (ascii "Environment") environment ++
    [(ascii "Hostname", .string host), (ascii "LoggerName", .string e.logger),
      (ascii "Level", .string e.severity.name), (ascii "Message", .string e.message)] ++
    match e.exception with
    | none => []
    | some report => [(ascii "Exception", .string (report.describe [Text.newline]))]

/-- Adds a member for every field; the first one that cannot be rendered ends the attempt. -/
def addFields (members : Members) : Fields → Except Thrown Members
  | [] => .ok members
  | (name, value) :: rest =>
    match ofValue value with
    | .error thrown => .error thrown
    | .ok v => addFields (members ++ [(freeKey members.keys name, v)]) rest

def ofEntry (application environment host : Text) (e : Entry) : Except Thrown Members :=
  addFields (attributes application environment host e) e.fields

end Members

end TraceContract
