import TraceContract.Text

/-!
# Named things

A directory keeps things by name, one for each name.

- `Directory.put` adds a thing or replaces the one of that name, `Directory.get?` finds it.
- `Directory.namesWhere` lists the names of the things that a test holds for, in the order of
  their bytes.
-/

namespace TraceContract

/-- Things by name. -/
abbrev Directory (α : Type) := List (Text × α)

namespace Directory

variable {α : Type}

def get? (d : Directory α) (name : Text) : Option α := (d.find? (·.1 = name)).map (·.2)

def remove (d : Directory α) (name : Text) : Directory α := d.filter (·.1 ≠ name)

def put (d : Directory α) (name : Text) (a : α) : Directory α := (name, a) :: remove d name

@[simp] theorem get?_put_self (d : Directory α) (name : Text) (a : α) :
    (d.put name a).get? name = some a := by
  simp [get?, put]

@[simp] theorem get?_put_of_ne (d : Directory α) {name other : Text} (h : name ≠ other) (a : α) :
    (d.put name a).get? other = d.get? other := by
  have hf : (d.remove name).find? (·.1 = other) = d.find? (·.1 = other) := by
    rw [remove, List.find?_filter]
    congr 1
    funext entry
    by_cases he : entry.1 = other
    · simp [he, h.symm]
    · simp [he]
  rw [get?, get?, put, List.find?_cons_of_neg (by simpa using h), hf]

/-- The names of all things that a test holds for, in order. -/
def namesWhere (d : Directory α) (test : α → Bool) : List Text :=
  ((d.filter fun entry => test entry.2).map (·.1)).mergeSort fun a b => decide (a ≤ b)

def names (d : Directory α) : List Text := namesWhere d fun _ => true

end Directory

end TraceContract
