import TraceContract.Value

/-!
# Fields of a record

The fields are pairs of a name and a value in the order of insertion.

- `Fields.insert` adds a field unless its name is taken, and says whether it did;
  `Fields.insertAll` adds several.
- `Fields.lookup?` is the value of the first field with a name.
-/

namespace TraceContract

/-- Named values in order. -/
abbrev Fields := List (Text × Value)

namespace Fields

/-- The value of the first field with a name. -/
def lookup? (fields : Fields) (name : Text) : Option Value :=
  (fields.find? (·.1 = name)).map (·.2)

/-- Adds a field at the end unless its name is taken. -/
def insert (fields : Fields) (name : Text) (value : Value) : Fields × Bool :=
  if fields.any (·.1 = name) then (fields, false) else (fields ++ [(name, value)], true)

/-- Adds fields one after the other, and says of each whether it was added. -/
def insertAll (fields : Fields) : List (Text × Value) → Fields × List Bool
  | [] => (fields, [])
  | (name, value) :: rest =>
    let (next, added) := insert fields name value
    let (last, laterAdded) := insertAll next rest
    (last, added :: laterAdded)

end Fields

end TraceContract
