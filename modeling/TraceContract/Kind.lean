import TraceContract.Text

/-!
# Kinds of values

A parameter is declared with a kind, and an argument has one.  Kinds have codes; a code outside
the list is kept as it is and belongs to no group.
-/

namespace TraceContract

/-- The kind of a parameter or of an argument. -/
inductive Kind where
  | string | boolean | character | integer | unsigned | floating | exception | object
  /-- A code that stands for no kind. -/
  | unlisted (code : Int) (outside : code < 0 ∨ 7 < code)
  deriving DecidableEq

namespace Kind

def ofCode (code : Int) : Kind :=
  if outside : code < 0 ∨ 7 < code then .unlisted code outside
  else match code.toNat with
    | 0 => .string
    | 1 => .boolean
    | 2 => .character
    | 3 => .integer
    | 4 => .unsigned
    | 5 => .floating
    | 6 => .exception
    | _ => .object

def name : Kind → Text
  | string => ascii "string"
  | boolean => ascii "boolean"
  | character => ascii "character"
  | integer => ascii "integer"
  | unsigned => ascii "unsigned"
  | floating => ascii "floating"
  | exception => ascii "exception"
  | object => ascii "object"
  | unlisted _ _ => ascii "unknown"

/-- Whether arguments of the kind become fields of the record. -/
def isField : Kind → Bool
  | string | boolean | character | integer | unsigned | floating => true
  | exception | object | unlisted _ _ => false

end Kind

end TraceContract
