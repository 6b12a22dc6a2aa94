import TraceContract.Exception
import TraceContract.Kind
import TraceContract.Binary64.Significant

/-!
# Arguments of a call

- `Value` is an argument: text, a number, a truth value, an exception or an object that knows how
  to render itself, or does not.
- `Value.render` is its text.  Only the rendering of an object can fail, and then with whatever
  the object threw.
- `Value.same` compares two arguments.
-/

namespace TraceContract

/-- An argument. -/
inductive Value where
  | string (text : Text)
  | boolean (b : Bool)
  /-- A single byte of text. -/
  | character (byte : UInt8)
  | integer (i : Int64)
  | unsigned (u : UInt64)
  | floating (x : Binary64)
  /-- An exception of the caller.  The handle tells exceptions apart that look alike. -/
  | exception (handle : Nat) (e : Exception)
  /-- An object of the caller with the outcome of its renderer, if it has one. -/
  | object (typeName : Text) (renderer : Option (Except Thrown Text))

namespace Value

def kind : Value → Kind
  | string _ => .string
  | boolean _ => .boolean
  | character _ => .character
  | integer _ => .integer
  | unsigned _ => .unsigned
  | floating _ => .floating
  | exception _ _ => .exception
  | object _ _ => .object

/-- The argument for a text that ends at its first zero byte and may be missing. -/
def ofTerminated : Option Text → Value
  | some t => string t.terminated
  | none => string (ascii "(null)")

def isRenderable : Value → Bool
  | object _ none => false
  | _ => true

def exception? : Value → Option Exception
  | exception _ e => some e
  | _ => none

/-- The text of an argument; an object that has no renderer is shown by its type. -/
def render : Value → Except Thrown Text
  | string t => .ok t
  | boolean b => .ok (if b then ascii "true" else ascii "false")
  | character b => .ok [b]
  | integer i => .ok (Text.signed i.toInt)
  | unsigned u => .ok (Text.decimal u.toNat)
  | floating x => .ok x.text
  | exception _ e => .ok e.describe
  | object t none => .ok (ascii "<" ++ t ++ ascii ">")
  | object _ (some outcome) => outcome

/-- Whether two arguments are equal.  An exception equals only itself, and an object nothing. -/
def same : Value → Value → Bool
  | string s, string t => s == t
  | boolean a, boolean b => a == b
  | character a, character b => a == b
  | integer i, integer j => i == j
  | unsigned u, unsigned v => u == v
  | floating x, floating y => x.same y
  | exception h _, exception k _ => h == k
  | _, _ => false

end Value

end TraceContract
