/-!
# Text as bytes

A record is read and written as bytes: templates, names and messages need not be valid
in any encoding, and every rule of this library looks at single bytes only.

- `ascii` writes the fixed wording of the library as bytes.
- `Text.terminated` is the part of a text before its first zero byte, which is all that a
  reader of zero-terminated text can see.
-/

namespace TraceContract

/-- A text is its list of bytes. -/
abbrev Text := List UInt8

instance : LawfulBEq Text := List.instLawfulBEq

/-- The bytes of a text written with ASCII characters. -/
def ascii (s : String) : Text :=
  s.toList.map fun c => UInt8.ofNat c.toNat

namespace Text

def newline : UInt8 := 10

def openBrace : UInt8 := 0x7b

def closeBrace : UInt8 := 0x7d

def isBrace (b : UInt8) : Bool := b == openBrace || b == closeBrace

def isDigit (b : UInt8) : Bool := 48 ≤ b && b ≤ 57

/-- What stands before the first zero byte. -/
def terminated (t : Text) : Text := t.takeWhile (· != 0)

def quoted (t : Text) : Text := ascii "\"" ++ t ++ ascii "\""

end Text

end TraceContract
