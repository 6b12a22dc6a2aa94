import TraceContract.Text.Numeral

/-!
# Message templates

A template is literal text with placeholders between braces.  A placeholder names a parameter,
or gives its place in decimal.  There is no way to write a brace that is no placeholder's.

- `Template.scan` reads a template or finds the first token that is wrong with it.
- A template read holds its segments, each a piece of literal text with at most one parameter
  after it, and its text with every placeholder put as a place.
- `Placeholder.index?` says which parameter a placeholder means: the first of that name, and
  only where none has it, the one at that place.
-/

namespace TraceContract

/-- Literal text and the place of the parameter that follows it. -/
structure Segment where
  literal : Text
  slot : Option Nat
  deriving DecidableEq

structure Template where
  /-- The template with places instead of names. -/
  text : Text
  segments : List Segment
  deriving DecidableEq

namespace Placeholder

/-- The most digits that a place may be written with. -/
def maxDigits : Nat := 9

/-- Whether the content of a placeholder is the place of one of `count` parameters. -/
def isPlace (count : Nat) (content : Text) : Bool :=
  content != [] && content.all Text.isDigit && content.length ≤ maxDigits
    && Text.numeralValue content < count

/-- The parameter that a placeholder's content stands for. -/
def index? (names : List Text) (content : Text) : Option Nat :=
  match names.idxOf? content with
  | some i => some i
  | none =>
    if isPlace names.length content then some (Text.numeralValue content) else none

/-- A placeholder as it is written. -/
def written (content : Text) : Text := Text.openBrace :: content ++ [Text.closeBrace]

end Placeholder

namespace Template

def empty : Template := ⟨[], []⟩

/-- The template with a literal byte in front. -/
def consByte (b : UInt8) (t : Template) : Template :=
  ⟨b :: t.text,
    match t.segments with
    | [] => [⟨[b], none⟩]
    | first :: rest => ⟨b :: first.literal, first.slot⟩ :: rest⟩

/-- The template with the placeholder of a parameter in front. -/
def consSlot (i : Nat) (t : Template) : Template :=
  ⟨Placeholder.written (Text.decimal i) ++ t.text, ⟨[], some i⟩ :: t.segments⟩

/-- Reads a template, or finds the first token that is wrong.  Inside a placeholder, `held` is
what stands in it so far, the last byte first. -/
def scan (names : List Text) : (held : Option Text) → Text → Except Text Template
  | none, [] => .ok empty
  | some _, [] => .error [Text.openBrace]
  | none, b :: rest =>
    if b = Text.openBrace then scan names (some []) rest
    else if b = Text.closeBrace then .error [Text.closeBrace]
    else (scan names none rest).map (consByte b)
  | some held, b :: rest =>
    if b = Text.openBrace then .error [Text.openBrace]
    else if b = Text.closeBrace then
      match Placeholder.index? names held.reverse with
      | some i => (scan names none rest).map (consSlot i)
      | none => .error (Placeholder.written held.reverse)
    else scan names (some (b :: held)) rest

/-- Reads a template for parameters of the given names. -/
def read (names : List Text) (source : Text) : Except Text Template := scan names none source

end Template

end TraceContract
