import TraceContract.Text.Numeral

/-!
# The text of a duration

A duration below one minute is written as seconds and three digits of milliseconds, `0.412`;
from one minute on as minutes, two digits of seconds and three of milliseconds, `2:05.000`.
Minutes are not gathered into hours.  A negative duration counts as none.

The text is made in a buffer of a fixed size, and would be cut off where the buffer ends.
-/

namespace TraceContract

namespace Elapsed

/-- The full milliseconds of a number of nanoseconds, truncated toward zero. -/
def ofNanoseconds (nanoseconds : Int) : Int := nanoseconds.tdiv 1000000

/-- A number of milliseconds written out, however long that is. -/
def digits (v : Nat) : Text :=
  if v < 60000 then
    Text.decimal (v / 1000) ++ ascii "." ++ Text.padded 3 (v % 1000)
  else
    Text.decimal (v / 60000) ++ ascii ":" ++ Text.padded 2 (v / 1000 % 60) ++ ascii "." ++
      Text.padded 3 (v % 1000)

/-- The bytes of the buffer, of which the last is the zero byte behind the text. -/
def bufferSize : Nat := 48

/-- The text of a number of milliseconds, as far as the buffer holds it. -/
def text (milliseconds : Int) : Text := (digits milliseconds.toNat).take (bufferSize - 1)

end Elapsed

end TraceContract
