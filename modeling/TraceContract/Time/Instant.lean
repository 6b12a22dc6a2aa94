import TraceContract.Time.Calendar
import TraceContract.Text.Numeral

/-!
# The text of an instant

An instant is a number of nanoseconds since the beginning of 1970 in universal time.  Its text
names the second, then three digits of milliseconds: `2026-02-16 12:00:00.000`.

The second is the count of nanoseconds divided and truncated toward zero, so an instant before
1970 that lies inside a second is named by the second after it; the milliseconds are counted
upward from a full second all the same.
-/

namespace TraceContract

structure Clock where
  hour : Nat
  minute : Nat
  second : Nat
  deriving DecidableEq

namespace Clock

/-- The time of day of a second counted from midnight. -/
def ofSecond (second : Nat) : Clock :=
  ⟨second / 3600, second / 60 % 60, second % 60⟩

def toSecond (c : Clock) : Nat := c.hour * 3600 + c.minute * 60 + c.second

end Clock

namespace Instant

/-- The full second that an instant is named by. -/
def second (nanoseconds : Int) : Int := nanoseconds.tdiv 1000000000

/-- The milliseconds that follow the second, from 0 to 999. -/
def millisecond (nanoseconds : Int) : Nat :=
  ((((nanoseconds.tdiv 1000000).tmod 1000) + 1000) % 1000).toNat

def date (nanoseconds : Int) : Date := Date.ofDay (second nanoseconds / 86400)

def clock (nanoseconds : Int) : Clock := Clock.ofSecond (second nanoseconds % 86400).toNat

def text (nanoseconds : Int) : Text :=
  let d := date nanoseconds
  let c := clock nanoseconds
  Text.padded 4 d.year.toNat ++ ascii "-" ++ Text.padded 2 d.month ++ ascii "-" ++
    Text.padded 2 d.day ++ ascii " " ++ Text.padded 2 c.hour ++ ascii ":" ++
    Text.padded 2 c.minute ++ ascii ":" ++ Text.padded 2 c.second ++ ascii "." ++
    Text.padded 3 (millisecond nanoseconds)

end Instant

end TraceContract
