/-!
Spans of time in whole nanoseconds. A span is written in the largest of seconds, milliseconds, microseconds
and nanoseconds that it fills, with its exact decimal fraction; where only whole milliseconds count, it is
rounded up.
-/

namespace Exchange
set_option autoImplicit false

structure Duration where
  nanos : Nat
deriving DecidableEq, Inhabited

namespace Duration

def zero : Duration := ⟨0⟩

/-- So many seconds and nanoseconds; the nanoseconds may exceed a second. -/
def ofParts (secs nanos : Nat) : Duration := ⟨secs * 1000000000 + nanos⟩

def seconds (d : Duration) : Nat := d.nanos / 1000000000

/-- The nanoseconds beyond the last whole second. -/
def subsecond (d : Duration) : Nat := d.nanos % 1000000000

/-- The least number of whole milliseconds that is not shorter. -/
def millisUp (d : Duration) : Nat := (d.nanos + 999999) / 1000000

/-- The fraction `n / 10 ^ places`, its final zeros left out, or nothing where it is zero. -/
def fraction (places n : Nat) : List Char :=
  let digits := Nat.toDigits 10 n
  let padded := List.replicate (places - digits.length) '0' ++ digits
  let kept := (padded.reverse.dropWhile (· == '0')).reverse
  if kept.isEmpty then [] else '.' :: kept

/-- The count `n` of units `10 ^ places` times as small as `unit`, written in `unit`. -/
def inUnit (places n : Nat) (unit : String) : String :=
  toString (n / Nat.pow 10 places) ++ String.ofList (fraction places (n % Nat.pow 10 places)) ++ unit

def text (d : Duration) : String :=
  if 1000000000 ≤ d.nanos then inUnit 9 d.nanos "s"
  else if 1000000 ≤ d.nanos then inUnit 6 d.nanos "ms"
  else if 1000 ≤ d.nanos then inUnit 3 d.nanos "µs"
  else inUnit 0 d.nanos "ns"

end Duration
end Exchange
