/-!
# Durations

A span of time in whole nanoseconds and its text: the largest of the units s, ms, µs and ns that
it reaches, with as many decimals as it needs and no more.
-/

namespace LayeredSets

/-- `nanoseconds` counts from zero, so a duration is never negative. -/
structure Duration where
  nanoseconds : Nat
  deriving DecidableEq, Repr

namespace Duration

def of (seconds nanoseconds : Nat) : Duration := ⟨seconds * 1000000000 + nanoseconds⟩

def milliseconds (d : Duration) : Nat := d.nanoseconds / 1000000

/-- `n / 10 ^ places`, which is at least one, in decimal notation without closing zeros. -/
def decimalText (n places : Nat) : String :=
  let digits := Nat.toDigits 10 n
  let (whole, fraction) := digits.splitAt (digits.length - places)
  let decimals := (fraction.reverse.dropWhile (· == '0')).reverse
  if decimals.isEmpty then String.ofList whole
  else String.ofList whole ++ "." ++ String.ofList decimals

def text (d : Duration) : String :=
  if 1000000000 ≤ d.nanoseconds then decimalText d.nanoseconds 9 ++ "s"
  else if 1000000 ≤ d.nanoseconds then decimalText d.nanoseconds 6 ++ "ms"
  else if 1000 ≤ d.nanoseconds then decimalText d.nanoseconds 3 ++ "µs"
  else toString d.nanoseconds ++ "ns"

end Duration
end LayeredSets
