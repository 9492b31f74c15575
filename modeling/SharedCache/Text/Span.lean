import SharedCache.Time.Duration

/-!
# Durations as text

A duration is shown in the largest of the units second, millisecond, microsecond and nanosecond
that it reaches, as a decimal number without trailing zeros.
-/

namespace SharedCache.Text

/-- The digits of `n`, filled up with zeros on the left to `width` of them. -/
def padded (width n : Nat) : List Char :=
  let digits := Nat.toDigits 10 n
  List.replicate (width - digits.length) '0' ++ digits

/-- Drops the zeros at the end of a fraction. -/
def withoutTrailingZeros (digits : List Char) : List Char :=
  (digits.reverse.dropWhile (· == '0')).reverse

/-- A whole number and a fraction of `places` decimal places. -/
def decimal (whole fraction places : Nat) : String :=
  let digits := withoutTrailingZeros (padded places fraction)
  if digits.isEmpty then toString whole
  else toString whole ++ "." ++ String.ofList digits

/-- The text of a duration. -/
def span (d : Duration) : String :=
  let nanos := d.subsecond
  if 0 < d.seconds then decimal d.seconds nanos 9 ++ "s"
  else if 1000000 ≤ nanos then decimal (nanos / 1000000) (nanos % 1000000) 6 ++ "ms"
  else if 1000 ≤ nanos then decimal (nanos / 1000) (nanos % 1000) 3 ++ "µs"
  else toString nanos ++ "ns"

end SharedCache.Text
