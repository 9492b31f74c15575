/-!
# Words as text

The 64 bits of a floating-point number as sixteen lower-case hexadecimal digits.
-/

namespace SharedCache.Text

/-- The digits of a 64-bit word in base sixteen, with the leading zeros. -/
def word (w : UInt64) : String :=
  let digits := Nat.toDigits 16 w.toNat
  String.ofList (List.replicate (16 - digits.length) '0' ++ digits)

/-- The bits of a floating-point number. -/
def bits (x : Float) : String := word x.toBits

end SharedCache.Text
