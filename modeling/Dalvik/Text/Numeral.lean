/-!
# Text — Numeral

The number texts of a listing. Code addresses and literals are hexadecimal, in lower case and
without leading zeros; counts, line numbers and register numbers are decimal. A literal carries
its sign in front of the `0x` marker, so that its digits are those of the magnitude.
-/

namespace Dalvik.Text

/-- The decimal digits of `n`. -/
def decimal (n : Nat) : String := n.repr

/-- The hexadecimal digits of `n`. -/
def hex (n : Nat) : String := String.ofList (Nat.toDigits 16 n)

/-- The hexadecimal digits of `n` behind the marker `0x`. -/
def marked (n : Nat) : String := "0x" ++ hex n

/-- A signed literal: a sign for a negative value only, then the magnitude. -/
def literal (v : Int) : String :=
  if v < 0 then "-" ++ marked v.natAbs else marked v.natAbs

/-- A displacement: the sign is always written. -/
def displacement (v : Int) : String :=
  if v < 0 then "-" ++ marked v.natAbs else "+" ++ marked v.natAbs

/-- A displacement in decimal digits. -/
def decimalDisplacement (v : Int) : String :=
  if v < 0 then "-" ++ decimal v.natAbs else "+" ++ decimal v.natAbs

/-- An integer in decimal digits, with a sign for a negative value only. -/
def integer (v : Int) : String :=
  if v < 0 then "-" ++ decimal v.natAbs else decimal v.natAbs

/-- A signed 64-bit word by the digits of its two's complement. -/
def markedWord (v : Int) : String := marked (v % UInt64.size).toNat

end Dalvik.Text
