import Dalvik.Text.Numeral

/-!
# Text — Escape

Names, signatures and file names stand between double quotes. `escape` writes them so that the
quoted text stays on its line: quotes, backslashes, control characters and every blank other
than the plain space are written as escapes.
-/

namespace Dalvik.Text

/-- The characters of the blank property: the ASCII blanks, the next-line control, and the
space, line and paragraph separators. -/
def isBlank (c : Char) : Bool :=
  let n := c.toNat
  (0x09 ≤ n && n ≤ 0x0d) || n == 0x20 || n == 0x85 || n == 0xa0 || n == 0x1680
    || (0x2000 ≤ n && n ≤ 0x200a) || n == 0x2028 || n == 0x2029 || n == 0x202f
    || n == 0x205f || n == 0x3000

/-- The characters of the two control blocks, with the delete character between them. -/
def isControl (c : Char) : Bool :=
  c.toNat < 0x20 || (0x7f ≤ c.toNat && c.toNat ≤ 0x9f)

/-- Hexadecimal digits of `n`, filled with zeros on the left to four. -/
def fourDigits (n : Nat) : List Char :=
  let digits := Nat.toDigits 16 n
  List.replicate (4 - digits.length) '0' ++ digits

/-- The escaped form of one character. -/
def escapeChar (c : Char) : List Char :=
  if c = '\\' then ['\\', '\\']
  else if c = '\x22' then ['\\', '\x22']
  else if c = '\x27' then ['\\', '\x27']
  else if c = '\n' then ['\\', 'n']
  else if c = '\r' then ['\\', 'r']
  else if c = '\t' then ['\\', 't']
  else if isControl c || (isBlank c && c != ' ') then '\\' :: 'u' :: fourDigits c.toNat
  else [c]

/-- The text of a quoted literal, without its quotes. -/
def escape (s : String) : String := String.ofList (s.toList.flatMap escapeChar)

/-- The literal of `s`, with its quotes. -/
def quoted (s : String) : String := "\x22" ++ escape s ++ "\x22"

end Dalvik.Text
