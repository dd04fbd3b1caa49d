/-!
# Text — Writer

A writer collects text and keeps a left margin. The margin is written in front of the first
character of a line, when that character arrives, so a line without characters stays empty.
`indent` is the pure form: a text as a writer of that margin leaves it.
-/

namespace Dalvik.Text

/-- A line of `n` spaces. -/
def spaces (n : Nat) : String := String.ofList (List.replicate n ' ')

/-- Text under construction. -/
structure Writer where
  /-- What has been written so far. -/
  text : String
  /-- How many spaces open a line. -/
  margin : Nat
  /-- Whether the current line has no character yet. -/
  atLineStart : Bool
deriving DecidableEq, Repr

namespace Writer

/-- The empty writer with a margin of `n` spaces. -/
def ofMargin (n : Nat) : Writer := ⟨"", n, true⟩

/-- The empty writer. -/
def empty : Writer := ofMargin 0

/-- Writes one character, after the margin if it is the first of its line. -/
def put (w : Writer) (c : Char) : Writer :=
  if c = '\n' then { w with text := w.text.push c, atLineStart := true }
  else if w.atLineStart then
    { w with text := (w.text ++ spaces w.margin).push c, atLineStart := false }
  else { w with text := w.text.push c }

/-- Writes the characters of `s` in order. -/
def write (w : Writer) (s : String) : Writer := s.toList.foldl put w

/-- Widens the margin. -/
def indent (w : Writer) (n : Nat) : Writer := { w with margin := w.margin + n }

/-- Narrows the margin, to nothing at the least. -/
def deindent (w : Writer) (n : Nat) : Writer := { w with margin := w.margin - n }

end Writer

/-- The text `s` set off by `n` spaces. -/
def indent (n : Nat) (s : String) : String := ((Writer.ofMargin n).write s).text

end Dalvik.Text
