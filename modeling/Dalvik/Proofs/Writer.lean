import Dalvik.Text.Writer

/-!
# Writer — what a writer makes of a text

What a writer appends for a text depends on its margin and on whether a line starts, and on nothing
else it holds; the margin stays as it is (`Writer.write_eq`). A margin within a margin is one wider
margin (`shift_shift`), so to write a text in a wider margin and to narrow the margin again is to
write the text set off, in the margin there was (`Writer.deindent_write_indent`).
-/

namespace Dalvik.Text

/-- Characters behind a margin of `n` spaces; `fresh` says whether they start a line. -/
def shift (n : Nat) : Bool → List Char → List Char
  | _, [] => []
  | fresh, c :: cs =>
    if c = '\n' then c :: shift n true cs
    else (if fresh then List.replicate n ' ' else []) ++ c :: shift n false cs

/-- Whether a line starts after characters, `fresh` before them. -/
def startsLine (fresh : Bool) : List Char → Bool
  | [] => fresh
  | c :: cs => startsLine (c = '\n') cs

theorem shift_cons (n : Nat) (fresh : Bool) (c : Char) (cs : List Char) :
    shift n fresh (c :: cs) = shift n fresh [c] ++ shift n (c = '\n') cs := by
  by_cases hc : c = '\n' <;> simp [shift, hc]

/-! ### A margin within a margin -/

theorem shift_spaces (n k : Nat) (c : Char) (cs : List Char) :
    shift n false (List.replicate k ' ' ++ c :: cs)
      = List.replicate k ' ' ++ shift n false (c :: cs) := by
  induction k with
  | zero => rfl
  | succ k ih => simp [List.replicate_succ, shift, ih]

theorem shift_shift (n k : Nat) (fresh : Bool) (cs : List Char) :
    shift n fresh (shift k fresh cs) = shift (n + k) fresh cs := by
  induction cs generalizing fresh with
  | nil => rfl
  | cons c cs ih =>
      by_cases hc : c = '\n'
      · simp [shift, hc, ih]
      · cases fresh with
        | false => simp [shift, hc, ih]
        | true =>
            -- the inner margin is what the outer one stands before
            cases k with
            | zero => simp [shift, hc, ih]
            | succ k =>
                simp [shift, hc, List.replicate_succ, shift_spaces, ih,
                  ← List.replicate_append_replicate]

theorem startsLine_spaces (fresh : Bool) (k : Nat) (c : Char) (cs : List Char) :
    startsLine fresh (List.replicate k ' ' ++ c :: cs) = startsLine (c = '\n') cs := by
  induction k generalizing fresh with
  | zero => rfl
  | succ k ih => exact ih _

/-- A margin does not change where lines start. -/
theorem startsLine_shift (n : Nat) (fresh : Bool) (cs : List Char) :
    startsLine fresh (shift n fresh cs) = startsLine fresh cs := by
  induction cs generalizing fresh with
  | nil => rfl
  | cons c cs ih =>
      by_cases hc : c = '\n'
      · simp [shift, startsLine, hc, ih]
      · cases fresh <;> simp [shift, startsLine, hc, ih, startsLine_spaces]

namespace Writer

variable {w : Writer} {s t : String}

/-! ### Writing -/

theorem put_eq (w : Writer) (c : Char) :
    w.put c = ⟨w.text ++ String.ofList (shift w.margin w.atLineStart [c]), w.margin, c = '\n'⟩ := by
  by_cases hc : c = '\n'
  · simp [put, hc, shift, ← String.toList_inj]
  · cases hw : w.atLineStart <;> simp [put, hc, hw, shift, spaces, ← String.toList_inj]

theorem foldl_put (cs : List Char) (w : Writer) :
    cs.foldl put w = ⟨w.text ++ String.ofList (shift w.margin w.atLineStart cs), w.margin,
      startsLine w.atLineStart cs⟩ := by
  induction cs generalizing w with
  | nil => simp [shift, startsLine]
  | cons c cs ih =>
      rw [List.foldl_cons, ih, put_eq, shift_cons w.margin w.atLineStart c cs,
        String.ofList_append, ← String.append_assoc]
      rfl

/-- **What a writer makes of a text.** -/
theorem write_eq (w : Writer) (s : String) :
    w.write s = ⟨w.text ++ String.ofList (shift w.margin w.atLineStart s.toList), w.margin,
      startsLine w.atLineStart s.toList⟩ :=
  foldl_put s.toList w

theorem write_append (w : Writer) (s t : String) : w.write (s ++ t) = (w.write s).write t := by
  simp [write]

@[simp] theorem write_empty (w : Writer) : w.write "" = w := rfl

theorem put_newline (w : Writer) : w.put '\n' = w.write "\n" := rfl

/-- After a line end a line starts. -/
theorem atLineStart_write_newline (w : Writer) (s : String) :
    (w.write (s ++ "\n")).atLineStart = true := by
  rw [write_append]
  rfl

theorem foldl_write {α : Type} {f : Writer → α → Writer} {text : α → String}
    (hf : ∀ w a, f w a = w.write (text a)) (as : List α) (w : Writer) :
    as.foldl f w = w.write (String.join (as.map text)) := by
  induction as generalizing w with
  | nil => rfl
  | cons a as ih => rw [List.foldl_cons, ih, hf, List.map_cons, String.join_cons, write_append]

/-! ### A wider margin for a while -/

theorem toList_indent (n : Nat) (s : String) :
    (Text.indent n s).toList = shift n true s.toList := by
  rw [Text.indent, write_eq]
  simp [ofMargin]

/-- **A wider margin for a while**: from the start of a line, a text is set off. -/
theorem deindent_write_indent (hw : w.atLineStart) (n : Nat) (s : String) :
    ((w.indent n).write s).deindent n = w.write (Text.indent n s) := by
  rw [write_eq, write_eq, toList_indent, hw, shift_shift, startsLine_shift]
  simp [indent, deindent, hw]

/-- A line, and a text set off below it. -/
theorem deindent_write_line (w : Writer) (n : Nat) (s t : String) :
    ((((w.write s).put '\n').indent n).write t).deindent n
      = w.write (s ++ "\n" ++ Text.indent n t) := by
  rw [put_newline, ← write_append, deindent_write_indent (atLineStart_write_newline w s),
    ← write_append]

end Writer

end Dalvik.Text
