import Dalvik.Proofs.Emission

/-!
# Inset — entries and methods behind a margin

`Text.inset n` puts `n` spaces before every line of a text that has a character. It is defined on
the lines of the text, without a writer, and it is what a writer of that margin makes of the text
from the start of a line (`Writer.write_inset`), whatever wider margins are in force in between.

So what is written does not depend on where it is written, but for the margin. An entry that has no
text leaves a writer as it is, and after any other entry the line ends; hence entries in a row
append the texts of the entries, each as a new writer has it, behind the margin
(`foldl_write_inset`). `rendering_inset` states this of entries and of methods.
-/

namespace Dalvik.Text

/-! ### Lines behind a margin -/

/-- A line behind `n` spaces; an empty line stays empty. -/
def insetLine (n : Nat) (line : List Char) : List Char :=
  if line.isEmpty then [] else List.replicate n ' ' ++ line

/-- The text with `n` spaces at the start of every line that is not empty. -/
def inset (n : Nat) (s : String) : String :=
  String.ofList (['\n'].intercalate ((s.toList.splitOn '\n').map (insetLine n)))

theorem splitOn_newline_cons (cs : List Char) :
    ('\n' :: cs).splitOn '\n' = [] :: cs.splitOn '\n' := by
  simp [List.splitOn_eq_splitOnP, List.splitOnP_cons_eq_if_modifyHead]

theorem splitOn_char_cons {c : Char} (hc : c ≠ '\n') {cs line : List Char}
    {lines : List (List Char)} (h : cs.splitOn '\n' = line :: lines) :
    (c :: cs).splitOn '\n' = (c :: line) :: lines := by
  rw [List.splitOn_eq_splitOnP] at h
  simp [List.splitOn_eq_splitOnP, List.splitOnP_cons_eq_if_modifyHead, hc, h]

theorem intercalate_append_cons (sep start line : List Char) (lines : List (List Char)) :
    sep.intercalate ((start ++ line) :: lines) = start ++ sep.intercalate (line :: lines) := by
  cases lines <;> simp [List.intercalate_cons_cons]

/-- **A margin stands before the lines**: the first line has it if the characters start a line, and
every further line has it. -/
theorem shift_eq_intercalate (n : Nat) (fresh : Bool) {cs line : List Char}
    {lines : List (List Char)} (h : cs.splitOn '\n' = line :: lines) :
    shift n fresh cs = ['\n'].intercalate
      ((if fresh then insetLine n line else line) :: lines.map (insetLine n)) := by
  induction cs generalizing fresh line lines with
  | nil =>
      obtain ⟨rfl, rfl⟩ : [] = line ∧ [] = lines := by simpa using h
      cases fresh <;> rfl
  | cons c cs ih =>
      obtain ⟨next, rest, hcs⟩ := List.exists_cons_of_ne_nil (List.splitOn_ne_nil '\n' cs)
      by_cases hc : c = '\n'
      · subst hc
        rw [splitOn_newline_cons, hcs] at h
        cases h
        have hnil : (if fresh then insetLine n [] else []) = [] := by cases fresh <;> rfl
        rw [hnil, List.map_cons, List.intercalate_cons_cons, shift, if_pos rfl, ih true hcs]
        rfl
      · rw [splitOn_char_cons hc hcs] at h
        cases h
        have hline : (if fresh then insetLine n (c :: next) else c :: next)
            = ((if fresh then List.replicate n ' ' else []) ++ [c]) ++ next := by
          cases fresh <;> simp [insetLine]
        rw [hline, intercalate_append_cons, shift, if_neg hc, ih false hcs, List.append_assoc]
        rfl

theorem toList_inset (n : Nat) (s : String) : (inset n s).toList = shift n true s.toList := by
  obtain ⟨line, lines, h⟩ := List.exists_cons_of_ne_nil (List.splitOn_ne_nil '\n' s.toList)
  rw [inset, String.toList_ofList, h, shift_eq_intercalate n true h]
  rfl

theorem shift_zero (fresh : Bool) (cs : List Char) : shift 0 fresh cs = cs := by
  induction cs generalizing fresh with
  | nil => rfl
  | cons c cs ih => cases fresh <;> simp [shift, ih]

namespace Writer

variable {w : Writer} {s : String}

/-- The new writer has a text as it is. -/
theorem text_empty_write (s : String) : (empty.write s).text = s := by
  rw [write_eq]
  simp [empty, ofMargin, shift_zero]

/-- **Behind a margin**: from the start of a line a writer appends what a new one has, with its
margin before every line that is not empty. -/
theorem write_inset (hw : w.atLineStart) (s : String) :
    w.write s = ⟨w.text ++ inset w.margin (empty.write s).text, w.margin,
      (empty.write s).atLineStart⟩ := by
  rw [text_empty_write, write_eq, write_eq, hw, ← toList_inset, String.ofList_toList]
  rfl

theorem put_newline_eq (w : Writer) : w.put '\n' = ⟨w.text ++ "\n", w.margin, true⟩ := by
  rw [put, if_pos rfl, String.push_eq_append]
  rfl

end Writer

end Dalvik.Text

namespace Dalvik

open Text (Writer)

/-! ### Entries -/

namespace Entry

/-- What an entry appends behind a margin: its text as a new writer has it, with the margin before
every line that is not empty, and the line end if there was anything to write. -/
def inset (s : Scope) (n : Nat) (e : Entry) : String :=
  Text.inset n (e.emitText s .empty).1.text ++ if (e.emitText s .empty).2 then "\n" else ""

/-- What entries do to a writer. -/
structure Rendered (s : Scope) : Prop where
  /-- An entry is written in its parts, and its line ends if there was anything to write. -/
  parts : ∀ (e : Entry) (w : Writer), e.write s w = endLine (e.emitText s w)
  /-- Where there is nothing to write, nothing is written. -/
  silent : ∀ (e : Entry) (w : Writer), (e.emitText s w).2 = false → (e.emitText s w).1 = w
  /-- Entries in a row, from the start of a line on, append what each of them has behind the
  margin. -/
  composed : ∀ (es : List Entry) (w : Writer), w.atLineStart →
    es.foldl (write s) w = ⟨w.text ++ String.join (es.map (inset s w.margin)), w.margin, true⟩

variable (s : Scope) {w : Writer}

/-- **One entry behind a margin.** From the start of a line an entry appends its text with the
margin, and a line starts after it. -/
theorem write_inset (hw : w.atLineStart) (e : Entry) :
    e.write s w = ⟨w.text ++ e.inset s w.margin, w.margin, true⟩ := by
  rw [← emit_eq_write, emit, inset, emitText_eq, emitText_eq]
  cases e.text? s with
  | none =>
      obtain ⟨text, margin, fresh⟩ := w
      obtain rfl : fresh = true := hw
      simp [endLine, Text.inset, Text.insetLine, Writer.empty, Writer.ofMargin]
  | some text =>
      rw [Option.getD_some, Option.isSome_some, endLine, Writer.write_inset hw,
        Writer.put_newline_eq, if_pos rfl, ← String.append_assoc]

/-- **Entries behind a margin** append what each of them appends. -/
theorem foldl_write_inset (es : List Entry) (hw : w.atLineStart) :
    es.foldl (write s) w = ⟨w.text ++ String.join (es.map (inset s w.margin)), w.margin, true⟩ := by
  induction es generalizing w with
  | nil =>
      obtain ⟨text, margin, fresh⟩ := w
      obtain rfl : fresh = true := hw
      simp
  | cons e es ih =>
      rw [List.foldl_cons, write_inset s hw, ih rfl, List.map_cons, String.join_cons,
        String.append_assoc]

theorem rendered : Rendered s where
  parts := fun e w => (emit_eq_write s w e).symm
  silent := by
    intro e w h
    rw [emitText_eq] at h ⊢
    obtain hnone : e.text? s = none := by simpa using h
    rw [hnone]
    rfl
  composed := fun es _ hw => foldl_write_inset s es hw

end Entry

/-! ### Methods -/

/-- What a call appends behind a margin is what it appends to a new writer, with the margin before
every line that is not empty. -/
def Insets (call : Writer → Writer × Except Failure Unit) : Prop :=
  ∀ w, w.atLineStart → (call w).2 = .ok () → (call .empty).2 = .ok () ∧
    (call w).1 = ⟨w.text ++ Text.inset w.margin (call .empty).1.text, w.margin, true⟩

theorem insets_emitting {α : Type} (found : Except Failure α) {emit : α → Writer → Writer}
    {text : α → String} (htext : ∀ x w, emit x w = w.write (text x))
    (hline : ∀ x (w : Writer), (w.write (text x)).atLineStart) : Insets (emitting found emit) := by
  intro w hw hok
  cases found with
  | error f => cases hok
  | ok x =>
      refine ⟨rfl, ?_⟩
      rw [emitting, emitting, htext, htext, Writer.write_inset hw, hline x .empty]

/-- **Rendering is compositional, and a margin is a shift.** Entries are written one by one, and no
entry changes how the next one is written. A method is written in its parts, in margins within
margins, and the margin that it is written behind stands before each of its lines. -/
theorem rendering_inset :
    (∀ s, Entry.Rendered s) ∧
    (∀ b : Body, b.write = emitting b.listing b.emit ∧ Insets b.write) ∧
    ∀ m : Method,
      m.writeEmpty = emitting (m.parameterRegisters.mapError m.blame) (fun _ => m.emitEmpty) ∧
      Insets m.writeEmpty := by
  refine ⟨Entry.rendered, fun b => ⟨b.write_eq_emitting, ?_⟩,
    fun m => ⟨m.writeEmpty_eq_emitting, ?_⟩⟩
  · rw [b.write_eq_emitting]
    exact insets_emitting _ b.emit_eq fun l w => Method.atLineStart_write_footer w _
  · rw [m.writeEmpty_eq_emitting]
    exact insets_emitting _ (fun _ => m.emitEmpty_eq) fun _ w => Method.atLineStart_write_footer w _

/-- A label, a table, a directive that has no text and a blank line, and then a method, each behind
two spaces. -/
theorem rendering_inset_two :
    let s : Scope := ⟨[.ofPayload (.arrayData 1 [1])], .ofIds [⟨.arrayData, 0⟩], ⟨0, 0, true⟩⟩
    let es : List Entry := [⟨0, .label ⟨.arrayData, 0⟩⟩, ⟨0, .instruction ⟨0, none, none⟩⟩,
      ⟨0, .debug (.sourceFile none)⟩, ⟨0, .blank⟩]
    let m : Method := ⟨"LLoop;", "run", ⟨8⟩, [], .primitive .void, []⟩
    es.foldl (Entry.write s) (.ofMargin 2)
        = ⟨"" ++ String.join (es.map (Entry.inset s 2)), 2, true⟩ ∧
      String.join (es.map (Entry.inset s 2))
        = "  :array_0\n  .array-data 1\n      0x1t\n  .end array-data\n\n" ∧
      (m.writeEmpty (.ofMargin 2)).1
        = ⟨"" ++ Text.inset 2 (m.writeEmpty .empty).1.text, 2, true⟩ := by
  refine ⟨(rendering_inset.1 _).composed _ _ rfl, by decide +kernel, ?_⟩
  exact ((rendering_inset.2.2 _).2 (.ofMargin 2) rfl rfl).2

end Dalvik
