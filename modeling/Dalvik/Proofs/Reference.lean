import Dalvik.Proofs.Line
import Dalvik.Proofs.Table
import Mathlib.Data.List.Flatten

/-!
# Reference — the labels that a text names

The text of an entry names labels (`Entry.shown`): a mark its own, an exception directive the bounds
of its region and its handler, the line of an instruction its target, and a table its cases. The
names are words of the text and stand in this order, whatever else the text has in it
(`Entry.shown_sublist_words`).

An exception directive ends with its three labels, so it is told by its text
(`ExceptionEntry.eq_of_text_eq`).
-/

namespace Dalvik

open Text (IsWord)

/-! ### Exception directives -/

namespace ExceptionEntry

variable {t : LabelTable} {e f : ExceptionEntry}

/-- The directive with the type that is caught. -/
def opening (e : ExceptionEntry) : String :=
  match e.exceptionType with
  | some type => ".catch " ++ type
  | none => ".catchall"

/-- What follows: the bounds of the region and the handler. -/
def closing (t : LabelTable) (e : ExceptionEntry) : String :=
  " \x7b" ++ t.name e.tryStart ++ " .. " ++ t.name e.tryEnd ++ "\x7d " ++ t.name e.handler

theorem text_eq (t : LabelTable) (e : ExceptionEntry) : e.text t = e.opening ++ e.closing t := by
  obtain ⟨type, -, -, -⟩ := e
  cases type <;> simp only [text, opening, closing, String.append_assoc]

/-- **A directive ends with the names of its labels.** -/
theorem words_text (t : LabelTable) (e : ExceptionEntry) : Text.words (e.text t).toList
    = Text.words e.opening.toList
      ++ [t.name e.tryStart, "..", t.name e.tryEnd, t.name e.handler] := by
  have hlist : (e.text t).toList = e.opening.toList ++ ' ' :: '\x7b' ::
      ((t.name e.tryStart).toList ++ ' ' :: ("..".toList ++ ' ' ::
        ((t.name e.tryEnd).toList ++ '\x7d' :: ' ' :: (t.name e.handler).toList))) := by
    simp [text_eq, closing]
  have hdots : IsWord ".." := by decide
  have hname : ∀ id, Text.words (t.name id).toList = [t.name id] :=
    fun id => (Label.isWord_name _).words_eq
  rw [hlist, Text.words_append_separator rfl, Text.words_cons_separator rfl,
    Text.words_append_separator rfl, Text.words_append_separator rfl,
    Text.words_append_separator rfl, Text.words_cons_separator rfl, hdots.words_eq, hname, hname,
    hname]
  rfl

theorem exceptionType_eq_of_opening_eq (h : e.opening = f.opening) :
    e.exceptionType = f.exceptionType := by
  have hdiff : ∀ type, ".catch " ++ type ≠ ".catchall" := by
    intro type he
    have hchar := congrArg (fun s : String => s.toList[6]?) he
    simp at hchar
  obtain ⟨type, _, _, _⟩ := e
  obtain ⟨type', _, _, _⟩ := f
  cases type with
  | none =>
      cases type' with
      | none => rfl
      | some type' => exact absurd h.symm (hdiff type')
  | some type =>
      cases type' with
      | none => exact absurd h (hdiff type)
      | some type' => exact congrArg some ((String.append_right_inj _).mp h)

/-- **An exception directive is told by its text**, if no two labels of the table have one name. -/
theorem eq_of_text_eq (hname : ∀ a ∈ t.ids, ∀ b ∈ t.ids, t.name a = t.name b → a = b)
    (he : ∀ id ∈ (Content.exception e).labels, id ∈ t.ids)
    (hf : ∀ id ∈ (Content.exception f).labels, id ∈ t.ids) (h : e.text t = f.text t) : e = f := by
  have hwords := congrArg (fun s : String => Text.words s.toList) h
  simp only [words_text] at hwords
  obtain ⟨-, hlabels⟩ := List.append_inj' hwords rfl
  simp only [List.cons.injEq, true_and, and_true] at hlabels
  simp only [Content.labels, List.forall_mem_cons] at he hf
  have hstart := hname _ he.1 _ hf.1 hlabels.1
  have hend := hname _ he.2.1 _ hf.2.1 hlabels.2.1
  have hhandler := hname _ he.2.2.1 _ hf.2.2.1 hlabels.2.2
  -- what precedes the labels is the same too
  have hclosing : e.closing t = f.closing t := by rw [closing, closing, hstart, hend, hhandler]
  rw [text_eq, text_eq, hclosing, String.append_left_inj] at h
  have htype := exceptionType_eq_of_opening_eq h
  cases e
  cases f
  simp_all

end ExceptionEntry

/-! ### Lines and tables -/

/-- The target is the last word of a line. -/
theorem Instruction.target_suffix_words (names : RegisterNames) (t : LabelTable) (i : Instruction)
    (target : Option LabelId) :
    (target.map t.name).toList <:+ Text.words (i.line names t target).toList := by
  rw [line, Text.words_operands i.opcode.isWord_mnemonic, List.flatMap_append, words_target]
  exact (List.suffix_append _ _).trans (List.suffix_cons _ _)

theorem Text.words_eq_flatten_wordLines (s : String) :
    words s.toList = (wordLines s).flatten := by
  have hlines (ls : List (List Char)) :
      words (['\n'].intercalate ls) = (ls.map words).flatten := by
    induction ls with
    | nil => rfl
    | cons l ls ih =>
        cases ls with
        | nil => simp
        | cons m ls =>
            rw [intercalate_cons _ _ (List.cons_ne_nil _ _), words_append_separator rfl, ih]
            rfl
  rw [wordLines, ← hlines, List.intercalate_splitOn]

theorem Text.inset_zero (s : String) : inset 0 s = s :=
  String.toList_inj.mp (by rw [toList_inset, shift_zero])

namespace Payload

variable {labels : LabelTable} {cases : Option (List LabelId)} {p : Payload}

/-- The labels that the text of a table names. -/
def shown (cases : Option (List LabelId)) : Payload → List LabelId
  | packedSwitch .. | sparseSwitch _ => cases.getD []
  | arrayData .. => []

/-- The words of a table are those of its lines. -/
theorem words_text (h : p.Fits cases) : Text.words (p.text labels cases).toList
    = p.opening ++ ((p.rows labels cases).flatten ++ p.closing) := by
  rw [Text.words_eq_flatten_wordLines, ← Text.inset_zero (p.text labels cases), text_eq_block h,
    wordLines_block p.isWord_of_mem_opening isWord_of_mem_rows p.isWord_of_mem_closing]
  simp

/-- The names of the cases stand in the lines of a table, one in each. -/
theorem shown_sublist_rows (h : p.Fits cases) :
    ((p.shown cases).map labels.name).Sublist (p.rows labels cases).flatten := by
  cases cases with
  | none => cases p <;> exact List.nil_sublist _
  | some ids =>
      cases p with
      | packedSwitch firstKey targets =>
          rw [shown, Option.getD_some, rows, ← List.flatMap_def, List.map_eq_flatMap]
      | sparseSwitch es =>
          have hids : (es.zip ids).map Prod.snd = ids := List.map_snd_zip (h ids rfl).le
          rw [shown, Option.getD_some, rows, ← List.flatMap_def, ← hids, List.map_map,
            List.map_eq_flatMap, hids]
          exact List.Sublist.flatMap_right _ fun e _ => (List.sublist_append_right [_, _] [_])
      | arrayData width es => exact List.nil_sublist _

end Payload

/-! ### Entries -/

/-- The labels that the text of an instruction names: the cases of its table, else its target. -/
def InstructionEntry.shown (s : Scope) (e : InstructionEntry) : List LabelId :=
  match s.instructions[e.index]? with
  | none => []
  | some i =>
    match i.payload with
    | some table => table.shown e.cases
    | none => e.target.toList

namespace Entry

/-- The labels that the text of an entry names, in their order. -/
def shown (s : Scope) (e : Entry) : List LabelId :=
  match e.content with
  | .label id => [id]
  | .exception x => [x.tryStart, x.tryEnd, x.handler]
  | .instruction x => x.shown s
  | .offsetComment | .blank | .debug _ => []

/-- What the text of an entry names, the entry has. -/
theorem mem_labels_of_mem_shown {s : Scope} {e : Entry} {id : LabelId} (h : id ∈ e.shown s) :
    id ∈ e.labels := by
  obtain ⟨address, content⟩ := e
  cases content with
  | instruction x =>
      rw [labels, Content.labels, List.mem_append]
      cases hi : s.instructions[x.index]? with
      | none => simp [shown, InstructionEntry.shown, hi] at h
      | some i =>
          simp only [shown, InstructionEntry.shown, hi] at h
          cases hp : i.payload with
          | none => exact .inl (by simpa only [hp] using h)
          | some table =>
              simp only [hp] at h
              cases table with
              | arrayData width elements => cases h
              | packedSwitch firstKey targets => exact .inr h
              | sparseSwitch entries => exact .inr h
  | _ => exact h

/-- A table that an entry shows has no labels for its cases, or one for each. -/
def Fits (s : Scope) (e : Entry) : Prop :=
  ∀ x i table, e.content = .instruction x → s.instructions[x.index]? = some i →
    i.payload = some table → table.Fits x.cases

/-- **The text of an entry names its labels**: their names are among its words, in their order. -/
theorem shown_sublist_words {s : Scope} {e : Entry} (h : e.Fits s) :
    ((e.shown s).map s.labels.name).Sublist (Text.words ((e.text? s).getD "").toList) := by
  obtain ⟨address, content⟩ := e
  cases content with
  | label id =>
      have hname : IsWord (s.labels.name id) := Label.isWord_name _
      simp [shown, text?, hname.words_eq]
  | exception x =>
      rw [text?, Option.getD_some, ExceptionEntry.words_text]
      refine List.Sublist.trans ?_ (List.sublist_append_right _ _)
      exact ((List.Sublist.refl _).cons _).cons_cons _
  | instruction x =>
      cases hi : s.instructions[x.index]? with
      | none => simp [shown, InstructionEntry.shown, hi]
      | some i =>
          cases hp : i.payload with
          | none =>
              have htarget := i.target_suffix_words s.registers s.labels x.target
              simp only [shown, InstructionEntry.shown, text?, InstructionEntry.text?, hi, hp,
                Option.map_some, Option.getD_some]
              rw [← Option.toList_map]
              exact htarget.sublist
          | some table =>
              have hfits := h x i table rfl hi hp
              simp only [shown, InstructionEntry.shown, text?, InstructionEntry.text?, hi, hp,
                Option.map_some, Option.getD_some]
              rw [Payload.words_text hfits]
              exact (Payload.shown_sublist_rows hfits).trans
                ((List.sublist_append_left _ _).trans (List.sublist_append_right _ _))
  | _ => simp [shown]

end Entry

end Dalvik
