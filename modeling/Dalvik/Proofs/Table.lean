import Dalvik.Proofs.Inset
import Dalvik.Proofs.Word
import Mathlib.Data.Int.ModEq

/-!
# Table — the tables of switches and arrays are read back

A table is a block of lines, and each of its lines is a few words (`text_eq_block`). The words of
the lines are found again in the block, behind whatever margin it stands (`wordLines_block`).

`Table.read?` reads a block: the first line says what table it is, each further line is a case or an
element, and the last line closes the block. A case is its label, or, if no switch uses the table, a
comment with its displacement. `Payload.Shows` states what is read of a table, and `text_shows`
proves it of every table: nothing is left out, repeated or moved, and each number is read as it is.
-/

namespace Dalvik

/-! ### What a block says -/

/-- A case of a table as it is written: by the name of its label, or by its displacement. -/
inductive TableCase where
  | label (name : String)
  | displacement (distance : Int)
deriving DecidableEq

/-- A table as it is written. -/
inductive Table where
  /-- The first key and the cases for the keys from there on. -/
  | packed (firstKey : Int) (cases : List TableCase)
  /-- The cases with their keys. -/
  | sparse (cases : List (Int × TableCase))
  /-- The width of the elements, and the elements. -/
  | array (width : Nat) (elements : List Int)
deriving DecidableEq

/-- The words of each line of a text. -/
def Text.wordLines (s : String) : List (List String) := (s.toList.splitOn '\n').map words

namespace Table

/-- A case, by the words of its line. -/
def case? : List String → Option TableCase
  | ["#", distance] => (Text.displacement? distance.toList).map .displacement
  | [name] => if name.toList.head? = some ':' then some (.label name) else none
  | _ => none

/-- A case with its key, by the words of its line. -/
def keyedCase? : List String → Option (Int × TableCase)
  | ["#", key, "->", distance] => do return (← Text.literal? key.toList, ← case? ["#", distance])
  | [key, "->", name] => do return (← Text.literal? key.toList, ← case? [name])
  | _ => none

/-- The mark at the end of the elements of a width. -/
def mark (width : Nat) : String :=
  if width = 1 then "t" else if width = 2 then "s" else if width = 8 then "L" else ""

/-- An element, by the words of its line. -/
def element? (width : Nat) : List String → Option Int
  | [word] =>
    if (mark width).toList.isSuffixOf word.toList then
      Text.literal? (word.toList.take (word.toList.length - (mark width).toList.length))
    else none
  | _ => none

/-- A table, by the words of its first line, of the lines between and of its last line. -/
def ofParts? : List String → List (List String) → List String → Option Table
  | [".packed-switch", key], rows, [".end", "packed-switch"] => do
    return packed (← Text.literal? key.toList) (← rows.mapM case?)
  | [".sparse-switch"], rows, [".end", "sparse-switch"] => do
    return sparse (← rows.mapM keyedCase?)
  | [".array-data", width], rows, [".end", "array-data"] => do
    let width ← Text.decimal? width.toList
    return array width (← rows.mapM (element? width))
  | _, _, _ => none

/-- A table, by the words of its lines. -/
def ofLines? : List (List String) → Option Table
  | [] => none
  | opening :: lines => lines.getLast?.bind (ofParts? opening lines.dropLast)

/-- Reads a table, behind whatever margin it stands. -/
def read? (s : String) : Option Table := ofLines? (Text.wordLines s)

end Table

/-! ### Elements -/

namespace Payload

/-- The number that an element of a width is written as. -/
def elementValue (width : Nat) (v : Int64) : Int :=
  if width = 1 then v.toInt.bmod UInt8.size
  else if width = 2 then v.toInt.bmod UInt16.size
  else if width = 4 then v.toInt.bmod UInt32.size
  else v.toInt

theorem elementText_eq (width : UInt16) (v : Int64) : elementText width v
    = Text.literal (elementValue width.toNat v) ++ Table.mark width.toNat := by
  have hwidth : ∀ k : UInt16, width = k ↔ width.toNat = k.toNat := fun k => UInt16.toNat_inj.symm
  simp only [elementText, elementValue, Table.mark, hwidth]
  split_ifs <;> simp_all

/-- The number that shows an element: its low bytes as a signed number if the width is one that
arrays have, else the element. -/
def IsElement (width : Nat) (e v : Int) : Prop :=
  if width ∈ [1, 2, 4, 8] then
    v ≡ e [ZMOD 2 ^ (8 * width)] ∧ -2 ^ (8 * width - 1) ≤ v ∧ v < 2 ^ (8 * width - 1)
  else v = e

/-- The remainder nearest to zero is the signed number of the low bits. -/
theorem bmod_signed (x : Int) (k : Nat) : x.bmod (2 ^ (k + 1)) ≡ x [ZMOD 2 ^ (k + 1)] ∧
    -2 ^ k ≤ x.bmod (2 ^ (k + 1)) ∧ x.bmod (2 ^ (k + 1)) < 2 ^ k := by
  have hpos : 0 < 2 ^ (k + 1) := Nat.two_pow_pos _
  have hcast : ((2 ^ (k + 1) : Nat) : Int) = 2 * 2 ^ k := by rw [Nat.cast_pow, pow_succ']; rfl
  have hlow := Int.le_bmod hpos (x := x)
  have hhigh := Int.bmod_lt hpos (x := x)
  rw [hcast] at hlow hhigh
  refine ⟨?_, by omega, by omega⟩
  simpa [Int.ModEq] using Int.bmod_emod (x := x) (m := 2 ^ (k + 1))

theorem isElement_elementValue (width : Nat) (v : Int64) :
    IsElement width v.toInt (elementValue width v) := by
  rw [IsElement]
  split
  case isFalse hw =>
    simp only [List.mem_cons, List.not_mem_nil, not_or] at hw
    rw [elementValue, if_neg hw.1, if_neg hw.2.1, if_neg hw.2.2.1]
  case isTrue hw =>
    simp only [List.mem_cons, List.not_mem_nil, or_false] at hw
    rcases hw with rfl | rfl | rfl | rfl
    · exact bmod_signed v.toInt 7
    · exact bmod_signed v.toInt 15
    · exact bmod_signed v.toInt 31
    · exact ⟨rfl, v.le_toInt, v.toInt_lt⟩

end Payload

/-! ### Reading a line -/

namespace Table

theorem case?_displacement (v : Int) :
    case? ["#", Text.displacement v] = some (.displacement v) := by
  rw [case?, Text.displacement?_displacement, Option.map_some]

theorem case?_name (labels : LabelTable) (id : LabelId) :
    case? [labels.name id] = some (.label (labels.name id)) := by
  rw [case?, LabelTable.name, Label.toList_name, List.head?_cons, if_pos rfl]

theorem keyedCase?_displacement (k v : Int) :
    keyedCase? ["#", Text.literal k, "->", Text.displacement v] = some (k, .displacement v) := by
  rw [keyedCase?, Text.literal?_literal, case?_displacement]
  rfl

theorem keyedCase?_name (labels : LabelTable) (k : Int) (id : LabelId) :
    keyedCase? [Text.literal k, "->", labels.name id] = some (k, .label (labels.name id)) := by
  rw [keyedCase?, Text.literal?_literal, case?_name]
  rfl

theorem element?_elementText (width : UInt16) (v : Int64) :
    element? width.toNat [Payload.elementText width v]
      = some (Payload.elementValue width.toNat v) := by
  rw [element?, Payload.elementText_eq]
  simp [Text.literal?_literal]

/-- Lines that are written one by one are read one by one. -/
theorem mapM_map_eq_some {α β γ : Type} {l : List α} {write : α → β} {read : β → Option γ}
    {value : α → γ} (h : ∀ a, read (write a) = some (value a)) :
    (l.map write).mapM read = some (l.map value) := by
  induction l with
  | nil => rfl
  | cons a l ih => simp [List.mapM_cons, h, ih]

end Table

/-! ### The lines of a block -/

namespace Text

/-- Words with a space between each two. -/
def sentence (ws : List String) : String := " ".intercalate ws

variable {n : Nat} {s : String} {cs : List Char} {ls : List (List Char)} {ws : List String}

theorem shift_append_newline (n : Nat) (fresh : Bool) (cs ds : List Char) :
    shift n fresh (cs ++ '\n' :: ds) = shift n fresh cs ++ '\n' :: shift n true ds := by
  induction cs generalizing fresh with
  | nil => rfl
  | cons c cs ih => by_cases hc : c = '\n' <;> simp [shift, hc, ih]

theorem shift_line (h : '\n' ∉ cs) : shift n true cs = insetLine n cs := by
  simpa using shift_eq_intercalate n true (List.splitOn_eq_singleton h)

theorem intercalate_cons (c : Char) (l : List Char) (hne : ls ≠ []) :
    [c].intercalate (l :: ls) = l ++ c :: [c].intercalate ls := by
  obtain ⟨m, ls, rfl⟩ := List.exists_cons_of_ne_nil hne
  simp [List.intercalate_cons_cons]

theorem words_insetLine (n : Nat) (l : List Char) : words (insetLine n l) = words l := by
  rw [insetLine]
  split
  case isTrue hl => rw [List.isEmpty_iff.mp hl]
  case isFalse => exact words_separators_append (fun c hc => List.eq_of_mem_replicate hc ▸ rfl) l

theorem newline_notMem_insetLine (h : '\n' ∉ cs) (n : Nat) : '\n' ∉ insetLine n cs := by
  rw [insetLine]
  split
  · exact List.not_mem_nil
  · simp [h]

/-- A margin does not change the words of the lines. -/
theorem wordLines_inset (hs : s.toList = ['\n'].intercalate ls) (hne : ls ≠ [])
    (h : ∀ l ∈ ls, '\n' ∉ l) (n : Nat) : wordLines (inset n s) = ls.map words := by
  have hinset : ∀ l ∈ ls.map (insetLine n), '\n' ∉ l := by
    intro l hl
    obtain ⟨m, hm, rfl⟩ := List.mem_map.mp hl
    exact newline_notMem_insetLine (h m hm) n
  rw [wordLines, inset, String.toList_ofList, hs, List.splitOn_intercalate '\n' h hne,
    List.splitOn_intercalate '\n' hinset (by simpa using hne), List.map_map]
  exact List.map_congr_left fun l _ => words_insetLine n l

theorem words_sentence (h : ∀ w ∈ ws, IsWord w) : words (sentence ws).toList = ws := by
  rw [sentence, words_intercalate (by decide) (by decide), flatMap_words h]

theorem newline_notMem_sentence (h : ∀ w ∈ ws, IsWord w) : '\n' ∉ (sentence ws).toList := by
  induction ws with
  | nil => exact List.not_mem_nil
  | cons w ws ih =>
      have hw : '\n' ∉ w.toList := fun hn => Bool.noConfusion ((h w List.mem_cons_self).solid _ hn)
      cases ws with
      | nil => simpa [sentence] using hw
      | cons v ws =>
          have hws := ih fun w hm => h w (List.mem_cons_of_mem _ hm)
          have hlist : (sentence (w :: v :: ws)).toList
              = w.toList ++ ' ' :: (sentence (v :: ws)).toList := by
            simp [sentence, String.intercalate_cons_cons]
          rw [hlist]
          simp [hw, hws]

end Text

namespace Payload

open Text (IsWord sentence wordLines insetLine)

/-- The lines of a block: the elements behind their margin, between the first line and the last. -/
theorem toList_block (opening closing : String) {lines : List String}
    (h : ∀ l ∈ lines, '\n' ∉ l.toList) : (block opening lines closing).toList
      = ['\n'].intercalate
        (opening.toList :: (lines.map (fun l => insetLine 4 l.toList) ++ [closing.toList])) := by
  have hlines : Text.shift 4 true (String.join (lines.map (· ++ "\n"))).toList ++ closing.toList
      = ['\n'].intercalate (lines.map (fun l => insetLine 4 l.toList) ++ [closing.toList]) := by
    induction lines with
    | nil => simp [Text.shift]
    | cons l lines ih =>
        have hjoin : (String.join ((l :: lines).map (· ++ "\n"))).toList
            = l.toList ++ '\n' :: (String.join (lines.map (· ++ "\n"))).toList := by simp
        rw [hjoin, Text.shift_append_newline, Text.shift_line (h l List.mem_cons_self),
          List.append_assoc, List.cons_append, ih fun l hl => h l (List.mem_cons_of_mem _ hl),
          List.map_cons, List.cons_append, Text.intercalate_cons _ _ (by simp)]
  rw [Text.intercalate_cons _ _ (by simp), ← hlines, ← Text.Writer.toList_indent]
  simp [block]

/-- **The words of a block are found line by line**, behind whatever margin. -/
theorem wordLines_block {opening closing : List String} {rows : List (List String)}
    (ho : ∀ w ∈ opening, IsWord w) (hr : ∀ row ∈ rows, ∀ w ∈ row, IsWord w)
    (hc : ∀ w ∈ closing, IsWord w) (n : Nat) :
    wordLines (Text.inset n (block (sentence opening) (rows.map sentence) (sentence closing)))
      = opening :: (rows ++ [closing]) := by
  have hrows : ∀ l ∈ rows.map sentence, '\n' ∉ l.toList := by
    intro l hl
    obtain ⟨row, hrow, rfl⟩ := List.mem_map.mp hl
    exact Text.newline_notMem_sentence (hr row hrow)
  have hlines : ∀ l ∈ (sentence opening).toList ::
      ((rows.map sentence).map (fun l => insetLine 4 l.toList) ++ [(sentence closing).toList]),
      '\n' ∉ l := by
    intro l hl
    rcases List.mem_cons.mp hl with rfl | hl
    · exact Text.newline_notMem_sentence ho
    · rcases List.mem_append.mp hl with hl | hl
      · obtain ⟨line, hline, rfl⟩ := List.mem_map.mp hl
        exact Text.newline_notMem_insetLine (hrows line hline) 4
      · rw [List.mem_singleton.mp hl]
        exact Text.newline_notMem_sentence hc
  have hwords : ∀ row ∈ rows, Text.words (insetLine 4 (sentence row).toList) = row :=
    fun row hrow => by rw [Text.words_insetLine, Text.words_sentence (hr row hrow)]
  rw [Text.wordLines_inset (toList_block _ _ hrows) (List.cons_ne_nil _ _) hlines]
  simp only [List.map_cons, List.map_append, List.map_map, List.map_nil, Function.comp_def,
    Text.words_sentence ho, Text.words_sentence hc]
  rw [List.map_congr_left hwords, List.map_id']

/-! ### Tables in words -/

/-- The words of the first line. -/
def opening : Payload → List String
  | packedSwitch firstKey _ => [".packed-switch", Text.literal firstKey.toInt]
  | sparseSwitch _ => [".sparse-switch"]
  | arrayData width _ => [".array-data", Text.decimal width.toNat]

/-- The words of the last line. -/
def closing : Payload → List String
  | packedSwitch .. => [".end", "packed-switch"]
  | sparseSwitch _ => [".end", "sparse-switch"]
  | arrayData .. => [".end", "array-data"]

/-- The words of the lines between them. -/
def rows (labels : LabelTable) : Option (List LabelId) → Payload → List (List String)
  | some ids, packedSwitch _ _ => ids.map fun id => [labels.name id]
  | none, packedSwitch _ targets => targets.map fun t => ["#", Text.displacement t.toInt]
  | some ids, sparseSwitch es =>
    (es.zip ids).map fun e => [Text.literal e.1.key.toInt, "->", labels.name e.2]
  | none, sparseSwitch es => es.map fun e =>
    ["#", Text.literal e.key.toInt, "->", Text.displacement e.target.toInt]
  | _, arrayData width es => es.map fun v => [elementText width v]

/-- A table has no labels for its cases, or one for each case. -/
def Fits (cases : Option (List LabelId)) : Payload → Prop
  | packedSwitch _ targets => ∀ ids ∈ cases, ids.length = targets.length
  | sparseSwitch es => ∀ ids ∈ cases, ids.length = es.length
  | arrayData .. => True

variable {labels : LabelTable} {cases : Option (List LabelId)} {p : Payload}

theorem sparseLines_nil (labels : LabelTable) (es : List SparseCase) :
    sparseLines labels es [] = es.map fun e => sparseLine labels e none := by
  induction es with
  | nil => rfl
  | cons e es ih => rw [sparseLines, ih, List.map_cons]

theorem sparseLines_zip (labels : LabelTable) {es : List SparseCase} {ids : List LabelId}
    (h : ids.length = es.length) :
    sparseLines labels es ids = (es.zip ids).map fun e => sparseLine labels e.1 (some e.2) := by
  induction es generalizing ids with
  | nil => rfl
  | cons e es ih =>
      cases ids with
      | nil => cases h
      | cons id ids => rw [sparseLines, ih (Nat.succ.inj h), List.zip_cons_cons, List.map_cons]

theorem sparseLine_some (e : SparseCase) (id : LabelId) : sparseLine labels e (some id)
    = sentence [Text.literal e.key.toInt, "->", labels.name id] :=
  String.toList_inj.mp (by simp [sparseLine, sentence, String.intercalate_cons_cons])

theorem sparseLine_none (e : SparseCase) : sparseLine labels e none
    = sentence ["#", Text.literal e.key.toInt, "->", Text.displacement e.target.toInt] :=
  String.toList_inj.mp (by simp [sparseLine, sentence, String.intercalate_cons_cons])

/-- **A table is a block of sentences.** -/
theorem text_eq_block (h : p.Fits cases) : p.text labels cases
    = block (sentence p.opening) ((p.rows labels cases).map sentence) (sentence p.closing) := by
  cases p with
  | packedSwitch firstKey targets =>
      cases cases <;>
        simp [text, packedLines, rows, opening, closing, sentence, String.intercalate_cons_cons,
          Function.comp_def]
  | sparseSwitch es =>
      cases cases with
      | none =>
          simp [text, sparseLines_nil, sparseLine_none, rows, opening, closing, sentence,
            String.intercalate_cons_cons, Function.comp_def]
      | some ids =>
          have hlength : ids.length = es.length := h ids rfl
          simp [text, sparseLines_zip labels hlength, sparseLine_some, rows, opening, closing,
            sentence, String.intercalate_cons_cons, Function.comp_def]
  | arrayData width es =>
      cases cases <;>
        simp [text, rows, opening, closing, sentence, String.intercalate_cons_cons,
          Function.comp_def]

/-! ### The words of a table are words -/

theorem isWord_name (labels : LabelTable) (id : LabelId) : IsWord (labels.name id) :=
  Label.isWord_name _

theorem isWord_elementText (width : UInt16) (v : Int64) : IsWord (elementText width v) := by
  rw [elementText_eq]
  refine (Text.isWord_literal _).append_of_all ?_
  rw [Table.mark]
  split_ifs <;> decide

theorem isWord_of_mem_opening (p : Payload) : ∀ w ∈ p.opening, IsWord w := by
  cases p with
  | packedSwitch firstKey =>
      simpa [opening] using And.intro (by decide) (Text.isWord_literal firstKey.toInt)
  | sparseSwitch => simpa [opening] using by decide
  | arrayData width =>
      simpa [opening] using And.intro (by decide) (Text.isWord_decimal width.toNat)

theorem isWord_of_mem_closing (p : Payload) : ∀ w ∈ p.closing, IsWord w := by
  cases p <;> simpa [closing] using by decide

theorem isWord_of_mem_rows : ∀ row ∈ p.rows labels cases, ∀ w ∈ row, IsWord w := by
  have hnumber : IsWord "#" := by decide
  have harrow : IsWord "->" := by decide
  intro row hrow w hw
  cases p <;> cases cases <;> obtain ⟨e, -, rfl⟩ := List.mem_map.mp hrow <;>
    simp only [List.mem_cons, List.not_mem_nil, or_false] at hw
  case packedSwitch.none =>
    rcases hw with rfl | rfl
    · exact hnumber
    · exact Text.isWord_displacement _
  case packedSwitch.some => exact hw ▸ isWord_name labels e
  case sparseSwitch.none =>
    rcases hw with rfl | rfl | rfl | rfl
    · exact hnumber
    · exact Text.isWord_literal _
    · exact harrow
    · exact Text.isWord_displacement _
  case sparseSwitch.some =>
    rcases hw with rfl | rfl | rfl
    · exact Text.isWord_literal _
    · exact harrow
    · exact isWord_name labels e.2
  all_goals exact hw ▸ isWord_elementText _ e

/-! ### What is read -/

/-- The cases of a table: the names of their labels, else their displacements. -/
def tableCases (labels : LabelTable) : Option (List LabelId) → List Int32 → List TableCase
  | some ids, _ => ids.map fun id => .label (labels.name id)
  | none, targets => targets.map fun t => .displacement t.toInt

/-- The table that is read of a payload's text. -/
def table (labels : LabelTable) (cases : Option (List LabelId)) : Payload → Table
  | packedSwitch firstKey targets => .packed firstKey.toInt (tableCases labels cases targets)
  | sparseSwitch es =>
    .sparse ((es.map (·.key.toInt)).zip (tableCases labels cases (es.map (·.target))))
  | arrayData width es => .array width.toNat (es.map (elementValue width.toNat))

theorem length_tableCases {targets : List Int32} (h : ∀ ids ∈ cases, ids.length = targets.length) :
    (tableCases labels cases targets).length = targets.length := by
  cases cases with
  | none => rw [tableCases, List.length_map]
  | some ids => rw [tableCases, List.length_map, h ids rfl]

theorem ofParts?_eq_table (labels : LabelTable) (cases : Option (List LabelId)) (p : Payload) :
    Table.ofParts? p.opening (p.rows labels cases) p.closing = some (p.table labels cases) := by
  cases p with
  | packedSwitch firstKey targets =>
      rw [opening, closing, Table.ofParts?, Text.literal?_literal]
      cases cases with
      | none =>
          rw [rows, Table.mapM_map_eq_some fun t : Int32 => Table.case?_displacement t.toInt]
          rfl
      | some ids =>
          rw [rows, Table.mapM_map_eq_some (Table.case?_name labels)]
          rfl
  | sparseSwitch es =>
      rw [opening, closing, Table.ofParts?, table]
      cases cases with
      | none =>
          rw [rows, Table.mapM_map_eq_some fun e : SparseCase =>
            Table.keyedCase?_displacement e.key.toInt e.target.toInt, tableCases, List.map_map,
            List.zip_map']
          rfl
      | some ids =>
          rw [rows, Table.mapM_map_eq_some fun e : SparseCase × LabelId =>
            Table.keyedCase?_name labels e.1.key.toInt e.2, tableCases, List.zip_map]
          rfl
  | arrayData width es =>
      rw [opening, closing, Table.ofParts?, Text.decimal?_decimal]
      have helements := Table.mapM_map_eq_some (l := es) (Table.element?_elementText width)
      cases cases <;>
        simp only [rows, table, Option.bind_eq_bind, Option.bind_some, helements, pure]

/-- **A table is read back** from its text, behind whatever margin. -/
theorem read?_text (h : p.Fits cases) (n : Nat) :
    Table.read? (Text.inset n (p.text labels cases)) = some (p.table labels cases) := by
  rw [Table.read?, text_eq_block h, wordLines_block p.isWord_of_mem_opening isWord_of_mem_rows
    p.isWord_of_mem_closing, Table.ofLines?, List.getLast?_concat, List.dropLast_concat]
  exact ofParts?_eq_table labels cases p

/-- A written table shows a payload: each case and each element once, and in order. -/
def Shows (labels : LabelTable) (cases : Option (List LabelId)) : Payload → Table → Prop
  | packedSwitch firstKey targets, .packed key entries =>
    key = firstKey.toInt ∧ entries = tableCases labels cases targets
  | sparseSwitch es, .sparse entries =>
    entries.map Prod.fst = es.map (·.key.toInt)
      ∧ entries.map Prod.snd = tableCases labels cases (es.map (·.target))
  | arrayData width es, .array w vs =>
    w = width.toNat ∧ List.Forall₂ (fun e v => IsElement w e.toInt v) es vs
  | _, _ => False

theorem shows_table (h : p.Fits cases) : p.Shows labels cases (p.table labels cases) := by
  cases p with
  | packedSwitch firstKey targets => exact ⟨rfl, rfl⟩
  | sparseSwitch es =>
      have hlength : (es.map (·.key.toInt)).length
          = (tableCases labels cases (es.map (·.target))).length := by
        rw [length_tableCases (by simpa [Fits] using h), List.length_map, List.length_map]
      exact ⟨List.map_fst_zip hlength.le, List.map_snd_zip hlength.ge⟩
  | arrayData width es =>
      refine ⟨rfl, List.forall₂_map_right_iff.mpr (List.forall₂_same.mpr fun e _ => ?_)⟩
      exact isElement_elementValue width.toNat e

/-- **The text of a table shows the table**: what is read of it, behind whatever margin, is the
first key, the width, and all cases and elements in order. -/
theorem text_shows (labels : LabelTable) (cases : Option (List LabelId)) (p : Payload) (n : Nat)
    (h : p.Fits cases) : ∃ table, Table.read? (Text.inset n (p.text labels cases)) = some table
      ∧ p.Shows labels cases table :=
  ⟨p.table labels cases, read?_text h n, shows_table h⟩

/-- The table of a used switch, with the least key there is and two cases at one place. -/
theorem text_shows_sparse :
    let p : Payload := .sparseSwitch [⟨Int32.minValue, -2⟩, ⟨0, 7⟩, ⟨Int32.maxValue, -2⟩]
    let cases : Option (List LabelId) :=
      some [⟨.sparseCase, 4⟩, ⟨.sparseCase, 13⟩, ⟨.sparseCase, 4⟩]
    let labels : LabelTable := .ofIds [⟨.sparseCase, 4⟩, ⟨.sparseCase, 13⟩]
    p.Fits cases ∧ ∃ table, Table.read? (Text.inset 4 (p.text labels cases)) = some table
      ∧ p.Shows labels cases table := by
  intro p cases labels
  have hfits : p.Fits cases := by
    intro ids hids
    rw [← Option.some.inj hids]
    rfl
  exact ⟨hfits, text_shows labels cases p 4 hfits⟩

end Payload

end Dalvik
