import Dalvik.Entry.Text
import Dalvik.Proofs.Numbering
import Dalvik.Proofs.Opcode
import Dalvik.Proofs.Word
import Mathlib.Data.List.Basic

/-!
# Line — an instruction is told by its line

The line of an instruction is its mnemonic and then its operands, with nothing to mark which of them
are there. Its words are the mnemonic, the names of the registers, the literal and the target
(`words_line`), whether the registers stand in braces or not; of a range only the two ends. What an
operand is can be seen from the first character of its word (`Text.wordKind`), so each kind of
operand is found again among the words (`Text.Operands.inj`).

Register names, literals and label names are all read in one way only. Hence two instructions with
one line have the same opcode, registers, literal and target (`line_determines`).
-/

namespace Dalvik

/-- The kinds of words behind the mnemonic of a line. -/
inductive WordKind where
  | register
  | literal
  | label
deriving DecidableEq

namespace Text

/-- The kind of a word, by its first character. -/
def wordKind (w : String) : WordKind :=
  match w.toList.head? with
  | some ':' => .label
  | some '-' => .literal
  | some '0' => .literal
  | _ => .register

theorem wordKind_literal (v : Int) (t : String) : wordKind (literal v ++ t) = .literal := by
  by_cases hv : v < 0 <;> simp [wordKind, toList_literal, toList_marked, hv]

/-! ### Operands by their kinds -/

section Operands

variable {rs ls ts rs' ls' ts' : List String}

/-- Words of three kinds, one kind after the other. -/
structure Operands (rs ls ts : List String) : Prop where
  /-- First come the registers. -/
  registers : ∀ w ∈ rs, wordKind w = .register
  /-- Then comes the literal. -/
  literals : ∀ w ∈ ls, wordKind w = .literal
  /-- The target is last. -/
  labels : ∀ w ∈ ts, wordKind w = .label

theorem Operands.filter_kind (h : Operands rs ls ts) :
    (rs ++ ls ++ ts).filter (wordKind · = .register) = rs ∧
    (rs ++ ls ++ ts).filter (wordKind · = .literal) = ls ∧
    (rs ++ ls ++ ts).filter (wordKind · = .label) = ts := by
  have hself {k : WordKind} {ws : List String} (hw : ∀ w ∈ ws, wordKind w = k) :
      ws.filter (wordKind · = k) = ws := by
    simpa [List.filter_eq_self] using hw
  have hnil {j k : WordKind} {ws : List String} (hw : ∀ w ∈ ws, wordKind w = j) (hjk : j ≠ k) :
      ws.filter (wordKind · = k) = [] := by
    simpa [List.filter_eq_nil_iff] using fun w hm he => hjk ((hw w hm).symm.trans he)
  refine ⟨?_, ?_, ?_⟩ <;> rw [List.filter_append, List.filter_append]
  · rw [hself h.registers, hnil h.literals (by decide), hnil h.labels (by decide)]
    simp
  · rw [hnil h.registers (by decide), hself h.literals, hnil h.labels (by decide)]
    simp
  · rw [hnil h.registers (by decide), hnil h.literals (by decide), hself h.labels]
    simp

/-- **Operands are told apart by their kinds.** -/
theorem Operands.inj (h : Operands rs ls ts) (h' : Operands rs' ls' ts')
    (he : rs ++ ls ++ ts = rs' ++ ls' ++ ts') : rs = rs' ∧ ls = ls' ∧ ts = ts' := by
  have hfilter := h.filter_kind
  rw [he] at hfilter
  exact ⟨hfilter.1.symm.trans h'.filter_kind.1, hfilter.2.1.symm.trans h'.filter_kind.2.1,
    hfilter.2.2.symm.trans h'.filter_kind.2.2⟩

end Operands

/-- The words of a line: its first word and those of its operands. -/
theorem words_operands {m : String} (hm : IsWord m) (ops : List String) :
    words (m ++ if ops.isEmpty then "" else " " ++ ", ".intercalate ops).toList
      = m :: ops.flatMap fun s => words s.toList := by
  cases ops with
  | nil => simpa using hm.words_eq
  | cons s ops =>
      have hlist : (m ++ (" " ++ ", ".intercalate (s :: ops))).toList
          = m.toList ++ ' ' :: (", ".intercalate (s :: ops)).toList := by simp
      rw [List.isEmpty_cons, if_neg Bool.false_ne_true, hlist, words_append_separator rfl,
        hm.words_eq, words_intercalate (by decide) (by decide), List.singleton_append]

end Text

open Text (IsWord)

/-! ### Registers -/

namespace RegisterNames

variable {n : RegisterNames} {rs ss : List Register}

/-- The words of a range: the names of its ends. -/
def rangeWords (n : RegisterNames) : List Register → List String
  | [] => []
  | r :: rs => [n.nameLike r.toNat r.toNat, "..", n.nameLike r.toNat (r.toNat + rs.length)]

/-- The words of registers: all names, but of a range those of the ends. -/
def words (n : RegisterNames) (f : Format) (rs : List Register) : List String :=
  if f.isRegisterRange then n.rangeWords rs else rs.map n.name

theorem words_list (n : RegisterNames) (rs : List Register) :
    Text.words (n.list rs).toList = rs.map n.name := by
  have hlist : (n.list rs).toList
      = '\x7b' :: ((", ".intercalate (rs.map n.name)).toList ++ ['\x7d']) := by simp [list]
  have hnames : ∀ s ∈ rs.map n.name, IsWord s := by
    intro s hs
    obtain ⟨r, -, rfl⟩ := List.mem_map.mp hs
    exact n.isWord_nameLike r.toNat r.toNat
  rw [hlist, Text.words_cons_separator rfl, Text.words_append_separator rfl,
    Text.words_intercalate (by decide) (by decide), Text.flatMap_words hnames, Text.words_nil,
    List.append_nil]

theorem words_range (n : RegisterNames) (rs : List Register) :
    Text.words (n.range rs).toList = n.rangeWords rs := by
  cases rs with
  | nil =>
      have hrange : (n.range []).toList = ['\x7b', '\x7d'] := by simp [range]
      rw [hrange]
      rfl
  | cons r rs =>
      have hrange : (n.range (r :: rs)).toList
          = '\x7b' :: ((n.nameLike r.toNat r.toNat).toList ++ ' ' :: ("..".toList ++
            ' ' :: ((n.nameLike r.toNat (r.toNat + rs.length)).toList ++ ['\x7d']))) := by
        simp [range_eq_nameLike]
      have hdots : IsWord ".." := by decide
      rw [hrange, Text.words_cons_separator rfl, Text.words_append_separator rfl,
        Text.words_append_separator rfl, Text.words_append_separator rfl, hdots.words_eq,
        (n.isWord_nameLike _ _).words_eq, (n.isWord_nameLike _ _).words_eq]
      rfl

/-- However the registers are written, these are their words. -/
theorem words_registers (n : RegisterNames) (f : Format) (rs : List Register) :
    ((if f.isRegisterList then [n.list rs]
      else if f.isRegisterRange then [n.range rs]
      else rs.map n.name).flatMap fun s => Text.words s.toList) = n.words f rs := by
  rw [words]
  split
  case isTrue hlist =>
    have hrange : ¬ f.isRegisterRange := by
      revert hlist
      cases f <;> decide
    rw [List.flatMap_singleton, words_list, if_neg hrange]
  case isFalse =>
    split
    case isTrue => rw [List.flatMap_singleton, words_range]
    case isFalse =>
      refine Text.flatMap_words fun s hs => ?_
      obtain ⟨r, -, rfl⟩ := List.mem_map.mp hs
      exact n.isWord_nameLike r.toNat r.toNat

theorem wordKind_nameLike (n : RegisterNames) (first k : Nat) :
    Text.wordKind (n.nameLike first k) = .register := by
  rw [nameLike]
  split <;> simp [Text.wordKind]

theorem wordKind_words (n : RegisterNames) (f : Format) (rs : List Register) :
    ∀ w ∈ n.words f rs, Text.wordKind w = .register := by
  intro w hw
  rw [words] at hw
  split at hw
  case isTrue =>
    cases rs with
    | nil => cases hw
    | cons r rs =>
        simp only [rangeWords, List.mem_cons, List.not_mem_nil, or_false] at hw
        rcases hw with rfl | rfl | rfl
        · exact n.wordKind_nameLike _ _
        · rfl
        · exact n.wordKind_nameLike _ _
  case isFalse =>
    obtain ⟨r, -, rfl⟩ := List.mem_map.mp hw
    exact n.wordKind_nameLike r.toNat r.toNat

/-- Registers that follow each other are given by the first and their number. -/
theorem eq_of_consecutive {r s : Register} (hr : consecutive (r :: rs)) (hs : consecutive (s :: ss))
    (hfirst : r.toNat = s.toNat) (hlast : r.toNat + rs.length = s.toNat + ss.length) :
    r :: rs = s :: ss := by
  have hmap : (r :: rs).map (·.toNat) = (s :: ss).map (·.toNat) := by
    rw [map_toNat_of_consecutive hr, map_toNat_of_consecutive hs, hfirst]
    congr 1
    omega
  exact List.map_injective_iff.mpr (fun _ _ => UInt16.toNat_inj.mp) hmap

theorem nameLike_inj {p q k m : Nat} (hk : p ≤ k) (hm : q ≤ m)
    (h : n.nameLike p k = n.nameLike q m) : k = m := by
  have hread := register?_nameLike (n := n) hk
  rw [h, register?_nameLike hm] at hread
  exact (Option.some.inj hread).symm

/-- A range is told by its ends. -/
theorem rangeWords_inj (hr : consecutive rs) (hs : consecutive ss)
    (h : n.rangeWords rs = n.rangeWords ss) : rs = ss := by
  cases rs with
  | nil =>
      cases ss with
      | nil => rfl
      | cons s ss => cases h
  | cons r rs =>
      cases ss with
      | nil => cases h
      | cons s ss =>
          obtain ⟨hfirst, -, hlast, -⟩ := by simpa only [rangeWords, List.cons.injEq] using h
          exact eq_of_consecutive hr hs (nameLike_inj (Nat.le_refl _) (Nat.le_refl _) hfirst)
            (nameLike_inj (Nat.le_add_right _ _) (Nat.le_add_right _ _) hlast)

/-- **The words of registers tell the registers.** -/
theorem words_inj {f : Format} (hr : f.isRegisterRange → consecutive rs)
    (hs : f.isRegisterRange → consecutive ss) (h : n.words f rs = n.words f ss) : rs = ss := by
  by_cases hf : f.isRegisterRange
  · rw [words, words, if_pos hf, if_pos hf] at h
    exact rangeWords_inj (hr hf) (hs hf) h
  · rw [words, words, if_neg hf, if_neg hf] at h
    exact List.map_injective_iff.mpr n.name_injective h

end RegisterNames

/-! ### Lines -/

theorem Opcode.isWord_mnemonic (o : Opcode) : IsWord o.mnemonic := by
  have hsolid : ∃ cs, o.mnemonic = String.ofList cs ∧ cs ≠ [] ∧
      (cs.all fun c => !Text.isSeparator c) = true := by
    cases o <;> exact ⟨_, rfl, by decide, by decide⟩
  obtain ⟨cs, hcs, hne, hsolid⟩ := hsolid
  rw [Text.isWord_iff_all, hcs, String.toList_ofList]
  exact ⟨by simpa using hne, hsolid⟩

namespace Instruction

/-- An instruction that its line shows in full: it has no reference, and registers that are written
as a range follow each other. -/
structure Direct (i : Instruction) : Prop where
  /-- There is no reference to the constant pool. -/
  reference : i.reference = none
  /-- A range is one. -/
  consecutive : i.opcode.format.isRegisterRange → RegisterNames.consecutive i.registers

/-- The mark of a wide literal. -/
def literalEnd (i : Instruction) : String := if i.opcode.hasWideLiteral then "L" else ""

/-- The word of the literal, if there is one. -/
def literalWords (i : Instruction) : List String :=
  (i.literal.map fun v => Text.literal v.toInt ++ i.literalEnd).toList

variable {names : RegisterNames} {t : LabelTable} {i j : Instruction} {a b : Option LabelId}

theorem words_target (t : LabelTable) (a : Option LabelId) :
    ((a.map t.name).toList.flatMap fun s => Text.words s.toList) = (a.map t.name).toList := by
  refine Text.flatMap_words fun s hs => ?_
  obtain ⟨id, -, rfl⟩ := Option.map_eq_some_iff.mp (Option.mem_toList.mp hs)
  exact Label.isWord_name _

/-- **The words of a line.** -/
theorem words_line (hi : i.reference = none) : Text.words (i.line names t a).toList
    = i.opcode.mnemonic ::
      (names.words i.opcode.format i.registers ++ i.literalWords ++ (a.map t.name).toList) := by
  have hliteral : (i.literalWords.flatMap fun s => Text.words s.toList) = i.literalWords := by
    refine Text.flatMap_words fun s hs => ?_
    obtain ⟨v, -, rfl⟩ := Option.map_eq_some_iff.mp (Option.mem_toList.mp hs)
    refine (Text.isWord_literal _).append_of_all ?_
    rw [literalEnd]
    split <;> decide
  rw [line, Text.words_operands i.opcode.isWord_mnemonic]
  simp only [List.flatMap_append, hi, Option.toList_none, List.append_nil,
    RegisterNames.words_registers, words_target]
  rw [← literalEnd, ← literalWords, hliteral]

theorem operands_line (names : RegisterNames) (t : LabelTable) (i : Instruction)
    (a : Option LabelId) : Text.Operands (names.words i.opcode.format i.registers) i.literalWords
      (a.map t.name).toList where
  registers := names.wordKind_words _ _
  literals := by
    intro w hw
    obtain ⟨v, -, rfl⟩ := Option.map_eq_some_iff.mp (Option.mem_toList.mp hw)
    exact Text.wordKind_literal _ _
  labels := by
    intro w hw
    obtain ⟨id, -, rfl⟩ := Option.map_eq_some_iff.mp (Option.mem_toList.mp hw)
    rw [Text.wordKind, LabelTable.name, Label.toList_name]
    rfl

/-- An operand that may be missing is told by its word. -/
theorem eq_of_toList_map {α : Type} {f : α → String} {x y : Option α}
    (hf : ∀ v ∈ x, ∀ w ∈ y, f v = f w → v = w) (h : (x.map f).toList = (y.map f).toList) :
    x = y := by
  cases x with
  | none =>
      cases y with
      | none => rfl
      | some w => cases h
  | some v =>
      cases y with
      | none => cases h
      | some w => exact congrArg some (hf v rfl w rfl (List.singleton_inj.mp h))

theorem literal_eq_of_words (ho : i.opcode = j.opcode) (h : i.literalWords = j.literalWords) :
    i.literal = j.literal := by
  have hend : j.literalEnd = i.literalEnd := by rw [literalEnd, literalEnd, ho]
  rw [literalWords, literalWords, hend] at h
  refine eq_of_toList_map (fun v _ w _ hvw => ?_) h
  have hlist := congrArg String.toList hvw
  rw [String.toList_append, String.toList_append, List.append_left_inj] at hlist
  have hread := Text.literal?_literal v.toInt
  rw [hlist, Text.literal?_literal] at hread
  exact Int64.toInt_inj.mp (Option.some.inj hread).symm

/-- **A line determines the instruction.** In a table of labels that are all numbered or all
unnumbered, two instructions with one line have the same opcode, registers and literal, and their
targets are the same. -/
theorem line_determines {rs : List LabelRequest} (hu : (LabelTable.empty.run rs).Uniform)
    (hi : i.Direct) (hj : j.Direct) (ha : ∀ id ∈ a, id ∈ (LabelTable.empty.run rs).ids)
    (hb : ∀ id ∈ b, id ∈ (LabelTable.empty.run rs).ids)
    (h : i.line names (LabelTable.empty.run rs) a = j.line names (LabelTable.empty.run rs) b) :
    i.opcode = j.opcode ∧ i.registers = j.registers ∧ i.literal = j.literal ∧ a = b := by
  have hwords := congrArg (fun s : String => Text.words s.toList) h
  simp only [words_line hi.reference, words_line hj.reference, List.cons.injEq] at hwords
  have hopcode : i.opcode = j.opcode := Opcode.mnemonic_injective hwords.1
  obtain ⟨hregisters, hliteral, htarget⟩ :=
    (operands_line names _ i a).inj (operands_line names _ j b) hwords.2
  rw [← hopcode] at hregisters
  exact ⟨hopcode, RegisterNames.words_inj hi.consecutive (hopcode ▸ hj.consecutive) hregisters,
    literal_eq_of_words hopcode hliteral,
    eq_of_toList_map (fun x hx y hy => hu.name_injOn (ha x hx) (hb y hy)) htarget⟩

/-- Two calls with a range of registers, the least literal there is and a target, in a numbered
table. They differ in what no line shows. -/
theorem line_determines_call :
    let rs : List LabelRequest := [.intern ⟨.goto, 8⟩, .intern ⟨.cond, 8⟩, .number]
    let names : RegisterNames := ⟨4, 2, true⟩
    let i : Instruction := { ofOpcode .invokeStaticRange with
      registers := [1, 2, 3], literal := some Int64.minValue }
    let j : Instruction := { i with codeUnits := 5, codeOffset := some 1 }
    let a : Option LabelId := some ⟨.goto, 8⟩
    i.line names (LabelTable.empty.run rs) a = j.line names (LabelTable.empty.run rs) a ∧
      i.opcode = j.opcode ∧ i.registers = j.registers ∧ i.literal = j.literal ∧ a = a := by
  intro rs names i j a
  have hline : i.line names (LabelTable.empty.run rs) a
      = j.line names (LabelTable.empty.run rs) a := rfl
  have hi : i.Direct := ⟨rfl, fun _ => by decide⟩
  have hj : j.Direct := ⟨rfl, fun _ => by decide⟩
  have ha : ∀ id ∈ a, id ∈ (LabelTable.empty.run rs).ids := by
    intro id hid
    rw [← Option.some.inj hid]
    exact LabelTable.mem_ids_run_empty.mpr List.mem_cons_self
  have hnumbered : ∀ l ∈ (LabelTable.empty.run rs).labels, l.sequence.isSome := by
    intro l hl
    rw [LabelTable.sequence_number (LabelTable.indexed_run_empty (rs.take 2)).nodup hl]
    rfl
  exact ⟨hline, line_determines (.inr hnumbered) hi hj ha ha hline⟩

end Instruction

end Dalvik
