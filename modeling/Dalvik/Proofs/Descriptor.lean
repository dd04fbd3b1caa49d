import Dalvik.Descriptor
import Mathlib.Logic.Function.Iterate

/-!
# Descriptor — the texts of types

Reading a type takes the characters of one descriptor and leaves the rest, and this is the inverse
of writing it: what is read is well-formed, and a text starts with the written form of a well-formed
type just if that type is read from it (`read?_eq_some_iff`). So the written form of a type shows
where it ends, whatever follows it, and no two types have the same one.

`SpellsBase` is the grammar of the types that are no arrays; `[` stands before it once for each
level of arrays. `parse_grammar` says that the texts of this grammar are the ones that are read, and
what each of them is read as.
-/

namespace Dalvik

namespace Primitive

/-- The letters, each with its type. -/
def letters : List (Char × Primitive) :=
  [('V', .void), ('Z', .boolean), ('B', .byte), ('S', .short), ('C', .char), ('I', .int),
    ('J', .long), ('F', .float), ('D', .double)]

theorem mem_letters_iff {c : Char} {p : Primitive} : (c, p) ∈ letters ↔ p.letter = c := by
  cases p <;> simp [letters, letter, eq_comm]

theorem letter_of_ofLetter? {c : Char} {p : Primitive} (h : ofLetter? c = some p) :
    p.letter = c := by
  unfold ofLetter? at h
  split at h <;> cases h <;> rfl

end Primitive

namespace Descriptor

/-- The name of a class: it is not empty and has none of the characters that end a name. -/
def IsClassName (name : String) : Prop :=
  name ≠ "" ∧ ∀ c ∈ name.toList, c ≠ ';' ∧ c ≠ '(' ∧ c ≠ ')'

/-- Every class name in the type is the name of a class. -/
def WellFormed : Descriptor → Prop
  | primitive _ => True
  | object name => IsClassName name
  | array element => element.WellFormed

/-- The texts of the types that are no arrays: one of nine letters, or the name of a class between
`L` and `;`. -/
inductive SpellsBase : List Char → Descriptor → Prop
  | letter {c : Char} {p : Primitive} : (c, p) ∈ Primitive.letters → SpellsBase [c] (primitive p)
  | object {name : String} :
      IsClassName name → SpellsBase ('L' :: name.toList ++ [';']) (object name)

/-- What becomes of a text that is read as a type. -/
structure ReadAsType (s : String) : Prop where
  /-- A type is read from a number of brackets and the text of a type that is no array: as many
  levels of arrays over that type. Nothing is read from any other text. -/
  accepted : ∀ d, parse s = .ok d ↔
    ∃ k b t, SpellsBase t b ∧ s.toList = List.replicate k '[' ++ t ∧ d = array^[k] b
  /-- The brackets count the levels of arrays, and what follows them is the type below. -/
  levels : ∀ k b t, SpellsBase t b → s.toList = List.replicate k '[' ++ t →
    ∃ d, parse s = .ok d ∧ d.dimensions = k ∧ d.base = b
  /-- What is read is written as the text it was read from. -/
  written : ∀ d, parse s = .ok d → d.text = s
  /-- The values of what is read take two registers just for two of the texts. -/
  wide : ∀ d, parse s = .ok d → (d.width = 2 ↔ s = "J" ∨ s = "D")
  /-- Any other text is refused as a descriptor. -/
  refused : (∀ k b t, SpellsBase t b → s.toList ≠ List.replicate k '[' ++ t) →
    ∃ f, parse s = .error f ∧ f.kind = .invalidDescriptor

variable {d b : Descriptor} {cs rest : List Char} {s : String}

/-! ### Reading is the inverse of writing -/

theorem isNameChar_iff {c : Char} : isNameChar c ↔ c ≠ ';' ∧ c ≠ '(' ∧ c ≠ ')' := by
  simp [isNameChar, and_assoc]

theorem isClassName_takeWhile {c : Char} {name : List Char}
    (h : cs.takeWhile isNameChar = c :: name) : IsClassName (String.ofList (c :: name)) := by
  refine ⟨fun hempty => ?_, fun x hx => ?_⟩
  · simpa using congrArg String.toList hempty
  · rw [String.toList_ofList, ← h] at hx
    exact isNameChar_iff.mp (List.all_eq_true.mp List.all_takeWhile x hx)

/-- A class is read up to the first character that no name has. -/
theorem read?_object {name : String} (h : IsClassName name) (rest : List Char) :
    read? ('L' :: (name.toList ++ ';' :: rest)) = some (object name, rest) := by
  have hname : ∀ c ∈ name.toList, isNameChar c := fun c hc => isNameChar_iff.mpr (h.2 c hc)
  have hend : isNameChar ';' = false := rfl
  obtain ⟨c, cs, hcs⟩ : ∃ c cs, name.toList = c :: cs :=
    List.exists_cons_of_ne_nil fun hnil => h.1 (String.toList_inj.mp hnil)
  have htake : (name.toList ++ ';' :: rest).takeWhile isNameChar = c :: cs := by
    rw [List.takeWhile_append_of_pos hname, hcs]
    simp [hend]
  have hdrop : (name.toList ++ ';' :: rest).dropWhile isNameChar = ';' :: rest := by
    rw [List.dropWhile_append_of_pos hname]
    simp [hend]
  have hofList : String.ofList (c :: cs) = name := by
    rw [← hcs, String.ofList_toList]
  simp only [read?, htake, hdrop, hofList]

/-- The written form of a well-formed type is read, and what follows it is left. -/
theorem read?_text (hd : d.WellFormed) (rest : List Char) :
    read? (d.text.toList ++ rest) = some (d, rest) := by
  induction d with
  | primitive p => cases p <;> rfl
  | object name => simpa [text] using read?_object hd rest
  | array e ih => simp [text, read?, ih hd]

/-- What is read is well-formed, and its written form is what was taken from the text. -/
theorem wellFormed_of_read? (h : read? cs = some (d, rest)) :
    d.WellFormed ∧ cs = d.text.toList ++ rest := by
  fun_induction read? cs generalizing d with
  | case1 => cases h
  | case2 cs ih =>
      obtain ⟨⟨e, tail⟩, he, hp⟩ := Option.map_eq_some_iff.mp h
      cases hp
      obtain ⟨hwf, rfl⟩ := ih he
      exact ⟨hwf, by simp [text]⟩
  | case3 cs c name tail hdrop htake =>
      cases h
      have hcs : cs = c :: name ++ ';' :: rest := by
        rw [← htake, ← hdrop, List.takeWhile_append_dropWhile]
      exact ⟨isClassName_takeWhile htake, by simp [text, hcs]⟩
  | case4 => cases h
  | case5 c cs =>
      obtain ⟨p, hp, hd⟩ := Option.map_eq_some_iff.mp h
      cases hd
      exact ⟨trivial, by simp [text, Primitive.letter_of_ofLetter? hp]⟩

/-- **A type is read just if the text starts with its written form**, and what follows is left. -/
theorem read?_eq_some_iff :
    read? cs = some (d, rest) ↔ d.WellFormed ∧ cs = d.text.toList ++ rest := by
  constructor
  · exact wellFormed_of_read?
  · rintro ⟨hd, rfl⟩
    exact read?_text hd rest

theorem parse?_eq_some_iff : parse? s = some d ↔ d.WellFormed ∧ s = d.text := by
  have hread : parse? s = some d ↔ read? s.toList = some (d, []) := by
    rw [parse?]
    split <;> simp_all
  rw [hread, read?_eq_some_iff, List.append_nil, String.toList_inj]

theorem parse_eq_ok_iff : parse s = .ok d ↔ d.WellFormed ∧ s = d.text := by
  rw [← parse?_eq_some_iff, parse]
  cases parse? s <;> simp

/-! ### Levels of arrays -/

/-- A type is its levels of arrays over its base. -/
theorem iterate_array_base (d : Descriptor) : array^[d.dimensions] d.base = d := by
  induction d with
  | primitive p => rfl
  | object name => rfl
  | array e ih => rw [dimensions, base, Function.iterate_succ_apply', ih]

theorem dimensions_base (d : Descriptor) : d.base.dimensions = 0 := by
  induction d with
  | primitive p => rfl
  | object name => rfl
  | array e ih => exact ih

theorem base_eq_self (h : d.dimensions = 0) : d.base = d := by
  have hbase := d.iterate_array_base
  rwa [h] at hbase

theorem dimensions_iterate_array (k : Nat) (b : Descriptor) :
    (array^[k] b).dimensions = b.dimensions + k := by
  induction k with
  | zero => rfl
  | succ k ih => rw [Function.iterate_succ_apply', dimensions, ih, Nat.add_assoc]

theorem base_iterate_array (k : Nat) (b : Descriptor) : (array^[k] b).base = b.base := by
  induction k with
  | zero => rfl
  | succ k ih => rw [Function.iterate_succ_apply', base, ih]

theorem wellFormed_iterate_array (k : Nat) : (array^[k] b).WellFormed ↔ b.WellFormed := by
  induction k with
  | zero => rfl
  | succ k ih => rw [Function.iterate_succ_apply', WellFormed, ih]

theorem toList_text_iterate_array (k : Nat) (b : Descriptor) :
    (array^[k] b).text.toList = List.replicate k '[' ++ b.text.toList := by
  induction k with
  | zero => rfl
  | succ k ih => simp [Function.iterate_succ_apply', text, ih, List.replicate_succ]

/-- The grammar of the types that are no arrays gives their written forms. -/
theorem spellsBase_iff {t : List Char} :
    SpellsBase t b ↔ b.WellFormed ∧ t = b.text.toList ∧ b.dimensions = 0 := by
  constructor
  · rintro (hc | hname)
    · exact ⟨trivial, by simp [text, Primitive.mem_letters_iff.mp hc], rfl⟩
    · exact ⟨hname, by simp [text], rfl⟩
  · rintro ⟨hb, rfl, hzero⟩
    cases b with
    | primitive p =>
        simpa [text] using SpellsBase.letter (Primitive.mem_letters_iff (p := p).mpr rfl)
    | object name => simpa [text] using SpellsBase.object hb
    | array e => cases hzero

/-! ### What is read -/

theorem parse_eq_ok_iff_spelled : parse s = .ok d ↔
    ∃ k b t, SpellsBase t b ∧ s.toList = List.replicate k '[' ++ t ∧ d = array^[k] b := by
  rw [parse_eq_ok_iff]
  constructor
  · rintro ⟨hd, rfl⟩
    refine ⟨d.dimensions, d.base, d.base.text.toList, spellsBase_iff.mpr ⟨?_, rfl, ?_⟩, ?_, ?_⟩
    · rwa [← wellFormed_iterate_array d.dimensions, iterate_array_base]
    · exact d.dimensions_base
    · rw [← toList_text_iterate_array, iterate_array_base]
    · rw [iterate_array_base]
  · rintro ⟨k, b, t, ht, hs, rfl⟩
    obtain ⟨hb, rfl, -⟩ := spellsBase_iff.mp ht
    rw [← toList_text_iterate_array, String.toList_inj] at hs
    exact ⟨(wellFormed_iterate_array k).mpr hb, hs⟩

/-- The brackets count the levels of arrays. -/
theorem exists_of_spelled {k : Nat} {t : List Char} (ht : SpellsBase t b)
    (hs : s.toList = List.replicate k '[' ++ t) :
    ∃ d, parse s = .ok d ∧ d.dimensions = k ∧ d.base = b := by
  have hzero := (spellsBase_iff.mp ht).2.2
  refine ⟨array^[k] b, parse_eq_ok_iff_spelled.mpr ⟨k, b, t, ht, hs, rfl⟩, ?_, ?_⟩
  · rw [dimensions_iterate_array, hzero, Nat.zero_add]
  · rw [base_iterate_array, base_eq_self hzero]

theorem parse_eq_error (h : ∀ d, parse s ≠ .ok d) : parse s = .error (.typeDescriptor s) := by
  rw [parse] at h ⊢
  cases hp : parse? s with
  | none => rfl
  | some d => simp [hp] at h

/-! ### Widths -/

theorem width_eq_two_iff : d.width = 2 ↔ d = primitive .long ∨ d = primitive .double := by
  cases d with
  | primitive p => cases p <;> simp [width, isWide]
  | object name => simp [width, isWide]
  | array e => simp [width, isWide]

/-- Values take two registers for two of the types, and one for all others. -/
theorem width_eq (d : Descriptor) :
    d.width = if d = primitive .long ∨ d = primitive .double then 2 else 1 := by
  split
  case isTrue h => exact width_eq_two_iff.mpr h
  case isFalse h =>
    have hne : d.width ≠ 2 := fun hd => h (width_eq_two_iff.mp hd)
    rw [width] at hne ⊢
    split <;> simp_all

theorem width_pos (d : Descriptor) : 0 < d.width := by
  rw [width_eq]
  split <;> decide

/-- The two types by their texts. -/
theorem width_eq_two_iff_of_parse (h : parse s = .ok d) : d.width = 2 ↔ s = "J" ∨ s = "D" := by
  rw [width_eq_two_iff]
  constructor
  · rintro (rfl | rfl)
    · exact .inl (parse_eq_ok_iff.mp h).2
    · exact .inr (parse_eq_ok_iff.mp h).2
  · rintro (rfl | rfl)
    · exact .inl (Except.ok.inj h).symm
    · exact .inr (Except.ok.inj h).symm

/-- **The texts that are read as types are those of the grammar**, and a type is read back from its
written form just if it is well-formed. -/
theorem parse_grammar :
    (∀ s, ReadAsType s) ∧ ∀ d : Descriptor, parse d.text = .ok d ↔ d.WellFormed := by
  refine ⟨fun s => ?_, fun d => ?_⟩
  · refine ⟨fun d => parse_eq_ok_iff_spelled, fun k b t => exists_of_spelled,
      fun d hd => (parse_eq_ok_iff.mp hd).2.symm, fun d => width_eq_two_iff_of_parse, fun h => ?_⟩
    refine ⟨_, parse_eq_error fun d hd => ?_, rfl⟩
    obtain ⟨k, b, t, ht, hs, -⟩ := parse_eq_ok_iff_spelled.mp hd
    exact h k b t ht hs
  · rw [parse_eq_ok_iff]
    exact and_iff_left rfl

end Descriptor

end Dalvik
