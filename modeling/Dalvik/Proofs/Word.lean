import Dalvik.Proofs.Label
import Dalvik.Proofs.RegisterNames

/-!
# Word — the words of a text

The lines of a listing are made of words: mnemonics, the names of registers and labels, numbers.
Between the words stand spaces, commas, braces and line ends, and no word has one of these
(`IsWord`). `words` finds the words of a text. A separator parts them: the words of a text are those
before it and those after it (`words_append_separator`). So the words of a text that is put together
from words are these words, whatever separators are between them.
-/

namespace Dalvik

namespace Text

/-- The characters that stand between words. -/
def isSeparator (c : Char) : Bool :=
  c == ' ' || c == '\n' || c == ',' || c == '\x7b' || c == '\x7d'

/-- The words of a text, in order. -/
def words (cs : List Char) : List String :=
  ((cs.splitOnP isSeparator).filter (!·.isEmpty)).map String.ofList

/-- A text that is one word. -/
structure IsWord (s : String) : Prop where
  /-- It is not empty. -/
  ne_nil : s.toList ≠ []
  /-- It has no separator. -/
  solid : ∀ c ∈ s.toList, isSeparator c = false

variable {c : Char} {s t : String} {n : Nat}

theorem isWord_iff_all : IsWord s ↔
    s.toList.isEmpty = false ∧ (s.toList.all fun c => !isSeparator c) = true := by
  refine ⟨fun h => ⟨?_, ?_⟩, fun h => ⟨?_, ?_⟩⟩
  · simpa using h.ne_nil
  · simpa using h.solid
  · simpa using h.1
  · simpa using h.2

instance : Decidable (IsWord s) := decidable_of_iff' _ isWord_iff_all

/-! ### Separators part words -/

theorem words_nil : words [] = [] := rfl

/-- **A separator parts the words** before it from those after it. -/
theorem words_append_separator (h : isSeparator c) (cs ds : List Char) :
    words (cs ++ c :: ds) = words cs ++ words ds := by
  rw [words, List.splitOnP_append_cons cs ds h, List.filter_append, List.map_append]
  rfl

theorem words_cons_separator (h : isSeparator c) (cs : List Char) : words (c :: cs) = words cs :=
  words_append_separator h [] cs

theorem words_separators_append {seps : List Char} (h : ∀ c ∈ seps, isSeparator c)
    (cs : List Char) : words (seps ++ cs) = words cs := by
  induction seps with
  | nil => rfl
  | cons c seps ih =>
      rw [List.cons_append, words_cons_separator (h c List.mem_cons_self),
        ih fun d hd => h d (List.mem_cons_of_mem _ hd)]

theorem IsWord.words_eq (h : IsWord s) : words s.toList = [s] := by
  rw [words, List.splitOnP_eq_singleton h.solid]
  simp [h.ne_nil]

/-- Texts between which are separators have the words of each of them. -/
theorem words_intercalate {sep : String} (hne : sep.toList ≠ [])
    (hsep : sep.toList.all isSeparator) (ss : List String) :
    words (sep.intercalate ss).toList = ss.flatMap fun s => words s.toList := by
  obtain ⟨c, seps, hs⟩ := List.exists_cons_of_ne_nil hne
  rw [hs, List.all_eq_true] at hsep
  induction ss with
  | nil => rfl
  | cons s ss ih =>
      cases ss with
      | nil => simp
      | cons t ss =>
          have hlist : (sep.intercalate (s :: t :: ss)).toList
              = s.toList ++ c :: (seps ++ (sep.intercalate (t :: ss)).toList) := by
            simp [String.intercalate_cons_cons, hs]
          rw [hlist, words_append_separator (hsep c List.mem_cons_self),
            words_separators_append fun d hd => hsep d (List.mem_cons_of_mem _ hd), ih]
          rfl

theorem flatMap_words {ss : List String} (h : ∀ s ∈ ss, IsWord s) :
    (ss.flatMap fun s => words s.toList) = ss := by
  induction ss with
  | nil => rfl
  | cons s ss ih =>
      rw [List.flatMap_cons, (h s List.mem_cons_self).words_eq,
        ih fun s hs => h s (List.mem_cons_of_mem _ hs), List.singleton_append]

/-! ### Numbers and names are words -/

theorem IsWord.append (hs : IsWord s) (ht : ∀ c ∈ t.toList, isSeparator c = false) :
    IsWord (s ++ t) where
  ne_nil := by simp [hs.ne_nil]
  solid := by
    intro c hc
    rcases List.mem_append.mp (String.toList_append ▸ hc) with hc | hc
    · exact hs.solid c hc
    · exact ht c hc

theorem IsWord.append_of_all (hs : IsWord s) (ht : (t.toList.all fun c => !isSeparator c) = true) :
    IsWord (s ++ t) :=
  hs.append (by simpa using ht)

theorem solid_toDigits {b : Nat} (hb : 1 < b) (hb' : b ≤ 16) :
    ∀ c ∈ Nat.toDigits b n, isSeparator c = false := by
  have key : ∀ d < 16, isSeparator d.digitChar = false := by decide
  intro c hc
  obtain ⟨d, hd, rfl⟩ := exists_digit_of_mem hb hc
  exact key d (Nat.lt_of_lt_of_le hd hb')

theorem isWord_decimal (n : Nat) : IsWord (decimal n) := by
  refine ⟨?_, ?_⟩ <;> rw [toList_decimal]
  · exact Nat.toDigits_ne_nil
  · exact solid_toDigits (by decide) (by decide)

theorem isWord_marked (n : Nat) : IsWord (marked n) := by
  refine IsWord.append (by decide) ?_
  rw [toList_hex]
  exact solid_toDigits (by decide) (by decide)

theorem isWord_literal (v : Int) : IsWord (literal v) := by
  rw [literal]
  split
  · exact IsWord.append (by decide) (isWord_marked _).solid
  · exact isWord_marked _

theorem isWord_displacement (v : Int) : IsWord (displacement v) := by
  rw [displacement]
  split <;> exact IsWord.append (by decide) (isWord_marked _).solid

end Text

open Text (IsWord)

theorem RegisterNames.isWord_nameLike (n : RegisterNames) (first k : Nat) :
    IsWord (n.nameLike first k) := by
  rw [nameLike]
  split <;> exact IsWord.append (by decide) (Text.isWord_decimal _).solid

theorem Label.isWord_name (l : Label) : IsWord l.name := by
  have hstem : ∀ k : LabelKind, IsWord k.stem := by
    intro k
    cases k <;> decide
  refine ⟨?_, ?_⟩ <;> rw [toList_name]
  · exact List.cons_ne_nil _ _
  · intro c hc
    rcases List.mem_cons.mp hc with rfl | hc
    · rfl
    · rcases List.mem_append.mp hc with hc | hc
      · exact (hstem _).solid c hc
      · rw [digits] at hc
        split at hc <;> exact Text.solid_toDigits (by decide) (by decide) c hc

end Dalvik
