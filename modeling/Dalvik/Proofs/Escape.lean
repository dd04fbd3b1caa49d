import Dalvik.Entry.Text
import Dalvik.Method
import Dalvik.Proofs.RegisterNames
import Mathlib.Logic.Basic
import Mathlib.Logic.Function.Defs

/-!
# Escape — quoted texts are read back and stay on their line

`quoted?` reads a quoted text: up to the first quote that is not escaped, with a backslash before
one of six characters or before `u` and exactly four hexadecimal digits. It reads the escaped form
of a character as that character, whatever follows (`unquote?_escapeChar`), and so a quoted text as
the text, whatever follows the closing quote (`quoted?_escape`). Four digits are enough, since no
control character and no blank has a number that needs more (`toNat_lt_of_numbered`).

What is escaped has neither control characters nor blanks other than the space
(`plain_of_mem_escape`), so the directives that show names, signatures and file names keep to one
line. `escape_lossless` has both.
-/

namespace Dalvik

namespace Text

/-! ### Reading -/

/-- The character that `c` stands for behind a backslash. -/
def escaped? (c : Char) : Option Char :=
  [('\\', '\\'), ('\x22', '\x22'), ('\x27', '\x27'), ('n', '\n'), ('r', '\r'), ('t', '\t')].lookup c

/-- The character of the number with the given hexadecimal digits. -/
def numbered? (ds : List Char) : Option Char :=
  (hex? ds).bind fun n => if (Char.ofNat n).toNat == n then some (Char.ofNat n) else none

/-- A character before what is read after it. -/
def prepend (c : Option Char) (r : Option (List Char × List Char)) :
    Option (List Char × List Char) :=
  c.bind fun c => r.map fun (s, rest) => (c :: s, rest)

/-- The text up to the first quote that is not escaped, and what follows the quote. -/
def unquote? : List Char → Option (List Char × List Char)
  | [] => none
  | '\x22' :: rest => some ([], rest)
  | '\\' :: 'u' :: d₁ :: d₂ :: d₃ :: d₄ :: rest =>
    prepend (numbered? [d₁, d₂, d₃, d₄]) (unquote? rest)
  | '\\' :: e :: rest => prepend (escaped? e) (unquote? rest)
  | ['\\'] => none
  | c :: rest => prepend (some c) (unquote? rest)

/-- The text of a quoted literal, and what follows the literal. -/
def quoted? : List Char → Option (String × List Char)
  | '\x22' :: cs => (unquote? cs).map fun (s, rest) => (String.ofList s, rest)
  | _ => none

variable {c d : Char} {n : Nat} {cs : List Char}

/-! ### Four digits -/

theorem toNat_lt_of_numbered (h : isControl c || (isBlank c && c != ' ')) : c.toNat < 0x10000 := by
  simp only [isControl, isBlank, Bool.or_eq_true, Bool.and_eq_true, decide_eq_true_eq,
    beq_iff_eq] at h
  omega

theorem length_fourDigits (h : n < 0x10000) : (fourDigits n).length = 4 := by
  have hle : (Nat.toDigits 16 n).length ≤ 4 :=
    (Nat.length_toDigits_le_iff (by decide) (by decide)).mpr h
  simp only [fourDigits, List.length_append, List.length_replicate]
  omega

theorem exists_fourDigits (h : n < 0x10000) : ∃ d₁ d₂ d₃ d₄, fourDigits n = [d₁, d₂, d₃, d₄] := by
  have hlen := length_fourDigits h
  match hd : fourDigits n, hlen with
  | [d₁, d₂, d₃, d₄], _ => exact ⟨d₁, d₂, d₃, d₄, rfl⟩

theorem hex?_fourDigits (n : Nat) : hex? (fourDigits n) = some n := by
  have hne : fourDigits n ≠ [] := by simp [fourDigits, Nat.toDigits_ne_nil]
  rw [hex?, if_neg (by simpa using hne), fourDigits, hexFrom?_zeros, hexFrom?_toDigits]

theorem numbered?_fourDigits (c : Char) : numbered? (fourDigits c.toNat) = some c := by
  simp [numbered?, hex?_fourDigits]

/-! ### Characters -/

/-- A character that leaves a text on its line: no control character, and no blank but the space. -/
structure Plain (c : Char) : Prop where
  /-- It is after the first control block. -/
  low : 0x20 ≤ c.toNat
  /-- It is outside the second control block and the delete character. -/
  high : c.toNat < 0x7f ∨ 0x9f < c.toNat
  /-- It is none of the single blanks after the control characters. -/
  blank : c.toNat ∉ [0xa0, 0x1680, 0x2028, 0x2029, 0x202f, 0x205f, 0x3000]
  /-- It is none of the spaces of the typographic widths. -/
  width : c.toNat < 0x2000 ∨ 0x200a < c.toNat

theorem plain_of_not_numbered (h : ¬ (isControl c || (isBlank c && c != ' '))) : Plain c := by
  simp only [isControl, isBlank, Bool.or_eq_true, Bool.and_eq_true, decide_eq_true_eq, beq_iff_eq,
    bne_iff_ne, not_or, not_and, not_not] at h
  have hspace : c = ' ' → c.toNat = 0x20 := fun hc => congrArg Char.toNat hc
  have hblank := fun hb => hspace (h.2 hb)
  refine ⟨by omega, by omega, ?_, by omega⟩
  simp only [List.mem_cons, List.not_mem_nil, or_false]
  omega

theorem plain_of_printable (hlow : 0x20 ≤ c.toNat) (hhigh : c.toNat < 0x7f) : Plain c := by
  refine ⟨hlow, .inl hhigh, ?_, by omega⟩
  simp only [List.mem_cons, List.not_mem_nil, or_false]
  omega

theorem plain_digitChar (h : n < 16) : Plain n.digitChar := by
  have key : ∀ n < 16, 0x20 ≤ n.digitChar.toNat ∧ n.digitChar.toNat < 0x7f := by decide
  exact plain_of_printable (key n h).1 (key n h).2

theorem plain_of_mem_fourDigits (h : c ∈ fourDigits n) : Plain c := by
  rcases List.mem_append.mp h with h | h
  · rw [List.eq_of_mem_replicate h]
    exact plain_digitChar (n := 0) (by decide)
  · obtain ⟨d, hd, rfl⟩ := exists_digit_of_mem (by decide) h
    exact plain_digitChar hd

/-- The forms of an escaped character: a backslash and one character, a backslash and four digits,
or the character itself. -/
theorem escapeChar_cases (c : Char) :
    (∃ e, e ≠ 'u' ∧ Plain e ∧ escaped? e = some c ∧ escapeChar c = ['\\', e]) ∨
    (c.toNat < 0x10000 ∧ escapeChar c = '\\' :: 'u' :: fourDigits c.toNat) ∨
    (c ≠ '\x22' ∧ c ≠ '\\' ∧ Plain c ∧ escapeChar c = [c]) := by
  fun_cases escapeChar c with
  | case7 => exact .inr (.inl ⟨toNat_lt_of_numbered ‹_›, rfl⟩)
  | case8 => exact .inr (.inr ⟨‹_›, ‹_›, plain_of_not_numbered ‹_›, rfl⟩)
  | _ =>
      subst_vars
      exact .inl ⟨_, by decide, plain_of_printable (by decide) (by decide), rfl, rfl⟩

/-- What is escaped leaves a text on its line. -/
theorem plain_of_mem_escapeChar (h : d ∈ escapeChar c) : Plain d := by
  have hbackslash : Plain '\\' := plain_of_printable (by decide) (by decide)
  obtain ⟨e, -, he, -, hc⟩ | ⟨-, hc⟩ | ⟨-, -, hplain, hc⟩ := escapeChar_cases c
  · rw [hc] at h
    rcases List.mem_cons.mp h with rfl | h
    · exact hbackslash
    · exact List.mem_singleton.mp h ▸ he
  · rw [hc] at h
    rcases List.mem_cons.mp h with rfl | h
    · exact hbackslash
    · rcases List.mem_cons.mp h with rfl | h
      · exact plain_of_printable (by decide) (by decide)
      · exact plain_of_mem_fourDigits h
  · rw [hc] at h
    exact List.mem_singleton.mp h ▸ hplain

theorem unquote?_escape {e : Char} (he : e ≠ 'u') (cs : List Char) :
    unquote? ('\\' :: e :: cs) = prepend (escaped? e) (unquote? cs) := by
  simp [unquote?, he]

theorem unquote?_plain (hq : c ≠ '\x22') (hb : c ≠ '\\') (cs : List Char) :
    unquote? (c :: cs) = prepend (some c) (unquote? cs) := by
  rw [unquote?] <;> simp [hq, hb]

/-- **The escaped form of a character is read as that character**, whatever follows. -/
theorem unquote?_escapeChar (c : Char) (cs : List Char) :
    unquote? (escapeChar c ++ cs) = prepend (some c) (unquote? cs) := by
  obtain ⟨e, hu, -, he, hc⟩ | ⟨hlt, hc⟩ | ⟨hq, hb, -, hc⟩ := escapeChar_cases c
  · rw [hc, ← he]
    exact unquote?_escape hu cs
  · obtain ⟨d₁, d₂, d₃, d₄, hd⟩ := exists_fourDigits hlt
    have hread := numbered?_fourDigits c
    rw [hd] at hread hc
    rw [hc, ← hread]
    rfl
  · rw [hc]
    exact unquote?_plain hq hb cs

/-! ### Texts -/

/-- **A text is read back** up to the closing quote. -/
theorem unquote?_flatMap (cs rest : List Char) :
    unquote? (cs.flatMap escapeChar ++ '\x22' :: rest) = some (cs, rest) := by
  induction cs with
  | nil => rfl
  | cons c cs ih =>
      rw [List.flatMap_cons, List.append_assoc, unquote?_escapeChar, ih]
      rfl

theorem quoted?_escape (s : String) (rest : List Char) :
    quoted? ('\x22' :: ((escape s).toList ++ '\x22' :: rest)) = some (s, rest) := by
  rw [quoted?, escape, String.toList_ofList, unquote?_flatMap]
  simp

theorem escape_injective : Function.Injective escape := by
  intro s t h
  have hread := quoted?_escape s []
  rw [h, quoted?_escape] at hread
  exact (congrArg Prod.fst (Option.some.inj hread)).symm

theorem plain_of_mem_escape {s : String} (h : c ∈ (escape s).toList) : Plain c := by
  rw [escape, String.toList_ofList] at h
  obtain ⟨d, -, hd⟩ := List.mem_flatMap.mp h
  exact plain_of_mem_escapeChar hd

/-! ### Lines -/

theorem newline_notMem_decimal (n : Nat) : '\n' ∉ (decimal n).toList := by
  intro h
  exact absurd (isDigit_of_mem_decimal h) (by decide)

theorem newline_notMem_quoted (s : String) : '\n' ∉ (quoted s).toList := by
  have hescape : '\n' ∉ (escape s).toList := fun h => absurd (plain_of_mem_escape h).low (by decide)
  simp [quoted, hescape]

end Text

open Text (newline_notMem_decimal newline_notMem_quoted)

theorem RegisterNames.newline_notMem_name (n : RegisterNames) (r : Register) :
    '\n' ∉ (n.name r).toList :=
  notMem_nameLike rfl r.toNat r.toNat

/-- A debug directive is on one line, unless a type that it shows is not. -/
theorem DebugEvent.newline_mem_text? {names : RegisterNames} {event : DebugEvent} {text : String}
    (h : event.text? names = some text) (hn : '\n' ∈ text.toList) :
    ∃ register name type signature,
      event = .startLocal register name (some type) signature ∧ '\n' ∈ type.toList := by
  have hname := names.newline_notMem_name
  cases event with
  | startLocal register name type signature =>
      cases h
      cases type with
      | none =>
          cases name <;> cases signature <;>
            simp [hname, newline_notMem_quoted] at hn
      | some type =>
          refine ⟨register, name, type, signature, rfl, ?_⟩
          cases name <;> cases signature <;>
            simpa [hname, newline_notMem_quoted] using hn
  | sourceFile name =>
      obtain ⟨file, -, rfl⟩ := Option.map_eq_some_iff.mp h
      simp [newline_notMem_quoted] at hn
  | _ =>
      cases h
      simp [hname, newline_notMem_decimal] at hn

/-- The directive of a parameter is on one line, with its annotations below. -/
theorem Parameter.exists_line {register : Nat} {p : Parameter} (h : p.block register ≠ "") :
    ∃ line, '\n' ∉ line.toList ∧ p.block register = line ++ "\n" ++
      if p.annotations.isEmpty then "" else p.annotationBlock ++ ".end param\n" := by
  rw [block] at h ⊢
  split
  case isTrue hnone => exact absurd (if_pos hnone) h
  case isFalse =>
    refine ⟨_, ?_, rfl⟩
    cases p.shownName? <;> simp [newline_notMem_decimal, newline_notMem_quoted]

/-- **Quoted texts are read back and stay on their line.** Whatever follows the closing quote, the
reader finds the text and leaves what follows. What is escaped has no control character and no blank
but the space; so the directives that show names, signatures and file names are not broken by them:
of what a debug directive shows, a type is written as it is. -/
theorem escape_lossless :
    (∀ s rest,
      Text.quoted? ('\x22' :: ((Text.escape s).toList ++ '\x22' :: rest)) = some (s, rest)) ∧
    Function.Injective Text.escape ∧
    (∀ s, ∀ c ∈ (Text.escape s).toList, Text.Plain c) ∧
    (∀ names (event : DebugEvent) text, event.text? names = some text → '\n' ∈ text.toList →
      ∃ register name type signature,
        event = .startLocal register name (some type) signature ∧ '\n' ∈ type.toList) ∧
    ∀ register (p : Parameter), p.block register ≠ "" → ∃ line, '\n' ∉ line.toList ∧
      p.block register = line ++ "\n" ++
        if p.annotations.isEmpty then "" else p.annotationBlock ++ ".end param\n" :=
  ⟨Text.quoted?_escape, Text.escape_injective, fun _ _ hc => Text.plain_of_mem_escape hc,
    fun _ _ _ h hn => DebugEvent.newline_mem_text? h hn, fun _ _ h => Parameter.exists_line h⟩

/-- A text with a line end, a quote and a backslash before `u`; a local of such a name, whose type
has a line end too; and a parameter of that name. -/
theorem escape_lossless_name :
    let name := "a\n\x22\\u0041"
    let event : DebugEvent := .startLocal 0 (some name) (some "L\n;") none
    let p : Parameter := ⟨.primitive .int, some name, []⟩
    Text.quoted? ('\x22' :: ("a\\n\\\x22\\\\u0041".toList ++ ['\x22', ':'])) = some (name, [':']) ∧
      (∃ register name type signature,
        event = .startLocal register name (some type) signature ∧ '\n' ∈ type.toList) ∧
      ∃ line, '\n' ∉ line.toList ∧ p.block 1 = line ++ "\n" ++ "" := by
  intro name event p
  have hescape : Text.escape name = "a\\n\\\x22\\\\u0041" := by decide +kernel
  refine ⟨?_, ?_, ?_⟩
  · rw [← hescape]
    exact escape_lossless.1 name [':']
  · exact escape_lossless.2.2.2.1 ⟨1, 0, true⟩ event _ rfl (by decide +kernel)
  · exact escape_lossless.2.2.2.2 1 p (by decide +kernel)

end Dalvik
