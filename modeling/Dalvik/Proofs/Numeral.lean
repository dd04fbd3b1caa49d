import Dalvik.Text.Numeral
import Mathlib.Data.Nat.Notation

/-!
# Numeral — digits determine numbers

The digits of a number in a base of at most sixteen are digit characters (`exists_digit_of_mem`),
so no underscore is among them, and no other number has the same digits (`toDigits_injective`).
Hence the decimal and the hexadecimal texts of numbers tell the numbers apart. `decimal?` reads
decimal digits, and `hex?` hexadecimal ones, also with zeros before them; `literal?` and
`displacement?` read the sign and the magnitude of a number.
-/

namespace Dalvik.Text

variable {b m n : Nat}

theorem digitChar_injOn (hm : m < 16) (hn : n < 16) (h : m.digitChar = n.digitChar) : m = n := by
  have key : ∀ m < 16, ∀ n < 16, m.digitChar = n.digitChar → m = n := by decide
  exact key m hm n hn h

/-- Every digit is the character of a number below the base. -/
theorem exists_digit_of_mem (hb : 1 < b) {c : Char} (h : c ∈ Nat.toDigits b n) :
    ∃ d < b, c = d.digitChar := by
  induction n using Nat.strongRecOn with
  | ind n ih =>
      rw [Nat.toDigits_eq_if hb] at h
      split at h
      · exact ⟨n, ‹_›, List.mem_singleton.mp h⟩
      · rcases List.mem_append.mp h with h | h
        · exact ih (n / b) (Nat.div_lt_self (by omega) hb) h
        · exact ⟨n % b, Nat.mod_lt _ (by omega), List.mem_singleton.mp h⟩

theorem underscore_notMem_toDigits (hb : 1 < b) : '_' ∉ Nat.toDigits b n := by
  intro h
  obtain ⟨d, -, he⟩ := exists_digit_of_mem hb h
  exact Nat.digitChar_ne '_' (by decide) he.symm

/-- **Digits determine the number**: by the last digit and the digits before it. -/
theorem toDigits_injective (hb : 1 < b) (hb' : b ≤ 16) : Function.Injective (Nat.toDigits b) := by
  intro m
  induction m using Nat.strongRecOn with
  | ind m ih =>
      intro n h
      rw [Nat.toDigits_eq_if hb, Nat.toDigits_eq_if (n := n) hb] at h
      -- one digit, or a last digit after others: the two forms differ in length
      by_cases hm : m < b <;> by_cases hn : n < b
      · rw [if_pos hm, if_pos hn] at h
        exact digitChar_injOn (by omega) (by omega) (List.singleton_inj.mp h)
      · rw [if_pos hm, if_neg hn] at h
        have := congrArg List.length h
        have := Nat.length_toDigits_pos (b := b) (n := n / b)
        simp only [List.length_append, List.length_singleton] at *
        omega
      · rw [if_neg hm, if_pos hn] at h
        have := congrArg List.length h
        have := Nat.length_toDigits_pos (b := b) (n := m / b)
        simp only [List.length_append, List.length_singleton] at *
        omega
      · rw [if_neg hm, if_neg hn] at h
        obtain ⟨hq, hr⟩ := List.append_inj' h rfl
        have hdiv : m / b = n / b := ih (m / b) (Nat.div_lt_self (by omega) hb) hq
        have hmod : m % b = n % b :=
          digitChar_injOn (Nat.lt_of_lt_of_le (Nat.mod_lt _ (by omega)) hb')
            (Nat.lt_of_lt_of_le (Nat.mod_lt _ (by omega)) hb') (List.singleton_inj.mp hr)
        rw [← Nat.div_add_mod m b, hdiv, hmod, Nat.div_add_mod]

theorem toList_decimal (n : Nat) : (decimal n).toList = Nat.toDigits 10 n := Nat.toList_repr

theorem toList_hex (n : Nat) : (hex n).toList = Nat.toDigits 16 n := String.toList_ofList

/-- The number with the given decimal digits. -/
def decimal? (ds : List Char) : Option Nat :=
  if !ds.isEmpty && ds.all Char.isDigit then some (Nat.ofDigitChars 10 ds 0) else none

theorem isDigit_of_mem_decimal {c : Char} (h : c ∈ (decimal n).toList) : c.isDigit := by
  rw [toList_decimal] at h
  exact Nat.isDigit_of_mem_toDigits (by decide) (by decide) h

theorem decimal?_decimal (n : Nat) : decimal? (decimal n).toList = some n := by
  have hdigits : (decimal n).toList.all Char.isDigit :=
    List.all_eq_true.mpr fun _ hc => isDigit_of_mem_decimal hc
  rw [decimal?, hdigits, toList_decimal, Nat.ofDigitChars_ten_toDigits]
  simp [Nat.toDigits_ne_nil]

/-- The value of a hexadecimal digit, in lower or upper case. -/
def hexDigit? (c : Char) : Option Nat :=
  let n := c.toNat
  if 0x30 ≤ n && n ≤ 0x39 then some (n - 0x30)
  else if 0x61 ≤ n && n ≤ 0x66 then some (n - 0x57)
  else if 0x41 ≤ n && n ≤ 0x46 then some (n - 0x37)
  else none

/-- The number with the given hexadecimal digits behind those of `n`. -/
def hexFrom? (n : Nat) (ds : List Char) : Option Nat :=
  ds.foldlM (fun n c => (hexDigit? c).map (16 * n + ·)) n

/-- The number with the given hexadecimal digits. -/
def hex? (ds : List Char) : Option Nat := if ds.isEmpty then none else hexFrom? 0 ds

theorem hexDigit?_digitChar (h : n < 16) : hexDigit? n.digitChar = some n := by
  have key : ∀ n < 16, hexDigit? n.digitChar = some n := by decide
  exact key n h

theorem hexFrom?_append (n : Nat) (ds es : List Char) :
    hexFrom? n (ds ++ es) = (hexFrom? n ds).bind (hexFrom? · es) := List.foldlM_append

theorem hexFrom?_digit (hn : n < 16) (m : Nat) : hexFrom? m [n.digitChar] = some (16 * m + n) := by
  simp [hexFrom?, hexDigit?_digitChar hn]

/-- The digits of a number are read as the number: by the last digit and those before it. -/
theorem hexFrom?_toDigits (n : Nat) : hexFrom? 0 (Nat.toDigits 16 n) = some n := by
  induction n using Nat.strongRecOn with
  | ind n ih =>
      rw [Nat.toDigits_eq_if (by decide)]
      split
      case isTrue hn => simpa using hexFrom?_digit hn 0
      case isFalse hn =>
        rw [hexFrom?_append, ih (n / 16) (by omega), Option.bind_some,
          hexFrom?_digit (Nat.mod_lt _ (by decide)), Nat.div_add_mod]

/-- Zeros before the digits do not count. -/
theorem hexFrom?_zeros (k : Nat) (ds : List Char) :
    hexFrom? 0 (List.replicate k '0' ++ ds) = hexFrom? 0 ds := by
  induction k with
  | zero => rfl
  | succ k ih => exact ih

theorem hex?_toDigits (n : Nat) : hex? (Nat.toDigits 16 n) = some n := by
  rw [hex?, hexFrom?_toDigits, if_neg (by simp [Nat.toDigits_ne_nil])]

/-- The number behind the marker `0x`. -/
def marked? : List Char → Option Nat
  | '0' :: 'x' :: ds => hex? ds
  | _ => none

/-- The number of a literal: its sign, if it is negative, and its magnitude. -/
def literal? : List Char → Option Int
  | '-' :: cs => (marked? cs).map fun n => -Int.ofNat n
  | cs => (marked? cs).map Int.ofNat

/-- The number of a displacement: its sign and its magnitude. -/
def displacement? : List Char → Option Int
  | '-' :: cs => (marked? cs).map fun n => -Int.ofNat n
  | '+' :: cs => (marked? cs).map Int.ofNat
  | _ => none

theorem toList_marked (n : Nat) : (marked n).toList = '0' :: 'x' :: Nat.toDigits 16 n := by
  simp [marked, toList_hex]

theorem marked?_marked (n : Nat) : marked? (marked n).toList = some n := by
  rw [toList_marked, marked?, hex?_toDigits]

theorem toList_literal (v : Int) :
    (literal v).toList = (if v < 0 then ['-'] else []) ++ (marked v.natAbs).toList := by
  rw [literal]
  split <;> simp

theorem toList_displacement (v : Int) :
    (displacement v).toList = (if v < 0 then '-' else '+') :: (marked v.natAbs).toList := by
  rw [displacement]
  split <;> simp

/-- **A literal is read as its number**, whatever the number. -/
theorem literal?_literal (v : Int) : literal? (literal v).toList = some v := by
  rw [toList_literal]
  split
  case isTrue hv =>
    rw [List.singleton_append, literal?, marked?_marked, Option.map_some, Int.ofNat_eq_natCast]
    congr 1
    omega
  case isFalse hv =>
    -- the first character is that of the marker, and no sign
    rw [List.nil_append, literal?, marked?_marked, Option.map_some, Int.ofNat_eq_natCast]
    · congr 1
      omega
    · simp [toList_marked]

theorem displacement?_displacement (v : Int) : displacement? (displacement v).toList = some v := by
  rw [toList_displacement]
  split
  case isTrue hv =>
    rw [displacement?, marked?_marked, Option.map_some, Int.ofNat_eq_natCast]
    congr 1
    omega
  case isFalse hv =>
    rw [displacement?, marked?_marked, Option.map_some, Int.ofNat_eq_natCast]
    congr 1
    omega

end Dalvik.Text
