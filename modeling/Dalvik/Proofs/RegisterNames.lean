import Dalvik.RegisterNames
import Dalvik.Proofs.Numeral
import Mathlib.Logic.Function.Defs

/-!
# RegisterNames — names stand for registers

A name is read as it is meant: `v` and a number as the register of that number, `p` and a number as
the argument register of that number, the first argument register being `p0` (`register?`). A list
of names is read name by name (`registers?`), and a range by its two ends (`ends?`).

Whatever name a register has, it is read as that register (`register?_name`). In a range both ends
are named in the manner of the first register, and so the name of the last one need not be its own;
it is read as the last register all the same. `names_denote` has this for all registers, lists and
ranges.
-/

namespace Dalvik

namespace Text

/-- What stands between braces, without blanks. -/
def braced? (s : String) : Option (List Char) :=
  match s.toList with
  | '\x7b' :: cs =>
    if cs.getLast? = some '\x7d' then some (cs.dropLast.filter (· ≠ ' ')) else none
  | _ => none

theorem braced?_braces (s : String) :
    braced? ("\x7b" ++ s ++ "\x7d") = some (s.toList.filter (· ≠ ' ')) := by
  simp [braced?]

theorem filter_intercalate {α : Type} (p : α → Bool) (sep : List α) (ls : List (List α)) :
    (sep.intercalate ls).filter p = (sep.filter p).intercalate (ls.map (List.filter p)) := by
  induction ls with
  | nil => rfl
  | cons l ls ih =>
      cases ls with
      | nil => simp
      | cons m ls => simpa [List.intercalate_cons_cons] using ih

end Text

namespace RegisterNames

/-- The register that a name stands for. A method whose arguments need more registers than it has
counts its arguments from the first register. -/
def register? (n : RegisterNames) : List Char → Option Nat
  | 'v' :: ds => Text.decimal? ds
  | 'p' :: ds => (Text.decimal? ds).map fun k => (n.registerCount - n.parameterCount) + k
  | _ => none

/-- The registers that the names in braces stand for, between which are commas. -/
def registers? (n : RegisterNames) (s : String) : Option (List Nat) :=
  (Text.braced? s).bind fun cs =>
    (if cs = [] then [] else cs.splitOn ',').mapM n.register?

/-- The registers that the names of the ends of a range stand for, between which are two dots. -/
def ends? (n : RegisterNames) (s : String) : Option (Nat × Nat) :=
  match (Text.braced? s).map (·.splitOn '.') with
  | some [first, [], last] => do return (← n.register? first, ← n.register? last)
  | _ => none

/-- The names of registers stand for the registers. -/
structure Denote (n : RegisterNames) : Prop where
  /-- A name is read as the register that has it. -/
  name : ∀ r : Register, n.register? (n.name r).toList = some r.toNat
  /-- No two registers have the same name. -/
  injective : Function.Injective n.name
  /-- Where there are registers for the arguments, the last registers are named as arguments if that
  is wanted, and no other is. -/
  argument : n.parameterCount ≤ n.registerCount → ∀ r : Register, r.toNat < n.registerCount →
    ((∃ k, n.name r = "p" ++ Text.decimal k) ↔
      n.parameterNames ∧ n.registerCount - n.parameterCount ≤ r.toNat) ∧
    ∀ k, n.name r = "p" ++ Text.decimal k → k < n.parameterCount
  /-- A list of names is read as the registers of the list. -/
  list : ∀ rs : List Register, n.registers? (n.list rs) = some (rs.map (·.toNat))
  /-- The names of the ends of a range are read as its first and last register. -/
  ends : ∀ rs (hne : rs ≠ []), consecutive rs →
    n.ends? (n.range rs) = some ((rs.head hne).toNat, (rs.getLast hne).toNat)
  /-- A range has all the registers from its first to its last, in their order. -/
  all : ∀ rs (hne : rs ≠ []), consecutive rs →
    rs.map (·.toNat) = List.range' (rs.head hne).toNat
      ((rs.getLast hne).toNat + 1 - (rs.head hne).toNat)
  /-- No step in counting the ends of a range leaves the words: the number of registers is neither
  zero nor more than there are, the end is the number of a register, and an end that is counted from
  the first argument register is not before it. -/
  bounded : ∀ rs (hne : rs ≠ []), consecutive rs →
    1 ≤ rs.length ∧ rs.length ≤ UInt16.size ∧
    (rs.head hne).toNat + (rs.length - 1) < UInt16.size ∧
    (n.isParameter (rs.head hne).toNat →
      n.base ≤ (rs.head hne).toNat ∧ n.base ≤ (rs.head hne).toNat + (rs.length - 1))

variable {n : RegisterNames} {r : Register} {rs : List Register} {k : Nat}

/-! ### Names -/

/-- The name of register `k` in the manner of register `first`. -/
def nameLike (n : RegisterNames) (first k : Nat) : String :=
  if n.isParameter first then "p" ++ Text.decimal (k - n.base) else "v" ++ Text.decimal k

theorem name_eq_nameLike (n : RegisterNames) (r : Register) :
    n.name r = n.nameLike r.toNat r.toNat := rfl

theorem isParameter_iff : n.isParameter k ↔ n.parameterNames ∧ n.base ≤ k := by
  simp [isParameter]

theorem register?_local (n : RegisterNames) (k : Nat) :
    n.register? ("v" ++ Text.decimal k).toList = some k := by
  simp [register?, Text.decimal?_decimal]

theorem register?_argument (n : RegisterNames) (k : Nat) :
    n.register? ("p" ++ Text.decimal k).toList = some (n.base + k) := by
  simp [register?, Text.decimal?_decimal, base]

/-- **A name is read as its register**, also if it is in the manner of an earlier one. -/
theorem register?_nameLike {first : Nat} (h : first ≤ k) :
    n.register? (n.nameLike first k).toList = some k := by
  rw [nameLike]
  split
  case isTrue hp =>
    have hle : n.base ≤ k := Nat.le_trans (isParameter_iff.mp hp).2 h
    rw [register?_argument, Nat.add_sub_of_le hle]
  case isFalse => exact n.register?_local k

theorem register?_name (n : RegisterNames) (r : Register) :
    n.register? (n.name r).toList = some r.toNat :=
  register?_nameLike (Nat.le_refl _)

theorem name_injective (n : RegisterNames) : Function.Injective n.name := by
  intro r s h
  have hread := n.register?_name r
  rw [h, register?_name] at hread
  exact UInt16.toNat_inj.mp (Option.some.inj hread).symm

theorem name_eq_argument_iff :
    n.name r = "p" ++ Text.decimal k ↔ n.isParameter r.toNat ∧ r.toNat = n.base + k := by
  constructor
  · intro h
    have hread := n.register?_name r
    rw [h, register?_argument] at hread
    refine ⟨?_, (Option.some.inj hread).symm⟩
    cases hp : n.isParameter r.toNat with
    | true => rfl
    | false =>
        -- the name would start with another letter
        rw [name, hp] at h
        simpa using congrArg String.toList h
  · rintro ⟨h, hr⟩
    rw [name, if_pos h, hr, Nat.add_sub_cancel_left]

/-- A name has letters and digits only. -/
theorem isAlphanum_of_mem {first : Nat} {c : Char} (h : c ∈ (n.nameLike first k).toList) :
    c.isAlphanum := by
  have hdigit {m : Nat} (hc : c ∈ (Text.decimal m).toList) : c.isAlphanum := by
    simp [Char.isAlphanum, Text.isDigit_of_mem_decimal hc]
  rw [nameLike] at h
  split at h <;> rw [String.toList_append, List.mem_append] at h <;> rcases h with h | h
  · obtain rfl : c = 'p' := by simpa using h
    rfl
  · exact hdigit h
  · obtain rfl : c = 'v' := by simpa using h
    rfl
  · exact hdigit h

theorem notMem_nameLike {c : Char} (hc : c.isAlphanum = false) (first k : Nat) :
    c ∉ (n.nameLike first k).toList := by
  intro h
  rw [isAlphanum_of_mem h] at hc
  cases hc

theorem filter_nameLike (n : RegisterNames) (first k : Nat) :
    (n.nameLike first k).toList.filter (· ≠ ' ') = (n.nameLike first k).toList := by
  refine List.filter_eq_self.mpr fun c hc => ?_
  simpa using ne_of_mem_of_not_mem hc (notMem_nameLike rfl first k)

/-! ### Lists -/

/-- The names of a list, without the blanks between them. -/
theorem braced?_list (n : RegisterNames) (rs : List Register) :
    Text.braced? (n.list rs) = some ([','].intercalate (rs.map fun r => (n.name r).toList)) := by
  rw [list, Text.braced?_braces, String.toList_intercalate, Text.filter_intercalate,
    List.map_map, List.map_map]
  simp only [Function.comp_def, name_eq_nameLike, filter_nameLike]
  rfl

/-- Names are found again between the commas. -/
theorem splitOn_names (n : RegisterNames) (hne : rs ≠ []) :
    ([','].intercalate (rs.map fun r => (n.name r).toList)).splitOn ','
      = rs.map fun r => (n.name r).toList := by
  refine List.splitOn_intercalate ',' (fun cs hcs => ?_) (by simpa using hne)
  obtain ⟨r, -, rfl⟩ := List.mem_map.mp hcs
  exact notMem_nameLike rfl r.toNat r.toNat

theorem mapM_register? (n : RegisterNames) (rs : List Register) :
    (rs.map fun r => (n.name r).toList).mapM n.register? = some (rs.map (·.toNat)) := by
  rw [List.mapM_map]
  simp only [Function.comp_def, register?_name]
  exact List.mapM_pure

/-- **A list of names is read as the registers of the list.** -/
theorem registers?_list (n : RegisterNames) (rs : List Register) :
    n.registers? (n.list rs) = some (rs.map (·.toNat)) := by
  rw [registers?, braced?_list, Option.bind_some]
  cases rs with
  | nil => rfl
  | cons r rs =>
      have hsplit := n.splitOn_names (List.cons_ne_nil r rs)
      rw [if_neg, hsplit, mapM_register?]
      intro hnil
      -- nothing but an empty name is found in an empty text, and no register has that name
      rw [hnil] at hsplit
      have hempty : [] = (n.name r).toList := (List.cons.inj hsplit).1
      have hread := n.register?_name r
      rw [← hempty] at hread
      cases hread

/-! ### Ranges -/

theorem map_toNat_of_consecutive (h : consecutive (r :: rs)) :
    (r :: rs).map (·.toNat) = List.range' r.toNat (rs.length + 1) := by
  induction rs generalizing r with
  | nil => rfl
  | cons s rs ih =>
      obtain ⟨hs, hrs⟩ : r.toNat + 1 = s.toNat ∧ consecutive (s :: rs) := by
        simpa [consecutive] using h
      rw [List.map_cons, ih hrs, ← hs]
      rfl

theorem toNat_getLast_of_consecutive (h : consecutive (r :: rs)) :
    ((r :: rs).getLast (List.cons_ne_nil r rs)).toNat = r.toNat + rs.length := by
  induction rs generalizing r with
  | nil => rfl
  | cons s rs ih =>
      obtain ⟨hs, hrs⟩ : r.toNat + 1 = s.toNat ∧ consecutive (s :: rs) := by
        simpa [consecutive] using h
      rw [List.getLast_cons_cons, ih hrs, List.length_cons]
      omega

theorem range_eq_nameLike (n : RegisterNames) (r : Register) (rs : List Register) :
    n.range (r :: rs) = "\x7b" ++ (n.nameLike r.toNat r.toNat ++ " .. "
      ++ n.nameLike r.toNat (r.toNat + rs.length)) ++ "\x7d" := by
  simp only [range, nameLike]
  split <;> simp [← String.toList_inj]

/-- **The ends of a range are read as its first register and the one that many after it.** -/
theorem ends?_range (n : RegisterNames) (r : Register) (rs : List Register) :
    n.ends? (n.range (r :: rs)) = some (r.toNat, r.toNat + rs.length) := by
  have hbraced : Text.braced? (n.range (r :: rs)) = some (['.'].intercalate
      [(n.nameLike r.toNat r.toNat).toList, [],
        (n.nameLike r.toNat (r.toNat + rs.length)).toList]) := by
    rw [range_eq_nameLike, Text.braced?_braces]
    simp only [String.toList_append, List.filter_append, filter_nameLike]
    simp [List.intercalate_cons_cons]
  have hdot : ∀ l ∈ [(n.nameLike r.toNat r.toNat).toList, [],
      (n.nameLike r.toNat (r.toNat + rs.length)).toList], '.' ∉ l := by
    simp [notMem_nameLike]
  rw [ends?, hbraced, Option.map_some, List.splitOn_intercalate '.' hdot (by simp)]
  simp [register?_nameLike]

/-- **The names of registers stand for the registers.** -/
theorem names_denote (n : RegisterNames) : n.Denote where
  name := n.register?_name
  injective := n.name_injective
  argument := by
    intro hfit r hr
    simp only [name_eq_argument_iff, isParameter_iff, base]
    refine ⟨⟨?_, ?_⟩, ?_⟩
    · rintro ⟨k, hp, -⟩
      exact hp
    · intro hp
      exact ⟨_, hp, (Nat.add_sub_of_le hp.2).symm⟩
    · rintro k ⟨-, hk⟩
      omega
  list := n.registers?_list
  ends := by
    intro rs hne h
    obtain ⟨r, rs, rfl⟩ := List.exists_cons_of_ne_nil hne
    rw [ends?_range, toNat_getLast_of_consecutive h]
    rfl
  all := by
    intro rs hne h
    obtain ⟨r, rs, rfl⟩ := List.exists_cons_of_ne_nil hne
    rw [map_toNat_of_consecutive h, toNat_getLast_of_consecutive h, List.head_cons]
    congr 1
    omega
  bounded := by
    intro rs hne h
    obtain ⟨r, rs, rfl⟩ := List.exists_cons_of_ne_nil hne
    have hlast := toNat_getLast_of_consecutive h
    have hlt := UInt16.toNat_lt_size ((r :: rs).getLast hne)
    rw [hlast] at hlt
    simp only [List.length_cons, List.head_cons, Nat.add_sub_cancel, isParameter_iff]
    refine ⟨by omega, by omega, hlt, fun hp => ⟨hp.2, by omega⟩⟩

/-- A range that starts before the arguments and ends among them. -/
example : (⟨5, 2, true⟩ : RegisterNames).range [1, 2, 3] = "\x7bv1 .. v3\x7d" := rfl

end RegisterNames

end Dalvik
