import Dalvik.Proofs.Acceptance
import Dalvik.Proofs.Descriptor
import Dalvik.Proofs.RegisterNames

/-!
# Arguments — the registers of the arguments

Three parts of a listing count the registers of the arguments, each on its own: the check that there
are registers for all of them, the directives of the parameters, and the names of the registers.
They agree. Every parameter has the register after those of the receiver and of the parameters
before it (`Method.slot`), whether or not these have directives; the registers of all parameters
follow each other without a gap and end where the count of the arguments does; and the names of
the registers count from the same place. `arguments_agree` states this of every method.
-/

namespace Dalvik

namespace Parameter

/-- The parameter has a directive: it has a name that is not empty, or an annotation. -/
def Shown (p : Parameter) : Prop :=
  (∃ name, p.name = some name ∧ name ≠ "") ∨ p.annotations ≠ []

/-- The directive of the parameter in argument register `register`. -/
def directive (register : Nat) (p : Parameter) : String :=
  ".param p" ++ Text.decimal register
    ++ ((match p.shownName? with
        | some name => ", " ++ Text.quoted name
        | none => "")
      ++ "\n" ++ (if p.annotations.isEmpty then "" else p.annotationBlock ++ ".end param\n"))

/-- Counts the registers of parameters one after the other, `taken` being counted already, as long
as the count is one of registers. -/
def count? (taken : Nat) : List Parameter → Option Nat
  | [] => some taken
  | p :: ps =>
    if taken + p.type.width ≤ 65535 then count? (taken + p.type.width) ps else none

end Parameter

namespace Method

/-- The argument register of the parameter with number `k`. -/
def slot (m : Method) (k : Nat) : Nat :=
  m.receiverWidth + ((m.parameters.take k).map (·.type.width)).sum

/-- How many registers the receiver and the parameters take. -/
structure ArgumentsCounted (m : Method) : Prop where
  /-- Their number is the sum of all widths, if there are that many registers. -/
  accepted : ∀ n, m.parameterRegisters = .ok n ↔
    n = (if m.isStatic then 0 else 1) + (m.parameters.map (·.type.width)).sum ∧ n ≤ 65535
  /-- Else the descriptor of the method is at fault. -/
  refused : 65535 < (if m.isStatic then 0 else 1) + (m.parameters.map (·.type.width)).sum →
    ∃ f, m.parameterRegisters = .error f ∧ f.kind = .invalidDescriptor
  /-- The widths are two for two of the types, and one for all others. -/
  widths : ∀ p ∈ m.parameters, p.type.width =
    if p.type = .primitive .long ∨ p.type = .primitive .double then 2 else 1
  /-- A count that is checked at every parameter comes to the same. -/
  stepwise : ∀ n, Parameter.count? m.receiverWidth m.parameters = some n ↔
    m.parameterRegisters = .ok n

/-- The parameters have the registers that follow the receiver, up to the number `n`. -/
structure ArgumentsPlaced (m : Method) (n : Nat) : Prop where
  /-- The directives are those of the parameters that have one, in their order, and each has the
  register of its parameter. -/
  directives : ∃ shown : List (Parameter × Nat), (shown.map (·.2)).Pairwise (· < ·) ∧
    (∀ p k, (p, k) ∈ shown ↔ m.parameters[k]? = some p ∧ p.Shown) ∧
    m.parameterBlock = String.join (shown.map fun (p, k) => p.directive (m.slot k))
  /-- The registers of the parameters begin after the receiver. -/
  first : m.slot 0 = if m.isStatic then 0 else 1
  /-- The registers of a parameter begin where those of the one before it end. -/
  next : ∀ k p, m.parameters[k]? = some p → m.slot (k + 1) = m.slot k + p.type.width
  /-- The registers of the last parameter end with those of all arguments. -/
  last : m.slot m.parameters.length = n
  /-- The registers of a parameter are among those of the arguments. -/
  within : ∀ k p r, m.parameters[k]? = some p → m.slot k ≤ r → r < m.slot k + p.type.width →
    m.receiverWidth ≤ r ∧ r < n
  /-- Every register of the arguments after the receiver is that of one parameter. -/
  tiled : ∀ r, m.receiverWidth ≤ r → r < n →
    ∃! k, ∃ p, m.parameters[k]? = some p ∧ m.slot k ≤ r ∧ r < m.slot k + p.type.width
  /-- Where the code of the method has registers for all arguments and they are named as such, the
  register of a parameter has the name that its directive has. -/
  named : ∀ c o b, Body.build m c o = .ok b → o.parameterNames → n ≤ c.registerCount.toNat →
    ∀ k p, m.parameters[k]? = some p → ∃ r : Register,
      r.toNat = c.registerCount.toNat - n + m.slot k ∧
      b.registers.name r = "p" ++ Text.decimal (m.slot k)

end Method

/-! ### The count -/

namespace Parameter

/-- A count that is checked at every parameter is the sum, if that is one of registers: the counts
on the way are no larger. -/
theorem count?_eq_some_iff {taken n : Nat} (h : taken ≤ 65535) (ps : List Parameter) :
    count? taken ps = some n ↔ n = taken + (ps.map (·.type.width)).sum ∧ n ≤ 65535 := by
  induction ps generalizing taken with
  | nil =>
      simp only [count?, Option.some.injEq, List.map_nil, List.sum_nil, Nat.add_zero]
      constructor
      · rintro rfl
        exact ⟨rfl, h⟩
      · rintro ⟨rfl, -⟩
        rfl
  | cons p ps ih =>
      rw [count?, List.map_cons, List.sum_cons, ← Nat.add_assoc]
      split
      case isTrue hp => exact ih hp
      case isFalse hp =>
        simp only [reduceCtorEq, false_iff, not_and]
        omega

end Parameter

namespace Method

variable {m : Method} {k n r : Nat} {p : Parameter}

theorem argumentWidth_eq (m : Method) :
    m.argumentWidth = m.receiverWidth + (m.parameters.map (·.type.width)).sum :=
  foldl_width m.parameters m.receiverWidth

theorem parameterRegisters_eq_ok_iff :
    m.parameterRegisters = .ok n ↔ n = m.argumentWidth ∧ n ≤ 65535 := by
  rw [parameterRegisters]
  split
  case isTrue h =>
    constructor
    · rintro ⟨⟩
      exact ⟨rfl, h⟩
    · rintro ⟨rfl, -⟩
      rfl
  case isFalse h =>
    constructor
    · intro hn
      cases hn
    · rintro ⟨rfl, hn⟩
      exact absurd hn h

theorem receiverWidth_le (m : Method) : m.receiverWidth ≤ 1 := by
  rw [receiverWidth]
  split <;> decide

theorem parameterRegisters_eq_error (h : 65535 < m.argumentWidth) :
    m.parameterRegisters = .error (.tooManyParameters m.name) :=
  if_neg (Nat.not_le_of_gt h)

theorem count?_parameters :
    Parameter.count? m.receiverWidth m.parameters = some n ↔ m.parameterRegisters = .ok n := by
  have hreceiver := m.receiverWidth_le
  rw [Parameter.count?_eq_some_iff (by omega), parameterRegisters_eq_ok_iff, argumentWidth_eq]

/-! ### The places of the parameters -/

theorem slot_succ (h : m.parameters[k]? = some p) : m.slot (k + 1) = m.slot k + p.type.width := by
  simp [slot, List.take_add_one, h, Nat.add_assoc]

theorem slot_length (m : Method) : m.slot m.parameters.length = m.argumentWidth := by
  rw [slot, List.take_length, argumentWidth_eq]

theorem slot_mono (m : Method) {j k : Nat} (h : j ≤ k) : m.slot j ≤ m.slot k := by
  obtain ⟨d, rfl⟩ := Nat.exists_eq_add_of_le h
  rw [slot, slot, List.take_add, List.map_append, List.sum_append]
  omega

/-- The registers of the first `k` parameters are those of one of them each. -/
theorem exists_slot (hr : m.receiverWidth ≤ r) (hk : r < m.slot k) :
    ∃ j p, m.parameters[j]? = some p ∧ m.slot j ≤ r ∧ r < m.slot j + p.type.width := by
  induction k with
  | zero =>
      simp [slot] at hk
      omega
  | succ k ih =>
      by_cases hlt : r < m.slot k
      · exact ih hlt
      · cases hp : m.parameters[k]? with
        | none =>
            -- there is no such parameter, and no register more
            simp only [slot, List.take_add_one, hp, Option.toList_none, List.append_nil] at hk hlt
            omega
        | some p => exact ⟨k, p, hp, Nat.le_of_not_lt hlt, slot_succ hp ▸ hk⟩

theorem slot_unique {j : Nat} {q : Parameter} (hp : m.parameters[k]? = some p)
    (hq : m.parameters[j]? = some q) (hk : m.slot k ≤ r ∧ r < m.slot k + p.type.width)
    (hj : m.slot j ≤ r ∧ r < m.slot j + q.type.width) : k = j := by
  rw [← slot_succ hp] at hk
  rw [← slot_succ hq] at hj
  rcases Nat.lt_trichotomy k j with h | h | h
  · have hle : m.slot (k + 1) ≤ m.slot j := m.slot_mono h
    omega
  · exact h
  · have hle : m.slot (j + 1) ≤ m.slot k := m.slot_mono h
    omega

theorem slot_succ_le (h : m.parameters[k]? = some p) :
    m.slot k + p.type.width ≤ m.argumentWidth := by
  rw [← slot_succ h, ← slot_length]
  exact m.slot_mono (List.getElem?_eq_some_iff.mp h).1

end Method

/-! ### The directives -/

namespace Parameter

variable {p : Parameter} {r : Nat}

theorem shown_iff : p.Shown ↔ (p.shownName?.isNone && p.annotations.isEmpty) = false := by
  cases hname : p.name with
  | none => simp [Shown, shownName?, hname]
  | some name => by_cases hempty : name = "" <;> simp [Shown, shownName?, hname, hempty]

theorem block_of_shown (h : p.Shown) (r : Nat) : p.block r = p.directive r := by
  rw [block, shown_iff.mp h, directive]
  cases p.shownName? <;> simp [String.append_assoc]

theorem block_of_not_shown (h : ¬ p.Shown) (r : Nat) : p.block r = "" := by
  rw [shown_iff, Bool.not_eq_false] at h
  rw [block, if_pos h]

theorem getElem?_slots (r : Nat) (ps : List Parameter) (k : Nat) :
    (slots r ps)[k]? = ps[k]?.map fun p => (r + ((ps.take k).map (·.type.width)).sum, p) := by
  induction ps generalizing r k with
  | nil => rfl
  | cons p ps ih =>
      cases k with
      | zero => simp [slots]
      | succ k => simp [slots, ih, Nat.add_assoc]

end Parameter

theorem join_map_filter {α : Type} {f : α → String} {p : α → Bool} {l : List α}
    (h : ∀ a ∈ l, p a = false → f a = "") :
    String.join ((l.filter p).map f) = String.join (l.map f) := by
  induction l with
  | nil => rfl
  | cons a l ih =>
      obtain ⟨ha, hl⟩ := List.forall_mem_cons.mp h
      cases hp : p a with
      | true => simp [hp, ih hl]
      | false => simp [hp, ih hl, ha hp]

namespace Method

variable {m : Method} {k n : Nat} {p : Parameter}

/-- The parameters that have a directive, with their numbers. -/
def shown (m : Method) : List (Parameter × Nat) :=
  m.parameters.zipIdx.filter fun s => !(s.1.shownName?.isNone && s.1.annotations.isEmpty)

theorem mem_shown : (p, k) ∈ m.shown ↔ m.parameters[k]? = some p ∧ p.Shown := by
  rw [shown, List.mem_filter, List.mem_zipIdx_iff_getElem?, Parameter.shown_iff]
  simp only [Bool.not_eq_true']

theorem pairwise_shown (m : Method) : (m.shown.map (·.2)).Pairwise (· < ·) := by
  refine List.Pairwise.sublist (List.filter_sublist.map _) ?_
  rw [List.zipIdx_map_snd]
  exact List.pairwise_lt_range' 1

/-- The parameters are paired with the registers after those of the parameters before. -/
theorem slots_eq (m : Method) : Parameter.slots m.receiverWidth m.parameters
    = m.parameters.zipIdx.map fun s => (m.slot s.2, s.1) := by
  refine List.ext_getElem? fun k => ?_
  rw [Parameter.getElem?_slots, List.getElem?_map, List.getElem?_zipIdx]
  simp [slot, Function.comp_def]

/-- **The directives of a method** are those of the parameters that have one. -/
theorem parameterBlock_eq (m : Method) : m.parameterBlock
    = String.join (m.shown.map fun s => s.1.directive (m.slot s.2)) := by
  have hdirective : m.shown.map (fun s => s.1.directive (m.slot s.2))
      = m.shown.map fun s => s.1.block (m.slot s.2) := by
    refine List.map_congr_left fun s hs => ?_
    exact (Parameter.block_of_shown (mem_shown.mp hs).2 _).symm
  have hempty : ∀ s ∈ m.parameters.zipIdx,
      (!(s.1.shownName?.isNone && s.1.annotations.isEmpty)) = false →
        s.1.block (m.slot s.2) = "" := by
    intro s _ hs
    refine Parameter.block_of_not_shown (fun hshown => ?_) _
    rw [Parameter.shown_iff.mp hshown] at hs
    cases hs
  rw [parameterBlock, slots_eq, List.map_map, hdirective, shown, join_map_filter hempty]
  rfl

/-! ### The names of the registers -/

/-- The names of the registers of a body are those of the arguments that were counted. -/
theorem registers_of_build {c : Code} {o : Options} {b : Body} (hb : Body.build m c o = .ok b)
    (hn : m.parameterRegisters = .ok n) :
    b.registers = ⟨c.registerCount.toNat, n, o.parameterNames⟩ := by
  cases hl : Layout.ofInstructions c.instructions with
  | error f =>
      rw [Body.build, Body.ofCode, hl] at hb
      cases hb
  | ok l =>
      simp only [Body.build, Body.ofCode, hl, hn, bind, Except.bind] at hb
      cases hs : Switch.ofLayout l with
      | error f =>
          rw [hs] at hb
          cases hb
      | ok switches =>
          rw [hs] at hb
          cases hb
          rfl

/-- An argument register has in the code of the method the name that counts it. -/
theorem name_register_of_build {c : Code} {o : Options} {b : Body}
    (hb : Body.build m c o = .ok b) (hn : m.parameterRegisters = .ok n) (ho : o.parameterNames)
    (hfit : n ≤ c.registerCount.toNat) (hk : k < n) : ∃ r : Register,
      r.toNat = c.registerCount.toNat - n + k ∧ b.registers.name r = "p" ++ Text.decimal k := by
  have hlt : c.registerCount.toNat - n + k < UInt16.size := by
    have hsize := UInt16.toNat_lt_size c.registerCount
    omega
  refine ⟨UInt16.ofNat (c.registerCount.toNat - n + k), UInt16.toNat_ofNat_of_lt' hlt, ?_⟩
  rw [RegisterNames.name_eq_argument_iff, RegisterNames.isParameter_iff,
    UInt16.toNat_ofNat_of_lt' hlt, registers_of_build hb hn]
  exact ⟨⟨ho, Nat.le_add_right _ k⟩, rfl⟩

/-- **What counts the registers of the arguments agrees**: the check that there are registers for
all of them, the directives of the parameters, and the names of the registers. -/
theorem arguments_agree (m : Method) :
    m.ArgumentsCounted ∧ ∀ n, m.parameterRegisters = .ok n → m.ArgumentsPlaced n := by
  have hwidth := m.argumentWidth_eq
  rw [receiverWidth] at hwidth
  refine ⟨⟨fun n => ?_, fun h => ?_, fun p _ => p.type.width_eq, fun n => count?_parameters⟩,
    fun n hn => ?_⟩
  · rw [parameterRegisters_eq_ok_iff, hwidth]
  · exact ⟨_, parameterRegisters_eq_error (hwidth ▸ h), rfl⟩
  · obtain ⟨rfl, -⟩ := parameterRegisters_eq_ok_iff.mp hn
    refine ⟨⟨m.shown, m.pairwise_shown, fun p k => mem_shown, m.parameterBlock_eq⟩, rfl,
      fun k p => slot_succ, m.slot_length, fun k p r hp hle hlt => ?_, fun r hr hlt => ?_,
      fun c o b hb ho hfit k p hp => ?_⟩
    · have hfirst : m.receiverWidth ≤ m.slot k := Nat.le_add_right _ _
      have hlast := slot_succ_le hp
      omega
    · obtain ⟨k, p, hp, hk⟩ := exists_slot hr (m.slot_length ▸ hlt)
      refine ⟨k, ⟨p, hp, hk⟩, ?_⟩
      rintro j ⟨q, hq, hj⟩
      exact slot_unique hq hp hj hk
    · refine name_register_of_build hb hn ho hfit ?_
      have hlast := slot_succ_le hp
      have hpos := p.type.width_pos
      omega

/-- An instance method with a wide parameter, one with a name and one with an empty name. -/
def wideFirst : Method where
  definingClass := "LFoo;"
  name := "f"
  flags := ⟨0⟩
  parameters := [⟨.primitive .long, none, []⟩, ⟨.object "java/lang/String", some "name", []⟩,
    ⟨.primitive .int, some "", []⟩]
  returnType := .primitive .void
  annotations := []

/-- The receiver and the wide parameter take the three argument registers before that of the
parameter with a name. -/
theorem wideFirst_agree : wideFirst.parameterRegisters = .ok 5 ∧ wideFirst.ArgumentsPlaced 5 ∧
    wideFirst.parameterBlock = ".param p3, \x22name\x22\n" ∧
    ∃ b, Body.build wideFirst ⟨6, [.ofOpcode .returnVoid], [], []⟩ {} = .ok b ∧
      b.registers.name 4 = "p3" :=
  ⟨rfl, (arguments_agree wideFirst).2 5 rfl, rfl, _, rfl, rfl⟩

end Method

end Dalvik
