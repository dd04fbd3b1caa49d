import Dalvik.Proofs.Lookup
import Mathlib.Order.Bounds.Basic

/-!
# Floor — the instruction at or before an address

`Layout.floor` looks for the span that has an address, and past the code takes the last instruction.
What it finds is the last of the instructions that start at or before the address: the spans leave
no address of the code out, so an instruction that starts after the one found starts after the
address as well (`floor_eq_ok_iff`). `Layout.Floors` states this of the numbers of the instructions,
together with what follows for the lookup: it never goes back for a higher address, it finds at the
start of an instruction that instruction, and within the code it finds the span around the address.
`placement_floors` proves it of every layout there is.
-/

namespace Dalvik

/-- The instruction is the last one that starts at or before an address. -/
def Code.IsFloor (c : Code) (x : Nat) (p : Placed) : Prop :=
  p ∈ c.placed ∧ p.address ≤ x ∧ ∀ q ∈ c.placed, q.address ≤ x → q.index ≤ p.index

namespace Layout

/-- The layout finds for an address the last of the instructions that start at or before it. -/
structure Floors (l : Layout) (is : List Instruction) : Prop where
  /-- What is found has the largest number of those that start at or before the address. -/
  greatest : ∀ x k, (l.floor x).map (·.index) = .ok k ↔
    IsGreatest {j | j < is.length ∧ offset is j ≤ x} k
  /-- Where there are instructions, one is found for every address. -/
  found : is ≠ [] → ∀ x, ∃ k, (l.floor x).map (·.index) = .ok k
  /-- Where there are none, none is found for any address. -/
  missing : is = [] → ∀ x, ∃ f, l.floor x = .error f ∧ f.kind = .noInstruction
  /-- For a higher address no earlier instruction is found. -/
  monotone : ∀ x y p q, x ≤ y → l.floor x = .ok p → l.floor y = .ok q → p.index ≤ q.index
  /-- At the start of an instruction it is the one found. -/
  start : ∀ x p, l.startingAt x = .ok p → l.floor x = .ok p
  /-- Within the code the span of what is found has the address. -/
  covering : ∀ x < l.size, ∃ k i, (l.floor x).map (·.index) = .ok k ∧ is[k]? = some i ∧
    offset is k ≤ x ∧ x < offset is k + i.codeUnits.toNat

variable {l : Layout} {c : Code} {p q : Placed} {x k : Nat}

/-! ### The last instruction -/

theorem index_le_last (hp : c.placed.getLast? = some p) (hq : q ∈ c.placed) :
    q.index ≤ p.index := by
  obtain ⟨ps, hps⟩ := List.getLast?_eq_some_iff.mp hp
  have hlast : c.placed[ps.length]? = some p := by simp [hps]
  have hlt := (List.getElem?_eq_some_iff.mp (Code.placed_getElem?_index hq)).1
  rw [hps, List.length_append, List.length_singleton] at hlt
  rw [Code.index_eq_of_getElem? hlast]
  exact Nat.le_of_lt_succ hlt

theorem stop_last (h : l.placed = c.placed) (hp : c.placed.getLast? = some p) :
    p.stop = c.size := by
  rw [← size_eq h, size, h, hp]

/-- Past the code the last instruction is found. -/
theorem floor_of_size_le (h : l.placed = c.placed) (hp : c.placed.getLast? = some p)
    (hx : c.size ≤ x) : l.floor x = .ok p := by
  have hnone : c.placed.find? (·.covers x) = none := by
    refine List.find?_eq_none.mpr fun q hq hcov => ?_
    have hlt := (Placed.covers_iff.mp hcov).2
    have hle := Code.stop_le_size hq
    omega
  rw [floor, h, hnone, hp]
  exact if_pos (stop_last h hp ▸ hx)

/-! ### What is found -/

theorem isFloor_of_covers (hp : p ∈ c.placed) (h : p.address ≤ x ∧ x < p.stop) :
    c.IsFloor x p := by
  refine ⟨hp, h.1, fun q hq hqx => ?_⟩
  -- an instruction with a larger number would start behind the span
  by_contra hlt
  have hle := Code.stop_le_address hp hq (Nat.lt_of_not_le hlt)
  omega

theorem isFloor_unique (hp : c.IsFloor x p) (hq : c.IsFloor x q) : p = q := by
  have hi : p.index = q.index :=
    Nat.le_antisymm (hq.2.2 p hp.1 hp.2.1) (hp.2.2 q hq.1 hq.2.1)
  have hget := Code.placed_getElem?_index hp.1
  rw [hi, Code.placed_getElem?_index hq.1] at hget
  exact (Option.some.inj hget).symm

/-- Where there are instructions, the last one at or before an address is found. -/
theorem exists_floor (h : l.placed = c.placed) (hne : c.placed ≠ []) (x : Nat) :
    ∃ p, l.floor x = .ok p ∧ c.IsFloor x p := by
  rcases Nat.lt_or_ge x c.size with hx | hx
  · obtain ⟨p, hp, hf, hcov⟩ := floor_eq_ok h hx
    exact ⟨p, hf, isFloor_of_covers hp hcov⟩
  · obtain ⟨p, hp⟩ : ∃ p, c.placed.getLast? = some p := ⟨_, List.getLast?_eq_some_getLast hne⟩
    have hm := List.mem_of_getLast? hp
    have hstart : p.address ≤ p.stop := Nat.le_add_right _ _
    refine ⟨p, floor_of_size_le h hp hx, hm, ?_, fun q hq _ => index_le_last hp hq⟩
    exact hstart.trans ((Code.stop_le_size hm).trans hx)

theorem floor_eq_error (h : l.placed = c.placed) (hn : c.placed = []) (x : Nat) :
    l.floor x = .error (.noFloor x) := by
  rw [floor, h, hn]
  rfl

/-- **What is found for an address** is the last instruction that starts at or before it. -/
theorem floor_eq_ok_iff (h : l.placed = c.placed) : l.floor x = .ok p ↔ c.IsFloor x p := by
  by_cases hn : c.placed = []
  · rw [floor_eq_error h hn]
    constructor
    · intro hok
      cases hok
    · rintro ⟨hp, -⟩
      rw [hn] at hp
      cases hp
  · obtain ⟨q, hq, hfloor⟩ := exists_floor h hn x
    rw [hq]
    constructor
    · rintro ⟨⟩
      exact hfloor
    · exact fun hp => congrArg _ (isFloor_unique hfloor hp)

theorem map_index_eq_ok_iff {r : Except Fault Placed} :
    r.map (·.index) = .ok k ↔ ∃ p, r = .ok p ∧ p.index = k := by
  cases r with
  | error f =>
      constructor
      · intro h
        cases h
      · rintro ⟨p, h, -⟩
        cases h
  | ok p =>
      constructor
      · rintro ⟨⟩
        exact ⟨p, rfl, rfl⟩
      · rintro ⟨_, ⟨⟩, rfl⟩
        rfl

end Layout

namespace Code

variable {c : Code} {p : Placed} {x k : Nat}

/-- The last instruction at or before an address, by its number. -/
theorem exists_isFloor_iff : (∃ p, c.IsFloor x p ∧ p.index = k) ↔
    IsGreatest {j | j < c.instructions.length ∧ c.address j ≤ x} k := by
  constructor
  · rintro ⟨p, ⟨hp, hx, hmax⟩, rfl⟩
    obtain ⟨hk, ha⟩ := exists_placed_iff.mp ⟨p, hp, rfl, rfl⟩
    refine ⟨⟨hk, ha ▸ hx⟩, fun j ⟨hj, hjx⟩ => ?_⟩
    obtain ⟨q, hq, hqa, rfl⟩ := exists_placed_iff.mpr ⟨hj, rfl⟩
    exact hmax q hq (hqa ▸ hjx)
  · rintro ⟨⟨hk, hx⟩, hmax⟩
    obtain ⟨p, hp, ha, hi⟩ := exists_placed_iff.mpr ⟨hk, rfl⟩
    refine ⟨p, ⟨hp, ha ▸ hx, fun q hq hqx => ?_⟩, hi⟩
    obtain ⟨hj, hja⟩ := exists_placed_iff.mp ⟨q, hq, rfl, rfl⟩
    exact hi ▸ hmax ⟨hj, hja ▸ hqx⟩

end Code

namespace Layout

variable {l : Layout} {c : Code}

/-- A layout of the places of a code finds the last instruction at or before an address. -/
theorem floors_of_placed (h : l.placed = c.placed) (hc : c.Placeable) :
    l.Floors c.instructions where
  greatest := by
    intro x k
    rw [map_index_eq_ok_iff]
    simp only [floor_eq_ok_iff h]
    exact Code.exists_isFloor_iff
  found := by
    intro hne x
    have hplaced : c.placed ≠ [] := by simpa [Code.placed] using hne
    obtain ⟨p, hp, -⟩ := exists_floor h hplaced x
    exact ⟨p.index, map_index_eq_ok_iff.mpr ⟨p, hp, rfl⟩⟩
  missing := by
    intro hn x
    exact ⟨_, floor_eq_error h (by simp [Code.placed, hn]) x, rfl⟩
  monotone := by
    intro x y p q hxy hp hq
    obtain ⟨hm, hpx, -⟩ := (floor_eq_ok_iff h).mp hp
    exact ((floor_eq_ok_iff h).mp hq).2.2 p hm (hpx.trans hxy)
  start := by
    intro x p hp
    obtain ⟨hm, rfl⟩ := (startingAt_eq_ok_iff h hc).mp hp
    exact (floor_eq_ok_iff h).mpr (isFloor_of_covers hm ⟨Nat.le_refl _, hc.address_lt_stop hm⟩)
  covering := by
    intro x hx
    obtain ⟨p, hp, hf, hle, hlt⟩ := floor_eq_ok h (size_eq h ▸ hx)
    obtain ⟨hi, ha⟩ := Code.mem_placed.mp hp
    rw [Placed.stop, ha] at hlt
    rw [ha] at hle
    exact ⟨p.index, p.instruction, map_index_eq_ok_iff.mpr ⟨p, hf, rfl⟩, hi, hle, hlt⟩

/-- **For an address the last instruction is found that starts at or before it**, within the code,
at its end and past it. -/
theorem placement_floors {is : List Instruction} (hl : ofInstructions is = .ok l) :
    l.Floors is := by
  let c : Code := ⟨0, is, [], []⟩
  obtain ⟨hchecks, hplaced⟩ := (ofInstructions_guarded c).of_ok hl
  exact floors_of_placed hplaced (Code.sizeChecks_iff.mp hchecks)

/-- Instructions of one, three and two code units: within the second one, at the end of the code and
at the last address there is. -/
theorem placement_floors_three : ∃ l,
    ofInstructions [.ofOpcode .nop, .ofOpcode .goto32, .ofOpcode .const16] = .ok l ∧
      l.Floors [.ofOpcode .nop, .ofOpcode .goto32, .ofOpcode .const16] ∧
      (l.floor 3).map (·.index) = .ok 1 ∧ (l.floor 6).map (·.index) = .ok 2 ∧
      (l.floor 4294967295).map (·.index) = .ok 2 :=
  ⟨_, rfl, placement_floors rfl, rfl, rfl, rfl⟩

end Layout

end Dalvik
