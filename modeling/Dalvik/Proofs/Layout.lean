import Dalvik.Code
import Dalvik.Layout
import Dalvik.Proofs.Check
import Mathlib.Algebra.BigOperators.Group.List.Lemmas
import Mathlib.Algebra.GroupWithZero.Nat

/-!
# Layout — the places of the instructions

The address of an instruction is the number of code units before it (`Code.address`), and
`Code.placed` lists the instructions at these addresses. `Layout.ofInstructions` yields just this
list (`ofInstructions_guarded`), and it does so exactly where every instruction has a code unit and
the code ends within the address space. The addresses then increase strictly, the spans tile the
code, and `floor` finds for every address of the code the one instruction whose span has it
(`floor_eq_ok`).
-/

namespace Dalvik

namespace Placed

/-- How many code units the instruction takes. -/
def units (p : Placed) : Nat := p.instruction.codeUnits.toNat

theorem covers_iff {p : Placed} {x : Nat} : p.covers x ↔ p.address ≤ x ∧ x < p.stop := by
  simp [covers]

/-- The checks of the placement of an instruction. -/
def sizeChecks (p : Placed) : List Check :=
  [⟨1 ≤ p.units, .malformedInstruction⟩, ⟨p.stop ≤ 2 ^ 32 - 1, .malformedInstruction⟩]

end Placed

/-! ### Placement -/

namespace Layout

/-- How many code units the first `k` of the instructions take. -/
def offset (is : List Instruction) (k : Nat) : Nat :=
  ((is.take k).map (·.codeUnits.toNat)).sum

@[simp] theorem offset_zero (is : List Instruction) : offset is 0 = 0 := by simp [offset]

@[simp] theorem offset_cons_succ (i : Instruction) (is : List Instruction) (k : Nat) :
    offset (i :: is) (k + 1) = i.codeUnits.toNat + offset is k := by simp [offset]

/-- The instructions at their places, the first with number `index` at `address`. -/
def places (index address : Nat) (is : List Instruction) : List Placed :=
  is.mapIdx fun k i => ⟨index + k, address + offset is k, i⟩

theorem places_cons (index address : Nat) (i : Instruction) (is : List Instruction) :
    places index address (i :: is) =
      ⟨index, address, i⟩ :: places (index + 1) (address + i.codeUnits.toNat) is := by
  simp only [places, List.mapIdx_cons, offset_cons_succ, offset_zero, Nat.add_zero, Nat.add_assoc,
    Nat.add_comm 1]

/-- **Placement**: instructions with code units that end within the address space are put one after
another. -/
theorem place_guarded (is : List Instruction) : ∀ index address : Nat,
    Guarded (place index address is) ((places index address is).flatMap Placed.sizeChecks)
      (· = places index address is) := by
  induction is with
  | nil => exact fun index address => .ok rfl
  | cons i is ih =>
      intro index address
      rw [places_cons, List.flatMap_cons]
      -- the two checks of this instruction, then those of the rest, placed behind it
      refine .cons ?_ rfl fun _ => .cons ?_ rfl fun _ => (ih _ _).map fun ps hps => ?_
      · show 1 ≤ i.codeUnits.toNat ↔ _
        rw [Nat.one_le_iff_ne_zero, ← UInt32.toNat_inj]
        rfl
      · show Placed.stop _ ≤ 2 ^ 32 - 1 ↔ ¬ addressLimit ≤ Placed.stop _
        simp only [addressLimit, UInt32.size]
        omega
      · rw [hps]
        rfl

end Layout

/-! ### The places of a code -/

namespace Code

/-- The address of instruction number `k`: how many code units come before it. -/
def address (c : Code) (k : Nat) : Nat := Layout.offset c.instructions k

/-- How many code units the instructions take. -/
def size (c : Code) : Nat := (c.instructions.map (·.codeUnits.toNat)).sum

/-- The instructions at their addresses. -/
def placed (c : Code) : List Placed := c.instructions.mapIdx fun k i => ⟨k, c.address k, i⟩

/-- The instructions can be placed: each has a code unit, and all addresses up to the end of the
code are code addresses. -/
structure Placeable (c : Code) : Prop where
  /-- Every instruction has a code unit. -/
  sized : ∀ i ∈ c.instructions, 1 ≤ i.codeUnits.toNat
  /-- The code ends within the address space. -/
  fits : c.size ≤ 2 ^ 32 - 1

variable {c : Code}

theorem placed_eq_places (c : Code) : c.placed = Layout.places 0 0 c.instructions := by
  simp [placed, Layout.places, address]

theorem address_length (c : Code) : c.address c.instructions.length = c.size := by
  simp [address, size, Layout.offset]

theorem placed_getElem? (c : Code) (k : Nat) :
    c.placed[k]? = c.instructions[k]?.map fun i => ⟨k, c.address k, i⟩ := by
  simp [placed]

theorem mem_placed {p : Placed} :
    p ∈ c.placed ↔
      c.instructions[p.index]? = some p.instruction ∧ p.address = c.address p.index := by
  constructor
  · intro h
    obtain ⟨k, hk⟩ := List.getElem?_of_mem h
    rw [placed_getElem?, Option.map_eq_some_iff] at hk
    obtain ⟨i, hi, rfl⟩ := hk
    exact ⟨hi, rfl⟩
  · rintro ⟨hi, ha⟩
    refine List.mem_of_getElem? (i := p.index) ?_
    rw [placed_getElem?, hi, Option.map_some, ← ha]

theorem placed_getElem?_index {p : Placed} (h : p ∈ c.placed) : c.placed[p.index]? = some p := by
  obtain ⟨hi, ha⟩ := mem_placed.mp h
  rw [placed_getElem?, hi, Option.map_some, ← ha]

/-- The instructions are numbered from zero. -/
theorem map_index (c : Code) : c.placed.map (·.index) = List.range c.instructions.length := by
  refine List.ext_getElem? fun k => ?_
  rw [List.getElem?_map, placed_getElem?, Option.map_map]
  by_cases hk : k < c.instructions.length <;> simp [hk]

/-- What is made of the places of the instructions is made of their numbers. -/
theorem flatMap_placed {α : Type} (c : Code) (f : Nat → Nat → List α) :
    c.placed.flatMap (fun p => f p.index p.address)
      = (List.range c.instructions.length).flatMap fun k => f k (c.address k) := by
  rw [← c.map_index, List.flatMap_map]
  refine List.flatMap_congr fun p hp => ?_
  rw [(mem_placed.mp hp).2]

theorem drop_index {p : Placed} (h : p ∈ c.placed) :
    c.placed.drop p.index = p :: c.placed.drop (p.index + 1) := by
  obtain ⟨hlt, he⟩ := List.getElem?_eq_some_iff.mp (placed_getElem?_index h)
  rw [List.drop_eq_getElem_cons hlt, he]

theorem index_eq_of_getElem? {k : Nat} {p : Placed} (h : c.placed[k]? = some p) : p.index = k := by
  rw [placed_getElem?, Option.map_eq_some_iff] at h
  obtain ⟨i, -, rfl⟩ := h
  rfl

/-- The first `k` places are those of the instructions numbered below `k`. -/
theorem of_mem_take {k : Nat} {p : Placed} (h : p ∈ c.placed.take k) :
    p ∈ c.placed ∧ p.index < k := by
  obtain ⟨j, hj, rfl⟩ := List.mem_take_iff_getElem.mp h
  have hlt : j < c.placed.length := by omega
  refine ⟨List.getElem_mem hlt, ?_⟩
  rw [index_eq_of_getElem? (List.getElem?_eq_getElem hlt)]
  omega

theorem of_mem_drop {k : Nat} {p : Placed} (h : p ∈ c.placed.drop k) :
    p ∈ c.placed ∧ k ≤ p.index := by
  obtain ⟨j, hj, rfl⟩ := List.mem_drop_iff_getElem.mp h
  have hlt : k + j < c.placed.length := by omega
  refine ⟨List.getElem_mem hlt, ?_⟩
  rw [index_eq_of_getElem? (List.getElem?_eq_getElem hlt)]
  exact Nat.le_add_right k j

theorem stop_eq_address_succ {p : Placed} (h : p ∈ c.placed) :
    p.stop = c.address (p.index + 1) := by
  obtain ⟨hi, ha⟩ := mem_placed.mp h
  simp [Placed.stop, ha, address, Layout.offset, List.take_add_one, hi]

theorem address_mono (c : Code) {j k : Nat} (h : j ≤ k) : c.address j ≤ c.address k := by
  obtain ⟨d, rfl⟩ := Nat.exists_eq_add_of_le h
  rw [address, address, Layout.offset, Layout.offset, List.take_add, List.map_append,
    List.sum_append]
  exact Nat.le_add_right _ _

theorem stop_le_size {p : Placed} (h : p ∈ c.placed) : p.stop ≤ c.size := by
  have hlt : p.index < c.instructions.length := (List.getElem?_eq_some_iff.mp (mem_placed.mp h).1).1
  rw [stop_eq_address_succ h, ← address_length]
  exact c.address_mono hlt

/-- The checks of the placement hold just where the instructions can be placed. -/
theorem sizeChecks_iff : (∀ k ∈ c.placed.flatMap Placed.sizeChecks, k.holds) ↔ c.Placeable := by
  simp only [List.mem_flatMap, Placed.sizeChecks, List.mem_cons, List.not_mem_nil, or_false]
  constructor
  · intro h
    refine ⟨fun i hi => ?_, ?_⟩
    · obtain ⟨k, hk⟩ := List.getElem?_of_mem hi
      exact h _ ⟨⟨k, c.address k, i⟩, mem_placed.mpr ⟨hk, rfl⟩, .inl rfl⟩
    · -- the last instruction ends where the code ends
      rw [← address_length]
      cases hn : c.instructions.length with
      | zero => simp [address]
      | succ n =>
          have hi := List.getElem?_eq_getElem (l := c.instructions) (i := n) (by omega)
          have hm : (⟨n, c.address n, _⟩ : Placed) ∈ c.placed := mem_placed.mpr ⟨hi, rfl⟩
          rw [← stop_eq_address_succ hm]
          exact h _ ⟨_, hm, .inr rfl⟩
  · rintro hc k ⟨p, hp, rfl | rfl⟩
    · exact hc.sized _ (List.mem_of_getElem? (mem_placed.mp hp).1)
    · exact Nat.le_trans (stop_le_size hp) hc.fits

theorem stop_le_address {p q : Placed} (hp : p ∈ c.placed) (hq : q ∈ c.placed)
    (h : p.index < q.index) : p.stop ≤ q.address := by
  rw [stop_eq_address_succ hp, (mem_placed.mp hq).2]
  exact c.address_mono h

/-- The spans of the instructions have every address of the code. -/
theorem exists_covering {x k : Nat} (h : x < c.address k) :
    ∃ p ∈ c.placed, p.address ≤ x ∧ x < p.stop := by
  -- what is below the end of the first `k + 1` is below that of the first `k`, or in the last
  induction k with
  | zero => simp [address] at h
  | succ k ih =>
      by_cases hx : x < c.address k
      · exact ih hx
      · cases hi : c.instructions[k]? with
        | none =>
            have : c.address (k + 1) = c.address k := by
              simp [address, Layout.offset, List.take_add_one, hi]
            exact absurd (this ▸ h) hx
        | some i =>
            have hm : (⟨k, c.address k, i⟩ : Placed) ∈ c.placed := mem_placed.mpr ⟨hi, rfl⟩
            exact ⟨_, hm, Nat.le_of_not_lt hx, stop_eq_address_succ hm ▸ h⟩

/-- No two spans have a common address. -/
theorem covering_unique {p q : Placed} {x : Nat} (hp : p ∈ c.placed) (hq : q ∈ c.placed)
    (h₁ : p.address ≤ x ∧ x < p.stop) (h₂ : q.address ≤ x ∧ x < q.stop) : p = q := by
  rcases Nat.lt_trichotomy p.index q.index with h | h | h
  · have := stop_le_address hp hq h
    omega
  · have := placed_getElem?_index hp
    rw [h, placed_getElem?_index hq] at this
    exact (Option.some.inj this).symm
  · have := stop_le_address hq hp h
    omega

namespace Placeable

theorem address_lt_stop (hc : c.Placeable) {p : Placed} (h : p ∈ c.placed) : p.address < p.stop :=
  Nat.lt_add_of_pos_right (hc.sized _ (List.mem_of_getElem? (mem_placed.mp h).1))

/-- No two instructions have one address. -/
theorem eq_of_address_eq (hc : c.Placeable) {p q : Placed} (hp : p ∈ c.placed) (hq : q ∈ c.placed)
    (h : p.address = q.address) : p = q :=
  covering_unique hp hq ⟨Nat.le_refl _, hc.address_lt_stop hp⟩
    ⟨h ▸ Nat.le_refl _, h ▸ hc.address_lt_stop hq⟩

theorem address_lt_iff (hc : c.Placeable) {p q : Placed} (hp : p ∈ c.placed) (hq : q ∈ c.placed) :
    p.address < q.address ↔ p.index < q.index := by
  constructor
  · intro h
    by_contra hle
    rcases Nat.lt_or_eq_of_le (Nat.le_of_not_lt hle) with hlt | heq
    · have := stop_le_address hq hp hlt
      have := hc.address_lt_stop hq
      omega
    · rw [(mem_placed.mp hp).2, (mem_placed.mp hq).2, heq] at h
      exact Nat.lt_irrefl _ h
  · exact fun h => Nat.lt_of_lt_of_le (hc.address_lt_stop hp) (stop_le_address hp hq h)

/-- The addresses increase strictly. -/
theorem pairwise_address (hc : c.Placeable) :
    c.placed.Pairwise (fun p q => p.address < q.address) := by
  refine List.pairwise_iff_getElem.mpr fun i j hi hj hij => ?_
  rw [hc.address_lt_iff (List.getElem_mem hi) (List.getElem_mem hj),
    index_eq_of_getElem? (List.getElem?_eq_getElem hi),
    index_eq_of_getElem? (List.getElem?_eq_getElem hj)]
  exact hij

theorem pairwise_range (hc : c.Placeable) {n : Nat} (hn : n ≤ c.instructions.length) :
    (List.range n).Pairwise fun j k => c.address j < c.address k := by
  have hall : (List.range c.instructions.length).Pairwise
      fun j k => c.address j < c.address k := by
    rw [← c.map_index, List.pairwise_map]
    refine hc.pairwise_address.imp_of_mem fun {p q} hp hq hlt => ?_
    rwa [(mem_placed.mp hp).2, (mem_placed.mp hq).2] at hlt
  exact hall.sublist (List.range_sublist.mpr hn)

/-- The instructions below the address of instruction `k` are the first `k`. -/
theorem filter_address_lt (hc : c.Placeable) (k : Nat) :
    c.placed.filter (·.address < c.address k) = c.placed.take k := by
  conv_lhs => rw [← List.take_append_drop k c.placed, List.filter_append]
  have htake : (c.placed.take k).filter (·.address < c.address k) = c.placed.take k := by
    refine List.filter_eq_self.mpr fun p hp => ?_
    obtain ⟨hm, hlt⟩ := of_mem_take hp
    have hstop := stop_eq_address_succ hm ▸ hc.address_lt_stop hm
    exact decide_eq_true (Nat.lt_of_lt_of_le hstop (c.address_mono hlt))
  have hdrop : (c.placed.drop k).filter (·.address < c.address k) = [] := by
    refine List.filter_eq_nil_iff.mpr fun p hp => ?_
    obtain ⟨hm, hle⟩ := of_mem_drop hp
    rw [(mem_placed.mp hm).2, decide_eq_true_iff]
    exact Nat.not_lt_of_le (c.address_mono hle)
  rw [htake, hdrop, List.append_nil]

/-- The instructions below the address of instruction `k` take that many code units. -/
theorem sum_units_below (hc : c.Placeable) (k : Nat) :
    ((c.placed.filter (·.address < c.address k)).map Placed.units).sum = c.address k := by
  have hu : c.placed.map Placed.units = c.instructions.map (·.codeUnits.toNat) := by
    refine List.ext_getElem? fun j => ?_
    rw [List.getElem?_map, placed_getElem?, List.getElem?_map, Option.map_map]
    rfl
  rw [hc.filter_address_lt, List.map_take, hu, ← List.map_take]
  rfl

end Placeable

end Code

/-! ### The layout of a code -/

namespace Layout

/-- **The layout of a code** has its instructions at their addresses. -/
theorem ofInstructions_guarded (c : Code) :
    Guarded (ofInstructions c.instructions) (c.placed.flatMap Placed.sizeChecks)
      (·.placed = c.placed) := by
  rw [Code.placed_eq_places]
  exact (place_guarded _ _ _).map fun _ h => h

variable {l : Layout} {c : Code}

theorem size_eq (h : l.placed = c.placed) : l.size = c.size := by
  rw [size, h]
  rcases List.eq_nil_or_concat c.placed with hn | ⟨ps, p, hp⟩
  · have : c.instructions = [] := by simpa [Code.placed] using hn
    simp [hn, Code.size, this]
  · have hm : p ∈ c.placed := by simp [hp]
    have hi : p.index + 1 = c.instructions.length := by
      have hl : c.placed[ps.length]? = some p := by simp [hp]
      have hlen : c.placed.length = ps.length + 1 := by simp [hp]
      rw [Code.index_eq_of_getElem? hl, ← hlen, Code.placed, List.length_mapIdx]
    simp only [hp, List.concat_eq_append, List.getLast?_append, List.getLast?_singleton,
      Option.some_or]
    rw [Code.stop_eq_address_succ hm, hi, Code.address_length]

/-- Every address of the code has an instruction whose span it lies in. -/
theorem floor_eq_ok (h : l.placed = c.placed) {x : Nat} (hx : x < c.size) :
    ∃ p ∈ c.placed, l.floor x = .ok p ∧ p.address ≤ x ∧ x < p.stop := by
  rw [← Code.address_length] at hx
  obtain ⟨q, hq, hcov⟩ := Code.exists_covering hx
  cases hf : c.placed.find? (·.covers x) with
  | none => exact absurd (Placed.covers_iff.mpr hcov) (by simpa using List.find?_eq_none.mp hf q hq)
  | some p =>
      have hp := List.find?_some hf
      exact ⟨p, List.mem_of_find?_eq_some hf, by simp [floor, h, hf], Placed.covers_iff.mp hp⟩

end Layout

end Dalvik
