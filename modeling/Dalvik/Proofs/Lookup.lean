import Dalvik.Proofs.Layout

/-!
# Lookup — instructions by number and by address

A layout finds an instruction by its number (`Layout.get`) and by the address it starts at
(`Layout.startingAt`). The first finds those numbers that an instruction has, the second those
addresses at which one starts, and each of the two undoes the other: the addresses increase
strictly with the numbers, so an address has one number. `Layout.Indexes` states this of a layout
and of the instructions it was made of, together with the spans that the instructions take;
`placement_indexes` proves it of every layout there is, and that there is one exactly where
every instruction has a code unit and the code ends within the address space.
-/

namespace Dalvik

namespace Layout

/-- The layout is an index of the instructions by their numbers and by their addresses. -/
structure Indexes (l : Layout) (is : List Instruction) : Prop where
  /-- There are as many places as instructions. -/
  length : l.length = is.length
  /-- The code has the code units of its instructions. -/
  size : l.size = (is.map (·.codeUnits.toNat)).sum
  /-- An instruction is found by its number, as far in as there are code units before it. -/
  get : ∀ k i, is[k]? = some i → l.get k = .ok ⟨k, offset is k, i⟩
  /-- No instruction is found by another number. -/
  get_error : ∀ k, is.length ≤ k → l.get k = .error (.noIndex k)
  /-- The addresses increase strictly. -/
  increasing : ∀ j k, j < k → k < is.length → offset is j < offset is k
  /-- Every span has an address. -/
  nonempty : ∀ p ∈ l.placed, ∃ x, p.covers x
  /-- No span has an address of an earlier one. -/
  disjoint : l.placed.Pairwise fun p q => ∀ x, ¬ (p.covers x ∧ q.covers x)
  /-- An instruction is found by the address it starts at. -/
  startingAt : ∀ x k, (l.startingAt x).map (·.index) = .ok k ↔ k < is.length ∧ offset is k = x
  /-- At an address where no instruction starts none is found, and at no other. -/
  startingAt_error : ∀ x, (∃ f, l.startingAt x = .error f ∧ f.kind = .noInstruction) ↔
    ∀ k < is.length, offset is k ≠ x

variable {l : Layout} {c : Code} {p : Placed} {x : Nat}

theorem get_eq_ok (h : l.placed = c.placed) {k : Nat} {i : Instruction}
    (hi : c.instructions[k]? = some i) : l.get k = .ok ⟨k, c.address k, i⟩ := by
  rw [Layout.get, h, Code.placed_getElem?, hi]
  rfl

theorem get_eq_error (h : l.placed = c.placed) {k : Nat} (hk : c.instructions.length ≤ k) :
    l.get k = .error (.noIndex k) := by
  rw [Layout.get, h, Code.placed_getElem?, List.getElem?_eq_none hk]
  rfl

theorem get_eq_ok_iff (h : l.placed = c.placed) {k : Nat} :
    l.get k = .ok p ↔ p ∈ c.placed ∧ p.index = k := by
  rw [Layout.get, h]
  cases hq : c.placed[k]? with
  | none =>
      refine iff_of_false nofun ?_
      rintro ⟨hp, rfl⟩
      rw [Code.placed_getElem?_index hp] at hq
      cases hq
  | some q =>
      constructor
      · rintro ⟨⟩
        exact ⟨List.mem_of_getElem? hq, Code.index_eq_of_getElem? hq⟩
      · rintro ⟨hp, rfl⟩
        rw [Code.placed_getElem?_index hp] at hq
        rw [Option.some.inj hq]

/-- **An instruction is found by its address**, and by no other: no two start at one. -/
theorem startingAt_eq_ok_iff (h : l.placed = c.placed) (hc : c.Placeable) :
    l.startingAt x = .ok p ↔ p ∈ c.placed ∧ p.address = x := by
  rw [Layout.startingAt, h]
  cases hf : c.placed.find? (·.address == x) with
  | none =>
      have hnone : ∀ q ∈ c.placed, q.address ≠ x := by simpa using hf
      constructor
      · intro hok
        cases hok
      · exact fun hp => absurd hp.2 (hnone p hp.1)
  | some q =>
      have hq := List.mem_of_find?_eq_some hf
      have hx : q.address = x := by simpa using List.find?_some hf
      constructor
      · rintro ⟨⟩
        exact ⟨hq, hx⟩
      · rintro ⟨hp, hpx⟩
        rw [hc.eq_of_address_eq hp hq (hpx.trans hx.symm)]

/-- Where no instruction starts, that is the fault. -/
theorem startingAt_eq_error_iff (h : l.placed = c.placed) {f : Fault} :
    l.startingAt x = .error f ↔ f = .noStart x ∧ ∀ p ∈ c.placed, p.address ≠ x := by
  rw [Layout.startingAt, h]
  cases hf : c.placed.find? (·.address == x) with
  | none =>
      have hnone : ∀ q ∈ c.placed, q.address ≠ x := by simpa using hf
      constructor
      · rintro ⟨⟩
        exact ⟨rfl, hnone⟩
      · rintro ⟨rfl, -⟩
        rfl
  | some q =>
      have hx : q.address = x := by simpa using List.find?_some hf
      constructor
      · intro herror
        cases herror
      · exact fun hall => absurd hx (hall.2 q (List.mem_of_find?_eq_some hf))

end Layout

namespace Code

variable {c : Code} {k x : Nat}

theorem address_lt (hc : c.Placeable) {j : Nat} (hjk : j < k) (hk : k < c.instructions.length) :
    c.address j < c.address k := by
  have hj : c.instructions[j]? = some c.instructions[j] := List.getElem?_eq_getElem (by omega)
  have hm : (⟨j, c.address j, _⟩ : Placed) ∈ c.placed := mem_placed.mpr ⟨hj, rfl⟩
  exact Nat.lt_of_lt_of_le (hc.address_lt_stop hm)
    (stop_eq_address_succ hm ▸ c.address_mono hjk)

/-- An instruction that starts at an address has the number whose address it is. -/
theorem exists_placed_iff : (∃ p ∈ c.placed, p.address = x ∧ p.index = k) ↔
    k < c.instructions.length ∧ c.address k = x := by
  constructor
  · rintro ⟨p, hp, rfl, rfl⟩
    obtain ⟨hi, ha⟩ := mem_placed.mp hp
    exact ⟨(List.getElem?_eq_some_iff.mp hi).1, ha.symm⟩
  · rintro ⟨hk, rfl⟩
    exact ⟨⟨k, c.address k, c.instructions[k]⟩,
      mem_placed.mpr ⟨List.getElem?_eq_getElem hk, rfl⟩, rfl, rfl⟩

end Code

namespace Layout

variable {l : Layout} {c : Code}

/-- A layout of the places of a code is an index of its instructions. -/
theorem indexes_of_placed (h : l.placed = c.placed) (hc : c.Placeable) :
    l.Indexes c.instructions where
  length := by rw [length, h, Code.placed, List.length_mapIdx]
  size := size_eq h
  get := fun _ _ hi => get_eq_ok h hi
  get_error := fun _ hk => get_eq_error h hk
  increasing := fun _ _ hjk hk => Code.address_lt hc hjk hk
  nonempty := by
    intro p hp
    exact ⟨p.address, Placed.covers_iff.mpr ⟨Nat.le_refl _, hc.address_lt_stop (h ▸ hp)⟩⟩
  disjoint := by
    rw [h]
    refine hc.pairwise_address.imp_of_mem fun {p q} hp hq hlt x hx => ?_
    -- a common address would make the two one
    have hpq := Code.covering_unique hp hq (Placed.covers_iff.mp hx.1) (Placed.covers_iff.mp hx.2)
    exact Nat.ne_of_lt hlt (congrArg Placed.address hpq)
  startingAt := by
    intro x k
    rw [← Code.address, ← Code.exists_placed_iff]
    constructor
    · intro hk
      cases hs : l.startingAt x with
      | error f => rw [hs] at hk; cases hk
      | ok p =>
          rw [hs] at hk
          cases hk
          obtain ⟨hp, hx⟩ := (startingAt_eq_ok_iff h hc).mp hs
          exact ⟨p, hp, hx, rfl⟩
    · rintro ⟨p, hp, hx, rfl⟩
      rw [(startingAt_eq_ok_iff h hc).mpr ⟨hp, hx⟩]
      rfl
  startingAt_error := by
    intro x
    have hstart : (∀ p ∈ c.placed, p.address ≠ x) ↔
        ∀ k < c.instructions.length, c.address k ≠ x := by
      refine ⟨fun hall k hk hx => ?_, fun hall p hp hx => ?_⟩
      · obtain ⟨p, hp, hpx, -⟩ := Code.exists_placed_iff.mpr ⟨hk, hx⟩
        exact hall p hp hpx
      · obtain ⟨hk, hkx⟩ := Code.exists_placed_iff.mp ⟨p, hp, hx, rfl⟩
        exact hall p.index hk hkx
    refine Iff.trans ⟨?_, ?_⟩ hstart
    · rintro ⟨f, hf, -⟩
      exact ((startingAt_eq_error_iff h).mp hf).2
    · exact fun hall => ⟨_, (startingAt_eq_error_iff h).mpr ⟨rfl, hall⟩, rfl⟩

/-- **Instructions are found by number and by address.** They can be placed just if each has a code
unit and all end within the address space; the layout is then an index of them. -/
theorem placement_indexes (is : List Instruction) :
    ((∃ l, ofInstructions is = .ok l) ↔
      (∀ i ∈ is, 1 ≤ i.codeUnits.toNat) ∧ (is.map (·.codeUnits.toNat)).sum ≤ 2 ^ 32 - 1) ∧
    ∀ l, ofInstructions is = .ok l → l.Indexes is := by
  let c : Code := ⟨0, is, [], []⟩
  have hg := ofInstructions_guarded c
  refine ⟨?_, fun l hl => ?_⟩
  · rw [hg.exists_ok_iff, Code.sizeChecks_iff]
    exact ⟨fun hc => ⟨hc.sized, hc.fits⟩, fun hc => ⟨hc.1, hc.2⟩⟩
  · obtain ⟨hchecks, hplaced⟩ := hg.of_ok hl
    exact indexes_of_placed hplaced (Code.sizeChecks_iff.mp hchecks)

end Layout

end Dalvik
