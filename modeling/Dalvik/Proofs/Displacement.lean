import Dalvik.Proofs.Listing
import Dalvik.Proofs.Opcode

/-!
# Displacement — counting code units in a listing

An assembler that reads a listing counts code units (`Code.units`): an instruction is as far in as
there are code units before it, and a label marks the count at its directive. Every label directive
stands after the instructions below its address and before the others, so where its address is that
of an instruction, or the end of the code, the count there is the address (`Listed.units_before`).
So the displacement of a branch, or to an array, is what an assembler finds between the two places
(`displacement_restored`). The instructions this is about are the `LabelKind.sources` of the three
kinds (`Opcode.targetKind?_eq_some_iff`).
-/

namespace Dalvik

namespace Code

/-- The code units of the instruction of an entry; an entry of another band has none. -/
def entryUnits (c : Code) (e : Entry) : Nat :=
  match e.content with
  | .instruction i => (c.instructions[i.index]?.map (·.codeUnits.toNat)).getD 0
  | _ => 0

/-- The code units of the instructions among entries. -/
def units (c : Code) (es : List Entry) : Nat := (es.map c.entryUnits).sum

theorem units_filter (c : Code) (es : List Entry) :
    c.units (es.filter (·.band = .instruction)) = c.units es := by
  induction es with
  | nil => rfl
  | cons e es ih =>
      obtain ⟨x, content⟩ := e
      cases content with
      | instruction i =>
          rw [List.filter_cons_of_pos rfl]
          simpa [units] using ih
      | _ =>
          rw [List.filter_cons_of_neg (by simp [Entry.band, Content.band]), ih]
          simp [units, entryUnits]

/-- The instructions before a place of a listing are below `x` and the others are not; and if an
instruction starts at `x`, only labels and handlers stand between the place and its entry. -/
structure Separates (c : Code) (before : List Entry) (x : Nat) (after : List Entry) : Prop where
  /-- The instructions before are below. -/
  below : ∀ e ∈ before, e.band = .instruction → e.address < x
  /-- The instructions after are not. -/
  above : ∀ e ∈ after, e.band = .instruction → x ≤ e.address
  /-- What starts at `x` is next. -/
  next : ∀ p ∈ c.placed, p.address = x → ∃ between e rest,
    after = between ++ e :: rest ∧ c.IsEntry p e ∧
      ∀ z ∈ between, z.band = .label ∨ z.band = .exception

end Code

theorem Opcode.switchKind?_eq_none {o : Opcode} {kind : LabelKind} (hk : o.targetKind? = some kind)
    (hkind : kind = .goto ∨ kind = .cond ∨ kind = .arrayData) : o.switchKind? = none := by
  refine Option.eq_none_iff_forall_ne_some.mpr fun s hs => ?_
  cases hk.symm.trans (switchKind?_eq_some_iff.mp hs)
  cases s <;> simp [SwitchKind.tableLabel] at hkind

namespace Body

variable {m : Method} {c : Code} {o : Options} {b : Body} {l : Listing}
variable {own catches es : List Entry}

namespace Listed

variable (h : Listed b own catches es l)
include h

theorem units_own (x : Nat) : b.code.units (own.filter (·.address < x))
    = ((b.code.placed.filter (·.address < x)).map Placed.units).sum := by
  have hpair : own.map (fun e => (e.address, b.code.entryUnits e))
      = b.code.placed.map fun p => (p.address, p.units) := by
    refine h.map_own fun p hp e he => ?_
    obtain ⟨target, cases, rfl, -, -⟩ := he
    simp [Code.entryUnits, (Code.mem_placed.mp hp).1, Placed.units]
  have hsum := congrArg (fun ps => ((ps.filter (·.1 < x)).map Prod.snd).sum) hpair
  simpa [List.filter_map, Function.comp_def, Code.units] using hsum

variable {before after rest : List Entry}

/-- **The count at a place between the instructions is their address.** -/
theorem units_before {k : Nat} (hs : l.entries = before ++ rest)
    (hbefore : ∀ e ∈ before, e.band = .instruction → e.address < b.code.address k)
    (hrest : ∀ e ∈ rest, e.band = .instruction → b.code.address k ≤ e.address) :
    b.code.units before = b.code.address k := by
  -- of the instructions of the listing, those before the place are just those below `k`
  have hlow : (before.filter (·.band = .instruction)).filter (·.address < b.code.address k)
      = before.filter (·.band = .instruction) := by
    refine List.filter_eq_self.mpr fun e he => ?_
    obtain ⟨he, hk⟩ := List.mem_filter.mp he
    simpa using hbefore e he (of_decide_eq_true hk)
  have hhigh : (rest.filter (·.band = .instruction)).filter (·.address < b.code.address k)
      = [] := by
    refine List.filter_eq_nil_iff.mpr fun e he => ?_
    obtain ⟨he, hk⟩ := List.mem_filter.mp he
    simpa using hrest e he (of_decide_eq_true hk)
  have hown : own.filter (·.address < b.code.address k)
      = before.filter (·.band = .instruction) := by
    rw [← h.instructions_eq, hs, List.filter_append, List.filter_append, hlow, hhigh,
      List.append_nil]
  calc b.code.units before
      = b.code.units (before.filter (·.band = .instruction)) := (Code.units_filter _ _).symm
    _ = b.code.units (own.filter (·.address < b.code.address k)) := by rw [hown]
    _ = b.code.address k := by rw [h.units_own, h.placeable.sum_units_below]

/-- **A label directive separates the instructions** at its address. -/
theorem separates_label {x : Nat} {id : LabelId}
    (hs : l.entries = before ++ ⟨x, .label id⟩ :: after) : b.code.Separates before x after where
  below := fun e he hk => h.lt_of_mem_before hs Band.rank_label_lt he hk
  above := fun e he _ => Entry.address_le_of_mem_after h.ordered hs he
  next := by
    rintro p hp rfl
    obtain ⟨e, he, hpe⟩ := h.exists_entry hp
    obtain ⟨between, rest, hafter, hbetween⟩ :=
      h.split_instruction hs Band.rank_label_lt he hpe.band hpe.address
    refine ⟨between, e, rest, hafter, hpe, fun z hz => ?_⟩
    exact Band.eq_label_or_exception (hbetween z hz).1 (hbetween z hz).2

/-- The count before the entry of an instruction is its address. -/
theorem units_before_instruction {p : Placed} {e : Entry} (hp : p ∈ b.code.placed)
    (hpe : b.code.IsEntry p e) (hs : l.entries = before ++ e :: after) :
    b.code.units before = p.address := by
  have hord := h.pairwise_instructions
  rw [hs] at hord
  obtain ⟨-, hafter, hcross⟩ := List.pairwise_append.mp hord
  rw [(Code.mem_placed.mp hp).2]
  refine h.units_before hs ?_ ?_ <;> rw [← (Code.mem_placed.mp hp).2, ← hpe.address]
  · exact fun z hz hk => hcross z hz e List.mem_cons_self hk hpe.band
  · intro z hz hk
    rcases List.mem_cons.mp hz with rfl | hz
    · exact Nat.le_refl _
    · exact Nat.le_of_lt ((List.pairwise_cons.mp hafter).1 z hz hpe.band hk)

/-- The count before a label directive at a boundary of the code is its address. -/
theorem units_before_label {x : Nat} {id : LabelId}
    (hs : l.entries = before ++ ⟨x, .label id⟩ :: after)
    (hx : (∃ q ∈ b.code.placed, q.address = x) ∨ b.code.size = x) : b.code.units before = x := by
  obtain ⟨k, rfl⟩ : ∃ k, b.code.address k = x := by
    rcases hx with ⟨q, hq, rfl⟩ | rfl
    · exact ⟨q.index, (Code.mem_placed.mp hq).2.symm⟩
    · exact ⟨_, b.code.address_length⟩
  have hsep := h.separates_label hs
  refine h.units_before hs hsep.below fun e he hk => ?_
  rcases List.mem_cons.mp he with rfl | he
  · cases hk
  · exact hsep.above e he hk

end Listed

/-- **An assembler finds the displacements again.** Every label directive separates the
instructions at its address; and where a branch or a reference to an array leads to an instruction,
or to the end of the code, the code units before the directive of its target exceed those before
itself by its displacement. -/
theorem displacement_restored (hb : build m c o = .ok b) (hl : b.listing = .ok l) :
    (∀ before after x id, l.entries = before ++ ⟨x, .label id⟩ :: after →
      c.Separates before x after) ∧
    ∀ p ∈ c.placed, ∀ kind r, p.opcode.targetKind? = some kind →
      (kind = .goto ∨ kind = .cond ∨ kind = .arrayData) → p.instruction.codeOffset = some r →
      ((∃ q ∈ c.placed, (q.address : Int) = p.address + r.toInt) ∨
        (c.size : Int) = p.address + r.toInt) →
      ∃ id cases, ⟨p.address, .instruction ⟨p.index, some id, cases⟩⟩ ∈ l.entries ∧
        ⟨id.address, .label id⟩ ∈ l.entries ∧
        ∀ before after before' after',
          l.entries = before ++ ⟨p.address, .instruction ⟨p.index, some id, cases⟩⟩ :: after →
          l.entries = before' ++ ⟨id.address, .label id⟩ :: after' →
          (c.units before' : Int) - c.units before = r.toInt := by
  have hbuilt := built_of_build hb
  obtain rfl := hbuilt.code
  obtain ⟨own, catches, es, h⟩ := hbuilt.exists_listed hl
  refine ⟨fun before after x id hs => h.separates_label hs, ?_⟩
  intro p hp kind r hkind hk hr hend
  obtain ⟨_, he, target, cases, rfl, htarget, hcases⟩ := h.exists_entry hp
  have hpe : b.code.IsEntry p _ := ⟨target, cases, rfl, htarget, hcases⟩
  -- the target of such an instruction is where its displacement leads
  obtain ⟨x, rfl, hx⟩ : ∃ x : Nat, target = some ⟨kind, x⟩ ∧ (x : Int) = p.address + r.toInt := by
    simp only [Code.HasTarget, hkind, Opcode.switchKind?_eq_none hkind hk] at htarget
    obtain ⟨x, ht, r', hr', hx⟩ := htarget
    cases hr.symm.trans hr'
    exact ⟨x, ht, hx⟩
  have hmark : Entry.ofLabel ⟨kind, x⟩ ∈ l.entries :=
    h.ofLabel_mem he (by simp [hpe.band]) (by simp [Entry.labels, Content.labels])
  refine ⟨⟨kind, x⟩, cases, he, hmark, ?_⟩
  intro before after before' after' hs hs'
  have hbound : (∃ q ∈ b.code.placed, q.address = x) ∨ b.code.size = x := by
    rw [← hx] at hend
    rcases hend with ⟨q, hq, hqx⟩ | hsize
    · exact .inl ⟨q, hq, Int.ofNat.inj hqx⟩
    · exact .inr (Int.ofNat.inj hsize)
  rw [h.units_before_label hs' hbound, h.units_before_instruction hp hpe hs, sub_eq_iff_eq_add', hx]

theorem guardedLoop_displacement : ∃ b l,
    build .guardedLoop .guardedLoop { sequentialLabels := true } = .ok b ∧ b.listing = .ok l ∧
      ∃ id cases, ⟨2, .instruction ⟨1, some id, cases⟩⟩ ∈ l.entries ∧
        ⟨id.address, .label id⟩ ∈ l.entries ∧
        ∀ before after before' after',
          l.entries = before ++ ⟨2, .instruction ⟨1, some id, cases⟩⟩ :: after →
          l.entries = before' ++ ⟨id.address, .label id⟩ :: after' →
          (Code.guardedLoop.units before' : Int) - Code.guardedLoop.units before = -2 := by
  obtain ⟨b, l, hb, hl, -⟩ := guardedLoop_listed
  refine ⟨b, l, hb, hl, ?_⟩
  exact (displacement_restored hb hl).2
    ⟨1, 2, { Instruction.ofOpcode .goto with codeOffset := some (-2) }⟩ (by decide) .goto (-2) rfl
    (.inl rfl) rfl
    (.inl ⟨⟨0, 0, { Instruction.ofOpcode .ifEqz with registers := [0], codeOffset := some 3 }⟩,
      by decide, by decide⟩)

end Body

end Dalvik
