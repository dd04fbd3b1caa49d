import Dalvik.Proofs.Acceptance
import Dalvik.Proofs.Region
import Dalvik.Proofs.SwitchTable

/-!
# Target — where the labels of a listing point

A branch, a reference to an array, a case of a switch and a handler each lead to an address
(`Code.LeadsTo`). The labels of these kinds are at just the addresses that the code leads to, and
where an instruction starts at such an address it is the next one after the mark
(`Code.TargetsListed`). Code that leads out of the address space, or has a handler out of the code,
has no listing. `targets_listed` proves both.

Whether an instruction starts where the code leads to is not looked at: `Code.strayTargets` has a
listing, and in it a label of each kind within an instruction.
-/

namespace Dalvik

/-- The labels of the kind are those of what instructions, cases and handlers lead to. -/
def LabelKind.isTarget : LabelKind → Bool
  | arrayData | typedHandler | anyHandler | cond | goto | packedCase | sparseCase => true
  | packedTable | sparseTable | tryEnd | tryStart => false

namespace Code

/-- The code leads to an address, with a label of the kind there. The displacement of a switch does
not count, but the cases of its table do. -/
inductive LeadsTo (c : Code) : LabelKind → Int → Prop
  | branch {p : Placed} {kind : LabelKind} {r : Int32} (hp : p ∈ c.placed)
      (hk : p.opcode.targetKind? = some kind) (hs : p.opcode.switchKind? = none)
      (hr : p.instruction.codeOffset = some r) : LeadsTo c kind (p.address + r.toInt)
  | case {q : Placed} {kind : SwitchKind} {targets : List Int32} {base : Nat} {r : Int32}
      (hu : c.UsedTable kind q targets) (hb : c.IsBase kind q.address base) (hr : r ∈ targets) :
      LeadsTo c kind.caseLabel (base + r.toInt)
  | handler {t : TryBlock} {h : Handler} (ht : (t, h) ∈ c.handlers) :
      LeadsTo c (if h.exceptionType.isSome then .typedHandler else .anyHandler) h.address.toNat

/-- The address is in the address space, and in the code if it is that of a handler. -/
def InBounds (c : Code) (kind : LabelKind) (x : Int) : Prop :=
  0 ≤ x ∧ x < 2 ^ 32 ∧ (kind = .typedHandler ∨ kind = .anyHandler → x < c.size)

/-- What the code leads to as a listing shows it. -/
structure TargetsListed (c : Code) (l : Listing) : Prop where
  /-- The labels of targets are at the addresses that the code leads to, and nowhere else. -/
  labels : ∀ id : LabelId, id.kind.isTarget →
    (id ∈ l.labels.ids ↔ c.LeadsTo id.kind id.address)
  /-- The code leads nowhere out of bounds. -/
  inBounds : ∀ kind x, c.LeadsTo kind x → c.InBounds kind x
  /-- A label is marked once, at its own address. -/
  marked : ∀ id ∈ l.labels.ids,
    l.entries.filter (·.content = .label id) = [⟨id.address, .label id⟩]
  /-- Where a label is at the start of an instruction, only labels and handlers stand between its
  mark and that instruction. -/
  resolved : ∀ id : LabelId, ∀ p ∈ c.placed, p.address = id.address →
    ∀ before after, l.entries = before ++ ⟨id.address, .label id⟩ :: after →
      ∃ between e rest, after = between ++ e :: rest ∧ c.IsEntry p e ∧
        ∀ z ∈ between, z.band = .label ∨ z.band = .exception

end Code

/-- What an instruction leads to that is no switch. -/
theorem Opcode.targetKind?_cases {o : Opcode} {kind : LabelKind} (hk : o.targetKind? = some kind)
    (hs : o.switchKind? = none) : kind = .goto ∨ kind = .cond ∨ kind = .arrayData := by
  have hne : ∀ s : SwitchKind, kind ≠ s.tableLabel := by
    rintro s rfl
    rw [switchKind?_eq_some_iff.mpr hk] at hs
    cases hs
  rw [targetKind?_eq_some_iff] at hk
  cases kind
  case goto | cond | arrayData => simp
  case packedTable => exact absurd rfl (hne .packed)
  case sparseTable => exact absurd rfl (hne .sparse)
  all_goals cases hk

namespace Code

variable {c : Code} {kind : LabelKind} {x : Int}

theorem LeadsTo.inBounds (h : c.LeadsTo kind x) (hc : c.Acceptable) : c.InBounds kind x := by
  cases h with
  | branch hp hk hs hr =>
      obtain ⟨r, hr', hreach⟩ := hc.targets _ hp (by simp [hk])
      cases hr.symm.trans hr'
      refine ⟨(hreach hs).1, (hreach hs).2, ?_⟩
      rcases Opcode.targetKind?_cases hk hs with rfl | rfl | rfl <;> simp
  | @case q switch targets base r hu hb hr =>
      have hreach := hc.cases q hu.1 switch targets hu.2.1 base hb r hr
      refine ⟨hreach.1, hreach.2, ?_⟩
      cases switch <;> simp [SwitchKind.caseLabel]
  | @handler t d ht =>
      obtain ⟨t', ht', hd⟩ := List.mem_flatMap.mp ht
      obtain ⟨d', hd', ⟨⟩⟩ := List.mem_map.mp hd
      have hlt := hc.handlers t ht' d hd'
      have hsize := d.address.toNat_lt
      exact ⟨by omega, by omega, fun _ => by omega⟩

variable {p : Placed} {target : Option LabelId}

/-- The target of an instruction that is no switch is where its displacement leads. -/
theorem HasTarget.of_branch (h : c.HasTarget p target) (hk : p.opcode.targetKind? = some kind)
    (hs : p.opcode.switchKind? = none) {r : Int32} (hr : p.instruction.codeOffset = some r) :
    ∃ y : Nat, target = some ⟨kind, y⟩ ∧ (y : Int) = p.address + r.toInt := by
  simp only [HasTarget, hk, hs] at h
  obtain ⟨y, ht, r', hr', hy⟩ := h
  cases hr.symm.trans hr'
  exact ⟨y, ht, hy⟩

theorem HasTarget.leadsTo (h : c.HasTarget p target) (hp : p ∈ c.placed) {id : LabelId}
    (ht : target = some id) (hid : id.kind.isTarget) : c.LeadsTo id.kind id.address := by
  subst ht
  unfold HasTarget at h
  split at h
  · cases h
  · rename_i k hk
    obtain ⟨y, ⟨⟩, hy⟩ := h
    cases hs : p.opcode.switchKind? with
    | some switch =>
        -- a switch has its table as its target
        cases hk.symm.trans (Opcode.switchKind?_eq_some_iff.mp hs)
        cases switch <;> cases hid
    | none =>
        rw [hs] at hy
        obtain ⟨r, hr, hy⟩ := hy
        rw [hy]
        exact .branch hp hk hs hr

end Code

namespace Body

variable {m : Method} {c : Code} {o : Options} {b : Body} {l : Listing}
variable {own catches es : List Entry} {id : LabelId}

/-- The code of a listing is acceptable. -/
theorem Built.acceptable (hb : Built m c o b) (hl : b.listing = .ok l) : c.Acceptable := by
  have hchecks := ((gather_guarded hb).of_ok (gather_of_listing hl)).1
  obtain ⟨hinstruction, hregion⟩ := List.forall_mem_append.mp hchecks
  refine Code.acceptable_iff.mpr
    ⟨Code.sizeChecks_iff.mpr hb.placeable, ?_, hinstruction, hregion⟩
  rw [List.forall_mem_flatMap]
  intro p hp
  refine (Code.switchChecks_iff hp).mpr fun kind hk => ?_
  obtain ⟨table, -, -, r, hr, ht⟩ := hb.resolved p hp kind hk
  exact ⟨r, hr, table, ht⟩

namespace Listed

variable (h : Listed b own catches es l)
include h

/-- Where the code leads, there is a label. -/
theorem mem_ids_of_leadsTo {kind : LabelKind} {x : Nat} {y : Int} (hy : b.code.LeadsTo kind y)
    (hx : (x : Int) = y) : ⟨kind, x⟩ ∈ l.labels.ids := by
  rw [h.mem_ids_iff_refersTo]
  cases hy with
  | branch hp hk hs hr =>
      obtain ⟨_, he, target, cases, rfl, ht, -⟩ := h.exists_entry hp
      obtain ⟨z, rfl, hz⟩ := ht.of_branch hk hs hr
      obtain rfl : x = z := by omega
      exact ⟨_, he, .target rfl⟩
  | case hu hb hr =>
      obtain ⟨_, he, target, cases, rfl, -, hc⟩ := h.exists_entry hu.1
      obtain ⟨base, ids, hb', rfl, hids⟩ := hc.of_used hu ⟨_, hb⟩
      obtain rfl := hb.unique hb'
      obtain ⟨⟨k, z⟩, hmem, rfl, hz⟩ := forall₂_mem_left hids hr
      obtain rfl : x = z := Int.ofNat.inj (hx.trans hz.symm)
      exact ⟨_, he, .case rfl hmem⟩
  | handler ht =>
      obtain ⟨p, -, -, he⟩ := h.exists_directive ht
      obtain rfl := Int.ofNat.inj hx
      exact ⟨_, he, .handler _⟩

/-- The label of a target is where the code leads. -/
theorem leadsTo_of_mem_ids (hid : id ∈ l.labels.ids) (hk : id.kind.isTarget) :
    b.code.LeadsTo id.kind id.address := by
  obtain ⟨⟨x, content⟩, he, hr⟩ := h.mem_ids_iff_refersTo.mp hid
  cases hr with
  | target hi =>
      obtain ⟨p, hp, target, cases, ⟨⟩, ht, -⟩ := h.exists_placed he rfl
      exact ht.leadsTo hp hi hk
  | case hi hmem =>
      obtain ⟨q, hq, target, cases, ⟨⟩, -, hc⟩ := h.exists_placed he rfl
      obtain ⟨kind, targets, base, hu, hb, hids⟩ := hc.exists_used hq hi
      obtain ⟨r, hr, hkind, hx⟩ := forall₂_mem_right hids hmem
      rw [hkind, hx]
      exact .case hu hb hr
  | tryStart d | tryEnd d =>
      obtain ⟨t, g, -, rfl⟩ := h.exists_handler he
      cases hk
  | handler d =>
      obtain ⟨t, g, ht, rfl⟩ := h.exists_handler he
      exact .handler ht

/-- An assembler takes a label within an instruction for the end of the instruction. -/
theorem units_before_label_within {p : Placed} {before after : List Entry} {x : Nat}
    (hs : l.entries = before ++ ⟨x, .label id⟩ :: after) (hp : p ∈ b.code.placed)
    (hlow : p.address < x) (hhigh : x ≤ p.stop) : b.code.units before = p.stop := by
  have hsep := h.separates_label hs
  rw [Code.stop_eq_address_succ hp] at hhigh ⊢
  refine h.units_before hs (fun e he hk => (hsep.below e he hk).trans_le hhigh) ?_
  intro e he hk
  obtain ⟨q, hq, hqe⟩ := h.exists_placed (hs ▸ List.mem_append_right _ he) hk
  rcases List.mem_cons.mp he with rfl | he
  · cases hk
  · -- an instruction from `x` on comes after `p`
    have habove := hsep.above e he hk
    rw [hqe.address] at habove ⊢
    rw [← Code.stop_eq_address_succ hp]
    exact Code.stop_le_address hp hq
      ((h.placeable.address_lt_iff hp hq).mp (hlow.trans_le habove))

end Listed

/-- **Every listing shows the targets**: their labels are where the code leads, and lead to the
instructions that start there; code that leads out of bounds has no listing. -/
theorem targets_listed (hb : build m c o = .ok b) :
    (∀ l, b.listing = .ok l → c.TargetsListed l) ∧
      ∀ kind x, c.LeadsTo kind x → ¬ c.InBounds kind x → ∃ f, b.listing = .error f := by
  have hbuilt := built_of_build hb
  constructor
  · intro l hl
    have hc := hbuilt.acceptable hl
    obtain rfl := hbuilt.code
    obtain ⟨own, catches, es, h⟩ := hbuilt.exists_listed hl
    exact {
      labels := fun id hk =>
        ⟨fun hid => h.leadsTo_of_mem_ids hid hk, fun hx => h.mem_ids_of_leadsTo hx rfl⟩
      inBounds := fun kind x hx => hx.inBounds hc
      marked := fun id hid => h.filter_content hid
      resolved := fun id p hp hx before after hs => (h.separates_label hs).next p hp hx }
  · intro kind x hx hout
    cases hl : b.listing with
    | error f => exact ⟨f, rfl⟩
    | ok l => exact absurd (hx.inBounds (hbuilt.acceptable hl)) hout

end Body

/-- A branch to before the code. -/
def Code.escape : Code where
  registerCount := 1
  instructions := [{ Instruction.ofOpcode .goto with codeOffset := some (-1) }]
  tryBlocks := []
  debugRecords := []

namespace Body

theorem guardedLoop_targets :
    (∃ b l, build .guardedLoop .guardedLoop { sequentialLabels := true } = .ok b ∧
      b.listing = .ok l ∧ Code.guardedLoop.TargetsListed l ∧
      ⟨.goto, 0⟩ ∈ l.labels.ids ∧ ⟨.anyHandler, 3⟩ ∈ l.labels.ids) ∧
    ∃ b f, build .guardedLoop .escape {} = .ok b ∧ b.listing = .error f := by
  constructor
  · obtain ⟨b, l, hb, hl, -⟩ := guardedLoop_listed
    have h := (targets_listed hb).1 l hl
    refine ⟨b, l, hb, hl, h, (h.labels ⟨.goto, 0⟩ rfl).mpr ?_,
      (h.labels ⟨.anyHandler, 3⟩ rfl).mpr ?_⟩
    · exact .branch (p := ⟨1, 2, { Instruction.ofOpcode .goto with codeOffset := some (-2) }⟩)
        (r := -2) (by decide) rfl rfl rfl
    · exact .handler (t := ⟨0, 3, [⟨some "LFault;", 3⟩, ⟨none, 3⟩]⟩) (h := ⟨none, 3⟩) (by decide)
  · obtain ⟨b, hb⟩ : ∃ b, build .guardedLoop .escape {} = .ok b := ⟨_, rfl⟩
    have hx : Code.escape.LeadsTo .goto (-1) :=
      .branch (p := ⟨0, 0, { Instruction.ofOpcode .goto with codeOffset := some (-1) }⟩)
        (r := -1) (by decide) rfl rfl rfl
    obtain ⟨f, hf⟩ := (targets_listed hb).2 .goto (-1) hx fun hin => absurd hin.1 (by decide)
    exact ⟨b, f, hb, hf⟩

end Body

/-! ### Targets within an instruction -/

/-- Everything leads into the first instruction, but for one branch that leads out of the code. -/
def Code.strayTargets : Code where
  registerCount := 1
  instructions := [
    { Instruction.ofOpcode .const16 with registers := [0], literal := some 1 },
    { Instruction.ofOpcode .ifEqz with registers := [0], codeOffset := some (-1) },
    { Instruction.ofOpcode .fillArrayData with registers := [0], codeOffset := some (-3) },
    { Instruction.ofOpcode .packedSwitch with registers := [0], codeOffset := some 8 },
    { Instruction.ofOpcode .sparseSwitch with registers := [0], codeOffset := some 11 },
    { Instruction.ofOpcode .goto with codeOffset := some (-12) },
    { Instruction.ofOpcode .goto with codeOffset := some 86 },
    Instruction.ofPayload (.packedSwitch 0 [-6]),
    Instruction.ofPayload (.sparseSwitch [⟨1, -9⟩])]
  tryBlocks := [⟨0, 2, [⟨some "LFault;", 1⟩, ⟨none, 1⟩]⟩]
  debugRecords := []

namespace Body

/-- **A listing may have targets where no instruction starts**: a label of each kind is within an
instruction, an assembler takes it for the end of the instruction, and a label is out of the
code. -/
theorem strayTargets_listed : ∃ b l,
    build .guardedLoop .strayTargets {} = .ok b ∧ b.listing = .ok l ∧
      (∀ p ∈ Code.strayTargets.placed, p.address ≠ 1) ∧
      (∀ kind : LabelKind, kind.isTarget → ⟨kind, 1⟩ ∈ l.labels.ids ∧
        ∀ before after, l.entries = before ++ ⟨1, .label ⟨kind, 1⟩⟩ :: after →
          Code.strayTargets.units before = 2) ∧
      ⟨.goto, 100⟩ ∈ l.labels.ids ∧ Code.strayTargets.size < 100 := by
  obtain ⟨b, es, hb, hes, hids, hout⟩ : ∃ b es,
      build .guardedLoop .strayTargets {} = .ok b ∧ b.collect = .ok es ∧
        (∀ kind : LabelKind, kind.isTarget → ∃ e ∈ es, ⟨kind, 1⟩ ∈ e.labels) ∧
        ∃ e ∈ es, ⟨.goto, 100⟩ ∈ e.labels := by
    refine ⟨_, _, rfl, rfl, ?_, by decide⟩
    intro kind hk
    cases kind
    case packedTable | sparseTable | tryEnd | tryStart => cases hk
    all_goals decide
  have hl := listing_of_collect hes
  refine ⟨b, _, hb, hl, by decide, fun kind hk => ⟨ids_labelsOf.mpr (hids kind hk), ?_⟩,
    ids_labelsOf.mpr hout, by decide⟩
  intro before after hs
  have hbuilt := built_of_build hb
  obtain ⟨own, catches, es, h⟩ := hbuilt.exists_listed hl
  have hunits := h.units_before_label_within hs
    (p := ⟨0, 0, { Instruction.ofOpcode .const16 with registers := [0], literal := some 1 }⟩)
    (hbuilt.code ▸ by decide) (by decide) (by decide)
  rwa [hbuilt.code] at hunits

end Body

end Dalvik
