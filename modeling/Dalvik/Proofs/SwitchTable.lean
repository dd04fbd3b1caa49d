import Dalvik.Proofs.Closure
import Dalvik.Proofs.Displacement

/-!
# SwitchTable — switches and their tables in a listing

A switch names the label of its table, and that label is marked directly before the table, not
before a nop that aligns it. A table that a switch uses has a label for each of its cases, as far
from the first switch that uses it as the case says. An instruction that is no such table has no
cases, and labels of cases come from nowhere else. `Code.SwitchesListed` states this of a listing
and `switches_listed` proves it of all.

What an instruction carries and what its opcode is are independent: a table is one by what it
carries, and a switch finds it by its opcode.
-/

namespace Dalvik

/-- The instruction is a table of a kind that a switch of this kind uses. -/
def Code.UsedTable (c : Code) (kind : SwitchKind) (q : Placed) (targets : List Int32) : Prop :=
  q ∈ c.placed ∧ q.instruction.payload.bind Payload.switchTable? = some (kind, targets) ∧
    ∃ p, c.Resolves kind p q.address

/-- The switches of the code and their tables as a listing shows them. The entry of an instruction
is the one that has its number. -/
structure Code.SwitchesListed (c : Code) (l : Listing) : Prop where
  /-- Every switch has a table. -/
  resolved : ∀ p ∈ c.placed, ∀ kind, p.opcode.switchKind? = some kind →
    ∃ table, c.Resolves kind p table
  /-- The entry of a switch names the label of its table. -/
  target : ∀ kind p table, c.Resolves kind p table → ∃ cases,
    l.entries.filter (·.content.index? = some p.index)
      = [⟨p.address, .instruction ⟨p.index, some ⟨kind.tableLabel, table⟩, cases⟩⟩]
  /-- The label of a table is marked where an instruction starts that has the opcode of the table,
  and only labels and handlers stand between the two. -/
  marked : ∀ kind p table, c.Resolves kind p table → ∃ q ∈ c.placed,
    q.address = table ∧ q.opcode = kind.payload ∧
    ⟨table, .label ⟨kind.tableLabel, table⟩⟩ ∈ l.entries ∧
    ∀ before after, l.entries = before ++ ⟨table, .label ⟨kind.tableLabel, table⟩⟩ :: after →
      ∃ between e rest, after = between ++ e :: rest ∧ e.content.index? = some q.index ∧
        ∀ z ∈ between, z.band = .label ∨ z.band = .exception
  /-- The entry of a table that a switch uses has a label for each case, as far from the first of
  the switches that use it as the case says. -/
  cases : ∀ kind q targets, c.UsedTable kind q targets → ∃ base target ids,
    c.IsBase kind q.address base ∧
    l.entries.filter (·.content.index? = some q.index)
      = [⟨q.address, .instruction ⟨q.index, target, some ids⟩⟩] ∧
    List.Forall₂ (fun r id => id.kind = kind.caseLabel ∧ (id.address : Int) = base + r.toInt)
      targets ids
  /-- The entry of any other instruction has no cases, and its target is no case either. -/
  others : ∀ q ∈ c.placed, (∀ kind targets, ¬ c.UsedTable kind q targets) → ∃ target,
    l.entries.filter (·.content.index? = some q.index)
      = [⟨q.address, .instruction ⟨q.index, target, none⟩⟩] ∧
    ∀ id, target = some id → ∀ kind : SwitchKind, id.kind ≠ kind.caseLabel
  /-- The label of a case is that of a case of a table that a switch uses. -/
  caseLabels : ∀ id ∈ l.labels.ids, ∀ kind : SwitchKind, id.kind = kind.caseLabel →
    ∃ q targets base, c.UsedTable kind q targets ∧ c.IsBase kind q.address base ∧
      ∃ r ∈ targets, (id.address : Int) = base + r.toInt

/-! ### Kinds of labels -/

/-- No instruction has a case as its target. -/
theorem Opcode.targetKind?_ne_caseLabel {o : Opcode} {k : LabelKind} (h : o.targetKind? = some k)
    (kind : SwitchKind) : k ≠ kind.caseLabel := by
  rintro rfl
  rw [targetKind?_eq_some_iff] at h
  cases kind <;> cases h

theorem SwitchKind.caseLabel_injective : Function.Injective caseLabel := by
  rintro (_ | _) (_ | _) h
  case packed.sparse | sparse.packed => cases h
  all_goals rfl

namespace Code

variable {c : Code} {kind : SwitchKind} {p q : Placed} {target : Option LabelId}

/-- A switch that has a table has the label of the table as its target. -/
theorem HasTarget.of_resolves (h : c.HasTarget p target) (hc : c.Placeable) {table : Nat}
    (hr : c.Resolves kind p table) : target = some ⟨kind.tableLabel, table⟩ := by
  simp only [HasTarget, Opcode.switchKind?_eq_some_iff.mp hr.2.1, hr.2.1] at h
  obtain ⟨x, rfl, hx⟩ := h
  rw [(hx.unique hc hr).2]

theorem HasTarget.ne_caseLabel (h : c.HasTarget p target) {id : LabelId} (ht : target = some id)
    (kind : SwitchKind) : id.kind ≠ kind.caseLabel := by
  subst ht
  unfold HasTarget at h
  split at h
  · cases h
  · rename_i k hk
    obtain ⟨x, ⟨⟩, -⟩ := h
    exact Opcode.targetKind?_ne_caseLabel hk kind

/-- What a target names as a table starts an instruction of the opcode of the table. -/
theorem Resolves.exists_placed {table : Nat} (h : c.Resolves kind p table) :
    ∃ q ∈ c.placed, q.address = table ∧ q.opcode = kind.payload := by
  obtain ⟨-, -, r, -, ht⟩ := h
  cases ht with
  | direct hp _ ho => exact ⟨_, hp, rfl, ho⟩
  | padded _ _ _ hq _ ho => exact ⟨_, hq, rfl, ho⟩

theorem UsedTable.of_isBase {targets : List Int32} {base : Nat} (hq : q ∈ c.placed)
    (ht : q.instruction.payload.bind Payload.switchTable? = some (kind, targets))
    (hb : c.IsBase kind q.address base) : c.UsedTable kind q targets := by
  obtain ⟨⟨p, hp, -⟩, -⟩ := hb
  exact ⟨hq, ht, p, hp⟩

variable {cases : Option (List LabelId)}

/-- A table that a switch uses has a base, and its cases are relative to it. -/
theorem HasCases.of_used (h : c.HasCases q cases) {targets : List Int32}
    (hu : c.UsedTable kind q targets) (hbase : ∃ base, c.IsBase kind q.address base) :
    ∃ base ids, c.IsBase kind q.address base ∧ cases = some ids ∧
      List.Forall₂ (fun r id => id.kind = kind.caseLabel ∧ (id.address : Int) = base + r.toInt)
        targets ids := by
  simp only [HasCases, hu.2.1] at h
  rcases h with h | ⟨hno, -⟩
  · exact h
  · obtain ⟨base, hb⟩ := hbase
    exact absurd hb (hno base)

/-- Cases are those of a table that a switch uses. -/
theorem HasCases.exists_used (h : c.HasCases q cases) (hq : q ∈ c.placed) {ids : List LabelId}
    (hi : cases = some ids) :
    ∃ kind targets base, c.UsedTable kind q targets ∧ c.IsBase kind q.address base ∧
      List.Forall₂ (fun r id => id.kind = kind.caseLabel ∧ (id.address : Int) = base + r.toInt)
        targets ids := by
  subst hi
  unfold HasCases at h
  split at h
  · cases h
  · rename_i kind targets ht
    rcases h with ⟨base, ids, hb, ⟨⟩, hids⟩ | ⟨-, ⟨⟩⟩
    exact ⟨kind, targets, base, .of_isBase hq ht hb, hb, hids⟩

end Code

namespace Body

variable {m : Method} {c : Code} {o : Options} {b : Body} {l : Listing}
variable {own catches es : List Entry} {id : LabelId}

namespace Listed

variable (h : Listed b own catches es l)
include h

/-- An instruction has one entry, found by its number. -/
theorem filter_index {p : Placed} (hp : p ∈ b.code.placed) : ∃ target cases,
    l.entries.filter (·.content.index? = some p.index)
      = [⟨p.address, .instruction ⟨p.index, target, cases⟩⟩] ∧
    b.code.HasTarget p target ∧ b.code.HasCases p cases := by
  obtain ⟨_, he, target, cases, rfl, ht, hc⟩ := forall₂_mem_left h.instructions hp
  refine ⟨target, cases, ?_, ht, hc⟩
  have hband : l.entries.filter (·.content.index? = some p.index)
      = own.filter (·.content.index? = some p.index) := by
    rw [← h.instructions_eq, List.filter_filter]
    refine List.filter_congr fun e _ => ?_
    obtain ⟨x, content⟩ := e
    cases content <;> simp [Content.index?, Entry.band, Content.band]
  have hindex : (own.map (·.content.index?)).Nodup := by
    rw [h.index_own]
    exact List.nodup_range.map fun _ _ => Option.some.inj
  rw [hband]
  refine filter_eq_singleton hindex.of_map he fun e he' => ?_
  rw [decide_eq_true_iff]
  refine ⟨fun hi => List.inj_on_of_nodup_map hindex he' he hi, ?_⟩
  rintro rfl
  rfl

/-- The labels that the directive of a handler names are no cases. -/
theorem handler_ne_caseLabel {x : Nat} {e : ExceptionEntry} (he : ⟨x, .exception e⟩ ∈ l.entries)
    (hid : id ∈ (Content.exception e).labels) (kind : SwitchKind) : id.kind ≠ kind.caseLabel := by
  obtain ⟨t, d, -, rfl⟩ := h.exists_handler he
  simp only [Content.labels, Code.handlerDirective, List.mem_cons, List.not_mem_nil,
    or_false] at hid
  intro hk
  rcases hid with rfl | rfl | rfl
  · cases kind <;> cases hk
  · cases kind <;> cases hk
  · generalize d.exceptionType = type at hk
    cases type <;> cases kind <;> cases hk

/-- The label of a case is that of a case of a table that a switch uses. -/
theorem exists_used_of_refersTo {e : Entry} (he : e ∈ l.entries) (hr : e.content.RefersTo id)
    {kind : SwitchKind} (hk : id.kind = kind.caseLabel) :
    ∃ q targets base, b.code.UsedTable kind q targets ∧ b.code.IsBase kind q.address base ∧
      ∃ r ∈ targets, (id.address : Int) = base + r.toInt := by
  obtain ⟨x, content⟩ := e
  cases hr with
  | target hi =>
      obtain ⟨q, -, target, cases, ⟨⟩, ht, -⟩ := h.exists_placed he rfl
      exact absurd hk (ht.ne_caseLabel hi kind)
  | case hi hmem =>
      obtain ⟨q, hq, target, cases, ⟨⟩, -, hc⟩ := h.exists_placed he rfl
      obtain ⟨kind', targets, base, hu, hb, hids⟩ := hc.exists_used hq hi
      obtain ⟨r, hr, hkind, hx⟩ := forall₂_mem_right hids hmem
      -- the table is of the kind of the label
      obtain rfl := SwitchKind.caseLabel_injective (hkind.symm.trans hk)
      exact ⟨q, targets, base, hu, hb, r, hr, hx⟩
  | tryStart d | tryEnd d | handler d =>
      exact absurd hk (h.handler_ne_caseLabel he (by simp [Content.labels]) kind)

end Listed

/-- **Every listing shows the switches**: a switch names the label of its table, which is marked at
the table; the cases of a table are relative to its first switch; and there are no other cases. -/
theorem switches_listed (hb : build m c o = .ok b) (hl : b.listing = .ok l) :
    c.SwitchesListed l := by
  have hbuilt := built_of_build hb
  obtain rfl := hbuilt.code
  obtain ⟨own, catches, es, h⟩ := hbuilt.exists_listed hl
  refine ⟨hbuilt.resolved, ?target, ?marked, ?cases, ?others, ?caseLabels⟩
  case target =>
    intro kind p table hr
    obtain ⟨target, cases, hfilter, ht, -⟩ := h.filter_index hr.1
    obtain rfl := ht.of_resolves h.placeable hr
    exact ⟨cases, hfilter⟩
  case marked =>
    intro kind p table hr
    obtain ⟨q, hq, rfl, ho⟩ := hr.exists_placed
    -- the entry of the switch names the label, so it is marked
    obtain ⟨_, he, target, cases, rfl, ht, -⟩ := h.exists_entry hr.1
    obtain rfl := ht.of_resolves h.placeable hr
    have hmark : Entry.ofLabel ⟨kind.tableLabel, q.address⟩ ∈ l.entries :=
      h.ofLabel_mem he nofun (by simp [Entry.labels, Content.labels])
    refine ⟨q, hq, rfl, ho, hmark, fun before after hs => ?_⟩
    obtain ⟨between, e, rest, hafter, hqe, hbetween⟩ := (h.separates_label hs).next q hq rfl
    obtain ⟨_, _, rfl, -, -⟩ := hqe
    exact ⟨between, _, rest, hafter, rfl, hbetween⟩
  case cases =>
    intro kind q targets hu
    obtain ⟨target, cases, hfilter, -, hc⟩ := h.filter_index hu.1
    obtain ⟨p, hr⟩ := hu.2.2
    obtain ⟨base, ids, hbase, rfl, hids⟩ := hc.of_used hu (hbuilt.switches.exists_isBase hr)
    exact ⟨base, target, ids, hbase, hfilter, hids⟩
  case others =>
    intro q hq hno
    obtain ⟨target, cases, hfilter, ht, hc⟩ := h.filter_index hq
    cases hi : cases with
    | some ids =>
        obtain ⟨kind, targets, base, hu, -, -⟩ := hc.exists_used hq hi
        exact absurd hu (hno kind targets)
    | none => exact ⟨target, hi ▸ hfilter, fun id hid kind => ht.ne_caseLabel hid kind⟩
  case caseLabels =>
    intro id hid kind hk
    obtain ⟨e, he, hr⟩ := h.mem_ids_iff_refersTo.mp hid
    exact h.exists_used_of_refersTo he hr hk

end Body

/-! ### Two switches that share a table -/

/-- Two switches, the first of which reaches the table through a nop that aligns it, and a second
table that no switch uses. -/
def Code.sharedTable : Code where
  registerCount := 1
  instructions := [
    { Instruction.ofOpcode .packedSwitch with registers := [0], codeOffset := some 7 },
    { Instruction.ofOpcode .packedSwitch with registers := [0], codeOffset := some 5 },
    Instruction.ofOpcode .returnVoid,
    Instruction.ofOpcode .nop,
    Instruction.ofPayload (.packedSwitch 0 [6, 3]),
    Instruction.ofPayload (.sparseSwitch [⟨1, 6⟩])]
  tryBlocks := []
  debugRecords := []

namespace Body

theorem sharedTable_listed : ∃ b l,
    build .guardedLoop .sharedTable {} = .ok b ∧ b.listing = .ok l ∧
      Code.sharedTable.SwitchesListed l ∧
      (∃ cases, l.entries.filter (·.content.index? = some 0)
        = [⟨0, .instruction ⟨0, some ⟨.packedTable, 8⟩, cases⟩⟩]) ∧
      ∃ base target ids, Code.sharedTable.IsBase .packed 8 base ∧
        l.entries.filter (·.content.index? = some 4)
          = [⟨8, .instruction ⟨4, target, some ids⟩⟩] ∧
        List.Forall₂ (fun (r : Int32) id => id.kind = .packedCase ∧
          (id.address : Int) = base + r.toInt) [6, 3] ids := by
  obtain ⟨b, l, hb, hl⟩ : ∃ b l, build .guardedLoop .sharedTable {} = .ok b ∧ b.listing = .ok l :=
    ⟨_, _, rfl, rfl⟩
  have hr : Code.sharedTable.Resolves .packed ⟨0, 0,
      { Instruction.ofOpcode .packedSwitch with registers := [0], codeOffset := some 7 }⟩ 8 :=
    ⟨by decide, rfl, 7, rfl, .padded (p := ⟨3, 7, .ofOpcode .nop⟩)
      (q := ⟨4, 8, .ofPayload (.packedSwitch 0 [6, 3])⟩) (by decide) rfl rfl (by decide) rfl rfl⟩
  have h := switches_listed hb hl
  exact ⟨b, l, hb, hl, h, h.target _ _ _ hr,
    h.cases .packed ⟨4, 8, .ofPayload (.packedSwitch 0 [6, 3])⟩ [6, 3] ⟨by decide, rfl, _, hr⟩⟩

end Body

end Dalvik
