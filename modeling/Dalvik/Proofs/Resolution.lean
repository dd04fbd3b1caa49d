import Dalvik.Proofs.SwitchTable

/-!
# Resolution — the tables of the switches and the switches of the tables

`Body.build` gives each switch its table, and each table that a switch uses the address that its
cases are relative to. `Body.Resolved` states both maps in terms of the code alone: the table of a
switch is the only one that its target names (`Code.TableAt`), the base of a table is the lowest
address of a switch that has it, and no address is the table of both kinds of switches.

A switch without a table stops the build. `Code.NoTable` lists the reasons why a target names none,
and `noTable_iff` proves the list complete. Where there are such switches, the first of them is the
one that is reported (`Code.FirstLacking`).
-/

namespace Dalvik

/-- Why a target names no table of a kind. -/
inductive Code.NoTable (c : Code) (kind : SwitchKind) (target : Int) : Prop where
  /-- It lies before the code. -/
  | negative (h : target < 0)
  /-- It lies past the code. -/
  | pastEnd (h : c.size ≤ target)
  /-- It lies within an instruction. -/
  | within {p : Placed} (hp : p ∈ c.placed) (hstart : p.address < target) (hstop : target < p.stop)
  /-- The instruction there is no table of the kind, and no nop either. -/
  | other {p : Placed} (hp : p ∈ c.placed) (ht : target = p.address) (ho : p.opcode ≠ kind.payload)
      (hn : p.opcode ≠ .nop)
  /-- The nop there stands before an instruction that is no table of the kind. -/
  | padded {p q : Placed} (hp : p ∈ c.placed) (ht : target = p.address) (hn : p.opcode = .nop)
      (hq : q ∈ c.placed) (hi : q.index = p.index + 1) (ho : q.opcode ≠ kind.payload)
  /-- The nop there is the last instruction. -/
  | lastNop {p : Placed} (hp : p ∈ c.placed) (ht : target = p.address) (hn : p.opcode = .nop)
      (hlast : p.index + 1 = c.instructions.length)

/-- The instruction is a switch whose target names no table. -/
def Code.Lacks (c : Code) (p : Placed) (target : Int) : Prop :=
  ∃ kind r, p.opcode.switchKind? = some kind ∧ p.instruction.codeOffset = some r ∧
    target = p.address + r.toInt ∧ c.NoTable kind target

/-- The instruction has a table if it is a switch. -/
def Code.Provided (c : Code) (p : Placed) : Prop :=
  ∀ kind, p.opcode.switchKind? = some kind → ∃ table, c.Resolves kind p table

/-- The instruction is a switch whose target names no table, and every switch before it has one. -/
structure Code.FirstLacking (c : Code) (p : Placed) (target : Int) : Prop where
  mem : p ∈ c.placed
  lacks : c.Lacks p target
  earlier : ∀ q ∈ c.placed, q.index < p.index → c.Provided q

/-- The tables of the switches of the code, and the bases of the tables, as the body has them. -/
structure Body.Resolved (b : Body) (c : Code) : Prop where
  /-- A switch has the one table that its target names. -/
  table : ∀ p ∈ c.placed, ∀ kind, p.opcode.switchKind? = some kind →
    ∃ r table, p.instruction.codeOffset = some r ∧
      Switch.table? b.switches p.address = some table ∧
      ∀ x, c.TableAt kind (p.address + r.toInt) x ↔ x = table
  /-- The base of a table is the lowest address of a switch of its kind that has it. -/
  base : ∀ kind table address, b.switchBase? kind table = some address ↔
    c.IsBase kind table address
  /-- Without such a switch there is no base. -/
  unused : ∀ kind table, b.switchBase? kind table = none ↔ ∀ p, ¬ c.Resolves kind p table
  /-- No address is the table of both kinds. -/
  disjoint : ∀ table, b.switchBase? .packed table = none ∨ b.switchBase? .sparse table = none

/-! ### Targets without a table -/

namespace Code

variable {c : Code} {kind : SwitchKind} {p q : Placed} {target : Int} {table : Nat}

/-- A target that names a table starts an instruction: the table, or a nop that stands before it. -/
theorem TableAt.exists_start (h : c.TableAt kind target table) :
    ∃ p ∈ c.placed, target = p.address ∧ (p.opcode = kind.payload ∨
      p.opcode = .nop ∧ ∃ q ∈ c.placed, q.index = p.index + 1 ∧ q.opcode = kind.payload) := by
  cases h with
  | direct hp ht ho => exact ⟨_, hp, ht, .inl ho⟩
  | padded hp ht hn hq hi ho => exact ⟨_, hp, ht, .inr ⟨hn, _, hq, hi, ho⟩⟩

theorem NoTable.not_tableAt (hc : c.Placeable) (h : c.NoTable kind target) (table : Nat) :
    ¬ c.TableAt kind target table := by
  intro ht
  obtain ⟨p, hp, rfl, hstart⟩ := ht.exists_start
  have same : ∀ {q}, q ∈ c.placed → (p.address : Int) = q.address → p = q :=
    fun hq he => hc.eq_of_address_eq hp hq (Int.ofNat.inj he)
  have hlt := hc.address_lt_stop hp
  cases h with
  | negative h => omega
  | pastEnd h =>
      have hle := stop_le_size hp
      omega
  | within hq h₁ h₂ =>
      -- the address is one of two spans, so the two are one
      cases covering_unique hp hq ⟨Nat.le_refl _, hlt⟩ ⟨by omega, by omega⟩
      omega
  | other hq he ho hn =>
      cases same hq he
      rcases hstart with h | ⟨h, -⟩
      · exact ho h
      · exact hn h
  | padded hq he hn hq' hi ho =>
      cases same hq he
      rcases hstart with h | ⟨-, r, hr, hri, hro⟩
      · exact kind.payload_ne_nop (h.symm.trans hn)
      · have hget := placed_getElem?_index hr
        rw [hri, ← hi, placed_getElem?_index hq'] at hget
        cases hget
        exact ho hro
  | lastNop hq he hn hlast =>
      cases same hq he
      rcases hstart with h | ⟨-, r, hr, hri, -⟩
      · exact kind.payload_ne_nop (h.symm.trans hn)
      · have hlen := (List.getElem?_eq_some_iff.mp (mem_placed.mp hr).1).1
        omega

/-- **The reasons are complete**: a target names no table just if one of them holds. -/
theorem noTable_iff (hc : c.Placeable) :
    c.NoTable kind target ↔ ∀ table, ¬ c.TableAt kind target table := by
  refine ⟨fun h => h.not_tableAt hc, fun hno => ?_⟩
  rcases Int.lt_or_le target 0 with hneg | hpos
  · exact .negative hneg
  obtain ⟨x, rfl⟩ := Int.eq_ofNat_of_zero_le hpos
  rcases Nat.lt_or_ge x c.size with hx | hx
  · rw [← address_length] at hx
    obtain ⟨p, hp, hle, hlt⟩ := exists_covering hx
    rcases Nat.lt_or_eq_of_le hle with hstart | rfl
    · exact .within hp (by omega) (by omega)
    -- the target is the start of an instruction
    by_cases ho : p.opcode = kind.payload
    · exact absurd (.direct hp rfl ho) (hno _)
    by_cases hn : p.opcode = .nop
    · cases hq : c.placed[p.index + 1]? with
      | none =>
          have hlen := (List.getElem?_eq_some_iff.mp (mem_placed.mp hp).1).1
          rw [placed_getElem?, Option.map_eq_none_iff, List.getElem?_eq_none_iff] at hq
          exact .lastNop hp rfl hn (by omega)
      | some q =>
          have hmem := List.mem_of_getElem? hq
          have hi := index_eq_of_getElem? hq
          exact .padded hp rfl hn hmem hi fun hqo => hno _ (.padded hp rfl hn hmem hi hqo)
    · exact .other hp rfl ho hn
  · exact .pastEnd (by omega)

/-- No address is the table of switches of two kinds. -/
theorem Resolves.kind_unique (hc : c.Placeable) {j k : SwitchKind} (hp : c.Resolves j p table)
    (hq : c.Resolves k q table) : j = k := by
  obtain ⟨p', hp', rfl, ho⟩ := hp.exists_placed
  obtain ⟨q', hq', he, ho'⟩ := hq.exists_placed
  rw [hc.eq_of_address_eq hq' hp' he, ho] at ho'
  revert ho'
  cases j <;> cases k <;> decide

/-! ### The first switch without a table -/

theorem exists_lacks (hc : c.Placeable) (hp : p ∈ c.placed) (h : ¬ c.Provided p)
    (hoffset : p.opcode.switchKind?.isSome → p.instruction.codeOffset.isSome) :
    ∃ target, c.Lacks p target := by
  simp only [Provided, not_forall, not_exists] at h
  obtain ⟨kind, hk, hno⟩ := h
  obtain ⟨r, hr⟩ := Option.isSome_iff_exists.mp (hoffset (by simp [hk]))
  have hnone : c.NoTable kind (p.address + r.toInt) :=
    (noTable_iff hc).mpr fun table ht => hno table ⟨hp, hk, r, hr, ht⟩
  exact ⟨_, kind, r, hk, hr, rfl, hnone⟩

/-- Among the switches up to one without a table there is a first one without. -/
theorem exists_firstLacking (hc : c.Placeable) (hp : p ∈ c.placed) (h : c.Lacks p target)
    (hoffsets : ∀ q ∈ c.placed, q.index < p.index →
      q.opcode.switchKind?.isSome → q.instruction.codeOffset.isSome) :
    ∃ q first, q.index ≤ p.index ∧ c.FirstLacking q first := by
  induction hn : p.index using Nat.strongRecOn generalizing p target with
  | ind n ih =>
      subst hn
      by_cases hearlier : ∀ q ∈ c.placed, q.index < p.index → c.Provided q
      · exact ⟨p, target, Nat.le_refl _, hp, h, hearlier⟩
      · simp only [not_forall] at hearlier
        obtain ⟨q, hq, hlt, hno⟩ := hearlier
        obtain ⟨next, hnext⟩ := exists_lacks hc hq hno (hoffsets q hq hlt)
        obtain ⟨q', first, hle, hfirst⟩ := ih q.index hlt hq hnext
          (fun r hr hrq => hoffsets r hr (hrq.trans hlt)) rfl
        exact ⟨q', first, hle.trans (Nat.le_of_lt hlt), hfirst⟩

end Code

theorem mapM_eq_error {α β ε : Type} {f : α → Except ε β} {before after : List α} {x : α} {e : ε}
    (hbefore : ∀ y ∈ before, ∃ z, f y = .ok z) (hx : f x = .error e) :
    (before ++ x :: after).mapM f = .error e := by
  induction before with
  | nil =>
      rw [List.nil_append, List.mapM_cons, hx]
      rfl
  | cons y before ih =>
      obtain ⟨z, hz⟩ := hbefore y List.mem_cons_self
      have hrest := ih fun y hy => hbefore y (List.mem_cons_of_mem _ hy)
      rw [List.cons_append, List.mapM_cons, hz, hrest]
      rfl

namespace Switch

variable {l : Layout} {c : Code} {p : Placed} {target : Int}

theorem findTable_eq_error (hl : l.placed = c.placed) (hc : c.Placeable) {kind : SwitchKind}
    (hno : c.NoTable kind target) :
    findTable l kind.payload target = .error (.noSwitchTable target) := by
  cases target with
  | negSucc n => rfl
  | ofNat x =>
      have hnone : tableAt? l kind.payload x = none :=
        Option.eq_none_iff_forall_ne_some.mpr fun table hf =>
          hno.not_tableAt hc table ((tableAt?_eq_some_iff hl hc).mp hf)
      simp only [findTable, hnone]

theorem ofPlaced?_eq_error (hl : l.placed = c.placed) (hc : c.Placeable)
    (h : c.Lacks p target) : ofPlaced? l p = .error (.noSwitchTable target) := by
  obtain ⟨kind, r, hk, hr, rfl, hno⟩ := h
  rw [ofPlaced?, hk, hr]
  simp only [findTable_eq_error hl hc hno]
  rfl

theorem exists_ofPlaced? (hl : l.placed = c.placed) (hc : c.Placeable) (hp : p ∈ c.placed)
    (h : c.Provided p) : ∃ found, ofPlaced? l p = .ok found := by
  rw [(ofPlaced?_guarded hl hc hp).exists_ok_iff, Code.switchChecks]
  cases hk : p.opcode.switchKind? with
  | none => simp
  | some kind =>
      obtain ⟨table, ht⟩ := h kind hk
      have hr : p.instruction.codeOffset.isSome := by
        obtain ⟨-, -, r, hr, -⟩ := ht
        rw [hr, Option.isSome_some]
      simpa [hr] using ⟨table, ht⟩

/-- **The first switch without a table** is the one that is reported. -/
theorem ofLayout_eq_error (hl : l.placed = c.placed) (hc : c.Placeable)
    (h : c.FirstLacking p target) : ofLayout l = .error (.noSwitchTable target) := by
  have hsplit : l.placed = c.placed.take p.index ++ p :: c.placed.drop (p.index + 1) := by
    rw [hl, ← Code.drop_index h.mem, List.take_append_drop]
  have hbefore : ∀ q ∈ c.placed.take p.index, ∃ found, ofPlaced? l q = .ok found := by
    intro q hq
    obtain ⟨hm, hlt⟩ := Code.of_mem_take hq
    exact exists_ofPlaced? hl hc hm (h.earlier q hm hlt)
  rw [ofLayout, hsplit, mapM_eq_error hbefore (ofPlaced?_eq_error hl hc h.lacks)]
  rfl

end Switch

namespace Body

variable {m : Method} {c : Code} {o : Options} {b : Body}

/-- A body that could be built has the tables and the bases of its code. -/
theorem Built.toResolved (h : Built m c o b) : b.Resolved c where
  table := by
    intro p hp kind hk
    obtain ⟨table, hresolves⟩ := h.resolved p hp kind hk
    have hfound := (h.switches.table?_eq_some_iff h.placeable hp).mpr ⟨kind, hresolves⟩
    obtain ⟨-, -, r, hr, htable⟩ := hresolves
    refine ⟨r, table, hr, hfound, ?_⟩
    refine fun x => ⟨fun hx => hx.unique h.placeable htable, ?_⟩
    rintro rfl
    exact htable
  base := fun _ _ _ => h.switches.base?_eq_some_iff
  unused := by
    intro kind table
    rw [Option.eq_none_iff_forall_ne_some]
    constructor
    · intro hnone p hp
      obtain ⟨base, hbase⟩ := h.switches.exists_isBase hp
      exact hnone base (h.switches.base?_eq_some_iff.mpr hbase)
    · intro hno base hbase
      obtain ⟨⟨p, hp, -⟩, -⟩ := h.switches.base?_eq_some_iff.mp hbase
      exact hno p hp
  disjoint := by
    intro table
    by_contra hboth
    simp only [not_or, Option.ne_none_iff_exists'] at hboth
    obtain ⟨⟨x, hx⟩, y, hy⟩ := hboth
    -- the instruction at the address would have two opcodes
    obtain ⟨⟨p, hp, -⟩, -⟩ := h.switches.base?_eq_some_iff.mp hx
    obtain ⟨⟨q, hq, -⟩, -⟩ := h.switches.base?_eq_some_iff.mp hy
    cases hp.kind_unique h.placeable hq

/-- **The switches of a code and their tables.** A body that is built has for each switch its one
table, and for each table the lowest of its switches. A switch whose target names no table stops the
build, where the instructions can be placed, the arguments fit into the registers and the switches
before it have a target; the first such switch is reported. -/
theorem switches_resolved (m : Method) (c : Code) (o : Options) :
    (∀ b, build m c o = .ok b → b.Resolved c) ∧
    ∀ p ∈ c.placed, ∀ target, c.Lacks p target → c.Placeable → m.argumentWidth ≤ 65535 →
      (∀ q ∈ c.placed, q.index < p.index →
        q.opcode.switchKind?.isSome → q.instruction.codeOffset.isSome) →
      ∃ q first, q.index ≤ p.index ∧ c.FirstLacking q first ∧
        build m c o = .error ⟨.noSwitchTable first, m.fullName⟩ := by
  refine ⟨fun b hb => (built_of_build hb).toResolved, ?_⟩
  intro p hp target hlacks hc hw hoffsets
  obtain ⟨q, first, hle, hfirst⟩ := Code.exists_firstLacking hc hp hlacks hoffsets
  refine ⟨q, first, hle, hfirst, ?_⟩
  have hg := Layout.ofInstructions_guarded c
  obtain ⟨l, hl⟩ := hg.exists_ok_iff.mpr (Code.sizeChecks_iff.mpr hc)
  have hm : m.parameterRegisters = .ok m.argumentWidth := if_pos hw
  rw [build, ofCode, hl]
  simp only [bind, Except.bind, hm, Switch.ofLayout_eq_error (hg.of_ok hl).2 hc hfirst]
  rfl

end Body

/-! ### A switch that reaches a table of the other kind -/

/-- Two switches that reach the same nop: the table behind it is one of the first, not of the
second. -/
def Code.otherTable : Code where
  registerCount := 1
  instructions := [
    { Instruction.ofOpcode .packedSwitch with registers := [0], codeOffset := some 7 },
    { Instruction.ofOpcode .sparseSwitch with registers := [0], codeOffset := some 4 },
    Instruction.ofOpcode .returnVoid,
    Instruction.ofOpcode .nop,
    Instruction.ofPayload (.packedSwitch 0 [6])]
  tryBlocks := []
  debugRecords := []

namespace Body

theorem sharedTable_resolved :
    (∃ b, build .guardedLoop .sharedTable {} = .ok b ∧ b.Resolved .sharedTable ∧
      b.switchBase? .packed 8 = some 0 ∧ b.switchBase? .sparse 16 = none) ∧
    (∃ q first, q.index ≤ 1 ∧ Code.otherTable.FirstLacking q first ∧
      build .guardedLoop .otherTable {}
        = .error ⟨.noSwitchTable first, Method.guardedLoop.fullName⟩) ∧
    build .guardedLoop .otherTable {}
      = .error ⟨.noSwitchTable 7, Method.guardedLoop.fullName⟩ := by
  obtain ⟨b, hb, hpacked, hsparse⟩ : ∃ b, build .guardedLoop .sharedTable {} = .ok b ∧
      b.switchBase? .packed 8 = some 0 ∧ b.switchBase? .sparse 16 = none := ⟨_, rfl, rfl, rfl⟩
  refine ⟨⟨b, hb, (switches_resolved _ _ _).1 b hb, hpacked, hsparse⟩, ?_, rfl⟩
  have hp : (⟨1, 3, { Instruction.ofOpcode .sparseSwitch with
      registers := [0], codeOffset := some 4 }⟩ : Placed) ∈ Code.otherTable.placed := by decide
  have hnop : (⟨3, 7, .ofOpcode .nop⟩ : Placed) ∈ Code.otherTable.placed := by decide
  have htable : (⟨4, 8, .ofPayload (.packedSwitch 0 [6])⟩ : Placed) ∈ Code.otherTable.placed := by
    decide
  have hno : Code.otherTable.NoTable .sparse 7 :=
    .padded hnop rfl rfl htable rfl (by decide)
  exact (switches_resolved .guardedLoop .otherTable {}).2 _ hp 7 ⟨.sparse, 4, rfl, rfl, rfl, hno⟩
    ⟨by decide, by decide⟩ (by decide) (by decide)

end Body

end Dalvik
