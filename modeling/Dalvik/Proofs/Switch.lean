import Dalvik.Switch
import Dalvik.Proofs.Lookup
import Mathlib.Data.List.ReduceOption

/-!
# Switch — switches and the tables they use

A switch names its table by a displacement: the target is where the table starts, or where a nop
starts that is followed by the table (`Code.TableAt`). `Code.Resolves` says which table a switch
has, and `Code.IsBase` which switch the cases of a table are relative to: the one with the lowest
address among those of its kind that use it. `Switch.ofLayout` finds the switches with their tables
(`ofLayout_guarded`), and the two lookups in what it finds, `Switch.table?` and `Switch.base?`,
decide these two relations.
-/

namespace Dalvik

theorem SwitchKind.payload_ne_nop (kind : SwitchKind) : kind.payload ≠ .nop := by
  cases kind <;> decide

namespace Code

/-- The table of a kind that a target names: the instruction that starts at the target, or the one
directly after a nop that starts there. -/
inductive TableAt (c : Code) (kind : SwitchKind) (target : Int) : Nat → Prop where
  | direct {p : Placed} (hp : p ∈ c.placed) (ht : target = p.address)
      (ho : p.opcode = kind.payload) : TableAt c kind target p.address
  | padded {p q : Placed} (hp : p ∈ c.placed) (ht : target = p.address) (hn : p.opcode = .nop)
      (hq : q ∈ c.placed) (hi : q.index = p.index + 1) (ho : q.opcode = kind.payload) :
      TableAt c kind target q.address

/-- The instruction is a switch of a kind, and its table is at an address. -/
def Resolves (c : Code) (kind : SwitchKind) (p : Placed) (table : Nat) : Prop :=
  p ∈ c.placed ∧ p.opcode.switchKind? = some kind ∧
    ∃ r, p.instruction.codeOffset = some r ∧ c.TableAt kind (p.address + r.toInt) table

/-- The lowest address of a switch of a kind whose table is at `table`. -/
def IsBase (c : Code) (kind : SwitchKind) (table address : Nat) : Prop :=
  (∃ p, c.Resolves kind p table ∧ p.address = address) ∧
    ∀ q, c.Resolves kind q table → address ≤ q.address

/-- The checks of an instruction that may be a switch. -/
def switchChecks (c : Code) (p : Placed) : List Check :=
  match p.opcode.switchKind? with
  | none => []
  | some kind =>
    [⟨p.instruction.codeOffset.isSome, .malformedInstruction⟩,
      ⟨∃ table, c.Resolves kind p table, .missingSwitchPayload⟩]

variable {c : Code}

/-- A target names one table. -/
theorem TableAt.unique (hc : c.Placeable) {kind : SwitchKind} {target : Int} {x y : Nat}
    (h₁ : c.TableAt kind target x) (h₂ : c.TableAt kind target y) : x = y := by
  have same : ∀ {p q : Placed}, p ∈ c.placed → q ∈ c.placed → target = p.address →
      target = q.address → p = q := fun hp hq e₁ e₂ =>
    hc.eq_of_address_eq hp hq (Int.ofNat.inj (e₁.symm.trans e₂))
  cases h₁ with
  | direct hp ht ho =>
      cases h₂ with
      | direct hp' ht' _ => rw [same hp hp' ht ht']
      | padded hp' ht' hn _ _ _ =>
          -- the instruction at the target would be a nop and a table
          rw [same hp hp' ht ht'] at ho
          exact absurd (ho.symm.trans hn) kind.payload_ne_nop
  | padded hp ht hn hq hi ho =>
      cases h₂ with
      | direct hp' ht' ho' =>
          rw [same hp hp' ht ht'] at hn
          exact absurd (ho'.symm.trans hn) kind.payload_ne_nop
      | padded hp' ht' _ hq' hi' _ =>
          rw [same hp hp' ht ht', ← hi'] at hi
          have hq₁ := placed_getElem?_index hq
          rw [hi, placed_getElem?_index hq'] at hq₁
          rw [Option.some.inj hq₁]

theorem Resolves.unique (hc : c.Placeable) {j k : SwitchKind} {p : Placed} {x y : Nat}
    (h₁ : c.Resolves j p x) (h₂ : c.Resolves k p y) : j = k ∧ x = y := by
  obtain ⟨-, hj, r, hr, ht⟩ := h₁
  obtain ⟨-, hk, r', hr', ht'⟩ := h₂
  obtain rfl : j = k := Option.some.inj (hj.symm.trans hk)
  obtain rfl : r = r' := Option.some.inj (hr.symm.trans hr')
  exact ⟨rfl, ht.unique hc ht'⟩

theorem IsBase.unique {kind : SwitchKind} {table a b : Nat} (ha : c.IsBase kind table a)
    (hb : c.IsBase kind table b) : a = b := by
  obtain ⟨⟨p, hp, rfl⟩, hap⟩ := ha
  obtain ⟨⟨q, hq, rfl⟩, hbq⟩ := hb
  exact Nat.le_antisymm (hap q hq) (hbq p hp)

end Code

/-! ### Finding a table -/

namespace Switch

variable {l : Layout} {c : Code}

/-- The table is found through the two lookups of a layout. -/
theorem tableAt?_eq_some_iff (hl : l.placed = c.placed) (hc : c.Placeable) {kind : SwitchKind}
    {x table : Nat} : tableAt? l kind.payload x = some table ↔ c.TableAt kind x table := by
  constructor
  · intro h
    rw [tableAt?] at h
    cases hs : l.startingAt x with
    | error f => simp only [hs, reduceCtorEq] at h
    | ok p =>
        obtain ⟨hp, rfl⟩ := (Layout.startingAt_eq_ok_iff hl hc).mp hs
        -- the instruction at the target is the table, or a nop before it, or something else
        by_cases ho : p.opcode = kind.payload
        · simp only [hs, if_pos ho, Option.some.injEq] at h
          exact h ▸ .direct hp rfl ho
        by_cases hn : p.opcode = .nop
        · cases hg : l.get (p.index + 1) with
          | error f => simp only [hs, if_neg ho, if_pos hn, hg, reduceCtorEq] at h
          | ok q =>
              obtain ⟨hq, hi⟩ := (Layout.get_eq_ok_iff hl).mp hg
              by_cases hqo : q.opcode = kind.payload
              · simp only [hs, if_neg ho, if_pos hn, hg, if_pos hqo, Option.some.injEq] at h
                exact h ▸ .padded hp rfl hn hq hi hqo
              · simp only [hs, if_neg ho, if_pos hn, hg, if_neg hqo, reduceCtorEq] at h
        · simp only [hs, if_neg ho, if_neg hn, reduceCtorEq] at h
  · intro h
    have hstart : ∀ {p : Placed}, p ∈ c.placed → (x : Int) = p.address → l.startingAt x = .ok p :=
      fun hp hx => (Layout.startingAt_eq_ok_iff hl hc).mpr ⟨hp, (Int.ofNat.inj hx).symm⟩
    cases h with
    | direct hp ht ho => simp only [tableAt?, hstart hp ht, if_pos ho]
    | padded hp ht hn hq hi ho =>
        have hnext := (Layout.get_eq_ok_iff hl).mpr ⟨hq, hi⟩
        simp only [tableAt?, hstart hp ht, hn, kind.payload_ne_nop.symm, if_false, if_true, hnext,
          if_pos ho]

theorem findTable_guarded (hl : l.placed = c.placed) (hc : c.Placeable) (kind : SwitchKind)
    (target : Int) :
    Guarded (findTable l kind.payload target)
      [⟨∃ table, c.TableAt kind target table, .missingSwitchPayload⟩] (c.TableAt kind target) := by
  cases target with
  | negSucc n =>
      refine FirstUnmet.here (c := ⟨_, .missingSwitchPayload⟩) ?_
      rintro ⟨table, ⟨_, ht, _⟩ | ⟨_, ht, _, _, _, _⟩⟩ <;> cases ht
  | ofNat x =>
      cases hf : tableAt? l kind.payload x with
      | some table =>
          have ht := (tableAt?_eq_some_iff hl hc).mp hf
          simp only [findTable, hf]
          exact ⟨by simpa using ⟨table, ht⟩, ht⟩
      | none =>
          simp only [findTable, hf]
          refine FirstUnmet.here (c := ⟨_, .missingSwitchPayload⟩) ?_
          rintro ⟨table, ht⟩
          rw [(tableAt?_eq_some_iff hl hc).mpr ht] at hf
          cases hf

/-- **A switch and its table**: an instruction that is no switch yields nothing, and a switch yields
the one table its target names. -/
theorem ofPlaced?_guarded (hl : l.placed = c.placed) (hc : c.Placeable) {p : Placed}
    (hp : p ∈ c.placed) :
    Guarded (ofPlaced? l p) (c.switchChecks p) fun found =>
      ∀ s, found = some s ↔ s.address = p.address ∧ c.Resolves s.kind p s.table := by
  rw [ofPlaced?, Code.switchChecks]
  cases hk : p.opcode.switchKind? with
  | none =>
      refine .ok fun s => ⟨nofun, ?_⟩
      rintro ⟨-, -, hk', -⟩
      rw [hk] at hk'
      cases hk'
  | some kind =>
      cases hr : p.instruction.codeOffset with
      | none => exact FirstUnmet.here (c := ⟨_, .malformedInstruction⟩) (by simp)
      | some r =>
          have hres : ∀ table,
              c.TableAt kind (p.address + r.toInt) table ↔ c.Resolves kind p table := by
            refine fun table => ⟨fun ht => ⟨hp, hk, r, hr, ht⟩, ?_⟩
            rintro ⟨-, -, r', hr', ht⟩
            rwa [Option.some.inj (hr.symm.trans hr')]
          refine .cons_holds ?_ rfl
          simp only [← hres]
          refine (findTable_guarded hl hc kind _).map fun table ht s => ?_
          constructor
          · rintro ⟨⟩
            exact ⟨rfl, (hres table).mp ht⟩
          · rintro ⟨ha, hs⟩
            obtain ⟨hkind, htable⟩ := ((hres table).mp ht).unique hc hs
            rw [hkind, htable, ← ha]

/-! ### The switches of a code -/

/-- The switches are those of the code with their tables, by address. -/
structure Lists (ss : List Switch) (c : Code) : Prop where
  /-- A switch is listed with its table. -/
  mem_iff : ∀ s, s ∈ ss ↔ ∃ p, s.address = p.address ∧ c.Resolves s.kind p s.table
  /-- The addresses increase. -/
  increasing : ss.Pairwise fun s t => s.address < t.address

theorem addresses_sublist {ps : List Placed} {found : List (Option Switch)}
    (h : List.Forall₂ (fun p o => ∀ s, o = some s → s.address = p.address) ps found) :
    (found.reduceOption.map (·.address)).Sublist (ps.map (·.address)) := by
  induction h with
  | nil => exact .slnil
  | @cons p o ps found ho _ ih =>
      cases o with
      | none =>
          rw [List.reduceOption_cons_of_none]
          exact ih.cons _
      | some s =>
          rw [List.reduceOption_cons_of_some, List.map_cons, List.map_cons, ho s rfl]
          exact ih.cons_cons _

theorem lists_of_forall₂ (hc : c.Placeable) {found : List (Option Switch)}
    (h : List.Forall₂ (fun p o => ∀ s, o = some s ↔
      s.address = p.address ∧ c.Resolves s.kind p s.table) c.placed found) :
    Lists found.reduceOption c where
  mem_iff s := by
    rw [List.reduceOption_mem_iff]
    constructor
    · intro hs
      obtain ⟨p, -, hp⟩ := forall₂_mem_right h hs
      exact ⟨p, (hp s).mp rfl⟩
    · rintro ⟨p, ha, hr⟩
      obtain ⟨o, ho, hp⟩ := forall₂_mem_left h hr.1
      exact (hp s).mpr ⟨ha, hr⟩ ▸ ho
  increasing := by
    have hs := addresses_sublist (h.imp fun p o ho s hs => ((ho s).mp hs).1)
    exact List.pairwise_map.mp ((List.pairwise_map.mpr hc.pairwise_address).sublist hs)

/-- **The switches of a code** are found with their tables, in the order of their addresses. -/
theorem ofLayout_guarded (hl : l.placed = c.placed) (hc : c.Placeable) :
    Guarded (ofLayout l) (c.placed.flatMap c.switchChecks) (Lists · c) := by
  rw [ofLayout, hl]
  exact (Guarded.mapM fun p hp => ofPlaced?_guarded hl hc hp).bind_pure fun found _ h =>
    lists_of_forall₂ hc h

namespace Lists

variable {ss : List Switch}

/-- The table of the switch at an address is the one it resolves to. -/
theorem table?_eq_some_iff (h : Lists ss c) (hc : c.Placeable) {p : Placed} (hp : p ∈ c.placed)
    {table : Nat} : table? ss p.address = some table ↔ ∃ kind, c.Resolves kind p table := by
  have hmem : ∀ {s}, s ∈ ss → s.address = p.address → c.Resolves s.kind p s.table := by
    intro s hs ha
    obtain ⟨q, hq, hr⟩ := (h.mem_iff s).mp hs
    rwa [hc.eq_of_address_eq hp hr.1 (ha.symm.trans hq)]
  rw [table?, Option.map_eq_some_iff]
  constructor
  · rintro ⟨s, hf, rfl⟩
    exact ⟨s.kind, hmem (List.mem_of_find?_eq_some hf) (by simpa using List.find?_some hf)⟩
  · rintro ⟨kind, hr⟩
    have hs : (⟨kind, p.address, table⟩ : Switch) ∈ ss := (h.mem_iff _).mpr ⟨p, rfl, hr⟩
    cases hf : ss.find? (·.address == p.address) with
    | none => simpa using List.find?_eq_none.mp hf _ hs
    | some s =>
        have hs' := hmem (List.mem_of_find?_eq_some hf) (by simpa using List.find?_some hf)
        exact ⟨s, rfl, (hs'.unique hc hr).2⟩

/-- The first switch of a kind that uses a table has the lowest address. -/
theorem isBase_of_find? (h : Lists ss c) {kind : SwitchKind} {table : Nat} {s : Switch}
    (hf : (ss.find? fun s => s.kind == kind && s.table == table) = some s) :
    c.IsBase kind table s.address := by
  obtain ⟨hs, before, after, rfl, hbefore⟩ := List.find?_eq_some_iff_append.mp hf
  simp only [Bool.and_eq_true, beq_iff_eq] at hs
  obtain ⟨rfl, rfl⟩ := hs
  refine ⟨?_, fun q hq => ?_⟩
  · obtain ⟨p, ha, hr⟩ := (h.mem_iff s).mp (by simp)
    exact ⟨p, hr, ha.symm⟩
  · -- a switch that uses the table is not before the first one found, so not below it
    have hm := (h.mem_iff ⟨s.kind, q.address, s.table⟩).mpr ⟨q, rfl, hq⟩
    have hinc := (List.pairwise_append.mp h.increasing).2.1
    rcases List.mem_append.mp hm with hm | hm
    · simpa using hbefore _ hm
    · rcases List.mem_cons.mp hm with hm | hm
      · rw [← hm]
      · exact Nat.le_of_lt ((List.pairwise_cons.mp hinc).1 _ hm)

/-- A table that a switch uses has a first one. -/
theorem exists_find? (h : Lists ss c) {kind : SwitchKind} {p : Placed} {table : Nat}
    (hr : c.Resolves kind p table) :
    ∃ s, (ss.find? fun s => s.kind == kind && s.table == table) = some s := by
  have hs : (⟨kind, p.address, table⟩ : Switch) ∈ ss := (h.mem_iff _).mpr ⟨p, rfl, hr⟩
  cases hf : ss.find? fun s => s.kind == kind && s.table == table with
  | none => simpa using List.find?_eq_none.mp hf _ hs
  | some s => exact ⟨s, rfl⟩

theorem exists_isBase (h : Lists ss c) {kind : SwitchKind} {p : Placed} {table : Nat}
    (hr : c.Resolves kind p table) : ∃ base, c.IsBase kind table base := by
  obtain ⟨s, hf⟩ := h.exists_find? hr
  exact ⟨s.address, h.isBase_of_find? hf⟩

/-- The base of a table is the lowest address of a switch that uses it. -/
theorem base?_eq_some_iff (h : Lists ss c) {kind : SwitchKind} {table address : Nat} :
    base? ss kind table = some address ↔ c.IsBase kind table address := by
  rw [base?, Option.map_eq_some_iff]
  constructor
  · rintro ⟨s, hf, rfl⟩
    exact h.isBase_of_find? hf
  · intro hb
    obtain ⟨p, hr, -⟩ := hb.1
    obtain ⟨s, hf⟩ := h.exists_find? hr
    exact ⟨s, hf, (h.isBase_of_find? hf).unique hb⟩

end Lists

end Switch

end Dalvik
