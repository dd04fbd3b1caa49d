import Dalvik.Proofs.Draft
import Dalvik.Proofs.Switch

/-!
# Body — what the stages of a listing check and yield

`Body.build` lays the code out and resolves its switches (`ofCode_guarded`); `Body.collect` makes
the entries of the instructions and of the exception regions (`collect_guarded`). For each stage
this module says which checks it makes, in their order, and what it yields if they hold:

* `Code.HasTarget`, `Code.HasCases`: the labels that an instruction refers to.
* `Code.IsEntry`: the entry of an instruction.
* `Code.IsHandlerEntry`: the entry of a handler of an exception region, at the instruction whose
  span has the last address of the region.

The lookups that a stage makes in the results of earlier ones cannot fail: no check stands for
them.
-/

namespace Dalvik

/-- A displacement from an address stays in the address space. -/
def InReach (address : Nat) (relative : Int32) : Prop :=
  0 ≤ (address : Int) + relative.toInt ∧ (address : Int) + relative.toInt < 2 ^ 32

theorem branchTarget_guarded (address : Nat) (relative : Int32) :
    Guarded (branchTarget address relative) [⟨InReach address relative, .noInstruction⟩]
      fun target => (target : Int) = address + relative.toInt := by
  rw [branchTarget]
  by_cases h : InReach address relative
  · have hin : 0 ≤ (address : Int) + relative.toInt ∧
        (address : Int) + relative.toInt < (addressLimit : Nat) := h
    simp only [if_pos hin]
    exact ⟨by simpa using h, Int.toNat_of_nonneg h.1⟩
  · have hin : ¬ (0 ≤ (address : Int) + relative.toInt ∧
        (address : Int) + relative.toInt < (addressLimit : Nat)) := h
    simp only [if_neg hin]
    exact FirstUnmet.here (c := ⟨_, .noInstruction⟩) h

/-- The kind of a switch table and the displacements of its cases. -/
def Payload.switchTable? : Payload → Option (SwitchKind × List Int32)
  | packedSwitch _ targets => some (.packed, targets)
  | sparseSwitch entries => some (.sparse, entries.map (·.target))
  | arrayData .. => none

namespace Code

/-! ### Checks -/

/-- Each register is the successor of the one before it. -/
def Consecutive (registers : List Register) : Prop :=
  registers.IsChain fun r s => r.toNat + 1 = s.toNat

/-- The check of the registers of an instruction. -/
def rangeCheck (p : Placed) : Check :=
  ⟨p.opcode.format.isRegisterRange → Consecutive p.instruction.registers, .malformedInstruction⟩

/-- The checks of the target of an instruction. -/
def targetChecks (p : Placed) : List Check :=
  [⟨p.opcode.targetKind?.isSome → p.instruction.codeOffset.isSome, .malformedInstruction⟩,
    ⟨p.opcode.targetKind?.isSome → p.opcode.switchKind? = none →
      ∀ r, p.instruction.codeOffset = some r → InReach p.address r, .noInstruction⟩]

/-- The check of a case of the table at `table`. -/
def caseCheck (c : Code) (kind : SwitchKind) (table : Nat) (r : Int32) : Check :=
  ⟨∀ base, c.IsBase kind table base → InReach base r, .noInstruction⟩

/-- The checks of the cases of an instruction that carries a switch table. -/
def caseChecks (c : Code) (p : Placed) : List Check :=
  match p.instruction.payload.bind Payload.switchTable? with
  | none => []
  | some (kind, targets) => targets.map (c.caseCheck kind p.address)

/-- The checks of an instruction. -/
def instructionChecks (c : Code) (p : Placed) : List Check :=
  rangeCheck p :: targetChecks p ++ c.caseChecks p

/-- The checks of an exception region. -/
def regionChecks (c : Code) (t : TryBlock) : List Check :=
  [⟨t.start.toNat < c.size, .tryRegionOutOfBounds⟩, ⟨t.stop ≤ c.size, .tryRegionOutOfBounds⟩,
    ⟨1 ≤ t.stop, .tryRegionOutOfBounds⟩]
    ++ t.handlers.map fun h => ⟨h.address.toNat < c.size, .handlerOutOfBounds⟩

/-! ### Results -/

/-- The label at the target of an instruction: the table of a switch, else what its displacement
leads to. -/
def HasTarget (c : Code) (p : Placed) (target : Option LabelId) : Prop :=
  match p.opcode.targetKind? with
  | none => target = none
  | some kind =>
    ∃ x, target = some ⟨kind, x⟩ ∧
      match p.opcode.switchKind? with
      | some switch => c.Resolves switch p x
      | none => ∃ r, p.instruction.codeOffset = some r ∧ (x : Int) = p.address + r.toInt

/-- The labels of the cases of the table at `table`: one for each case, as far from the base of the
table as the case says. A table that no switch uses has none. -/
def CaseLabels (c : Code) (kind : SwitchKind) (table : Nat) (targets : List Int32)
    (cases : Option (List LabelId)) : Prop :=
  (∃ base ids, c.IsBase kind table base ∧ cases = some ids ∧
    List.Forall₂ (fun r id => id.kind = kind.caseLabel ∧ (id.address : Int) = base + r.toInt)
      targets ids) ∨
  (∀ base, ¬ c.IsBase kind table base) ∧ cases = none

/-- The labels of the cases of an instruction that carries a switch table. -/
def HasCases (c : Code) (p : Placed) (cases : Option (List LabelId)) : Prop :=
  match p.instruction.payload.bind Payload.switchTable? with
  | none => cases = none
  | some (kind, targets) => c.CaseLabels kind p.address targets cases

/-- The entry of an instruction, with its target and cases. -/
def IsEntry (c : Code) (p : Placed) (e : Entry) : Prop :=
  ∃ target cases, e = ⟨p.address, .instruction ⟨p.index, target, cases⟩⟩ ∧
    c.HasTarget p target ∧ c.HasCases p cases

theorem IsEntry.address {c : Code} {p : Placed} {e : Entry} (h : c.IsEntry p e) :
    e.address = p.address := by
  obtain ⟨target, cases, rfl, -, -⟩ := h
  rfl

theorem IsEntry.band {c : Code} {p : Placed} {e : Entry} (h : c.IsEntry p e) :
    e.band = .instruction := by
  obtain ⟨target, cases, rfl, -, -⟩ := h
  rfl

/-- The exception regions, each with each of its handlers. -/
def handlers (c : Code) : List (TryBlock × Handler) :=
  c.tryBlocks.flatMap fun t => t.handlers.map fun h => (t, h)

/-- The directive of a handler of a region: it names the bounds of the region and the handler. -/
def handlerDirective (t : TryBlock) (h : Handler) : ExceptionEntry where
  exceptionType := h.exceptionType
  tryStart := ⟨.tryStart, t.start.toNat⟩
  tryEnd := ⟨.tryEnd, t.stop⟩
  handler := ⟨if h.exceptionType.isSome then .typedHandler else .anyHandler, h.address.toNat⟩

/-- The entry of a handler of a region, at the instruction whose span has the last address of the
region. -/
def IsHandlerEntry (c : Code) (t : TryBlock) (h : Handler) (e : Entry) : Prop :=
  ∃ p ∈ c.placed, p.address ≤ t.stop - 1 ∧ t.stop - 1 < p.stop ∧
    e = ⟨p.address, .exception (handlerDirective t h)⟩

end Code

/-! ### Building -/

/-- The check of the registers that the arguments of a method take. -/
def Method.widthCheck (m : Method) : Check := ⟨m.argumentWidth ≤ 65535, .invalidDescriptor⟩

theorem Method.parameterRegisters_guarded (m : Method) :
    Guarded m.parameterRegisters [m.widthCheck] fun _ => True := by
  rw [parameterRegisters]
  split
  · exact ⟨by simpa [widthCheck], trivial⟩
  · exact FirstUnmet.here (c := m.widthCheck) ‹_›

namespace Body

/-- What the body of a method consists of. -/
structure Built (m : Method) (c : Code) (o : Options) (b : Body) : Prop where
  /-- It is the body of the method. -/
  method : b.method = m
  /-- It has the code of the method. -/
  code : b.code = c
  /-- It is listed with these choices. -/
  options : b.options = o
  /-- The instructions lie at their addresses. -/
  placed : b.layout.placed = c.placed
  /-- The instructions can be placed. -/
  placeable : c.Placeable
  /-- The switches are those of the code. -/
  switches : Switch.Lists b.switches c
  /-- Every switch has a table. -/
  resolved : ∀ p ∈ c.placed, ∀ kind, p.opcode.switchKind? = some kind →
    ∃ table, c.Resolves kind p table

theorem resolved_of_switchChecks {c : Code} (h : ∀ k ∈ c.placed.flatMap c.switchChecks, k.holds) :
    ∀ p ∈ c.placed, ∀ kind, p.opcode.switchKind? = some kind →
      ∃ table, c.Resolves kind p table := by
  intro p hp kind hk
  refine h ⟨∃ table, c.Resolves kind p table, .missingSwitchPayload⟩ ?_
  exact List.mem_flatMap.mpr ⟨p, hp, by simp [Code.switchChecks, hk]⟩

/-- **Building a body**: the placement of the instructions is checked first, then the registers of
the arguments, then the switches. -/
theorem ofCode_guarded (m : Method) (c : Code) (o : Options) :
    Guarded (ofCode m c o)
      (c.placed.flatMap Placed.sizeChecks ++ ([m.widthCheck] ++ c.placed.flatMap c.switchChecks))
      (Built m c o) := by
  refine (Layout.ofInstructions_guarded c).bind fun l hsize hl => ?_
  have hc := Code.sizeChecks_iff.mp hsize
  refine m.parameterRegisters_guarded.bind fun count _ _ => ?_
  refine (Switch.ofLayout_guarded hl hc).bind_pure fun switches hswitch hs => ?_
  exact ⟨rfl, rfl, rfl, hl, hc, hs, resolved_of_switchChecks hswitch⟩

/-! ### The labels of an instruction -/

variable {m : Method} {c : Code} {o : Options} {b : Body} {p : Placed}

theorem target?_guarded (hb : Built m c o b) (hp : p ∈ c.placed) :
    Guarded (b.target? p) (Code.targetChecks p) (c.HasTarget p) := by
  rw [target?, Code.targetChecks]
  unfold Code.HasTarget
  cases hk : p.opcode.targetKind? with
  | none => exact ⟨by simp, rfl⟩
  | some kind =>
      cases hr : p.instruction.codeOffset with
      | none => exact FirstUnmet.here (c := ⟨_, .malformedInstruction⟩) (by simp)
      | some r =>
          refine .cons_holds ?_ (by simp)
          cases hs : p.opcode.switchKind? with
          | some switch =>
              -- the switch was resolved when the body was built: its displacement is not used again
              obtain ⟨table, ht⟩ := hb.resolved p hp switch hs
              have hf := (hb.switches.table?_eq_some_iff hb.placeable hp).mpr ⟨switch, ht⟩
              simp only [hf]
              exact ⟨by simp, table, rfl, ht⟩
          | none =>
              have hf : Switch.table? b.switches p.address = none := by
                rw [Option.eq_none_iff_forall_ne_some]
                intro table ht
                obtain ⟨switch, hres⟩ := (hb.switches.table?_eq_some_iff hb.placeable hp).mp ht
                rw [hres.2.1] at hs
                cases hs
              simp only [hf, Option.isSome_some, Option.some.injEq, forall_const, forall_eq']
              exact (branchTarget_guarded p.address r).map fun x hx => ⟨x, rfl, r, rfl, hx⟩

theorem caseLabels?_guarded (hb : Built m c o b) (kind : SwitchKind) (table : Nat)
    (targets : List Int32) :
    Guarded (b.caseLabels? kind table targets) (targets.map (c.caseCheck kind table))
      (c.CaseLabels kind table targets) := by
  rw [caseLabels?, switchBase?]
  cases hbase : Switch.base? b.switches kind table with
  | none =>
      have hno : ∀ base, ¬ c.IsBase kind table base := by
        intro base h
        rw [hb.switches.base?_eq_some_iff.mpr h] at hbase
        cases hbase
      refine ⟨?_, .inr ⟨hno, rfl⟩⟩
      simp only [List.forall_mem_map, Code.caseCheck]
      exact fun r _ base h => absurd h (hno base)
  | some base =>
      have hbase := hb.switches.base?_eq_some_iff.mp hbase
      -- the table has this one base, so the check of a case is about it
      have hcheck : c.caseCheck kind table = fun r => ⟨InReach base r, .noInstruction⟩ := by
        funext r
        simp only [Code.caseCheck, Check.mk.injEq, and_true, eq_iff_iff]
        refine ⟨fun h => h base hbase, fun h base' h' => ?_⟩
        exact hbase.unique h' ▸ h
      rw [hcheck, List.map_eq_flatMap]
      refine (Guarded.mapM fun r _ => branchTarget_guarded base r).map fun addresses h => ?_
      refine .inl ⟨base, _, hbase, rfl, List.forall₂_map_right_iff.mpr (h.imp ?_)⟩
      exact fun r x hx => ⟨rfl, hx⟩

theorem cases?_guarded (hb : Built m c o b) (p : Placed) :
    Guarded (b.cases? p) (c.caseChecks p) (c.HasCases p) := by
  rw [cases?, Code.caseChecks]
  unfold Code.HasCases
  cases p.instruction.payload with
  | none => exact .ok rfl
  | some payload =>
      cases payload with
      | packedSwitch firstKey targets => exact caseLabels?_guarded hb .packed p.address targets
      | sparseSwitch entries => exact caseLabels?_guarded hb .sparse p.address _
      | arrayData width data => exact .ok rfl

/-! ### The entries of the instructions -/

theorem consecutive_iff (rs : List Register) :
    RegisterNames.consecutive rs = true ↔ Code.Consecutive rs := by
  unfold Code.Consecutive
  fun_induction RegisterNames.consecutive rs with
  | case1 r s rs ih => simp [ih]
  | case2 rs h =>
      match rs, h with
      | [], _ => simp
      | [r], _ => simp
      | r :: s :: rs, h => exact absurd rfl (h r s rs)

theorem checkRange_guarded (p : Placed) :
    Guarded (checkRange p) [Code.rangeCheck p] fun _ => True := by
  refine .cons ?_ rfl fun _ => .ok trivial
  simp [Code.rangeCheck, ← consecutive_iff]

/-- What follows the entry of an instruction: a blank line unless it is the last, and its offset
comment. -/
def trail (b : Body) (p : Placed) : List Entry :=
  (if p.index + 1 = b.code.instructions.length then [] else [⟨p.address, .blank⟩]) ++
    if b.options.offsetComments then [⟨p.address, .offsetComment⟩] else []

theorem instructionEntries_guarded (hb : Built m c o b) (hp : p ∈ c.placed) :
    Guarded (b.instructionEntries p) (c.instructionChecks p)
      fun es => ∃ e, c.IsEntry p e ∧ es = e :: b.trail p := by
  refine (checkRange_guarded p).bind fun _ _ _ => ?_
  refine (target?_guarded hb hp).bind fun target _ ht => ?_
  exact (cases?_guarded hb p).bind_pure fun cases _ hc => ⟨_, ⟨target, cases, rfl, ht, hc⟩, rfl⟩

/-! ### The entries of the exception regions -/

variable {l : Layout} {t : TryBlock}

theorem anchor_guarded (hl : l.placed = c.placed) (t : TryBlock) :
    Guarded (anchor l t)
      [⟨t.start.toNat < c.size, .tryRegionOutOfBounds⟩, ⟨t.stop ≤ c.size, .tryRegionOutOfBounds⟩,
        ⟨1 ≤ t.stop, .tryRegionOutOfBounds⟩]
      fun x => ∃ p ∈ c.placed, p.address ≤ t.stop - 1 ∧ t.stop - 1 < p.stop ∧ x = p.address := by
  rw [anchor, Layout.size_eq hl]
  refine .cons (by simp) rfl fun _ => .cons (by simp) rfl fun hstop => .cons ?_ rfl fun h0 => ?_
  · simp [Nat.one_le_iff_ne_zero]
  · -- the last address of the region is in the code, so the lookup finds an instruction
    obtain ⟨p, hp, hf, hlow, hhigh⟩ := Layout.floor_eq_ok hl (x := t.stop - 1) (by omega)
    rw [hf]
    exact .ok ⟨p, hp, hlow, hhigh, rfl⟩

theorem handlerEntry_guarded (hl : l.placed = c.placed) (t : TryBlock) (x : Nat) (h : Handler) :
    Guarded (handlerEntry l t x h) [⟨h.address.toNat < c.size, .handlerOutOfBounds⟩]
      fun e => e = ⟨x, .exception (Code.handlerDirective t h)⟩ := by
  rw [handlerEntry, Layout.size_eq hl]
  exact .cons (by simp) rfl fun _ => .ok rfl

theorem tryEntries_guarded (hl : l.placed = c.placed) (t : TryBlock) :
    Guarded (tryEntries l t) (c.regionChecks t)
      (List.Forall₂ (c.IsHandlerEntry t) t.handlers) := by
  rw [Code.regionChecks, List.map_eq_flatMap]
  refine (anchor_guarded hl t).bind fun x _ hx => ?_
  obtain ⟨p, hp, hlow, hhigh, rfl⟩ := hx
  refine (Guarded.mapM fun h _ => handlerEntry_guarded hl t p.address h).mono fun es hes => ?_
  exact hes.imp fun h e he => ⟨p, hp, hlow, hhigh, he⟩

/-! ### Collecting -/

/-- The entries of a body without its labels: `own` of the instructions, each with what follows it,
then `catches` of the handlers, then the debug records. -/
structure Collected (b : Body) (own catches es : List Entry) : Prop where
  /-- One entry for each instruction. -/
  instructions : List.Forall₂ b.code.IsEntry b.code.placed own
  /-- One entry for each handler of each region. -/
  handlers : List.Forall₂ (fun th e => b.code.IsHandlerEntry th.1 th.2 e) b.code.handlers catches
  /-- All entries. -/
  eq : es = (List.zipWith (fun p e => e :: b.trail p) b.code.placed own).flatten
    ++ catches ++ b.debugEntries

theorem exists_entries {xs : List Placed} {ess : List (List Entry)}
    (h : List.Forall₂ (fun p es => ∃ e, c.IsEntry p e ∧ es = e :: b.trail p) xs ess) :
    ∃ own, List.Forall₂ c.IsEntry xs own ∧
      ess = List.zipWith (fun p e => e :: b.trail p) xs own := by
  induction h with
  | nil => exact ⟨[], .nil, rfl⟩
  | cons he _ ih =>
      obtain ⟨e, he, rfl⟩ := he
      obtain ⟨own, hown, rfl⟩ := ih
      exact ⟨e :: own, .cons he hown, rfl⟩

theorem handlers_flatten {ess : List (List Entry)}
    (h : List.Forall₂ (fun t => List.Forall₂ (c.IsHandlerEntry t) t.handlers) c.tryBlocks ess) :
    List.Forall₂ (fun th e => c.IsHandlerEntry th.1 th.2 e) c.handlers ess.flatten := by
  rw [Code.handlers, List.flatMap_def]
  refine List.rel_flatten (List.forall₂_map_left_iff.mpr (h.imp fun t es hes => ?_))
  exact List.forall₂_map_left_iff.mpr hes

/-- **Collecting the entries**: the instructions are checked in order, then the regions. -/
theorem collect_guarded (hb : Built m c o b) :
    Guarded b.collect
      (c.placed.flatMap c.instructionChecks ++ c.tryBlocks.flatMap c.regionChecks)
      fun es => ∃ own catches, Collected b own catches es := by
  rw [collect, hb.placed, hb.code]
  refine (Guarded.mapM fun p hp => instructionEntries_guarded hb hp).bind fun ess _ hess => ?_
  refine (Guarded.mapM fun t _ => tryEntries_guarded hb.placed t).bind_pure fun rss _ hrss => ?_
  obtain ⟨own, hown, rfl⟩ := exists_entries hess
  refine ⟨own, rss.flatten, ?_⟩
  have hcatches := handlers_flatten hrss
  rw [← hb.code] at hown hcatches ⊢
  exact ⟨hown, hcatches, rfl⟩

end Body

end Dalvik
