import Dalvik.Disassembly
import Dalvik.Proofs.Listing

/-!
# Acceptance — which methods have a text

`EncodedMethod.Acceptable` states the conditions on a method and its code under which a text comes
out; `EncodedMethod.checks` lists the same conditions in the order in which they are looked at, each
with the family of faults that its violation is reported as. `disassemble_outcome` says that the two
describe `disassemble` completely: there is a text just if the method is acceptable, and a failure
is one of the first check that is not met.

Nothing else can go wrong. The lookups of one stage in the results of another have no check of
their own, since they cannot fail.
-/

namespace Dalvik

/-- The conditions on the code of a method. -/
structure Code.Acceptable (c : Code) : Prop where
  /-- The instructions can be placed. -/
  placeable : c.Placeable
  /-- The displacement of a switch leads to its table, or to a nop directly before it. -/
  switches : ∀ p ∈ c.placed, ∀ kind, p.opcode.switchKind? = some kind →
    ∃ r, p.instruction.codeOffset = some r ∧ ∃ table, c.TableAt kind (p.address + r.toInt) table
  /-- A register range is one. -/
  ranges : ∀ p ∈ c.placed, p.opcode.format.isRegisterRange → Consecutive p.instruction.registers
  /-- An instruction that needs a target has a displacement, which stays in the address space
  unless it is that of a switch. -/
  targets : ∀ p ∈ c.placed, p.opcode.targetKind?.isSome →
    ∃ r, p.instruction.codeOffset = some r ∧ (p.opcode.switchKind? = none → InReach p.address r)
  /-- The cases of a table that a switch uses stay in the address space. -/
  cases : ∀ p ∈ c.placed, ∀ kind targets,
    p.instruction.payload.bind Payload.switchTable? = some (kind, targets) →
      ∀ base, c.IsBase kind p.address base → ∀ r ∈ targets, InReach base r
  /-- An exception region starts in the code, and ends after address zero and not after the
  code. -/
  regions : ∀ t ∈ c.tryBlocks, t.start.toNat < c.size ∧
    1 ≤ t.start.toNat + t.count.toNat ∧ t.start.toNat + t.count.toNat ≤ c.size
  /-- A handler is in the code. -/
  handlers : ∀ t ∈ c.tryBlocks, ∀ h ∈ t.handlers, h.address.toNat < c.size

namespace EncodedMethod

/-- The conditions on a method and its code. -/
structure Acceptable (e : EncodedMethod) : Prop where
  /-- There are registers for the arguments, the receiver included. -/
  width : (if e.method.isStatic then 0 else 1) + (e.method.parameters.map (·.type.width)).sum
    ≤ 65535
  /-- The code, if there is any, is acceptable. -/
  code : ∀ c, e.code = some c → c.Acceptable

/-- The checks of a method, in their order. -/
def checks (e : EncodedMethod) : List Check :=
  match e.code with
  | none => [e.method.widthCheck]
  | some c =>
    (c.placed.flatMap Placed.sizeChecks
      ++ ([e.method.widthCheck] ++ c.placed.flatMap c.switchChecks))
      ++ (c.placed.flatMap c.instructionChecks ++ c.tryBlocks.flatMap c.regionChecks)

end EncodedMethod

/-! ### The checks are the conditions -/

namespace Method

theorem foldl_width (ps : List Parameter) (n : Nat) :
    ps.foldl (fun width p => width + p.type.width) n = n + (ps.map (·.type.width)).sum := by
  induction ps generalizing n with
  | nil => rfl
  | cons p ps ih => rw [List.foldl_cons, ih, List.map_cons, List.sum_cons, Nat.add_assoc]

/-- The check of the arguments adds the widths of the receiver and of the parameters. -/
theorem widthCheck_iff (m : Method) : m.widthCheck.holds ↔
    (if m.isStatic then 0 else 1) + (m.parameters.map (·.type.width)).sum ≤ 65535 := by
  rw [widthCheck, argumentWidth, foldl_width, receiverWidth]

end Method

namespace Code

variable {c : Code} {p : Placed} {t : TryBlock}

theorem switchChecks_iff (hp : p ∈ c.placed) : (∀ k ∈ c.switchChecks p, k.holds) ↔
    ∀ kind, p.opcode.switchKind? = some kind → ∃ r, p.instruction.codeOffset = some r ∧
      ∃ table, c.TableAt kind (p.address + r.toInt) table := by
  cases hk : p.opcode.switchKind? with
  | none => simp [switchChecks, hk]
  | some kind =>
      simp only [switchChecks, hk, List.forall_mem_cons, Resolves, hp, true_and, Option.some.injEq,
        forall_eq']
      constructor
      · rintro ⟨-, ⟨table, r, hr, ht⟩, -⟩
        exact ⟨r, hr, table, ht⟩
      · rintro ⟨r, hr, table, ht⟩
        exact ⟨by simp [hr], ⟨table, r, hr, ht⟩, by simp⟩

theorem targetChecks_iff : (∀ k ∈ targetChecks p, k.holds) ↔
    (p.opcode.targetKind?.isSome → ∃ r, p.instruction.codeOffset = some r ∧
      (p.opcode.switchKind? = none → InReach p.address r)) := by
  cases hr : p.instruction.codeOffset with
  | none => simp [targetChecks, hr]
  | some r => simp [targetChecks, hr]

theorem caseChecks_iff : (∀ k ∈ c.caseChecks p, k.holds) ↔
    ∀ kind targets, p.instruction.payload.bind Payload.switchTable? = some (kind, targets) →
      ∀ base, c.IsBase kind p.address base → ∀ r ∈ targets, InReach base r := by
  rw [caseChecks]
  split
  · simp [*]
  · rename_i kind targets ht
    simp only [ht, List.forall_mem_map, caseCheck, Option.some.injEq, Prod.mk.injEq]
    constructor
    · rintro h _ _ ⟨rfl, rfl⟩ base hb r hr
      exact h r hr base hb
    · intro h r hr base hb
      exact h kind targets ⟨rfl, rfl⟩ base hb r hr

theorem regionChecks_iff : (∀ k ∈ c.regionChecks t, k.holds) ↔
    (t.start.toNat < c.size ∧ 1 ≤ t.start.toNat + t.count.toNat ∧
      t.start.toNat + t.count.toNat ≤ c.size) ∧ ∀ h ∈ t.handlers, h.address.toNat < c.size := by
  simp only [regionChecks, List.forall_mem_append, List.forall_mem_cons, List.forall_mem_map,
    TryBlock.stop]
  tauto

theorem acceptable_iff : c.Acceptable ↔
    (∀ k ∈ c.placed.flatMap Placed.sizeChecks, k.holds) ∧
    (∀ k ∈ c.placed.flatMap c.switchChecks, k.holds) ∧
    (∀ k ∈ c.placed.flatMap c.instructionChecks, k.holds) ∧
    ∀ k ∈ c.tryBlocks.flatMap c.regionChecks, k.holds := by
  rw [sizeChecks_iff]
  simp only [List.forall_mem_flatMap, instructionChecks, List.forall_mem_append,
    List.forall_mem_cons, targetChecks_iff, caseChecks_iff, regionChecks_iff]
  constructor
  · intro h
    exact ⟨h.placeable, fun p hp => (switchChecks_iff hp).mpr (h.switches p hp),
      fun p hp => ⟨⟨h.ranges p hp, h.targets p hp⟩, h.cases p hp⟩,
      fun t ht => ⟨h.regions t ht, h.handlers t ht⟩⟩
  · rintro ⟨hc, hswitch, hinstruction, hregion⟩
    exact {
      placeable := hc
      switches := fun p hp => (switchChecks_iff hp).mp (hswitch p hp)
      ranges := fun p hp => (hinstruction p hp).1.1
      targets := fun p hp => (hinstruction p hp).1.2
      cases := fun p hp => (hinstruction p hp).2
      regions := fun t ht => (hregion t ht).1
      handlers := fun t ht => (hregion t ht).2 }

end Code

namespace EncodedMethod

theorem checks_iff (e : EncodedMethod) : (∀ k ∈ e.checks, k.holds) ↔ e.Acceptable := by
  rw [checks]
  cases hc : e.code with
  | none =>
      rw [List.forall_mem_singleton, Method.widthCheck_iff]
      exact ⟨fun h => ⟨h, by simp [hc]⟩, fun h => h.width⟩
  | some c =>
      simp only [List.forall_mem_append, List.forall_mem_singleton, Method.widthCheck_iff]
      constructor
      · rintro ⟨⟨hsize, hw, hswitch⟩, hinstruction, hregion⟩
        refine ⟨hw, fun c' hc' => ?_⟩
        cases hc.symm.trans hc'
        exact Code.acceptable_iff.mpr ⟨hsize, hswitch, hinstruction, hregion⟩
      · intro h
        obtain ⟨hsize, hswitch, hinstruction, hregion⟩ := Code.acceptable_iff.mp (h.code c hc)
        exact ⟨⟨hsize, h.width, hswitch⟩, hinstruction, hregion⟩

end EncodedMethod

/-! ### The outcome -/

/-- Without code there is just the check of the arguments. -/
theorem disassemble_none (m : Method) (o : Options) :
    disassemble ⟨m, none⟩ o =
      (m.parameterRegisters.map fun _ => (Text.Writer.empty.write m.emptyBlock).text).mapError
        m.blame := by
  simp only [disassemble, EncodedMethod.write, Method.writeEmpty]
  cases m.parameterRegisters <;> rfl

/-- With code the body is built and then listed; every fault is put down to the method. -/
theorem disassemble_some (m : Method) (c : Code) (o : Options) :
    disassemble ⟨m, some c⟩ o =
      (Body.ofCode m c o >>= fun b => b.gather.map fun l =>
        (Text.Writer.empty.write (b.block l)).text).mapError m.blame := by
  simp only [disassemble, EncodedMethod.write, Body.build]
  cases hb : Body.ofCode m c o with
  | error f => rfl
  | ok b =>
      have hm : b.method = m := ((Body.ofCode_guarded m c o).of_ok hb).2.method
      subst hm
      simp only [Except.mapError, Body.write, Body.listing]
      cases hg : b.gather <;> simp only [bind, Except.bind, hg] <;> rfl

theorem exists_guarded (e : EncodedMethod) (o : Options) :
    ∃ r : Except Fault String, disassemble e o = r.mapError e.method.blame ∧
      Guarded r e.checks fun _ => True := by
  obtain ⟨m, code⟩ := e
  cases code with
  | none => exact ⟨_, disassemble_none m o, m.parameterRegisters_guarded.map fun _ _ => trivial⟩
  | some c =>
      refine ⟨_, disassemble_some m c o, (Body.ofCode_guarded m c o).bind fun b _ hb => ?_⟩
      exact (Body.gather_guarded hb).map fun _ _ => trivial

/-- **What becomes of a method**: it has a text just if it is acceptable, and fails with a fault of
a family just if the first unmet check has that family. -/
theorem disassemble_outcome (e : EncodedMethod) (o : Options) :
    ((∃ text, disassemble e o = .ok text) ↔ e.Acceptable) ∧
      ∀ k, (∃ f, disassemble e o = .error f ∧ f.fault.kind = k) ↔ FirstUnmet e.checks k := by
  obtain ⟨r, hr, hg⟩ := exists_guarded e o
  rw [hr, ← e.checks_iff]
  cases r with
  | ok text =>
      -- a text shows that no check is unmet
      refine ⟨⟨fun _ => hg.1, fun _ => ⟨text, rfl⟩⟩, fun k => ⟨?_, ?_⟩⟩
      · rintro ⟨f, hf, -⟩
        cases hf
      · exact fun hk => absurd hg.1 hk.not_all
  | error f =>
      have hf : FirstUnmet e.checks f.kind := hg
      refine ⟨⟨?_, fun hall => absurd hall hf.not_all⟩, fun k => ⟨?_, ?_⟩⟩
      · rintro ⟨text, ht⟩
        cases ht
      · rintro ⟨_, hf', rfl⟩
        cases hf'
        exact hf
      · exact fun hk => ⟨e.method.blame f, rfl, hf.unique hk⟩

end Dalvik
