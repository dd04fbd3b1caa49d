import Dalvik.Opcode.Target
import Mathlib.Data.List.Sort

/-!
# Opcode — opcodes by their mnemonics and by their targets

No two opcodes have the same mnemonic (`mnemonic_injective`), so an opcode is found by the mnemonic
it is written as (`ofMnemonic?_mnemonic`).

That the mnemonics differ is a fact about the table. It is checked on numbers: the bytes of a
mnemonic make up one number, and the numbers of all mnemonics, sorted, increase strictly.

`LabelKind.sources` lists the opcodes whose targets have a kind of label; there are no others
(`targetKind?_eq_some_iff`).
-/

namespace Dalvik

/-- The bytes of a text as one number. -/
def Text.bytesValue (s : String) : Nat :=
  s.toByteArray.data.toList.foldl (fun n b => n * 256 + b.toNat) 0

namespace Opcode

theorem rank_lt_count (o : Opcode) : o.rank < count := by
  cases o <;> decide

theorem mem_all (o : Opcode) : o ∈ all := by
  rw [← ofNat_ctorIdx o]
  exact List.mem_map_of_mem (List.mem_range.mpr o.rank_lt_count)

/-- The numbers of the mnemonics are different. -/
theorem nodup_bytesValue : (all.map (Text.bytesValue ·.mnemonic)).Nodup := by
  have hchain : ((all.map (Text.bytesValue ·.mnemonic)).insertionSort (· ≤ ·)).IsChain (· < ·) := by
    decide +kernel
  have hsorted := (List.isChain_iff_pairwise.mp hchain).imp fun h => Nat.ne_of_lt h
  exact (List.perm_insertionSort _ _).nodup_iff.mp hsorted

/-- **A mnemonic stands for one opcode.** -/
theorem mnemonic_injective : Function.Injective mnemonic := by
  intro a b h
  exact List.inj_on_of_nodup_map nodup_bytesValue a.mem_all b.mem_all
    (congrArg Text.bytesValue h)

theorem ofMnemonic?_mnemonic (o : Opcode) : ofMnemonic? o.mnemonic = some o := by
  cases hf : ofMnemonic? o.mnemonic with
  | none => simpa using List.find?_eq_none.mp hf o o.mem_all
  | some a =>
      have ha : a.mnemonic = o.mnemonic := by simpa using List.find?_some hf
      rw [mnemonic_injective ha]

end Opcode

/-! ### Targets -/

/-- The opcodes with a target whose label is of a kind. -/
def LabelKind.sources : LabelKind → List Opcode
  | goto => [.goto, .goto16, .goto32]
  | cond =>
    [.ifEq, .ifNe, .ifLt, .ifGe, .ifGt, .ifLe, .ifEqz, .ifNez, .ifLtz, .ifGez, .ifGtz, .ifLez]
  | packedTable => [.packedSwitch]
  | sparseTable => [.sparseSwitch]
  | arrayData => [.fillArrayData]
  | typedHandler | anyHandler | packedCase | sparseCase | tryEnd | tryStart => []

namespace Opcode

variable {o : Opcode} {k : LabelKind} {s : SwitchKind}

/-- **Which opcodes have a target**, and of which kind its label is. -/
theorem targetKind?_eq_some_iff : o.targetKind? = some k ↔ o ∈ k.sources := by
  constructor
  · have hall : ∀ o ∈ all, ∀ k ∈ o.targetKind?, o ∈ k.sources := by decide +kernel
    exact hall o o.mem_all k
  · have hall : ∀ o ∈ k.sources, o.targetKind? = some k := by cases k <;> decide
    exact hall o

/-- A switch is what has a table of its kind as its target. -/
theorem switchKind?_eq_some_iff : o.switchKind? = some s ↔ o.targetKind? = some s.tableLabel := by
  rw [targetKind?_eq_some_iff]
  constructor
  · intro h
    unfold switchKind? at h
    split at h <;> cases h <;> exact List.mem_cons_self
  · intro h
    cases s <;> rw [List.mem_singleton.mp h] <;> rfl

end Opcode

end Dalvik
