import Dalvik.Opcode.Target

/-!
# Instruction

Decoded instructions. Operands arrive decoded, and references to the constant pool as text. The
tables of switches and arrays are embedded in the code, as instructions with a payload.
-/

namespace Dalvik

/-- A register number. -/
abbrev Register := UInt16

/-- A case of a sparse switch. -/
structure SparseCase where
  /-- The value that selects the case. -/
  key : Int32
  /-- Where the case is, from the switch instruction. -/
  target : Int32
deriving DecidableEq, Repr

/-- A table embedded in the code. -/
inductive Payload where
  /-- Cases for consecutive keys, as displacements from the switch instruction. -/
  | packedSwitch (firstKey : Int32) (targets : List Int32)
  /-- Cases for single keys. -/
  | sparseSwitch (entries : List SparseCase)
  /-- Array elements of a width in bytes. -/
  | arrayData (elementWidth : UInt16) (elements : List Int64)
deriving DecidableEq, Repr

namespace Payload

/-- The pseudo-instruction that carries the table. -/
def opcode : Payload → Opcode
  | packedSwitch .. => .packedSwitchPayload
  | sparseSwitch .. => .sparseSwitchPayload
  | arrayData .. => .arrayPayload

/-- The size in code units, header included. -/
def codeUnits : Payload → Nat
  | packedSwitch _ targets => 2 * targets.length + 4
  | sparseSwitch entries => 4 * entries.length + 2
  | arrayData width elements => (elements.length * width.toNat + 1) / 2 + 4

end Payload

/-- A decoded instruction. -/
structure Instruction where
  /-- What it does. -/
  opcode : Opcode
  /-- Its size. The decoder gives it, and it need not be the size of the format. -/
  codeUnits : UInt32
  /-- Its registers, in the order of the listing. -/
  registers : List Register
  /-- Its literal operand. -/
  literal : Option Int64
  /-- Its reference to the constant pool. -/
  reference : Option String
  /-- Its displacement to another instruction, in code units. -/
  codeOffset : Option Int32
  /-- The table it carries. -/
  payload : Option Payload
deriving DecidableEq, Repr

namespace Instruction

/-- An instruction without operands, of the size of its format. A payload pseudo-instruction
has one code unit until it gets a table. -/
def ofOpcode (o : Opcode) : Instruction where
  opcode := o
  codeUnits := UInt32.ofNat (o.format.codeUnits?.getD 1)
  registers := []
  literal := none
  reference := none
  codeOffset := none
  payload := none

/-- The pseudo-instruction that carries a table. -/
def ofPayload (p : Payload) : Instruction :=
  { ofOpcode p.opcode with codeUnits := UInt32.ofNat p.codeUnits, payload := some p }

end Instruction

end Dalvik
