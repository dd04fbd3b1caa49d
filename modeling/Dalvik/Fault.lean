import Dalvik.Instruction
import Dalvik.Text.Numeral

/-!
# Fault

Why a descriptor, a method or its code is refused, and the words for it. A failure is a fault
with the method it was found in.
-/

namespace Dalvik

/-- The families of faults. -/
inductive FaultKind where
  /-- A switch points at no table of its kind. -/
  | missingSwitchPayload
  /-- An exception region leaves the code. -/
  | tryRegionOutOfBounds
  /-- A handler lies outside the code. -/
  | handlerOutOfBounds
  /-- There is no instruction where one is needed. -/
  | noInstruction
  /-- An instruction lacks something, or has what it must not. -/
  | malformedInstruction
  /-- A descriptor does not follow its grammar, or describes too much. -/
  | invalidDescriptor
deriving DecidableEq, Repr

/-- Why something is refused. -/
inductive Fault where
  /-- The text is no type descriptor. -/
  | typeDescriptor (text : String)
  /-- The text is no method descriptor. -/
  | methodDescriptor (text : String)
  /-- The parameters of a method do not fit into the registers. -/
  | tooManyParameters (method : String)
  /-- An instruction has no code units. -/
  | noCodeUnits (index : Nat) (opcode : Opcode)
  /-- An instruction ends past the last address. -/
  | codeTooLong (index : Nat)
  /-- There is no instruction of that number. -/
  | noIndex (index : Nat)
  /-- No instruction starts at an address. -/
  | noStart (address : Nat)
  /-- No instruction starts at or before an address. -/
  | noFloor (address : Nat)
  /-- An instruction lacks its displacement. -/
  | noCodeOffset (opcode : Opcode) (address : Nat)
  /-- A displacement leads out of the address space. -/
  | targetOutside (address : Nat) (relative : Int)
  /-- A switch points at no table of its kind. -/
  | noSwitchTable (target : Int)
  /-- The registers of a range are not consecutive. -/
  | scatteredRange (opcode : Opcode) (address : Nat) (registers : List Register)
  /-- An exception region starts past the code. -/
  | tryStart (start size : Nat)
  /-- An exception region ends past the code. -/
  | tryEnd (stop size : Nat)
  /-- An empty exception region has nothing before it. -/
  | emptyTry (start : Nat)
  /-- A handler lies past the code. -/
  | handler (address size : Nat)
deriving DecidableEq, Repr

namespace Fault

/-- The family of a fault. -/
def kind : Fault → FaultKind
  | typeDescriptor _ | methodDescriptor _ | tooManyParameters _ => .invalidDescriptor
  | noCodeUnits .. | codeTooLong _ | noCodeOffset .. | scatteredRange .. => .malformedInstruction
  | noIndex _ | noStart _ | noFloor _ | targetOutside .. => .noInstruction
  | noSwitchTable _ => .missingSwitchPayload
  | tryStart .. | tryEnd .. | emptyTry _ => .tryRegionOutOfBounds
  | handler .. => .handlerOutOfBounds

/-- The words for a position past the end of the code. -/
def pastEnd (what : String) (address size : Nat) : String :=
  what ++ " offset " ++ Text.decimal address ++ " is past the end of the code block of size "
    ++ Text.decimal size

/-- The words for a fault. -/
def message : Fault → String
  | typeDescriptor s => "Invalid type descriptor " ++ s
  | methodDescriptor s => "Invalid method descriptor " ++ s
  | tooManyParameters m => "Parameters of " ++ m ++ " need more than 65535 registers"
  | noCodeUnits i o =>
    "Instruction " ++ Text.decimal i ++ " (" ++ o.mnemonic ++ ") has no code units"
  | codeTooLong i =>
    "Instruction " ++ Text.decimal i ++ " extends past the addressable code range"
  | noIndex i => "No instruction at index " ++ Text.decimal i
  | noStart a => "No instruction at offset " ++ Text.marked a
  | noFloor a => "No instruction at or before offset " ++ Text.marked a
  | noCodeOffset o a => o.mnemonic ++ " at " ++ Text.marked a ++ " has no code offset"
  | targetOutside a r =>
    "Branch at " ++ Text.marked a ++ " targets " ++ Text.decimalDisplacement r
      ++ " outside the code"
  | noSwitchTable t => "No switch payload at offset " ++ Text.markedWord t
  | scatteredRange o a rs =>
    o.mnemonic ++ " at " ++ Text.marked a ++ " has non-consecutive registers ["
      ++ ", ".intercalate (rs.map fun r => Text.decimal r.toNat) ++ "]"
  | tryStart a n => pastEnd "Try start" a n
  | tryEnd a n => pastEnd "Try end" a n
  | emptyTry a => "Empty try block at offset " ++ Text.decimal a ++ " has no preceding instruction"
  | handler a n => pastEnd "Exception handler" a n

end Fault

/-- A fault in a method. -/
structure Failure where
  /-- What was found. -/
  fault : Fault
  /-- The method it was found in, by its full name. -/
  method : String
deriving DecidableEq, Repr

namespace Failure

/-- The words for the place. -/
def context (f : Failure) : String := "method " ++ f.method

/-- The words for a failure. -/
def message (f : Failure) : String := f.fault.message ++ " for " ++ f.context

end Failure

end Dalvik
