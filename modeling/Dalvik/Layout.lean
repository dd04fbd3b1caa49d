import Dalvik.Fault

/-!
# Layout

Where the instructions of a method lie. They are placed one after another from address zero, so
the address of an instruction is the number of code units before it, and the spans of the
instructions cover the code without gap or overlap. An instruction is found by its index, by its
address, or by any address of its span.
-/

namespace Dalvik

/-- How many code addresses there are. -/
def addressLimit : Nat := UInt32.size

/-- An instruction at its place. -/
structure Placed where
  /-- The number of the instruction in its method. -/
  index : Nat
  /-- The address of its first code unit. -/
  address : Nat
  /-- The instruction. -/
  instruction : Instruction
deriving DecidableEq, Repr

namespace Placed

/-- The opcode of the instruction. -/
def opcode (p : Placed) : Opcode := p.instruction.opcode

/-- The address after its last code unit. -/
def stop (p : Placed) : Nat := p.address + p.instruction.codeUnits.toNat

/-- Whether an address lies in the span of the instruction. -/
def covers (p : Placed) (x : Nat) : Bool := p.address ≤ x && x < p.stop

end Placed

/-- The instructions of a method at their places. -/
structure Layout where
  /-- The placed instructions, in order. -/
  placed : List Placed
deriving DecidableEq, Repr

namespace Layout

/-- Places instructions from `address` on, the first as number `index`. An instruction must have
a code unit and end within the address space. -/
def place (index address : Nat) : List Instruction → Except Fault (List Placed)
  | [] => .ok []
  | i :: is =>
    let p : Placed := ⟨index, address, i⟩
    if i.codeUnits = 0 then .error (.noCodeUnits index i.opcode)
    else if addressLimit ≤ p.stop then .error (.codeTooLong index)
    else (place (index + 1) p.stop is).map (p :: ·)

/-- Places the instructions of a method. -/
def ofInstructions (is : List Instruction) : Except Fault Layout :=
  (place 0 0 is).map Layout.mk

/-- How many instructions there are. -/
def length (l : Layout) : Nat := l.placed.length

/-- How many code units there are. -/
def size (l : Layout) : Nat :=
  match l.placed.getLast? with
  | some p => p.stop
  | none => 0

/-- The instruction of a number. -/
def get (l : Layout) (index : Nat) : Except Fault Placed :=
  match l.placed[index]? with
  | some p => .ok p
  | none => .error (.noIndex index)

/-- The instruction that starts at an address. -/
def startingAt (l : Layout) (x : Nat) : Except Fault Placed :=
  match l.placed.find? (·.address == x) with
  | some p => .ok p
  | none => .error (.noStart x)

/-- The instruction whose span has an address; past the code, the last instruction. -/
def floor (l : Layout) (x : Nat) : Except Fault Placed :=
  match l.placed.find? (·.covers x), l.placed.getLast? with
  | some p, _ => .ok p
  | none, some p => if p.stop ≤ x then .ok p else .error (.noFloor x)
  | none, none => .error (.noFloor x)

end Layout

end Dalvik
