import Dalvik.Layout

/-!
# Switch

Switch instructions and their tables. A switch points at its table, or at a nop directly before
it that aligns the table. The cases of a table are displacements from the switch; where several
switches share a table, from the first of them.
-/

namespace Dalvik

/-- A switch instruction and where its table is. -/
structure Switch where
  /-- Which of the two switches it is. -/
  kind : SwitchKind
  /-- The address of the switch instruction. -/
  address : Nat
  /-- The address of its table. -/
  table : Nat
deriving DecidableEq, Repr

namespace Switch

/-- The table that starts at an address, possibly behind one nop. -/
def tableAt? (l : Layout) (payload : Opcode) (x : Nat) : Option Nat :=
  match l.startingAt x with
  | .error _ => none
  | .ok p =>
    if p.opcode = payload then some p.address
    else if p.opcode = .nop then
      match l.get (p.index + 1) with
      | .error _ => none
      | .ok q => if q.opcode = payload then some q.address else none
    else none

/-- The table that a target names. -/
def findTable (l : Layout) (payload : Opcode) (target : Int) : Except Fault Nat :=
  let found :=
    match target with
    | .ofNat x => tableAt? l payload x
    | .negSucc _ => none
  match found with
  | some table => .ok table
  | none => .error (.noSwitchTable target)

/-- Finds the table of an instruction that is a switch. -/
def ofPlaced? (l : Layout) (p : Placed) : Except Fault (Option Switch) :=
  match p.opcode.switchKind?, p.instruction.codeOffset with
  | none, _ => .ok none
  | some _, none => .error (.noCodeOffset p.opcode p.address)
  | some kind, some relative =>
    (findTable l kind.payload (p.address + relative.toInt)).map fun table =>
      some ⟨kind, p.address, table⟩

/-- The switches of a method, by address. -/
def ofLayout (l : Layout) : Except Fault (List Switch) := do
  return (← l.placed.mapM (ofPlaced? l)).reduceOption

/-- The address that the cases of a table are relative to: its first switch. -/
def base? (switches : List Switch) (kind : SwitchKind) (table : Nat) : Option Nat :=
  (switches.find? fun s => s.kind == kind && s.table == table).map (·.address)

/-- The table of the switch at an address. -/
def table? (switches : List Switch) (address : Nat) : Option Nat :=
  (switches.find? (·.address == address)).map (·.table)

end Switch

end Dalvik
