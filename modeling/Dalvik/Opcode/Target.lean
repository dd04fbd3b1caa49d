import Dalvik.Label
import Dalvik.Opcode

/-!
# Opcode — Target

What an opcode refers to: the kind of label at its target, and for the two switches the table
they need.
-/

namespace Dalvik

/-- The two switches. -/
inductive SwitchKind where
  | packed
  | sparse
deriving DecidableEq, Repr

namespace SwitchKind

/-- The opcode of the table. -/
def payload : SwitchKind → Opcode
  | packed => .packedSwitchPayload
  | sparse => .sparseSwitchPayload

/-- The kind of label at the table. -/
def tableLabel : SwitchKind → LabelKind
  | packed => .packedTable
  | sparse => .sparseTable

/-- The kind of label at a case. -/
def caseLabel : SwitchKind → LabelKind
  | packed => .packedCase
  | sparse => .sparseCase

end SwitchKind

namespace Opcode

/-- The switch an opcode is. -/
def switchKind? : Opcode → Option SwitchKind
  | packedSwitch => some .packed
  | sparseSwitch => some .sparse
  | _ => none

/-- The payload pseudo-instructions. -/
def isPayload (o : Opcode) : Bool := o.format.isPayload

/-- The kind of label at the target of an opcode. -/
def targetKind? (o : Opcode) : Option LabelKind :=
  match o with
  | goto | goto16 | goto32 => some .goto
  | packedSwitch => some .packedTable
  | sparseSwitch => some .sparseTable
  | fillArrayData => some .arrayData
  | _ => if o.format = .f21t ∨ o.format = .f22t then some .cond else none

/-- The opcodes that load a literal into a register pair. -/
def hasWideLiteral : Opcode → Bool
  | constWide16 | constWide32 | constWide | constWideHigh16 => true
  | _ => false

end Opcode

end Dalvik
