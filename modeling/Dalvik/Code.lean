import Dalvik.Instruction

/-!
# Code

The code of a method: instructions, exception regions and debug records. All positions are code
addresses in 16-bit code units.
-/

namespace Dalvik

/-- A handler of an exception region. -/
structure Handler where
  /-- The type it catches; every exception without one. -/
  exceptionType : Option String
  /-- Where it starts. -/
  address : UInt32
deriving DecidableEq, Repr

/-- An exception region. -/
structure TryBlock where
  /-- The first address covered. -/
  start : UInt32
  /-- How many code units are covered. -/
  count : UInt32
  /-- The handlers, first match first. -/
  handlers : List Handler
deriving DecidableEq, Repr

/-- The first address after an exception region. -/
def TryBlock.stop (t : TryBlock) : Nat := t.start.toNat + t.count.toNat

/-- An event of the debug information. -/
inductive DebugEvent where
  /-- A source line begins. -/
  | line (number : UInt32)
  /-- A local variable begins to live in a register. -/
  | startLocal (register : Register) (name type signature : Option String)
  /-- The variable of a register ends. -/
  | endLocal (register : Register)
  /-- The last variable of a register lives again. -/
  | restartLocal (register : Register)
  /-- The method prologue has ended. -/
  | prologueEnd
  /-- The method epilogue begins. -/
  | epilogueBegin
  /-- The source file changes. -/
  | sourceFile (name : Option String)
deriving DecidableEq, Repr

/-- A debug event at a code address. -/
structure DebugRecord where
  /-- Where the event takes effect. -/
  address : UInt32
  /-- What happens. -/
  event : DebugEvent
deriving DecidableEq, Repr

/-- The code of a method. -/
structure Code where
  /-- How many registers the method uses. -/
  registerCount : UInt16
  /-- The instructions, in the order of their addresses. -/
  instructions : List Instruction
  /-- The exception regions. -/
  tryBlocks : List TryBlock
  /-- The debug records. -/
  debugRecords : List DebugRecord
deriving DecidableEq, Repr

end Dalvik
