import Dalvik.Entry.Handle
import Dalvik.Method
import Dalvik.Options
import Dalvik.RegisterNames
import Dalvik.Switch

/-!
# Body

The body of a method: its code with the layout, the register names and the switches that a
listing needs. `Body.build` refuses code that cannot be laid out or whose switches have no
tables. `Body.listing` collects the entries of the body and the labels they use; it refuses
branches, exception regions and handlers that have no place in the code. The entries hold handles
of their labels until all labels are there (`Body.draft`).
-/

namespace Dalvik

/-- A method with its code, ready to be listed. -/
structure Body where
  /-- The method. -/
  method : Method
  /-- Its code. -/
  code : Code
  /-- The choices of the listing. -/
  options : Options
  /-- Where the instructions lie. -/
  layout : Layout
  /-- The names of the registers. -/
  registers : RegisterNames
  /-- The switches and their tables. -/
  switches : List Switch

/-- The entries of a body in the order of a listing, and their labels. -/
structure Listing where
  /-- The entries. -/
  entries : List Entry
  /-- The labels. -/
  labels : LabelTable
deriving DecidableEq, Repr

/-- The address at a displacement from an instruction. It must be in the address space, but need
not be the address of an instruction. -/
def branchTarget (address : Nat) (relative : Int32) : Except Fault Nat :=
  let target := (address : Int) + relative.toInt
  if 0 ≤ target ∧ target < addressLimit then .ok target.toNat
  else .error (.targetOutside address relative.toInt)

namespace Body

/-- Lays the code of a method out. -/
def ofCode (m : Method) (c : Code) (o : Options) : Except Fault Body := do
  let layout ← Layout.ofInstructions c.instructions
  let parameterCount ← m.parameterRegisters
  let switches ← Switch.ofLayout layout
  return {
    method := m
    code := c
    options := o
    layout := layout
    registers := ⟨c.registerCount.toNat, parameterCount, o.parameterNames⟩
    switches := switches }

/-- Lays the code of a method out; a fault is put down to the method. -/
def build (m : Method) (c : Code) (o : Options) : Except Failure Body :=
  (ofCode m c o).mapError m.blame

/-- The address that the cases of a table are relative to. -/
def switchBase? (b : Body) (kind : SwitchKind) (table : Nat) : Option Nat :=
  Switch.base? b.switches kind table

/-- The label at the target of an instruction: the table of a switch, else what its displacement
leads to. -/
def target? (b : Body) (p : Placed) : Except Fault (Option LabelId) :=
  match p.opcode.targetKind?, p.instruction.codeOffset with
  | none, _ => .ok none
  | some _, none => .error (.noCodeOffset p.opcode p.address)
  | some kind, some relative =>
    match Switch.table? b.switches p.address with
    | some table => .ok (some ⟨kind, table⟩)
    | none => (branchTarget p.address relative).map fun target => some ⟨kind, target⟩

/-- The labels of the cases of a table at `table`, if a switch uses it. -/
def caseLabels? (b : Body) (kind : SwitchKind) (table : Nat) (targets : List Int32) :
    Except Fault (Option (List LabelId)) :=
  match b.switchBase? kind table with
  | none => .ok none
  | some base =>
    (targets.mapM (branchTarget base)).map fun addresses =>
      some (addresses.map fun a => ⟨kind.caseLabel, a⟩)

/-- The labels of the cases of an instruction that carries a switch table. -/
def cases? (b : Body) (p : Placed) : Except Fault (Option (List LabelId)) :=
  match p.instruction.payload with
  | some (.packedSwitch _ targets) => b.caseLabels? .packed p.address targets
  | some (.sparseSwitch entries) => b.caseLabels? .sparse p.address (entries.map (·.target))
  | _ => .ok none

/-- Refuses a register range that is none. -/
def checkRange (p : Placed) : Except Fault Unit :=
  if p.opcode.format.isRegisterRange && !RegisterNames.consecutive p.instruction.registers then
    .error (.scatteredRange p.opcode p.address p.instruction.registers)
  else .ok ()

/-- The entries of an instruction: itself, a blank line unless it is the last, and its offset
comment. -/
def instructionEntries (b : Body) (p : Placed) : Except Fault (List Entry) := do
  checkRange p
  let target ← b.target? p
  let cases ← b.cases? p
  let own : Entry := ⟨p.address, .instruction ⟨p.index, target, cases⟩⟩
  let blank : List Entry :=
    if p.index + 1 = b.code.instructions.length then [] else [⟨p.address, .blank⟩]
  let comment : List Entry :=
    if b.options.offsetComments then [⟨p.address, .offsetComment⟩] else []
  return own :: (blank ++ comment)

/-- The address of the directives of a region: its last covered instruction. The region may end
within an instruction; an empty region takes the instruction before it. -/
def anchor (l : Layout) (t : TryBlock) : Except Fault Nat :=
  if l.size ≤ t.start.toNat then .error (.tryStart t.start.toNat l.size)
  else if l.size < t.stop then .error (.tryEnd t.stop l.size)
  else if t.stop = 0 then .error (.emptyTry t.start.toNat)
  else (l.floor (t.stop - 1)).map (·.address)

/-- The entry of a handler of a region, at the address `anchor`. -/
def handlerEntry (l : Layout) (t : TryBlock) (anchor : Nat) (h : Handler) : Except Fault Entry :=
  if l.size ≤ h.address.toNat then .error (.handler h.address.toNat l.size)
  else
    .ok ⟨anchor, .exception
      (.ofRegion h.exceptionType t.start.toNat t.stop h.address.toNat)⟩

/-- The entries of an exception region, one for each handler. -/
def tryEntries (l : Layout) (t : TryBlock) : Except Fault (List Entry) := do
  let address ← anchor l t
  t.handlers.mapM (handlerEntry l t address)

/-- The entries of the debug records, if they are wanted. -/
def debugEntries (b : Body) : List Entry :=
  if b.options.debugInfo then b.code.debugRecords.map Entry.ofDebugRecord else []

/-- The entries of a body without its labels, as they are collected: instructions, exception
regions, debug records. -/
def issueEntries (b : Body) : Drafting (List (Entry Nat)) := do
  let instructions ← Entry.issueEach b.instructionEntries b.layout.placed
  let regions ← Entry.issueEach (tryEntries b.layout) b.code.tryBlocks
  let debug ← b.debugEntries.mapM Entry.issue
  return instructions ++ regions ++ debug

/-- The labels of a body, numbered if that is wanted. -/
def finish (b : Body) (labels : LabelTable) : LabelTable :=
  if b.options.sequentialLabels then labels.number else labels

/-- The entries of a body with an entry for each label, arranged, and the labels. -/
def draft (b : Body) : Except Fault (List (Entry Nat) × LabelTable) := do
  let (es, labels) ← b.issueEntries.run .empty
  let labels := b.finish labels
  return (Entry.arrange (es ++ labels.sortedPositions.filterMap (Entry.ofHandle? labels)), labels)

/-- The entries of a body and its labels, with the identities of labels in the place of their
handles. -/
def gather (b : Body) : Except Fault Listing :=
  b.draft.map fun d => ⟨d.1.filterMap (Entry.resolve? d.2), d.2⟩

/-- The listing of a body; a fault is put down to the method. -/
def listing (b : Body) : Except Failure Listing := b.gather.mapError b.method.blame

end Body

end Dalvik
