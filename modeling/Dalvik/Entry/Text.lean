import Dalvik.Entry
import Dalvik.Label.Table
import Dalvik.RegisterNames
import Dalvik.Text.Escape
import Dalvik.Text.Writer

/-!
# Entry — Text

The text of entries. An instruction is its mnemonic and its operands: registers, literal,
reference, target. A table is a block with a line for each element. Every entry is written
without a line end; an entry that has no text at all writes none either.
-/

namespace Dalvik

/-- What the text of an entry depends on. -/
structure Scope where
  /-- The instructions of the method. -/
  instructions : List Instruction
  /-- The labels of the method. -/
  labels : LabelTable
  /-- The names of its registers. -/
  registers : RegisterNames
deriving DecidableEq, Repr

/-- The line of an instruction with its target. -/
def Instruction.line (names : RegisterNames) (labels : LabelTable) (target : Option LabelId)
    (i : Instruction) : String :=
  let format := i.opcode.format
  let registers :=
    if format.isRegisterList then [names.list i.registers]
    else if format.isRegisterRange then [names.range i.registers]
    else i.registers.map names.name
  let literalEnd := if i.opcode.hasWideLiteral then "L" else ""
  let operands :=
    registers ++ (i.literal.map fun v => Text.literal v.toInt ++ literalEnd).toList
      ++ i.reference.toList ++ (target.map labels.name).toList
  i.opcode.mnemonic ++ (if operands.isEmpty then "" else " " ++ ", ".intercalate operands)

namespace Payload

/-- An array element: its low bytes as a signed number, with the mark of its width. A width
that no array type has shows the element as it is. -/
def elementText (width : UInt16) (v : Int64) : String :=
  if width = 1 then Text.literal (v.toInt.bmod UInt8.size) ++ "t"
  else if width = 2 then Text.literal (v.toInt.bmod UInt16.size) ++ "s"
  else if width = 4 then Text.literal (v.toInt.bmod UInt32.size)
  else if width = 8 then Text.literal v.toInt ++ "L"
  else Text.literal v.toInt

/-- The block of a table: an opening line, the lines of the elements, and a closing line
without its end. -/
def block (opening : String) (lines : List String) (closing : String) : String :=
  opening ++ "\n" ++ Text.indent 4 (String.join (lines.map (· ++ "\n"))) ++ closing

/-- The lines of a packed table: the labels of the cases, else the displacements as comments. -/
def packedLines (labels : LabelTable) (targets : List Int32) : Option (List LabelId) → List String
  | some cases => cases.map labels.name
  | none => targets.map fun t => "# " ++ Text.displacement t.toInt

/-- The line of a case of a sparse table: its label, else its displacement as a comment. -/
def sparseLine (labels : LabelTable) (e : SparseCase) : Option LabelId → String
  | some id => Text.literal e.key.toInt ++ " -> " ++ labels.name id
  | none => "# " ++ Text.literal e.key.toInt ++ " -> " ++ Text.displacement e.target.toInt

/-- The lines of a sparse table: the cases take the labels in order, as long as there are
some. -/
def sparseLines (labels : LabelTable) : List SparseCase → List LabelId → List String
  | [], _ => []
  | e :: es, [] => sparseLine labels e none :: sparseLines labels es []
  | e :: es, id :: ids => sparseLine labels e (some id) :: sparseLines labels es ids

/-- The block of a table. Cases are given if a switch uses the table. -/
def text (labels : LabelTable) (cases : Option (List LabelId)) : Payload → String
  | packedSwitch firstKey targets =>
    block (".packed-switch " ++ Text.literal firstKey.toInt) (packedLines labels targets cases)
      ".end packed-switch"
  | sparseSwitch entries =>
    block ".sparse-switch" (sparseLines labels entries (cases.getD [])) ".end sparse-switch"
  | arrayData width elements =>
    block (".array-data " ++ Text.decimal width.toNat) (elements.map (elementText width))
      ".end array-data"

end Payload

/-- The directive of a debug event. A source file without a name has none. -/
def DebugEvent.text? (names : RegisterNames) : DebugEvent → Option String
  | line number => some (".line " ++ Text.decimal number.toNat)
  | startLocal register name type signature =>
    let shown := (name.map Text.quoted).getD "null"
    let signed := (signature.map fun s => ", " ++ Text.quoted s).getD ""
    some (".local " ++ names.name register ++ ", " ++ shown ++ ":" ++ type.getD "V" ++ signed)
  | endLocal register => some (".end local " ++ names.name register)
  | restartLocal register => some (".restart local " ++ names.name register)
  | prologueEnd => some ".prologue"
  | epilogueBegin => some ".epilogue"
  | sourceFile name => name.map fun file => ".source " ++ Text.quoted file

/-- The directive of a handler. -/
def ExceptionEntry.text (labels : LabelTable) (e : ExceptionEntry) : String :=
  (match e.exceptionType with
    | some type => ".catch " ++ type
    | none => ".catchall")
    ++ " \x7b" ++ labels.name e.tryStart ++ " .. " ++ labels.name e.tryEnd ++ "\x7d "
    ++ labels.name e.handler

/-- The text of an instruction, if there is one of its number: the block of its table, else its
line. -/
def InstructionEntry.text? (s : Scope) (e : InstructionEntry) : Option String :=
  s.instructions[e.index]?.map fun i =>
    match i.payload with
    | some table => table.text s.labels e.cases
    | none => i.line s.registers s.labels e.target

/-- The text of an entry, if it has one. -/
def Entry.text? (s : Scope) (e : Entry) : Option String :=
  match e.content with
  | .offsetComment => some ("#@" ++ Text.hex e.address)
  | .label id => some (s.labels.name id)
  | .exception x => some (x.text s.labels)
  | .instruction x => x.text? s
  | .blank => some ""
  | .debug event => event.text? s.registers

/-- Writes an entry and, if it has a text, its line end. -/
def Entry.write (s : Scope) (w : Text.Writer) (e : Entry) : Text.Writer :=
  match e.text? s with
  | some text => (w.write text).put '\n'
  | none => w

/-- The lines of entries: each text has its line end. -/
def Entry.lines (s : Scope) (es : List Entry) : String :=
  String.join ((es.filterMap (·.text? s)).map (· ++ "\n"))

end Dalvik
