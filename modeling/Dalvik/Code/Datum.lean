import Dalvik.Code
import Dalvik.Datum
import Dalvik.Options

/-!
# Code — Datum

The stored form of code and options. Every field is stored, also one that is empty; when read, an
operand, an exception region, a debug record or an option may be missing.
-/

namespace Dalvik

instance : Codec Opcode where
  encode o := .text o.mnemonic
  decode
    | .text s =>
      match Opcode.ofMnemonic? s with
      | some o => .ok o
      | none => .error (.unknownOpcode s)
    | _ => .error .malformed

instance : Codec SparseCase where
  encode c := .list [encode c.key, encode c.target]
  decode
    | .list [key, target] => do return ⟨← decode key, ← decode target⟩
    | _ => .error .malformed

instance : Codec Payload where
  encode
    | .packedSwitch firstKey targets =>
      .variant "PackedSwitch"
        (.record [("first_key", encode firstKey), ("targets", encode targets)])
    | .sparseSwitch entries =>
      .variant "SparseSwitch" (.record [("entries", encode entries)])
    | .arrayData width elements =>
      .variant "ArrayData"
        (.record [("element_width", encode width), ("elements", encode elements)])
  decode d := do
    match ← d.variant? with
    | ("PackedSwitch", some content) =>
      let fs ← content.namedFields
      return .packedSwitch (← fs.required "first_key") (← fs.required "targets")
    | ("SparseSwitch", some content) =>
      let fs ← content.namedFields
      return .sparseSwitch (← fs.required "entries")
    | ("ArrayData", some content) =>
      let fs ← content.namedFields
      return .arrayData (← fs.required "element_width") (← fs.required "elements")
    | _ => .error .malformed

instance : Codec Instruction where
  encode i := .record [
    ("opcode", encode i.opcode),
    ("code_units", encode i.codeUnits),
    ("registers", encode i.registers),
    ("literal", encode i.literal),
    ("reference", encode i.reference),
    ("code_offset", encode i.codeOffset),
    ("payload", encode i.payload)]
  decode d := do
    let fs ← d.fields
      ["opcode", "code_units", "registers", "literal", "reference", "code_offset", "payload"]
    return {
      opcode := ← fs.required "opcode"
      codeUnits := ← fs.required "code_units"
      registers := ← fs.withDefault "registers" []
      literal := ← fs.withDefault "literal" none
      reference := ← fs.withDefault "reference" none
      codeOffset := ← fs.withDefault "code_offset" none
      payload := ← fs.withDefault "payload" none }

instance : Codec Handler where
  encode h := .record [
    ("exception_type", encode h.exceptionType),
    ("handler_code_offset", encode h.address)]
  decode d := do
    let fs ← d.fields ["exception_type", "handler_code_offset"]
    return {
      exceptionType := ← fs.optional "exception_type"
      address := ← fs.required "handler_code_offset" }

instance : Codec TryBlock where
  encode t := .record [
    ("start_code_offset", encode t.start),
    ("code_unit_count", encode t.count),
    ("handlers", encode t.handlers)]
  decode d := do
    let fs ← d.fields ["start_code_offset", "code_unit_count", "handlers"]
    return {
      start := ← fs.required "start_code_offset"
      count := ← fs.required "code_unit_count"
      handlers := ← fs.required "handlers" }

/-- The fields of a variable that begins. -/
def DebugEvent.readStartLocal (fs : Fields) : Except DatumFault DebugEvent := do
  return .startLocal (← fs.required "register") (← fs.optional "name") (← fs.optional "type_desc")
    (← fs.optional "signature")

/-- The name of a variant that carries nothing. -/
def DebugEvent.readMark : String → Except DatumFault DebugEvent
  | "PrologueEnd" => .ok .prologueEnd
  | "EpilogueBegin" => .ok .epilogueBegin
  | _ => .error .malformed

instance : Codec DebugEvent where
  encode
    | .line number => .variant "LineNumber" (encode number)
    | .startLocal register name type signature =>
      .variant "StartLocal" (.record [
        ("register", encode register),
        ("name", encode name),
        ("type_desc", encode type),
        ("signature", encode signature)])
    | .endLocal register => .variant "EndLocal" (.record [("register", encode register)])
    | .restartLocal register => .variant "RestartLocal" (.record [("register", encode register)])
    | .prologueEnd => .text "PrologueEnd"
    | .epilogueBegin => .text "EpilogueBegin"
    | .sourceFile name => .variant "SetSourceFile" (encode name)
  decode d := do
    match ← d.variant? with
    | ("LineNumber", some content) => return .line (← decode content)
    | ("StartLocal", some content) => DebugEvent.readStartLocal (← content.namedFields)
    | ("EndLocal", some content) => return .endLocal (← (← content.namedFields).required "register")
    | ("RestartLocal", some content) =>
      return .restartLocal (← (← content.namedFields).required "register")
    | ("SetSourceFile", some content) => return .sourceFile (← decode content)
    | (name, none) | (name, some .null) => DebugEvent.readMark name
    | _ => .error .malformed

instance : Codec DebugRecord where
  encode r := .record [("code_address", encode r.address), ("kind", encode r.event)]
  decode d := do
    let fs ← d.fields ["code_address", "kind"]
    return { address := ← fs.required "code_address", event := ← fs.required "kind" }

instance : Codec Code where
  encode c := .record [
    ("register_count", encode c.registerCount),
    ("instructions", encode c.instructions),
    ("try_blocks", encode c.tryBlocks),
    ("debug_items", encode c.debugRecords)]
  decode d := do
    let fs ← d.fields ["register_count", "instructions", "try_blocks", "debug_items"]
    return {
      registerCount := ← fs.required "register_count"
      instructions := ← fs.required "instructions"
      tryBlocks := ← fs.withDefault "try_blocks" []
      debugRecords := ← fs.withDefault "debug_items" [] }

instance : Codec Options where
  encode o := .record [
    ("emit-locals-directive", encode o.localsDirective),
    ("emit-debug-info", encode o.debugInfo),
    ("sequential-labels", encode o.sequentialLabels),
    ("emit-code-offset-comments", encode o.offsetComments),
    ("parameter-registers", encode o.parameterNames)]
  decode d := do
    let fs ← d.fields
      ["emit-locals-directive", "emit-debug-info", "sequential-labels",
        "emit-code-offset-comments", "parameter-registers"]
    let usual : Options := {}
    return {
      localsDirective := ← fs.withDefault "emit-locals-directive" usual.localsDirective
      debugInfo := ← fs.withDefault "emit-debug-info" usual.debugInfo
      sequentialLabels := ← fs.withDefault "sequential-labels" usual.sequentialLabels
      offsetComments := ← fs.withDefault "emit-code-offset-comments" usual.offsetComments
      parameterNames := ← fs.withDefault "parameter-registers" usual.parameterNames }

end Dalvik
