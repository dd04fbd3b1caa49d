import Dalvik.Opcode.Format

/-!
# Opcode

The instruction set. Each opcode has a value, a mnemonic and a format, all given by one table
(`Opcode.info`); an opcode is found by mnemonic or by value through a search in that table. The
three payload pseudo-instructions stand at the end and have 16-bit values.
-/

namespace Dalvik

/-- An opcode of the instruction set, in the order of the values. -/
inductive Opcode where
  | nop | move | moveFrom16 | move16 | moveWide | moveWideFrom16 | moveWide16 | moveObject
  | moveObjectFrom16 | moveObject16 | moveResult | moveResultWide | moveResultObject
  | moveException | returnVoid | returnValue | returnWide | returnObject | const4 | const16
  | const | constHigh16 | constWide16 | constWide32 | constWide | constWideHigh16 | constString
  | constStringJumbo | constClass | monitorEnter | monitorExit | checkCast | instanceOf
  | arrayLength | newInstance | newArray | filledNewArray | filledNewArrayRange | fillArrayData
  | throw | goto | goto16 | goto32 | packedSwitch | sparseSwitch | cmplFloat | cmpgFloat
  | cmplDouble | cmpgDouble | cmpLong | ifEq | ifNe | ifLt | ifGe | ifGt | ifLe | ifEqz | ifNez
  | ifLtz | ifGez | ifGtz | ifLez | aget | agetWide | agetObject | agetBoolean | agetByte
  | agetChar | agetShort | aput | aputWide | aputObject | aputBoolean | aputByte | aputChar
  | aputShort | iget | igetWide | igetObject | igetBoolean | igetByte | igetChar | igetShort
  | iput | iputWide | iputObject | iputBoolean | iputByte | iputChar | iputShort | sget
  | sgetWide | sgetObject | sgetBoolean | sgetByte | sgetChar | sgetShort | sput | sputWide
  | sputObject | sputBoolean | sputByte | sputChar | sputShort | invokeVirtual | invokeSuper
  | invokeDirect | invokeStatic | invokeInterface | invokeVirtualRange | invokeSuperRange
  | invokeDirectRange | invokeStaticRange | invokeInterfaceRange | negInt | notInt | negLong
  | notLong | negFloat | negDouble | intToLong | intToFloat | intToDouble | longToInt
  | longToFloat | longToDouble | floatToInt | floatToLong | floatToDouble | doubleToInt
  | doubleToLong | doubleToFloat | intToByte | intToChar | intToShort | addInt | subInt | mulInt
  | divInt | remInt | andInt | orInt | xorInt | shlInt | shrInt | ushrInt | addLong | subLong
  | mulLong | divLong | remLong | andLong | orLong | xorLong | shlLong | shrLong | ushrLong
  | addFloat | subFloat | mulFloat | divFloat | remFloat | addDouble | subDouble | mulDouble
  | divDouble | remDouble | addInt2Addr | subInt2Addr | mulInt2Addr | divInt2Addr | remInt2Addr
  | andInt2Addr | orInt2Addr | xorInt2Addr | shlInt2Addr | shrInt2Addr | ushrInt2Addr
  | addLong2Addr | subLong2Addr | mulLong2Addr | divLong2Addr | remLong2Addr | andLong2Addr
  | orLong2Addr | xorLong2Addr | shlLong2Addr | shrLong2Addr | ushrLong2Addr | addFloat2Addr
  | subFloat2Addr | mulFloat2Addr | divFloat2Addr | remFloat2Addr | addDouble2Addr
  | subDouble2Addr | mulDouble2Addr | divDouble2Addr | remDouble2Addr | addIntLit16 | rsubInt
  | mulIntLit16 | divIntLit16 | remIntLit16 | andIntLit16 | orIntLit16 | xorIntLit16
  | addIntLit8 | rsubIntLit8 | mulIntLit8 | divIntLit8 | remIntLit8 | andIntLit8 | orIntLit8
  | xorIntLit8 | shlIntLit8 | shrIntLit8 | ushrIntLit8 | invokePolymorphic
  | invokePolymorphicRange | invokeCustom | invokeCustomRange | constMethodHandle
  | constMethodType | packedSwitchPayload | sparseSwitchPayload | arrayPayload
deriving DecidableEq, Repr

/-- What the instruction set says of an opcode. -/
structure OpcodeInfo where
  /-- The encoded value. -/
  value : Nat
  /-- The name in a listing. -/
  mnemonic : String
  /-- The encoding. -/
  format : Format
deriving DecidableEq, Repr

namespace Opcode

/-- The table of the instruction set. -/
def info : Opcode → OpcodeInfo
  | .nop => ⟨0x00, "nop", .f10x⟩
  | .move => ⟨0x01, "move", .f12x⟩
  | .moveFrom16 => ⟨0x02, "move/from16", .f22x⟩
  | .move16 => ⟨0x03, "move/16", .f32x⟩
  | .moveWide => ⟨0x04, "move-wide", .f12x⟩
  | .moveWideFrom16 => ⟨0x05, "move-wide/from16", .f22x⟩
  | .moveWide16 => ⟨0x06, "move-wide/16", .f32x⟩
  | .moveObject => ⟨0x07, "move-object", .f12x⟩
  | .moveObjectFrom16 => ⟨0x08, "move-object/from16", .f22x⟩
  | .moveObject16 => ⟨0x09, "move-object/16", .f32x⟩
  | .moveResult => ⟨0x0a, "move-result", .f11x⟩
  | .moveResultWide => ⟨0x0b, "move-result-wide", .f11x⟩
  | .moveResultObject => ⟨0x0c, "move-result-object", .f11x⟩
  | .moveException => ⟨0x0d, "move-exception", .f11x⟩
  | .returnVoid => ⟨0x0e, "return-void", .f10x⟩
  | .returnValue => ⟨0x0f, "return", .f11x⟩
  | .returnWide => ⟨0x10, "return-wide", .f11x⟩
  | .returnObject => ⟨0x11, "return-object", .f11x⟩
  | .const4 => ⟨0x12, "const/4", .f11n⟩
  | .const16 => ⟨0x13, "const/16", .f21s⟩
  | .const => ⟨0x14, "const", .f31i⟩
  | .constHigh16 => ⟨0x15, "const/high16", .f21ih⟩
  | .constWide16 => ⟨0x16, "const-wide/16", .f21s⟩
  | .constWide32 => ⟨0x17, "const-wide/32", .f31i⟩
  | .constWide => ⟨0x18, "const-wide", .f51l⟩
  | .constWideHigh16 => ⟨0x19, "const-wide/high16", .f21lh⟩
  | .constString => ⟨0x1a, "const-string", .f21c⟩
  | .constStringJumbo => ⟨0x1b, "const-string/jumbo", .f31c⟩
  | .constClass => ⟨0x1c, "const-class", .f21c⟩
  | .monitorEnter => ⟨0x1d, "monitor-enter", .f11x⟩
  | .monitorExit => ⟨0x1e, "monitor-exit", .f11x⟩
  | .checkCast => ⟨0x1f, "check-cast", .f21c⟩
  | .instanceOf => ⟨0x20, "instance-of", .f22c⟩
  | .arrayLength => ⟨0x21, "array-length", .f12x⟩
  | .newInstance => ⟨0x22, "new-instance", .f21c⟩
  | .newArray => ⟨0x23, "new-array", .f22c⟩
  | .filledNewArray => ⟨0x24, "filled-new-array", .f35c⟩
  | .filledNewArrayRange => ⟨0x25, "filled-new-array/range", .f3rc⟩
  | .fillArrayData => ⟨0x26, "fill-array-data", .f31t⟩
  | .throw => ⟨0x27, "throw", .f11x⟩
  | .goto => ⟨0x28, "goto", .f10t⟩
  | .goto16 => ⟨0x29, "goto/16", .f20t⟩
  | .goto32 => ⟨0x2a, "goto/32", .f30t⟩
  | .packedSwitch => ⟨0x2b, "packed-switch", .f31t⟩
  | .sparseSwitch => ⟨0x2c, "sparse-switch", .f31t⟩
  | .cmplFloat => ⟨0x2d, "cmpl-float", .f23x⟩
  | .cmpgFloat => ⟨0x2e, "cmpg-float", .f23x⟩
  | .cmplDouble => ⟨0x2f, "cmpl-double", .f23x⟩
  | .cmpgDouble => ⟨0x30, "cmpg-double", .f23x⟩
  | .cmpLong => ⟨0x31, "cmp-long", .f23x⟩
  | .ifEq => ⟨0x32, "if-eq", .f22t⟩
  | .ifNe => ⟨0x33, "if-ne", .f22t⟩
  | .ifLt => ⟨0x34, "if-lt", .f22t⟩
  | .ifGe => ⟨0x35, "if-ge", .f22t⟩
  | .ifGt => ⟨0x36, "if-gt", .f22t⟩
  | .ifLe => ⟨0x37, "if-le", .f22t⟩
  | .ifEqz => ⟨0x38, "if-eqz", .f21t⟩
  | .ifNez => ⟨0x39, "if-nez", .f21t⟩
  | .ifLtz => ⟨0x3a, "if-ltz", .f21t⟩
  | .ifGez => ⟨0x3b, "if-gez", .f21t⟩
  | .ifGtz => ⟨0x3c, "if-gtz", .f21t⟩
  | .ifLez => ⟨0x3d, "if-lez", .f21t⟩
  | .aget => ⟨0x44, "aget", .f23x⟩
  | .agetWide => ⟨0x45, "aget-wide", .f23x⟩
  | .agetObject => ⟨0x46, "aget-object", .f23x⟩
  | .agetBoolean => ⟨0x47, "aget-boolean", .f23x⟩
  | .agetByte => ⟨0x48, "aget-byte", .f23x⟩
  | .agetChar => ⟨0x49, "aget-char", .f23x⟩
  | .agetShort => ⟨0x4a, "aget-short", .f23x⟩
  | .aput => ⟨0x4b, "aput", .f23x⟩
  | .aputWide => ⟨0x4c, "aput-wide", .f23x⟩
  | .aputObject => ⟨0x4d, "aput-object", .f23x⟩
  | .aputBoolean => ⟨0x4e, "aput-boolean", .f23x⟩
  | .aputByte => ⟨0x4f, "aput-byte", .f23x⟩
  | .aputChar => ⟨0x50, "aput-char", .f23x⟩
  | .aputShort => ⟨0x51, "aput-short", .f23x⟩
  | .iget => ⟨0x52, "iget", .f22c⟩
  | .igetWide => ⟨0x53, "iget-wide", .f22c⟩
  | .igetObject => ⟨0x54, "iget-object", .f22c⟩
  | .igetBoolean => ⟨0x55, "iget-boolean", .f22c⟩
  | .igetByte => ⟨0x56, "iget-byte", .f22c⟩
  | .igetChar => ⟨0x57, "iget-char", .f22c⟩
  | .igetShort => ⟨0x58, "iget-short", .f22c⟩
  | .iput => ⟨0x59, "iput", .f22c⟩
  | .iputWide => ⟨0x5a, "iput-wide", .f22c⟩
  | .iputObject => ⟨0x5b, "iput-object", .f22c⟩
  | .iputBoolean => ⟨0x5c, "iput-boolean", .f22c⟩
  | .iputByte => ⟨0x5d, "iput-byte", .f22c⟩
  | .iputChar => ⟨0x5e, "iput-char", .f22c⟩
  | .iputShort => ⟨0x5f, "iput-short", .f22c⟩
  | .sget => ⟨0x60, "sget", .f21c⟩
  | .sgetWide => ⟨0x61, "sget-wide", .f21c⟩
  | .sgetObject => ⟨0x62, "sget-object", .f21c⟩
  | .sgetBoolean => ⟨0x63, "sget-boolean", .f21c⟩
  | .sgetByte => ⟨0x64, "sget-byte", .f21c⟩
  | .sgetChar => ⟨0x65, "sget-char", .f21c⟩
  | .sgetShort => ⟨0x66, "sget-short", .f21c⟩
  | .sput => ⟨0x67, "sput", .f21c⟩
  | .sputWide => ⟨0x68, "sput-wide", .f21c⟩
  | .sputObject => ⟨0x69, "sput-object", .f21c⟩
  | .sputBoolean => ⟨0x6a, "sput-boolean", .f21c⟩
  | .sputByte => ⟨0x6b, "sput-byte", .f21c⟩
  | .sputChar => ⟨0x6c, "sput-char", .f21c⟩
  | .sputShort => ⟨0x6d, "sput-short", .f21c⟩
  | .invokeVirtual => ⟨0x6e, "invoke-virtual", .f35c⟩
  | .invokeSuper => ⟨0x6f, "invoke-super", .f35c⟩
  | .invokeDirect => ⟨0x70, "invoke-direct", .f35c⟩
  | .invokeStatic => ⟨0x71, "invoke-static", .f35c⟩
  | .invokeInterface => ⟨0x72, "invoke-interface", .f35c⟩
  | .invokeVirtualRange => ⟨0x74, "invoke-virtual/range", .f3rc⟩
  | .invokeSuperRange => ⟨0x75, "invoke-super/range", .f3rc⟩
  | .invokeDirectRange => ⟨0x76, "invoke-direct/range", .f3rc⟩
  | .invokeStaticRange => ⟨0x77, "invoke-static/range", .f3rc⟩
  | .invokeInterfaceRange => ⟨0x78, "invoke-interface/range", .f3rc⟩
  | .negInt => ⟨0x7b, "neg-int", .f12x⟩
  | .notInt => ⟨0x7c, "not-int", .f12x⟩
  | .negLong => ⟨0x7d, "neg-long", .f12x⟩
  | .notLong => ⟨0x7e, "not-long", .f12x⟩
  | .negFloat => ⟨0x7f, "neg-float", .f12x⟩
  | .negDouble => ⟨0x80, "neg-double", .f12x⟩
  | .intToLong => ⟨0x81, "int-to-long", .f12x⟩
  | .intToFloat => ⟨0x82, "int-to-float", .f12x⟩
  | .intToDouble => ⟨0x83, "int-to-double", .f12x⟩
  | .longToInt => ⟨0x84, "long-to-int", .f12x⟩
  | .longToFloat => ⟨0x85, "long-to-float", .f12x⟩
  | .longToDouble => ⟨0x86, "long-to-double", .f12x⟩
  | .floatToInt => ⟨0x87, "float-to-int", .f12x⟩
  | .floatToLong => ⟨0x88, "float-to-long", .f12x⟩
  | .floatToDouble => ⟨0x89, "float-to-double", .f12x⟩
  | .doubleToInt => ⟨0x8a, "double-to-int", .f12x⟩
  | .doubleToLong => ⟨0x8b, "double-to-long", .f12x⟩
  | .doubleToFloat => ⟨0x8c, "double-to-float", .f12x⟩
  | .intToByte => ⟨0x8d, "int-to-byte", .f12x⟩
  | .intToChar => ⟨0x8e, "int-to-char", .f12x⟩
  | .intToShort => ⟨0x8f, "int-to-short", .f12x⟩
  | .addInt => ⟨0x90, "add-int", .f23x⟩
  | .subInt => ⟨0x91, "sub-int", .f23x⟩
  | .mulInt => ⟨0x92, "mul-int", .f23x⟩
  | .divInt => ⟨0x93, "div-int", .f23x⟩
  | .remInt => ⟨0x94, "rem-int", .f23x⟩
  | .andInt => ⟨0x95, "and-int", .f23x⟩
  | .orInt => ⟨0x96, "or-int", .f23x⟩
  | .xorInt => ⟨0x97, "xor-int", .f23x⟩
  | .shlInt => ⟨0x98, "shl-int", .f23x⟩
  | .shrInt => ⟨0x99, "shr-int", .f23x⟩
  | .ushrInt => ⟨0x9a, "ushr-int", .f23x⟩
  | .addLong => ⟨0x9b, "add-long", .f23x⟩
  | .subLong => ⟨0x9c, "sub-long", .f23x⟩
  | .mulLong => ⟨0x9d, "mul-long", .f23x⟩
  | .divLong => ⟨0x9e, "div-long", .f23x⟩
  | .remLong => ⟨0x9f, "rem-long", .f23x⟩
  | .andLong => ⟨0xa0, "and-long", .f23x⟩
  | .orLong => ⟨0xa1, "or-long", .f23x⟩
  | .xorLong => ⟨0xa2, "xor-long", .f23x⟩
  | .shlLong => ⟨0xa3, "shl-long", .f23x⟩
  | .shrLong => ⟨0xa4, "shr-long", .f23x⟩
  | .ushrLong => ⟨0xa5, "ushr-long", .f23x⟩
  | .addFloat => ⟨0xa6, "add-float", .f23x⟩
  | .subFloat => ⟨0xa7, "sub-float", .f23x⟩
  | .mulFloat => ⟨0xa8, "mul-float", .f23x⟩
  | .divFloat => ⟨0xa9, "div-float", .f23x⟩
  | .remFloat => ⟨0xaa, "rem-float", .f23x⟩
  | .addDouble => ⟨0xab, "add-double", .f23x⟩
  | .subDouble => ⟨0xac, "sub-double", .f23x⟩
  | .mulDouble => ⟨0xad, "mul-double", .f23x⟩
  | .divDouble => ⟨0xae, "div-double", .f23x⟩
  | .remDouble => ⟨0xaf, "rem-double", .f23x⟩
  | .addInt2Addr => ⟨0xb0, "add-int/2addr", .f12x⟩
  | .subInt2Addr => ⟨0xb1, "sub-int/2addr", .f12x⟩
  | .mulInt2Addr => ⟨0xb2, "mul-int/2addr", .f12x⟩
  | .divInt2Addr => ⟨0xb3, "div-int/2addr", .f12x⟩
  | .remInt2Addr => ⟨0xb4, "rem-int/2addr", .f12x⟩
  | .andInt2Addr => ⟨0xb5, "and-int/2addr", .f12x⟩
  | .orInt2Addr => ⟨0xb6, "or-int/2addr", .f12x⟩
  | .xorInt2Addr => ⟨0xb7, "xor-int/2addr", .f12x⟩
  | .shlInt2Addr => ⟨0xb8, "shl-int/2addr", .f12x⟩
  | .shrInt2Addr => ⟨0xb9, "shr-int/2addr", .f12x⟩
  | .ushrInt2Addr => ⟨0xba, "ushr-int/2addr", .f12x⟩
  | .addLong2Addr => ⟨0xbb, "add-long/2addr", .f12x⟩
  | .subLong2Addr => ⟨0xbc, "sub-long/2addr", .f12x⟩
  | .mulLong2Addr => ⟨0xbd, "mul-long/2addr", .f12x⟩
  | .divLong2Addr => ⟨0xbe, "div-long/2addr", .f12x⟩
  | .remLong2Addr => ⟨0xbf, "rem-long/2addr", .f12x⟩
  | .andLong2Addr => ⟨0xc0, "and-long/2addr", .f12x⟩
  | .orLong2Addr => ⟨0xc1, "or-long/2addr", .f12x⟩
  | .xorLong2Addr => ⟨0xc2, "xor-long/2addr", .f12x⟩
  | .shlLong2Addr => ⟨0xc3, "shl-long/2addr", .f12x⟩
  | .shrLong2Addr => ⟨0xc4, "shr-long/2addr", .f12x⟩
  | .ushrLong2Addr => ⟨0xc5, "ushr-long/2addr", .f12x⟩
  | .addFloat2Addr => ⟨0xc6, "add-float/2addr", .f12x⟩
  | .subFloat2Addr => ⟨0xc7, "sub-float/2addr", .f12x⟩
  | .mulFloat2Addr => ⟨0xc8, "mul-float/2addr", .f12x⟩
  | .divFloat2Addr => ⟨0xc9, "div-float/2addr", .f12x⟩
  | .remFloat2Addr => ⟨0xca, "rem-float/2addr", .f12x⟩
  | .addDouble2Addr => ⟨0xcb, "add-double/2addr", .f12x⟩
  | .subDouble2Addr => ⟨0xcc, "sub-double/2addr", .f12x⟩
  | .mulDouble2Addr => ⟨0xcd, "mul-double/2addr", .f12x⟩
  | .divDouble2Addr => ⟨0xce, "div-double/2addr", .f12x⟩
  | .remDouble2Addr => ⟨0xcf, "rem-double/2addr", .f12x⟩
  | .addIntLit16 => ⟨0xd0, "add-int/lit16", .f22s⟩
  | .rsubInt => ⟨0xd1, "rsub-int", .f22s⟩
  | .mulIntLit16 => ⟨0xd2, "mul-int/lit16", .f22s⟩
  | .divIntLit16 => ⟨0xd3, "div-int/lit16", .f22s⟩
  | .remIntLit16 => ⟨0xd4, "rem-int/lit16", .f22s⟩
  | .andIntLit16 => ⟨0xd5, "and-int/lit16", .f22s⟩
  | .orIntLit16 => ⟨0xd6, "or-int/lit16", .f22s⟩
  | .xorIntLit16 => ⟨0xd7, "xor-int/lit16", .f22s⟩
  | .addIntLit8 => ⟨0xd8, "add-int/lit8", .f22b⟩
  | .rsubIntLit8 => ⟨0xd9, "rsub-int/lit8", .f22b⟩
  | .mulIntLit8 => ⟨0xda, "mul-int/lit8", .f22b⟩
  | .divIntLit8 => ⟨0xdb, "div-int/lit8", .f22b⟩
  | .remIntLit8 => ⟨0xdc, "rem-int/lit8", .f22b⟩
  | .andIntLit8 => ⟨0xdd, "and-int/lit8", .f22b⟩
  | .orIntLit8 => ⟨0xde, "or-int/lit8", .f22b⟩
  | .xorIntLit8 => ⟨0xdf, "xor-int/lit8", .f22b⟩
  | .shlIntLit8 => ⟨0xe0, "shl-int/lit8", .f22b⟩
  | .shrIntLit8 => ⟨0xe1, "shr-int/lit8", .f22b⟩
  | .ushrIntLit8 => ⟨0xe2, "ushr-int/lit8", .f22b⟩
  | .invokePolymorphic => ⟨0xfa, "invoke-polymorphic", .f45cc⟩
  | .invokePolymorphicRange => ⟨0xfb, "invoke-polymorphic/range", .f4rcc⟩
  | .invokeCustom => ⟨0xfc, "invoke-custom", .f35c⟩
  | .invokeCustomRange => ⟨0xfd, "invoke-custom/range", .f3rc⟩
  | .constMethodHandle => ⟨0xfe, "const-method-handle", .f21c⟩
  | .constMethodType => ⟨0xff, "const-method-type", .f21c⟩
  | .packedSwitchPayload => ⟨0x100, "packed-switch-payload", .packedSwitchPayload⟩
  | .sparseSwitchPayload => ⟨0x200, "sparse-switch-payload", .sparseSwitchPayload⟩
  | .arrayPayload => ⟨0x300, "array-payload", .arrayPayload⟩

/-- The name in a listing. -/
def mnemonic (o : Opcode) : String := o.info.mnemonic

/-- The encoded value. -/
def value (o : Opcode) : Nat := o.info.value

/-- The encoding. -/
def format (o : Opcode) : Format := o.info.format

/-- The place of an opcode in the table. -/
def rank (o : Opcode) : Nat := o.ctorIdx

/-- How many opcodes there are. -/
def count : Nat := arrayPayload.rank + 1

/-- The opcodes in the order of the table. -/
def all : List Opcode := (List.range count).map ofNat

/-- The opcode with a mnemonic. -/
def ofMnemonic? (s : String) : Option Opcode := all.find? (·.mnemonic == s)

/-- The opcode with a value. -/
def ofValue? (n : Nat) : Option Opcode := all.find? (·.value == n)

/-- Order by place in the table. -/
def le (a b : Opcode) : Bool := a.rank ≤ b.rank

end Opcode

end Dalvik
