/-!
# Opcode — Format

The encodings of instructions. The first digit of an identifier is the size in 16-bit code
units; the payload formats have no fixed size.
-/

namespace Dalvik

/-- An instruction encoding. -/
inductive Format where
  | f10t | f10x | f11n | f11x | f12x
  | f20t | f21c | f21ih | f21lh | f21s | f21t | f22b | f22c | f22s | f22t | f22x | f23x
  | f30t | f31c | f31i | f31t | f32x | f35c | f3rc
  | f45cc | f4rcc
  | f51l
  | arrayPayload | packedSwitchPayload | sparseSwitchPayload
deriving DecidableEq, Repr

namespace Format

/-- The identifier of a format. -/
def id : Format → String
  | f10t => "10t" | f10x => "10x" | f11n => "11n" | f11x => "11x" | f12x => "12x"
  | f20t => "20t" | f21c => "21c" | f21ih => "21ih" | f21lh => "21lh" | f21s => "21s"
  | f21t => "21t" | f22b => "22b" | f22c => "22c" | f22s => "22s" | f22t => "22t"
  | f22x => "22x" | f23x => "23x"
  | f30t => "30t" | f31c => "31c" | f31i => "31i" | f31t => "31t" | f32x => "32x"
  | f35c => "35c" | f3rc => "3rc"
  | f45cc => "45cc" | f4rcc => "4rcc"
  | f51l => "51l"
  | arrayPayload => "array-payload"
  | packedSwitchPayload => "packed-switch-payload"
  | sparseSwitchPayload => "sparse-switch-payload"

/-- The size in code units, unless it depends on a table. -/
def codeUnits? : Format → Option Nat
  | f10t | f10x | f11n | f11x | f12x => some 1
  | f20t | f21c | f21ih | f21lh | f21s | f21t | f22b | f22c | f22s | f22t | f22x | f23x => some 2
  | f30t | f31c | f31i | f31t | f32x | f35c | f3rc => some 3
  | f45cc | f4rcc => some 4
  | f51l => some 5
  | arrayPayload | packedSwitchPayload | sparseSwitchPayload => none

/-- The formats of tables. -/
def isPayload (f : Format) : Bool := f.codeUnits?.isNone

/-- The formats with a displacement to another instruction. -/
def hasCodeOffset : Format → Bool
  | f10t | f20t | f30t | f21t | f22t | f31t => true
  | _ => false

/-- The formats whose registers are written as a list in braces. -/
def isRegisterList : Format → Bool
  | f35c | f45cc => true
  | _ => false

/-- The formats whose registers are written as a range in braces. -/
def isRegisterRange : Format → Bool
  | f3rc | f4rcc => true
  | _ => false

end Format

end Dalvik
