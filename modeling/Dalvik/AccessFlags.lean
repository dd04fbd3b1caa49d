/-!
# AccessFlags

The access flags of a method. A listing shows the flags it has keywords for, in one order; other
bits are kept and not shown.
-/

namespace Dalvik

/-- A flag with a keyword. -/
structure AccessFlag where
  /-- The bit of the flag. -/
  mask : UInt32
  /-- The word of the flag in a listing. -/
  keyword : String
deriving DecidableEq, Repr

namespace AccessFlag

/-- The flag of methods without a receiver. -/
def static : AccessFlag := ⟨0x8, "static"⟩

/-- The flags of methods, in the order of a listing. -/
def all : List AccessFlag :=
  [⟨0x1, "public"⟩, ⟨0x2, "private"⟩, ⟨0x4, "protected"⟩, static, ⟨0x10, "final"⟩,
    ⟨0x20, "synchronized"⟩, ⟨0x40, "bridge"⟩, ⟨0x80, "varargs"⟩, ⟨0x100, "native"⟩,
    ⟨0x400, "abstract"⟩, ⟨0x800, "strictfp"⟩, ⟨0x1000, "synthetic"⟩,
    ⟨0x10000, "constructor"⟩, ⟨0x20000, "declared-synchronized"⟩]

end AccessFlag

/-- The flags of a method. -/
structure AccessFlags where
  /-- One bit for each flag. -/
  bits : UInt32
deriving DecidableEq, Repr

namespace AccessFlags

/-- Whether a flag is set. -/
def has (fs : AccessFlags) (f : AccessFlag) : Bool := fs.bits &&& f.mask == f.mask

/-- The keywords of the flags that are set. -/
def keywords (fs : AccessFlags) : List String :=
  (AccessFlag.all.filter fs.has).map AccessFlag.keyword

end AccessFlags

end Dalvik
