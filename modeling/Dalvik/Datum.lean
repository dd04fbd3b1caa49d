/-!
# Datum

Plain data, the form in which code and options are stored. A record is a list of named fields,
or the values of its fields by position. A variant of a choice is its name, or a record of one
field: the name with what the variant carries.
-/

namespace Dalvik

/-- A plain value. -/
inductive Datum where
  | null
  | bool (b : Bool)
  | int (n : Int)
  /-- A number with a fraction: `mantissa` over the power of ten of `places`. -/
  | decimal (mantissa : Int) (places : Nat)
  | text (s : String)
  | list (items : List Datum)
  | record (fields : List (String × Datum))
deriving Inhabited, Repr

/-- Why a datum is refused. -/
inductive DatumFault where
  /-- It does not have the shape that is needed. -/
  | malformed
  /-- It names an opcode that does not exist. -/
  | unknownOpcode (name : String)
deriving DecidableEq, Repr

/-- The words for a fault, where there is more to say than that the shape is wrong. -/
def DatumFault.message? : DatumFault → Option String
  | malformed => none
  | unknownOpcode name => some ("Unknown opcode " ++ name)

/-- Values that are stored as data. -/
class Codec (α : Type) where
  /-- The stored form of a value. -/
  encode : α → Datum
  /-- The value of a stored form. -/
  decode : Datum → Except DatumFault α

export Codec (encode decode)

instance : Codec Bool where
  encode := .bool
  decode
    | .bool b => .ok b
    | _ => .error .malformed

instance : Codec String where
  encode := .text
  decode
    | .text s => .ok s
    | _ => .error .malformed

/-- Reads a natural number below a limit. -/
def Datum.natBelow (limit : Nat) : Datum → Except DatumFault Nat
  | .int n => if 0 ≤ n ∧ n < limit then .ok n.toNat else .error .malformed
  | _ => .error .malformed

/-- Reads an integer of at most `limit` below zero and less than `limit` above. -/
def Datum.intWithin (limit : Nat) : Datum → Except DatumFault Int
  | .int n => if -limit ≤ n ∧ n < limit then .ok n else .error .malformed
  | _ => .error .malformed

instance : Codec UInt16 where
  encode n := .int n.toNat
  decode d := (d.natBelow UInt16.size).map UInt16.ofNat

instance : Codec UInt32 where
  encode n := .int n.toNat
  decode d := (d.natBelow UInt32.size).map UInt32.ofNat

instance : Codec Int32 where
  encode n := .int n.toInt
  decode d := (d.intWithin (UInt32.size / 2)).map Int32.ofInt

instance : Codec Int64 where
  encode n := .int n.toInt
  decode d := (d.intWithin (UInt64.size / 2)).map Int64.ofInt

instance {α : Type} [Codec α] : Codec (List α) where
  encode xs := .list (xs.map encode)
  decode
    | .list ds => ds.mapM decode
    | _ => .error .malformed

instance {α : Type} [Codec α] : Codec (Option α) where
  encode
    | some a => encode a
    | none => .null
  decode
    | .null => .ok none
    | d => (decode d).map some

/-- The fields of a record that is read. -/
structure Fields where
  /-- The fields with their names. -/
  entries : List (String × Datum)
  /-- Whether the record itself named them, rather than gave them by position. -/
  named : Bool

namespace Fields

/-- The datum of a field. -/
def get? (fs : Fields) (name : String) : Option Datum := fs.entries.lookup name

/-- A field that must be there. -/
def required {α : Type} [Codec α] (fs : Fields) (name : String) : Except DatumFault α :=
  match fs.get? name with
  | some d => decode d
  | none => .error .malformed

/-- A field that may be missing and then has a default. -/
def withDefault {α : Type} [Codec α] (fs : Fields) (name : String) (default : α) :
    Except DatumFault α :=
  match fs.get? name with
  | some d => decode d
  | none => .ok default

/-- A field that may be missing where fields are named. -/
def optional {α : Type} [Codec α] (fs : Fields) (name : String) : Except DatumFault (Option α) :=
  match fs.get? name with
  | some d => decode d
  | none => if fs.named then .ok none else .error .malformed

end Fields

namespace Datum

/-- The fields of a record; by position they take the given names. -/
def fields (names : List String) : Datum → Except DatumFault Fields
  | .record entries => .ok ⟨entries, true⟩
  | .list ds => if ds.length ≤ names.length then .ok ⟨names.zip ds, false⟩ else .error .malformed
  | _ => .error .malformed

/-- The fields of a record that must name them. -/
def namedFields : Datum → Except DatumFault Fields
  | .record entries => .ok ⟨entries, true⟩
  | _ => .error .malformed

/-- A variant with what it carries. -/
def variant (name : String) (content : Datum) : Datum := .record [(name, content)]

/-- The name of a variant, and what it carries if that is given. -/
def variant? : Datum → Except DatumFault (String × Option Datum)
  | .text name => .ok (name, none)
  | .record [(name, content)] => .ok (name, some content)
  | _ => .error .malformed

end Datum

end Dalvik
