import Dalvik.Text.Numeral

/-!
# Label

Branches, switch cases, tables and exception regions name code addresses by labels. A label is
known by its kind and address (`LabelId`); its name shows the address, or its number among the
labels of its kind once the labels have been numbered.
-/

namespace Dalvik

/-- What a label marks. The kinds are listed in the alphabetical order of their stems. -/
inductive LabelKind where
  /-- An array table. -/
  | arrayData
  /-- A handler for one exception type. -/
  | typedHandler
  /-- A handler for every exception. -/
  | anyHandler
  /-- The target of a conditional branch. -/
  | cond
  /-- The target of an unconditional branch. -/
  | goto
  /-- A case of a packed switch. -/
  | packedCase
  /-- The table of a packed switch. -/
  | packedTable
  /-- A case of a sparse switch. -/
  | sparseCase
  /-- The table of a sparse switch. -/
  | sparseTable
  /-- The first address after a try region. -/
  | tryEnd
  /-- The first address of a try region. -/
  | tryStart
deriving DecidableEq, Repr

namespace LabelKind

/-- The word that opens the names of a kind. -/
def stem : LabelKind → String
  | arrayData => "array_"
  | typedHandler => "catch_"
  | anyHandler => "catchall_"
  | cond => "cond_"
  | goto => "goto_"
  | packedCase => "pswitch_"
  | packedTable => "pswitch_data_"
  | sparseCase => "sswitch_"
  | sparseTable => "sswitch_data_"
  | tryEnd => "try_end_"
  | tryStart => "try_start_"

/-- The place of a kind in the list of kinds. -/
def rank (k : LabelKind) : Nat := k.ctorIdx

end LabelKind

/-- The identity of a label. -/
structure LabelId where
  /-- What the label marks. -/
  kind : LabelKind
  /-- The code address it marks. -/
  address : Nat
deriving DecidableEq, Repr

namespace LabelId

/-- Order by kind, then by address. -/
def le (a b : LabelId) : Bool :=
  a.kind.rank < b.kind.rank || (a.kind.rank == b.kind.rank && a.address ≤ b.address)

/-- Order by address, then by kind: the order of the directives. -/
def placeLe (a b : LabelId) : Bool :=
  a.address < b.address || (a.address == b.address && a.kind.rank ≤ b.kind.rank)

end LabelId

/-- A label and, if the labels have been numbered, its number. -/
structure Label where
  /-- The identity of the label. -/
  id : LabelId
  /-- The number of the label among those of its kind. -/
  sequence : Option Nat
deriving DecidableEq, Repr

/-- The written name: the stem of the kind with the number, else with the address. -/
def Label.name (l : Label) : String :=
  ":" ++ l.id.kind.stem ++
    match l.sequence with
    | some n => Text.decimal n
    | none => Text.hex l.id.address

end Dalvik
