import Dalvik.Label

/-!
# Label — Table

The labels of one method, in the order of their creation, with an index of their positions. Each
identity has one label. `intern` looks it up in the index and creates it if there is none; the
position of a label never changes, so it stands for the label from then on. `number` numbers the
labels of each kind by address, whatever numbers they had before.
-/

namespace Dalvik

/-- The labels of a method. -/
structure LabelTable where
  /-- The labels in the order of their creation. -/
  labels : List Label
  /-- The position of the label of each identity. -/
  index : List (LabelId × Nat)
deriving DecidableEq, Repr

namespace LabelTable

/-- The table without labels. -/
def empty : LabelTable := ⟨[], []⟩

/-- How many labels there are. -/
def size (t : LabelTable) : Nat := t.labels.length

/-- The label created as number `n`. -/
def get? (t : LabelTable) (n : Nat) : Option Label := t.labels[n]?

/-- The position of the label of `id`, as the index has it. -/
def position? (t : LabelTable) (id : LabelId) : Option Nat := t.index.lookup id

/-- The position of the label of `id`, which is created at the end if the index has none. -/
def intern (t : LabelTable) (id : LabelId) : Nat × LabelTable :=
  match t.position? id with
  | some n => (n, t)
  | none => (t.size, ⟨t.labels ++ [⟨id, none⟩], (id, t.size) :: t.index⟩)

/-- The table after the labels of `ids` have been asked for, one after another. -/
def internAll (t : LabelTable) (ids : List LabelId) : LabelTable :=
  ids.foldl (fun t id => (t.intern id).2) t

/-- The table of the labels of `ids`. -/
def ofIds (ids : List LabelId) : LabelTable := empty.internAll ids

/-- The positions of the labels by address, then by kind. -/
def sortedPositions (t : LabelTable) : List Nat :=
  (t.labels.zipIdx.mergeSort fun a b => a.1.id.placeLe b.1.id).map (·.2)

/-- The labels by address, then by kind. -/
def sorted (t : LabelTable) : List Label := t.sortedPositions.filterMap t.get?

/-- The identities by address, then by kind. -/
def sortedIds (t : LabelTable) : List LabelId := t.sorted.map (·.id)

/-- The next numbers of the kinds, after a label of the kind `k` has taken one. -/
def advance (next : LabelKind → Nat) (k : LabelKind) : LabelKind → Nat :=
  fun j => if j = k then next j + 1 else next j

/-- Gives the label at each of the positions the next number of its kind. -/
def assign (next : LabelKind → Nat) (labels : List Label) : List Nat → List Label
  | [] => labels
  | n :: positions =>
    match labels[n]? with
    | none => assign next labels positions
    | some l =>
      assign (advance next l.id.kind) (labels.set n { l with sequence := some (next l.id.kind) })
        positions

/-- Numbers the labels of each kind from zero on, in the sorted order. -/
def number (t : LabelTable) : LabelTable :=
  { t with labels := assign (fun _ => 0) t.labels t.sortedPositions }

/-- The label of `id`, found by its position; an identity the table does not hold has no number. -/
def label (t : LabelTable) (id : LabelId) : Label :=
  ((t.position? id).bind t.get?).getD ⟨id, none⟩

/-- The written name of `id`. -/
def name (t : LabelTable) (id : LabelId) : String := (t.label id).name

end LabelTable

end Dalvik
