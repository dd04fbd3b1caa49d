import Dalvik.Entry
import Dalvik.Fault
import Dalvik.Label.Table

/-!
# Entry — Handle

While the entries of a body are collected, the table of labels is passed along, and an entry takes
the handles that the table issues for its labels: their positions. `Entry.issue` puts handles in
the place of identities and `Entry.resolve?` the other way round.
-/

namespace Dalvik

/-- A stage of a listing: it may fail, and it may ask the table of labels for more. -/
abbrev Drafting := StateT LabelTable (Except Fault)

namespace LabelTable

/-- Asks for the label of `id` and returns its handle. -/
def issue (id : LabelId) : Drafting Nat := modifyGet (·.intern id)

/-- The identity of the label behind a handle. -/
def id? (t : LabelTable) (n : Nat) : Option LabelId := (t.get? n).map (·.id)

end LabelTable

namespace Entry

/-- The entry with the handles of its labels. -/
def issue (e : Entry) : Drafting (Entry Nat) := e.mapM LabelTable.issue

/-- The entry with the identities of its labels. A handle that the table did not issue has none. -/
def resolve? (t : LabelTable) (e : Entry Nat) : Option Entry := e.mapM t.id?

/-- The entry of the label behind a handle, at the address it marks. -/
def ofHandle? (t : LabelTable) (n : Nat) : Option (Entry Nat) :=
  (t.id? n).map fun id => ⟨id.address, .label n⟩

/-- The entries for each of `xs` with the handles of their labels, issued before the entries for the
next are collected. -/
def issueEach {α : Type} (collect : α → Except Fault (List Entry)) :
    List α → Drafting (List (Entry Nat))
  | [] => return []
  | x :: xs => do
    let es ← collect x
    let first ← es.mapM issue
    let rest ← issueEach collect xs
    return first ++ rest

end Entry

end Dalvik
