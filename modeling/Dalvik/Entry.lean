import Dalvik.Code
import Dalvik.Label

/-!
# Entry

The body of a listing is made of entries, each at a code address: instructions, the blank lines
after them, labels, exception directives, debug directives and offset comments. Entries are
arranged by address; those of one address by band; those of one band in the order in which they
were collected.

An entry refers to labels by their identities, or by the handles that a table has issued for them;
`L` is the type of what it holds for a label.
-/

namespace Dalvik

/-- The bands of the entries at one address, first band first. -/
inductive Band where
  | offsetComment
  | label
  | exception
  | instruction
  | blank
  | debug
deriving DecidableEq, Repr

/-- The place of a band. -/
def Band.rank (b : Band) : Nat := b.ctorIdx

/-- The directive of a handler of an exception region. -/
structure ExceptionEntry (L : Type := LabelId) where
  /-- The type that is caught. -/
  exceptionType : Option String
  /-- The start of the region. -/
  tryStart : L
  /-- The end of the region. -/
  tryEnd : L
  /-- The handler. -/
  handler : L
deriving DecidableEq, Repr

/-- The directive for the region from `start` to `stop` and the handler at `handler`. -/
def ExceptionEntry.ofRegion (exceptionType : Option String) (start stop handler : Nat) :
    ExceptionEntry where
  exceptionType := exceptionType
  tryStart := ⟨.tryStart, start⟩
  tryEnd := ⟨.tryEnd, stop⟩
  handler := ⟨if exceptionType.isSome then .typedHandler else .anyHandler, handler⟩

/-- An instruction by its number, with the labels it refers to. -/
structure InstructionEntry (L : Type := LabelId) where
  /-- The number of the instruction in its method. -/
  index : Nat
  /-- The target of a branch, or the table of a switch or an array. -/
  target : Option L
  /-- The cases of a table that a switch uses. -/
  cases : Option (List L)
deriving DecidableEq, Repr

/-- What stands at an address. -/
inductive Content (L : Type := LabelId) where
  | offsetComment
  | label (id : L)
  | exception (entry : ExceptionEntry L)
  | instruction (entry : InstructionEntry L)
  | blank
  | debug (event : DebugEvent)
deriving DecidableEq, Repr

variable {L M : Type}

namespace Content

/-- The band of a content. -/
def band : Content L → Band
  | offsetComment => .offsetComment
  | label _ => .label
  | exception _ => .exception
  | instruction _ => .instruction
  | blank => .blank
  | debug _ => .debug

/-- The labels of a content, in the order of their first use. -/
def labels : Content → List LabelId
  | label id => [id]
  | exception e => [e.tryStart, e.tryEnd, e.handler]
  | instruction e => e.target.toList ++ e.cases.getD []
  | offsetComment | blank | debug _ => []

/-- Replaces the labels of a content by what `f` yields for them, in the order of their first
use. -/
def mapM {m : Type → Type} [Monad m] (f : L → m M) : Content L → m (Content M)
  | offsetComment => pure .offsetComment
  | label id => do return .label (← f id)
  | exception e => do
    return .exception ⟨e.exceptionType, ← f e.tryStart, ← f e.tryEnd, ← f e.handler⟩
  | instruction e => do
    return .instruction ⟨e.index, ← e.target.mapM f, ← e.cases.mapM (List.mapM f)⟩
  | blank => pure .blank
  | debug event => pure (.debug event)

end Content

/-- An entry of a listing. -/
structure Entry (L : Type := LabelId) where
  /-- The code address it stands at. -/
  address : Nat
  /-- What it is. -/
  content : Content L
deriving DecidableEq, Repr

namespace Entry

/-- The band of an entry. -/
def band (e : Entry L) : Band := e.content.band

/-- The labels of an entry. -/
def labels (e : Entry) : List LabelId := e.content.labels

/-- Order by address, then by band. -/
def le (a b : Entry L) : Bool :=
  a.address < b.address || (a.address == b.address && a.band.rank ≤ b.band.rank)

/-- Entries in the order of a listing. The sort keeps the order of what it does not tell
apart. -/
def arrange (es : List (Entry L)) : List (Entry L) := es.mergeSort le

/-- Replaces the labels of an entry by what `f` yields for them. -/
def mapM {m : Type → Type} [Monad m] (f : L → m M) (e : Entry L) : m (Entry M) := do
  return ⟨e.address, ← e.content.mapM f⟩

/-- The entry of a debug record. -/
def ofDebugRecord (r : DebugRecord) : Entry := ⟨r.address.toNat, .debug r.event⟩

/-- The entry of a label, at the address it marks. -/
def ofLabel (id : LabelId) : Entry := ⟨id.address, .label id⟩

end Entry

end Dalvik
