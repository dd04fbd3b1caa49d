import Dalvik.Code.Datum
import Dalvik.Disassembly
import Dalvik.Proofs.Opcode
import Dalvik.Proofs.Prototype
import Dalvik.Proofs.RoundTrip
import Dalvik.Proofs.Lookup
import Dalvik.Proofs.Floor
import Dalvik.Proofs.Interning
import Dalvik.Proofs.Numbering
import Dalvik.Proofs.NameOrder
import Dalvik.Proofs.Acceptance
import Dalvik.Proofs.Arguments
import Dalvik.Proofs.Closure
import Dalvik.Proofs.Displacement
import Dalvik.Proofs.Region
import Dalvik.Proofs.SwitchTable
import Dalvik.Proofs.Resolution
import Dalvik.Proofs.Target
import Dalvik.Proofs.Skeleton
import Dalvik.Proofs.Options
import Dalvik.Proofs.Emission
import Dalvik.Proofs.Inset
import Dalvik.Proofs.Interleaving
import Dalvik.Proofs.Escape
import Dalvik.Proofs.Word
import Dalvik.Proofs.Line
import Dalvik.Proofs.Table
