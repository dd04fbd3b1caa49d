/-!
# Options

What a listing shows. No option changes what a listing means.
-/

namespace Dalvik

/-- The choices of a listing. -/
structure Options where
  /-- Declare the registers that hold no parameter, instead of all. -/
  localsDirective : Bool := false
  /-- Write the debug directives. -/
  debugInfo : Bool := true
  /-- Name labels by number instead of by address. -/
  sequentialLabels : Bool := false
  /-- Write the address before every instruction. -/
  offsetComments : Bool := false
  /-- Name the registers of parameters as such. -/
  parameterNames : Bool := true
deriving DecidableEq, Repr

end Dalvik
