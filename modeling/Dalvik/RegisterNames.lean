import Dalvik.Instruction
import Dalvik.Text.Numeral

/-!
# RegisterNames

The names of registers. The arguments of a method lie in its last registers and are named `p0`,
`p1` and so on; all registers before them are `v0`, `v1` and so on.
-/

namespace Dalvik

/-- What the names of a method's registers depend on. -/
structure RegisterNames where
  /-- How many registers the method uses. -/
  registerCount : Nat
  /-- How many of them its arguments take. -/
  parameterCount : Nat
  /-- Whether argument registers have names of their own. -/
  parameterNames : Bool
deriving DecidableEq, Repr

namespace RegisterNames

/-- The first argument register. A method whose arguments need more registers than it has
counts all its registers as such. -/
def base (n : RegisterNames) : Nat := n.registerCount - n.parameterCount

/-- Whether a register is named as an argument. -/
def isParameter (n : RegisterNames) (r : Nat) : Bool := n.parameterNames && n.base ≤ r

/-- The name of a register. -/
def name (n : RegisterNames) (r : Register) : String :=
  if n.isParameter r.toNat then "p" ++ Text.decimal (r.toNat - n.base)
  else "v" ++ Text.decimal r.toNat

/-- The names of registers, in braces. -/
def list (n : RegisterNames) (rs : List Register) : String :=
  "\x7b" ++ ", ".intercalate (rs.map n.name) ++ "\x7d"

/-- The names of the ends of a range, in braces. A range has as many registers as are given and
starts with the first, and both ends are named in the manner of the first. -/
def range (n : RegisterNames) : List Register → String
  | [] => "\x7b\x7d"
  | r :: rs =>
    let first := r.toNat
    let last := first + rs.length
    let ends :=
      if n.isParameter first then
        "p" ++ Text.decimal (first - n.base) ++ " .. p" ++ Text.decimal (last - n.base)
      else "v" ++ Text.decimal first ++ " .. v" ++ Text.decimal last
    "\x7b" ++ ends ++ "\x7d"

/-- Whether each register is the successor of the one before it. -/
def consecutive : List Register → Bool
  | r :: s :: rs => r.toNat + 1 == s.toNat && consecutive (s :: rs)
  | _ => true

/-- How many registers hold no argument: negative if the arguments do not fit. -/
def localCount (n : RegisterNames) : Int := (n.registerCount : Int) - n.parameterCount

end RegisterNames

end Dalvik
