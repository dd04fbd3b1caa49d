import Dalvik.AccessFlags
import Dalvik.Annotation
import Dalvik.Descriptor
import Dalvik.Text.Escape

/-!
# Method

The signature of a method, the registers its arguments take, and the lines a listing has for
them. An argument takes one register, or two if its type is wide; the receiver of an instance
method comes first and takes one.
-/

namespace Dalvik

/-- A parameter of a method. -/
structure Parameter where
  /-- The type of the argument. -/
  type : Descriptor
  /-- The name in the source. -/
  name : Option String
  /-- The annotations of the parameter. -/
  annotations : List Annotation

/-- A method without its code. -/
structure Method where
  /-- The class that defines it. -/
  definingClass : String
  /-- Its name. -/
  name : String
  /-- Its access flags. -/
  flags : AccessFlags
  /-- Its parameters, the receiver not included. -/
  parameters : List Parameter
  /-- The type of its result. -/
  returnType : Descriptor
  /-- Its annotations. -/
  annotations : List Annotation

namespace Method

/-- The method with the types of a descriptor, without names and annotations. -/
def ofDescriptor (definingClass name : String) (flags : AccessFlags) (descriptor : String) :
    Except Fault Method := do
  let prototype ← Prototype.parse descriptor
  return {
    definingClass, name, flags
    parameters := prototype.parameters.map fun type => ⟨type, none, []⟩
    returnType := prototype.returnType
    annotations := [] }

/-- Whether the method has no receiver. -/
def isStatic (m : Method) : Bool := m.flags.has .static

/-- The types of the method. -/
def prototype (m : Method) : Prototype := ⟨m.parameters.map (·.type), m.returnType⟩

/-- The descriptor of the method. -/
def descriptor (m : Method) : String := m.prototype.text

/-- The class, name and descriptor: what a failure names the method by. -/
def fullName (m : Method) : String := m.definingClass ++ "->" ++ m.name ++ m.descriptor

/-- How many registers the receiver takes. -/
def receiverWidth (m : Method) : Nat := if m.isStatic then 0 else 1

/-- How many registers the arguments take. -/
def argumentWidth (m : Method) : Nat :=
  m.parameters.foldl (fun width p => width + p.type.width) m.receiverWidth

/-- How many registers the arguments take, if they fit into the registers there are. -/
def parameterRegisters (m : Method) : Except Fault Nat :=
  if m.argumentWidth ≤ 65535 then .ok m.argumentWidth else .error (.tooManyParameters m.name)

/-- A fault in the method. -/
def blame (m : Method) (f : Fault) : Failure := ⟨f, m.fullName⟩

/-- The first line of the block of a method. -/
def header (m : Method) : String :=
  ".method " ++ String.join (m.flags.keywords.map (· ++ " ")) ++ m.name ++ m.descriptor ++ "\n"

/-- The last line of the block of a method. -/
def footer : String := ".end method\n"

end Method

namespace Parameter

/-- The name to show: an empty one counts as none. -/
def shownName? (p : Parameter) : Option String := p.name.filter (· ≠ "")

/-- The annotations of the parameter, set off. -/
def annotationBlock (p : Parameter) : String :=
  Text.indent 4 <| Annotation.blocks p.annotations

/-- The directive of the parameter in argument register `register`, if it has a name or an
annotation. -/
def block (register : Nat) (p : Parameter) : String :=
  if p.shownName?.isNone && p.annotations.isEmpty then ""
  else
    ".param p" ++ Text.decimal register
      ++ (match p.shownName? with
        | some name => ", " ++ Text.quoted name
        | none => "")
      ++ "\n"
      ++ (if p.annotations.isEmpty then ""
        else p.annotationBlock ++ ".end param\n")

/-- Pairs parameters with their argument registers, the first of which is `register`. -/
def slots (register : Nat) : List Parameter → List (Nat × Parameter)
  | [] => []
  | p :: ps => (register, p) :: slots (register + p.type.width) ps

end Parameter

/-- The directives of the parameters. -/
def Method.parameterBlock (m : Method) : String :=
  String.join ((Parameter.slots m.receiverWidth m.parameters).map fun (r, p) => p.block r)

end Dalvik
