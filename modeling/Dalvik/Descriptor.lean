import Dalvik.Fault

/-!
# Descriptor

Type descriptors and the prototypes of methods made of them. A type is a letter, a class name
between `L` and `;`, or an array of a type behind `[`. A prototype is the types of the
parameters in parentheses and the type of the result. Nothing delimits the parameters: each
descriptor shows where it ends.
-/

namespace Dalvik

/-- The types with a letter. -/
inductive Primitive where
  | void | boolean | byte | short | char | int | long | float | double
deriving DecidableEq, Repr

namespace Primitive

/-- The letter of a type. -/
def letter : Primitive → Char
  | void => 'V'
  | boolean => 'Z'
  | byte => 'B'
  | short => 'S'
  | char => 'C'
  | int => 'I'
  | long => 'J'
  | float => 'F'
  | double => 'D'

/-- The type with a letter. -/
def ofLetter? : Char → Option Primitive
  | 'V' => some void
  | 'Z' => some boolean
  | 'B' => some byte
  | 'S' => some short
  | 'C' => some char
  | 'I' => some int
  | 'J' => some long
  | 'F' => some float
  | 'D' => some double
  | _ => none

end Primitive

/-- A type descriptor. -/
inductive Descriptor where
  | primitive (type : Primitive)
  /-- A class, by its name without `L` and `;`. -/
  | object (name : String)
  | array (element : Descriptor)
deriving DecidableEq, Repr

namespace Descriptor

/-- The written form. -/
def text : Descriptor → String
  | primitive p => String.singleton p.letter
  | object name => "L" ++ name ++ ";"
  | array element => "[" ++ element.text

/-- How many levels of arrays there are. -/
def dimensions : Descriptor → Nat
  | array element => element.dimensions + 1
  | _ => 0

/-- The type below all arrays. -/
def base : Descriptor → Descriptor
  | array element => element.base
  | d => d

/-- The types whose values take a pair of registers. -/
def isWide : Descriptor → Bool
  | primitive .long | primitive .double => true
  | _ => false

/-- How many registers a value takes. -/
def width (d : Descriptor) : Nat := if d.isWide then 2 else 1

/-- The characters of class names. -/
def isNameChar (c : Char) : Bool := c != ';' && c != '(' && c != ')'

/-- Reads one descriptor and returns what follows it. -/
def read? : List Char → Option (Descriptor × List Char)
  | [] => none
  | '[' :: cs => (read? cs).map fun (d, rest) => (array d, rest)
  | 'L' :: cs =>
    match cs.takeWhile isNameChar, cs.dropWhile isNameChar with
    | c :: name, ';' :: rest => some (object (String.ofList (c :: name)), rest)
    | _, _ => none
  | c :: cs => (Primitive.ofLetter? c).map fun p => (primitive p, cs)

/-- Reads at most `n` descriptors, as long as there is one, and returns what follows them. -/
def readMany : Nat → List Char → List Descriptor × List Char
  | 0, cs => ([], cs)
  | n + 1, cs =>
    match read? cs with
    | none => ([], cs)
    | some (d, rest) =>
      let (ds, rest) := readMany n rest
      (d :: ds, rest)

/-- Reads a text that is one descriptor. -/
def parse? (s : String) : Option Descriptor :=
  match read? s.toList with
  | some (d, []) => some d
  | _ => none

/-- Reads a text that is one descriptor, or refuses it. -/
def parse (s : String) : Except Fault Descriptor :=
  match parse? s with
  | some d => .ok d
  | none => .error (.typeDescriptor s)

end Descriptor

/-- The types of a method. -/
structure Prototype where
  /-- The types of the parameters. -/
  parameters : List Descriptor
  /-- The type of the result. -/
  returnType : Descriptor
deriving DecidableEq, Repr

namespace Prototype

/-- The written form. -/
def text (p : Prototype) : String :=
  "(" ++ String.join (p.parameters.map Descriptor.text) ++ ")" ++ p.returnType.text

/-- Reads a text that is one prototype. A descriptor has a character at least, so the length
of the text bounds the number of parameters. -/
def parse? (s : String) : Option Prototype :=
  match s.toList with
  | '(' :: cs =>
    match Descriptor.readMany cs.length cs with
    | (parameters, ')' :: rest) =>
      match Descriptor.read? rest with
      | some (returnType, []) => some ⟨parameters, returnType⟩
      | _ => none
    | _ => none
  | _ => none

/-- Reads a text that is one prototype, or refuses it. -/
def parse (s : String) : Except Fault Prototype :=
  match parse? s with
  | some p => .ok p
  | none => .error (.methodDescriptor s)

end Prototype

end Dalvik
