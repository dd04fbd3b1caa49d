import Dalvik.Body
import Dalvik.Entry.Text

/-!
# Disassembly

The block of a method in a listing, from `.method` to `.end method`. A method without code has
no body: its block holds its parameters and annotations alone. A block is written to a writer in
one piece and only after the whole body has been listed, so a failure writes nothing.
-/

namespace Dalvik

namespace Body

/-- The directive that declares the registers. -/
def registerDirective (b : Body) : String :=
  if b.options.localsDirective then ".locals " ++ Text.integer b.registers.localCount ++ "\n"
  else ".registers " ++ Text.decimal b.registers.registerCount ++ "\n"

/-- What the entries of a listing of the body depend on. -/
def scope (b : Body) (l : Listing) : Scope := ⟨b.code.instructions, l.labels, b.registers⟩

/-- The block of a method with a body. -/
def block (b : Body) (l : Listing) : String :=
  b.method.header
    ++ Text.indent 4
      (b.registerDirective ++ b.method.parameterBlock ++ Annotation.blocks b.method.annotations
        ++ "\n" ++ Entry.lines (b.scope l) l.entries)
    ++ Method.footer

/-- Writes the block of a method with a body: the writer afterwards, and whether it went well. -/
def write (b : Body) (w : Text.Writer) : Text.Writer × Except Failure Unit :=
  match b.listing with
  | .ok l => (w.write (b.block l), .ok ())
  | .error f => (w, .error f)

end Body

namespace Method

/-- The block of a method without code. -/
def emptyBlock (m : Method) : String :=
  m.header ++ Text.indent 4 (m.parameterBlock ++ Annotation.blocks m.annotations) ++ footer

/-- Writes the block of a method without code: the writer afterwards, and whether it went
well. -/
def writeEmpty (m : Method) (w : Text.Writer) : Text.Writer × Except Failure Unit :=
  match m.parameterRegisters with
  | .ok _ => (w.write m.emptyBlock, .ok ())
  | .error f => (w, .error (m.blame f))

end Method

/-- A method with its code, if it has any: an abstract or native method has none. -/
structure EncodedMethod where
  /-- The method. -/
  method : Method
  /-- Its code. -/
  code : Option Code

/-- Writes the block of a method. -/
def EncodedMethod.write (e : EncodedMethod) (o : Options) (w : Text.Writer) :
    Text.Writer × Except Failure Unit :=
  match e.code with
  | none => e.method.writeEmpty w
  | some code =>
    match Body.build e.method code o with
    | .ok body => body.write w
    | .error f => (w, .error f)

/-- The text of a method. -/
def disassemble (e : EncodedMethod) (o : Options) : Except Failure String :=
  let (w, outcome) := e.write o .empty
  outcome.map fun _ => w.text

/-- The texts of methods. A method that fails does not affect the others. -/
def disassembleAll (es : List EncodedMethod) (o : Options) : List (Except Failure String) :=
  es.map (disassemble · o)

end Dalvik
