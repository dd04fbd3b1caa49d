import Dalvik.Text.Writer

/-!
# Annotation

Annotations and the blocks they are written as. The values arrive as text. An annotation can be
the value of an element of another one, and its block is then set off by four more spaces.
-/

namespace Dalvik

/-- Who sees an annotation. -/
inductive Visibility where
  | build
  | runtime
  | system
deriving DecidableEq, Repr

/-- The word of a visibility. -/
def Visibility.keyword : Visibility → String
  | build => "build"
  | runtime => "runtime"
  | system => "system"

mutual

/-- An annotation of a class, with its elements. -/
inductive Annotation where
  | mk (visibility : Visibility) (type : String) (elements : List AnnotationElement)

/-- A named value. -/
inductive AnnotationElement where
  | mk (name : String) (value : AnnotationValue)

/-- The value of an element. -/
inductive AnnotationValue where
  /-- A value by its text. -/
  | single (text : String)
  /-- Values by their texts. -/
  | array (texts : List String)
  /-- A constant of an enumeration. -/
  | enumConstant (type name : String)
  /-- An annotation as a value. -/
  | nested (value : Annotation)

end

namespace Annotation

/-- The lines of an array: all values but the last have a comma. -/
def arrayLines : List String → String
  | [] => ""
  | [v] => v ++ "\n"
  | v :: vs => v ++ ",\n" ++ arrayLines vs

mutual

/-- The type of an annotation and, set off, its elements. -/
def body : Annotation → String
  | .mk _ type elements => type ++ "\n" ++ Text.indent 4 (elementLines elements)

/-- The lines of the elements. -/
def elementLines : List AnnotationElement → String
  | [] => ""
  | e :: es => elementLine e ++ elementLines es

/-- The line or lines of an element. -/
def elementLine : AnnotationElement → String
  | .mk name value => name ++ " = " ++ valueLine value

/-- The line or lines of a value. -/
def valueLine : AnnotationValue → String
  | .single text => text ++ "\n"
  | .array texts => "\x7b\n" ++ Text.indent 4 (arrayLines texts) ++ "\x7d\n"
  | .enumConstant type name => ".enum " ++ type ++ "->" ++ name ++ ":" ++ type ++ "\n"
  | .nested value => ".subannotation " ++ body value ++ ".end subannotation\n"

end

/-- The block of an annotation. -/
def block : Annotation → String
  | .mk visibility type elements =>
    ".annotation " ++ visibility.keyword ++ " " ++ body (.mk visibility type elements)
      ++ ".end annotation\n"

/-- The blocks of annotations, with an empty line between each two. -/
def blocks (as : List Annotation) : String := "\n".intercalate (as.map block)

end Annotation

end Dalvik
