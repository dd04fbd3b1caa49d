import Dalvik.Disassembly
import Dalvik.Proofs.Writer

/-!
# Emission — what writing a method does to a writer

`Body.write` composes the block of a method and writes it at once. `Body.emit` writes the same block
part by part: it widens the margin of the writer before what is set off and narrows it afterwards,
for the body, for each table, for each parameter and for each annotation, however deep annotations
are nested in each other. Part by part, each `emit` is proved to write the text of its part, so the
margins are balanced (`Body.emit_eq`, `Method.emitEmpty_eq`).

`Framed` states what a call does to a writer: nothing if it fails, and otherwise it appends a block
of whole lines and leaves the margin alone. `write_framed` proves both of the calls that write
methods.
-/

namespace Dalvik

open Text (Writer)
open Text.Writer (write_append put_newline deindent_write_line)

/-! ### Annotations -/

namespace Annotation

/-- Writes the values of an array, a line for each. -/
def emitArray (w : Writer) : List String → Writer
  | [] => w
  | [v] => (w.write v).put '\n'
  | v :: vs => emitArray (((w.write v).put ',').put '\n') vs

mutual

/-- Writes the type of an annotation and, in a wider margin, its elements. -/
def emitBody (w : Writer) : Annotation → Writer
  | .mk _ type elements => (emitElements (((w.write type).put '\n').indent 4) elements).deindent 4

/-- Writes elements. -/
def emitElements (w : Writer) : List AnnotationElement → Writer
  | [] => w
  | e :: es => emitElements (emitElement w e) es

/-- Writes an element. -/
def emitElement (w : Writer) : AnnotationElement → Writer
  | .mk name value => emitValue (w.write (name ++ " = ")) value

/-- Writes a value, the values of an array in a wider margin. -/
def emitValue (w : Writer) : AnnotationValue → Writer
  | .single text => (w.write text).put '\n'
  | .array texts =>
    ((emitArray (((w.write "\x7b").put '\n').indent 4) texts).deindent 4).write "\x7d\n"
  | .enumConstant type name =>
    w.write (".enum " ++ type ++ "->" ++ name ++ ":" ++ type ++ "\n")
  | .nested value => (emitBody (w.write ".subannotation ") value).write ".end subannotation\n"

end

/-- Writes an annotation. -/
def emit (w : Writer) : Annotation → Writer
  | .mk visibility type elements =>
    (emitBody (w.write (".annotation " ++ visibility.keyword ++ " "))
      (.mk visibility type elements)).write ".end annotation\n"

/-- Writes annotations, with an empty line between each two. -/
def emitAll (w : Writer) : List Annotation → Writer
  | [] => w
  | [a] => emit w a
  | a :: as => emitAll ((emit w a).put '\n') as

theorem emitArray_eq (w : Writer) (vs : List String) :
    emitArray w vs = w.write (arrayLines vs) := by
  fun_induction emitArray w vs with
  | case1 w => rfl
  | case2 w v => rw [arrayLines, put_newline, ← write_append]
  | case3 w v vs hvs ih =>
      have hcomma : ((w.write v).put ',').put '\n' = w.write (v ++ ",\n") := by
        rw [write_append]
        rfl
      rw [ih, hcomma, ← write_append, arrayLines]
      exact hvs

-- by the recursion of the definitions; a part is set off only after a line end, which is what
-- `deindent_write_line` needs
mutual

theorem emitBody_eq (w : Writer) : ∀ a, emitBody w a = w.write (body a)
  | .mk _ type elements => by
      rw [emitBody, body, emitElements_eq, deindent_write_line]

theorem emitElements_eq (w : Writer) : ∀ es, emitElements w es = w.write (elementLines es)
  | [] => rfl
  | e :: es => by
      rw [emitElements, elementLines, emitElements_eq, emitElement_eq, write_append]

theorem emitElement_eq (w : Writer) : ∀ e, emitElement w e = w.write (elementLine e)
  | .mk name value => by
      rw [emitElement, elementLine, emitValue_eq, ← write_append]

theorem emitValue_eq (w : Writer) : ∀ v, emitValue w v = w.write (valueLine v)
  | .single text => by
      unfold emitValue valueLine
      rw [put_newline, write_append]
  | .array texts => by
      unfold emitValue valueLine
      rw [emitArray_eq, deindent_write_line, ← write_append]
      rfl
  | .enumConstant type name => by
      unfold emitValue valueLine
      rfl
  | .nested value => by
      unfold emitValue valueLine
      rw [emitBody_eq, write_append, write_append]

end

theorem emit_eq (w : Writer) (a : Annotation) : emit w a = w.write a.block := by
  obtain ⟨visibility, type, elements⟩ := a
  unfold emit block
  simp only [emitBody_eq, write_append]

theorem emitAll_eq (w : Writer) (as : List Annotation) : emitAll w as = w.write (blocks as) := by
  fun_induction emitAll w as with
  | case1 w => rfl
  | case2 w a => rw [emit_eq, blocks, List.map_singleton, String.intercalate_singleton]
  | case3 w a as has ih =>
      obtain ⟨b, bs, rfl⟩ := List.exists_cons_of_ne_nil has
      simp only [blocks, List.map_cons, String.intercalate_cons_cons, write_append] at ih ⊢
      rw [ih, emit_eq, put_newline]

end Annotation

/-! ### Parameters -/

/-- Writes the directive of a parameter, its annotations in a wider margin. -/
def Parameter.emit (register : Nat) (p : Parameter) (w : Writer) : Writer :=
  if p.shownName?.isNone && p.annotations.isEmpty then w
  else
    let opening := ".param p" ++ Text.decimal register
      ++ (match p.shownName? with
        | some name => ", " ++ Text.quoted name
        | none => "")
    let w := (w.write opening).put '\n'
    if p.annotations.isEmpty then w
    else
      let w := Annotation.emitAll (w.indent 4) p.annotations
      (w.deindent 4).write ".end param\n"

/-- Writes the directives of the parameters. -/
def Method.emitParameters (m : Method) (w : Writer) : Writer :=
  (Parameter.slots m.receiverWidth m.parameters).foldl (fun w (r, p) => p.emit r w) w

theorem Parameter.emit_eq (register : Nat) (p : Parameter) (w : Writer) :
    p.emit register w = w.write (p.block register) := by
  rw [emit, block]
  split
  case isTrue => rfl
  case isFalse =>
    cases p.annotations.isEmpty with
    | true =>
        cases p.shownName? <;>
          simp only [if_true, put_newline, write_append, Writer.write_empty]
    | false =>
        cases p.shownName? <;>
          simp only [Bool.false_eq_true, if_false, Annotation.emitAll_eq, deindent_write_line,
            annotationBlock, write_append]

theorem Method.emitParameters_eq (m : Method) (w : Writer) :
    m.emitParameters w = w.write m.parameterBlock :=
  Writer.foldl_write (fun w slot => slot.2.emit_eq slot.1 w) _ w

/-! ### Entries -/

namespace Payload

/-- Writes the block of a table, its lines in a wider margin. -/
def emitBlock (opening : String) (lines : List String) (closing : String) (w : Writer) : Writer :=
  ((lines.foldl (fun w line => (w.write line).put '\n')
    (((w.write opening).put '\n').indent 4)).deindent 4).write closing

/-- Writes a table. -/
def emit (labels : LabelTable) (cases : Option (List LabelId)) (w : Writer) : Payload → Writer
  | packedSwitch firstKey targets =>
    emitBlock (".packed-switch " ++ Text.literal firstKey.toInt)
      (packedLines labels targets cases) ".end packed-switch" w
  | sparseSwitch entries =>
    emitBlock ".sparse-switch" (sparseLines labels entries (cases.getD [])) ".end sparse-switch" w
  | arrayData width elements =>
    emitBlock (".array-data " ++ Text.decimal width.toNat) (elements.map (elementText width))
      ".end array-data" w

theorem emitBlock_eq (opening : String) (lines : List String) (closing : String) (w : Writer) :
    emitBlock opening lines closing w = w.write (block opening lines closing) := by
  have hlines (w : Writer) : lines.foldl (fun w line => (w.write line).put '\n') w
      = w.write (String.join (lines.map (· ++ "\n"))) :=
    Writer.foldl_write (fun w line => (write_append w line "\n").symm) lines w
  rw [emitBlock, block, hlines, deindent_write_line, ← write_append]

theorem emit_eq (labels : LabelTable) (cases : Option (List LabelId)) (w : Writer)
    (table : Payload) : table.emit labels cases w = w.write (table.text labels cases) := by
  cases table <;> exact emitBlock_eq ..

end Payload

namespace Entry

/-- Writes an entry without its line end, a table in its parts; and says whether there is anything
to write. -/
def emitText (s : Scope) (w : Writer) (e : Entry) : Writer × Bool :=
  match e.content with
  | .offsetComment => (w.write ("#@" ++ Text.hex e.address), true)
  | .label id => (w.write (s.labels.name id), true)
  | .exception x => (w.write (x.text s.labels), true)
  | .instruction x =>
    match s.instructions[x.index]? with
    | none => (w, false)
    | some i =>
      match i.payload with
      | some table => (table.emit s.labels x.cases w, true)
      | none => (w.write (i.line s.registers s.labels x.target), true)
  | .blank => (w, true)
  | .debug event =>
    match event.text? s.registers with
    | some text => (w.write text, true)
    | none => (w, false)

/-- Ends the line if something was written. -/
def endLine : Writer × Bool → Writer
  | (w, true) => w.put '\n'
  | (w, false) => w

/-- Writes an entry, a table in its parts, and its line end if there was anything to write. -/
def emit (s : Scope) (w : Writer) (e : Entry) : Writer := endLine (e.emitText s w)

theorem emitText_eq (s : Scope) (w : Writer) (e : Entry) :
    e.emitText s w = (w.write ((e.text? s).getD ""), (e.text? s).isSome) := by
  obtain ⟨address, content⟩ := e
  cases content with
  | instruction x =>
      cases hi : s.instructions[x.index]? with
      | none => simp [emitText, text?, InstructionEntry.text?, hi]
      | some i =>
          cases hp : i.payload with
          | none => simp [emitText, text?, InstructionEntry.text?, hi, hp]
          | some table => simp [emitText, text?, InstructionEntry.text?, hi, hp, Payload.emit_eq]
  | debug event => cases ht : event.text? s.registers <;> simp [emitText, text?, ht]
  | _ => rfl

theorem emit_eq_write (s : Scope) (w : Writer) (e : Entry) : e.emit s w = e.write s w := by
  rw [emit, emitText_eq, write]
  cases e.text? s <;> rfl

theorem foldl_emit (s : Scope) (es : List Entry) (w : Writer) :
    es.foldl (emit s) w = w.write (lines s es) := by
  induction es generalizing w with
  | nil => rfl
  | cons e es ih =>
      rw [List.foldl_cons, ih, emit_eq_write, write]
      cases ht : e.text? s with
      | none => simp [lines, ht]
      | some text => simp [lines, ht, write_append, put_newline]

end Entry

/-! ### Methods -/

namespace Method

/-- Writes the first and the last line of a method and, in a wider margin, what is between them. -/
def emitBlock (m : Method) (inner : Writer → Writer) (w : Writer) : Writer :=
  ((inner ((w.write m.header).indent 4)).deindent 4).write footer

/-- Writes the block of a method without code part by part. -/
def emitEmpty (m : Method) : Writer → Writer :=
  m.emitBlock fun w => Annotation.emitAll (m.emitParameters w) m.annotations

theorem emitBlock_eq (m : Method) {inner : Writer → Writer} {s : String}
    (hinner : ∀ w, inner w = w.write s) (w : Writer) :
    m.emitBlock inner w = w.write (m.header ++ Text.indent 4 s ++ footer) := by
  have hline : (w.write m.header).atLineStart := Writer.atLineStart_write_newline w _
  rw [emitBlock, hinner, Writer.deindent_write_indent hline, write_append, write_append]

theorem emitEmpty_eq (m : Method) (w : Writer) : m.emitEmpty w = w.write m.emptyBlock := by
  refine m.emitBlock_eq (fun w => ?_) w
  rw [emitParameters_eq, Annotation.emitAll_eq, write_append]

end Method

/-- Writes the block of a method with a body part by part. -/
def Body.emit (b : Body) (l : Listing) : Writer → Writer :=
  b.method.emitBlock fun w =>
    let w := b.method.emitParameters (w.write b.registerDirective)
    let w := Annotation.emitAll w b.method.annotations
    l.entries.foldl (Entry.emit (b.scope l)) (w.put '\n')

theorem Body.emit_eq (b : Body) (l : Listing) (w : Writer) :
    b.emit l w = w.write (b.block l) := by
  refine b.method.emitBlock_eq (fun w => ?_) w
  simp only [Method.emitParameters_eq, Annotation.emitAll_eq, Entry.foldl_emit, put_newline,
    write_append]

/-! ### Calls -/

/-- A call that finds out what there is to write, which can fail, and then writes it. -/
def emitting {α : Type} (found : Except Failure α) (emit : α → Writer → Writer) (w : Writer) :
    Writer × Except Failure Unit :=
  match found with
  | .ok x => (emit x w, .ok ())
  | .error f => (w, .error f)

/-- A number of calls in a row, all of which go well. -/
inductive Calls (call : Writer → Writer × Except Failure Unit) : Nat → Writer → Writer → Prop
  | none (w : Writer) : Calls call 0 w w
  | more {k : Nat} {w w₁ w' : Writer} :
      call w = (w₁, .ok ()) → Calls call k w₁ w' → Calls call (k + 1) w w'

/-- What a call does to a writer. -/
structure Framed (call : Writer → Writer × Except Failure Unit) : Prop where
  /-- Whether it goes well does not depend on the writer. -/
  uniform : ∀ w w', (call w).2 = (call w').2
  /-- A call that fails leaves the writer as it is. -/
  failed : ∀ w f, (call w).2 = .error f → (call w).1 = w
  /-- A call that goes well can be made again and again. -/
  repeatable : ∀ w, (call w).2 = .ok () → ∀ k, ∃ w', Calls call k w w'
  /-- A call that goes well appends a block that depends on the margin and on whether a line starts.
  It leaves the margin as it is, and a line starts after it. Calls in a row, the first of which is
  at the start of a line, append the same block each. -/
  appended : ∃ block : Nat → Bool → String,
    (∀ w, (call w).2 = .ok () →
      (call w).1 = ⟨w.text ++ block w.margin w.atLineStart, w.margin, true⟩) ∧
    ∀ k w w', w.atLineStart → Calls call k w w' →
      w' = ⟨w.text ++ String.join (List.replicate k (block w.margin true)), w.margin, true⟩

section

variable {call : Writer → Writer × Except Failure Unit}

theorem exists_calls (huniform : ∀ w w', (call w).2 = (call w').2) {w : Writer}
    (hok : (call w).2 = .ok ()) (k : Nat) : ∃ w', Calls call k w w' := by
  induction k generalizing w with
  | zero => exact ⟨w, .none w⟩
  | succ k ih =>
      obtain ⟨w', hcalls⟩ := ih ((huniform (call w).1 w).trans hok)
      exact ⟨w', .more (Prod.ext rfl hok) hcalls⟩

/-- Calls in a row append what each of them appends. -/
theorem Calls.text_eq {block : Nat → Bool → String}
    (hcall : ∀ w, (call w).2 = .ok () →
      (call w).1 = ⟨w.text ++ block w.margin w.atLineStart, w.margin, true⟩)
    {k : Nat} {w w' : Writer} (h : Calls call k w w') (hw : w.atLineStart) :
    w' = ⟨w.text ++ String.join (List.replicate k (block w.margin true)), w.margin, true⟩ := by
  induction h with
  | none w =>
      obtain ⟨text, margin, fresh⟩ := w
      obtain rfl : fresh = true := hw
      simp
  | more hfirst _ ih =>
      -- the first call leaves the writer at the start of a line, in the margin there was
      have hfirst' := hcall _ (by rw [hfirst])
      rw [hfirst] at hfirst'
      subst hfirst'
      rw [ih rfl, hw, List.replicate_succ, String.join_cons, String.append_assoc]

/-- A call that writes whole lines is framed. -/
theorem framed_emitting {α : Type} (found : Except Failure α) {emit : α → Writer → Writer}
    {text : α → String} (htext : ∀ x w, emit x w = w.write (text x))
    (hline : ∀ x (w : Writer), (w.write (text x)).atLineStart) : Framed (emitting found emit) := by
  have hblock : ∃ block : Nat → Bool → String, ∀ w, (emitting found emit w).2 = .ok () →
      (emitting found emit w).1 = ⟨w.text ++ block w.margin w.atLineStart, w.margin, true⟩ := by
    cases found with
    | error f => exact ⟨fun _ _ => "", fun _ hok => by cases hok⟩
    | ok x =>
        refine ⟨fun n fresh => String.ofList (Text.shift n fresh (text x).toList), fun w _ => ?_⟩
        have hend : Text.startsLine w.atLineStart (text x).toList := by
          simpa only [Writer.write_eq] using hline x w
        rw [emitting, htext, Writer.write_eq, hend]
  have huniform : ∀ w w', (emitting found emit w).2 = (emitting found emit w').2 := by
    intro w w'
    cases found <;> rfl
  obtain ⟨block, hcall⟩ := hblock
  refine ⟨huniform, ?failed, fun w hok => exists_calls huniform hok, block, hcall,
    fun k w w' hw h => h.text_eq hcall hw⟩
  case failed =>
    intro w f hf
    cases found with
    | error _ => rfl
    | ok _ => cases hf

end

theorem Method.atLineStart_write_footer (w : Writer) (s : String) :
    (w.write (s ++ footer)).atLineStart := by
  rw [write_append]
  rfl

theorem Body.write_eq_emitting (b : Body) : b.write = emitting b.listing b.emit := by
  funext w
  cases hl : b.listing with
  | error f => rw [write, hl, emitting]
  | ok l => rw [write, hl, emitting, emit_eq]

theorem Method.writeEmpty_eq_emitting (m : Method) :
    m.writeEmpty = emitting (m.parameterRegisters.mapError m.blame) fun _ => m.emitEmpty := by
  funext w
  cases hp : m.parameterRegisters with
  | error f =>
      rw [writeEmpty, hp]
      rfl
  | ok n =>
      rw [writeEmpty, hp, ← emitEmpty_eq]
      rfl

/-- **To write a method changes a writer as a whole or not at all.** What can fail comes first; the
parts are written after it, each in its margin. So a failure leaves the writer as it is, and else
the writer has one block more and the margin it had. -/
theorem write_framed :
    (∀ b : Body, b.write = emitting b.listing b.emit ∧ Framed b.write) ∧
      ∀ m : Method,
        m.writeEmpty = emitting (m.parameterRegisters.mapError m.blame) (fun _ => m.emitEmpty) ∧
        Framed m.writeEmpty := by
  refine ⟨fun b => ⟨b.write_eq_emitting, ?_⟩, fun m => ⟨m.writeEmpty_eq_emitting, ?_⟩⟩
  · rw [b.write_eq_emitting]
    exact framed_emitting _ b.emit_eq fun l w => Method.atLineStart_write_footer w _
  · rw [m.writeEmpty_eq_emitting]
    exact framed_emitting _ (fun _ => m.emitEmpty_eq) fun _ w => Method.atLineStart_write_footer w _

end Dalvik
