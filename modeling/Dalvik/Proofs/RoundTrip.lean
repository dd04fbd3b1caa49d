import Dalvik.Code.Datum
import Dalvik.Proofs.Opcode
import Mathlib.Data.List.Forall2

/-!
# RoundTrip — stored code and options are read back

Every value is stored with all its fields, and is read from what it is stored as. When read, some
fields may be missing and then have a default (`Datum.default?`); so from what is stored, such
fields may be left out where they hold their default, in any of the records it consists of
(`Datum.Trims`), and it is still read as the same value. `LawfulCodec` states this of a type.

The proofs go by the types. A record is read field by field: the field is there, or it has been left
out and its value was the default (`Omits.lookup`). A list is read element by element. A missing
value is stored as null, which is what no other value is stored as (`NonNull`).
-/

namespace Dalvik

namespace Datum

/-- The default of a field that may be missing, by the name of the field. -/
def default? : String → Option Datum
  | "registers" | "try_blocks" | "debug_items" => some (.list [])
  | "literal" | "reference" | "code_offset" | "payload" => some .null
  | "exception_type" | "name" | "type_desc" | "signature" => some .null
  | "emit-debug-info" | "parameter-registers" => some (.bool true)
  | "emit-locals-directive" | "sequential-labels" | "emit-code-offset-comments" =>
    some (.bool false)
  | _ => none

/-- Of the fields some are left out that have their default; the others are related by `R`. -/
inductive Omits (R : Datum → Datum → Prop) :
    List (String × Datum) → List (String × Datum) → Prop where
  | nil : Omits R [] []
  | keep {name : String} {d e : Datum} {fs gs : List (String × Datum)} (hd : R d e)
      (h : Omits R fs gs) : Omits R ((name, d) :: fs) ((name, e) :: gs)
  | drop {name : String} {d : Datum} {fs gs : List (String × Datum)} (hd : default? name = some d)
      (h : Omits R fs gs) : Omits R ((name, d) :: fs) gs

/-- The second datum is the first without some of the fields, of any of its records, that may be
missing and have their default. -/
inductive Trims : Datum → Datum → Prop where
  | same (d : Datum) : Trims d d
  | list {ds es : List Datum} (h : List.Forall₂ Trims ds es) : Trims (.list ds) (.list es)
  | record {fs gs : List (String × Datum)} (h : Omits Trims fs gs) :
      Trims (.record fs) (.record gs)

end Datum

open Datum (Trims Omits default?)

/-- What a value is stored as is read as the value, whatever has been left out that may be. -/
class LawfulCodec (α : Type) [Codec α] : Prop where
  decode_of_trims : ∀ {a : α} {d : Datum}, Trims (encode a) d → decode d = .ok a

/-- No value is stored as null. -/
class NonNull (α : Type) [Codec α] : Prop where
  encode_ne_null : ∀ a : α, encode a ≠ Datum.null

export LawfulCodec (decode_of_trims)
export NonNull (encode_ne_null)

/-! ### What can be left out -/

namespace Datum

variable {d e : Datum} {name : String} {fs gs : List (String × Datum)}

theorem Omits.same (fs : List (String × Datum)) : Omits Trims fs fs := by
  induction fs with
  | nil => exact .nil
  | cons f fs ih => exact .keep (.same f.2) ih

theorem Omits.lookup_eq_none {R : Datum → Datum → Prop} (h : Omits R fs gs)
    (hname : name ∉ fs.map Prod.fst) : gs.lookup name = none := by
  induction h with
  | nil => rfl
  | keep _ _ ih =>
      rw [List.map_cons, List.mem_cons, not_or] at hname
      rw [List.lookup_cons, beq_eq_false_iff_ne.mpr hname.1]
      exact ih hname.2
  | drop _ _ ih => exact ih fun hmem => hname (List.mem_cons_of_mem _ hmem)

/-- A field is there, or it has been left out and had its default. -/
theorem Omits.lookup {R : Datum → Datum → Prop} (h : Omits R fs gs)
    (hfs : (fs.map Prod.fst).Nodup) (hd : fs.lookup name = some d) :
    (∃ e, gs.lookup name = some e ∧ R d e) ∨
      gs.lookup name = none ∧ default? name = some d := by
  induction h with
  | nil => cases hd
  | @keep n _ e _ _ he _ ih =>
      rw [List.map_cons, List.nodup_cons] at hfs
      rw [List.lookup_cons] at hd ⊢
      by_cases hn : name = n
      · rw [beq_iff_eq.mpr hn] at hd ⊢
        cases hd
        exact .inl ⟨e, rfl, he⟩
      · rw [beq_eq_false_iff_ne.mpr hn] at hd ⊢
        exact ih hfs.2 hd
  | @drop n _ _ _ hdefault h ih =>
      rw [List.map_cons, List.nodup_cons] at hfs
      rw [List.lookup_cons] at hd
      by_cases hn : name = n
      · subst hn
        rw [beq_self_eq_true] at hd
        cases hd
        -- the names differ, so no other field has taken the place
        exact .inr ⟨h.lookup_eq_none hfs.1, hdefault⟩
      · rw [beq_eq_false_iff_ne.mpr hn] at hd
        exact ih hfs.2 hd

theorem Trims.exists_list {ds : List Datum} (h : Trims (.list ds) d) :
    ∃ es, d = .list es ∧ List.Forall₂ Trims ds es := by
  cases h with
  | same => exact ⟨ds, rfl, List.forall₂_same.mpr fun d _ => .same d⟩
  | list h => exact ⟨_, rfl, h⟩

theorem Trims.exists_record (h : Trims (.record fs) d) :
    ∃ gs, d = .record gs ∧ Omits Trims fs gs := by
  cases h with
  | same => exact ⟨fs, rfl, .same fs⟩
  | record h => exact ⟨_, rfl, h⟩

/-- A variant keeps its name. -/
theorem Trims.exists_variant (hname : default? name = none) (h : Trims (.variant name d) e) :
    ∃ content, e = .variant name content ∧ Trims d content := by
  obtain ⟨gs, rfl, hgs⟩ := h.exists_record
  cases hgs with
  | keep hd hrest =>
      cases hrest
      exact ⟨_, rfl, hd⟩
  | drop hdefault _ =>
      rw [hname] at hdefault
      cases hdefault

/-- What is not null is not made null. -/
theorem Trims.ne_null (h : Trims d e) (hd : d ≠ .null) : e ≠ .null := by
  cases h with
  | same => exact hd
  | list | record => exact Datum.noConfusion

end Datum

/-! ### Single values, lists and missing values -/

instance : LawfulCodec Bool where
  decode_of_trims h := by
    cases h
    rfl

instance : LawfulCodec String where
  decode_of_trims h := by
    cases h
    rfl

theorem Datum.natBelow_int {n limit : Nat} (h : n < limit) :
    Datum.natBelow limit (.int n) = .ok n := by
  rw [Datum.natBelow, if_pos ⟨by omega, by omega⟩, Int.toNat_natCast]

theorem Datum.intWithin_int {n : Int} {limit : Nat} (h : -limit ≤ n ∧ n < limit) :
    Datum.intWithin limit (.int n) = .ok n := if_pos h

instance : LawfulCodec UInt16 where
  decode_of_trims {n} {d} h := by
    cases h
    show (Datum.natBelow UInt16.size (.int n.toNat)).map UInt16.ofNat = .ok n
    rw [Datum.natBelow_int n.toNat_lt]
    exact congrArg _ (UInt16.ofNat_toNat)

instance : LawfulCodec UInt32 where
  decode_of_trims {n} {d} h := by
    cases h
    show (Datum.natBelow UInt32.size (.int n.toNat)).map UInt32.ofNat = .ok n
    rw [Datum.natBelow_int n.toNat_lt]
    exact congrArg _ (UInt32.ofNat_toNat)

instance : LawfulCodec Int32 where
  decode_of_trims {n} {d} h := by
    cases h
    have h : Datum.intWithin (UInt32.size / 2) (.int n.toInt) = .ok n.toInt :=
      Datum.intWithin_int ⟨n.le_toInt, n.toInt_lt⟩
    show (Datum.intWithin (UInt32.size / 2) (.int n.toInt)).map Int32.ofInt = .ok n
    rw [h]
    exact congrArg _ (Int32.ofInt_toInt n)

instance : LawfulCodec Int64 where
  decode_of_trims {n} {d} h := by
    cases h
    have h : Datum.intWithin (UInt64.size / 2) (.int n.toInt) = .ok n.toInt :=
      Datum.intWithin_int ⟨n.le_toInt, n.toInt_lt⟩
    show (Datum.intWithin (UInt64.size / 2) (.int n.toInt)).map Int64.ofInt = .ok n
    rw [h]
    exact congrArg _ (Int64.ofInt_toInt n)

instance : LawfulCodec Opcode where
  decode_of_trims {o} {d} h := by
    cases h
    simp only [encode, decode, o.ofMnemonic?_mnemonic]

theorem mapM_decode {α : Type} [Codec α] [LawfulCodec α] {as : List α} {ds : List Datum}
    (h : List.Forall₂ Trims (as.map encode) ds) : ds.mapM decode = Except.ok as := by
  induction as generalizing ds with
  | nil =>
      cases h
      rfl
  | cons a as ih =>
      cases h with
      | cons ha has =>
          rw [List.mapM_cons, decode_of_trims ha, ih has]
          rfl

instance {α : Type} [Codec α] [LawfulCodec α] : LawfulCodec (List α) where
  decode_of_trims h := by
    obtain ⟨ds, rfl, hds⟩ := Datum.Trims.exists_list h
    exact mapM_decode hds

instance {α : Type} [Codec α] [LawfulCodec α] [NonNull α] : LawfulCodec (Option α) where
  decode_of_trims {a} {d} h := by
    cases a with
    | none =>
        cases h
        rfl
    | some a =>
        have hd : d ≠ .null := Datum.Trims.ne_null h (encode_ne_null a)
        have ha : decode d = .ok a := decode_of_trims h
        cases d with
        | null => exact absurd rfl hd
        | _ => exact congrArg (Except.map some) ha

instance : NonNull String where
  encode_ne_null _ := Datum.noConfusion

instance : NonNull Int32 where
  encode_ne_null _ := Datum.noConfusion

instance : NonNull Int64 where
  encode_ne_null _ := Datum.noConfusion

/-! ### Fields -/

/-- The fields that are read are the named ones of a record, without some that have their
default. -/
structure Fields.Trimmed (r : Fields) (fs : List (String × Datum)) : Prop where
  nodup : (fs.map Prod.fst).Nodup
  omits : Omits Trims fs r.entries
  named : r.named = true

theorem Datum.Trims.exists_fields {fs : List (String × Datum)} {d : Datum}
    (h : Trims (.record fs) d) (hfs : (fs.map Prod.fst).Nodup) :
    ∃ r : Fields, (∀ names, d.fields names = .ok r) ∧ r.Trimmed fs := by
  obtain ⟨gs, rfl, hgs⟩ := h.exists_record
  exact ⟨⟨gs, true⟩, fun _ => rfl, hfs, hgs, rfl⟩

theorem Datum.Trims.exists_variantFields {name : String} {fs : List (String × Datum)} {d : Datum}
    (hname : default? name = none) (h : Trims (.variant name (.record fs)) d)
    (hfs : (fs.map Prod.fst).Nodup) :
    ∃ content r, d = .variant name content ∧ content.namedFields = .ok r ∧ r.Trimmed fs := by
  obtain ⟨content, rfl, hcontent⟩ := h.exists_variant hname
  obtain ⟨gs, rfl, hgs⟩ := hcontent.exists_record
  exact ⟨.record gs, ⟨gs, true⟩, rfl, rfl, hfs, hgs, rfl⟩

namespace Fields.Trimmed

variable {α : Type} [Codec α] [LawfulCodec α] {a : α} {r : Fields} {name : String}
  {fs : List (String × Datum)}

/-- A field is read, from what it is stored as or, where it has been left out, from its default. -/
theorem read (h : r.Trimmed fs) (ha : fs.lookup name = some (encode a))
    {missing : Except DatumFault α}
    (hmissing : default? name = some (encode a) → missing = .ok a) :
    (match r.get? name with
      | some d => decode d
      | none => missing) = .ok a := by
  obtain ⟨d, hd, htrims⟩ | ⟨hnone, hdefault⟩ := h.omits.lookup h.nodup ha
  · rw [Fields.get?, hd]
    exact decode_of_trims htrims
  · rw [Fields.get?, hnone]
    exact hmissing hdefault

theorem required (h : r.Trimmed fs) (ha : fs.lookup name = some (encode a))
    (hname : default? name = none) : r.required name = .ok a :=
  h.read ha fun hdefault => by
    rw [hname] at hdefault
    cases hdefault

theorem withDefault {dflt : α} (h : r.Trimmed fs) (ha : fs.lookup name = some (encode a))
    (hname : default? name = some (encode dflt)) : r.withDefault name dflt = .ok a :=
  h.read ha fun hdefault => by
    rw [hname, Option.some.injEq] at hdefault
    -- two values are not stored alike
    have hdflt : decode (encode dflt) = Except.ok dflt := decode_of_trims (.same _)
    rw [← hdflt, hdefault]
    exact decode_of_trims (.same _)

theorem optional [NonNull α] {a : Option α} (h : r.Trimmed fs)
    (ha : fs.lookup name = some (encode a)) (hname : default? name = some .null) :
    r.optional name = .ok a :=
  h.read ha fun hdefault => by
    rw [hname, Option.some.injEq] at hdefault
    cases a with
    | none => exact if_pos h.named
    | some a => exact absurd hdefault.symm (encode_ne_null a)

end Fields.Trimmed

/-! ### Code and options -/

section Types

open Datum (variant?)

instance : LawfulCodec SparseCase where
  decode_of_trims {c} {d} h := by
    obtain ⟨ds, rfl, hds⟩ := Datum.Trims.exists_list h
    cases hds with
    | cons hkey hrest =>
        cases hrest with
        | cons htarget hrest =>
            cases hrest
            have hkey : decode _ = Except.ok c.key := decode_of_trims hkey
            have htarget : decode _ = Except.ok c.target := decode_of_trims htarget
            simp only [decode, bind, Except.bind] at hkey htarget ⊢
            rw [hkey, htarget]
            rfl

instance : LawfulCodec Payload where
  decode_of_trims {p} {d} h := by
    cases p with
    | packedSwitch firstKey targets =>
        obtain ⟨content, r, rfl, hr, h⟩ := Datum.Trims.exists_variantFields rfl h (by simp)
        have hkey : r.required "first_key" = .ok firstKey := h.required rfl rfl
        have htargets : r.required "targets" = .ok targets := h.required rfl rfl
        simp only [decode, Datum.variant, variant?, bind, Except.bind, hr, hkey, htargets]
        rfl
    | sparseSwitch entries =>
        obtain ⟨content, r, rfl, hr, h⟩ := Datum.Trims.exists_variantFields rfl h (by simp)
        have hentries : r.required "entries" = .ok entries := h.required rfl rfl
        simp only [decode, Datum.variant, variant?, bind, Except.bind, hr, hentries]
        rfl
    | arrayData width elements =>
        obtain ⟨content, r, rfl, hr, h⟩ := Datum.Trims.exists_variantFields rfl h (by simp)
        have hwidth : r.required "element_width" = .ok width := h.required rfl rfl
        have helements : r.required "elements" = .ok elements := h.required rfl rfl
        simp only [decode, Datum.variant, variant?, bind, Except.bind, hr, hwidth, helements]
        rfl

instance : NonNull Payload where
  encode_ne_null p := by cases p <;> exact Datum.noConfusion

instance : LawfulCodec Instruction where
  decode_of_trims {i} {d} h := by
    obtain ⟨r, hr, h⟩ := Datum.Trims.exists_fields h (by simp)
    have hopcode : r.required "opcode" = .ok i.opcode := h.required rfl rfl
    have hunits : r.required "code_units" = .ok i.codeUnits := h.required rfl rfl
    have hregisters : r.withDefault "registers" [] = .ok i.registers := h.withDefault rfl rfl
    have hliteral : r.withDefault "literal" none = .ok i.literal := h.withDefault rfl rfl
    have hreference : r.withDefault "reference" none = .ok i.reference := h.withDefault rfl rfl
    have hoffset : r.withDefault "code_offset" none = .ok i.codeOffset := h.withDefault rfl rfl
    have hpayload : r.withDefault "payload" none = .ok i.payload := h.withDefault rfl rfl
    simp only [decode, bind, Except.bind, hr, hopcode, hunits, hregisters, hliteral, hreference,
      hoffset, hpayload]
    rfl

instance : LawfulCodec Handler where
  decode_of_trims {t} {d} h := by
    obtain ⟨r, hr, h⟩ := Datum.Trims.exists_fields h (by simp)
    have htype : r.optional "exception_type" = .ok t.exceptionType := h.optional rfl rfl
    have haddress : r.required "handler_code_offset" = .ok t.address := h.required rfl rfl
    simp only [decode, bind, Except.bind, hr, htype, haddress]
    rfl

instance : LawfulCodec TryBlock where
  decode_of_trims {t} {d} h := by
    obtain ⟨r, hr, h⟩ := Datum.Trims.exists_fields h (by simp)
    have hstart : r.required "start_code_offset" = .ok t.start := h.required rfl rfl
    have hcount : r.required "code_unit_count" = .ok t.count := h.required rfl rfl
    have hhandlers : r.required "handlers" = .ok t.handlers := h.required rfl rfl
    simp only [decode, bind, Except.bind, hr, hstart, hcount, hhandlers]
    rfl

instance : LawfulCodec DebugEvent where
  decode_of_trims {e} {d} h := by
    cases e with
    | line number =>
        obtain ⟨content, rfl, hcontent⟩ := Datum.Trims.exists_variant rfl h
        have hnumber : decode content = Except.ok number := decode_of_trims hcontent
        show Except.bind (decode content) _ = _
        rw [hnumber]
        rfl
    | startLocal register name type signature =>
        obtain ⟨content, r, rfl, hr, h⟩ := Datum.Trims.exists_variantFields rfl h (by simp)
        have hregister : r.required "register" = .ok register := h.required rfl rfl
        have hname : r.optional "name" = .ok name := h.optional rfl rfl
        have htype : r.optional "type_desc" = .ok type := h.optional rfl rfl
        have hsignature : r.optional "signature" = .ok signature := h.optional rfl rfl
        simp only [decode, Datum.variant, variant?, DebugEvent.readStartLocal, bind, Except.bind,
          hr, hregister, hname, htype, hsignature]
        rfl
    | endLocal register | restartLocal register =>
        obtain ⟨content, r, rfl, hr, h⟩ := Datum.Trims.exists_variantFields rfl h (by simp)
        have hregister : r.required "register" = .ok register := h.required rfl rfl
        simp only [decode, Datum.variant, variant?, bind, Except.bind, hr, hregister]
        rfl
    | prologueEnd | epilogueBegin =>
        cases h
        rfl
    | sourceFile name =>
        obtain ⟨content, rfl, hcontent⟩ := Datum.Trims.exists_variant rfl h
        have hname : decode content = Except.ok name := decode_of_trims hcontent
        show Except.bind (decode content) _ = _
        rw [hname]
        rfl

instance : LawfulCodec DebugRecord where
  decode_of_trims {t} {d} h := by
    obtain ⟨r, hr, h⟩ := Datum.Trims.exists_fields h (by simp)
    have haddress : r.required "code_address" = .ok t.address := h.required rfl rfl
    have hevent : r.required "kind" = .ok t.event := h.required rfl rfl
    simp only [decode, bind, Except.bind, hr, haddress, hevent]
    rfl

instance : LawfulCodec Code where
  decode_of_trims {c} {d} h := by
    obtain ⟨r, hr, h⟩ := Datum.Trims.exists_fields h (by simp)
    have hcount : r.required "register_count" = .ok c.registerCount := h.required rfl rfl
    have his : r.required "instructions" = .ok c.instructions := h.required rfl rfl
    have hblocks : r.withDefault "try_blocks" [] = .ok c.tryBlocks := h.withDefault rfl rfl
    have hrecords : r.withDefault "debug_items" [] = .ok c.debugRecords := h.withDefault rfl rfl
    simp only [decode, bind, Except.bind, hr, hcount, his, hblocks, hrecords]
    rfl

instance : LawfulCodec Options where
  decode_of_trims {o} {d} h := by
    obtain ⟨r, hr, h⟩ := Datum.Trims.exists_fields h (by simp)
    have hlocals : r.withDefault "emit-locals-directive" false = .ok o.localsDirective :=
      h.withDefault rfl rfl
    have hdebug : r.withDefault "emit-debug-info" true = .ok o.debugInfo := h.withDefault rfl rfl
    have hlabels : r.withDefault "sequential-labels" false = .ok o.sequentialLabels :=
      h.withDefault rfl rfl
    have hcomments : r.withDefault "emit-code-offset-comments" false = .ok o.offsetComments :=
      h.withDefault rfl rfl
    have hnames : r.withDefault "parameter-registers" true = .ok o.parameterNames :=
      h.withDefault rfl rfl
    simp only [decode, bind, Except.bind, hr, hlocals, hdebug, hlabels, hcomments, hnames]
    rfl

end Types

/-- Code and options are read back from what they are stored as, and from that without any of the
fields that may be missing and have their default, however deep in it they are. -/
theorem stored_read :
    (∀ c : Code, decode (encode c) = .ok c ∧ ∀ d, Trims (encode c) d → decode d = .ok c) ∧
    (∀ o : Options, decode (encode o) = .ok o ∧ ∀ d, Trims (encode o) d → decode d = .ok o) :=
  ⟨fun _ => ⟨decode_of_trims (.same _), fun _ h => decode_of_trims h⟩,
    fun _ => ⟨decode_of_trims (.same _), fun _ h => decode_of_trims h⟩⟩

/-- A table of a switch, covered by a handler for whatever is thrown, and a variable of which only
the name is known. -/
def Code.bareTable : Code where
  registerCount := 2
  instructions := [Instruction.ofPayload (.sparseSwitch [⟨-1, 3⟩])]
  tryBlocks := [⟨0, 4, [⟨none, 0⟩]⟩]
  debugRecords := [⟨0, .startLocal 1 (some "x") none none⟩, ⟨2, .prologueEnd⟩]

/-- The table has no operands, the handler no type, and the variable only its name. -/
def Datum.bareTable : Datum := .record [
  ("register_count", .int 2),
  ("instructions", .list [.record [
    ("opcode", .text "sparse-switch-payload"),
    ("code_units", .int 6),
    ("payload", .variant "SparseSwitch" (.record [
      ("entries", .list [.list [.int (-1), .int 3]])]))]]),
  ("try_blocks", .list [.record [
    ("start_code_offset", .int 0),
    ("code_unit_count", .int 4),
    ("handlers", .list [.record [("handler_code_offset", .int 0)]])]]),
  ("debug_items", .list [
    .record [
      ("code_address", .int 0),
      ("kind", .variant "StartLocal" (.record [("register", .int 1), ("name", .text "x")]))],
    .record [("code_address", .int 2), ("kind", .text "PrologueEnd")]])]

theorem Datum.trims_bareTable : Trims (encode Code.bareTable) .bareTable := by
  have htable : Trims (encode (Instruction.ofPayload (.sparseSwitch [⟨-1, 3⟩]))) _ :=
    .record (.keep (.same _) (.keep (.same _)
      (.drop rfl (.drop rfl (.drop rfl (.drop rfl (.keep (.same _) .nil)))))))
  have hhandler : Trims (encode (⟨none, 0⟩ : Handler)) _ :=
    .record (.drop rfl (.keep (.same _) .nil))
  have hblock : Trims (encode (⟨0, 4, [⟨none, 0⟩]⟩ : TryBlock)) _ :=
    .record (.keep (.same _) (.keep (.same _) (.keep (.list (.cons hhandler .nil)) .nil)))
  have hvariable : Trims (encode (DebugEvent.startLocal 1 (some "x") none none)) _ :=
    .record (.keep (.record (.keep (.same _) (.keep (.same _) (.drop rfl (.drop rfl .nil))))) .nil)
  have hbegin : Trims (encode (⟨0, .startLocal 1 (some "x") none none⟩ : DebugRecord)) _ :=
    .record (.keep (.same _) (.keep hvariable .nil))
  exact .record (.keep (.same _)
    (.keep (.list (.cons htable .nil))
      (.keep (.list (.cons hblock .nil))
        (.keep (.list (.cons hbegin (.cons (.same _) .nil))) .nil))))

theorem stored_read_bareTable :
    decode Datum.bareTable = .ok Code.bareTable ∧ decode (.record []) = .ok ({} : Options) := by
  have hoptions : Trims (encode ({} : Options)) (.record []) :=
    .record (.drop rfl (.drop rfl (.drop rfl (.drop rfl (.drop rfl .nil)))))
  exact ⟨(stored_read.1 .bareTable).2 _ Datum.trims_bareTable, (stored_read.2 {}).2 _ hoptions⟩

end Dalvik
