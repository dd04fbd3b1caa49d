import Dalvik.Method
import Dalvik.Proofs.Descriptor

/-!
# Prototype — the descriptors of methods

The parameters of a method stand in its descriptor without anything between them. Reading takes one
type after the other as long as there is one, and stops at the closing parenthesis, with which no
type starts. As the written form of a type shows where it ends, the types read are the only ones
that the text can be made of (`Prototype.parse?_eq_some_iff`): class names may have the letters of
types in them, or brackets.

`Prototype.Spells` says that a text is that of well-formed types. `ofDescriptor_spelled` says that
the texts of prototypes are the ones that are read, and what method comes of them.
-/

namespace Dalvik

namespace Descriptor

variable {d : Descriptor} {ds : List Descriptor} {cs rest : List Char} {n : Nat}

theorem length_text_pos (d : Descriptor) : 0 < d.text.toList.length := by
  cases d <;> simp [text]

theorem length_le_length_texts (ds : List Descriptor) :
    ds.length ≤ (ds.flatMap (·.text.toList)).length := by
  induction ds with
  | nil => exact Nat.le_refl 0
  | cons d ds ih =>
      have hd := d.length_text_pos
      simp only [List.flatMap_cons, List.length_append, List.length_cons]
      omega

/-- The types that are read are well-formed, and their written forms are what was taken from the
text. -/
theorem wellFormed_of_readMany (h : readMany n cs = (ds, rest)) :
    (∀ d ∈ ds, d.WellFormed) ∧ cs = ds.flatMap (·.text.toList) ++ rest := by
  induction n generalizing cs ds with
  | zero =>
      cases h
      exact ⟨by simp, rfl⟩
  | succ n ih =>
      rw [readMany] at h
      split at h
      case h_1 hread =>
        cases h
        exact ⟨by simp, rfl⟩
      case h_2 d tail hread =>
        cases h
        obtain ⟨hd, rfl⟩ := wellFormed_of_read? hread
        obtain ⟨hds, htail⟩ := ih (rfl : readMany n tail = (_, _))
        refine ⟨by simpa using ⟨hd, hds⟩, ?_⟩
        rw [List.flatMap_cons, List.append_assoc, ← htail]

/-- Well-formed types are read from their written forms, if no type can be read from what follows
them. -/
theorem readMany_texts (hds : ∀ d ∈ ds, d.WellFormed) (hn : ds.length ≤ n)
    (hrest : read? rest = none) :
    readMany n (ds.flatMap (·.text.toList) ++ rest) = (ds, rest) := by
  induction ds generalizing n with
  | nil => cases n <;> simp [readMany, hrest]
  | cons d ds ih =>
      obtain ⟨m, rfl⟩ : ∃ m, n = m + 1 := ⟨n - 1, by simp at hn; omega⟩
      obtain ⟨hd, hds⟩ := List.forall_mem_cons.mp hds
      have hm : ds.length ≤ m := by simpa using hn
      rw [List.flatMap_cons, List.append_assoc, readMany, read?_text hd]
      simp only [ih hds hm]

end Descriptor

namespace Prototype

/-- The text is made of the written forms of well-formed types: those of the parameters in
parentheses, one directly after the other, and then that of the result. -/
structure Spells (p : Prototype) (s : String) : Prop where
  /-- The types of the parameters are well-formed. -/
  parameters : ∀ d ∈ p.parameters, d.WellFormed
  /-- The type of the result is well-formed. -/
  returnType : p.returnType.WellFormed
  /-- The text. -/
  text : s = "(" ++ String.join (p.parameters.map Descriptor.text) ++ ")" ++ p.returnType.text

variable {p q : Prototype} {s : String}

theorem toList_text (p : Prototype) : p.text.toList =
    '(' :: (p.parameters.flatMap (·.text.toList) ++ ')' :: p.returnType.text.toList) := by
  simp [text, String.toList_join, List.flatMap_map]

/-- No type starts with a closing parenthesis. -/
theorem read?_parenthesis (cs : List Char) : Descriptor.read? (')' :: cs) = none := rfl

theorem parse?_text (h : p.Spells s) : parse? p.text = some p := by
  -- a written form has a character at least, so reading does not stop before the last parameter
  have hlength : p.parameters.length
      ≤ (p.parameters.flatMap (·.text.toList) ++ ')' :: p.returnType.text.toList).length := by
    have hle := Descriptor.length_le_length_texts p.parameters
    rw [List.length_append]
    omega
  have hresult := Descriptor.read?_text h.returnType []
  rw [List.append_nil] at hresult
  rw [parse?, toList_text]
  simp only [Descriptor.readMany_texts h.parameters hlength (read?_parenthesis _), hresult]

theorem spells_of_parse? (h : parse? s = some p) : p.Spells s := by
  unfold parse? at h
  split at h
  case h_2 => cases h
  case h_1 cs hs =>
    split at h
    case h_2 => cases h
    case h_1 parameters rest hmany =>
      split at h
      case h_2 => cases h
      case h_1 returnType hread =>
        cases h
        obtain ⟨hparameters, rfl⟩ := Descriptor.wellFormed_of_readMany hmany
        obtain ⟨hresult, rfl⟩ := Descriptor.wellFormed_of_read? hread
        refine ⟨hparameters, hresult, String.toList_inj.mp ?_⟩
        rw [hs, List.append_nil]
        exact (toList_text ⟨parameters, returnType⟩).symm

/-- **The types of a method are read just from their written forms.** -/
theorem parse?_eq_some_iff : parse? s = some p ↔ p.Spells s := by
  constructor
  · exact spells_of_parse?
  · intro h
    rw [h.text]
    exact parse?_text h

/-- A name may have in it what types start with. -/
example : parse? "(LI[J;I)V" = some ⟨[.object "I[J", .primitive .int], .primitive .void⟩ := rfl

theorem parse_eq_ok_iff : parse s = .ok p ↔ p.Spells s := by
  rw [← parse?_eq_some_iff, parse]
  cases parse? s <;> simp

theorem parse_eq_error (h : ∀ p : Prototype, ¬ p.Spells s) :
    parse s = .error (.methodDescriptor s) := by
  cases hp : parse? s with
  | none => rw [parse, hp]
  | some p => exact absurd (parse?_eq_some_iff.mp hp) (h p)

/-- **A text is that of one prototype at most.** -/
theorem Spells.unique (hp : p.Spells s) (hq : q.Spells s) : p = q :=
  Option.some.inj ((parse?_eq_some_iff.mpr hp).symm.trans (parse?_eq_some_iff.mpr hq))

end Prototype

namespace Method

/-- The method of a prototype: its parameters have types only, and it has no annotations. -/
def ofPrototype (definingClass name : String) (flags : AccessFlags) (p : Prototype) : Method :=
  ⟨definingClass, name, flags, p.parameters.map fun type => ⟨type, none, []⟩, p.returnType, []⟩

variable {definingClass name s : String} {flags : AccessFlags} {m : Method} {p : Prototype}

theorem ofDescriptor_eq_map : ofDescriptor definingClass name flags s =
    (Prototype.parse s).map (ofPrototype definingClass name flags) := by
  rw [ofDescriptor]
  cases Prototype.parse s <;> rfl

theorem prototype_ofPrototype :
    (ofPrototype definingClass name flags p).prototype = p := by
  simp [ofPrototype, prototype, Function.comp_def]

theorem ofDescriptor_eq_ok_iff : ofDescriptor definingClass name flags s = .ok m ↔
    ∃ p : Prototype, p.Spells s ∧ m = ofPrototype definingClass name flags p := by
  rw [ofDescriptor_eq_map]
  constructor
  · intro h
    cases hp : Prototype.parse s with
    | error f => rw [hp] at h; cases h
    | ok p =>
        rw [hp] at h
        cases h
        exact ⟨p, Prototype.parse_eq_ok_iff.mp hp, rfl⟩
  · rintro ⟨p, hp, rfl⟩
    rw [Prototype.parse_eq_ok_iff.mpr hp]
    rfl

theorem ofDescriptor_eq_error (h : ∀ p : Prototype, ¬ p.Spells s) :
    ofDescriptor definingClass name flags s = .error (.methodDescriptor s) := by
  rw [ofDescriptor_eq_map, Prototype.parse_eq_error h]
  rfl

/-- What becomes of a text that is read as the descriptor of a method. -/
structure ReadAsMethod (definingClass name : String) (flags : AccessFlags) (s : String) :
    Prop where
  /-- There is a method just for the text of a prototype. -/
  accepted : (∃ m, ofDescriptor definingClass name flags s = .ok m) ↔ ∃ p : Prototype, p.Spells s
  /-- The text is then that of one prototype only. -/
  unique : ∀ m, ofDescriptor definingClass name flags s = .ok m → ∃! p : Prototype, p.Spells s
  /-- The method has the types of the prototype, in their order, and what else was given; it has no
  names of parameters and no annotations. -/
  types : ∀ m (p : Prototype), ofDescriptor definingClass name flags s = .ok m → p.Spells s →
    m = ⟨definingClass, name, flags, p.parameters.map fun type => ⟨type, none, []⟩,
      p.returnType, []⟩
  /-- Its descriptor is the text. -/
  written : ∀ m, ofDescriptor definingClass name flags s = .ok m → m.descriptor = s
  /-- Any other text is refused as a descriptor. -/
  refused : (∀ p : Prototype, ¬ p.Spells s) →
    ∃ f, ofDescriptor definingClass name flags s = .error f ∧ f.kind = .invalidDescriptor

/-- **The descriptors of methods are the texts of prototypes**, and well-formed types are read back
from the descriptor of a method that has them. -/
theorem ofDescriptor_spelled (definingClass name : String) (flags : AccessFlags) :
    (∀ s, ReadAsMethod definingClass name flags s) ∧
      ∀ (parameters : List Descriptor) (returnType : Descriptor),
        (∀ d ∈ parameters, d.WellFormed) → returnType.WellFormed →
          ∃ m, ofDescriptor definingClass name flags (Prototype.text ⟨parameters, returnType⟩)
              = .ok m ∧
            m.parameters.map (·.type) = parameters ∧ m.returnType = returnType := by
  constructor
  · intro s
    refine ⟨⟨?_, ?_⟩, ?_, ?_, ?_, fun h => ⟨_, ofDescriptor_eq_error h, rfl⟩⟩
    · rintro ⟨m, hm⟩
      obtain ⟨p, hp, -⟩ := ofDescriptor_eq_ok_iff.mp hm
      exact ⟨p, hp⟩
    · rintro ⟨p, hp⟩
      exact ⟨_, ofDescriptor_eq_ok_iff.mpr ⟨p, hp, rfl⟩⟩
    · intro m hm
      obtain ⟨p, hp, -⟩ := ofDescriptor_eq_ok_iff.mp hm
      exact ⟨p, hp, fun q hq => hq.unique hp⟩
    · intro m p hm hp
      obtain ⟨q, hq, rfl⟩ := ofDescriptor_eq_ok_iff.mp hm
      rw [hq.unique hp]
      rfl
    · intro m hm
      obtain ⟨p, hp, rfl⟩ := ofDescriptor_eq_ok_iff.mp hm
      rw [descriptor, prototype_ofPrototype]
      exact hp.text.symm
  · intro parameters returnType hparameters hreturn
    have hspells : Prototype.Spells ⟨parameters, returnType⟩ _ := ⟨hparameters, hreturn, rfl⟩
    exact ⟨_, ofDescriptor_eq_ok_iff.mpr ⟨_, hspells, rfl⟩,
      congrArg Prototype.parameters prototype_ofPrototype, rfl⟩

end Method

end Dalvik
