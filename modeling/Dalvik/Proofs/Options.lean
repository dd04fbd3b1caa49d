import Dalvik.Proofs.Listing

/-!
# Options — what the choices of a listing change

The choices only leave entries out and number labels. One code is listed with all choices or with
none, and with the same fault; the labels are those of the full listing, in the same order, and the
entries are those of the full listing that the choices show (`listing_eq`). The full listing has the
debug records and the comments; what it shows more than another has no labels, and leaving it out
before or after the arrangement is the same.

From this one equation follows what two listings of one code have in common, and what each single
choice changes (`Options.Agree`, `listing_agree`).
-/

namespace Dalvik

/-- The listing of the code of a method. -/
def Method.listing (m : Method) (c : Code) (o : Options) : Except Failure Listing :=
  Body.build m c o >>= Body.listing

namespace Options

/-- Whether a listing with these choices has an entry of a band. -/
def shows (o : Options) (e : Entry) : Bool :=
  match e.band with
  | .debug => o.debugInfo
  | .offsetComment => o.offsetComments
  | _ => true

/-- The choices of a listing that leaves nothing out. -/
def full : Options := { offsetComments := true }

/-- The part of the full listing that a listing with these choices is. -/
def restrict (o : Options) (l : Listing) : Listing where
  entries := l.entries.filter o.shows
  labels := if o.sequentialLabels then l.labels.number else l.labels

/-- What two listings of one code, with the choices `o₁` and `o₂`, have in common. -/
structure Agree (o₁ o₂ : Options) (l₁ l₂ : Listing) : Prop where
  /-- The labels are the same, in the same order. -/
  ids : l₁.labels.ids = l₂.labels.ids
  /-- The entries are the same, debug directives and comments apart. -/
  entries : l₁.entries.filter (fun e => e.band ≠ .debug ∧ e.band ≠ .offsetComment)
    = l₂.entries.filter fun e => e.band ≠ .debug ∧ e.band ≠ .offsetComment
  /-- Without debug information just the debug directives are missing. -/
  debugInfo : o₂ = { o₁ with debugInfo := false } →
    l₂ = { l₁ with entries := l₁.entries.filter (·.band ≠ .debug) }
  /-- Without comments just the comments are missing. -/
  offsetComments : o₂ = { o₁ with offsetComments := false } →
    l₂ = { l₁ with entries := l₁.entries.filter (·.band ≠ .offsetComment) }
  /-- Numbering changes nothing but the numbers of the labels. -/
  sequentialLabels : ∀ numbered, o₂ = { o₁ with sequentialLabels := numbered } →
    l₂.entries = l₁.entries ∧
      l₂.labels.labels.map (fun label => { label with sequence := none })
        = l₁.labels.labels.map fun label => { label with sequence := none }
  /-- How registers are declared and named changes nothing. -/
  registers : ∀ locals names,
    o₂ = { o₁ with localsDirective := locals, parameterNames := names } → l₂ = l₁

end Options

/-! ### Entries that are not shown have no labels -/

theorem Entry.labels_eq_nil {o : Options} {e : Entry} (h : ¬ o.shows e) : e.labels = [] := by
  obtain ⟨x, content⟩ := e
  cases content with
  | offsetComment | debug _ => rfl
  | _ => exact absurd rfl h

theorem flatMap_labels_filter (o : Options) (es : List Entry) :
    (es.filter o.shows).flatMap Entry.labels = es.flatMap Entry.labels := by
  induction es with
  | nil => rfl
  | cons e es ih =>
      by_cases h : o.shows e
      · rw [List.filter_cons_of_pos h, List.flatMap_cons, List.flatMap_cons, ih]
      · rw [List.filter_cons_of_neg h, List.flatMap_cons, Entry.labels_eq_nil h, ih,
          List.nil_append]

/-! ### Stages whose results are changed -/

section Stages

variable {ε α β γ : Type}

theorem bind_eq_map_bind {r : Except ε α} {f : α → Except ε β} {f' : α → Except ε γ} {g : β → γ}
    (h : ∀ a, r = .ok a → f' a = (f a).map g) : r >>= f' = (r >>= f).map g := by
  cases r with
  | error e => rfl
  | ok a => exact h a rfl

theorem map_bind_eq_map_bind {δ : Type} {r : Except ε α} {k : α → δ} {f : α → Except ε β}
    {f' : δ → Except ε γ} {g : β → γ} (h : ∀ a, f' (k a) = (f a).map g) :
    r.map k >>= f' = (r >>= f).map g := by
  cases r with
  | error e => rfl
  | ok a => exact h a

theorem mapM_eq_map_mapM (f : α → Except ε β) (g : β → γ) (xs : List α) :
    xs.mapM (fun x => (f x).map g) = (xs.mapM f).map (List.map g) := by
  induction xs with
  | nil => rfl
  | cons x xs ih =>
      rw [List.mapM_cons, List.mapM_cons, ih]
      cases f x with
      | error e => rfl
      | ok y => cases xs.mapM f <;> rfl

end Stages

namespace LabelTable

/-- The order of the labels depends on their identities alone. -/
theorem sortedIds_eq (t : LabelTable) : t.sortedIds = t.ids.mergeSort LabelId.placeLe := by
  rw [sortedIds, sorted_eq]
  exact List.map_mergeSort fun _ _ _ _ => rfl

theorem sortedIds_number (t : LabelTable) : t.number.sortedIds = t.sortedIds := by
  rw [sortedIds_eq, sortedIds_eq, ids_number]

end LabelTable

namespace Body

variable {m : Method} {c : Code} {o o' : Options} {b : Body}

/-- The body with other choices. -/
def withOptions (b : Body) (o : Options) : Body :=
  { b with options := o, registers := { b.registers with parameterNames := o.parameterNames } }

theorem ofCode_withOptions (m : Method) (c : Code) (o o' : Options) :
    ofCode m c o' = (ofCode m c o).map (·.withOptions o') :=
  bind_eq_map_bind fun _ _ => bind_eq_map_bind fun _ _ => bind_eq_map_bind fun _ _ => rfl

/-! ### What is collected -/

theorem trail_withOptions (b : Body) (o : Options) (p : Placed) :
    (b.withOptions o).trail p = ((b.withOptions .full).trail p).filter o.shows := by
  by_cases hlast : p.index + 1 = b.code.instructions.length <;> by_cases ho : o.offsetComments <;>
    simp [trail, withOptions, Options.full, hlast, ho, Options.shows, Entry.band, Content.band,
      List.filter_cons]

theorem instructionEntries_withOptions (b : Body) (o : Options) (p : Placed) :
    (b.withOptions o).instructionEntries p
      = ((b.withOptions .full).instructionEntries p).map (List.filter o.shows) := by
  refine bind_eq_map_bind fun _ _ => bind_eq_map_bind fun target _ =>
    bind_eq_map_bind fun cases _ => ?_
  exact congrArg (fun trail => Except.ok (_ :: trail)) (trail_withOptions b o p)

theorem debugEntries_withOptions (b : Body) (o : Options) :
    (b.withOptions o).debugEntries = (b.withOptions .full).debugEntries.filter o.shows := by
  have hband : ∀ e ∈ (b.withOptions .full).debugEntries, o.shows e = o.debugInfo := by
    intro e he
    rw [Options.shows, band_debugEntries e he]
  cases hd : o.debugInfo with
  | true =>
      rw [List.filter_eq_self.mpr fun e he => (hband e he).trans hd]
      exact if_pos hd
  | false =>
      rw [List.filter_eq_nil_iff.mpr fun e he => by simp [hband e he, hd]]
      exact if_neg (by simp [withOptions, hd])

theorem collect_withOptions (hb : Built m c o' b) (o : Options) :
    (b.withOptions o).collect = (b.withOptions .full).collect.map (List.filter o.shows) := by
  have hfun : (b.withOptions o).instructionEntries
      = fun p => ((b.withOptions .full).instructionEntries p).map (List.filter o.shows) :=
    funext (instructionEntries_withOptions b o)
  rw [collect, collect, hfun, mapM_eq_map_mapM]
  refine map_bind_eq_map_bind fun ess => bind_eq_map_bind fun rss hrss => ?_
  have hshown : ∀ e ∈ rss.flatten, o.shows e := by
    intro e he
    have hes := ((Guarded.mapM fun t _ => tryEntries_guarded hb.placed t).of_ok hrss).2
    rw [show (b.withOptions o).code = c from hb.code] at hes
    obtain ⟨th, -, p, -, -, -, rfl⟩ := forall₂_mem_right (handlers_flatten hes) he
    rfl
  refine congrArg Except.ok ?_
  rw [List.filter_append, List.filter_append, List.filter_flatten, List.filter_eq_self.mpr hshown,
    ← debugEntries_withOptions]

/-! ### The listing -/

theorem labelsOf_withOptions (b : Body) (o : Options) (es : List Entry) :
    (b.withOptions o).labelsOf (es.filter o.shows)
      = if o.sequentialLabels then ((b.withOptions .full).labelsOf es).number
        else (b.withOptions .full).labelsOf es := by
  rw [labelsOf, flatMap_labels_filter]
  rfl

theorem sortedIds_labelsOf (b : Body) (o : Options) (es : List Entry) :
    ((b.withOptions o).labelsOf (es.filter o.shows)).sortedIds
      = ((b.withOptions .full).labelsOf es).sortedIds := by
  rw [labelsOf_withOptions]
  split
  · exact LabelTable.sortedIds_number _
  · rfl

theorem gather_withOptions (hb : Built m c o' b) (o : Options) :
    (b.withOptions o).gather = (b.withOptions .full).gather.map o.restrict := by
  rw [gather_eq, gather_eq, collect_withOptions hb]
  refine map_bind_eq_map_bind fun es => congrArg Except.ok ?_
  have hlabels : ∀ ids : List LabelId, (ids.map Entry.ofLabel).filter o.shows
      = ids.map Entry.ofLabel := by
    intro ids
    refine List.filter_eq_self.mpr fun e he => ?_
    obtain ⟨id, -, rfl⟩ := List.mem_map.mp he
    rfl
  rw [Options.restrict, Entry.filter_arrange, List.filter_append, hlabels, sortedIds_labelsOf,
    labelsOf_withOptions]

end Body

/-- **A listing is a part of the full one**, and the labels are numbered if that is wanted. -/
theorem listing_eq (m : Method) (c : Code) (o : Options) :
    m.listing c o = (m.listing c .full).map o.restrict := by
  have ho := Body.ofCode_withOptions m c {} o
  have hfull := Body.ofCode_withOptions m c {} .full
  rw [Method.listing, Method.listing, Body.build, Body.build, ho, hfull]
  cases hc : Body.ofCode m c {} with
  | error f => rfl
  | ok b =>
      have hb := ((Body.ofCode_guarded m c {}).of_ok hc).2
      obtain rfl := hb.method
      show (b.withOptions o).gather.mapError b.method.blame
        = ((b.withOptions .full).gather.mapError b.method.blame).map o.restrict
      rw [Body.gather_withOptions hb]
      cases (b.withOptions .full).gather <;> rfl

namespace Options

theorem ids_restrict (o : Options) (l : Listing) : (o.restrict l).labels.ids = l.labels.ids := by
  rw [restrict]
  split
  · exact LabelTable.ids_number _
  · rfl

/-- What every listing shows of the full one. -/
theorem filter_restrict (o : Options) (l : Listing) :
    (o.restrict l).entries.filter (fun e => e.band ≠ .debug ∧ e.band ≠ .offsetComment)
      = l.entries.filter fun e => e.band ≠ .debug ∧ e.band ≠ .offsetComment := by
  rw [restrict, List.filter_filter]
  refine List.filter_congr fun e _ => ?_
  rw [shows]
  cases e.band <;> simp

/-- Choices that show less leave out of a listing what they do not show. -/
theorem restrict_of_shows (o o' : Options) {q : Entry → Bool}
    (hs : o'.sequentialLabels = o.sequentialLabels) (h : ∀ e, o'.shows e = (q e && o.shows e))
    (l : Listing) :
    o'.restrict l = { o.restrict l with entries := (o.restrict l).entries.filter q } := by
  simp only [restrict, hs, List.filter_filter, Listing.mk.injEq, and_true]
  exact List.filter_congr fun e _ => h e

/-- Without their numbers labels are their identities. -/
theorem map_unnumbered (t : LabelTable) :
    t.labels.map (fun label => { label with sequence := none })
      = t.ids.map fun id => ⟨id, none⟩ := by
  rw [LabelTable.ids, List.map_map]
  rfl

/-- Two parts of one full listing agree. -/
theorem agree_restrict (o₁ o₂ : Options) (l : Listing) :
    Agree o₁ o₂ (o₁.restrict l) (o₂.restrict l) where
  ids := by rw [ids_restrict, ids_restrict]
  entries := by rw [filter_restrict, filter_restrict]
  debugInfo := by
    rintro rfl
    refine restrict_of_shows o₁ { o₁ with debugInfo := false } rfl (fun e => ?_) l
    rw [shows, shows]
    cases e.band <;> simp
  offsetComments := by
    rintro rfl
    refine restrict_of_shows o₁ { o₁ with offsetComments := false } rfl (fun e => ?_) l
    rw [shows, shows]
    cases e.band <;> simp
  sequentialLabels := by
    rintro numbered rfl
    refine ⟨rfl, ?_⟩
    rw [map_unnumbered, map_unnumbered, ids_restrict, ids_restrict]
  registers := by
    rintro locals names rfl
    rfl

end Options

/-- **The choices of a listing leave entries out and number labels, and do nothing else**: a code
has a listing with both choices or fails with both, and then with the same fault. -/
theorem listing_agree (m : Method) (c : Code) (o₁ o₂ : Options) :
    (∃ l₁ l₂, m.listing c o₁ = .ok l₁ ∧ m.listing c o₂ = .ok l₂ ∧ Options.Agree o₁ o₂ l₁ l₂) ∨
      ∃ f, m.listing c o₁ = .error f ∧ m.listing c o₂ = .error f := by
  rw [listing_eq m c o₁, listing_eq m c o₂]
  cases m.listing c .full with
  | ok l => exact .inl ⟨_, _, rfl, rfl, Options.agree_restrict o₁ o₂ l⟩
  | error f => exact .inr ⟨f, rfl, rfl⟩

end Dalvik
