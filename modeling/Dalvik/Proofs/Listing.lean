import Dalvik.Proofs.Arrangement
import Dalvik.Proofs.Body
import Dalvik.Proofs.Label

/-!
# Listing — the entries of a listing, band by band

A listing has the entries that were collected from the body and an entry for each label that they
name, arranged. `Body.Listed` says so, with the entries of the instructions and those of the
handlers given by name; `Built.exists_listed` finds them for every listing there is.

From it follows what each band of a listing consists of: the instructions in their order
(`Listed.instructions_eq`), the labels in theirs (`Listed.labels_eq`), and at each address the
handlers as they were collected (`Listed.handlers_at`). The labels of a listing are those that its
other entries name (`Listed.mem_ids`).
-/

namespace Dalvik

/-- The number of the instruction that a content is. -/
def Content.index? : Content → Option Nat
  | instruction e => some e.index
  | _ => none

namespace Body

variable {m : Method} {c : Code} {o : Options} {b : Body} {l : Listing}
variable {own catches es : List Entry} {p : Placed}

/-! ### The bands of what is collected -/

theorem Collected.band_catches (h : Collected b own catches es) :
    ∀ e ∈ catches, e.band = .exception := by
  intro e he
  obtain ⟨th, -, p, -, -, -, rfl⟩ := forall₂_mem_right h.handlers he
  rfl

theorem band_trail : ∀ e ∈ b.trail p, e.band = .blank ∨ e.band = .offsetComment := by
  intro e he
  rcases List.mem_append.mp he with he | he
  · split at he
    · cases he
    · exact .inl (by rw [List.mem_singleton.mp he]; rfl)
  · split at he
    · exact .inr (by rw [List.mem_singleton.mp he]; rfl)
    · cases he

theorem band_debugEntries : ∀ e ∈ b.debugEntries, e.band = .debug := by
  intro e he
  rw [debugEntries] at he
  split at he
  · obtain ⟨r, -, rfl⟩ := List.mem_map.mp he
    rfl
  · cases he

/-- The entries of one band, taken from entries that are all of another. -/
theorem filter_band_eq_nil {k : Band} (h : ∀ e ∈ es, e.band ≠ k) : es.filter (·.band = k) = [] := by
  simpa [List.filter_eq_nil_iff] using h

theorem filter_band_eq_self {k : Band} (h : ∀ e ∈ es, e.band = k) :
    es.filter (·.band = k) = es := by
  simpa [List.filter_eq_self] using h

/-- With its trail, the entry of an instruction is still the only one of its band. -/
theorem filter_instruction_zipWith {ps : List Placed} (h : List.Forall₂ c.IsEntry ps own) :
    (List.zipWith (fun p e => e :: b.trail p) ps own).flatten.filter (·.band = .instruction)
      = own := by
  induction h with
  | nil => rfl
  | @cons p e ps own he _ ih =>
      have htrail : (b.trail p).filter (·.band = .instruction) = [] :=
        filter_band_eq_nil fun e he => by rcases band_trail e he with h | h <;> simp [h]
      rw [List.zipWith_cons_cons, List.flatten_cons, List.filter_append, ih,
        List.filter_cons_of_pos (by simp [he.band]), htrail, List.singleton_append]

theorem band_of_mem_zipWith {ps : List Placed} (h : List.Forall₂ c.IsEntry ps own) :
    ∀ e ∈ (List.zipWith (fun p e => e :: b.trail p) ps own).flatten,
      e.band = .instruction ∨ e.band = .blank ∨ e.band = .offsetComment := by
  induction h with
  | nil => simp
  | cons he _ ih =>
      intro e hm
      rw [List.zipWith_cons_cons, List.flatten_cons] at hm
      rcases List.mem_append.mp hm with hm | hm
      · rcases List.mem_cons.mp hm with rfl | hm
        · exact .inl he.band
        · exact .inr (band_trail e hm)
      · exact ih e hm

namespace Collected

variable (h : Collected b own catches es)
include h

theorem filter_instruction : es.filter (·.band = .instruction) = own := by
  rw [h.eq, List.filter_append, List.filter_append, filter_instruction_zipWith h.instructions,
    filter_band_eq_nil fun e he => by simp [h.band_catches e he],
    filter_band_eq_nil fun e he => by simp [band_debugEntries e he], List.append_nil,
    List.append_nil]

theorem filter_exception : es.filter (·.band = .exception) = catches := by
  have hown : ∀ e ∈ (List.zipWith (fun p e => e :: b.trail p) b.code.placed own).flatten,
      e.band ≠ .exception := by
    intro e he
    rcases band_of_mem_zipWith h.instructions e he with h | h | h <;> simp [h]
  rw [h.eq, List.filter_append, List.filter_append, filter_band_eq_nil hown,
    filter_band_eq_self h.band_catches,
    filter_band_eq_nil fun e he => by simp [band_debugEntries e he], List.nil_append,
    List.append_nil]

theorem band_ne_label : ∀ e ∈ es, e.band ≠ .label := by
  intro e he
  rw [h.eq] at he
  rcases List.mem_append.mp he with he | he
  · rcases List.mem_append.mp he with he | he
    · rcases band_of_mem_zipWith h.instructions e he with h | h | h <;> simp [h]
    · simp [h.band_catches e he]
  · simp [band_debugEntries e he]

end Collected

/-! ### The listing -/

/-- The listing of a body: what was collected, and an entry for each label. -/
structure Listed (b : Body) (own catches es : List Entry) (l : Listing) : Prop
    extends Collected b own catches es where
  /-- The instructions can be placed. -/
  placeable : b.code.Placeable
  /-- The labels are those of what was collected. -/
  labels : l.labels = b.labelsOf es
  /-- The entries are arranged. -/
  entries : l.entries = Entry.arrange (es ++ l.labels.sortedIds.map Entry.ofLabel)

theorem built_of_build (h : build m c o = .ok b) : Built m c o b := by
  rw [build] at h
  cases hc : ofCode m c o with
  | error f => rw [hc] at h; cases h
  | ok b' =>
      rw [hc] at h
      cases h
      exact ((ofCode_guarded m c o).of_ok hc).2

theorem ids_labelsOf {id : LabelId} : id ∈ (b.labelsOf es).ids ↔ ∃ e ∈ es, id ∈ e.labels := by
  rw [labelsOf, ids_finish, LabelTable.mem_ids_ofIds, List.mem_flatMap]

/-- Numbered or not, two labels of a table have different names. -/
theorem name_labelsOf_injOn {x y : LabelId} (hx : x ∈ (b.labelsOf es).ids)
    (hy : y ∈ (b.labelsOf es).ids) (h : (b.labelsOf es).name x = (b.labelsOf es).name y) :
    x = y := by
  rw [labelsOf, finish] at hx hy h
  split at h
  · rw [if_pos ‹_›, LabelTable.ids_number] at hx hy
    exact LabelTable.number_name_injOn (LabelTable.plain_ofIds _).indexed hx hy h
  · rw [if_neg ‹_›] at hx hy
    exact (LabelTable.plain_ofIds _).name_injOn hx hy h

/-- **Listing a body**: what is checked is what collecting its entries checks. -/
theorem gather_guarded (hb : Built m c o b) :
    Guarded b.gather
      (c.placed.flatMap c.instructionChecks ++ c.tryBlocks.flatMap c.regionChecks)
      fun l => ∃ own catches es, b.Listed own catches es l := by
  rw [gather_eq]
  refine (collect_guarded hb).bind_pure fun es _ hes => ?_
  obtain ⟨own, catches, h⟩ := hes
  exact ⟨own, catches, es, h, hb.code ▸ hb.placeable, rfl, rfl⟩

theorem listing_of_collect (h : b.collect = .ok es) : b.listing
    = .ok ⟨Entry.arrange (es ++ (b.labelsOf es).sortedIds.map Entry.ofLabel), b.labelsOf es⟩ := by
  rw [listing, gather_eq, h]
  rfl

theorem gather_of_listing (hl : b.listing = .ok l) : b.gather = .ok l := by
  rw [listing] at hl
  cases hg : b.gather with
  | error f => rw [hg] at hl; cases hl
  | ok l' =>
      rw [hg] at hl
      cases hl
      rfl

/-- Every listing of a body that was built is as described. -/
theorem Built.exists_listed (hb : Built m c o b) (hl : b.listing = .ok l) :
    ∃ own catches es, b.Listed own catches es l :=
  ((gather_guarded hb).of_ok (gather_of_listing hl)).2

/-- Away from their band, the labels add nothing to what was collected. -/
theorem filter_append_labels (es : List Entry) (t : LabelTable) {q : Entry → Bool}
    (hq : ∀ e, q e → e.band ≠ .label) :
    (es ++ t.sortedIds.map Entry.ofLabel).filter q = es.filter q := by
  have hlabels : (t.sortedIds.map Entry.ofLabel).filter q = [] := by
    rw [List.filter_eq_nil_iff]
    intro e he hqe
    obtain ⟨id, -, rfl⟩ := List.mem_map.mp he
    exact hq _ hqe rfl
  rw [List.filter_append, hlabels, List.append_nil]

namespace Listed

variable (h : Listed b own catches es l)
include h

theorem ordered : l.entries.Pairwise fun x y => x.le y :=
  h.entries ▸ Entry.arrange_pairwise _

theorem indexed : l.labels.Indexed := h.labels ▸ b.indexed_labelsOf es

theorem mem_ids {id : LabelId} : id ∈ l.labels.ids ↔ ∃ e ∈ es, id ∈ e.labels := by
  rw [h.labels, ids_labelsOf]

theorem mem_entries {e : Entry} :
    e ∈ l.entries ↔ e ∈ es ∨ ∃ id ∈ l.labels.ids, Entry.ofLabel id = e := by
  rw [h.entries, (Entry.arrange_perm _).mem_iff, List.mem_append, List.mem_map]
  simp only [(LabelTable.sortedIds_perm l.labels).mem_iff]

/-- An entry of the listing that is not a label was collected. -/
theorem mem_collected {e : Entry} (he : e ∈ l.entries) (hk : e.band ≠ .label) : e ∈ es := by
  rcases h.mem_entries.mp he with he | ⟨id, -, rfl⟩
  · exact he
  · exact absurd rfl hk

/-- What an entry names is marked. -/
theorem ofLabel_mem {e : Entry} (he : e ∈ l.entries) (hk : e.band ≠ .label) {id : LabelId}
    (hid : id ∈ e.labels) : Entry.ofLabel id ∈ l.entries :=
  h.mem_entries.mpr (.inr ⟨id, h.mem_ids.mpr ⟨e, h.mem_collected he hk, hid⟩, rfl⟩)

/-- What was collected in order, the labels apart, is listed in that order. -/
theorem filter_eq {q : Entry → Bool} (hq : ∀ e, q e → e.band ≠ .label)
    (hs : (es.filter q).Pairwise fun x y => x.le y) : l.entries.filter q = es.filter q := by
  have hes := filter_append_labels es l.labels hq
  rw [h.entries, Entry.arrange_filter (by rwa [hes]), hes]

/-- What the entries of the instructions have in common with the instructions. -/
theorem map_own {α : Type} {f : Entry → α} {g : Placed → α}
    (hfg : ∀ p ∈ b.code.placed, ∀ e, b.code.IsEntry p e → f e = g p) :
    own.map f = b.code.placed.map g := by
  rw [← List.forall₂_eq_eq_eq, List.forall₂_map_left_iff, List.forall₂_map_right_iff]
  have hand := (List.forall₂_and_left _ _).mpr ⟨hfg, h.instructions⟩
  exact hand.flip.imp fun e p hp => hp.1 e hp.2

theorem address_own : own.map (·.address) = b.code.placed.map (·.address) :=
  h.map_own fun _ _ _ he => he.address

theorem index_own :
    own.map (·.content.index?) = (List.range b.code.instructions.length).map some := by
  rw [← b.code.map_index, List.map_map]
  refine h.map_own fun p _ e he => ?_
  obtain ⟨target, cases, rfl, -, -⟩ := he
  rfl

theorem pairwise_own : own.Pairwise fun x y => x.address < y.address := by
  have hp := List.pairwise_map.mpr h.placeable.pairwise_address
  rw [← h.address_own] at hp
  exact List.pairwise_map.mp hp

/-- The instructions of a listing stand in their order. -/
theorem instructions_eq : l.entries.filter (·.band = .instruction) = own := by
  rw [h.filter_eq, h.filter_instruction]
  · intro e he
    simp [of_decide_eq_true he]
  · rw [h.filter_instruction]
    exact h.pairwise_own.imp fun hlt => Entry.le_iff.mpr (.inl hlt)

/-- The handlers of a listing are those that were collected. -/
theorem handlers_perm : (l.entries.filter (·.band = .exception)).Perm catches := by
  have hes := filter_append_labels es l.labels (q := (·.band = .exception)) fun e he => by
    simp [of_decide_eq_true he]
  rw [← h.filter_exception, ← hes, h.entries]
  exact (Entry.arrange_perm _).filter _

/-- The directive of an exception region is that of one of its handlers. -/
theorem exists_handler {x : Nat} {e : ExceptionEntry} (he : ⟨x, .exception e⟩ ∈ l.entries) :
    ∃ t d, (t, d) ∈ b.code.handlers ∧ e = Code.handlerDirective t d := by
  have hc : ⟨x, .exception e⟩ ∈ catches :=
    h.handlers_perm.mem_iff.mp (List.mem_filter.mpr ⟨he, rfl⟩)
  obtain ⟨⟨t, d⟩, ht, p, -, -, -, ⟨⟩⟩ := forall₂_mem_right h.handlers hc
  exact ⟨t, d, ht, rfl⟩

/-- The entries of one band at one address stand as they were collected. -/
theorem filter_at {k : Band} (hk : k ≠ .label) (x : Nat) :
    l.entries.filter (fun e => e.band = k ∧ e.address = x)
      = es.filter fun e => e.band = k ∧ e.address = x := by
  rw [h.entries, Entry.arrange_at]
  refine filter_append_labels es l.labels fun e he => ?_
  rw [(of_decide_eq_true he).1]
  exact hk

/-- The handlers at an address stand as they were collected. -/
theorem handlers_at (x : Nat) :
    l.entries.filter (fun e => e.band = .exception ∧ e.address = x)
      = catches.filter (·.address = x) := by
  rw [h.filter_at (k := .exception) nofun, ← h.filter_exception, List.filter_filter]
  simp only [Bool.decide_and, Bool.and_comm]

/-- The labels of a listing stand in the order of the table. -/
theorem labels_eq :
    l.entries.filter (·.band = .label) = l.labels.sortedIds.map Entry.ofLabel := by
  have hes : (es ++ l.labels.sortedIds.map Entry.ofLabel).filter (·.band = .label)
      = l.labels.sortedIds.map Entry.ofLabel := by
    rw [List.filter_append, filter_band_eq_nil h.band_ne_label, filter_band_eq_self,
      List.nil_append]
    intro e he
    obtain ⟨id, -, rfl⟩ := List.mem_map.mp he
    rfl
  have hs : (l.labels.sortedIds.map Entry.ofLabel).Pairwise fun x y => x.le y := by
    refine List.pairwise_map.mpr ((LabelTable.sortedIds_pairwise l.labels).imp fun hle => ?_)
    have hle := LabelTable.placeLe_iff.mp hle
    exact Entry.le_iff.mpr (hle.imp_right fun ha => ⟨ha.1, Nat.le_refl _⟩)
  rw [h.entries, Entry.arrange_filter (by rwa [hes]), hes]

/-! ### Where an instruction stands -/

/-- The entry of an instruction of the code. -/
theorem exists_entry {p : Placed} (hp : p ∈ b.code.placed) :
    ∃ e ∈ l.entries, b.code.IsEntry p e := by
  obtain ⟨e, he, hpe⟩ := forall₂_mem_left h.instructions hp
  rw [← h.instructions_eq] at he
  exact ⟨e, (List.mem_filter.mp he).1, hpe⟩

/-- An instruction of the listing is one of the code. -/
theorem exists_placed {e : Entry} (he : e ∈ l.entries) (hk : e.band = .instruction) :
    ∃ p ∈ b.code.placed, b.code.IsEntry p e := by
  have hown : e ∈ own := h.instructions_eq ▸ List.mem_filter.mpr ⟨he, by simpa using hk⟩
  exact forall₂_mem_right h.instructions hown

theorem pairwise_instructions : l.entries.Pairwise fun x y =>
    x.band = .instruction → y.band = .instruction → x.address < y.address :=
  Entry.pairwise_band (h.instructions_eq ▸ h.pairwise_own)

variable {before after : List Entry} {x e : Entry}

/-- Instructions before an entry of an earlier band have lower addresses. -/
theorem lt_of_mem_before (hs : l.entries = before ++ x :: after)
    (hx : x.band.rank < Band.instruction.rank) (he : e ∈ before) (hk : e.band = .instruction) :
    e.address < x.address :=
  Entry.address_lt_of_mem_before h.ordered hs he (hk ▸ hx)

/-- An entry of an earlier band stands before the instruction of its address, with nothing between
but entries of that address of the bands from its own on. -/
theorem split_instruction (hs : l.entries = before ++ x :: after)
    (hx : x.band.rank < Band.instruction.rank) (he : e ∈ l.entries) (hk : e.band = .instruction)
    (ha : e.address = x.address) :
    ∃ between rest, after = between ++ e :: rest ∧
      ∀ z ∈ between, x.band.rank ≤ z.band.rank ∧ z.band.rank < Band.instruction.rank := by
  have hafter : e ∈ after := by
    rw [hs] at he
    rcases List.mem_append.mp he with he | he
    · exact absurd (h.lt_of_mem_before hs hx he hk) (by omega)
    · rcases List.mem_cons.mp he with rfl | he
      · exact absurd hx (by simp [hk])
      · exact he
  obtain ⟨between, rest, rfl⟩ := List.append_of_mem hafter
  refine ⟨between, rest, rfl, fun z hz => ?_⟩
  obtain ⟨hza, hlow, hhigh⟩ := Entry.between_of_pairwise h.ordered hs ha.symm z hz
  refine ⟨hlow, Nat.lt_of_le_of_ne (hk ▸ hhigh) fun hrank => ?_⟩
  -- a second instruction at the address of `e` would have to be lower
  have hp := h.pairwise_instructions
  rw [hs, ← List.cons_append, ← List.append_assoc] at hp
  have hlt := (List.pairwise_append.mp hp).2.2 z (by simp [hz]) e List.mem_cons_self
    (Band.eq_of_rank_eq hrank) hk
  omega

end Listed

end Body

/-! ### A loop in an exception region -/

/-- A static method without arguments. -/
def Method.guardedLoop : Method := ⟨"LLoop;", "run", ⟨8⟩, [], .primitive .void, []⟩

/-- A branch out of the loop, the branch back, and where both the branch out and the handlers of
the region lead. -/
def Code.guardedLoop : Code where
  registerCount := 1
  instructions := [
    { Instruction.ofOpcode .ifEqz with registers := [0], codeOffset := some 3 },
    { Instruction.ofOpcode .goto with codeOffset := some (-2) },
    Instruction.ofOpcode .returnVoid]
  tryBlocks := [⟨0, 3, [⟨some "LFault;", 3⟩, ⟨none, 3⟩]⟩]
  debugRecords := [⟨0, .line 1⟩]

/-- The loop has a listing, with the branch back in it. -/
theorem guardedLoop_listed : ∃ b l,
    Body.build .guardedLoop .guardedLoop { sequentialLabels := true } = .ok b ∧
      b.listing = .ok l ∧ ⟨2, .instruction ⟨1, some ⟨.goto, 0⟩, none⟩⟩ ∈ l.entries := by
  obtain ⟨b, es, hb, hes, hgoto⟩ : ∃ b es,
      Body.build .guardedLoop .guardedLoop { sequentialLabels := true } = .ok b ∧
        b.collect = .ok es ∧ ⟨2, .instruction ⟨1, some ⟨.goto, 0⟩, none⟩⟩ ∈ es :=
    ⟨_, _, rfl, rfl, by decide⟩
  refine ⟨b, _, hb, Body.listing_of_collect hes, ?_⟩
  exact (Entry.arrange_perm _).mem_iff.mpr (List.mem_append_left _ hgoto)

end Dalvik
