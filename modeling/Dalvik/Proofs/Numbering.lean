import Dalvik.Proofs.Interning

/-!
# Numbering — the numbers of labels and what they depend on

Numbering gives every label its place among the sorted labels of its kind. These are sorted by
address, and no two of them have one, so the place is the number of labels of the kind with a lower
address (`place_eq_rank`): it depends on the set of the identities alone. So neither the order of
the requests matters, nor how often an identity was asked for, nor what numbers the labels had
before. `LabelTable.Ranked` states this of a table that was empty after a run of requests, and
`run_ranked` proves it of all runs.

A run leaves either some label without a number or the labels as numbering leaves them
(`number_run_eq`). So if all labels are numbered, or none is, different labels have different names
(`Uniform.name_injOn`).
-/

namespace Dalvik

namespace LabelTable

/-- How many labels of the kind of `id` have a lower address. -/
def rank (t : LabelTable) (id : LabelId) : Nat :=
  t.labels.countP fun l => l.id.kind = id.kind ∧ l.id.address < id.address

/-- Two tables name their labels alike. -/
structure SameNames (t t' : LabelTable) : Prop where
  /-- Every identity has one name in both. -/
  name : ∀ id, t.name id = t'.name id
  /-- The sorted labels have the same names. -/
  sorted : t.sorted.map Label.name = t'.sorted.map Label.name

/-- The numbers and the names of the labels of a table that was empty, after the requests `rs`. -/
structure Ranked (rs : List LabelRequest) : Prop where
  /-- Numbering gives each label the number of labels of its kind with a lower address. -/
  labels : (empty.run rs).number.labels
    = (empty.run rs).labels.map fun l => ⟨l.id, some ((empty.run rs).rank l.id)⟩
  /-- These numbers are below the number of labels. -/
  bounded : ∀ l ∈ (empty.run rs).labels, (empty.run rs).rank l.id < (empty.run rs).size
  /-- To number the labels again changes nothing. -/
  idempotent : (empty.run rs).number.number = (empty.run rs).number
  /-- Once the labels are numbered, the names depend on which identities were asked for alone. -/
  numbered : ∀ ss, (∀ id, .intern id ∈ rs ↔ .intern id ∈ ss) →
    SameNames (empty.run rs).number (empty.run ss).number
  /-- So they do where the labels were never numbered. -/
  unnumbered : ∀ ss, (∀ id, .intern id ∈ rs ↔ .intern id ∈ ss) → .number ∉ rs → .number ∉ ss →
    SameNames (empty.run rs) (empty.run ss)

variable {t t' : LabelTable} {id : LabelId} {rs ss : List LabelRequest}

/-! ### Places and ranks -/

theorem rank_eq (t : LabelTable) (id : LabelId) :
    t.rank id = t.ids.countP fun a => a.kind = id.kind ∧ a.address < id.address := by
  rw [ids, List.countP_map]
  rfl

/-- In a list that increases, an element stands behind those that are lower. -/
theorem idxOf_eq_countP {as : List LabelId} (h : as.Pairwise fun a b => a.address < b.address)
    (hid : id ∈ as) : as.idxOf id = as.countP (·.address < id.address) := by
  induction as with
  | nil => cases hid
  | cons a as ih =>
      obtain ⟨ha, htail⟩ := List.pairwise_cons.mp h
      rcases List.mem_cons.mp hid with rfl | hmem
      · rw [List.idxOf_cons_self, eq_comm, List.countP_eq_zero]
        intro b hb
        rcases List.mem_cons.mp hb with rfl | hb
        · simp
        · simpa using Nat.le_of_lt (ha b hb)
      · have hlt := ha id hmem
        have hne : a ≠ id := fun he => Nat.ne_of_lt hlt (congrArg LabelId.address he)
        rw [List.idxOf_cons_ne _ hne, List.countP_cons_of_pos (by simpa using hlt), ih htail hmem]

/-- The sorted labels of one kind increase by address. -/
theorem pairwise_sortedIds_kind (h : t.ids.Nodup) (k : LabelKind) :
    (t.sortedIds.filter (·.kind == k)).Pairwise fun a b => a.address < b.address := by
  refine List.pairwise_filter.mpr ((sortedIds_strict h).imp fun {a b} hab ha hb => ?_)
  have hkind : a.kind = b.kind := (eq_of_beq ha).trans (eq_of_beq hb).symm
  rw [hkind] at hab
  omega

/-- **The place of a label is its rank.** -/
theorem place_eq_rank (h : t.ids.Nodup) (hid : id ∈ t.ids) : t.place id = t.rank id := by
  have hmem : id ∈ t.sortedIds.filter (·.kind == id.kind) :=
    List.mem_filter.mpr ⟨(sortedIds_perm t).mem_iff.mpr hid, by simp⟩
  calc t.place id
      = (t.sortedIds.filter (·.kind == id.kind)).countP (·.address < id.address) :=
        idxOf_eq_countP (pairwise_sortedIds_kind h id.kind) hmem
    _ = t.sortedIds.countP fun a => a.kind = id.kind ∧ a.address < id.address := by
        rw [List.countP_filter]
        congr 1
        funext a
        simp [Bool.and_comm, beq_eq_decide]
    _ = t.rank id := by rw [(sortedIds_perm t).countP_eq, rank_eq]

theorem rank_lt_size (h : id ∈ t.ids) : t.rank id < t.size := by
  have hlt : t.rank id < t.ids.length := by
    rw [rank_eq, List.countP_lt_length_iff]
    exact ⟨id, h, by simp⟩
  rwa [ids, List.length_map] at hlt

/-! ### What numbering yields -/

theorem labels_number (h : t.ids.Nodup) :
    t.number.labels = t.labels.map fun l => ⟨l.id, some (t.rank l.id)⟩ := by
  rw [labels_number_eq h]
  refine List.map_congr_left fun l hl => ?_
  rw [place_eq_rank h (List.mem_map_of_mem hl)]

theorem rank_number (t : LabelTable) (id : LabelId) : t.number.rank id = t.rank id := by
  rw [rank_eq, rank_eq, ids_number]

theorem number_number (h : t.ids.Nodup) : t.number.number = t.number := by
  have hlabels : t.number.number.labels = t.number.labels := by
    rw [labels_number (ids_number t ▸ h), labels_number h, List.map_map]
    simp only [rank_number, Function.comp_def]
  exact congrArg (LabelTable.mk · t.index) hlabels

/-! ### Tables with the same labels -/

theorem label_eq_of_mem {l : Label} (h : t.Indexed) (hl : l ∈ t.labels) : t.label l.id = l := by
  obtain ⟨hm, hid⟩ := label_of_mem h (List.mem_map_of_mem hl)
  exact List.inj_on_of_nodup_map h.nodup hm hl hid

theorem label_of_not_mem (h : t.Indexed) (hid : id ∉ t.ids) : t.label id = ⟨id, none⟩ := by
  rw [label, h.position?_eq_none_iff.mpr hid]
  rfl

/-- The order of the labels in a table does not matter for the names. -/
theorem sameNames_of_perm (h : t.Indexed) (h' : t'.Indexed) (hp : t.labels.Perm t'.labels) :
    SameNames t t' := by
  have hids : t.ids.Perm t'.ids := hp.map _
  refine ⟨fun id => ?_, ?_⟩
  · by_cases hid : id ∈ t.ids
    · obtain ⟨l, hl, rfl⟩ := List.mem_map.mp hid
      rw [name, name, label_eq_of_mem h hl, label_eq_of_mem h' (hp.mem_iff.mp hl)]
    · rw [name, name, label_of_not_mem h hid, label_of_not_mem h' (mt hids.mem_iff.mpr hid)]
  · -- there is one way to sort labels that differ in address or kind
    have hs := List.pairwise_map.mp (sortedIds_strict h.nodup)
    have hs' := List.pairwise_map.mp (sortedIds_strict h'.nodup)
    have hsorted : t.sorted.Perm t'.sorted := t.sorted_perm.trans (hp.trans t'.sorted_perm.symm)
    rw [hsorted.eq_of_pairwise (fun l m _ _ hlm hml => by omega) hs hs']

theorem sameNames_number (h : t.Indexed) (h' : t'.Indexed) (hp : t.ids.Perm t'.ids) :
    SameNames t.number t'.number := by
  have hrank : ∀ id, t.rank id = t'.rank id := fun id => by rw [rank_eq, rank_eq, hp.countP_eq]
  refine sameNames_of_perm h.number h'.number ?_
  rw [labels_number h.nodup, labels_number h'.nodup]
  simp only [hrank]
  have hmap := hp.map fun id => (⟨id, some (t'.rank id)⟩ : Label)
  rwa [ids, ids, List.map_map, List.map_map] at hmap

/-! ### Runs -/

/-- The labels of a plain table are its identities without numbers. -/
theorem Plain.labels_eq (h : t.Plain) : t.labels = t.ids.map fun id => ⟨id, none⟩ := by
  have hself : ∀ l ∈ t.labels, (⟨l.id, none⟩ : Label) = l := by
    rintro ⟨id, sequence⟩ hl
    obtain rfl : sequence = none := h.unnumbered _ hl
    rfl
  rw [ids, List.map_map]
  exact ((List.map_congr_left hself).trans (List.map_id _)).symm

/-- Requests that do not number leave a table plain. -/
theorem Plain.run (h : t.Plain) (hrs : .number ∉ rs) : (t.run rs).Plain := by
  induction rs generalizing t with
  | nil => exact h
  | cons r rs ih =>
      cases r with
      | number => exact absurd List.mem_cons_self hrs
      | intern id => exact ih (h.intern id) (mt (List.mem_cons_of_mem _) hrs)

/-- Runs that ask for the same identities lead to tables with the same identities. -/
theorem ids_run_perm (h : ∀ id, .intern id ∈ rs ↔ .intern id ∈ ss) :
    (empty.run rs).ids.Perm (empty.run ss).ids := by
  rw [List.perm_ext_iff_of_nodup (indexed_run_empty rs).nodup (indexed_run_empty ss).nodup]
  intro id
  rw [mem_ids_run_empty, mem_ids_run_empty, h]

/-- **Numbers are ranks, and names do not depend on the order of the requests.** -/
theorem run_ranked (rs : List LabelRequest) : Ranked rs where
  labels := labels_number (indexed_run_empty rs).nodup
  bounded := fun l hl => rank_lt_size (List.mem_map_of_mem hl)
  idempotent := number_number (indexed_run_empty rs).nodup
  numbered := fun ss h =>
    sameNames_number (indexed_run_empty rs) (indexed_run_empty ss) (ids_run_perm h)
  unnumbered := by
    intro ss h hrs hss
    refine sameNames_of_perm (indexed_run_empty rs) (indexed_run_empty ss) ?_
    rw [(plain_empty.run hrs).labels_eq, (plain_empty.run hss).labels_eq]
    exact (ids_run_perm h).map _

/-! ### Tables that are numbered in full or not at all -/

/-- No label has a number, or every label has one. -/
def Uniform (t : LabelTable) : Prop :=
  (∀ l ∈ t.labels, l.sequence = none) ∨ ∀ l ∈ t.labels, l.sequence.isSome

/-- A request leaves a label without a number, or the labels as numbering leaves them. -/
theorem number_after_eq (h : t.Indexed) (ht : t.number = t ∨ ∃ l ∈ t.labels, l.sequence = none)
    (r : LabelRequest) :
    (t.after r).number = t.after r ∨ ∃ l ∈ (t.after r).labels, l.sequence = none := by
  cases r with
  | number => exact .inl (number_number h.nodup)
  | intern id =>
      by_cases hid : id ∈ t.ids
      · rwa [after, intern_of_mem h hid]
      · refine .inr ⟨⟨id, none⟩, ?_, rfl⟩
        rw [after, intern_labels h, if_neg hid]
        exact List.mem_append_right _ List.mem_cons_self

theorem number_run_eq (h : t.Indexed) (ht : t.number = t ∨ ∃ l ∈ t.labels, l.sequence = none)
    (rs : List LabelRequest) :
    (t.run rs).number = t.run rs ∨ ∃ l ∈ (t.run rs).labels, l.sequence = none := by
  induction rs generalizing t with
  | nil => exact ht
  | cons r rs ih => exact ih (h.after r) (number_after_eq h ht r)

theorem number_empty : empty.number = empty := by simp [number, sortedPositions, empty, assign]

/-- **Different labels have different names**, if all labels are numbered or none is. -/
theorem Uniform.name_injOn (hu : (empty.run rs).Uniform) {a b : LabelId}
    (ha : a ∈ (empty.run rs).ids) (hb : b ∈ (empty.run rs).ids)
    (he : (empty.run rs).name a = (empty.run rs).name b) : a = b := by
  have hindexed := indexed_run_empty rs
  rcases hu with hnone | hsome
  · exact Plain.name_injOn ⟨hindexed, hnone⟩ ha hb he
  · rcases number_run_eq indexed_empty (.inl number_empty) rs with hnumber | ⟨l, hl, hl'⟩
    · rw [← hnumber] at he
      exact number_name_injOn hindexed ha hb he
    · exact absurd (hsome l hl) (by simp [hl'])

end LabelTable

end Dalvik
