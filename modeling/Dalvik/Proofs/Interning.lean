import Dalvik.Proofs.Label
import Mathlib.Data.Finset.Card

/-!
# Interning — runs of requests to a table

A table is asked for labels and its labels are numbered, in any order and any number of times. A
request for an identity is answered with the position of its label; `LabelTable.answers` lists the
answers of a run. One request adds at most one identity, at the end (`ids_prefix_after`), and keeps
the index and the labels in agreement (`Indexed.after`), so over a run every answer stays the
position of its identity (`ids_of_mem_answers`).

`LabelTable.Coherent` states what follows of all runs of a table that was empty, and `run_coherent`
proves it: the index agrees with the labels, two answers are one just if their identities are, and
the sorted labels are those of all positions.
-/

namespace Dalvik

/-- A request to a table of labels. -/
inductive LabelRequest where
  /-- Asks for the label of an identity. -/
  | intern (id : LabelId)
  /-- Numbers the labels. -/
  | number
deriving DecidableEq

/-- The identity that a request asks for. -/
def LabelRequest.id? : LabelRequest → Option LabelId
  | intern id => some id
  | number => none

theorem LabelRequest.mem_filterMap_id? {rs : List LabelRequest} {id : LabelId} :
    id ∈ rs.filterMap id? ↔ intern id ∈ rs := by
  rw [List.mem_filterMap]
  constructor
  · rintro ⟨r, hr, hid⟩
    cases r with
    | intern a => cases hid; exact hr
    | number => cases hid
  · exact fun h => ⟨_, h, rfl⟩

namespace LabelTable

/-- The table after a request. -/
def after (t : LabelTable) : LabelRequest → LabelTable
  | .intern id => (t.intern id).2
  | .number => t.number

/-- The table after a run of requests. -/
def run (t : LabelTable) (rs : List LabelRequest) : LabelTable := rs.foldl after t

/-- The identities that a run asks for, each with the position that is the answer. -/
def answers (t : LabelTable) : List LabelRequest → List (LabelId × Nat)
  | [] => []
  | .intern id :: rs => (id, (t.intern id).1) :: (t.intern id).2.answers rs
  | .number :: rs => t.number.answers rs

/-- A table that was empty and the answers it gave, after the requests `rs`. -/
structure Coherent (rs : List LabelRequest) : Prop where
  /-- No two labels have one identity. -/
  distinct : (empty.run rs).ids.Nodup
  /-- The index has an identity at a position just if the label there has it. -/
  indexed : ∀ id n, (empty.run rs).index.lookup id = some n ↔
    ∃ l, (empty.run rs).get? n = some l ∧ l.id = id
  /-- The index has an identity at the position that it was answered with, and has no other. -/
  answered : ∀ id n, (empty.run rs).index.lookup id = some n ↔ (id, n) ∈ empty.answers rs
  /-- Two answers, given at any two moments, are one just if the same identity was asked for. -/
  coalesced : ∀ x ∈ empty.answers rs, ∀ y ∈ empty.answers rs, x.2 = y.2 ↔ x.1 = y.1
  /-- At every moment after an answer the label at its position has the kind and the address that
  were asked for. -/
  stable : ∀ before between rest, rs = before ++ between ++ rest → ∀ x ∈ empty.answers before,
    ∃ l, (empty.run (before ++ between)).get? x.2 = some l ∧ l.id = x.1
  /-- There are as many labels as different identities were asked for. -/
  size : (empty.run rs).size = (rs.filterMap LabelRequest.id?).toFinset.card
  /-- The sorted positions are all positions, each taken once, and the sorted labels are theirs. -/
  listed : (empty.run rs).sortedPositions.Perm (List.range (empty.run rs).size) ∧
    (empty.run rs).sortedPositions.map (empty.run rs).get? = (empty.run rs).sorted.map some
  /-- The sorted labels increase strictly by address, then by kind. -/
  increasing : (empty.run rs).sorted.Pairwise fun l m =>
    l.id.address < m.id.address ∨ l.id.address = m.id.address ∧ l.id.kind.rank < m.id.kind.rank

variable {t : LabelTable} {id : LabelId} {n : Nat}

/-! ### One request -/

/-- The answer to a request is the position of the identity afterwards. -/
theorem Indexed.getElem?_ids_intern (h : t.Indexed) (id : LabelId) :
    (t.intern id).2.ids[(t.intern id).1]? = some id := by
  cases hp : t.position? id with
  | none => simp [LabelTable.intern, hp, ids, size]
  | some n =>
      simp only [LabelTable.intern, hp]
      exact (h id n).mp hp

/-- A request leaves the identities where they are. -/
theorem Indexed.ids_prefix_after (h : t.Indexed) (r : LabelRequest) :
    t.ids <+: (t.after r).ids := by
  cases r with
  | intern id =>
      rw [LabelTable.after, ids_intern h]
      split
      · exact List.prefix_rfl
      · exact List.prefix_append _ _
  | number => rw [LabelTable.after, ids_number]

/-- **A request keeps the agreement** of the index and the labels. -/
theorem Indexed.after (h : t.Indexed) (r : LabelRequest) : (t.after r).Indexed := by
  cases r with
  | intern id => exact h.intern id
  | number => exact h.number

/-- A request adds the identity that it asks for. -/
theorem Indexed.mem_ids_after (h : t.Indexed) {r : LabelRequest} :
    id ∈ (t.after r).ids ↔ id ∈ t.ids ∨ .intern id = r := by
  cases r with
  | intern a => rw [LabelTable.after, mem_ids_intern h, LabelRequest.intern.injEq]
  | number => simp [LabelTable.after, ids_number]

/-! ### Runs -/

variable {rs : List LabelRequest}

theorem run_append (t : LabelTable) (rs ss : List LabelRequest) :
    t.run (rs ++ ss) = (t.run rs).run ss := List.foldl_append

theorem Indexed.run (h : t.Indexed) (rs : List LabelRequest) : (t.run rs).Indexed := by
  induction rs generalizing t with
  | nil => exact h
  | cons r rs ih => exact ih (h.after r)

theorem Indexed.ids_prefix_run (h : t.Indexed) (rs : List LabelRequest) :
    t.ids <+: (t.run rs).ids := by
  induction rs generalizing t with
  | nil => exact List.prefix_rfl
  | cons r rs ih => exact (h.ids_prefix_after r).trans (ih (h.after r))

theorem getElem?_ids_of_prefix {u : LabelTable} (h : t.ids <+: u.ids) (hn : t.ids[n]? = some id) :
    u.ids[n]? = some id := by
  obtain ⟨hlt, rfl⟩ := List.getElem?_eq_some_iff.mp hn
  exact List.prefix_iff_getElem?.mp h n hlt

/-- The identity at a position stays there. -/
theorem Indexed.getElem?_ids_run (h : t.Indexed) (hn : t.ids[n]? = some id)
    (rs : List LabelRequest) : (t.run rs).ids[n]? = some id :=
  getElem?_ids_of_prefix (h.ids_prefix_run rs) hn

theorem Indexed.mem_ids_run (h : t.Indexed) :
    id ∈ (t.run rs).ids ↔ id ∈ t.ids ∨ .intern id ∈ rs := by
  induction rs generalizing t with
  | nil => simp [LabelTable.run]
  | cons r rs ih =>
      rw [LabelTable.run, List.foldl_cons, ← LabelTable.run, ih (h.after r), h.mem_ids_after,
        or_assoc, List.mem_cons]

/-- **Answers stay**: after a run every answer is the position of the identity asked for. -/
theorem Indexed.ids_of_mem_answers (h : t.Indexed) {x : LabelId × Nat} (hx : x ∈ t.answers rs) :
    (t.run rs).ids[x.2]? = some x.1 := by
  -- on the run: an answer is right when it is given, and positions stay
  induction rs generalizing t with
  | nil => cases hx
  | cons r rs ih =>
      cases r with
      | number => exact ih h.number hx
      | intern id =>
          rcases List.mem_cons.mp hx with rfl | hx
          · exact (h.intern id).getElem?_ids_run (h.getElem?_ids_intern id) rs
          · exact ih (h.intern id) hx

theorem exists_answer (h : .intern id ∈ rs) : ∃ n, (id, n) ∈ t.answers rs := by
  induction rs generalizing t with
  | nil => cases h
  | cons r rs ih =>
      rcases List.mem_cons.mp h with rfl | hmem
      · exact ⟨_, List.mem_cons_self⟩
      · cases r with
        | number => exact ih hmem
        | intern a =>
            obtain ⟨n, hn⟩ := ih hmem
            exact ⟨n, List.mem_cons_of_mem _ hn⟩

/-! ### Runs of an empty table -/

/-- **The index agrees with the labels** after every run. -/
theorem indexed_run_empty (rs : List LabelRequest) : (empty.run rs).Indexed :=
  indexed_empty.run rs

theorem mem_ids_run_empty : id ∈ (empty.run rs).ids ↔ .intern id ∈ rs := by
  rw [indexed_empty.mem_ids_run]
  simp [empty, ids]

/-- The index has an identity at the position that it was answered with. -/
theorem position?_run_empty_iff :
    (empty.run rs).position? id = some n ↔ (id, n) ∈ empty.answers rs := by
  have hright : ∀ m, (id, m) ∈ empty.answers rs → (empty.run rs).position? id = some m :=
    fun m hm => (indexed_run_empty rs id m).mpr (indexed_empty.ids_of_mem_answers hm)
  refine ⟨fun h => ?_, hright n⟩
  -- it was asked for, and the index has one position for it
  have hmem := List.mem_of_getElem? ((indexed_run_empty rs id n).mp h)
  obtain ⟨m, hm⟩ := exists_answer (t := empty) (mem_ids_run_empty.mp hmem)
  obtain rfl : m = n := Option.some.inj ((hright m hm).symm.trans h)
  exact hm

/-- **Runs of requests are coherent**: whatever was asked for and in whatever order, with numberings
in between, the index and the labels of the table agree, and every answer stays right. -/
theorem run_coherent (rs : List LabelRequest) : Coherent rs where
  distinct := (indexed_run_empty rs).nodup
  indexed := fun id n => (indexed_run_empty rs id n).trans getElem?_ids
  answered := fun _ _ => position?_run_empty_iff
  coalesced := by
    intro x hx y hy
    have hpos := position?_run_empty_iff.mpr hx
    have hpos' := position?_run_empty_iff.mpr hy
    constructor
    · intro hxy
      -- one position has one label
      rw [indexed_run_empty] at hpos hpos'
      rw [hxy, hpos'] at hpos
      exact (Option.some.inj hpos).symm
    · intro hxy
      rw [hxy, hpos'] at hpos
      exact (Option.some.inj hpos).symm
  stable := by
    intro before between _ _ x hx
    rw [run_append]
    exact getElem?_ids.mp
      ((indexed_run_empty before).getElem?_ids_run (indexed_empty.ids_of_mem_answers hx) between)
  size := by
    have hids : (empty.run rs).ids.toFinset = (rs.filterMap LabelRequest.id?).toFinset := by
      ext id
      rw [List.mem_toFinset, List.mem_toFinset, mem_ids_run_empty, LabelRequest.mem_filterMap_id?]
    rw [← hids, List.toFinset_card_of_nodup (indexed_run_empty rs).nodup, ids, List.length_map,
      size]
  listed := ⟨sortedPositions_perm _, map_get?_sortedPositions _⟩
  increasing := List.pairwise_map.mp (sortedIds_strict (indexed_run_empty rs).nodup)

end LabelTable

end Dalvik
