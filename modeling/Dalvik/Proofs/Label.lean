import Dalvik.Label.Table
import Dalvik.Proofs.Numeral
import Mathlib.Data.List.Nodup

/-!
# Label — names and tables

A label name is the stem of its kind and the digits of a number. Some stems begin like others, but
every stem ends in an underscore and no digit is one, so the last underscore of a name is where its
stem ends: a name determines the kind and the digits (`Label.name_inj`).

The index of a table agrees with its labels (`Indexed`), and every request keeps it so
(`Indexed.intern`). Hence a table holds each identity once, and just those that were asked for
(`mem_ids_ofIds`). Numbering keeps the identities (`ids_number`), and its counters give each label
its place among the sorted labels of its kind (`labels_number_eq`). In a table without numbers the
digits are those of the address, and in a numbered one those of the place; either way two labels of
a table have different names (`Plain.name_injOn`, `number_name_injOn`).
-/

namespace Dalvik

/-! ### Names -/

/-- Where the last `a` of a list stands is one place. -/
theorem append_cons_inj {α : Type} {a : α} {xs ys ds es : List α}
    (h : xs ++ a :: ds = ys ++ a :: es) (hd : a ∉ ds) (he : a ∉ es) : xs = ys ∧ ds = es := by
  rcases List.append_eq_append_iff.mp h with ⟨t, rfl, ht⟩ | ⟨t, rfl, ht⟩
  · cases t with
    | nil => exact ⟨(List.append_nil xs).symm, (List.cons.inj ht).2⟩
    | cons b t =>
        obtain ⟨-, rfl⟩ := List.cons.inj ht
        exact absurd (List.mem_append_right t List.mem_cons_self) hd
  · cases t with
    | nil => exact ⟨List.append_nil ys, (List.cons.inj ht).2.symm⟩
    | cons b t =>
        obtain ⟨-, rfl⟩ := List.cons.inj ht
        exact absurd (List.mem_append_right t List.mem_cons_self) he

namespace LabelKind

/-- The stem of a kind without its last character, which is an underscore. -/
theorem exists_stem_eq (k : LabelKind) : ∃ word, k.stem.toList = word ++ ['_'] :=
  ⟨k.stem.toList.dropLast, by cases k <;> decide⟩

theorem stem_injective : Function.Injective stem := by
  intro j k h
  cases j <;> cases k <;> first | rfl | exact absurd h (by decide)

theorem rank_injective : Function.Injective rank := by
  intro j k h
  rw [← ofNat_ctorIdx j, ← ofNat_ctorIdx k]
  exact congrArg LabelKind.ofNat h

end LabelKind

namespace Label

/-- The digits of the name: those of the number, else those of the address. -/
def digits (l : Label) : List Char :=
  match l.sequence with
  | some n => Nat.toDigits 10 n
  | none => Nat.toDigits 16 l.id.address

theorem toList_name (l : Label) :
    l.name.toList = ':' :: (l.id.kind.stem.toList ++ l.digits) := by
  cases h : l.sequence with
  | none => simp [name, digits, h, Text.toList_hex]
  | some n => simp [name, digits, h, Text.toList_decimal]

theorem underscore_notMem_digits (l : Label) : '_' ∉ l.digits := by
  rw [digits]
  split <;> exact Text.underscore_notMem_toDigits (by decide)

/-- **A name determines the kind and the digits** of a label. -/
theorem name_inj {l m : Label} (h : l.name = m.name) :
    l.id.kind = m.id.kind ∧ l.digits = m.digits := by
  obtain ⟨v, hv⟩ := l.id.kind.exists_stem_eq
  obtain ⟨w, hw⟩ := m.id.kind.exists_stem_eq
  have hlist := congrArg String.toList h
  rw [toList_name, toList_name, List.cons.injEq, hv, hw, List.append_assoc,
    List.append_assoc] at hlist
  -- the last underscore of the two names is one and the same
  obtain ⟨rfl, hd⟩ := append_cons_inj hlist.2 l.underscore_notMem_digits m.underscore_notMem_digits
  exact ⟨LabelKind.stem_injective (String.toList_injective (hv.trans hw.symm)), hd⟩

end Label

/-! ### Tables -/

namespace LabelTable

/-- The identities of the labels, in the order of their creation. -/
def ids (t : LabelTable) : List LabelId := t.labels.map (·.id)

/-- The index agrees with the labels: it has an identity at a position just if the label there is
the label of the identity. -/
def Indexed (t : LabelTable) : Prop := ∀ id n, t.position? id = some n ↔ t.ids[n]? = some id

variable {t : LabelTable} {id a b : LabelId} {n : Nat}

theorem getElem?_ids : t.ids[n]? = some id ↔ ∃ l, t.get? n = some l ∧ l.id = id := by
  rw [ids, List.getElem?_map, Option.map_eq_some_iff]
  rfl

/-- An index has one position for an identity, so no identity has two labels. -/
theorem Indexed.nodup (h : t.Indexed) : t.ids.Nodup := by
  rw [List.nodup_iff_getElem?_ne_getElem?]
  intro i j hij hj he
  have hlast := List.getElem?_eq_getElem hj
  have hi := (h _ i).mpr (he.trans hlast)
  rw [(h _ j).mpr hlast] at hi
  exact Nat.ne_of_gt hij (Option.some.inj hi)

theorem Indexed.position?_eq_none_iff (h : t.Indexed) : t.position? id = none ↔ id ∉ t.ids := by
  rw [Option.eq_none_iff_forall_ne_some, List.mem_iff_getElem?, not_exists]
  exact forall_congr' fun n => not_congr (h id n)

/-- An identity of the table has a position, and the label there is its own. -/
theorem Indexed.exists_position (h : t.Indexed) (hid : id ∈ t.ids) :
    ∃ n l, t.position? id = some n ∧ t.get? n = some l ∧ l.id = id := by
  obtain ⟨n, hn⟩ := List.mem_iff_getElem?.mp hid
  obtain ⟨l, hl⟩ := getElem?_ids.mp hn
  exact ⟨n, l, (h id n).mpr hn, hl⟩

theorem indexed_empty : empty.Indexed := fun id n => by simp [empty, position?, ids]

/-! ### One request -/

theorem intern_of_mem (h : t.Indexed) (hid : id ∈ t.ids) : (t.intern id).2 = t := by
  obtain ⟨n, -, hn, -⟩ := h.exists_position hid
  rw [intern, hn]

theorem intern_of_notMem (h : t.Indexed) (hid : id ∉ t.ids) :
    t.intern id = (t.size, ⟨t.labels ++ [⟨id, none⟩], (id, t.size) :: t.index⟩) := by
  rw [intern, h.position?_eq_none_iff.mpr hid]

theorem intern_labels (h : t.Indexed) (id : LabelId) :
    (t.intern id).2.labels = if id ∈ t.ids then t.labels else t.labels ++ [⟨id, none⟩] := by
  split
  · rw [intern_of_mem h ‹_›]
  · rw [intern_of_notMem h ‹_›]

theorem ids_intern (h : t.Indexed) (id : LabelId) :
    (t.intern id).2.ids = if id ∈ t.ids then t.ids else t.ids ++ [id] := by
  rw [ids, intern_labels h]
  split
  · rfl
  · rw [List.map_append]
    rfl

theorem mem_ids_intern (h : t.Indexed) : a ∈ (t.intern id).2.ids ↔ a ∈ t.ids ∨ a = id := by
  rw [ids_intern h]
  split
  · exact ⟨.inl, fun h => h.elim (fun h => h) fun h => h ▸ ‹id ∈ t.ids›⟩
  · simp

theorem getElem?_concat_eq_some_iff {α : Type} {as : List α} {x y : α} {n : Nat} :
    (as ++ [x])[n]? = some y ↔ as[n]? = some y ∨ n = as.length ∧ x = y := by
  rcases Nat.lt_trichotomy n as.length with hn | rfl | hn
  · rw [List.getElem?_append_left hn]
    simp [Nat.ne_of_lt hn]
  · rw [List.getElem?_concat_length]
    simp
  · have hlength : (as ++ [x]).length ≤ n := by
      rw [List.length_append, List.length_singleton]
      exact hn
    rw [List.getElem?_eq_none hlength, List.getElem?_eq_none (Nat.le_of_lt hn)]
    simp [Nat.ne_of_gt hn]

/-- **A request keeps the index right**: what it creates is at the end of the labels, and the index
has it there. -/
theorem Indexed.intern (h : t.Indexed) (id : LabelId) : (t.intern id).2.Indexed := by
  by_cases hid : id ∈ t.ids
  · rwa [intern_of_mem h hid]
  · intro a n
    have hsize : t.ids.length = t.size := List.length_map _
    rw [ids_intern h, if_neg hid, getElem?_concat_eq_some_iff, hsize, intern_of_notMem h hid,
      position?]
    by_cases ha : a = id
    · -- it is not among the labels there were, so its one position is the last
      subst ha
      have hold : t.ids[n]? ≠ some a := fun hn => hid (List.mem_of_getElem? hn)
      simp [hold, eq_comm]
    · rw [List.lookup_cons, beq_false_of_ne ha]
      refine (h a n).trans ?_
      simp [Ne.symm ha]

/-- A table as it is before the labels are numbered. -/
structure Plain (t : LabelTable) : Prop where
  /-- The index agrees with the labels. -/
  indexed : t.Indexed
  /-- No label has a number. -/
  unnumbered : ∀ l ∈ t.labels, l.sequence = none

theorem Plain.nodup (h : t.Plain) : t.ids.Nodup := h.indexed.nodup

theorem Plain.intern (h : t.Plain) (id : LabelId) : (t.intern id).2.Plain where
  indexed := h.indexed.intern id
  unnumbered := by
    rw [intern_labels h.indexed]
    split
    · exact h.unnumbered
    · intro l hl
      rcases List.mem_append.mp hl with hl | hl
      · exact h.unnumbered l hl
      · rw [List.mem_singleton.mp hl]

/-- Any run of requests keeps a plain table plain, and adds just what was asked for. -/
theorem Plain.internAll {t : LabelTable} (h : t.Plain) (asked : List LabelId) :
    (t.internAll asked).Plain ∧ ∀ a, a ∈ (t.internAll asked).ids ↔ a ∈ t.ids ∨ a ∈ asked := by
  induction asked generalizing t with
  | nil => exact ⟨h, by simp [LabelTable.internAll]⟩
  | cons id asked ih =>
      obtain ⟨hp, hm⟩ := ih (h.intern id)
      refine ⟨hp, fun a => (hm a).trans ?_⟩
      rw [mem_ids_intern h.indexed, List.mem_cons, or_assoc]

theorem plain_empty : empty.Plain := ⟨indexed_empty, by simp [empty]⟩

theorem plain_ofIds (asked : List LabelId) : (ofIds asked).Plain :=
  (plain_empty.internAll asked).1

theorem mem_ids_ofIds {asked : List LabelId} : a ∈ (ofIds asked).ids ↔ a ∈ asked := by
  rw [ofIds, (plain_empty.internAll asked).2]
  simp [empty, ids]

/-! ### The order of the labels -/

theorem get?_of_mem_zipIdx {x : Label × Nat}
    (h : x ∈ t.labels.zipIdx.mergeSort fun a b => a.1.id.placeLe b.1.id) :
    t.get? x.2 = some x.1 :=
  List.mem_zipIdx_iff_getElem?.mp ((List.mergeSort_perm _ _).mem_iff.mp h)

theorem sorted_eq_map (t : LabelTable) :
    t.sorted = (t.labels.zipIdx.mergeSort fun a b => a.1.id.placeLe b.1.id).map (·.1) := by
  rw [sorted, sortedPositions, List.filterMap_map, ← List.filterMap_eq_map]
  exact List.filterMap_congr fun x hx => get?_of_mem_zipIdx hx

/-- The sorted positions are those of the sorted labels. -/
theorem map_get?_sortedPositions (t : LabelTable) :
    t.sortedPositions.map t.get? = t.sorted.map some := by
  rw [sorted_eq_map, sortedPositions, List.map_map, List.map_map]
  exact List.map_congr_left fun x hx => get?_of_mem_zipIdx hx

/-- Every position is among the sorted ones, once. -/
theorem sortedPositions_perm (t : LabelTable) : t.sortedPositions.Perm (List.range t.size) := by
  have hperm := (List.mergeSort_perm t.labels.zipIdx fun a b => a.1.id.placeLe b.1.id).map (·.2)
  rwa [List.zipIdx_map_snd, ← List.range_eq_range'] at hperm

theorem sorted_eq (t : LabelTable) :
    t.sorted = t.labels.mergeSort fun a b => a.id.placeLe b.id := by
  rw [sorted_eq_map, List.map_mergeSort (s := fun a b : Label => a.id.placeLe b.id)
    fun _ _ _ _ => rfl, List.zipIdx_map_fst]

theorem sorted_perm (t : LabelTable) : t.sorted.Perm t.labels := by
  rw [sorted_eq]
  exact List.mergeSort_perm t.labels _

theorem sortedIds_perm (t : LabelTable) : t.sortedIds.Perm t.ids := t.sorted_perm.map _

theorem placeLe_iff : a.placeLe b ↔
    a.address < b.address ∨ a.address = b.address ∧ a.kind.rank ≤ b.kind.rank := by
  simp [LabelId.placeLe]

/-- The labels are sorted by address, then by kind. -/
theorem sortedIds_pairwise (t : LabelTable) : t.sortedIds.Pairwise fun a b => a.placeLe b := by
  rw [sortedIds, sorted_eq]
  refine List.pairwise_map.mpr (List.pairwise_mergeSort ?_ ?_ t.labels)
  · intro l m n h₁ h₂
    rw [placeLe_iff] at h₁ h₂ ⊢
    omega
  · intro l m
    rw [Bool.or_eq_true, placeLe_iff, placeLe_iff]
    omega

/-- No two of the labels have one address and one kind. -/
theorem sortedIds_strict (h : t.ids.Nodup) : t.sortedIds.Pairwise fun a b =>
    a.address < b.address ∨ a.address = b.address ∧ a.kind.rank < b.kind.rank := by
  have hne : t.sortedIds.Nodup := (sortedIds_perm t).nodup_iff.mpr h
  refine ((sortedIds_pairwise t).and hne).imp fun {a b} hab => ?_
  rcases placeLe_iff.mp hab.1 with hlt | ⟨ha, hk⟩
  · exact .inl hlt
  · refine .inr ⟨ha, Nat.lt_of_le_of_ne hk fun hrank => hab.2 ?_⟩
    obtain ⟨k, x⟩ := a
    obtain rfl : x = b.address := ha
    obtain rfl : k = b.kind := LabelKind.rank_injective hrank
    rfl

/-! ### Numbering -/

/-- The place of an identity among the sorted identities of its kind. -/
def place (t : LabelTable) (id : LabelId) : Nat :=
  (t.sortedIds.filter (·.kind == id.kind)).idxOf id

section Assign

variable {next : LabelKind → Nat} {labels : List Label} {positions : List Nat} {l : Label}

/-- The identities of the labels at positions. -/
def idsAt (labels : List Label) (positions : List Nat) : List LabelId :=
  positions.filterMap ((labels.map (·.id))[·]?)

theorem idsAt_cons_of_none (h : labels[n]? = none) :
    idsAt labels (n :: positions) = idsAt labels positions :=
  List.filterMap_cons_none (by rw [List.getElem?_map, h, Option.map_none])

theorem idsAt_cons_of_some (h : labels[n]? = some l) :
    idsAt labels (n :: positions) = l.id :: idsAt labels positions :=
  List.filterMap_cons_some (by rw [List.getElem?_map, h, Option.map_some])

theorem mem_idsAt (hn : n ∈ positions) (h : labels[n]? = some l) : l.id ∈ idsAt labels positions :=
  List.mem_filterMap.mpr ⟨n, hn, by rw [List.getElem?_map, h, Option.map_some]⟩

theorem map_id_set (h : labels[n]? = some l) (sequence : Option Nat) :
    (labels.set n { l with sequence := sequence }).map (·.id) = labels.map (·.id) := by
  obtain ⟨hlt, rfl⟩ := List.getElem?_eq_some_iff.mp h
  refine List.ext_getElem? fun m => ?_
  rw [List.getElem?_map, List.getElem?_set, List.getElem?_map]
  split
  · subst m
    simp [hlt]
  · rfl

theorem idsAt_set (h : labels[n]? = some l) (sequence : Option Nat) (positions : List Nat) :
    idsAt (labels.set n { l with sequence := sequence }) positions = idsAt labels positions := by
  rw [idsAt, map_id_set h, idsAt]

theorem map_id_assign (next : LabelKind → Nat) (labels : List Label) (positions : List Nat) :
    (assign next labels positions).map (·.id) = labels.map (·.id) := by
  induction positions generalizing next labels with
  | nil => rfl
  | cons n positions ih =>
      rw [assign]
      split
      · exact ih next labels
      · rw [ih, map_id_set ‹_›]

/-- A label whose position is not among those that are numbered stays as it is. -/
theorem getElem?_assign_of_notMem (hn : n ∉ positions) :
    (assign next labels positions)[n]? = labels[n]? := by
  induction positions generalizing next labels with
  | nil => rfl
  | cons m positions ih =>
      obtain ⟨hne, hn⟩ := not_or.mp (mt List.mem_cons.mpr hn)
      rw [assign]
      split
      · exact ih hn
      · rw [ih hn, List.getElem?_set_ne (Ne.symm hne)]

/-- **What the counters count**: a label gets the next number of its kind as it was before, and one
more for each label of its kind whose position comes earlier. -/
theorem getElem?_assign (hp : positions.Nodup) (hids : (idsAt labels positions).Nodup)
    (hn : n ∈ positions) (hl : labels[n]? = some l) :
    (assign next labels positions)[n]? = some ⟨l.id, some (next l.id.kind
      + ((idsAt labels positions).filter (·.kind == l.id.kind)).idxOf l.id)⟩ := by
  -- on the positions: each step takes the first position and counts its label
  induction positions generalizing next labels with
  | nil => cases hn
  | cons m positions ih =>
      obtain ⟨hm, hp⟩ := List.nodup_cons.mp hp
      rw [assign]
      cases ha : labels[m]? with
      | none =>
          have hne : n ≠ m := by
            rintro rfl
            rw [hl] at ha
            cases ha
          rw [idsAt_cons_of_none ha] at hids ⊢
          exact ih hp hids ((List.mem_cons.mp hn).resolve_left hne) hl
      | some first =>
          rw [idsAt_cons_of_some ha] at hids ⊢
          obtain ⟨hfresh, hids⟩ := List.nodup_cons.mp hids
          by_cases hne : n = m
          · subst hne
            obtain rfl : l = first := Option.some.inj (hl.symm.trans ha)
            simp only [getElem?_assign_of_notMem hm]
            simp [(List.getElem?_eq_some_iff.mp hl).1]
          · have hmem := (List.mem_cons.mp hn).resolve_left hne
            have hdiff : first.id ≠ l.id := fun he => hfresh (he ▸ mem_idsAt hmem hl)
            have hsame := idsAt_set ha (some (next first.id.kind)) positions
            have hrest := @ih (advance next first.id.kind) _ hp (by rwa [hsame]) hmem
              ((List.getElem?_set_ne (Ne.symm hne)).trans hl)
            simp only [hrest, hsame, advance]
            by_cases hk : l.id.kind = first.id.kind
            · rw [if_pos hk, List.filter_cons_of_pos (by simp [hk]), List.idxOf_cons_ne _ hdiff]
              simp only [Nat.succ_eq_add_one, Nat.add_assoc, Nat.add_comm 1]
            · rw [if_neg hk, List.filter_cons_of_neg (by simpa using Ne.symm hk)]

end Assign

theorem ids_number (t : LabelTable) : t.number.ids = t.ids := map_id_assign _ _ _

theorem Indexed.number (h : t.Indexed) : t.number.Indexed := by
  intro id n
  rw [ids_number]
  exact h id n

theorem idsAt_sortedPositions (t : LabelTable) : idsAt t.labels t.sortedPositions = t.sortedIds := by
  rw [sortedIds, sorted, List.map_filterMap]
  exact List.filterMap_congr fun n _ => List.getElem?_map

/-- **Numbering gives each label its place** among the sorted labels of its kind. -/
theorem labels_number_eq (h : t.ids.Nodup) :
    t.number.labels = t.labels.map fun l => ⟨l.id, some (t.place l.id)⟩ := by
  refine List.ext_getElem? fun n => ?_
  rw [List.getElem?_map]
  cases hl : t.labels[n]? with
  | none =>
      have hlength := congrArg List.length (ids_number t)
      rw [ids, ids, List.length_map, List.length_map] at hlength
      rw [List.getElem?_eq_none_iff] at hl
      exact List.getElem?_eq_none (by omega)
  | some l =>
      have hn : n ∈ t.sortedPositions := (sortedPositions_perm t).mem_iff.mpr
        (List.mem_range.mpr (List.getElem?_eq_some_iff.mp hl).1)
      have hsorted : t.sortedIds.Nodup := (sortedIds_perm t).nodup_iff.mpr h
      have hassign := @getElem?_assign n (fun _ => 0) _ _ _
        ((sortedPositions_perm t).nodup_iff.mpr List.nodup_range)
        (by rwa [idsAt_sortedPositions]) hn hl
      rw [idsAt_sortedPositions, Nat.zero_add] at hassign
      exact hassign

theorem sequence_number (h : t.ids.Nodup) {l : Label} (hl : l ∈ t.number.labels) :
    l.sequence = some (t.place l.id) := by
  rw [labels_number_eq h] at hl
  obtain ⟨m, -, rfl⟩ := List.mem_map.mp hl
  rfl

/-! ### Names in a table -/

/-- The label of an identity of the table is one of its labels. -/
theorem label_of_mem (h : t.Indexed) (hid : id ∈ t.ids) :
    t.label id ∈ t.labels ∧ (t.label id).id = id := by
  obtain ⟨n, l, hn, hl, hli⟩ := h.exists_position hid
  have hlabel : t.label id = l := by simp [label, hn, hl]
  rw [hlabel]
  exact ⟨List.mem_of_getElem? hl, hli⟩

theorem Plain.name_injOn (h : t.Plain) (ha : a ∈ t.ids) (hb : b ∈ t.ids)
    (he : t.name a = t.name b) : a = b := by
  obtain ⟨hma, hia⟩ := label_of_mem h.indexed ha
  obtain ⟨hmb, hib⟩ := label_of_mem h.indexed hb
  obtain ⟨hk, hd⟩ := Label.name_inj he
  rw [Label.digits, Label.digits, h.unnumbered _ hma, h.unnumbered _ hmb] at hd
  have haddr := Text.toDigits_injective (by decide) (by decide) hd
  rw [hia, hib] at hk haddr
  cases a
  cases b
  simp_all

theorem number_name_injOn (h : t.Indexed) (ha : a ∈ t.ids) (hb : b ∈ t.ids)
    (he : t.number.name a = t.number.name b) : a = b := by
  obtain ⟨hma, hia⟩ := label_of_mem h.number (ids_number t ▸ ha)
  obtain ⟨hmb, hib⟩ := label_of_mem h.number (ids_number t ▸ hb)
  obtain ⟨hk, hd⟩ := Label.name_inj he
  rw [Label.digits, Label.digits, sequence_number h.nodup hma, sequence_number h.nodup hmb] at hd
  have hplace := Text.toDigits_injective (by decide) (by decide) hd
  rw [hia, hib] at hk hplace
  -- both places are among the identities of one kind
  rw [place, place, hk] at hplace
  refine (List.idxOf_inj ?_).mp hplace
  exact List.mem_filter.mpr ⟨(sortedIds_perm t).mem_iff.mpr ha, by simp [hk]⟩

end LabelTable

end Dalvik
