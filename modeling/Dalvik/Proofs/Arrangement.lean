import Dalvik.Entry
import Mathlib.Data.List.Basic

/-!
# Arrangement — the order of the entries

`Entry.arrange` puts entries in the order of a listing: by address, then by band, and where neither
tells two entries apart, as they were collected. It loses nothing (`arrange_perm`), its result is in
order (`arrange_pairwise`), and entries that were collected in order keep their order, whatever else
was collected between them (`arrange_filter`). These facts determine the result, since entries in
order are given by those of each address and band (`eq_of_filter_at`); so leaving entries out before
or after the arrangement is the same (`filter_arrange`).

The order also says what stands between two entries of one address: only entries of that address,
in the bands from the one to the other (`between_of_pairwise`).
-/

namespace Dalvik

theorem Band.eq_of_rank_eq {a b : Band} (h : a.rank = b.rank) : a = b := by
  rw [← ofNat_ctorIdx a, ← ofNat_ctorIdx b]
  exact congrArg ofNat h

namespace Band

theorem rank_label_lt : label.rank < instruction.rank := by decide

theorem rank_exception_lt : exception.rank < instruction.rank := by decide

theorem rank_instruction_lt : instruction.rank < blank.rank := by decide

/-- From the labels on, before the instructions, there are labels and handlers. -/
theorem eq_label_or_exception {k : Band} (hlow : label.rank ≤ k.rank)
    (hhigh : k.rank < instruction.rank) : k = label ∨ k = exception := by
  revert hlow hhigh
  cases k <;> decide

/-- From the handlers on, before the instructions, there are handlers. -/
theorem eq_exception {k : Band} (hlow : exception.rank ≤ k.rank)
    (hhigh : k.rank < instruction.rank) : k = exception := by
  revert hlow hhigh
  cases k <;> decide

/-- From the instructions on, up to the blank lines, there are just these two. -/
theorem eq_instruction_or_blank {k : Band} (hlow : instruction.rank ≤ k.rank)
    (hhigh : k.rank ≤ blank.rank) : k = instruction ∨ k = blank := by
  revert hlow hhigh
  cases k <;> decide

end Band

namespace Entry

theorem le_iff {a b : Entry} : a.le b ↔
    a.address < b.address ∨ a.address = b.address ∧ a.band.rank ≤ b.band.rank := by
  simp [le]

theorem le_trans (a b c : Entry) (h₁ : a.le b) (h₂ : b.le c) : a.le c := by
  rw [le_iff] at h₁ h₂ ⊢
  omega

theorem le_total (a b : Entry) : a.le b || b.le a := by
  rw [Bool.or_eq_true, le_iff, le_iff]
  omega

theorem arrange_perm {L : Type} (es : List (Entry L)) : (arrange es).Perm es :=
  List.mergeSort_perm es le

theorem arrange_pairwise (es : List Entry) : (arrange es).Pairwise fun a b => a.le b :=
  List.pairwise_mergeSort le_trans le_total es

/-- **What was collected in order stays in order.** -/
theorem arrange_filter {es : List Entry} {p : Entry → Bool}
    (h : (es.filter p).Pairwise fun a b => a.le b) : (arrange es).filter p = es.filter p := by
  have hsub : (es.filter p).Sublist (arrange es) :=
    List.sublist_mergeSort le_trans le_total h List.filter_sublist
  have hself : (es.filter p).filter p = es.filter p := by rw [List.filter_filter]; simp
  have hlen : (es.filter p).length = ((arrange es).filter p).length :=
    ((arrange_perm es).filter p).length_eq.symm
  exact ((hself ▸ hsub.filter p).eq_of_length hlen).symm

/-- The entries of one band at one address stand as they were collected. -/
theorem arrange_at (es : List Entry) (k : Band) (x : Nat) :
    (arrange es).filter (fun e => e.band = k ∧ e.address = x)
      = es.filter fun e => e.band = k ∧ e.address = x := by
  -- the order does not tell them apart
  refine arrange_filter (List.pairwise_iff_forall_sublist.mpr fun {y z} hyz => ?_)
  have hy := of_decide_eq_true (List.mem_filter.mp (hyz.mem (a := y) (by simp))).2
  have hz := of_decide_eq_true (List.mem_filter.mp (hyz.mem (a := z) (by simp))).2
  exact le_iff.mpr (.inr ⟨hy.2.trans hz.2.symm, by simp [hy.1, hz.1]⟩)

/-- Entries in order begin with one that is not after any entry of a band and address they have. -/
theorem le_of_filter_at {d e : Entry} {ds es : List Entry}
    (he : (e :: es).Pairwise fun a b => a.le b)
    (h : ∀ k x, (d :: ds).filter (fun a => a.band = k ∧ a.address = x)
      = (e :: es).filter fun a => a.band = k ∧ a.address = x) : e.le d := by
  have hd : d ∈ (e :: es).filter fun a => a.band = d.band ∧ a.address = d.address := by
    rw [← h]
    exact List.mem_filter.mpr ⟨List.mem_cons_self, by simp⟩
  rcases List.mem_cons.mp (List.mem_filter.mp hd).1 with rfl | hmem
  · exact le_iff.mpr (.inr ⟨rfl, Nat.le_refl _⟩)
  · exact (List.pairwise_cons.mp he).1 d hmem

/-- **Entries in order are given by those of each band at each address.** -/
theorem eq_of_filter_at {ds es : List Entry} (hd : ds.Pairwise fun a b => a.le b)
    (he : es.Pairwise fun a b => a.le b)
    (h : ∀ k x, ds.filter (fun a => a.band = k ∧ a.address = x)
      = es.filter fun a => a.band = k ∧ a.address = x) : ds = es := by
  induction ds generalizing es with
  | nil =>
      cases es with
      | nil => rfl
      | cons e es => simpa using h e.band e.address
  | cons d ds ih =>
      cases es with
      | nil => simpa using h d.band d.address
      | cons e es =>
          -- the two first entries are not after each other, so they are the first of one key
          have h₁ := le_iff.mp (le_of_filter_at hd fun k x => (h k x).symm)
          have h₂ := le_iff.mp (le_of_filter_at he h)
          have hx : e.address = d.address := by omega
          have hk : e.band = d.band := Band.eq_of_rank_eq (by omega)
          have hkey := h d.band d.address
          rw [List.filter_cons_of_pos (by simp), List.filter_cons_of_pos (by simp [hk, hx])] at hkey
          obtain ⟨rfl, -⟩ := List.cons.inj hkey
          congr 1
          refine ih (List.pairwise_cons.mp hd).2 (List.pairwise_cons.mp he).2 fun k x => ?_
          have htail := h k x
          rw [List.filter_cons, List.filter_cons] at htail
          split at htail
          · exact (List.cons.inj htail).2
          · exact htail

/-- **Leaving entries out** before the arrangement or after it is the same. -/
theorem filter_arrange (p : Entry → Bool) (es : List Entry) :
    (arrange es).filter p = arrange (es.filter p) := by
  refine eq_of_filter_at ((arrange_pairwise es).sublist List.filter_sublist) (arrange_pairwise _) ?_
  intro k x
  rw [List.filter_comm, arrange_at, arrange_at, List.filter_comm]

/-- Entries of a band that increase strictly do so wherever they stand. -/
theorem pairwise_band {es : List Entry} {k : Band}
    (h : (es.filter (·.band = k)).Pairwise fun a b => a.address < b.address) :
    es.Pairwise fun a b => a.band = k → b.band = k → a.address < b.address := by
  simpa using List.pairwise_filter.mp h

/-! ### What stands before, after and between -/

variable {es before after between rest : List Entry} {x y : Entry}

theorem le_of_mem_before (h : es.Pairwise fun a b => a.le b) (hs : es = before ++ x :: after) :
    ∀ z ∈ before, z.le x := by
  subst hs
  exact fun z hz => (List.pairwise_append.mp h).2.2 z hz x List.mem_cons_self

theorem le_of_mem_after (h : es.Pairwise fun a b => a.le b) (hs : es = before ++ x :: after) :
    ∀ z ∈ after, x.le z := by
  subst hs
  exact (List.pairwise_cons.mp (List.pairwise_append.mp h).2.1).1

/-- An entry of a later band that stands before has a lower address. -/
theorem address_lt_of_mem_before (h : es.Pairwise fun a b => a.le b)
    (hs : es = before ++ x :: after) {z : Entry} (hz : z ∈ before)
    (hk : x.band.rank < z.band.rank) : z.address < x.address := by
  have hle := le_iff.mp (le_of_mem_before h hs z hz)
  omega

theorem address_le_of_mem_after (h : es.Pairwise fun a b => a.le b)
    (hs : es = before ++ x :: after) {z : Entry} (hz : z ∈ after) : x.address ≤ z.address := by
  have hle := le_iff.mp (le_of_mem_after h hs z hz)
  omega

/-- Between two entries of one address stand entries of that address, of the bands between. -/
theorem between_of_pairwise (h : es.Pairwise fun a b => a.le b)
    (hs : es = before ++ x :: (between ++ y :: rest)) (hxy : x.address = y.address) :
    ∀ z ∈ between, z.address = x.address ∧ x.band.rank ≤ z.band.rank ∧
      z.band.rank ≤ y.band.rank := by
  intro z hz
  have h₁ := le_iff.mp (le_of_mem_after h hs z (List.mem_append_left _ hz))
  have hs' : es = (before ++ x :: between) ++ y :: rest := by rw [hs]; simp
  have h₂ := le_iff.mp (le_of_mem_before h hs' z (by simp [hz]))
  omega

end Entry

end Dalvik
