import Dalvik.Proofs.Arrangement
import Mathlib.Data.List.Nodup

/-!
# Interleaving — the order of collection within a band is all that counts

The entries of a listing are collected in passes, each of which adds entries of bands of its own.
Two lists of entries with the same entries of each band, in the same order, are interleavings of the
same streams (`Entry.SameStreams`). They have the same entries of each band at each address, and
these are what the arrangement depends on; so it is the same for both, and it does not matter in
which order the passes are made (`sameStreams_flatten`).

`Entry.Arranged` states what an arrangement is, by the numbers of the entries in the order of their
collection: the entries by address, then by band, then by number. There is one, and `Entry.arrange`
is it without the numbers.
-/

namespace Dalvik.Entry

variable {es fs : List Entry} {qs : List (Entry × Nat)}

/-- Two lists have the same entries of each band, in the same order. -/
def SameStreams (es fs : List Entry) : Prop :=
  ∀ k : Band, es.filter (·.band = k) = fs.filter (·.band = k)

/-- Two passes have no band in common. -/
def Apart (es fs : List Entry) : Prop := ∀ a ∈ es, ∀ b ∈ fs, a.band ≠ b.band

/-- `qs` are the entries `es`, each with its number in `es`, in the order of a listing. -/
structure Arranged (es : List Entry) (qs : List (Entry × Nat)) : Prop where
  /-- Each entry is taken once. -/
  perm : qs.Perm es.zipIdx
  /-- The entries are in order by address, then by band. -/
  ordered : qs.Pairwise fun a b => a.1.address < b.1.address ∨
    a.1.address = b.1.address ∧ a.1.band.rank ≤ b.1.band.rank
  /-- Entries of one address and band are in the order of their collection. -/
  stable : qs.Pairwise fun a b => a.1.address = b.1.address → a.1.band = b.1.band → a.2 < b.2

/-! ### Streams -/

theorem SameStreams.filter_at (h : SameStreams es fs) (k : Band) (x : Nat) :
    es.filter (fun e => e.band = k ∧ e.address = x)
      = fs.filter fun e => e.band = k ∧ e.address = x := by
  have hk := congrArg (List.filter (·.address = x)) (h k)
  simpa [List.filter_filter, and_comm] using hk

/-- **Interleavings of the same streams have one arrangement.** -/
theorem SameStreams.arrange_eq (h : SameStreams es fs) : arrange es = arrange fs := by
  refine eq_of_filter_at (arrange_pairwise es) (arrange_pairwise fs) fun k x => ?_
  rw [arrange_at, arrange_at, h.filter_at]

/-- Of two passes that have no band in common, one has nothing of a given band. -/
theorem Apart.filter_append_comm (h : Apart es fs) (k : Band) :
    es.filter (·.band = k) ++ fs.filter (·.band = k)
      = fs.filter (·.band = k) ++ es.filter (·.band = k) := by
  by_cases hk : ∃ a ∈ es, a.band = k
  · obtain ⟨a, ha, rfl⟩ := hk
    have hnil : fs.filter (·.band = a.band) = [] := by
      simpa [List.filter_eq_nil_iff] using fun b hb => (h a ha b hb).symm
    rw [hnil, List.append_nil, List.nil_append]
  · have hnil : es.filter (·.band = k) = [] := by
      simpa [List.filter_eq_nil_iff] using hk
    rw [hnil, List.append_nil, List.nil_append]

/-- **Passes in another order** give the same streams. -/
theorem sameStreams_flatten {ps qs : List (List Entry)} (hp : ps.Perm qs)
    (ha : ps.Pairwise Apart) : SameStreams ps.flatten qs.flatten := by
  have hsymm : ∀ {es fs : List Entry}, Apart es fs → Apart fs es :=
    fun h b hb a ha => (h a ha b hb).symm
  -- on the permutation: passes change places two at a time
  induction hp with
  | nil => exact fun k => rfl
  | cons es _ ih =>
      intro k
      rw [List.flatten_cons, List.flatten_cons, List.filter_append, List.filter_append,
        ih (List.pairwise_cons.mp ha).2 k]
  | swap es fs ps =>
      intro k
      have hap : Apart fs es := (List.pairwise_cons.mp ha).1 es List.mem_cons_self
      simp only [List.flatten_cons, List.filter_append, ← List.append_assoc,
        hap.filter_append_comm k]
  | trans hp _ ih₁ ih₂ =>
      intro k
      rw [ih₁ ha k, ih₂ ((hp.pairwise_iff hsymm).mp ha) k]

/-! ### The numbers of the entries -/

theorem nodup_numbers (es : List Entry) : (es.zipIdx.map Prod.snd).Nodup := by
  rw [List.zipIdx_map_snd]
  exact List.nodup_range'

/-- The order of numbered entries: by address, then by band, then by number. -/
theorem zipIdxLE_iff {a b : Entry × Nat} : List.zipIdxLE le a b ↔
    (a.1.address < b.1.address ∨ a.1.address = b.1.address ∧ a.1.band.rank ≤ b.1.band.rank) ∧
      (a.1.address = b.1.address → a.1.band = b.1.band → a.2 ≤ b.2) := by
  by_cases hab : a.1.le b.1
  · rw [List.zipIdxLE, if_pos hab, ← le_iff]
    by_cases hba : b.1.le a.1
    · -- neither is before the other, so they have one address and one band
      obtain ⟨hx, hk⟩ : a.1.address = b.1.address ∧ a.1.band = b.1.band := by
        rw [le_iff] at hab hba
        exact ⟨by omega, Band.eq_of_rank_eq (by omega)⟩
      simp [hab, hba, hx, hk]
    · have hkey : a.1.address = b.1.address → a.1.band ≠ b.1.band := by
        intro hx hk
        exact hba (le_iff.mpr (.inr ⟨hx.symm, Nat.le_of_eq (congrArg Band.rank hk.symm)⟩))
      simpa [hab, hba] using fun hx hk => absurd hk (hkey hx)
  · simp [List.zipIdxLE, hab, ← le_iff]

theorem Arranged.pairwise_zipIdxLE (h : Arranged es qs) :
    qs.Pairwise fun a b => List.zipIdxLE le a b :=
  (h.ordered.and h.stable).imp fun hab =>
    zipIdxLE_iff.mpr ⟨hab.1, fun hx hk => Nat.le_of_lt (hab.2 hx hk)⟩

/-- To sort the entries by their numbers too gives an arrangement. -/
theorem arranged_mergeSort (es : List Entry) :
    Arranged es (es.zipIdx.mergeSort (List.zipIdxLE le)) := by
  have hperm := List.mergeSort_perm es.zipIdx (List.zipIdxLE le)
  have hle := List.pairwise_mergeSort (List.zipIdxLE_trans le_trans) (List.zipIdxLE_total le_total)
    es.zipIdx
  have hne := List.pairwise_map.mp ((hperm.map Prod.snd).nodup_iff.mpr (nodup_numbers es))
  refine ⟨hperm, hle.imp fun hab => (zipIdxLE_iff.mp hab).1, (hle.and hne).imp fun hab hx hk => ?_⟩
  exact Nat.lt_of_le_of_ne ((zipIdxLE_iff.mp hab.1).2 hx hk) hab.2

/-- **There is one arrangement.** Entries that are not before each other have one number. -/
theorem Arranged.unique {rs : List (Entry × Nat)} (hq : Arranged es qs) (hr : Arranged es rs) :
    qs = rs := by
  refine (hq.perm.trans hr.perm.symm).eq_of_pairwise (fun a b ha hb hab hba => ?_)
    hq.pairwise_zipIdxLE hr.pairwise_zipIdxLE
  rw [zipIdxLE_iff] at hab hba
  have hx : a.1.address = b.1.address := by omega
  have hk : a.1.band = b.1.band := Band.eq_of_rank_eq (by omega)
  have hnumber : a.2 = b.2 := Nat.le_antisymm (hab.2 hx hk) (hba.2 hx.symm hk.symm)
  exact List.inj_on_of_nodup_map (nodup_numbers es) (hq.perm.mem_iff.mp ha)
    (hr.perm.mem_iff.mp hb) hnumber

/-- **The arrangement does not depend on the order of the passes**: it is one for all interleavings
of the same streams, and so for all orders of passes that have no band in common. It has each entry
once, by address, then by band, then as the entries were collected, and nothing else does. -/
theorem arrange_determined :
    (∀ es fs, SameStreams es fs → arrange es = arrange fs) ∧
    (∀ ps qs : List (List Entry), ps.Perm qs → ps.Pairwise Apart →
      arrange ps.flatten = arrange qs.flatten) ∧
    ∀ es, ∃ qs, Arranged es qs ∧ qs.map Prod.fst = arrange es ∧ ∀ rs, Arranged es rs → rs = qs := by
  refine ⟨fun es fs h => h.arrange_eq, fun ps qs hp ha => (sameStreams_flatten hp ha).arrange_eq,
    fun es => ?_⟩
  have hsort := arranged_mergeSort es
  exact ⟨_, hsort, List.mergeSort_zipIdx, fun rs hr => hr.unique hsort⟩

/-- Two line numbers and a label at one address, and a blank line before them: collected in any
other way that keeps the line numbers in their order, they stand so. -/
theorem arrange_determined_lines :
    let es : List Entry := [⟨4, .debug (.line 3)⟩, ⟨4, .label ⟨.cond, 4⟩⟩, ⟨4, .debug (.line 2)⟩,
      ⟨0, .blank⟩]
    let fs : List Entry := [⟨0, .blank⟩, ⟨4, .label ⟨.cond, 4⟩⟩, ⟨4, .debug (.line 3)⟩,
      ⟨4, .debug (.line 2)⟩]
    SameStreams es fs ∧ arrange es = arrange fs ∧ arrange fs = fs := by
  intro es fs
  have hsame : SameStreams es fs := by
    intro k
    cases k <;> rfl
  exact ⟨hsame, arrange_determined.1 es fs hsame, List.mergeSort_of_pairwise (by decide)⟩

end Dalvik.Entry
