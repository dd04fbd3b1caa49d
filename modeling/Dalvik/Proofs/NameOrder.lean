import Dalvik.Proofs.Closure
import Dalvik.Proofs.Numbering

/-!
# NameOrder — the order of labels and the order of their names

The labels of one address stand in the order of their kinds, and the kinds are listed in the
alphabetical order of their stems (`LabelKind.stem_lt`). Where neither stem begins the other, the
names are in the order of the stems, whatever digits follow (`Text.append_lt_append`). But the stem
of a switch table is the stem of its cases with `data_` behind it. There the digits of the address
are compared with `data_`, and the name of the case comes first just if they come before `db`
(`Text.lt_data_iff`): at the address `0xe` it does not.

So names without numbers follow the order of the labels, except for a case and a table of one
switch at such an address (`LabelId.Swapped`). `LabelTable.NameOrder` states this of a table, and
`names_ordered` proves it of all runs of requests and, for the marks at an address, of all
listings. `Code.tableAsCase` has a listing whose marks are not in alphabetical order.
-/

namespace Dalvik

/-! ### Texts and what follows them -/

namespace Text

variable {xs ys ds : List Char}

theorem append_lt_append_iff (xs : List Char) {us vs : List Char} :
    xs ++ us < xs ++ vs ↔ us < vs := by
  induction xs with
  | nil => rfl
  | cons x xs ih => rw [List.cons_append, List.cons_append, List.cons_lt_cons_self, ih]

/-- What follows two texts does not change their order, unless the lower one begins the other. -/
theorem append_lt_append (h : xs < ys) (hp : ¬ xs <+: ys) (us vs : List Char) :
    xs ++ us < ys ++ vs := by
  induction xs generalizing ys with
  | nil => exact absurd List.nil_prefix hp
  | cons x xs ih =>
      cases ys with
      | nil => exact absurd h (List.not_lt_nil _)
      | cons y ys =>
          rw [List.cons_append, List.cons_append, List.cons_lt_cons_iff]
          rcases List.cons_lt_cons_iff.mp h with hlt | ⟨rfl, hlt⟩
          · exact .inl hlt
          · exact .inr ⟨rfl, ih hlt fun hxy => hp (List.cons_prefix_cons.mpr ⟨rfl, hxy⟩)⟩

/-- Digits come before `dat…` just if they come before `db`: behind `da` there is a digit or
nothing, and both come before `t`. -/
theorem lt_data_iff (h : ∀ c ∈ ds, c < 't') (rest : List Char) :
    ds < 'd' :: 'a' :: 't' :: rest ↔ ds < ['d', 'b'] := by
  have hb (c : Char) : c < 'b' ↔ c < 'a' ∨ c = 'a' := by
    rw [Char.lt_def, Char.lt_def, Char.ext_iff, ← UInt32.toNat_inj, UInt32.lt_iff_toNat_lt,
      UInt32.lt_iff_toNat_lt]
    exact Nat.lt_succ_iff_lt_or_eq
  match ds, h with
  | [], _ => simp
  | [c], _ => simp [List.cons_lt_cons_iff]
  | [c, c'], _ => simp [List.cons_lt_cons_iff, hb]
  | c :: c' :: c'' :: ds, h =>
      have hdigit : c'' < 't' := h c'' (by simp)
      simp [List.cons_lt_cons_iff, hb, hdigit]

theorem lt_t_of_mem_toDigits {n : Nat} {c : Char} (h : c ∈ Nat.toDigits 16 n) : c < 't' := by
  obtain ⟨d, hd, rfl⟩ := exists_digit_of_mem (by decide) h
  have key : ∀ d < 16, d.digitChar < 't' := by decide
  exact key d hd

end Text

/-! ### Stems -/

/-- The kinds are listed in the alphabetical order of their stems. -/
theorem LabelKind.stem_lt {j k : LabelKind} (h : j.rank < k.rank) :
    j.stem.toList < k.stem.toList := by
  cases j <;> cases k <;> first | exact absurd h (by decide) | decide

/-- A stem that begins another is that of the cases of a switch, and the other that of its
table. -/
theorem LabelKind.exists_switch_of_prefix {j k : LabelKind} (h : j.stem.toList <+: k.stem.toList)
    (hne : j ≠ k) : ∃ s : SwitchKind, j = s.caseLabel ∧ k = s.tableLabel := by
  cases j <;> cases k
  case packedCase.packedTable => exact ⟨.packed, rfl, rfl⟩
  case sparseCase.sparseTable => exact ⟨.sparse, rfl, rfl⟩
  all_goals first | exact absurd rfl hne | exact absurd h (by decide)

namespace SwitchKind

theorem stem_tableLabel (s : SwitchKind) :
    s.tableLabel.stem.toList = s.caseLabel.stem.toList ++ ['d', 'a', 't', 'a', '_'] := by
  cases s <;> decide

theorem rank_caseLabel_lt (s : SwitchKind) : s.caseLabel.rank < s.tableLabel.rank := by
  cases s <;> decide

end SwitchKind

/-! ### Names -/

/-- A case and a table of one switch, at an address whose digits do not come before `db`: they
begin with `e`, with `f`, or with `d` and a letter after `a`. -/
def LabelId.Swapped (a b : LabelId) : Prop :=
  (∃ s : SwitchKind, a.kind = s.caseLabel ∧ b.kind = s.tableLabel) ∧ ¬ Text.hex a.address < "db"

namespace Label

variable {l m : Label}

theorem name_lt_name_iff : l.name < m.name ↔
    l.id.kind.stem.toList ++ l.digits < m.id.kind.stem.toList ++ m.digits := by
  rw [String.lt_iff, toList_name, toList_name, List.cons_lt_cons_self]

/-- **Names follow the kinds**, unless they are those of a case and a table that are swapped. -/
theorem name_lt_name_iff_not_swapped (hl : l.sequence = none) (hm : m.sequence = none)
    (ha : l.id.address = m.id.address) (hk : l.id.kind.rank < m.id.kind.rank) :
    l.name < m.name ↔ ¬ l.id.Swapped m.id := by
  have hdl : l.digits = Nat.toDigits 16 l.id.address := by simp [digits, hl]
  have hdm : m.digits = Nat.toDigits 16 l.id.address := by simp [digits, hm, ha]
  rw [name_lt_name_iff, hdl, hdm, LabelId.Swapped]
  by_cases hs : ∃ s : SwitchKind, l.id.kind = s.caseLabel ∧ m.id.kind = s.tableLabel
  · rw [and_iff_right hs, not_not, String.lt_iff, Text.toList_hex]
    obtain ⟨s, hcase, htable⟩ := hs
    -- behind the common stem the digits stand against `data_` and the digits
    rw [hcase, htable, s.stem_tableLabel, List.append_assoc, Text.append_lt_append_iff]
    exact Text.lt_data_iff (fun c => Text.lt_t_of_mem_toDigits) _
  · refine iff_of_true (Text.append_lt_append (LabelKind.stem_lt hk) (fun hp => hs ?_) _ _)
      fun h => hs h.1
    exact LabelKind.exists_switch_of_prefix hp fun he => Nat.ne_of_lt hk (congrArg _ he)

end Label

/-! ### Sorted labels -/

/-- Of two elements of a list one stands before the other. -/
theorem sublist_or_sublist {α : Type} {xs : List α} {a b : α} (ha : a ∈ xs) (hb : b ∈ xs)
    (hne : a ≠ b) : [a, b].Sublist xs ∨ [b, a].Sublist xs := by
  obtain ⟨before, after, rfl⟩ := List.append_of_mem ha
  rcases List.mem_append.mp hb with hb | hb
  · exact .inr ((List.singleton_sublist.mpr hb).append (List.singleton_sublist.mpr (by simp)))
  · have hafter : b ∈ after := (List.mem_cons.mp hb).resolve_left hne.symm
    exact .inl (((List.singleton_sublist.mpr hafter).cons_cons a).trans
      (List.sublist_append_right _ _))

namespace LabelTable

/-- How the sorted labels of a table stand to their kinds and names. That `l` stands before `m` is
written `[l, m].Sublist t.sorted`. -/
structure NameOrder (t : LabelTable) : Prop where
  /-- Of two labels at one address, the one whose kind is listed first stands first. -/
  kinds : ∀ l ∈ t.labels, ∀ m ∈ t.labels, l.id.address = m.id.address →
    ([l, m].Sublist t.sorted ↔ l.id.kind.rank < m.id.kind.rank)
  /-- Of two labels at one address that have no numbers, the one that stands first has the name
  that comes first in alphabetical order, unless the two are swapped. -/
  names : ∀ l m, [l, m].Sublist t.sorted → l.id.address = m.id.address →
    l.sequence = none → m.sequence = none → (l.name < m.name ↔ ¬ l.id.Swapped m.id)

variable {t : LabelTable} {l m : Label}

theorem rank_lt_of_sublist (h : t.ids.Nodup) (hs : [l, m].Sublist t.sorted)
    (ha : l.id.address = m.id.address) : l.id.kind.rank < m.id.kind.rank := by
  have hlt := List.pairwise_iff_forall_sublist.mp (List.pairwise_map.mp (sortedIds_strict h)) hs
  omega

theorem nameOrder_of_nodup (h : t.ids.Nodup) : t.NameOrder where
  kinds := by
    intro l hl m hm ha
    refine ⟨fun hs => rank_lt_of_sublist h hs ha, fun hk => ?_⟩
    have hne : l ≠ m := fun he => Nat.ne_of_lt hk (he ▸ rfl)
    refine (sublist_or_sublist (t.sorted_perm.mem_iff.mpr hl) (t.sorted_perm.mem_iff.mpr hm)
      hne).resolve_right fun hs => ?_
    exact Nat.lt_asymm hk (rank_lt_of_sublist h hs ha.symm)
  names := fun _ _ hs ha hl hm =>
    Label.name_lt_name_iff_not_swapped hl hm ha (rank_lt_of_sublist h hs ha)

/-- The names of the labels of an address are in alphabetical order just if its digits come before
`db`, or no switch has both a case and its table there. -/
theorem NameOrder.pairwise_iff (h : t.NameOrder) (x : Nat)
    (hn : ∀ l ∈ t.labels, l.id.address = x → l.sequence = none) :
    ((t.sorted.filter (·.id.address = x)).map Label.name).Pairwise (· < ·) ↔
      Text.hex x < "db" ∨
        ∀ s : SwitchKind, ⟨s.caseLabel, x⟩ ∈ t.ids → ⟨s.tableLabel, x⟩ ∉ t.ids := by
  rw [List.pairwise_map, List.pairwise_filter, List.pairwise_iff_forall_sublist]
  simp only [decide_eq_true_eq]
  constructor
  · intro hlt
    refine or_iff_not_imp_left.mpr fun hx s hcase htable => ?_
    obtain ⟨⟨_, sl⟩, hl, rfl⟩ := List.mem_map.mp hcase
    obtain ⟨⟨_, sm⟩, hm, rfl⟩ := List.mem_map.mp htable
    have hs := (h.kinds _ hl _ hm rfl).mpr s.rank_caseLabel_lt
    exact (h.names _ _ hs rfl (hn _ hl rfl) (hn _ hm rfl)).mp (hlt hs rfl rfl) ⟨⟨s, rfl, rfl⟩, hx⟩
  · intro hx l m hs hla hma
    have hl : l ∈ t.labels := t.sorted_perm.mem_iff.mp (hs.mem (by simp))
    have hm : m ∈ t.labels := t.sorted_perm.mem_iff.mp (hs.mem (by simp))
    rw [h.names l m hs (hla.trans hma.symm) (hn l hl hla) (hn m hm hma)]
    rintro ⟨⟨s, hcase, htable⟩, hlate⟩
    rw [hla] at hlate
    refine hx.resolve_left hlate s (List.mem_map.mpr ⟨l, hl, ?_⟩) (List.mem_map.mpr ⟨m, hm, ?_⟩)
    · rw [← hcase, ← hla]
    · rw [← htable, ← hma]

end LabelTable

/-! ### Marks -/

/-- The texts of the marks at an address, in the order of the listing. -/
def Listing.marksAt (l : Listing) (s : Scope) (x : Nat) : List String :=
  (l.entries.filter fun e => e.band = .label ∧ e.address = x).filterMap (·.text? s)

namespace Body

variable {m : Method} {c : Code} {o : Options} {b : Body} {l : Listing}
variable {own catches es : List Entry}

/-- The marks at an address read as the names of its labels, in the order of the table. -/
theorem Listed.marksAt_eq (h : Listed b own catches es l) (x : Nat) :
    l.marksAt (b.scope l) x = (l.labels.sorted.filter (·.id.address = x)).map Label.name := by
  have hband : l.entries.filter (fun e => e.band = .label ∧ e.address = x)
      = (l.entries.filter (·.band = .label)).filter (·.address = x) := by
    rw [List.filter_filter]
    simp only [Bool.decide_and, Bool.and_comm]
  have htext : ∀ n ∈ l.labels.sorted, (Entry.ofLabel n.id).text? (b.scope l) = some n.name := by
    intro n hn
    have hlabel := LabelTable.label_eq_of_mem h.indexed (l.labels.sorted_perm.mem_iff.mp hn)
    exact congrArg (some ∘ Label.name) hlabel
  rw [Listing.marksAt, hband, h.labels_eq, LabelTable.sortedIds, List.map_map, List.filter_map,
    List.filterMap_map, ← List.filterMap_eq_map]
  exact List.filterMap_congr fun n hn => htext n (List.mem_filter.mp hn).1

theorem Built.plain_labels (hb : Built m c o b) (h : Listed b own catches es l)
    (ho : o.sequentialLabels = false) : l.labels.Plain := by
  rw [h.labels, labelsOf, finish, hb.options, ho]
  exact LabelTable.plain_ofIds _

/-- **Names follow the order of labels but for swapped ones**: in every table that was empty before
a run of requests, and for the marks of a listing whose labels are not numbered. -/
theorem names_ordered (rs : List LabelRequest) (x : Nat) :
    (LabelTable.empty.run rs).NameOrder ∧
      ∀ m c o b l, build m c o = .ok b → b.listing = .ok l → o.sequentialLabels = false →
        ((l.marksAt (b.scope l) x).Pairwise (· < ·) ↔
          Text.hex x < "db" ∨
            ∀ s : SwitchKind, ⟨s.caseLabel, x⟩ ∈ l.labels.ids →
              ⟨s.tableLabel, x⟩ ∉ l.labels.ids) := by
  refine ⟨LabelTable.nameOrder_of_nodup (LabelTable.indexed_run_empty rs).nodup, ?_⟩
  intro m c o b l hb hl ho
  have hbuilt := built_of_build hb
  obtain ⟨own, catches, es, h⟩ := hbuilt.exists_listed hl
  have hplain := hbuilt.plain_labels h ho
  rw [h.marksAt_eq]
  exact (LabelTable.nameOrder_of_nodup hplain.nodup).pairwise_iff x fun n hn _ =>
    hplain.unnumbered n hn

/-- Four labels mark the end of the loop, and at `0xda` a case still comes before its table. -/
theorem guardedLoop_names :
    (∃ b l, build .guardedLoop .guardedLoop {} = .ok b ∧ b.listing = .ok l ∧
      [⟨.typedHandler, 3⟩, ⟨.anyHandler, 3⟩, ⟨.cond, 3⟩, ⟨.tryEnd, 3⟩] ⊆ l.labels.ids ∧
      (l.marksAt (b.scope l) 3).Pairwise (· < ·)) ∧
    ∃ l m : Label, [l, m].Sublist
        (LabelTable.empty.run [.intern ⟨.packedTable, 0xda⟩, .intern ⟨.packedCase, 0xda⟩]).sorted ∧
      l.id = ⟨.packedCase, 0xda⟩ ∧ m.id = ⟨.packedTable, 0xda⟩ ∧ l.name < m.name := by
  constructor
  · obtain ⟨b, l, hb, hl, hids⟩ : ∃ b l, build .guardedLoop .guardedLoop {} = .ok b ∧
        b.listing = .ok l ∧
        [⟨.typedHandler, 3⟩, ⟨.anyHandler, 3⟩, ⟨.cond, 3⟩, ⟨.tryEnd, 3⟩] ⊆ l.labels.ids :=
      ⟨_, _, rfl, rfl, by decide⟩
    exact ⟨b, l, hb, hl, hids, ((names_ordered [] 3).2 _ _ _ b l hb hl rfl).mpr (.inl (by decide))⟩
  · have h := (names_ordered [.intern ⟨.packedTable, 0xda⟩, .intern ⟨.packedCase, 0xda⟩] 0xda).1
    have hs := (h.kinds ⟨⟨.packedCase, 0xda⟩, none⟩ (by decide) ⟨⟨.packedTable, 0xda⟩, none⟩
      (by decide) rfl).mpr (by decide)
    refine ⟨_, _, hs, rfl, rfl, (h.names _ _ hs rfl rfl rfl).mpr fun hswap => hswap.2 ?_⟩
    decide

end Body

/-- A switch one of whose cases leads to the table, which is at the address `0xe`. -/
def Code.tableAsCase : Code where
  registerCount := 1
  instructions :=
    { Instruction.ofOpcode .packedSwitch with registers := [0], codeOffset := some 14 }
      :: List.replicate 10 (Instruction.ofOpcode .nop)
      ++ [Instruction.ofOpcode .returnVoid, Instruction.ofPayload (.packedSwitch 0 [14])]
  tryBlocks := []
  debugRecords := []

namespace Body

/-- **Marks may stand against the alphabetical order**: a case is marked before its table at an
address where the name of the table comes first. -/
theorem tableAsCase_swapped :
    ∃ b l, build .guardedLoop .tableAsCase {} = .ok b ∧ b.listing = .ok l ∧
      l.labels.sorted = [⟨⟨.packedCase, 14⟩, none⟩, ⟨⟨.packedTable, 14⟩, none⟩] ∧
      l.marksAt (b.scope l) 14 = [":pswitch_e", ":pswitch_data_e"] ∧
      ":pswitch_data_e" < ":pswitch_e" := by
  obtain ⟨b, l, hb, hl, hlabels⟩ : ∃ b l, build .guardedLoop .tableAsCase {} = .ok b ∧
      b.listing = .ok l ∧
      l.labels.labels = [⟨⟨.packedTable, 14⟩, none⟩, ⟨⟨.packedCase, 14⟩, none⟩] :=
    ⟨_, _, rfl, rfl, by decide⟩
  obtain ⟨own, catches, es, h⟩ := (built_of_build hb).exists_listed hl
  have hsorted : l.labels.sorted = [⟨⟨.packedCase, 14⟩, none⟩, ⟨⟨.packedTable, 14⟩, none⟩] := by
    rw [LabelTable.sorted_eq, hlabels]
    simp [List.mergeSort, LabelId.placeLe, LabelKind.rank, LabelKind.ctorIdx]
  refine ⟨b, l, hb, hl, hsorted, ?_, by decide⟩
  rw [h.marksAt_eq, hsorted]
  decide

end Body

end Dalvik
