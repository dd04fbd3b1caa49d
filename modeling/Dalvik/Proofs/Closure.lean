import Dalvik.Disassembly
import Dalvik.Proofs.Listing
import Dalvik.Proofs.Reference

/-!
# Closure — the labels of a listing

An entry refers to labels: an instruction to its target and its cases, an exception directive to
the bounds of its region and to its handler (`Content.RefersTo`). Every label that is referred to
is marked once, at its own address; every label that is marked is referred to; and no two marks
read alike, whether the labels are numbered or not. An entry has in its text the names of what it
refers to, so each name in the text of an entry is what one mark reads. `Listing.Closed` states this
of a listing and `closed_of_listing` proves it of all.
-/

namespace Dalvik

/-- The content of an entry refers to a label. -/
inductive Content.RefersTo : Content → LabelId → Prop
  | target {e : InstructionEntry} {id : LabelId} : e.target = some id → RefersTo (.instruction e) id
  | case {e : InstructionEntry} {ids : List LabelId} {id : LabelId} :
      e.cases = some ids → id ∈ ids → RefersTo (.instruction e) id
  | tryStart (e : ExceptionEntry) : RefersTo (.exception e) e.tryStart
  | tryEnd (e : ExceptionEntry) : RefersTo (.exception e) e.tryEnd
  | handler (e : ExceptionEntry) : RefersTo (.exception e) e.handler

theorem Content.refersTo_iff {x : Content} {id : LabelId} :
    x.RefersTo id ↔ id ∈ x.labels ∧ x.band ≠ .label := by
  constructor
  · rintro (h | ⟨h, hm⟩ | _ | _ | _) <;> simp_all [labels, band]
  · rintro ⟨hm, hk⟩
    cases x with
    | offsetComment => cases hm
    | label i => exact absurd rfl hk
    | exception e =>
        simp only [labels, List.mem_cons, List.not_mem_nil, or_false] at hm
        rcases hm with rfl | rfl | rfl
        · exact .tryStart e
        · exact .tryEnd e
        · exact .handler e
    | instruction e =>
        rcases List.mem_append.mp hm with hm | hm
        · exact .target (Option.mem_toList.mp hm)
        · cases hc : e.cases with
          | none => rw [hc] at hm; cases hm
          | some ids => rw [hc] at hm; exact .case hc hm
    | blank => cases hm
    | debug event => cases hm

/-- The labels of a listing, whose entries have their texts in `s`, are closed. -/
structure Listing.Closed (l : Listing) (s : Scope) : Prop where
  /-- A label that an entry refers to is found in the table. -/
  resolved : ∀ e ∈ l.entries, ∀ id, e.content.RefersTo id →
    ∃ n label, l.labels.position? id = some n ∧ l.labels.get? n = some label ∧ label.id = id
  /-- A label that an entry refers to is marked once, at its own address. -/
  marked : ∀ e ∈ l.entries, ∀ id, e.content.RefersTo id →
    l.entries.filter (·.content = .label id) = [⟨id.address, .label id⟩]
  /-- A label that is marked is one that an entry refers to. -/
  used : ∀ d ∈ l.entries, ∀ id, d.content = .label id → ∃ e ∈ l.entries, e.content.RefersTo id
  /-- No two marks read alike. -/
  distinct : ((l.entries.filter (·.band = .label)).map (·.text? s)).Nodup
  /-- The name of a label that an entry refers to is what one mark reads, the mark of the label. -/
  named : ∀ e ∈ l.entries, ∀ id, e.content.RefersTo id →
    l.entries.filter (fun d => d.band = .label ∧ d.text? s = some (l.labels.name id))
      = [⟨id.address, .label id⟩]
  /-- The text of an entry has the names of the labels that it names among its words, in their
  order, and each of these names is what one mark reads, the mark of the label. -/
  written : ∀ e ∈ l.entries,
    ((e.shown s).map l.labels.name).Sublist (Text.words ((e.text? s).getD "").toList) ∧
      ∀ id ∈ e.shown s,
        l.entries.filter (fun d => d.band = .label ∧ d.text? s = some (l.labels.name id))
          = [⟨id.address, .label id⟩]
  /-- The text of an entry names the labels that the entry refers to, but for the target of an
  instruction that carries a table. -/
  shown : ∀ e ∈ l.entries, ∀ id, e.content.RefersTo id → id ∈ e.shown s ∨
    ∃ x i, e.content = .instruction x ∧ s.instructions[x.index]? = some i ∧ i.payload.isSome ∧
      x.target = some id
  /-- An exception directive is told by its text. -/
  told : ∀ d ∈ l.entries, ∀ e ∈ l.entries, ∀ x y, d.content = .exception x →
    e.content = .exception y → d.text? s = e.text? s → x = y

/-- The one element of a list without repetitions that passes. -/
theorem filter_eq_singleton {α : Type} {xs : List α} {q : α → Bool} {a : α} (hn : xs.Nodup)
    (ha : a ∈ xs) (hq : ∀ x ∈ xs, q x ↔ x = a) : xs.filter q = [a] := by
  refine (List.perm_singleton).mp ((List.perm_ext_iff_of_nodup (hn.filter q) (by simp)).mpr ?_)
  intro x
  rw [List.mem_filter, List.mem_singleton]
  exact ⟨fun h => (hq x h.1).mp h.2, fun h => h ▸ ⟨ha, (hq a ha).mpr rfl⟩⟩

namespace Body

variable {m : Method} {c : Code} {o : Options} {b : Body} {l : Listing}
variable {own catches es : List Entry} {id : LabelId}

namespace Listed

variable (h : Listed b own catches es l)
include h

theorem nodup_sortedIds : l.labels.sortedIds.Nodup :=
  (LabelTable.sortedIds_perm l.labels).nodup_iff.mpr h.indexed.nodup

/-- A label is in the table just if an entry of the listing refers to it. -/
theorem mem_ids_iff_refersTo :
    id ∈ l.labels.ids ↔ ∃ e ∈ l.entries, e.content.RefersTo id := by
  simp only [h.mem_ids, Content.refersTo_iff]
  constructor
  · rintro ⟨e, he, hid⟩
    exact ⟨e, h.mem_entries.mpr (.inl he), hid, h.band_ne_label e he⟩
  · rintro ⟨e, he, hid, hk⟩
    exact ⟨e, h.mem_collected he hk, hid⟩

theorem name_injOn {x y : LabelId} (hx : x ∈ l.labels.ids) (hy : y ∈ l.labels.ids)
    (he : l.labels.name x = l.labels.name y) : x = y := by
  rw [h.labels] at hx hy he
  exact name_labelsOf_injOn hx hy he

/-- The marks that pass are those of one label, if that is the one whose mark passes. -/
theorem filter_marks {q : Entry → Bool} (hid : id ∈ l.labels.ids)
    (hk : ∀ e, q e → e.band = .label)
    (hq : ∀ x ∈ l.labels.ids, q (Entry.ofLabel x) ↔ x = id) :
    l.entries.filter q = [Entry.ofLabel id] := by
  have hband : l.entries.filter q = (l.entries.filter (·.band = .label)).filter q := by
    rw [List.filter_filter]
    refine List.filter_congr fun e _ => ?_
    cases hqe : q e with
    | false => rfl
    | true => simp [hk e hqe]
  have hids := filter_eq_singleton h.nodup_sortedIds (q := q ∘ Entry.ofLabel)
    ((LabelTable.sortedIds_perm l.labels).mem_iff.mpr hid)
    fun x hx => hq x ((LabelTable.sortedIds_perm l.labels).mem_iff.mp hx)
  rw [hband, h.labels_eq, List.filter_map, hids, List.map_singleton]

/-- A label of the table is marked once. -/
theorem filter_content (hid : id ∈ l.labels.ids) :
    l.entries.filter (·.content = .label id) = [⟨id.address, .label id⟩] := by
  refine h.filter_marks hid ?_ ?_
  · intro d hd
    rw [Entry.band, of_decide_eq_true hd, Content.band]
  · intro x _
    simp [Entry.ofLabel]

/-- A mark is that of a label which an entry refers to. -/
theorem exists_refersTo {d : Entry} (hd : d ∈ l.entries) (hc : d.content = .label id) :
    ∃ e ∈ l.entries, e.content.RefersTo id := by
  rcases h.mem_entries.mp hd with hd | ⟨x, hx, rfl⟩
  · exact absurd (by rw [Entry.band, hc, Content.band]) (h.band_ne_label d hd)
  · cases hc
    exact h.mem_ids_iff_refersTo.mp hx

/-- What the marks read differs: they are the identities of the table, each once, and read as their
names. -/
theorem nodup_texts : ((l.entries.filter (·.band = .label)).map (·.text? (b.scope l))).Nodup := by
  rw [h.labels_eq, List.map_map]
  refine List.Nodup.map_on ?_ h.nodup_sortedIds
  intro x hx y hy he
  rw [(LabelTable.sortedIds_perm l.labels).mem_iff] at hx hy
  exact h.name_injOn hx hy (Option.some.inj he)

/-- The name of a label of the table is what its mark reads, and no other. -/
theorem filter_text (hid : id ∈ l.labels.ids) :
    l.entries.filter (fun d => d.band = .label ∧ d.text? (b.scope l) = some (l.labels.name id))
      = [⟨id.address, .label id⟩] := by
  refine h.filter_marks hid ?_ ?_
  · intro d hd
    exact (of_decide_eq_true hd).1
  · intro x hx
    rw [decide_eq_true_iff]
    refine ⟨fun hd => h.name_injOn hx hid (Option.some.inj hd.2), ?_⟩
    rintro rfl
    exact ⟨rfl, rfl⟩

/-! ### Texts -/

theorem mem_ids_of_mem_labels {e : Entry} (he : e ∈ l.entries) (hid : id ∈ e.labels) :
    id ∈ l.labels.ids := by
  rcases h.mem_entries.mp he with he | ⟨x, hx, rfl⟩
  · exact h.mem_ids.mpr ⟨e, he, hid⟩
  · rwa [List.mem_singleton.mp hid]

/-- The cases of a table have a label each, or none has one. -/
theorem fits {e : Entry} (he : e ∈ l.entries) : e.Fits (b.scope l) := by
  intro x i table hx hi hpayload
  obtain ⟨p, hp, target, cases, rfl, -, hcases⟩ :=
    h.exists_placed he (by rw [Entry.band, hx, Content.band])
  cases hx
  obtain rfl : p.instruction = i := Option.some.inj ((Code.mem_placed.mp hp).1.symm.trans hi)
  rw [Code.HasCases, hpayload, Option.bind_some] at hcases
  cases table with
  | arrayData width elements => trivial
  | packedSwitch firstKey targets =>
      rcases hcases with ⟨base, ids, -, rfl, hids⟩ | ⟨-, rfl⟩
      · rintro _ ⟨⟩
        exact hids.length_eq.symm
      · rintro _ ⟨⟩
  | sparseSwitch entries =>
      rcases hcases with ⟨base, ids, -, rfl, hids⟩ | ⟨-, rfl⟩
      · rintro _ ⟨⟩
        rw [← hids.length_eq, List.length_map]
      · rintro _ ⟨⟩

theorem shown_sublist_words {e : Entry} (he : e ∈ l.entries) :
    ((e.shown (b.scope l)).map l.labels.name).Sublist
      (Text.words ((e.text? (b.scope l)).getD "").toList) :=
  Entry.shown_sublist_words (s := b.scope l) (h.fits he)

theorem filter_text_of_shown {e : Entry} (he : e ∈ l.entries) (hid : id ∈ e.shown (b.scope l)) :
    l.entries.filter (fun d => d.band = .label ∧ d.text? (b.scope l) = some (l.labels.name id))
      = [⟨id.address, .label id⟩] :=
  h.filter_text (h.mem_ids_of_mem_labels he (Entry.mem_labels_of_mem_shown hid))

/-- The text of an entry names what the entry refers to. -/
theorem shown_of_refersTo {e : Entry} (he : e ∈ l.entries) (hr : e.content.RefersTo id) :
    id ∈ e.shown (b.scope l) ∨ ∃ x i, e.content = .instruction x ∧
      (b.scope l).instructions[x.index]? = some i ∧ i.payload.isSome ∧ x.target = some id := by
  obtain ⟨address, content⟩ := e
  cases content with
  | instruction x =>
      obtain ⟨p, hp, target, cases, ⟨⟩, -, hcases⟩ := h.exists_placed he rfl
      have hi : (b.scope l).instructions[p.index]? = some p.instruction := (Code.mem_placed.mp hp).1
      simp only [Entry.shown, InstructionEntry.shown, hi]
      cases hr with
      | target ht =>
          cases hpayload : p.instruction.payload with
          | none => exact .inl (Option.mem_toList.mpr ht)
          | some table => exact .inr ⟨_, _, rfl, hi, by rw [hpayload]; rfl, ht⟩
      | case hc hid =>
          -- what has cases carries the table of a switch
          obtain rfl : cases = _ := hc
          refine .inl ?_
          cases hpayload : p.instruction.payload with
          | none =>
              rw [Code.HasCases, hpayload] at hcases
              cases hcases
          | some table =>
              rw [Code.HasCases, hpayload, Option.bind_some] at hcases
              cases table with
              | arrayData width elements => cases hcases
              | packedSwitch firstKey targets => exact hid
              | sparseSwitch entries => exact hid
  | exception x =>
      left
      cases hr <;> simp [Entry.shown]
  | _ => cases hr

/-- Exception directives that read alike are the same. -/
theorem exception_eq {d e : Entry} {x y : ExceptionEntry} (hd : d ∈ l.entries)
    (he : e ∈ l.entries) (hx : d.content = .exception x) (hy : e.content = .exception y)
    (htext : d.text? (b.scope l) = e.text? (b.scope l)) : x = y := by
  have hxl : ∀ id ∈ (Content.exception x).labels, id ∈ l.labels.ids :=
    fun id hid => h.mem_ids_of_mem_labels hd (by rwa [Entry.labels, hx])
  have hyl : ∀ id ∈ (Content.exception y).labels, id ∈ l.labels.ids :=
    fun id hid => h.mem_ids_of_mem_labels he (by rwa [Entry.labels, hy])
  simp only [Entry.text?, hx, hy, Option.some.injEq] at htext
  exact ExceptionEntry.eq_of_text_eq (fun _ ha _ hb => h.name_injOn ha hb) hxl hyl htext

end Listed

/-- **The labels of every listing are closed**: what is referred to is marked once and at its
address, what is marked is referred to, marks differ in what they read, and the names in the texts
are those of marks. -/
theorem closed_of_listing (hb : build m c o = .ok b) (hl : b.listing = .ok l) :
    l.Closed (b.scope l) := by
  obtain ⟨own, catches, es, h⟩ := (built_of_build hb).exists_listed hl
  have hmem {e : Entry} {id : LabelId} (he : e ∈ l.entries) (hr : e.content.RefersTo id) :
      id ∈ l.labels.ids := h.mem_ids_iff_refersTo.mpr ⟨e, he, hr⟩
  exact {
    resolved := fun e he id hr => h.indexed.exists_position (hmem he hr)
    marked := fun e he id hr => h.filter_content (hmem he hr)
    used := fun d hd id hc => h.exists_refersTo hd hc
    distinct := h.nodup_texts
    named := fun e he id hr => h.filter_text (hmem he hr)
    written := fun e he => ⟨h.shown_sublist_words he, fun id hid => h.filter_text_of_shown he hid⟩
    shown := fun e he id hr => h.shown_of_refersTo he hr
    told := fun d hd e he x y hx hy htext => h.exception_eq hd he hx hy htext }

theorem guardedLoop_closed : ∃ b l,
    build .guardedLoop .guardedLoop { sequentialLabels := true } = .ok b ∧ b.listing = .ok l ∧
      l.Closed (b.scope l) ∧
      l.entries.filter (·.content = .label ⟨.goto, 0⟩) = [⟨0, .label ⟨.goto, 0⟩⟩] := by
  obtain ⟨b, l, hb, hl, hgoto⟩ := guardedLoop_listed
  exact ⟨b, l, hb, hl, closed_of_listing hb hl,
    (closed_of_listing hb hl).marked _ hgoto _ (.target rfl)⟩

end Body

end Dalvik
