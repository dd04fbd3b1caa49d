import Dalvik.Body
import Dalvik.Proofs.Arrangement
import Dalvik.Proofs.Interning

/-!
# Draft — listings made with handles

A body is listed with handles: the table of labels is passed from one entry to the next, and an
entry takes the positions that the table answers. `Issues` says what a stage of this asks for, and
what its result stands for in every later table: a table only grows at its end, so a handle keeps
its label (`issues_issue`) and is written as the identity is (`Indexed.name_of_id?`). Stages are put
together by `Issues.bind`, and what they collect by `Drafts.append`.

`Body.collect` is the same work with identities and without a table; the table is then that of the
labels of what was collected, `Body.labelsOf`. The draft of a body, with identities put back in the
place of its handles, is the listing that these two lead to (`draft_resolves`, `gather_eq`).
-/

namespace Dalvik

namespace LabelTable

variable {t u : LabelTable} {id : LabelId} {n : Nat}

theorem internAll_eq_run (t : LabelTable) (ids : List LabelId) :
    t.internAll ids = t.run (ids.map .intern) := by
  rw [run, List.foldl_map]
  rfl

theorem internAll_append (t : LabelTable) (ids ids' : List LabelId) :
    t.internAll (ids ++ ids') = (t.internAll ids).internAll ids' := List.foldl_append

theorem Indexed.internAll (h : t.Indexed) (ids : List LabelId) : (t.internAll ids).Indexed := by
  rw [internAll_eq_run]
  exact h.run _

theorem Indexed.ids_prefix_internAll (h : t.Indexed) (ids : List LabelId) :
    t.ids <+: (t.internAll ids).ids := by
  rw [internAll_eq_run]
  exact h.ids_prefix_run _

theorem id?_eq_getElem? (t : LabelTable) (n : Nat) : t.id? n = t.ids[n]? := List.getElem?_map.symm

/-- **A handle is written as its identity is.** -/
theorem Indexed.name_of_id? (h : t.Indexed) (hn : t.id? n = some id) :
    (t.get? n).map Label.name = some (t.name id) := by
  obtain ⟨l, hl, -⟩ := Option.map_eq_some_iff.mp hn
  have hposition : t.position? id = some n := (h id n).mpr (t.id?_eq_getElem? n ▸ hn)
  rw [hl, Option.map_some, name, label, hposition, Option.bind_some, hl, Option.getD_some]

end LabelTable

/-! ### Stages -/

/-- The stage `x` asks for the labels `asked`. What it returns has the relation `R` to the table
that it leaves, and to every table that begins with the same labels. -/
def Issues {α : Type} (x : Drafting α) (asked : List LabelId) (R : LabelTable → α → Prop) : Prop :=
  ∀ t, t.Indexed → ∃ a, x t = .ok (a, t.internAll asked) ∧
    ∀ u : LabelTable, (t.internAll asked).ids <+: u.ids → R u a

section Stages

variable {α β : Type} {asked asked' : List LabelId}
variable {R : LabelTable → α → Prop} {S : LabelTable → β → Prop}

theorem Issues.pure {a : α} (h : ∀ u, R u a) : Issues (Pure.pure a) [] R :=
  fun _ _ => ⟨a, rfl, fun u _ => h u⟩

/-- One stage after another: what the first returned still stands for what it did. -/
theorem Issues.bind {x : Drafting α} {f : α → Drafting β} (hx : Issues x asked R)
    (hf : ∀ a, Issues (f a) asked' fun u b => R u a → S u b) :
    Issues (x >>= f) (asked ++ asked') S := by
  intro t ht
  have hmiddle := ht.internAll asked
  obtain ⟨a, ha, hR⟩ := hx t ht
  obtain ⟨b, hb, hS⟩ := hf a _ hmiddle
  rw [LabelTable.internAll_append]
  refine ⟨b, ?_, fun u hu => hS u hu (hR u ((hmiddle.ids_prefix_internAll asked').trans hu))⟩
  show Except.bind (x t) _ = _
  rw [ha]
  exact hb

theorem Issues.bind_pure {x : Drafting α} {g : α → β} (hx : Issues x asked R)
    (h : ∀ u a, R u a → S u (g a)) : Issues (x >>= fun a => Pure.pure (g a)) asked S := by
  have hbind := hx.bind (S := S) fun a => .pure (h · a)
  rwa [List.append_nil] at hbind

/-- **A handle keeps its label** in every later table. -/
theorem issues_issue (id : LabelId) :
    Issues (LabelTable.issue id) [id] fun u n => u.id? n = some id := by
  refine fun t ht => ⟨(t.intern id).1, rfl, fun u hu => ?_⟩
  exact (u.id?_eq_getElem? _).trans
    (LabelTable.getElem?_ids_of_prefix hu (ht.getElem?_ids_intern id))

theorem Issues.mapM {f : α → Drafting β} {back : LabelTable → β → Option α}
    {asks : α → List LabelId} (h : ∀ a, Issues (f a) (asks a) fun u b => back u b = some a)
    (as : List α) :
    Issues (as.mapM f) (as.flatMap asks) fun u bs => bs.mapM (back u) = some as := by
  induction as with
  | nil => exact .pure fun _ => rfl
  | cons a as ih =>
      rw [List.mapM_cons, List.flatMap_cons]
      refine (h a).bind fun b => ih.bind_pure fun u bs hbs hb => ?_
      rw [List.mapM_cons, hb, hbs]
      rfl

theorem Issues.mapM_option {f : α → Drafting β} {back : LabelTable → β → Option α}
    {asks : α → List LabelId} (h : ∀ a, Issues (f a) (asks a) fun u b => back u b = some a)
    (o : Option α) :
    Issues (o.mapM f) (o.toList.flatMap asks) fun u b => b.mapM (back u) = some o := by
  cases o with
  | none => exact .pure fun _ => rfl
  | some a =>
      rw [Option.toList_some, List.flatMap_singleton]
      refine (h a).bind_pure (g := some) fun u b hb => ?_
      simp [hb]

end Stages

/-! ### Entries -/

/-- The labels of a content are issued in their order. -/
theorem Content.issues (c : Content) :
    Issues (c.mapM LabelTable.issue) c.labels fun u d => d.mapM u.id? = some c := by
  cases c with
  | offsetComment => exact .pure fun _ => rfl
  | label id =>
      refine (issues_issue id).bind_pure fun u n hn => ?_
      simp [mapM, hn]
  | exception e =>
      refine (issues_issue e.tryStart).bind fun n => (issues_issue e.tryEnd).bind fun m =>
        (issues_issue e.handler).bind_pure fun u k hk hm hn => ?_
      simp [mapM, hn, hm, hk]
  | instruction e =>
      have htarget := Issues.mapM_option issues_issue e.target
      have hcases := Issues.mapM_option (Issues.mapM issues_issue) e.cases
      have hlabels : (Content.instruction e).labels = e.target.toList.flatMap (fun id => [id])
          ++ e.cases.toList.flatMap (List.flatMap fun id => [id]) := by
        cases hc : e.cases <;> simp [labels, hc]
      rw [hlabels]
      refine htarget.bind fun target => hcases.bind_pure fun u cases hcases htarget => ?_
      simp [mapM, htarget, hcases]
  | blank => exact .pure fun _ => rfl
  | debug event => exact .pure fun _ => rfl

theorem Entry.issues (e : Entry) :
    Issues e.issue e.labels fun u h => h.resolve? u = some e := by
  refine e.content.issues.bind_pure fun u c hc => ?_
  rw [resolve?, mapM, hc]
  rfl

/-- The stage `x` collects with handles what is given with identities: the labels that it asks for
are those of the entries, or it fails alike. -/
def Drafts (x : Drafting (List (Entry Nat))) : Except Fault (List Entry) → Prop
  | .ok es => Issues x (es.flatMap Entry.labels) fun u hs => hs.mapM (Entry.resolve? u) = some es
  | .error f => ∀ t : LabelTable, t.Indexed → x t = .error f

section Drafts

variable {x y : Drafting (List (Entry Nat))} {s s' : Except Fault (List Entry)}

theorem drafts_issue (es : List Entry) : Drafts (es.mapM Entry.issue) (.ok es) :=
  .mapM Entry.issues es

/-- What is collected after a stage that fails is not reached. -/
theorem Drafts.append (hx : Drafts x s) (hy : Drafts y s') :
    Drafts (do let p ← x; let q ← y; return p ++ q)
      (do let es ← s; let es' ← s'; return es ++ es') := by
  cases s with
  | error f =>
      intro t ht
      show Except.bind (x t) _ = _
      rw [hx t ht]
      rfl
  | ok es =>
      cases s' with
      | error f =>
          intro t ht
          obtain ⟨p, hp, -⟩ := hx t ht
          show Except.bind (x t) _ = _
          rw [hp]
          show Except.bind (y _) _ = _
          rw [hy _ (ht.internAll _)]
          rfl
      | ok es' =>
          show Issues _ ((es ++ es').flatMap Entry.labels) _
          rw [List.flatMap_append]
          refine Issues.bind hx fun p => Issues.bind_pure hy fun u q hq hp => ?_
          rw [List.mapM_append, hp, hq]
          rfl

theorem drafts_issueEach {α : Type} (collect : α → Except Fault (List Entry)) (xs : List α) :
    Drafts (Entry.issueEach collect xs) ((xs.mapM collect).map List.flatten) := by
  induction xs with
  | nil => exact .pure fun _ => rfl
  | cons a xs ih =>
      have hfirst : Drafts (do let es ← collect a; es.mapM Entry.issue) (collect a) := by
        cases collect a with
        | error f => exact fun _ _ => rfl
        | ok es => exact drafts_issue es
      have hspec : ((a :: xs).mapM collect).map List.flatten
          = (do let es ← collect a; let es' ← (xs.mapM collect).map List.flatten
                return es ++ es') := by
        rw [List.mapM_cons]
        cases collect a with
        | error f => rfl
        | ok es => cases xs.mapM collect <;> rfl
      have hdraft := hfirst.append ih
      rw [bind_assoc] at hdraft
      rw [hspec]
      exact hdraft

end Drafts

/-! ### Back to identities -/

section Maps

variable {α β : Type} {g : α → Option β} {as : List α} {bs : List β}

theorem map_eq_of_mapM (h : as.mapM g = some bs) : as.map g = bs.map some := by
  induction as generalizing bs with
  | nil =>
      cases h
      rfl
  | cons a as ih =>
      rw [List.mapM_cons] at h
      obtain ⟨b, hb, h⟩ := Option.bind_eq_some_iff.mp h
      obtain ⟨cs, hcs, h⟩ := Option.bind_eq_some_iff.mp h
      cases h
      rw [List.map_cons, List.map_cons, hb, ih hcs]

/-- What yields something for every member of a list is a function there. -/
theorem exists_map_eq [Nonempty β] (h : as.map g = bs.map some) :
    ∃ r : α → β, bs = as.map r ∧ ∀ a ∈ as, g a = some (r a) := by
  let r : α → β := fun a => (g a).getD (Classical.arbitrary β)
  have hsome : ∀ a ∈ as, g a = some (r a) := by
    intro a ha
    have hmem : g a ∈ bs.map some := h ▸ List.mem_map_of_mem ha
    obtain ⟨b, -, hb⟩ := List.mem_map.mp hmem
    simp only [r, ← hb, Option.getD_some]
  refine ⟨r, ?_, hsome⟩
  have hmap : (as.map r).map some = bs.map some := by
    rw [← h, List.map_map]
    exact (List.map_congr_left hsome).symm
  exact (List.map_injective_iff.mpr (Option.some_injective β) hmap).symm

end Maps

theorem Content.band_of_mapM {L M : Type} {f : L → Option M} {c : Content L} {d : Content M}
    (h : c.mapM f = some d) : d.band = c.band := by
  cases c with
  | label id =>
      obtain ⟨_, -, h⟩ := Option.bind_eq_some_iff.mp h
      cases h
      rfl
  | exception e =>
      obtain ⟨_, -, h⟩ := Option.bind_eq_some_iff.mp h
      obtain ⟨_, -, h⟩ := Option.bind_eq_some_iff.mp h
      obtain ⟨_, -, h⟩ := Option.bind_eq_some_iff.mp h
      cases h
      rfl
  | instruction e =>
      obtain ⟨_, -, h⟩ := Option.bind_eq_some_iff.mp h
      obtain ⟨_, -, h⟩ := Option.bind_eq_some_iff.mp h
      cases h
      rfl
  | _ =>
      cases h
      rfl

namespace Entry

variable {t : LabelTable}

/-- An entry stands at the same place with handles and with identities. -/
theorem le_of_resolve? {a b : Entry Nat} {c d : Entry} (hc : a.resolve? t = some c)
    (hd : b.resolve? t = some d) : le a b = le c d := by
  obtain ⟨content, hcontent, hc⟩ := Option.bind_eq_some_iff.mp hc
  obtain ⟨content', hcontent', hd⟩ := Option.bind_eq_some_iff.mp hd
  cases hc
  cases hd
  rw [le, le, band, band, band, band, Content.band_of_mapM hcontent,
    Content.band_of_mapM hcontent']

/-- Handles are arranged as what they stand for. -/
theorem map_resolve?_arrange {hs : List (Entry Nat)} {es : List Entry}
    (h : hs.map (resolve? t) = es.map some) :
    (arrange hs).map (resolve? t) = (arrange es).map some := by
  have : Nonempty Entry := ⟨⟨0, .blank⟩⟩
  obtain ⟨r, rfl, hr⟩ := exists_map_eq h
  have hsorted : (arrange hs).map r = arrange (hs.map r) :=
    List.map_mergeSort fun a ha b hb => le_of_resolve? (hr a ha) (hr b hb)
  rw [← hsorted, List.map_map]
  exact List.map_congr_left fun d hd => hr d ((arrange_perm hs).mem_iff.mp hd)

/-- The entries of the handles of all labels stand for those of their identities. -/
theorem map_resolve?_ofHandle? (t : LabelTable) :
    (t.sortedPositions.filterMap (ofHandle? t)).map (resolve? t)
      = (t.sortedIds.map ofLabel).map some := by
  rw [← LabelTable.idsAt_sortedPositions, LabelTable.idsAt, List.map_filterMap, List.map_map,
    List.map_filterMap]
  refine List.filterMap_congr fun n _ => ?_
  have hid : (t.labels.map (·.id))[n]? = t.id? n := (t.id?_eq_getElem? n).symm
  rw [hid, ofHandle?]
  cases hn : t.id? n with
  | none => rfl
  | some id => simp [resolve?, mapM, Content.mapM, hn, ofLabel]

end Entry

/-! ### The listing of a body -/

namespace Body

/-- The entries of a body without its labels: instructions, exception regions, debug records. -/
def collect (b : Body) : Except Fault (List Entry) := do
  let instructions ← b.layout.placed.mapM b.instructionEntries
  let regions ← b.code.tryBlocks.mapM (tryEntries b.layout)
  return instructions.flatten ++ regions.flatten ++ b.debugEntries

/-- The labels of entries, numbered if that is wanted. -/
def labelsOf (b : Body) (es : List Entry) : LabelTable :=
  b.finish (LabelTable.ofIds (es.flatMap Entry.labels))

theorem drafts_issueEntries (b : Body) : Drafts b.issueEntries b.collect := by
  have hstages := ((drafts_issueEach b.instructionEntries b.layout.placed).append
    (drafts_issueEach (tryEntries b.layout) b.code.tryBlocks)).append (drafts_issue b.debugEntries)
  have hspec : b.collect = (do
      let es ← (do
        let own ← (b.layout.placed.mapM b.instructionEntries).map List.flatten
        let catches ← (b.code.tryBlocks.mapM (tryEntries b.layout)).map List.flatten
        return own ++ catches)
      let debug ← Except.ok b.debugEntries
      return es ++ debug) := by
    rw [collect]
    cases b.layout.placed.mapM b.instructionEntries with
    | error f => rfl
    | ok own => cases b.code.tryBlocks.mapM (tryEntries b.layout) <;> rfl
  rw [hspec]
  simpa only [issueEntries, bind_assoc, pure_bind] using hstages

theorem ids_finish (b : Body) (t : LabelTable) : (b.finish t).ids = t.ids := by
  rw [finish]
  split
  · exact LabelTable.ids_number t
  · rfl

theorem indexed_labelsOf (b : Body) (es : List Entry) : (b.labelsOf es).Indexed := by
  rw [labelsOf, finish]
  split
  · exact (LabelTable.plain_ofIds _).indexed.number
  · exact (LabelTable.plain_ofIds _).indexed

/-- **The draft of a body stands for its listing**: it fails where collecting the entries fails, and
else its handles are those of the labels of what was collected, and are written as these. -/
theorem draft_resolves (b : Body) :
    (∀ f, b.collect = .error f → b.draft = .error f) ∧
      ∀ es, b.collect = .ok es → ∃ hs, b.draft = .ok (hs, b.labelsOf es) ∧
        hs.map (Entry.resolve? (b.labelsOf es))
          = (Entry.arrange (es ++ (b.labelsOf es).sortedIds.map Entry.ofLabel)).map some ∧
        ∀ n id, (b.labelsOf es).id? n = some id →
          ((b.labelsOf es).get? n).map Label.name = some ((b.labelsOf es).name id) := by
  have hdraft := b.drafts_issueEntries
  constructor
  · intro f hf
    rw [hf] at hdraft
    show Except.bind (b.issueEntries _) _ = _
    rw [hdraft _ LabelTable.indexed_empty]
    rfl
  · intro es hes
    rw [hes] at hdraft
    obtain ⟨hs, hrun, hresolve⟩ := hdraft _ LabelTable.indexed_empty
    refine ⟨Entry.arrange (hs ++ (b.labelsOf es).sortedPositions.filterMap
      (Entry.ofHandle? (b.labelsOf es))), ?_, Entry.map_resolve?_arrange ?_,
      fun n id => (b.indexed_labelsOf es).name_of_id?⟩
    · show Except.bind (b.issueEntries _) _ = _
      rw [hrun]
      rfl
    · have hown := map_eq_of_mapM (hresolve (b.labelsOf es) (by rw [labelsOf, ids_finish]; rfl))
      rw [List.map_append, hown, Entry.map_resolve?_ofHandle?, List.map_append]

/-- The listing of a body is that of its entries with their labels. -/
theorem gather_eq (b : Body) : b.gather = (do
    let es ← b.collect
    return ⟨Entry.arrange (es ++ (b.labelsOf es).sortedIds.map Entry.ofLabel), b.labelsOf es⟩) := by
  obtain ⟨herror, hok⟩ := b.draft_resolves
  rw [gather]
  cases hc : b.collect with
  | error f =>
      rw [herror f hc]
      rfl
  | ok es =>
      obtain ⟨hs, hdraft, hresolve, -⟩ := hok es hc
      have hentries : hs.filterMap (Entry.resolve? (b.labelsOf es))
          = Entry.arrange (es ++ (b.labelsOf es).sortedIds.map Entry.ofLabel) := by
        have hfilter := congrArg (List.filterMap id) hresolve
        simpa [List.filterMap_map, Function.comp_def] using hfilter
      rw [hdraft]
      exact congrArg (fun entries => Except.ok (Listing.mk entries (b.labelsOf es))) hentries

end Body

end Dalvik
