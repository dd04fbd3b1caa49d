import Dalvik.Proofs.Listing

/-!
# Skeleton — what a listing consists of

Every listing of a code has the same skeleton (`Code.Skeleton`): the instructions in their order,
each at its address and, but for the last, with a blank line directly after it; if wanted, a comment
before all else at the address of each instruction; if wanted, the debug records, those of one
address as they are recorded; and the labels of the table, each once. Nothing is lost and nothing is
listed twice, whatever addresses labels and records have. `skeleton_of_listing` proves it of all.
-/

namespace Dalvik

/-- The parts of a listing of the code with the choices `o`. -/
structure Code.Skeleton (c : Code) (o : Options) (l : Listing) : Prop where
  /-- The entries are ordered by address, then by band. -/
  ordered : l.entries.Pairwise fun d e =>
    d.address < e.address ∨ d.address = e.address ∧ d.band.rank ≤ e.band.rank
  /-- The instructions stand in their order, each at the sum of the code units before it. -/
  instructions :
    (l.entries.filter (·.band = .instruction)).map (fun e => (e.content.index?, e.address))
      = (List.range c.instructions.length).map fun k =>
        (some k, ((c.instructions.take k).map (·.codeUnits.toNat)).sum)
  /-- The blank lines are those of the instructions but the last. -/
  blanks : l.entries.filter (·.band = .blank)
    = (List.range (c.instructions.length - 1)).map fun k => ⟨c.address k, .blank⟩
  /-- An instruction but the last has its blank line directly after it. -/
  separated : ∀ before e after k, l.entries = before ++ e :: after → e.content.index? = some k →
    k + 1 < c.instructions.length → ∃ rest, after = ⟨e.address, .blank⟩ :: rest
  /-- The comments are those of the instructions, if they are wanted. -/
  comments : l.entries.filter (·.band = .offsetComment)
    = if o.offsetComments then
        (List.range c.instructions.length).map fun k => ⟨c.address k, .offsetComment⟩
      else []
  /-- A comment is the first entry of its address. -/
  leading : ∀ before e after, l.entries = before ++ e :: after → e.band = .offsetComment →
    ∀ d ∈ before, d.address < e.address
  /-- The debug directives at an address are those of the records there, if they are wanted. -/
  debug : ∀ x, l.entries.filter (fun e => e.band = .debug ∧ e.address = x)
    = if o.debugInfo then
        (c.debugRecords.filter (·.address.toNat = x)).map fun r => ⟨r.address.toNat, .debug r.event⟩
      else []
  /-- Each label of the table is marked once, and the labels at an address by their kinds. -/
  labels : ∃ ids : List LabelId, ids.Perm l.labels.ids ∧
    l.entries.filter (·.band = .label) = ids.map (fun id => ⟨id.address, .label id⟩) ∧
    ids.Pairwise fun i j =>
      i.address < j.address ∨ i.address = j.address ∧ i.kind.rank < j.kind.rank

/-! ### What is collected beside the instructions -/

theorem Content.band_of_index? {x : Content} {k : Nat} (h : x.index? = some k) :
    x.band = .instruction := by
  cases x with
  | instruction e => rfl
  | _ => cases h

theorem Entry.eq_blank {e : Entry} (h : e.band = .blank) : e = ⟨e.address, .blank⟩ := by
  obtain ⟨x, content⟩ := e
  cases content with
  | blank => rfl
  | _ => cases h

/-- All numbers below `n` but the last. -/
theorem flatMap_range_but_last {α : Type} (n : Nat) (g : Nat → α) :
    ((List.range n).flatMap fun k => if k + 1 = n then [] else [g k])
      = (List.range (n - 1)).map g := by
  cases n with
  | zero => rfl
  | succ n =>
      have hbelow : ((List.range n).flatMap fun k => if k + 1 = n + 1 then [] else [g k])
          = (List.range n).flatMap fun k => [g k] := by
        refine List.flatMap_congr fun k hk => ?_
        have hlt := List.mem_range.mp hk
        rw [if_neg (by omega)]
      rw [List.range_succ, List.flatMap_append, hbelow, ← List.map_eq_flatMap]
      simp

namespace Body

variable {m : Method} {c : Code} {o : Options} {b : Body} {l : Listing}
variable {own catches es : List Entry} {p : Placed} {q : Entry → Bool}

theorem filter_blank_trail (b : Body) (p : Placed) : (b.trail p).filter (·.band = .blank)
    = if p.index + 1 = b.code.instructions.length then [] else [⟨p.address, .blank⟩] := by
  rw [trail]
  split <;> split <;> rfl

theorem filter_comment_trail (b : Body) (p : Placed) : (b.trail p).filter (·.band = .offsetComment)
    = if b.options.offsetComments then [⟨p.address, .offsetComment⟩] else [] := by
  rw [trail]
  split <;> split <;> rfl

/-- Of the instructions with what follows them, what is no instruction is what follows. -/
theorem filter_zipWith {ps : List Placed} (h : List.Forall₂ c.IsEntry ps own)
    (hq : ∀ e, q e → e.band ≠ .instruction) :
    (List.zipWith (fun p e => e :: b.trail p) ps own).flatten.filter q
      = ps.flatMap fun p => (b.trail p).filter q := by
  induction h with
  | nil => rfl
  | @cons p e ps own he _ ih =>
      have hqe : ¬ q e := fun hqe => hq e hqe he.band
      rw [List.zipWith_cons_cons, List.flatten_cons, List.filter_append, ih,
        List.filter_cons_of_neg hqe, List.flatMap_cons]

namespace Collected

variable (h : Collected b own catches es)
include h

/-- What is collected in the band of the blank lines or in that of the comments follows the
instructions. -/
theorem filter_trail {k : Band} (hk : k = .blank ∨ k = .offsetComment) :
    es.filter (·.band = k) = b.code.placed.flatMap fun p => (b.trail p).filter (·.band = k) := by
  have hcatches : catches.filter (·.band = k) = [] := by
    refine filter_band_eq_nil fun e he => ?_
    rw [h.band_catches e he]
    rcases hk with rfl | rfl <;> nofun
  have hdebug : b.debugEntries.filter (·.band = k) = [] := by
    refine filter_band_eq_nil fun e he => ?_
    rw [band_debugEntries e he]
    rcases hk with rfl | rfl <;> nofun
  rw [h.eq, List.filter_append, List.filter_append, hcatches, hdebug, List.append_nil,
    List.append_nil]
  refine filter_zipWith h.instructions fun e he => ?_
  rw [of_decide_eq_true he]
  rcases hk with rfl | rfl <;> nofun

theorem filter_blank : es.filter (·.band = .blank)
    = (List.range (b.code.instructions.length - 1)).map fun k => ⟨b.code.address k, .blank⟩ := by
  rw [h.filter_trail (.inl rfl)]
  simp only [filter_blank_trail]
  rw [b.code.flatMap_placed fun k x =>
    if k + 1 = b.code.instructions.length then [] else [(⟨x, .blank⟩ : Entry)]]
  exact flatMap_range_but_last _ _

theorem filter_comment : es.filter (·.band = .offsetComment)
    = if b.options.offsetComments then
        (List.range b.code.instructions.length).map fun k => ⟨b.code.address k, .offsetComment⟩
      else [] := by
  rw [h.filter_trail (.inr rfl)]
  simp only [filter_comment_trail]
  split
  · rw [b.code.flatMap_placed fun _ x => [(⟨x, .offsetComment⟩ : Entry)], List.map_eq_flatMap]
  · exact List.flatMap_eq_nil_iff.mpr fun _ _ => rfl

theorem filter_debug (hq : ∀ e, q e → e.band = .debug) : es.filter q = b.debugEntries.filter q := by
  have hown :
      (List.zipWith (fun p e => e :: b.trail p) b.code.placed own).flatten.filter q = [] := by
    refine List.filter_eq_nil_iff.mpr fun e he hqe => ?_
    rcases band_of_mem_zipWith h.instructions e he with hk | hk | hk <;>
      exact absurd (hk.symm.trans (hq e hqe)) nofun
  have hcatches : catches.filter q = [] := by
    refine List.filter_eq_nil_iff.mpr fun e he hqe => ?_
    exact absurd ((h.band_catches e he).symm.trans (hq e hqe)) nofun
  rw [h.eq, List.filter_append, List.filter_append, hown, hcatches, List.nil_append,
    List.nil_append]

end Collected

theorem filter_debugEntries (b : Body) (x : Nat) :
    b.debugEntries.filter (fun e => e.band = .debug ∧ e.address = x)
      = if b.options.debugInfo then
          (b.code.debugRecords.filter (·.address.toNat = x)).map Entry.ofDebugRecord
        else [] := by
  rw [debugEntries]
  split
  · rw [List.filter_map]
    congr 2
    funext r
    simp [Entry.ofDebugRecord, Entry.band, Content.band]
  · rfl

namespace Listed

variable (h : Listed b own catches es l)
include h

/-- Entries that stand at the first addresses of the instructions are in order. -/
theorem pairwise_range {n : Nat} (hn : n ≤ b.code.instructions.length) (x : Content) :
    ((List.range n).map fun k => (⟨b.code.address k, x⟩ : Entry)).Pairwise
      fun d e => d.address < e.address :=
  List.pairwise_map.mpr (h.placeable.pairwise_range hn)

theorem blanks_eq : l.entries.filter (·.band = .blank)
    = (List.range (b.code.instructions.length - 1)).map fun k => ⟨b.code.address k, .blank⟩ := by
  rw [h.filter_eq, h.filter_blank]
  · intro e he
    simp [of_decide_eq_true he]
  · rw [h.filter_blank]
    exact (h.pairwise_range (Nat.sub_le _ _) _).imp fun hlt => Entry.le_iff.mpr (.inl hlt)

theorem comments_eq : l.entries.filter (·.band = .offsetComment)
    = if b.options.offsetComments then
        (List.range b.code.instructions.length).map fun k => ⟨b.code.address k, .offsetComment⟩
      else [] := by
  rw [h.filter_eq, h.filter_comment]
  · intro e he
    simp [of_decide_eq_true he]
  · rw [h.filter_comment]
    split
    · exact (h.pairwise_range (Nat.le_refl _) _).imp fun hlt => Entry.le_iff.mpr (.inl hlt)
    · exact .nil

variable {before after : List Entry} {e : Entry}

/-- Nothing comes between an instruction and its blank line. -/
theorem blank_next {k : Nat} (hs : l.entries = before ++ e :: after)
    (hi : e.content.index? = some k) (hk : k + 1 < b.code.instructions.length) :
    ∃ rest, after = ⟨e.address, .blank⟩ :: rest := by
  have hband : e.band = .instruction := Content.band_of_index? hi
  obtain ⟨p, hp, target, cases, rfl, -, -⟩ := h.exists_placed (hs ▸ by simp) hband
  obtain rfl : p.index = k := Option.some.inj hi
  have hblank : ⟨p.address, .blank⟩ ∈ l.entries := by
    refine (List.mem_filter (p := (·.band = .blank)).mp ?_).1
    rw [h.blanks_eq, (Code.mem_placed.mp hp).2]
    exact List.mem_map_of_mem (List.mem_range.mpr (by omega))
  have hafter : ⟨p.address, .blank⟩ ∈ after := by
    rw [hs] at hblank
    rcases List.mem_append.mp hblank with hb | hb
    · exact absurd (Entry.address_lt_of_mem_before h.ordered hs hb Band.rank_instruction_lt)
        (Nat.lt_irrefl _)
    · exact (List.mem_cons.mp hb).resolve_left nofun
  obtain ⟨between, rest, rfl, hfirst⟩ := List.eq_append_cons_of_mem hafter
  -- what would stand between is at this address, so it is a second instruction or a second blank
  cases between with
  | nil => exact ⟨rest, rfl⟩
  | cons z between =>
      obtain ⟨hza, hlow, hhigh⟩ :=
        Entry.between_of_pairwise h.ordered hs rfl z List.mem_cons_self
      rcases Band.eq_instruction_or_blank hlow hhigh with hz | hz
      · have hp := h.pairwise_instructions
        rw [hs] at hp
        have hlt := (List.pairwise_cons.mp (List.pairwise_append.mp hp).2.1).1 z
          (by simp) rfl hz
        exact absurd hza.symm (Nat.ne_of_lt hlt)
      · have hzb := Entry.eq_blank hz
        rw [hza] at hzb
        exact absurd (hzb ▸ List.mem_cons_self) hfirst

/-- All that stands before a comment has a lower address. -/
theorem lt_comment (hs : l.entries = before ++ e :: after) (hk : e.band = .offsetComment) :
    ∀ d ∈ before, d.address < e.address := by
  intro d hd
  rcases Entry.le_iff.mp (Entry.le_of_mem_before h.ordered hs d hd) with hlt | ⟨-, hrank⟩
  · exact hlt
  · -- only another comment could stand before it at its address
    have hdk : d.band = .offsetComment := by
      rw [hk] at hrank
      exact Band.eq_of_rank_eq (Nat.le_antisymm hrank (Nat.zero_le _))
    have hstrict : (l.entries.filter (·.band = .offsetComment)).Pairwise
        fun x y => x.address < y.address := by
      rw [h.comments_eq]
      split
      · exact h.pairwise_range (Nat.le_refl _) _
      · exact .nil
    have hp := Entry.pairwise_band hstrict
    rw [hs] at hp
    exact (List.pairwise_append.mp hp).2.2 d hd e List.mem_cons_self hdk hk

theorem instructions_at :
    (l.entries.filter (·.band = .instruction)).map (fun e => (e.content.index?, e.address))
      = (List.range b.code.instructions.length).map fun k => (some k, b.code.address k) := by
  rw [h.instructions_eq, ← b.code.map_index, List.map_map]
  refine h.map_own fun p hp e he => ?_
  obtain ⟨target, cases, rfl, -, -⟩ := he
  rw [(Code.mem_placed.mp hp).2]
  rfl

end Listed

/-- **Every listing has the skeleton of its code.** -/
theorem skeleton_of_listing (hb : build m c o = .ok b) (hl : b.listing = .ok l) :
    c.Skeleton o l := by
  have hbuilt := built_of_build hb
  obtain rfl := hbuilt.code
  obtain rfl := hbuilt.options
  obtain ⟨own, catches, es, h⟩ := hbuilt.exists_listed hl
  have hnodup : l.labels.ids.Nodup := h.indexed.nodup
  exact {
    ordered := h.ordered.imp Entry.le_iff.mp
    instructions := h.instructions_at
    blanks := h.blanks_eq
    separated := fun before e after k hs hi hk => h.blank_next hs hi hk
    comments := h.comments_eq
    leading := fun before e after hs hk => h.lt_comment hs hk
    debug := fun x => by
      rw [h.filter_at (k := .debug) nofun, h.filter_debug fun e he => (of_decide_eq_true he).1]
      exact b.filter_debugEntries x
    labels := ⟨_, LabelTable.sortedIds_perm _, h.labels_eq, LabelTable.sortedIds_strict hnodup⟩ }

theorem guardedLoop_skeleton : ∃ b l,
    build .guardedLoop .guardedLoop { offsetComments := true } = .ok b ∧ b.listing = .ok l ∧
      Code.guardedLoop.Skeleton { offsetComments := true } l ∧
      l.entries.filter (·.band = .blank) = [⟨0, .blank⟩, ⟨2, .blank⟩] ∧
      l.entries.filter (·.band = .offsetComment)
        = [⟨0, .offsetComment⟩, ⟨2, .offsetComment⟩, ⟨3, .offsetComment⟩] := by
  obtain ⟨b, l, hb, hl⟩ : ∃ b l,
      build .guardedLoop .guardedLoop { offsetComments := true } = .ok b ∧ b.listing = .ok l :=
    ⟨_, _, rfl, rfl⟩
  have h := skeleton_of_listing hb hl
  exact ⟨b, l, hb, hl, h, h.blanks, h.comments⟩

end Body

end Dalvik
