import Dalvik.Proofs.Listing

/-!
# Region — exception regions in a listing

Each handler of each exception region has a directive in the listing, at the instruction whose span
has the last address of the region. `Code.RegionsListed` states where the directives stand, in which
order, and what the labels that they name enclose; `regions_listed` proves it of every listing.
-/

namespace Dalvik

/-- The exception regions of the code as a listing shows them. -/
structure Code.RegionsListed (c : Code) (l : Listing) : Prop where
  /-- There is one directive for each handler of each region. They stand in the order of their
  addresses, and those of one address in the order of the regions and of their handlers. -/
  handlers : ∃ catches,
    List.Forall₂ (fun th e => c.IsHandlerEntry th.1 th.2 e) c.handlers catches ∧
    (l.entries.filter (·.band = .exception)).Perm catches ∧
    (l.entries.filter (·.band = .exception)).Pairwise (fun d e => d.address ≤ e.address) ∧
    ∀ x, l.entries.filter (fun e => e.band = .exception ∧ e.address = x)
      = catches.filter (·.address = x)
  /-- The directive stands at the one instruction whose span has the last address of the region,
  with nothing but other directives between the two. -/
  anchored : ∀ t h, (t, h) ∈ c.handlers → ∃ p ∈ c.placed,
    (∀ q ∈ c.placed, q.address ≤ t.stop - 1 ∧ t.stop - 1 < q.stop ↔ q = p) ∧
    ⟨p.address, .exception (handlerDirective t h)⟩ ∈ l.entries ∧
    ∀ before after,
      l.entries = before ++ ⟨p.address, .exception (handlerDirective t h)⟩ :: after →
      ∃ between e rest, after = between ++ e :: rest ∧ c.IsEntry p e ∧
        ∀ z ∈ between, z.band = .exception
  /-- The bounds of a region that has a handler are marked. -/
  bounded : ∀ t h, (t, h) ∈ c.handlers →
    ⟨t.start.toNat, .label ⟨.tryStart, t.start.toNat⟩⟩ ∈ l.entries ∧
    ⟨t.stop, .label ⟨.tryEnd, t.stop⟩⟩ ∈ l.entries
  /-- The marks of the bounds enclose the instructions that start in the region. -/
  enclosed : ∀ t ∈ c.tryBlocks, ∀ before after before' after',
    l.entries = before ++ ⟨t.start.toNat, .label ⟨.tryStart, t.start.toNat⟩⟩ :: after →
    l.entries = before' ++ ⟨t.stop, .label ⟨.tryEnd, t.stop⟩⟩ :: after' →
    ∀ e, e.band = .instruction →
      (e ∈ after ∧ e ∈ before' ↔ e ∈ l.entries ∧ t.start.toNat ≤ e.address ∧ e.address < t.stop)

namespace Body

variable {m : Method} {c : Code} {o : Options} {b : Body} {l : Listing}
variable {own catches es before after : List Entry}

namespace Listed

variable (h : Listed b own catches es l)
include h

theorem handlers_ordered :
    (l.entries.filter (·.band = .exception)).Pairwise fun d e => d.address ≤ e.address := by
  refine (h.ordered.sublist List.filter_sublist).imp fun hle => ?_
  have hle := Entry.le_iff.mp hle
  omega

/-- An instruction stands after a label just if it is not below it. -/
theorem mem_after_label_iff {x : Nat} {id : LabelId} {e : Entry}
    (hs : l.entries = before ++ ⟨x, .label id⟩ :: after) (hk : e.band = .instruction) :
    e ∈ after ↔ e ∈ l.entries ∧ x ≤ e.address := by
  constructor
  · intro he
    exact ⟨hs ▸ by simp [he], Entry.address_le_of_mem_after h.ordered hs he⟩
  · rintro ⟨he, hx⟩
    rw [hs] at he
    rcases List.mem_append.mp he with he | he
    · exact absurd (h.lt_of_mem_before hs Band.rank_label_lt he hk) (by simpa using hx)
    · rcases List.mem_cons.mp he with rfl | he
      · cases hk
      · exact he

/-- An instruction stands before a label just if it is below it. -/
theorem mem_before_label_iff {x : Nat} {id : LabelId} {e : Entry}
    (hs : l.entries = before ++ ⟨x, .label id⟩ :: after) (hk : e.band = .instruction) :
    e ∈ before ↔ e ∈ l.entries ∧ e.address < x := by
  constructor
  · intro he
    exact ⟨hs ▸ by simp [he], h.lt_of_mem_before hs Band.rank_label_lt he hk⟩
  · rintro ⟨he, hx⟩
    rw [hs] at he
    rcases List.mem_append.mp he with he | he
    · exact he
    · rcases List.mem_cons.mp he with rfl | he
      · cases hk
      · exact absurd (Entry.address_le_of_mem_after h.ordered hs he) (by simpa using hx)

/-- The directive of a handler is in the listing. -/
theorem exists_directive {t : TryBlock} {d : Handler} (ht : (t, d) ∈ b.code.handlers) :
    ∃ p ∈ b.code.placed, (p.address ≤ t.stop - 1 ∧ t.stop - 1 < p.stop) ∧
      ⟨p.address, .exception (Code.handlerDirective t d)⟩ ∈ l.entries := by
  obtain ⟨_, he, p, hp, hlow, hhigh, rfl⟩ := forall₂_mem_left h.handlers ht
  rw [← h.filter_exception] at he
  exact ⟨p, hp, ⟨hlow, hhigh⟩, h.mem_entries.mpr (.inl (List.mem_filter.mp he).1)⟩

/-- Only other directives stand between the directive of a handler and the instruction of its
address. -/
theorem split_directive {p : Placed} {x : ExceptionEntry} (hp : p ∈ b.code.placed)
    (hs : l.entries = before ++ ⟨p.address, .exception x⟩ :: after) :
    ∃ between e rest, after = between ++ e :: rest ∧ b.code.IsEntry p e ∧
      ∀ z ∈ between, z.band = .exception := by
  obtain ⟨e, he, hpe⟩ := h.exists_entry hp
  obtain ⟨between, rest, hafter, hbetween⟩ :=
    h.split_instruction hs Band.rank_exception_lt he hpe.band hpe.address
  refine ⟨between, e, rest, hafter, hpe, fun z hz => ?_⟩
  exact Band.eq_exception (hbetween z hz).1 (hbetween z hz).2

/-- The labels that the directive of a handler names are marked. -/
theorem marked_of_handler {t : TryBlock} {d : Handler} (ht : (t, d) ∈ b.code.handlers)
    {id : LabelId} (hid : id ∈ (Content.exception (Code.handlerDirective t d)).labels) :
    ⟨id.address, .label id⟩ ∈ l.entries := by
  obtain ⟨p, -, -, he⟩ := h.exists_directive ht
  exact h.ofLabel_mem he (fun hk => by cases hk) hid

end Listed

/-- **Every listing shows the exception regions**: a directive for each handler, at the last
instruction of its region, and marks that enclose the instructions of the region. -/
theorem regions_listed (hb : build m c o = .ok b) (hl : b.listing = .ok l) :
    c.RegionsListed l := by
  have hbuilt := built_of_build hb
  obtain rfl := hbuilt.code
  obtain ⟨own, catches, es, h⟩ := hbuilt.exists_listed hl
  refine ⟨?handlers, ?anchored, ?bounded, ?enclosed⟩
  case handlers =>
    exact ⟨catches, h.handlers, h.handlers_perm, h.handlers_ordered, h.handlers_at⟩
  case anchored =>
    intro t d ht
    obtain ⟨p, hp, hspan, he⟩ := h.exists_directive ht
    refine ⟨p, hp, fun q hq => ⟨fun hq' => Code.covering_unique hq hp hq' hspan, ?_⟩, he, ?_⟩
    · rintro rfl
      exact hspan
    · exact fun before after hs => h.split_directive hp hs
  case bounded =>
    intro t d ht
    constructor
    · exact h.marked_of_handler ht List.mem_cons_self
    · exact h.marked_of_handler ht (List.mem_cons_of_mem _ List.mem_cons_self)
  case enclosed =>
    -- each mark is passed by the instructions below it; an empty region has no instruction between
    intro t _ before after before' after' hs hs' e hk
    rw [h.mem_after_label_iff hs hk, h.mem_before_label_iff hs' hk]
    tauto

theorem guardedLoop_regions : ∃ b l,
    build .guardedLoop .guardedLoop { sequentialLabels := true } = .ok b ∧ b.listing = .ok l ∧
      Code.guardedLoop.RegionsListed l ∧ ⟨0, .label ⟨.tryStart, 0⟩⟩ ∈ l.entries ∧
      ⟨3, .label ⟨.tryEnd, 3⟩⟩ ∈ l.entries := by
  obtain ⟨b, l, hb, hl, -⟩ := guardedLoop_listed
  exact ⟨b, l, hb, hl, regions_listed hb hl,
    (regions_listed hb hl).bounded ⟨0, 3, _⟩ _ List.mem_cons_self⟩

end Body

end Dalvik
