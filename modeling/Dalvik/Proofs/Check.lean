import Dalvik.Fault
import Mathlib.Data.List.Forall2

/-!
# Check — computations that fail at the first unmet check

A listing is made in stages, each of which may refuse the code. What a stage refuses, and in which
order, is a list of checks; `Guarded r cs P` says of the outcome `r` of a stage that it is a value
with the property `P` if every check of `cs` holds, and else a fault of the family of the first
check that does not hold. The rules compose the checks of stages that run one after another
(`Guarded.bind`) and of a stage that runs over a list (`Guarded.mapM`).
-/

namespace Dalvik

/-- A condition, and the family of the fault where it is not met. -/
structure Check where
  /-- What is required. -/
  holds : Prop
  /-- The family of the fault. -/
  fault : FaultKind

/-- Not all checks hold, and the first that does not has the given family of faults. -/
inductive FirstUnmet : List Check → FaultKind → Prop where
  | here {c : Check} {cs : List Check} (h : ¬ c.holds) : FirstUnmet (c :: cs) c.fault
  | later {c : Check} {cs : List Check} {k : FaultKind} (h : c.holds) (t : FirstUnmet cs k) :
      FirstUnmet (c :: cs) k

namespace FirstUnmet

/-- There is one first check that is not met. -/
theorem unique {cs : List Check} {j k : FaultKind} (h₁ : FirstUnmet cs j) (h₂ : FirstUnmet cs k) :
    j = k := by
  induction h₁ with
  | here hc =>
      cases h₂ with
      | here => rfl
      | later hc' _ => exact absurd hc' hc
  | later hc _ ih =>
      cases h₂ with
      | here hc' => exact absurd hc hc'
      | later _ t => exact ih t

theorem not_all {cs : List Check} {k : FaultKind} (h : FirstUnmet cs k) :
    ¬ ∀ c ∈ cs, c.holds := by
  induction h with
  | here hc => exact fun hall => hc (hall _ List.mem_cons_self)
  | later _ _ ih => exact fun hall => ih fun c hc => hall c (List.mem_cons_of_mem _ hc)

theorem append_right {cs : List Check} {k : FaultKind} (h : FirstUnmet cs k) (ds : List Check) :
    FirstUnmet (cs ++ ds) k := by
  induction h with
  | here hc => exact .here hc
  | later hc _ ih => exact .later hc ih

theorem append_left {cs ds : List Check} {k : FaultKind} (hcs : ∀ c ∈ cs, c.holds)
    (h : FirstUnmet ds k) : FirstUnmet (cs ++ ds) k := by
  induction cs with
  | nil => exact h
  | cons c cs ih =>
      exact .later (hcs c List.mem_cons_self) (ih fun d hd => hcs d (List.mem_cons_of_mem _ hd))

end FirstUnmet

/-- The outcome is a value with `P` if all checks hold, else a fault of the first unmet check. -/
def Guarded {α : Type} (r : Except Fault α) (cs : List Check) (P : α → Prop) : Prop :=
  match r with
  | .ok a => (∀ c ∈ cs, c.holds) ∧ P a
  | .error f => FirstUnmet cs f.kind

namespace Guarded

variable {α β : Type} {r : Except Fault α} {cs ds : List Check} {P : α → Prop} {Q : β → Prop}

/-- A stage that checks nothing. -/
theorem ok {a : α} (h : P a) : Guarded (.ok a) [] P := ⟨by simp, h⟩

/-- A value shows that all checks hold. -/
theorem of_ok (h : Guarded r cs P) {a : α} (hr : r = .ok a) : (∀ c ∈ cs, c.holds) ∧ P a := by
  subst hr
  exact h

/-- There is a value just if all checks hold. -/
theorem exists_ok_iff (h : Guarded r cs P) : (∃ a, r = .ok a) ↔ ∀ c ∈ cs, c.holds := by
  cases r with
  | ok a => exact ⟨fun _ => h.1, fun _ => ⟨a, rfl⟩⟩
  | error f =>
      have hf : FirstUnmet cs f.kind := h
      refine ⟨?_, fun hall => absurd hall hf.not_all⟩
      rintro ⟨a, ha⟩
      cases ha

theorem mono {P' : α → Prop} (h : Guarded r cs P) (hP : ∀ a, P a → P' a) : Guarded r cs P' := by
  cases r with
  | ok a => exact ⟨h.1, hP a h.2⟩
  | error f => exact h

/-- A check that holds may stand before a stage. -/
theorem cons_holds (h : Guarded r cs P) {c : Check} (hc : c.holds) : Guarded r (c :: cs) P := by
  cases r with
  | ok a => exact ⟨List.forall_mem_cons.mpr ⟨hc, h.1⟩, h.2⟩
  | error f => exact .later hc h

/-- One check before a stage. -/
theorem cons {p : Prop} [Decidable p] {f : Fault} {c : Check} (hc : c.holds ↔ ¬ p)
    (hf : f.kind = c.fault) (h : ¬ p → Guarded r cs P) :
    Guarded (if p then .error f else r) (c :: cs) P := by
  by_cases hp : p
  · rw [if_pos hp]
    have hu : ¬ c.holds := fun hh => hc.mp hh hp
    show FirstUnmet (c :: cs) f.kind
    rw [hf]
    exact .here hu
  · rw [if_neg hp]
    exact (h hp).cons_holds (hc.mpr hp)

theorem map (h : Guarded r cs P) {g : α → β} (hg : ∀ a, P a → Q (g a)) :
    Guarded (r.map g) cs Q := by
  cases r with
  | ok a => exact ⟨h.1, hg a h.2⟩
  | error f => exact h

/-- Stages one after another: the second knows what the first has checked and yielded. -/
theorem bind (h : Guarded r cs P) {g : α → Except Fault β}
    (hg : ∀ a, (∀ c ∈ cs, c.holds) → P a → Guarded (g a) ds Q) :
    Guarded (r >>= g) (cs ++ ds) Q := by
  cases r with
  | error f => exact FirstUnmet.append_right h ds
  | ok a =>
      -- all checks of the first stage hold, so the first unmet one is the second stage's
      have hga := hg a h.1 h.2
      show Guarded (g a) (cs ++ ds) Q
      cases hb : g a with
      | ok b =>
          rw [hb] at hga
          exact ⟨List.forall_mem_append.mpr ⟨h.1, hga.1⟩, hga.2⟩
      | error f =>
          rw [hb] at hga
          exact FirstUnmet.append_left h.1 hga

/-- A last step that checks nothing. -/
theorem bind_pure (h : Guarded r cs P) {g : α → β}
    (hg : ∀ a, (∀ c ∈ cs, c.holds) → P a → Q (g a)) :
    Guarded (r >>= fun a => pure (g a)) cs Q := by
  cases r with
  | ok a => exact ⟨h.1, hg a h.1 h.2⟩
  | error f => exact h

/-- A stage that runs over a list: the checks of the elements in order. -/
theorem mapM {xs : List α} {f : α → Except Fault β} {cs : α → List Check} {R : α → β → Prop}
    (h : ∀ x ∈ xs, Guarded (f x) (cs x) (R x)) :
    Guarded (xs.mapM f) (xs.flatMap cs) (List.Forall₂ R xs) := by
  induction xs with
  | nil => exact ok .nil
  | cons x xs ih =>
      rw [List.mapM_cons, List.flatMap_cons]
      have ht := ih fun y hy => h y (List.mem_cons_of_mem _ hy)
      exact (h x List.mem_cons_self).bind fun b _ hb => ht.bind_pure fun bs _ hbs => .cons hb hbs

end Guarded

/-! ### What a stage over a list yields -/

theorem forall₂_mem_left {α β : Type} {R : α → β → Prop} {xs : List α} {ys : List β}
    (h : List.Forall₂ R xs ys) {x : α} (hx : x ∈ xs) : ∃ y ∈ ys, R x y := by
  induction h with
  | nil => cases hx
  | cons hr _ ih =>
      rcases List.mem_cons.mp hx with rfl | hx
      · exact ⟨_, List.mem_cons_self, hr⟩
      · obtain ⟨y, hy, hxy⟩ := ih hx
        exact ⟨y, List.mem_cons_of_mem _ hy, hxy⟩

theorem forall₂_mem_right {α β : Type} {R : α → β → Prop} {xs : List α} {ys : List β}
    (h : List.Forall₂ R xs ys) {y : β} (hy : y ∈ ys) : ∃ x ∈ xs, R x y :=
  forall₂_mem_left h.flip hy

end Dalvik
