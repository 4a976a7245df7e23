import Edda.Support.Runs

/-!
# What a slot of a state holds

A slot is a part of a state that some steps reset, to a value or to nothing, and that every other
step feeds. `Slot.view_run_iff`: after a run the slot holds a value exactly when the value grew from
the last step that filled it, or from the start, and no step has reset it since.
-/

set_option autoImplicit false

namespace Edda.Support.Runs

universe u v w

/-- How the steps act on one slot: `resets` gives what a step that resets it leaves in it, and `feed`
what becomes of a value in any other step. -/
structure Slot {σ : Type u} {α : Type v} (step : σ → α → σ) (β : Type w) where
  view : σ → Option β
  resets : σ → α → Option (Option β)
  feed : β → α → Option β
  law : ∀ s a, view (step s a) = (resets s a).getD ((view s).bind fun b => feed b a)

namespace Slot

variable {σ : Type u} {α : Type v} {step : σ → α → σ} {β : Type w} (slot : Slot step β)

/-- What becomes of a value over steps that do not reset it. -/
def feedAll : β → List α → Option β
  | b, [] => some b
  | b, a :: steps => (slot.feed b a).bind fun b' => feedAll b' steps

/-- No step resets the slot. -/
def Kept (s : σ) (steps : List α) : Prop :=
  Throughout step (fun s a => slot.resets s a = none) s steps

/-- A step of the run filled the slot, none has reset it since, and the value has become `b`. -/
def FilledBefore (s : σ) (steps : List α) (b : β) : Prop :=
  ∃ earlier a later b₀, steps = earlier ++ a :: later ∧
    slot.resets (run step s earlier) a = some (some b₀) ∧
    slot.Kept (run step s (earlier ++ [a])) later ∧ slot.feedAll b₀ later = some b

variable {slot}

theorem FilledBefore.cons {s : σ} {a : α} {steps : List α} {b : β}
    (h : slot.FilledBefore (step s a) steps b) : slot.FilledBefore s (a :: steps) b := by
  obtain ⟨earlier, filling, later, b₀, rfl, hfill, hkept, hfed⟩ := h
  exact ⟨a :: earlier, filling, later, b₀, rfl, hfill, hkept, hfed⟩

/-- A step of the rest filled the slot, or the first step did. -/
theorem filledBefore_cons_iff {s : σ} {a : α} {steps : List α} {b : β} :
    slot.FilledBefore s (a :: steps) b ↔
      slot.FilledBefore (step s a) steps b ∨
        ∃ b₀, slot.resets s a = some (some b₀) ∧ slot.Kept (step s a) steps ∧
          slot.feedAll b₀ steps = some b := by
  constructor
  · rintro ⟨earlier, filling, later, b₀, heq, hfill, hkept, hfed⟩
    cases earlier with
    | nil =>
      obtain ⟨rfl, rfl⟩ := List.cons.inj heq
      exact Or.inr ⟨b₀, hfill, hkept, hfed⟩
    | cons first earlier =>
      obtain ⟨rfl, rfl⟩ := List.cons.inj heq
      exact Or.inl ⟨earlier, filling, later, b₀, rfl, hfill, hkept, hfed⟩
  · rintro (h | ⟨b₀, hfill, hkept, hfed⟩)
    · exact h.cons
    · exact ⟨[], a, steps, b₀, rfl, hfill, hkept, hfed⟩

/-- What a slot holds after a run. -/
theorem view_run_iff {s : σ} {steps : List α} {b : β} :
    slot.view (run step s steps) = some b ↔
      (slot.Kept s steps ∧ (slot.view s).bind (fun b₀ => slot.feedAll b₀ steps) = some b) ∨
        slot.FilledBefore s steps b := by
  induction steps generalizing s with
  | nil =>
    have hnone : ¬ slot.FilledBefore s [] b := by
      rintro ⟨earlier, a, later, -, heq, -⟩
      exact absurd heq (by simp)
    have hsame : (slot.view s).bind (fun b₀ => slot.feedAll b₀ []) = slot.view s := by
      cases slot.view s <;> rfl
    have hkept : slot.Kept s [] := throughout_nil s
    rw [hsame, or_iff_left hnone, and_iff_right hkept]
    rfl
  | cons a steps ih =>
    have hrun : run step s (a :: steps) = run step (step s a) steps := rfl
    have hkept : slot.Kept s (a :: steps) ↔ slot.resets s a = none ∧ slot.Kept (step s a) steps :=
      throughout_cons
    rw [hrun, ih, filledBefore_cons_iff, hkept, slot.law]
    cases hresets : slot.resets s a with
    | none =>
      have hfeed : ((slot.view s).bind fun b₀ => slot.feed b₀ a).bind
          (fun b₁ => slot.feedAll b₁ steps) =
          (slot.view s).bind fun b₀ => slot.feedAll b₀ (a :: steps) := by
        cases slot.view s <;> rfl
      simp only [Option.getD_none, hfeed, true_and, reduceCtorEq, false_and, exists_false, or_false]
    | some value =>
      cases value with
      | none =>
        simp only [Option.getD_some, Option.bind_none, reduceCtorEq, and_false, false_or, false_and,
          Option.some.injEq, exists_false, or_false]
      | some b₀ =>
        simp only [Option.getD_some, Option.bind_some, reduceCtorEq, false_and, false_or,
          Option.some.injEq, exists_eq_left']
        exact Or.comm

end Slot

end Edda.Support.Runs
