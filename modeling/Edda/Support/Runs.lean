import Mathlib

/-!
# Runs of a step function

A run folds a step function over a list of steps. `Throughout` says that every step of a run is
taken in a state it fits. The library gives how runs and `Throughout` split at a point
(`run_append`, `throughout_append`), the invariant rule (`invariant`), when two properties of the
steps say the same of a run (`throughout_iff`), that what always holds is a property of the steps
(`always_iff`), and the rule for the exact condition under which it does (`always_iff_throughout`).
-/

set_option autoImplicit false

namespace Edda.Support.Runs

universe u v

section Runs

variable {σ : Type u} {α : Type v} (step : σ → α → σ)

/-- The state after some steps. -/
def run : σ → List α → σ
  | s, [] => s
  | s, a :: steps => run (step s a) steps

theorem run_append (s : σ) (earlier later : List α) :
    run step s (earlier ++ later) = run step (run step s earlier) later := by
  induction earlier generalizing s with
  | nil => rfl
  | cons a earlier ih => exact ih (step s a)

theorem run_concat (s : σ) (earlier : List α) (a : α) :
    run step s (earlier ++ [a]) = step (run step s earlier) a :=
  run_append step s earlier [a]

/-- Every step of the run is related to the state that it is taken in. -/
def Throughout (P : σ → α → Prop) (s : σ) (steps : List α) : Prop :=
  ∀ earlier a later, steps = earlier ++ a :: later → P (run step s earlier) a

variable {step} {P Q : σ → α → Prop}

theorem throughout_nil (s : σ) : Throughout step P s [] := by
  intro earlier a later h
  simp at h

theorem throughout_cons {s : σ} {a : α} {steps : List α} :
    Throughout step P s (a :: steps) ↔ P s a ∧ Throughout step P (step s a) steps := by
  constructor
  · intro h
    refine ⟨h [] a steps rfl, ?_⟩
    intro earlier b later heq
    exact h (a :: earlier) b later (by rw [heq]; rfl)
  · rintro ⟨hhead, htail⟩ earlier b later heq
    cases earlier with
    | nil =>
      obtain ⟨rfl, -⟩ := List.cons.inj heq
      exact hhead
    | cons c earlier =>
      obtain ⟨rfl, hrest⟩ := List.cons.inj heq
      exact htail earlier b later hrest

instance decidableThroughout [∀ s a, Decidable (P s a)] :
    ∀ (s : σ) (steps : List α), Decidable (Throughout step P s steps)
  | s, [] => isTrue (throughout_nil s)
  | s, a :: steps =>
    have := decidableThroughout (step s a) steps
    decidable_of_iff (P s a ∧ Throughout step P (step s a) steps) throughout_cons.symm

theorem throughout_append {s : σ} {earlier later : List α} :
    Throughout step P s (earlier ++ later) ↔
      Throughout step P s earlier ∧ Throughout step P (run step s earlier) later := by
  induction earlier generalizing s with
  | nil => simp [throughout_nil, run]
  | cons a earlier ih => simp only [List.cons_append, throughout_cons, ih, run, and_assoc]

theorem throughout_congr (h : ∀ s a, P s a ↔ Q s a) {s : σ} {steps : List α} :
    Throughout step P s steps ↔ Throughout step Q s steps := by
  simp only [Throughout, h]

/-- What every fitting step keeps, every run of fitting steps keeps. -/
theorem invariant {I : σ → Prop} (hstep : ∀ s a, I s → P s a → I (step s a)) {s : σ}
    {steps : List α} (hstart : I s) (h : Throughout step P s steps) : I (run step s steps) := by
  induction steps generalizing s with
  | nil => exact hstart
  | cons a steps ih =>
    obtain ⟨hhead, htail⟩ := throughout_cons.1 h
    exact ih (hstep s a hstart hhead) htail

/-- What holds of every state of a run holds of the start and after every step. -/
theorem always_iff {J : σ → Prop} {s : σ} {steps : List α} :
    (∀ earlier later, steps = earlier ++ later → J (run step s earlier)) ↔
      J s ∧ Throughout step (fun s a => J (step s a)) s steps := by
  constructor
  · intro h
    refine ⟨h [] steps rfl, fun earlier a later heq => ?_⟩
    have hafter := h (earlier ++ [a]) later (by rw [heq, List.append_assoc]; rfl)
    rwa [run_concat] at hafter
  · rintro ⟨hstart, h⟩ earlier later heq
    rcases List.eq_nil_or_concat earlier with rfl | ⟨earlier, a, rfl⟩
    · exact hstart
    · rw [List.concat_eq_append, List.append_assoc] at heq
      rw [List.concat_eq_append, run_concat]
      exact h earlier a later heq

/-- Two properties of steps that agree where a run of fitting steps gets to. -/
theorem throughout_iff {I : σ → Prop} (hstep : ∀ s a, I s → P s a → I (step s a))
    (hiff : ∀ s a, I s → (P s a ↔ Q s a)) {s : σ} (hstart : I s) {steps : List α} :
    Throughout step P s steps ↔ Throughout step Q s steps := by
  induction steps generalizing s with
  | nil => exact ⟨fun _ => throughout_nil s, fun _ => throughout_nil s⟩
  | cons a steps ih =>
    simp only [throughout_cons]
    constructor
    · rintro ⟨hhead, htail⟩
      exact ⟨(hiff s a hstart).1 hhead, (ih (hstep s a hstart hhead)).1 htail⟩
    · rintro ⟨hhead, htail⟩
      have hfits := (hiff s a hstart).2 hhead
      exact ⟨hfits, (ih (hstep s a hstart hfits)).2 htail⟩

/-- Where each step keeps `J` exactly if it fits, `J` holds along the runs of fitting steps and along
no others. The invariant `I` is what a step relies on beside `J`. -/
theorem always_iff_throughout {I J : σ → Prop}
    (hkeep : ∀ s a, I s → J s → J (step s a) → I (step s a))
    (hiff : ∀ s a, I s → J s → (J (step s a) ↔ Q s a)) {s : σ} (hinv : I s) (hstart : J s)
    {steps : List α} :
    (∀ earlier later, steps = earlier ++ later → J (run step s earlier)) ↔
      Throughout step Q s steps := by
  have hgood (s : σ) (a : α) (h : I s ∧ J s) (hafter : J (step s a)) :
      I (step s a) ∧ J (step s a) := ⟨hkeep s a h.1 h.2 hafter, hafter⟩
  have hagree (s : σ) (a : α) (h : I s ∧ J s) : J (step s a) ↔ Q s a := hiff s a h.1 h.2
  rw [always_iff, and_iff_right hstart]
  exact throughout_iff hgood hagree ⟨hinv, hstart⟩

end Runs

end Edda.Support.Runs
