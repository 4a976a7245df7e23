import Mathlib

/-!
# Tasks in places

A system that does several things at once keeps them in a list, and a step replaces the one in some
place. The library gives what is in the places after such a step (`getElem?_set_cases`), what it does
to a property of all tasks (`forall_set`) or of some (`exists_set`), and to the number of tasks with
a property (`countP_set`, `countP_append_one`).
-/

set_option autoImplicit false

namespace Edda.Support.Tasks

universe u

variable {τ : Type u} {tasks : List τ} {place : Nat} {task next : τ}

/-- The tasks after one was replaced are the one that replaced it and the others. -/
theorem getElem?_set_cases {j : Nat} {other : τ} (h : (tasks.set place next)[j]? = some other) :
    j = place ∧ other = next ∨ j ≠ place ∧ tasks[j]? = some other := by
  by_cases hj : place = j
  · rw [List.getElem?_set, if_pos hj] at h
    split at h
    · exact Or.inl ⟨hj.symm, (Option.some.inj h).symm⟩
    · simp at h
  · rw [List.getElem?_set_ne hj] at h
    exact Or.inr ⟨Ne.symm hj, h⟩

/-- All tasks have a property after one was replaced by a task that has it. -/
theorem forall_set (P : τ → Prop) (h : ∀ other ∈ tasks, P other) (hnext : P next) :
    ∀ other ∈ tasks.set place next, P other := by
  intro other hother
  rcases List.mem_or_eq_of_mem_set hother with hold | rfl
  · exact h other hold
  · exact hnext

theorem forall_append_one (P : τ → Prop) (h : ∀ other ∈ tasks, P other) (hnext : P next) :
    ∀ other ∈ tasks ++ [next], P other := by
  intro other hother
  rcases List.mem_append.1 hother with hold | hlast
  · exact h other hold
  · rw [List.mem_singleton.1 hlast]
    exact hnext

/-- Replacing a task changes the count by what the two tasks count. -/
theorem countP_set (p : τ → Bool) (h : tasks[place]? = some task) :
    (tasks.set place next).countP p + (p task).toNat = tasks.countP p + (p next).toNat := by
  induction tasks generalizing place with
  | nil => simp at h
  | cons head rest ih =>
    cases place with
    | zero =>
      obtain rfl : head = task := by simpa using h
      simp only [List.set_cons_zero, List.countP_cons]
      cases p head <;> cases p next <;> simp
    | succ place =>
      have hrest := ih (by simpa using h)
      simp only [List.set_cons_succ, List.countP_cons]
      omega

theorem countP_append_one (p : τ → Bool) :
    (tasks ++ [next]).countP p = tasks.countP p + (p next).toNat := by
  rw [List.countP_append, List.countP_singleton]
  cases p next <;> rfl

/-- Some task has a property after one was replaced exactly if the new one has it, or one of the
others. -/
theorem exists_set (P : τ → Prop) (h : tasks[place]? = some task) :
    (∃ other ∈ tasks.set place next, P other) ↔ P next ∨ ∃ other ∈ tasks.eraseIdx place, P other := by
  induction tasks generalizing place with
  | nil => simp at h
  | cons head rest ih =>
    cases place with
    | zero => simp
    | succ place =>
      have hrest := ih (by simpa using h)
      simp only [List.set_cons_succ, List.eraseIdx_cons_succ, List.exists_mem_cons_iff, hrest]
      exact or_left_comm

theorem exists_mem_iff (P : τ → Prop) (h : tasks[place]? = some task) :
    (∃ other ∈ tasks, P other) ↔ P task ∨ ∃ other ∈ tasks.eraseIdx place, P other := by
  have hset : tasks.set place task = tasks := by
    obtain ⟨hlt, rfl⟩ := List.getElem?_eq_some_iff.1 h
    exact List.set_getElem_self hlt
  rw [← exists_set P h, hset]

/-- A task is replaced by one that has a property alike. -/
theorem exists_set_congr (next : τ) (P : τ → Prop) (h : tasks[place]? = some task)
    (hsame : P next ↔ P task) :
    (∃ other ∈ tasks.set place next, P other) ↔ ∃ other ∈ tasks, P other := by
  rw [exists_set P h, exists_mem_iff P h, hsame]

end Edda.Support.Tasks
