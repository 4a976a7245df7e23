import Mathlib

/-!
# Statements that can fail

Statements that run one after another until one fails. The library gives when a check and when one
computation after another succeed.
-/

set_option autoImplicit false

namespace Edda.Support.Fallible

universe u v

section Fallible

variable {ε : Type u} {α β : Type v}

/-- A computation that goes on after another succeeds where both do. -/
theorem bind_eq_ok {first : Except ε α} {next : α → Except ε β} {result : β} :
    (first >>= next) = .ok result ↔ ∃ a, first = .ok a ∧ next a = .ok result := by
  cases first with
  | error err => simp [bind, Except.bind]
  | ok a => simp [bind, Except.bind]

/-- A check that refuses what it finds. -/
def rejectIf (c : Prop) [Decidable c] (err : ε) : Except ε Unit := if c then .error err else .ok ()

theorem rejectIf_eq_ok {c : Prop} [Decidable c] {err : ε} {result : Unit} :
    rejectIf c err = .ok result ↔ ¬ c := by
  by_cases h : c
  · simp [rejectIf, h]
  · simp [rejectIf, h]

end Fallible

end Edda.Support.Fallible
