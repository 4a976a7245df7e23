import Edda.Domain.Event

/-!
# Labels and milestones

A label belongs to a repository, and so does a milestone. Everything before the last `/` of a label's
name is its scope; of the labels of one scope an issue is to hold one at most, so applying a label
unapplies those that `labelsToUnapplyForScope` tells.
-/

set_option autoImplicit false

namespace Edda.Domain

abbrev LabelId := BitVec 128
abbrev MilestoneId := BitVec 128

structure Label where
  id : LabelId
  repositoryId : RepositoryId
  name : String
  color : String
  description : Option String
  archivedAt : Option Int
  deriving DecidableEq, Repr

inductive MilestoneState where
  | «open»
  | closed
  deriving DecidableEq, Repr

structure Milestone where
  id : MilestoneId
  repositoryId : RepositoryId
  title : String
  description : Option String
  dueOn : Option Int
  state : MilestoneState
  deriving DecidableEq, Repr

/-- Everything before the last `/` of a name. -/
def scopeOf (name : String) : Option String :=
  match name.toList.reverse.dropWhile (· ≠ '/') with
  | [] => none
  | _ :: before => some (String.ofList before.reverse)

def labelsToUnapplyForScope (currentlyApplied : List Label) (newLabel : Label) : List Label :=
  match scopeOf newLabel.name with
  -- a label without a scope leaves every other label alone
  | none => []
  | some newScope => currentlyApplied.filter fun existing =>
      existing.id ≠ newLabel.id ∧ scopeOf existing.name = some newScope

theorem mem_labelsToUnapplyForScope {currentlyApplied : List Label} {newLabel label : Label} :
    label ∈ labelsToUnapplyForScope currentlyApplied newLabel ↔
      label ∈ currentlyApplied ∧ label.id ≠ newLabel.id ∧ (scopeOf newLabel.name).isSome ∧
        scopeOf label.name = scopeOf newLabel.name := by
  cases hscope : scopeOf newLabel.name with
  | none => simp [labelsToUnapplyForScope, hscope]
  | some scope => simp [labelsToUnapplyForScope, hscope]

example : scopeOf "area/backend/db" = some "area/backend" := by decide +kernel

end Edda.Domain
