import Edda.Domain.BranchProtection
import Edda.Git.History

/-!
# Receive hooks

The checks a push is evaluated against: the direct-push block and the size quota before its pack
is promoted, and the shape of the added history (linear, signed) afterwards. An inspection that is
inconclusive accepts the push.

`historyRejection_eq_none` lists what a push that passed the last check is known to satisfy.
-/

set_option autoImplicit false

namespace Edda.Git

open Edda.Domain

/-- One ref-update command of a push, as it is read off the wire. -/
structure RefCommand where
  oldId : String
  newId : String
  refName : String
  deriving DecidableEq, Repr

/-- The resolved branch-protection and quota state of a push. The caller has removed the rules
the pusher bypasses. -/
structure ReceiveChecks where
  blockedRefPatterns : List String
  linearHistoryRefPatterns : List String
  signedCommitRefPatterns : List String
  maxRepoBytes : Option Nat
  currentRepoBytes : Nat
  deriving DecidableEq, Repr

/-- `ReceiveChecks::default`. -/
def ReceiveChecks.default : ReceiveChecks := ⟨[], [], [], none, 0⟩

def ReceiveChecks.isEmpty (checks : ReceiveChecks) : Bool :=
  checks.blockedRefPatterns.isEmpty && checks.linearHistoryRefPatterns.isEmpty &&
    checks.signedCommitRefPatterns.isEmpty && checks.maxRepoBytes.isNone

/-- One ref update that landed. -/
structure AppliedRef where
  name : String
  old : String
  new : String
  deriving DecidableEq, Repr

def anyPatternMatches (patterns : List String) (refName : String) : Bool :=
  patterns.any fun pattern => branchPatternMatches pattern refName

/-- `u64::MAX`. -/
def maxU64 : Nat := 2 ^ 64 - 1

def quotaRejection (checks : ReceiveChecks) (incomingPackBytes : Nat) : Option String :=
  match checks.maxRepoBytes with
  | none => none
  | some max =>
    let projected := min (checks.currentRepoBytes + incomingPackBytes) maxU64
    if max < projected then
      some ("push rejected: it would grow the repository to about " ++ toString projected ++
        " bytes, past the configured " ++ toString max ++ "-byte limit")
    else none

def blockedRefRejection (checks : ReceiveChecks) (commands : List RefCommand) : Option String :=
  commands.findSome? fun command =>
    if anyPatternMatches checks.blockedRefPatterns command.refName then
      some (command.refName ++ ": protected branch — open a pull request instead")
    else none

section History

variable (content : ObjectId → Object) (store : Store) (checks : ReceiveChecks)

/-- The linear-history check of one command. -/
def linearRejection (command : RefCommand) (added : AddedCommits) : Option String :=
  if added.isFastForward = false then
    some (command.refName ++ ": non-fast-forward push to a linear-history branch")
  else if added.truncated then none
  else (added.commits.find? (isMergeCommit content store)).map fun id =>
    command.refName ++ ": merge commit " ++ id.toHex ++
      " — this branch requires a linear history"

/-- The signed-commit check of one command. -/
def signedRejection (command : RefCommand) (added : AddedCommits) : Option String :=
  if added.truncated then none
  else (added.commits.find? fun id => !commitIsSigned content store id).map fun id =>
    command.refName ++ ": commit " ++ id.toHex ++
      " is unsigned — this branch requires signed commits"

/-- The history checks of one command. -/
def commandRejection (command : RefCommand) : Option String :=
  let needsLinear := anyPatternMatches checks.linearHistoryRefPatterns command.refName
  let needsSigned := anyPatternMatches checks.signedCommitRefPatterns command.refName
  if command.newId = zeroId then none
  else if !needsLinear && !needsSigned then none
  else match addedCommits content store command.oldId command.newId with
    | .error _ => none
    | .ok added =>
      (if needsLinear then linearRejection content store command added else none).or
        (if needsSigned then signedRejection content store command added else none)

def historyRejection (commands : List RefCommand) : Option String :=
  commands.findSome? (commandRejection content store checks)

/-- What a command that passed the history checks satisfies. -/
structure HistoryAccepted (command : RefCommand) (added : AddedCommits) : Prop where
  fastForward : anyPatternMatches checks.linearHistoryRefPatterns command.refName = true →
    added.isFastForward = true
  linear : anyPatternMatches checks.linearHistoryRefPatterns command.refName = true →
    added.truncated = false → ∀ id ∈ added.commits, isMergeCommit content store id = false
  signed : anyPatternMatches checks.signedCommitRefPatterns command.refName = true →
    added.truncated = false → ∀ id ∈ added.commits, commitIsSigned content store id = true

theorem linearRejection_eq_none {command : RefCommand} {added : AddedCommits}
    (h : linearRejection content store command added = none) :
    added.isFastForward = true ∧
      (added.truncated = false → ∀ id ∈ added.commits, isMergeCommit content store id = false) := by
  unfold linearRejection at h
  split at h
  · exact absurd h (by simp)
  · rename_i hff
    refine ⟨by simpa using hff, fun htruncated id hid => ?_⟩
    rw [if_neg (by simp [htruncated]), Option.map_eq_none_iff, List.find?_eq_none] at h
    simpa using h id hid

theorem signedRejection_eq_none {command : RefCommand} {added : AddedCommits}
    (h : signedRejection content store command added = none) (htruncated : added.truncated = false) :
    ∀ id ∈ added.commits, commitIsSigned content store id = true := by
  intro id hid
  unfold signedRejection at h
  rw [if_neg (by simp [htruncated]), Option.map_eq_none_iff, List.find?_eq_none] at h
  simpa using h id hid

/-- A push that passed the history checks satisfies them for each of its commands that writes a
value and could be inspected. -/
theorem historyRejection_eq_none {commands : List RefCommand}
    (h : historyRejection content store checks commands = none) {command : RefCommand}
    (hmem : command ∈ commands) (hnew : command.newId ≠ zeroId) {added : AddedCommits}
    (hadded : addedCommits content store command.oldId command.newId = .ok added) :
    HistoryAccepted content store checks command added := by
  have hone := List.findSome?_eq_none_iff.1 h command hmem
  simp only [commandRejection, if_neg hnew, hadded] at hone
  split at hone
  · rename_i hneither
    simp only [Bool.and_eq_true, Bool.not_eq_true'] at hneither
    exact ⟨fun hl => absurd hl (by simp [hneither.1]), fun hl => absurd hl (by simp [hneither.1]),
      fun hs => absurd hs (by simp [hneither.2])⟩
  · obtain ⟨hlinear, hsigned⟩ := Option.or_eq_none_iff.1 hone
    refine ⟨fun hl => ?_, fun hl => ?_, fun hs => ?_⟩
    · rw [if_pos hl] at hlinear
      exact (linearRejection_eq_none content store hlinear).1
    · rw [if_pos hl] at hlinear
      exact (linearRejection_eq_none content store hlinear).2
    · rw [if_pos hs] at hsigned
      exact signedRejection_eq_none content store hsigned

end History

/-- Empty checks reject nothing. -/
theorem blockedRefRejection_of_isEmpty {checks : ReceiveChecks} (h : checks.isEmpty = true)
    (commands : List RefCommand) : blockedRefRejection checks commands = none := by
  simp only [ReceiveChecks.isEmpty, Bool.and_eq_true, List.isEmpty_iff] at h
  simp [blockedRefRejection, anyPatternMatches, h.1.1.1]

theorem quotaRejection_of_isEmpty {checks : ReceiveChecks} (h : checks.isEmpty = true)
    (incomingPackBytes : Nat) : quotaRejection checks incomingPackBytes = none := by
  simp only [ReceiveChecks.isEmpty, Bool.and_eq_true, Option.isNone_iff_eq_none] at h
  simp [quotaRejection, h.2]

end Edda.Git
