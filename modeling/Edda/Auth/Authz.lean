import Edda.Db.Database
import Edda.Git.Hooks

/-!
# The authorization service

Reads what a decision needs and calls the function that decides. Where a read fails, the target
counts as not found.

`resolveReceiveChecks_eq_ok` says which rules a push of an actor who does not administer the
repository is checked against.
-/

set_option autoImplicit false

namespace Edda.Auth

open Edda.Domain Edda.Db Edda.Git

section Authz

variable (db : Database) (actor : ActorContext) (repository : Repository)

def repositoryByName (ownerUsername name : String) : Except AuthzError Repository :=
  match db.findByOwnerUsernameAndName ownerUsername name with
  | .error _ => .error .notFound
  | .ok none => .error .notFound
  | .ok (some repository) => .ok repository

/-- The effective access of the actor, through a direct grant or through teams. -/
def accessFor : Except AuthzError (Option RepoAccess) :=
  match actor.userId with
  | none => .ok none
  | some userId => match db.findAccess repository.id (.user userId) with
    | .error _ => .error .notFound
    | .ok direct => match db.teamRolesForUser repository.id userId with
      | .error _ => .error .notFound
      | .ok teamRoles =>
        .ok ((effectiveRepoRole (direct.map RepoAccess.role) teamRoles).map fun role =>
          ⟨repository.id, .user userId, role⟩)

/-- Reads the access of the actor, and decides. -/
def checkWith (decision : Option RepoAccess → Except AuthzError Unit) : Except AuthzError Unit :=
  match accessFor db actor repository with
  | .error err => .error err
  | .ok access => decision access

def checkRead : Except AuthzError Unit :=
  checkWith db actor repository (canReadRepository actor repository)

def checkWrite : Except AuthzError Unit :=
  checkWith db actor repository (canWriteRepository actor repository)

def checkAdminister : Except AuthzError Unit :=
  checkWith db actor repository (canAdministerRepository actor repository)

def checkDangerZone : Except AuthzError Unit :=
  checkWith db actor repository (canManageRepositoryDangerZone actor repository)

def checkMergePullRequest (targetBranch : String) (reviews : List PrReview) :
    Except AuthzError Unit :=
  checkWith db actor repository fun access =>
    match db.findMatching .findMatchingRule repository.id targetBranch with
    | .error _ => .error .notFound
    | .ok protection => canMergePullRequest actor repository protection reviews access

/-- The pattern of a rule as it is matched against ref names. -/
def refGlob (rule : BranchProtectionRule) : String := "refs/heads/" ++ rule.pattern

/-- Whether a rule lets the actor push directly. -/
def allowlisted (rule : BranchProtectionRule) : Bool :=
  actor.userId.any fun userId => rule.allowsDirectPush (.user userId)

/-- The checks that the rules of a repository ask of a push. -/
def ruleChecks (rules : List BranchProtectionRule) (maxRepoBytes : Option Nat)
    (currentRepoBytes : Nat) : ReceiveChecks where
  blockedRefPatterns := (rules.filter fun rule => !allowlisted actor rule).map refGlob
  linearHistoryRefPatterns := (rules.filter BranchProtectionRule.requireLinearHistory).map refGlob
  signedCommitRefPatterns := (rules.filter BranchProtectionRule.requireSignedCommits).map refGlob
  maxRepoBytes := maxRepoBytes
  currentRepoBytes := currentRepoBytes

/-- What a push of the actor is checked against. An administrator bypasses the rules, but not the
size quota. A limit that is not positive is none. -/
def resolveReceiveChecks (maxRepoBytes : Option Int) : Except AuthzError ReceiveChecks :=
  match db.repoSize repository.id with
  | .error _ => .error .notFound
  | .ok size =>
    let current := (size.getD 0).toNat
    let limit := (maxRepoBytes.filter fun limit => 0 < limit).map Int.toNat
    match checkAdminister db actor repository with
    | .ok () => .ok (ruleChecks actor [] limit current)
    | .error _ => match db.listRulesForRepository repository.id with
      | .error _ => .error .notFound
      | .ok rules => .ok (ruleChecks actor rules limit current)

variable {db actor repository}

/-- An actor who does not administer the repository is held to all its rules. -/
theorem resolveReceiveChecks_eq_ok {maxRepoBytes : Option Int} {checks : ReceiveChecks}
    (hadmin : checkAdminister db actor repository ≠ .ok ())
    (h : resolveReceiveChecks db actor repository maxRepoBytes = .ok checks) :
    ∃ limit current, checks = ruleChecks actor (db.rulesOf repository.id) limit current := by
  simp only [resolveReceiveChecks] at h
  split at h
  · exact absurd h (by simp)
  · split at h
    · rename_i hok
      exact absurd hok hadmin
    · split at h
      · exact absurd h (by simp)
      · rename_i rules hrules
        obtain rfl := db.read_eq_ok hrules
        exact ⟨_, _, (Except.ok.inj h).symm⟩

theorem checkMergePullRequest_eq_ok {targetBranch : String} {reviews : List PrReview}
    (h : checkMergePullRequest db actor repository targetBranch reviews = .ok ()) :
    ∃ access, accessFor db actor repository = .ok access ∧
      canMergePullRequest actor repository (db.matchingRule repository.id targetBranch) reviews
        access = .ok () := by
  simp only [checkMergePullRequest, checkWith] at h
  split at h
  · exact absurd h (by simp)
  · rename_i access haccess
    split at h
    · exact absurd h (by simp)
    · rename_i protection hprotection
      obtain rfl := db.read_eq_ok hprotection
      exact ⟨access, haccess, h⟩

end Authz

end Edda.Auth
