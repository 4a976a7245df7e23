import Edda.Domain.Access

/-!
# The database

The tables that an authorization decision and a merge read, as lists of rows, and the queries on
them. A query that sorts is stable, so that rows of equal keys come back in the order in which the
table lists them; a statement about every database is one about every such order. Any query can
fail.
-/

set_option autoImplicit false

namespace Edda.Db

open Edda.Domain

/-- The text of a database error. -/
abbrev DbError := String

structure User where
  id : UserId
  username : String
  email : String
  deriving DecidableEq, Repr

/-- A repository with the name of the user or organization that owns it. -/
structure RepositoryRow where
  repository : Repository
  ownerUsername : String
  deriving DecidableEq, Repr

/-- The queries, one for each place that makes one. -/
inductive Query where
  | findUser
  | findRepository
  | findAccess
  | teamRoles
  | repoSize
  | listRules
  | findPullRequest
  | listReviews
  | findMatchingRule
  | findMatchingChecks
  | findHeadRepository
  | listStatuses
  | findImportRepository
  | recordMerge
  | listRepositories
  | rolesForUser
  deriving DecidableEq, Repr

/-- The tables. `collation` is the order of texts, and `failing` the queries that fail. -/
structure Database where
  users : List User
  repositories : List RepositoryRow
  repoAccess : List RepoAccess
  teamMembers : List (TeamId × UserId)
  repoSizes : List (RepositoryId × Int)
  branchProtectionRules : List (RepositoryId × BranchProtectionRule)
  pullRequests : List PullRequest
  prReviews : List PrReview
  commitStatuses : List CommitStatus
  collation : String → String → Bool
  failing : Query → Option DbError

/-- A database without rows. -/
def Database.empty : Database where
  users := []
  repositories := []
  repoAccess := []
  teamMembers := []
  repoSizes := []
  branchProtectionRules := []
  pullRequests := []
  prReviews := []
  commitStatuses := []
  collation := fun a b => decide (a ≤ b)
  failing := fun _ => none

variable (db : Database)

/-- The result of a query, unless it fails. -/
def Database.read {α : Type} (query : Query) (value : α) : Except DbError α :=
  match db.failing query with
  | some err => .error err
  | none => .ok value

theorem Database.read_eq_ok {α : Type} {query : Query} {value result : α}
    (h : db.read query value = .ok result) : result = value := by
  simp only [Database.read] at h
  split at h
  · exact absurd h (by simp)
  · exact (Except.ok.inj h).symm

def Database.findUserById (id : UserId) : Except DbError (Option User) :=
  db.read .findUser (db.users.find? fun user => user.id = id)

def Database.findByOwnerUsernameAndName (ownerUsername name : String) :
    Except DbError (Option Repository) :=
  db.read .findRepository ((db.repositories.find? fun row =>
    row.ownerUsername = ownerUsername ∧ row.repository.name = name).map RepositoryRow.repository)

/-- A repository by its id, with the name of its owner. -/
def Database.findByIdWithOwnerUsername (query : Query) (id : RepositoryId) :
    Except DbError (Option RepositoryRow) :=
  db.read query (db.repositories.find? fun row => row.repository.id = id)

/-- The grant made to a subject on a repository. -/
def Database.findAccess (repositoryId : RepositoryId) (subject : AccessSubject) :
    Except DbError (Option RepoAccess) :=
  db.read .findAccess (db.repoAccess.find? fun access =>
    access.repositoryId = repositoryId ∧ access.subject = subject)

/-- The roles that a user has on a repository through teams. -/
def Database.teamRolesForUser (repositoryId : RepositoryId) (userId : UserId) :
    Except DbError (List RepoRole) :=
  db.read .teamRoles ((db.repoAccess.filter fun access =>
    access.repositoryId = repositoryId ∧
      ∃ member ∈ db.teamMembers, access.subject = .team member.1 ∧ member.2 = userId).map
    RepoAccess.role)

/-- The direct grants of a user, on all repositories. -/
def Database.grantsOf (userId : UserId) : List (RepositoryId × RepoRole) :=
  (db.repoAccess.filter fun access => access.subject = .user userId).map fun access =>
    (access.repositoryId, access.role)

def Database.rolesForUser (userId : UserId) : Except DbError (List (RepositoryId × RepoRole)) :=
  db.read .rolesForUser (db.grantsOf userId)

/-- Every repository, in the order of owners and names. -/
def Database.allRepositories : List RepositoryRow :=
  db.repositories.insertionSort fun a b =>
    if a.ownerUsername = b.ownerUsername then
      db.collation a.repository.name b.repository.name = true
    else db.collation a.ownerUsername b.ownerUsername = true

def Database.listAllWithOwnerUsername : Except DbError (List RepositoryRow) :=
  db.read .listRepositories db.allRepositories

/-- The bytes that a repository was last measured at. -/
def Database.repoSize (repositoryId : RepositoryId) : Except DbError (Option Int) :=
  db.read .repoSize ((db.repoSizes.find? fun size => size.1 = repositoryId).map Prod.snd)

/-- The rules of a repository in the order of their patterns. -/
def Database.rulesOf (repositoryId : RepositoryId) : List BranchProtectionRule :=
  ((db.branchProtectionRules.filter fun row => row.1 = repositoryId).map Prod.snd).insertionSort
    fun a b => db.collation a.pattern b.pattern = true

def Database.listRulesForRepository (repositoryId : RepositoryId) :
    Except DbError (List BranchProtectionRule) :=
  db.read .listRules (db.rulesOf repositoryId)

/-- The first rule, in the order of the patterns, whose pattern matches the branch. -/
def Database.matchingRule (repositoryId : RepositoryId) (branch : String) :
    Option BranchProtectionRule :=
  (db.rulesOf repositoryId).find? fun rule => branchPatternMatches rule.pattern branch

def Database.findMatching (query : Query) (repositoryId : RepositoryId) (branch : String) :
    Except DbError (Option BranchProtectionRule) :=
  db.read query (db.matchingRule repositoryId branch)

def Database.findPullRequest (repositoryId : RepositoryId) (number : Int) :
    Except DbError (Option PullRequest) :=
  db.read .findPullRequest (db.pullRequests.find? fun pr =>
    pr.repositoryId = repositoryId ∧ pr.number = number)

/-- Every review of a pull request, oldest first. -/
def Database.reviewsOf (pullRequestId : PullRequestId) : List PrReview :=
  (db.prReviews.filter fun review => review.pullRequestId = pullRequestId).insertionSort
    fun a b => a.createdAt ≤ b.createdAt

def Database.listReviews (pullRequestId : PullRequestId) : Except DbError (List PrReview) :=
  db.read .listReviews (db.reviewsOf pullRequestId)

/-- Every status of a commit, newest first. -/
def Database.statusesOf (repositoryId : RepositoryId) (commitSha : String) : List CommitStatus :=
  (db.commitStatuses.filter fun status =>
    status.repositoryId = repositoryId ∧ status.commitSha = commitSha).insertionSort
    fun a b => b.updatedAt ≤ a.updatedAt

def Database.listForCommit (repositoryId : RepositoryId) (commitSha : String) :
    Except DbError (List CommitStatus) :=
  db.read .listStatuses (db.statusesOf repositoryId commitSha)

variable {db}

theorem Database.read_of_not_failing {α : Type} {query : Query} (h : db.failing query = none)
    (value : α) : db.read query value = .ok value := by
  rw [Database.read, h]

theorem Database.mem_allRepositories {row : RepositoryRow} :
    row ∈ db.allRepositories ↔ row ∈ db.repositories := by
  simp [Database.allRepositories]

theorem Database.mem_rulesOf {repositoryId : RepositoryId} {rule : BranchProtectionRule} :
    rule ∈ db.rulesOf repositoryId ↔ (repositoryId, rule) ∈ db.branchProtectionRules := by
  simp [Database.rulesOf]

theorem Database.mem_statusesOf {repositoryId : RepositoryId} {commitSha : String}
    {status : CommitStatus} :
    status ∈ db.statusesOf repositoryId commitSha ↔
      status ∈ db.commitStatuses ∧ status.repositoryId = repositoryId ∧
        status.commitSha = commitSha := by
  simp [Database.statusesOf]

/-- The matching rule is one of the rules of the repository, and matches. -/
theorem Database.matchingRule_eq_some {repositoryId : RepositoryId} {branch : String}
    {rule : BranchProtectionRule} (h : db.matchingRule repositoryId branch = some rule) :
    rule ∈ db.rulesOf repositoryId ∧ branchPatternMatches rule.pattern branch = true :=
  ⟨List.mem_of_find?_eq_some h, by simpa using List.find?_some h⟩

end Edda.Db
