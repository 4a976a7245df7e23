import Edda.Domain.PullRequest

/-!
# Repository access

The role model and the pure functions that decide whether an actor may read, write or administer a
repository, or merge a pull request into it. They are given the grant of the actor that applies to
the repository, if there is one.

`canMergePullRequest_eq_ok` says what an allowed merge is known to satisfy.
-/

set_option autoImplicit false

namespace Edda.Domain

inductive RepoRole where
  | read
  | write
  | admin
  | owner
  deriving DecidableEq, Repr

/-- The rank of a role, from low to high. -/
def RepoRole.rank : RepoRole → Nat
  | .read => 0
  | .write => 1
  | .admin => 2
  | .owner => 3

instance : LE RepoRole := ⟨fun a b => a.rank ≤ b.rank⟩

instance (a b : RepoRole) : Decidable (a ≤ b) := inferInstanceAs (Decidable (a.rank ≤ b.rank))

instance : Max RepoRole := ⟨fun a b => if a ≤ b then b else a⟩

/-- A grant of a role on a repository. -/
structure RepoAccess where
  repositoryId : RepositoryId
  subject : AccessSubject
  role : RepoRole
  deriving DecidableEq, Repr

inductive Visibility where
  | «public»
  | «private»
  deriving DecidableEq, Repr

def Visibility.asDbStr : Visibility → String
  | .public => "public"
  | .private => "private"

def Visibility.fromDbStr (value : String) : Option Visibility :=
  if value = "public" then some .public
  else if value = "private" then some .private
  else none

structure Repository where
  id : RepositoryId
  name : String
  visibility : Visibility
  deriving DecidableEq, Repr

def Repository.isPrivate (repository : Repository) : Bool :=
  decide (repository.visibility = .«private»)

/-- The repositories a bearer token may act against. -/
inductive RepositoryScope where
  | all
  | publicOnly
  | specific (ids : List RepositoryId)
  deriving DecidableEq, Repr

def RepositoryScope.permits (scope : RepositoryScope) (repository : Repository) : Bool :=
  match scope with
  | .all => true
  | .publicOnly => !repository.isPrivate
  | .specific ids => decide (repository.id ∈ ids)

/-- The kinds of operations a token may perform. -/
inductive TokenScope where
  | all
  | repoRead
  | repoWrite
  deriving DecidableEq, Repr

def TokenScope.rank : TokenScope → Nat
  | .repoRead => 0
  | .repoWrite => 1
  | .all => 2

def TokenScope.permits (scope required : TokenScope) : Bool := decide (required.rank ≤ scope.rank)

/-- Who is asking. -/
inductive ActorContext where
  | anonymous
  | user (id : UserId)
  | token (userId : UserId) (scope : RepositoryScope) (tokenScope : TokenScope)
  | deployKey (repositoryId : RepositoryId) (readOnly : Bool)
  deriving DecidableEq, Repr

/-- The acting user; an anonymous request and a deploy key have none. -/
def ActorContext.userId : ActorContext → Option UserId
  | .anonymous => none
  | .user id => some id
  | .token userId _ _ => some userId
  | .deployKey _ _ => none

def ActorContext.permitsTokenScope (actor : ActorContext) (required : TokenScope) : Bool :=
  match actor with
  | .token _ _ tokenScope => tokenScope.permits required
  | _ => true

inductive AuthzError where
  | notFound
  | forbidden
  deriving DecidableEq, Repr

def tokenScopePermits (actor : ActorContext) (repository : Repository) : Bool :=
  match actor with
  | .token _ scope _ => scope.permits repository
  | _ => true

def canReadRepository (actor : ActorContext) (repository : Repository)
    (access : Option RepoAccess) : Except AuthzError Unit :=
  match actor with
  | .deployKey repositoryId _ =>
    if repositoryId = repository.id then .ok () else .error .notFound
  | actor =>
    if repository.isPrivate = false then .ok ()
    else if access.isSome ∧ tokenScopePermits actor repository = true then .ok ()
    else .error .notFound

/-- The error for an actor who need not learn that a private repository exists. -/
def notPermitted (repository : Repository) : AuthzError :=
  if repository.isPrivate then .notFound else .forbidden

def requireRole (actor : ActorContext) (repository : Repository) (access : Option RepoAccess)
    (minimum : RepoRole) : Except AuthzError Unit :=
  match actor, access with
  -- a deploy key never administers
  | .deployKey repositoryId readOnly, _ =>
    if repositoryId = repository.id ∧ readOnly = false ∧ minimum ≤ .write then .ok ()
    else .error (notPermitted repository)
  | _, none => .error (notPermitted repository)
  | actor, some access =>
    if tokenScopePermits actor repository = false then .error (notPermitted repository)
    else if minimum ≤ access.role then .ok ()
    else .error .forbidden

def canWriteRepository (actor : ActorContext) (repository : Repository)
    (access : Option RepoAccess) : Except AuthzError Unit :=
  requireRole actor repository access .write

def canAdministerRepository (actor : ActorContext) (repository : Repository)
    (access : Option RepoAccess) : Except AuthzError Unit :=
  requireRole actor repository access .admin

/-- Deleting a repository and changing its visibility are for its owner alone. -/
def canManageRepositoryDangerZone (actor : ActorContext) (repository : Repository)
    (access : Option RepoAccess) : Except AuthzError Unit :=
  requireRole actor repository access .owner

/-- The highest of a direct grant and the grants through teams. -/
def effectiveRepoRole (direct : Option RepoRole) (teamGrants : List RepoRole) : Option RepoRole :=
  (teamGrants ++ direct.toList).max?

/-- Write access and, where a rule protects the target branch, enough approvals. An administrator
needs them too. -/
def canMergePullRequest (actor : ActorContext) (repository : Repository)
    (protection : Option BranchProtectionRule) (reviews : List PrReview)
    (access : Option RepoAccess) : Except AuthzError Unit :=
  match canWriteRepository actor repository access with
  | .error err => .error err
  | .ok () => match protection with
    | none => .ok ()
    | some rule =>
      if (activeApprovals reviews : Int) < rule.requiredApprovals then .error .forbidden
      else .ok ()

theorem canMergePullRequest_eq_ok {actor : ActorContext} {repository : Repository}
    {protection : Option BranchProtectionRule} {reviews : List PrReview}
    {access : Option RepoAccess} :
    canMergePullRequest actor repository protection reviews access = .ok () ↔
      canWriteRepository actor repository access = .ok () ∧
        ∀ rule ∈ protection, rule.requiredApprovals ≤ (activeApprovals reviews : Int) := by
  simp only [canMergePullRequest]
  cases hwrite : canWriteRepository actor repository access with
  | error err => simp
  | ok _ =>
    cases protection with
    | none => simp
    | some rule =>
      by_cases hfew : (activeApprovals reviews : Int) < rule.requiredApprovals
      · simp [hfew]
      · simp [hfew, not_lt.1 hfew]

theorem RepoRole.max_eq_owner {a b : RepoRole} : max a b = .owner ↔ a = .owner ∨ b = .owner := by
  cases a <;> cases b <;> decide

theorem effectiveRepoRole_isSome {direct : Option RepoRole} {teamGrants : List RepoRole} :
    (effectiveRepoRole direct teamGrants).isSome ↔ direct.isSome ∨ teamGrants ≠ [] := by
  cases teamGrants with
  | nil => cases direct <;> simp [effectiveRepoRole, List.max?]
  | cons role teamGrants => simp [effectiveRepoRole, List.max?]

/-- The effective role is the owner's when one of the grants makes the owner. -/
theorem effectiveRepoRole_eq_owner {direct : Option RepoRole} {teamGrants : List RepoRole} :
    effectiveRepoRole direct teamGrants = some .owner ↔
      direct = some .owner ∨ RepoRole.owner ∈ teamGrants := by
  have hfold : ∀ (roles : List RepoRole) (role : RepoRole),
      roles.foldl max role = .owner ↔ role = .owner ∨ RepoRole.owner ∈ roles := by
    intro roles
    induction roles with
    | nil => simp
    | cons other roles ih =>
      intro role
      rw [List.foldl_cons, ih, RepoRole.max_eq_owner, List.mem_cons, or_assoc]
      simp only [eq_comm]
  have hmem : effectiveRepoRole direct teamGrants = some .owner ↔
      RepoRole.owner ∈ teamGrants ++ direct.toList := by
    rw [effectiveRepoRole]
    cases teamGrants ++ direct.toList with
    | nil => simp
    | cons role roles =>
      rw [List.max?, Option.some.injEq, hfold, List.mem_cons]
      simp only [eq_comm]
  rw [hmem, List.mem_append, Option.mem_toList]
  exact or_comm

end Edda.Domain
