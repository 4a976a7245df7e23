import Edda.App.PullRequestService
import Edda.Support.Table

/-!
# The repository list

`GET /api/v1/repos` lists every repository that is public or that the user has a direct grant on.
The other routes ask the authorization service, which also counts the grants through teams and the
scope of a token.

`list_agrees_iff` says when the list has the repositories that the actor may read, with the mark of
the owner on those whose danger zone is the actor's.
-/

set_option autoImplicit false

namespace Edda.App.RepositoryList

open Edda.Domain Edda.Db Edda.Auth Edda.Git Edda.Support

variable {σ : Type}

/-- An entry of the list, with what the repository on disk was read to be. -/
structure RepoDto (σ : Type) where
  owner : String
  name : String
  isPrivate : Bool
  isOwner : Bool
  summary : σ
  deriving DecidableEq, Repr

def repoDto (row : RepositoryRow) (summary : σ) (isOwner : Bool) : RepoDto σ where
  owner := row.ownerUsername
  name := row.repository.name
  isPrivate := row.repository.isPrivate
  isOwner := isOwner
  summary := summary

/-- The role in a map that was collected from pairs. A later pair replaces an earlier one. -/
def roleOf (roles : List (RepositoryId × RepoRole)) (id : RepositoryId) : Option RepoRole :=
  (roles.reverse.find? fun role => role.1 = id).map Prod.snd

section List

variable (repoSummary : String → Except GitError σ)

/-- The entries. A repository that cannot be read from disk fails the request. -/
def listRows (roles : List (RepositoryId × RepoRole)) :
    List RepositoryRow → Except ServiceError (List (RepoDto σ))
  | [] => .ok []
  | row :: rows =>
    let role := roleOf roles row.repository.id
    if row.repository.isPrivate = true ∧ role.isNone then listRows roles rows
    else match repoSummary (gitIdentity row.ownerUsername row.repository.name) with
      | .error err => .error (.git err)
      | .ok summary => match listRows roles rows with
        | .error err => .error err
        | .ok visible => .ok (repoDto row summary (decide (role = some .owner)) :: visible)

def list (db : Database) (actor : ActorContext) : Except ServiceError (List (RepoDto σ)) :=
  match db.listAllWithOwnerUsername with
  | .error err => .error (.db err)
  | .ok rows => match actor.userId with
    | none => listRows repoSummary [] rows
    | some userId => match db.rolesForUser userId with
      | .error err => .error (.db err)
      | .ok roles => listRows repoSummary roles rows

end List

/-! ## What the list is to have -/

/-- What names a repository in a list. -/
def RepoDto.key (dto : RepoDto σ) : String × String := (dto.owner, dto.name)

def rowKey (row : RepositoryRow) : String × String := (row.ownerUsername, row.repository.name)

section Agrees

variable (repoSummary : String → Except GitError σ) (db : Database) (actor : ActorContext)

def readable (row : RepositoryRow) : Bool := decide (checkRead db actor row.repository = .ok ())

def ownedBy (row : RepositoryRow) : Bool := decide (checkDangerZone db actor row.repository = .ok ())

/-- The list has exactly the repositories that the actor may read, and the mark on exactly those
whose danger zone is the actor's. -/
def Agrees : Prop :=
  ∃ dtos, list repoSummary db actor = .ok dtos ∧
    dtos.map (fun dto => (dto.key, dto.isOwner)) =
      (db.allRepositories.filter (readable db actor)).map fun row =>
        (rowKey row, ownedBy db actor row)

/-- The direct grant of the acting user. -/
def directRole (id : RepositoryId) : Option RepoRole :=
  actor.userId.bind fun userId => (db.repoAccess.find? fun access =>
    access.repositoryId = id ∧ access.subject = .user userId).map RepoAccess.role

/-- The grants of the acting user through teams. -/
def teamRoles (id : RepositoryId) : List RepoRole :=
  match actor.userId with
  | none => []
  | some userId => (db.repoAccess.filter fun access => access.repositoryId = id ∧
      ∃ member ∈ db.teamMembers, access.subject = .team member.1 ∧ member.2 = userId).map
      RepoAccess.role

/-- Neither the scope of a token nor a team makes a difference to what the actor sees of a
repository. -/
structure DirectSuffices (repository : Repository) : Prop where
  scope : (repository.isPrivate = true ∧ (directRole db actor repository.id).isSome) ∨
    directRole db actor repository.id = some .owner → tokenScopePermits actor repository = true
  read : tokenScopePermits actor repository = true → repository.isPrivate = true →
    teamRoles db actor repository.id ≠ [] → (directRole db actor repository.id).isSome
  owner : tokenScopePermits actor repository = true →
    RepoRole.owner ∈ teamRoles db actor repository.id →
      directRole db actor repository.id = some .owner

end Agrees

/-! ## The access of an actor -/

section Access

variable {db : Database} {actor : ActorContext} {repository : Repository}

theorem accessFor_eq (hreads : ∀ query, db.failing query = none) :
    accessFor db actor repository = .ok ((effectiveRepoRole (directRole db actor repository.id)
      (teamRoles db actor repository.id)).map fun role =>
        ⟨repository.id, .user (actor.userId.getD 0), role⟩) := by
  rw [accessFor, directRole, teamRoles]
  cases actor.userId with
  | none => rfl
  | some userId =>
    simp only [Database.findAccess, Database.teamRolesForUser,
      Database.read_of_not_failing (hreads _), Option.bind_some, Option.getD_some]

/-- Who may read, by the grants. -/
theorem checkRead_eq_ok (hreads : ∀ query, db.failing query = none)
    (hactor : ∀ id readOnly, actor ≠ .deployKey id readOnly) :
    checkRead db actor repository = .ok () ↔ repository.isPrivate = false ∨
      (((directRole db actor repository.id).isSome ∨ teamRoles db actor repository.id ≠ []) ∧
        tokenScopePermits actor repository = true) := by
  rw [checkRead, checkWith, accessFor_eq hreads, ← effectiveRepoRole_isSome]
  cases actor with
  | deployKey id readOnly => exact absurd rfl (hactor id readOnly)
  | _ =>
    cases hprivate : repository.isPrivate <;>
      simp [canReadRepository, hprivate]

/-- Whose the danger zone is, by the grants. -/
theorem checkDangerZone_eq_ok (hreads : ∀ query, db.failing query = none)
    (hactor : ∀ id readOnly, actor ≠ .deployKey id readOnly) :
    checkDangerZone db actor repository = .ok () ↔
      (directRole db actor repository.id = some .owner ∨
        RepoRole.owner ∈ teamRoles db actor repository.id) ∧
      tokenScopePermits actor repository = true := by
  have howner : ∀ role : RepoRole, RepoRole.owner ≤ role ↔ role = .owner := by
    intro role
    cases role <;> decide
  rw [checkDangerZone, checkWith, accessFor_eq hreads, ← effectiveRepoRole_eq_owner]
  generalize effectiveRepoRole (directRole db actor repository.id)
    (teamRoles db actor repository.id) = effective
  cases actor with
  | deployKey id readOnly => exact absurd rfl (hactor id readOnly)
  | _ =>
    cases effective with
    | none => simp [canManageRepositoryDangerZone, requireRole]
    | some role =>
      simp only [canManageRepositoryDangerZone, requireRole, Option.map_some, Option.some.injEq,
        howner]
      split
      · rename_i hscope
        simp [hscope]
      · rename_i hscope
        rw [Bool.not_eq_false] at hscope
        split
        · rename_i hrole
          simp [hrole, hscope]
        · rename_i hrole
          simp [hrole]

/-- The role that the list finds for a repository is the direct grant of the user on it. -/
theorem roleOf_grantsOf
    (hgrants : Table.Keyed (fun access => (access.repositoryId, access.subject)) db.repoAccess)
    {userId : UserId} (huser : actor.userId = some userId) (id : RepositoryId) :
    roleOf (db.grantsOf userId) id = directRole db actor id := by
  have hdirect : directRole db actor id = (Table.lookup
      (fun access : RepoAccess => (access.repositoryId, access.subject)) db.repoAccess
      (id, .user userId)).map RepoAccess.role := by
    rw [directRole, huser, Option.bind_some, Table.lookup]
    simp only [Prod.mk.injEq]
  have hmem : ∀ role, (id, role) ∈ db.grantsOf userId ↔
      ⟨id, .user userId, role⟩ ∈ db.repoAccess := by
    intro role
    simp only [Database.grantsOf, List.mem_map, List.mem_filter, decide_eq_true_eq]
    constructor
    · rintro ⟨⟨id', subject, role'⟩, ⟨hrow, rfl⟩, hpair⟩
      obtain ⟨rfl, rfl⟩ := Prod.mk.inj hpair
      exact hrow
    · intro hrow
      exact ⟨_, ⟨hrow, rfl⟩, rfl⟩
  rw [hdirect, roleOf]
  cases hfind : (db.grantsOf userId).reverse.find? fun role => role.1 = id with
  | none =>
    cases hlookup : Table.lookup
        (fun access : RepoAccess => (access.repositoryId, access.subject)) db.repoAccess
        (id, .user userId) with
    | none => rfl
    | some access =>
      obtain ⟨hrow, hkey⟩ := Table.mem_of_lookup hlookup
      obtain ⟨id', subject, role⟩ := access
      obtain ⟨rfl, rfl⟩ := Prod.mk.inj hkey
      have habsent := List.find?_eq_none.1 hfind _ (List.mem_reverse.2 ((hmem role).2 hrow))
      simp at habsent
  | some pair =>
    obtain ⟨id', role⟩ := pair
    have hin := List.mem_reverse.1 (List.mem_of_find?_eq_some hfind)
    obtain rfl : id' = id := by simpa using List.find?_some hfind
    have hlookup := Table.lookup_of_mem hgrants ((hmem role).1 hin)
    rw [hlookup]
    rfl

end Access

/-! ## The list -/

section List

variable {repoSummary : String → Except GitError σ}

/-- Whether the list shows a repository. -/
def shown (roles : List (RepositoryId × RepoRole)) (row : RepositoryRow) : Bool :=
  !row.repository.isPrivate || (roleOf roles row.repository.id).isSome

def summaryOf (repoSummary : String → Except GitError σ) (row : RepositoryRow) :
    Except GitError σ :=
  repoSummary (gitIdentity row.ownerUsername row.repository.name)

/-- The entries are those of the rows that are shown, each read from disk. -/
theorem listRows_eq_ok {roles : List (RepositoryId × RepoRole)} {rows : List RepositoryRow}
    {β : Type} {mark : RepoDto σ → β} (rowMark : RepositoryRow → β)
    (hmark : ∀ row summary, mark (repoDto row summary
      (decide (roleOf roles row.repository.id = some .owner))) = rowMark row) (marks : List β) :
    (∃ dtos, listRows repoSummary roles rows = .ok dtos ∧ dtos.map mark = marks) ↔
      (∀ row ∈ rows, shown roles row = true → ∃ summary, summaryOf repoSummary row = .ok summary) ∧
        (rows.filter (shown roles)).map rowMark = marks := by
  induction rows generalizing marks with
  | nil => simp [listRows]
  | cons row rows ih =>
    have hshown : (row.repository.isPrivate = true ∧
        (roleOf roles row.repository.id).isNone = true) ↔ shown roles row = false := by
      cases hprivate : row.repository.isPrivate <;>
        cases hrole : roleOf roles row.repository.id <;> simp [shown, hprivate, hrole]
    simp only [listRows, hshown, List.mem_cons, forall_eq_or_imp, List.filter_cons]
    cases hrow : shown roles row with
    | false => simpa using ih marks
    | true =>
      simp only [Bool.true_eq_false, if_false, if_true, true_implies, List.map_cons]
      change _ ↔ ((∃ summary, summaryOf repoSummary row = .ok summary) ∧ _) ∧ _
      rw [summaryOf]
      cases repoSummary (gitIdentity row.ownerUsername row.repository.name) with
      | error err => simp
      | ok summary =>
        cases hrest : listRows repoSummary roles rows with
        | error err =>
          have hnone := ih ((rows.filter (shown roles)).map rowMark)
          rw [hrest] at hnone
          constructor
          · rintro ⟨dtos, hdtos, -⟩
            cases hdtos
          · rintro ⟨⟨-, hsummaries⟩, -⟩
            obtain ⟨dtos, hdtos, -⟩ := hnone.2 ⟨hsummaries, rfl⟩
            cases hdtos
        | ok visible =>
          have hvisible := ih (visible.map mark)
          rw [hrest] at hvisible
          obtain ⟨hsummaries, hmarks⟩ := hvisible.1 ⟨visible, rfl, rfl⟩
          constructor
          · rintro ⟨dtos, hdtos, heq⟩
            obtain rfl := Except.ok.inj hdtos
            refine ⟨⟨⟨summary, rfl⟩, hsummaries⟩, ?_⟩
            rw [hmarks, ← heq, List.map_cons, hmark]
          · rintro ⟨-, heq⟩
            exact ⟨_, rfl, by rw [List.map_cons, hmark, ← hmarks, heq]⟩

end List

section Agrees

variable {repoSummary : String → Except GitError σ} {db : Database} {actor : ActorContext}

/-- The direct grant suffices on a repository where it decides as the service does. -/
theorem directSuffices_iff (hreads : ∀ query, db.failing query = none)
    (hactor : ∀ id readOnly, actor ≠ .deployKey id readOnly) {repository : Repository} :
    DirectSuffices db actor repository ↔
      (repository.isPrivate = false ∨ (directRole db actor repository.id).isSome = true ↔
        checkRead db actor repository = .ok ()) ∧
      (repository.isPrivate = false ∨ (directRole db actor repository.id).isSome = true →
        (directRole db actor repository.id = some .owner ↔
          checkDangerZone db actor repository = .ok ())) := by
  rw [checkRead_eq_ok hreads hactor, checkDangerZone_eq_ok hreads hactor]
  have hempty : RepoRole.owner ∈ teamRoles db actor repository.id →
      teamRoles db actor repository.id ≠ [] := List.ne_nil_of_mem
  constructor
  · rintro ⟨hscope, hteam, howner⟩
    cases hprivate : repository.isPrivate <;>
      cases hrole : directRole db actor repository.id <;> grind
  · rintro ⟨hread, hdanger⟩
    refine ⟨?_, ?_, ?_⟩ <;>
      cases hprivate : repository.isPrivate <;>
        cases hrole : directRole db actor repository.id <;> grind

/-- The list agrees with the access rules exactly where, on every repository, the direct grant of the
user says what the actor may see, and every repository that the actor may read can be read from
disk. -/
theorem list_agrees_iff (hreads : ∀ query, db.failing query = none)
    (hactor : ∀ id readOnly, actor ≠ .deployKey id readOnly)
    (hkeys : Table.Keyed rowKey db.repositories)
    (hgrants : Table.Keyed (fun access => (access.repositoryId, access.subject)) db.repoAccess) :
    Agrees repoSummary db actor ↔
      (∀ row ∈ db.repositories, DirectSuffices db actor row.repository) ∧
        ∀ row ∈ db.repositories, checkRead db actor row.repository = .ok () →
          ∃ summary, repoSummary (gitIdentity row.ownerUsername row.repository.name) =
            .ok summary := by
  -- what the list is computed from
  obtain ⟨roles, hlist, hroles⟩ : ∃ roles, list repoSummary db actor =
      listRows repoSummary roles db.allRepositories ∧
        ∀ id, roleOf roles id = directRole db actor id := by
    rw [list, Database.listAllWithOwnerUsername, Database.read_of_not_failing (hreads _)]
    cases huser : actor.userId with
    | none => exact ⟨[], rfl, fun id => by rw [directRole, huser]; rfl⟩
    | some userId =>
      refine ⟨db.grantsOf userId, ?_, roleOf_grantsOf hgrants huser⟩
      simp only [Database.rolesForUser, Database.read_of_not_failing (hreads _)]
  have hsorted : Table.Keyed rowKey db.allRepositories :=
    ((List.perm_insertionSort _ db.repositories).map rowKey).nodup_iff.2 hkeys
  have hrow : ∀ row : RepositoryRow, DirectSuffices db actor row.repository ↔
      shown roles row = readable db actor row ∧ (shown roles row = true →
        decide (roleOf roles row.repository.id = some .owner) = ownedBy db actor row) := by
    intro row
    have hshown : shown roles row = true ↔ row.repository.isPrivate = false ∨
        (directRole db actor row.repository.id).isSome = true := by
      rw [shown, hroles, Bool.or_eq_true, Bool.not_eq_true']
    have hsame : shown roles row = readable db actor row ↔
        (row.repository.isPrivate = false ∨ (directRole db actor row.repository.id).isSome = true ↔
          checkRead db actor row.repository = .ok ()) := by
      rw [Bool.eq_iff_iff, hshown, readable, decide_eq_true_eq]
    rw [directSuffices_iff hreads hactor, hsame, hshown, ownedBy, hroles, decide_eq_decide]
  rw [Agrees, hlist, listRows_eq_ok (fun row =>
    (rowKey row, decide (roleOf roles row.repository.id = some .owner))) (fun row summary => rfl),
    Table.select_eq_iff hsorted]
  simp only [Database.mem_allRepositories]
  constructor
  · rintro ⟨hsummaries, hagree⟩
    refine ⟨fun row hmem => (hrow row).2 (hagree row hmem), ?_⟩
    intro row hmem hok
    refine hsummaries row hmem ?_
    rw [(hagree row hmem).1, readable, decide_eq_true_eq]
    exact hok
  · rintro ⟨hsuffices, hsummaries⟩
    refine ⟨?_, fun row hmem => (hrow row).1 (hsuffices row hmem)⟩
    intro row hmem hshown
    rw [((hrow row).1 (hsuffices row hmem)).1, readable, decide_eq_true_eq] at hshown
    exact hsummaries row hmem hshown

/-- Alice owns a repository, and Bob reads another one through a team. -/
def teamDatabase : Database :=
  { Database.empty with
    repositories := [⟨⟨1, "notes", .«private»⟩, "alice"⟩, ⟨⟨2, "shared", .«private»⟩, "alice"⟩]
    repoAccess := [⟨1, .user 10, .owner⟩, ⟨2, .user 10, .owner⟩, ⟨2, .team 30, .read⟩]
    teamMembers := [(30, 20)] }

/-- For Alice, who is in no team, the list agrees. -/
theorem list_agrees_alice :
    Agrees (fun _ => .ok ()) teamDatabase (.user 10) ↔
      (∀ row ∈ teamDatabase.repositories, DirectSuffices teamDatabase (.user 10) row.repository) ∧
        ∀ row ∈ teamDatabase.repositories,
          checkRead teamDatabase (.user 10) row.repository = .ok () →
            ∃ summary : Unit, (fun _ : String => (.ok () : Except GitError Unit))
              (gitIdentity row.ownerUsername row.repository.name) = .ok summary :=
  list_agrees_iff (fun _ => rfl) (by simp) (by decide +kernel) (by decide +kernel)

/-- Bob may read the repository that he reaches through his team, and does not see it in the list. -/
theorem team_repository_not_listed :
    ¬ Agrees (fun _ => .ok ()) teamDatabase (.user 20) ∧
      list (fun _ => .ok ()) teamDatabase (.user 20) = .ok [] ∧
      checkRead teamDatabase (.user 20) ⟨2, "shared", .«private»⟩ = .ok () := by
  have hlist : list (fun _ => .ok ()) teamDatabase (.user 20) = .ok [] := by decide +kernel
  have hread : checkRead teamDatabase (.user 20) ⟨2, "shared", .«private»⟩ = .ok () := by
    decide +kernel
  refine ⟨?_, hlist, hread⟩
  rintro ⟨dtos, hdtos, heq⟩
  obtain rfl := Except.ok.inj (hlist.symm.trans hdtos)
  have hmem : (("alice", "shared"), ownedBy teamDatabase (.user 20)
      ⟨⟨2, "shared", .«private»⟩, "alice"⟩) ∈ ([] : List ((String × String) × Bool)) := by
    rw [List.map_nil] at heq
    rw [heq]
    refine List.mem_map.2 ⟨⟨⟨2, "shared", .«private»⟩, "alice"⟩, List.mem_filter.2 ⟨?_, ?_⟩, rfl⟩
    · exact Database.mem_allRepositories.2 (by decide +kernel)
    · exact decide_eq_true hread
  cases hmem

end Agrees

end Edda.App.RepositoryList
