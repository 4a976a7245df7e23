import Edda.App.PullRequestService
import Edda.App.PushTransports
import Edda.Git.RepoDirectory
import Edda.Support.Table

/-!
# Creating, forking and deleting repositories

A repository is a row and a directory. `create` and `fork` make the directory first and insert the
row then; `delete` removes the directory first and the row then. Each is one request here, of which
any one step can fail.

`inStep_iff` says which failures leave every row with a usable directory and let the request go
through when it is made again.
-/

set_option autoImplicit false

namespace Edda.App.RepositoryService

open Edda.Domain Edda.Domain.Validation Edda.Db Edda.Auth Edda.Git Edda.Support
  Edda.Support.FileTree Edda.Support.RustText

abbrev OrganizationId := BitVec 128

structure Organization where
  id : OrganizationId
  name : String
  deriving DecidableEq, Repr

structure Team where
  id : TeamId
  organizationId : OrganizationId
  name : String
  deriving DecidableEq, Repr

structure NewRepository where
  name : String
  «private» : Bool
  /-- `none` is the caller's own namespace. -/
  owner : Option String
  deriving DecidableEq, Repr

inductive Request where
  | create (spec : NewRepository)
  | fork (owner name : String)
  | delete (owner name : String)
  deriving DecidableEq, Repr

/-- The one step of a request that fails: a query before the directory is touched, a step in the
file system, which leaves `left` at the identity, or the statement that writes the row. -/
inductive Fault where
  | read (err : ServiceError)
  | directory (err : GitError) (left : Option RepoDir)
  | row (err : DbError)

abbrev Dirs := String → Option RepoDir

/-- The rows and the directories. `maxUserRepos` is `EDDA_MAX_USER_REPOS`. -/
structure State where
  db : Database
  organizations : List Organization
  teams : List Team
  accounts : UserId → Option AccountStatus
  registration : RegistrationPolicy
  maxUserRepos : Option Nat
  dirs : Dirs

def rowIdentity (row : RepositoryRow) : String := gitIdentity row.ownerUsername row.repository.name

def rowId (row : RepositoryRow) : RepositoryId := row.repository.id

/-! ## The directories -/

section Dirs

variable (bare : InitBare) (dirs : Dirs)

def createRepo (name : String) (fault : Option Fault) : Except GitError Unit × Dirs :=
  match validateName name with
  | .error err => (.error err, dirs)
  | .ok _ =>
    if (dirs name).isSome then (.error (.alreadyExists name), dirs)
    else match fault with
      | some (.directory err left) => (.error err, Function.update dirs name left)
      | _ => (.ok (), Function.update dirs name (some bare.dir))

/-- What `copy_dir_recursive` makes of a directory. -/
def copyDir (dir : RepoDir) : RepoDir := ⟨dir.listing.withoutLinks, dir.distinct.withoutLinks⟩

def forkRepo (sourceName destName : String) (fault : Option Fault) : Except GitError Unit × Dirs :=
  match validateName sourceName, validateName destName with
  | .error err, _ => (.error err, dirs)
  | .ok _, .error err => (.error err, dirs)
  | .ok _, .ok _ => match dirs sourceName with
    | none => (.error (.notFound sourceName), dirs)
    | some source =>
      if (dirs destName).isSome then (.error (.alreadyExists destName), dirs)
      else match fault with
        | some (.directory err left) => (.error err, Function.update dirs destName left)
        | _ => (.ok (), Function.update dirs destName (some (copyDir source)))

def deleteRepo (name : String) (fault : Option Fault) : Except GitError Unit × Dirs :=
  match validateName name with
  | .error err => (.error err, dirs)
  | .ok _ =>
    if (dirs name).isNone then (.error (.notFound name), dirs)
    else match fault with
      | some (.directory err left) => (.error err, Function.update dirs name left)
      | _ => (.ok (), Function.update dirs name none)

end Dirs

/-! ## The rows -/

inductive InsertRepositoryError where
  | alreadyExists (name : String)
  | db (err : DbError)
  deriving DecidableEq, Repr

/-- Inserts the row with the grant of its owner, in one transaction. An owner has one repository of
a name. -/
def insertWithOwner (db : Database) (row : RepositoryRow) (grantee : AccessSubject)
    (fault : Option Fault) : Except InsertRepositoryError Database :=
  match fault with
  | some (.row err) => .error (.db err)
  | _ =>
    if ∃ other ∈ db.repositories, rowId other = rowId row ∨
        (other.ownerUsername = row.ownerUsername ∧ other.repository.name = row.repository.name) then
      .error (.alreadyExists row.repository.name)
    else .ok
      { db with
        repositories := db.repositories ++ [row]
        repoAccess := db.repoAccess ++ [⟨rowId row, grantee, .owner⟩] }

/-- Deletes a row, and with it what refers to it. -/
def deleteRow (db : Database) (id : RepositoryId) : Database :=
  { db with
    repositories := db.repositories.filter fun row => rowId row ≠ id
    repoAccess := db.repoAccess.filter fun access => access.repositoryId ≠ id
    repoSizes := db.repoSizes.filter fun size => size.1 ≠ id
    branchProtectionRules := db.branchProtectionRules.filter fun rule => rule.1 ≠ id
    pullRequests := db.pullRequests.filter fun pr => pr.repositoryId ≠ id
    commitStatuses := db.commitStatuses.filter fun status => status.repositoryId ≠ id }

/-! ## The service -/

/-- What a new row is given. -/
structure Ownership where
  ownerUsername : String
  name : String
  grantee : AccessSubject
  deriving DecidableEq, Repr

section Service

variable (bare : InitBare) (s : State) (actor : ActorContext)

def checkUserRepoQuota (username : String) : Except ServiceError Unit :=
  match s.maxUserRepos with
  | none => .ok ()
  | some max =>
    if max ≤ (s.db.repositories.filter fun row => row.ownerUsername = username).length then
      .error (.conflict
        ("this account already owns the maximum of " ++ toString max ++ " repositories"))
    else .ok ()

/-- The account is known to be unverified where it has to be verified. -/
def unverified (userId : UserId) : Bool :=
  (s.accounts userId).any fun status => requireVerifiedForWrite status s.registration ≠ .ok ()

def checkAdministerOrganization (organizationId : OrganizationId) : Except AuthzError Unit :=
  match actor.userId with
  | none => .error .notFound
  | some userId =>
    if s.teams.any fun team => team.organizationId = organizationId ∧ team.name = "Owners" ∧
        (team.id, userId) ∈ s.db.teamMembers then .ok ()
    else .error .forbidden

/-- The owner of a repository that an organization is to get. -/
def organizationOwner (name orgName : String) : Except ServiceError Ownership :=
  match s.organizations.find? fun organization => organization.name = orgName with
  | none => .error .notFound
  | some organization => match checkAdministerOrganization s actor organization.id with
    | .error err => .error (ServiceError.ofAuthz err)
    | .ok () => match s.teams.find? fun team =>
        team.organizationId = organization.id ∧ team.name = "Owners" with
      | none => .error (.conflict "organization has no Owners team")
      | some team => .ok ⟨organization.name, name, .team team.id⟩

def trimmed (name : String) : String := String.ofList (trim name.toList)

/-- What `create` reads and checks before it makes the directory. -/
def createChecks (spec : NewRepository) : Except ServiceError Ownership :=
  match actingUser s.db actor with
  | .error err => .error err
  | .ok user =>
    if trimmed spec.name = "" then .error (.validation "a repository needs a name")
    else if unverified s user.id then .error .forbidden
    else match spec.owner with
      | some orgName => organizationOwner s actor (trimmed spec.name) orgName
      | none => match checkUserRepoQuota s user.username with
        | .error err => .error err
        | .ok () => .ok ⟨user.username, trimmed spec.name, .user user.id⟩

def visibilityOf (isPrivate : Bool) : Visibility := if isPrivate then .«private» else .«public»

def createConflict : String := "a repository with that name already exists"

def forkConflict : String := "you already have a repository with that name"

def insertError (conflict : String) : InsertRepositoryError → ServiceError
  | .alreadyExists _ => .conflict conflict
  | .db err => .db err

def create (spec : NewRepository) (newId : RepositoryId) (fault : Option Fault) :
    Except ServiceError (String × String) × State :=
  match fault with
  | some (.read err) => (.error err, s)
  | _ => match createChecks s actor spec with
    | .error err => (.error err, s)
    | .ok owner => match createRepo bare s.dirs (gitIdentity owner.ownerUsername owner.name) fault with
      | (.error err, dirs) => (.error (.git err), { s with dirs := dirs })
      | (.ok _, dirs) =>
        let row := ⟨⟨newId, owner.name, visibilityOf spec.private⟩, owner.ownerUsername⟩
        match insertWithOwner s.db row owner.grantee fault with
        | .error err => (.error (insertError createConflict err), { s with dirs := dirs })
        | .ok db => (.ok (owner.ownerUsername, owner.name), { s with db := db, dirs := dirs })

/-- What `fork` reads and checks: the source, and who forks it. -/
def forkChecks (owner name : String) : Except ServiceError (Repository × User) :=
  match actingUser s.db actor with
  | .error err => .error err
  | .ok user => match repositoryByName s.db owner name with
    | .error err => .error (ServiceError.ofAuthz err)
    | .ok source => match checkRead s.db actor source with
      | .error err => .error (ServiceError.ofAuthz err)
      | .ok () =>
        if gitIdentity owner name = gitIdentity user.username name then
          .error (.conflict "you already own this repository")
        else match checkUserRepoQuota s user.username with
          | .error err => .error err
          | .ok () => .ok (source, user)

def fork (owner name : String) (newId : RepositoryId) (fault : Option Fault) :
    Except ServiceError (String × String) × State :=
  match fault with
  | some (.read err) => (.error err, s)
  | _ => match forkChecks s actor owner name with
    | .error err => (.error err, s)
    | .ok (source, user) =>
      match forkRepo s.dirs (gitIdentity owner name) (gitIdentity user.username name) fault with
      | (.error err, dirs) => (.error (.git err), { s with dirs := dirs })
      | (.ok _, dirs) =>
        match insertWithOwner s.db ⟨⟨newId, name, source.visibility⟩, user.username⟩ (.user user.id)
          fault with
        | .error err => (.error (insertError forkConflict err), { s with dirs := dirs })
        | .ok db => (.ok (user.username, name), { s with db := db, dirs := dirs })

def deleteChecks (owner name : String) : Except ServiceError Repository :=
  match repositoryByName s.db owner name with
  | .error err => .error (ServiceError.ofAuthz err)
  | .ok repository => match checkDangerZone s.db actor repository with
    | .error err => .error (ServiceError.ofAuthz err)
    | .ok () => .ok repository

def delete (owner name : String) (fault : Option Fault) : Except ServiceError Unit × State :=
  match fault with
  | some (.read err) => (.error err, s)
  | _ => match deleteChecks s actor owner name with
    | .error err => (.error err, s)
    | .ok repository => match deleteRepo s.dirs (gitIdentity owner name) fault with
      | (.error err, dirs) => (.error (.git err), { s with dirs := dirs })
      | (.ok _, dirs) => match fault with
        | some (.row err) => (.error (.db err), { s with dirs := dirs })
        | _ => (.ok (), { s with db := deleteRow s.db repository.id, dirs := dirs })

/-- A request of an actor. -/
def serve (request : Request) (newId : RepositoryId) (fault : Option Fault) :
    Except ServiceError Unit × State :=
  match request with
  | .create spec => ((create bare s actor spec newId fault).1.map fun _ => (),
      (create bare s actor spec newId fault).2)
  | .fork owner name => ((fork s actor owner name newId fault).1.map fun _ => (),
      (fork s actor owner name newId fault).2)
  | .delete owner name => delete s actor owner name fault

/-! ## One request as one change -/

/-- What a request that passes its checks does. -/
inductive Change where
  | make (identity : String) (dir : RepoDir) (row : RepositoryRow) (grantee : AccessSubject)
    (conflict : String)
  | drop (identity : String) (id : RepositoryId)

def change (request : Request) (newId : RepositoryId) : Except ServiceError Change :=
  match request with
  | .create spec => match createChecks s actor spec with
    | .error err => .error err
    | .ok owner =>
      let identity := gitIdentity owner.ownerUsername owner.name
      match validateName identity with
      | .error err => .error (.git err)
      | .ok _ =>
        if (s.dirs identity).isSome then .error (.git (.alreadyExists identity))
        else .ok (.make identity bare.dir
          ⟨⟨newId, owner.name, visibilityOf spec.private⟩, owner.ownerUsername⟩ owner.grantee
          createConflict)
  | .fork owner name => match forkChecks s actor owner name with
    | .error err => .error err
    | .ok (source, user) =>
      let dest := gitIdentity user.username name
      match validateName (gitIdentity owner name), validateName dest with
      | .error err, _ => .error (.git err)
      | .ok _, .error err => .error (.git err)
      | .ok _, .ok _ => match s.dirs (gitIdentity owner name) with
        | none => .error (.git (.notFound (gitIdentity owner name)))
        | some dir =>
          if (s.dirs dest).isSome then .error (.git (.alreadyExists dest))
          else .ok (.make dest (copyDir dir) ⟨⟨newId, name, source.visibility⟩, user.username⟩
            (.user user.id) forkConflict)
  | .delete owner name => match deleteChecks s actor owner name with
    | .error err => .error err
    | .ok repository => match validateName (gitIdentity owner name) with
      | .error err => .error (.git err)
      | .ok _ =>
        if (s.dirs (gitIdentity owner name)).isNone then
          .error (.git (.notFound (gitIdentity owner name)))
        else .ok (.drop (gitIdentity owner name) repository.id)

def State.setDir (identity : String) (dir : Option RepoDir) : State :=
  { s with dirs := Function.update s.dirs identity dir }

theorem State.dirs_setDir (identity : String) (dir : Option RepoDir) :
    (s.setDir identity dir).dirs = Function.update s.dirs identity dir := rfl

/-- The directory, and then the row. -/
def carryOut (fault : Option Fault) : Change → Except ServiceError Unit × State
  | .make identity dir row grantee conflict => match fault with
    | some (.directory err left) => (.error (.git err), s.setDir identity left)
    | _ => match insertWithOwner s.db row grantee fault with
      | .error err => (.error (insertError conflict err), s.setDir identity (some dir))
      | .ok db => (.ok (), { s.setDir identity (some dir) with db := db })
  | .drop identity id => match fault with
    | some (.directory err left) => (.error (.git err), s.setDir identity left)
    | some (.row err) => (.error (.db err), s.setDir identity none)
    | _ => (.ok (), { s.setDir identity none with db := deleteRow s.db id })

/-- A request checks, and then makes its change. -/
theorem serve_eq (request : Request) (newId : RepositoryId) (fault : Option Fault) :
    serve bare s actor request newId fault = match fault with
      | some (.read err) => (.error err, s)
      | _ => match change bare s actor request newId with
        | .error err => (.error err, s)
        | .ok change => carryOut s fault change := by
  rcases fault with _ | err | ⟨err, left⟩ | err
  case some.read => cases request <;> rfl
  all_goals
    cases request with
    | create spec =>
      simp only [serve, create, change, createRepo]
      cases createChecks s actor spec with
      | error err => rfl
      | ok owner =>
        dsimp only
        cases validateName (gitIdentity owner.ownerUsername owner.name) with
        | error err => rfl
        | ok _ =>
          cases (s.dirs (gitIdentity owner.ownerUsername owner.name)).isSome with
          | true => simp only [if_true, Except.map]
          | false =>
            simp only [Bool.false_eq_true, if_false, carryOut, State.setDir, Except.map]
            try
              generalize insertWithOwner s.db _ _ _ = inserted
              cases inserted <;> rfl
    | fork owner name =>
      simp only [serve, fork, change, forkRepo]
      cases forkChecks s actor owner name with
      | error err => rfl
      | ok found =>
        obtain ⟨source, user⟩ := found
        dsimp only
        cases validateName (gitIdentity owner name) with
        | error err => rfl
        | ok _ =>
          cases validateName (gitIdentity user.username name) with
          | error err => rfl
          | ok _ =>
            cases s.dirs (gitIdentity owner name) with
            | none => rfl
            | some dir =>
              cases (s.dirs (gitIdentity user.username name)).isSome with
              | true => simp only [if_true, Except.map]
              | false =>
                simp only [Bool.false_eq_true, if_false, carryOut, State.setDir, Except.map]
                try
              generalize insertWithOwner s.db _ _ _ = inserted
              cases inserted <;> rfl
    | delete owner name =>
      simp only [serve, delete, change, deleteRepo]
      cases deleteChecks s actor owner name with
      | error err => rfl
      | ok repository =>
        dsimp only
        cases validateName (gitIdentity owner name) with
        | error err => rfl
        | ok _ =>
          cases (s.dirs (gitIdentity owner name)).isNone with
          | true => simp only [if_true]
          | false =>
            simp only [Bool.false_eq_true, if_false, carryOut, State.setDir]

end Service

/-! ## Rows and directories in step -/

/-- Whether a directory is a usable bare repository, by its tree. -/
abbrev Usable := (List String → Option (Node Bytes)) → Prop

/-- A request, with the id that a new row gets. -/
structure Step where
  actor : ActorContext
  request : Request
  newId : RepositoryId
  fault : Option Fault

/-- No row has the id. A new id is one that no row has. -/
def State.Unused (s : State) (id : RepositoryId) : Prop := ∀ row ∈ s.db.repositories, rowId row ≠ id

instance (s : State) (id : RepositoryId) : Decidable (s.Unused id) :=
  inferInstanceAs (Decidable (∀ row ∈ s.db.repositories, rowId row ≠ id))

/-- Every row has a usable repository at its identity. -/
def AllUsable (usable : Usable) (s : State) : Prop :=
  ∀ row ∈ s.db.repositories, ∃ dir, s.dirs (rowIdentity row) = some dir ∧ usable dir.listing.tree

section Steps

variable (bare : InitBare) (usable : Usable) (s : State) (a : Step)

def step : State :=
  if s.Unused a.newId then (serve bare s a.actor a.request a.newId a.fault).2 else s

/-- If the request failed where it would have gone through without the fault, it goes through when
the same actor makes it again without the fault. -/
def Recoverable : Prop :=
  (serve bare s a.actor a.request a.newId a.fault).1 ≠ .ok () →
    (serve bare s a.actor a.request a.newId none).1 = .ok () →
      (serve bare (serve bare s a.actor a.request a.newId a.fault).2 a.actor a.request a.newId
        none).1 = .ok ()

/-- What is to hold after a request. -/
def Kept : Prop :=
  s.Unused a.newId → AllUsable usable (step bare s a) ∧ Recoverable bare s a

/-- The fault does not strike where it does harm: the request does not get to the step that fails,
or the step is a query before the directory is touched, or one in the file system that leaves
nothing where a repository was to be made, or a usable repository where one was to be removed. -/
def Harmless : Prop :=
  s.Unused a.newId → match a.fault, change bare s a.actor a.request a.newId with
    | none, _ => True
    | some (.read _), _ => True
    | _, .error _ => True
    | some (.directory _ left), .ok (.make _ _ _ _ _) => left = none
    | some (.directory _ left), .ok (.drop _ _) => ∃ dir, left = some dir ∧ usable dir.listing.tree
    | some (.row _), .ok _ => False

/-- Rows and directories are in step. -/
structure InStep : Prop where
  reads : ∀ query, s.db.failing query = none
  usable : AllUsable usable s
  owned : ∀ identity dir, s.dirs identity = some dir →
    ∃ row ∈ s.db.repositories, rowIdentity row = identity
  ids : Table.Keyed rowId s.db.repositories
  identities : Table.Keyed rowIdentity s.db.repositories

end Steps

section InStep

variable {bare : InitBare} {usable : Usable} {s : State} {actor : ActorContext} {request : Request}
  {newId : RepositoryId}

/-- A repository that is found by its name is a row of this name. -/
theorem mem_of_repositoryByName {db : Database} {owner name : String} {repository : Repository}
    (h : repositoryByName db owner name = .ok repository) :
    ∃ row ∈ db.repositories, rowIdentity row = gitIdentity owner name ∧
      rowId row = repository.id := by
  simp only [repositoryByName] at h
  split at h
  · cases h
  · cases h
  · rename_i found hfind
    obtain rfl := Except.ok.inj h
    have hvalue := db.read_eq_ok hfind
    obtain ⟨row, hrow, hrepository⟩ := Option.map_eq_some_iff.1 hvalue.symm
    have hname : row.ownerUsername = owner ∧ row.repository.name = name := by
      simpa using List.find?_some hrow
    refine ⟨row, List.mem_of_find?_eq_some hrow, ?_, ?_⟩
    · rw [rowIdentity, hname.1, hname.2]
    · rw [rowId, hrepository]

/-- A request makes a directory where none is, of which the new row has the identity. -/
theorem change_make (hbare : usable bare.dir.listing.tree) (h : InStep usable s)
    {identity : String} {dir : RepoDir} {row : RepositoryRow} {grantee : AccessSubject}
    {conflict : String}
    (hchange : change bare s actor request newId = .ok (.make identity dir row grantee conflict)) :
    s.dirs identity = none ∧ usable dir.listing.tree ∧ rowIdentity row = identity ∧
      rowId row = newId := by
  cases request with
  | create spec =>
    simp only [change] at hchange
    split at hchange
    · cases hchange
    · split at hchange
      · cases hchange
      · split at hchange
        · cases hchange
        · rename_i habsent
          cases hchange
          exact ⟨by simpa using habsent, hbare, rfl, rfl⟩
  | fork owner name =>
    simp only [change] at hchange
    split at hchange
    · cases hchange
    · rename_i source user hchecks
      split at hchange
      · cases hchange
      · cases hchange
      · split at hchange
        · cases hchange
        · rename_i found hfound
          split at hchange
          · cases hchange
          · rename_i habsent
            cases hchange
            refine ⟨by simpa using habsent, ?_, rfl, rfl⟩
            -- the source has a row, and with it a usable directory
            have hsource : repositoryByName s.db owner name = .ok source := by
              simp only [forkChecks] at hchecks
              grind
            obtain ⟨sourceRow, hmem, hidentity, -⟩ := mem_of_repositoryByName hsource
            obtain ⟨dir, hdir, husable⟩ := h.usable sourceRow hmem
            rw [hidentity, hfound] at hdir
            obtain rfl := Option.some.inj hdir
            rw [copyDir, Listing.tree_withoutLinks]
            exact husable
  | delete owner name =>
    simp only [change] at hchange
    split at hchange
    · cases hchange
    · split at hchange
      · cases hchange
      · split at hchange <;> cases hchange

/-- A request removes the row and the directory of one repository. -/
theorem change_drop {identity : String} {id : RepositoryId}
    (hchange : change bare s actor request newId = .ok (.drop identity id)) :
    ∃ row ∈ s.db.repositories, rowIdentity row = identity ∧ rowId row = id := by
  cases request with
  | create spec =>
    simp only [change] at hchange
    split at hchange
    · cases hchange
    · split at hchange
      · cases hchange
      · split at hchange <;> cases hchange
  | fork owner name =>
    simp only [change] at hchange
    split at hchange
    · cases hchange
    · split at hchange
      · cases hchange
      · cases hchange
      · split at hchange
        · cases hchange
        · split at hchange <;> cases hchange
  | delete owner name =>
    simp only [change] at hchange
    split at hchange
    · cases hchange
    · rename_i repository hchecks
      split at hchange
      · cases hchange
      · split at hchange
        · cases hchange
        · cases hchange
          have hfound : repositoryByName s.db owner name = .ok repository := by
            simp only [deleteChecks] at hchecks
            grind
          exact mem_of_repositoryByName hfound

/-- The directory of a name is in the way of making it. -/
theorem change_make_again {identity : String} {dir : RepoDir} {row : RepositoryRow}
    {grantee : AccessSubject} {conflict : String}
    (hchange : change bare s actor request newId = .ok (.make identity dir row grantee conflict))
    (left : RepoDir) :
    ∃ err, change bare (s.setDir identity (some left)) actor request newId = .error err := by
  cases request with
  | create spec =>
    have hsame : createChecks (s.setDir identity (some left)) actor spec =
        createChecks s actor spec := rfl
    simp only [change] at hchange ⊢
    rw [hsame]
    split at hchange
    · cases hchange
    · split at hchange
      · cases hchange
      · split at hchange
        · cases hchange
        · cases hchange
          exact ⟨_, if_pos (by rw [State.dirs_setDir, Function.update_self]; rfl)⟩
  | fork owner name =>
    have hsame : forkChecks (s.setDir identity (some left)) actor owner name =
        forkChecks s actor owner name := rfl
    simp only [change] at hchange ⊢
    rw [hsame]
    split at hchange
    · cases hchange
    · split at hchange
      · cases hchange
      · cases hchange
      · split at hchange
        · cases hchange
        · split at hchange
          · cases hchange
          · cases hchange
            split
            · exact ⟨_, rfl⟩
            · exact ⟨_, if_pos (by rw [State.dirs_setDir, Function.update_self]; rfl)⟩
  | delete owner name =>
    simp only [change] at hchange
    split at hchange
    · cases hchange
    · split at hchange
      · cases hchange
      · split at hchange <;> cases hchange

/-- A removal goes on where it has left a directory. -/
theorem change_drop_again {identity : String} {id : RepositoryId}
    (hchange : change bare s actor request newId = .ok (.drop identity id)) (left : RepoDir) :
    change bare (s.setDir identity (some left)) actor request newId = .ok (.drop identity id) := by
  cases request with
  | create spec =>
    simp only [change] at hchange
    split at hchange
    · cases hchange
    · split at hchange
      · cases hchange
      · split at hchange <;> cases hchange
  | fork owner name =>
    simp only [change] at hchange
    split at hchange
    · cases hchange
    · split at hchange
      · cases hchange
      · cases hchange
      · split at hchange
        · cases hchange
        · split at hchange <;> cases hchange
  | delete owner name =>
    have hsame : deleteChecks (s.setDir identity (some left)) actor owner name =
        deleteChecks s actor owner name := rfl
    simp only [change] at hchange ⊢
    rw [hsame]
    split at hchange
    · cases hchange
    · split at hchange
      · cases hchange
      · split at hchange
        · cases hchange
        · cases hchange
          exact if_neg (by rw [State.dirs_setDir, Function.update_self]; simp)

/-- A new row is inserted where its identity has no directory. -/
theorem insertWithOwner_eq_ok (h : InStep usable s) {row : RepositoryRow}
    (habsent : s.dirs (rowIdentity row) = none) (hunused : s.Unused (rowId row))
    (grantee : AccessSubject) :
    insertWithOwner s.db row grantee none = .ok { s.db with
      repositories := s.db.repositories ++ [row]
      repoAccess := s.db.repoAccess ++ [⟨rowId row, grantee, .owner⟩] } := by
  refine if_neg ?_
  rintro ⟨other, hother, hid | ⟨howner, hname⟩⟩
  · exact hunused other hother hid
  · obtain ⟨dir, hdir, -⟩ := h.usable other hother
    rw [rowIdentity, howner, hname, ← rowIdentity, habsent] at hdir
    cases hdir

/-- Making a repository keeps rows and directories in step. -/
theorem inStep_make (h : InStep usable s) {dir : RepoDir} {row : RepositoryRow}
    (habsent : s.dirs (rowIdentity row) = none) (husable : usable dir.listing.tree)
    (hunused : s.Unused (rowId row)) (repoAccess : List RepoAccess) :
    InStep usable { s.setDir (rowIdentity row) (some dir) with
      db := { s.db with repositories := s.db.repositories ++ [row], repoAccess := repoAccess } } := by
  have hne : ∀ other ∈ s.db.repositories, rowIdentity other ≠ rowIdentity row := by
    intro other hother heq
    obtain ⟨found, hfound, -⟩ := h.usable other hother
    rw [heq, habsent] at hfound
    cases hfound
  refine ⟨h.reads, ?_, ?_, h.ids.append ?_, h.identities.append ?_⟩
  · intro other hother
    simp only [State.dirs_setDir]
    rcases List.mem_append.1 hother with hold | hnew
    · rw [Function.update_of_ne (hne other hold)]
      exact h.usable other hold
    · rw [List.mem_singleton.1 hnew, Function.update_self]
      exact ⟨dir, rfl, husable⟩
  · intro identity found hfound
    by_cases hsame : identity = rowIdentity row
    · exact ⟨row, List.mem_concat_self, hsame.symm⟩
    · simp only [State.dirs_setDir, Function.update_of_ne hsame] at hfound
      obtain ⟨other, hother, hidentity⟩ := h.owned identity found hfound
      exact ⟨other, List.mem_append_left _ hother, hidentity⟩
  · intro hmem
    obtain ⟨other, hother, hid⟩ := List.mem_map.1 hmem
    exact hunused other hother hid
  · intro hmem
    obtain ⟨other, hother, hidentity⟩ := List.mem_map.1 hmem
    exact hne other hother hidentity

/-- Removing a repository keeps rows and directories in step. -/
theorem inStep_drop (h : InStep usable s) {row : RepositoryRow} (hrow : row ∈ s.db.repositories) :
    InStep usable { s.setDir (rowIdentity row) none with db := deleteRow s.db (rowId row) } := by
  have hkept : ∀ other, other ∈ (deleteRow s.db (rowId row)).repositories ↔
      other ∈ s.db.repositories ∧ rowId other ≠ rowId row := by
    intro other
    simp [deleteRow, List.mem_filter]
  have hne : ∀ other ∈ s.db.repositories, rowId other ≠ rowId row →
      rowIdentity other ≠ rowIdentity row := by
    intro other hother hid heq
    exact hid (congrArg rowId (List.inj_on_of_nodup_map h.identities hother hrow heq))
  have hsub : (deleteRow s.db (rowId row)).repositories.Sublist s.db.repositories :=
    List.filter_sublist
  refine ⟨h.reads, ?_, ?_, h.ids.sublist (hsub.map rowId), h.identities.sublist (hsub.map _)⟩
  · intro other hother
    obtain ⟨hold, hid⟩ := (hkept other).1 hother
    simp only [State.dirs_setDir, Function.update_of_ne (hne other hold hid)]
    exact h.usable other hold
  · intro identity dir hdir
    by_cases hsame : identity = rowIdentity row
    · subst hsame
      simp [State.setDir] at hdir
    · simp only [State.dirs_setDir, Function.update_of_ne hsame] at hdir
      obtain ⟨other, hother, hidentity⟩ := h.owned identity dir hdir
      refine ⟨other, (hkept other).2 ⟨hother, ?_⟩, hidentity⟩
      intro hid
      have hrows := List.inj_on_of_nodup_map h.ids hother hrow hid
      exact hsame (by rw [← hidentity, hrows])

/-- A failed removal that leaves a usable directory keeps rows and directories in step. -/
theorem inStep_left (h : InStep usable s) {row : RepositoryRow} (hrow : row ∈ s.db.repositories)
    {left : RepoDir} (husable : usable left.listing.tree) :
    InStep usable (s.setDir (rowIdentity row) (some left)) := by
  refine ⟨h.reads, ?_, ?_, h.ids, h.identities⟩
  · intro other hother
    by_cases hsame : rowIdentity other = rowIdentity row
    · exact ⟨left, by rw [hsame, State.dirs_setDir, Function.update_self], husable⟩
    · simp only [State.dirs_setDir, Function.update_of_ne hsame]
      exact h.usable other hother
  · intro identity dir hdir
    by_cases hsame : identity = rowIdentity row
    · exact ⟨row, hrow, hsame.symm⟩
    · simp only [State.dirs_setDir, Function.update_of_ne hsame] at hdir
      exact h.owned identity dir hdir

section Steps

variable {a : Step}

theorem serve_of_read {err : ServiceError} :
    serve bare s actor request newId (some (.read err)) = (.error err, s) := by
  rw [serve_eq]

theorem serve_of_error {err : ServiceError}
    (hchange : change bare s actor request newId = .error err) :
    serve bare s actor request newId none = (.error err, s) := by
  rw [serve_eq, hchange]

theorem serve_of_ok {change' : Change} {fault : Option Fault}
    (hfault : ∀ err, fault ≠ some (.read err))
    (hchange : change bare s actor request newId = .ok change') :
    serve bare s actor request newId fault = carryOut s fault change' := by
  rw [serve_eq]
  rcases fault with _ | err | ⟨err, left⟩ | err
  case some.read => exact absurd rfl (hfault err)
  all_goals simp only [hchange]

/-- A request that does not pass its checks changes nothing, whichever step would fail. -/
theorem serve_snd_of_error {err : ServiceError} {fault : Option Fault}
    (hchange : change bare s actor request newId = .error err) :
    (serve bare s actor request newId fault).2 = s := by
  rw [serve_eq]
  rcases fault with _ | err | ⟨err, left⟩ | err
  case some.read => rfl
  all_goals simp only [hchange]

/-- A request that makes a repository and is not disturbed. -/
theorem carryOut_make (h : InStep usable s) {dir : RepoDir} {row : RepositoryRow}
    (habsent : s.dirs (rowIdentity row) = none) (hunused : s.Unused (rowId row))
    (grantee : AccessSubject) (conflict : String) :
    carryOut s none (.make (rowIdentity row) dir row grantee conflict) =
      (.ok (), { s.setDir (rowIdentity row) (some dir) with db := { s.db with
        repositories := s.db.repositories ++ [row]
        repoAccess := s.db.repoAccess ++ [⟨rowId row, grantee, .owner⟩] } }) := by
  simp only [carryOut, insertWithOwner_eq_ok h habsent hunused]

theorem setDir_of_absent {identity : String} (habsent : s.dirs identity = none) :
    s.setDir identity none = s := by
  rw [State.setDir, ← habsent, Function.update_eq_self]

/-- A step whose fault does no harm keeps rows and directories in step. -/
theorem inStep_step (hbare : usable bare.dir.listing.tree) (h : InStep usable s)
    (hharmless : Harmless bare usable s a) : InStep usable (step bare s a) := by
  unfold step
  split
  · rename_i hunused
    have hfits := hharmless hunused
    cases hchange : change bare s a.actor a.request a.newId with
    | error err =>
      rw [serve_snd_of_error hchange]
      exact h
    | ok change' =>
      rw [hchange] at hfits
      cases change' with
      | make identity dir row grantee conflict =>
        obtain ⟨habsent, husable, rfl, hid⟩ := change_make hbare h hchange
        cases hfault : a.fault with
        | none =>
          rw [serve_of_ok (by simp) hchange, carryOut_make h habsent (hid ▸ hunused)]
          exact inStep_make h habsent husable (hid ▸ hunused) _
        | some fault =>
          rw [hfault] at hfits
          cases fault with
          | read err =>
            rw [serve_of_read]
            exact h
          | directory err left =>
            obtain rfl : left = none := hfits
            rw [serve_of_ok (by simp) hchange]
            simp only [carryOut, setDir_of_absent habsent]
            exact h
          | row err => exact absurd hfits id
      | drop identity id =>
        obtain ⟨row, hrow, rfl, rfl⟩ := change_drop hchange
        cases hfault : a.fault with
        | none =>
          rw [serve_of_ok (by simp) hchange]
          exact inStep_drop h hrow
        | some fault =>
          rw [hfault] at hfits
          cases fault with
          | read err =>
            rw [serve_of_read]
            exact h
          | directory err left =>
            obtain ⟨dir, rfl, husable⟩ := hfits
            rw [serve_of_ok (by simp) hchange]
            exact inStep_left h hrow husable
          | row err => exact absurd hfits id
  · exact h

/-- After one request the rows have their directories, and the request can be made again, exactly
where its fault did no harm. -/
theorem kept_iff (hbare : usable bare.dir.listing.tree) (h : InStep usable s) :
    Kept bare usable s a ↔ Harmless bare usable s a := by
  constructor
  · intro hkept hunused
    obtain ⟨hall, hagain⟩ := hkept hunused
    rw [step, if_pos hunused] at hall
    rw [Recoverable] at hagain
    cases hfault : a.fault with
    | none => trivial
    | some fault =>
      cases hchange : change bare s a.actor a.request a.newId with
      | error err => cases fault <;> trivial
      | ok change' =>
        rw [hfault] at hall hagain
        cases change' with
        | make identity dir row grantee conflict =>
          obtain ⟨habsent, husable, rfl, hid⟩ := change_make hbare h hchange
          have hgoes : (serve bare s a.actor a.request a.newId none).1 = .ok () := by
            rw [serve_of_ok (by simp) hchange, carryOut_make h habsent (hid ▸ hunused)]
          -- what the fault has left would be in the way
          have hblocked : ∀ left : RepoDir,
              (serve bare (s.setDir (rowIdentity row) (some left)) a.actor a.request a.newId
                none).1 ≠ .ok () := by
            intro left
            obtain ⟨err, herr⟩ := change_make_again hchange left
            rw [serve_of_error herr]
            simp
          cases fault with
          | read err => trivial
          | directory err left =>
            cases left with
            | none => rfl
            | some left =>
              rw [serve_of_ok (by simp) hchange] at hagain
              exact absurd (hagain (by simp [carryOut]) hgoes) (hblocked left)
          | row err =>
            rw [serve_of_ok (by simp) hchange] at hagain
            exact absurd (hagain (by simp [carryOut, insertWithOwner]) hgoes) (hblocked dir)
        | drop identity id =>
          obtain ⟨row, hrow, rfl, rfl⟩ := change_drop hchange
          cases fault with
          | read err => trivial
          | directory err left =>
            rw [serve_of_ok (by simp) hchange] at hall
            obtain ⟨dir, hdir, husable⟩ := hall row hrow
            rw [carryOut, State.dirs_setDir, Function.update_self] at hdir
            exact ⟨dir, hdir, husable⟩
          | row err =>
            rw [serve_of_ok (by simp) hchange] at hall
            obtain ⟨dir, hdir, -⟩ := hall row hrow
            rw [carryOut, State.dirs_setDir, Function.update_self] at hdir
            cases hdir
  · intro hharmless hunused
    refine ⟨(inStep_step hbare h hharmless).usable, ?_⟩
    intro hfailed hgoes
    have hfits := hharmless hunused
    cases hchange : change bare s a.actor a.request a.newId with
    | error err =>
      rw [serve_of_error hchange] at hgoes
      cases hgoes
    | ok change' =>
      rw [hchange] at hfits
      cases hfault : a.fault with
      | none =>
        rw [hfault] at hfailed
        exact absurd hgoes hfailed
      | some fault =>
        rw [hfault] at hfits
        cases fault with
        | read err =>
          rw [serve_of_read]
          exact hgoes
        | directory err left =>
          rw [serve_of_ok (by simp) hchange]
          cases change' with
          | make identity dir row grantee conflict =>
            obtain rfl : left = none := hfits
            have habsent := (change_make hbare h hchange).1
            simp only [carryOut, setDir_of_absent habsent]
            exact hgoes
          | drop identity id =>
            obtain ⟨dir, rfl, -⟩ := hfits
            simp only [carryOut]
            rw [serve_of_ok (by simp) (change_drop_again hchange dir)]
            rfl
        | row err => cases change' <;> exact absurd hfits id

end Steps

/-- In every sequence of requests, each row has a usable directory after each request and a request
that a fault has failed goes through when it is made again, exactly if no fault strikes where it
does harm. -/
theorem inStep_iff (hbare : usable bare.dir.listing.tree) (h : InStep usable s)
    (steps : List Step) :
    Runs.Throughout (step bare) (Kept bare usable) s steps ↔
      Runs.Throughout (step bare) (Harmless bare usable) s steps :=
  Runs.throughout_iff (fun _ _ hinv hkept => inStep_step hbare hinv ((kept_iff hbare hinv).1 hkept))
    (fun _ _ hinv => kept_iff hbare hinv) h

end InStep

/-- A server with one account and no repositories. -/
def newServer : State where
  db := { Database.empty with users := [⟨10, "alice", "alice@example.com"⟩] }
  organizations := []
  teams := []
  accounts := fun _ => none
  registration := ⟨false⟩
  maxUserRepos := none
  dirs := fun _ => none

/-- A directory with a `HEAD`. -/
def hasHead : Usable := fun tree => (tree ["HEAD"]).isSome

def createNotes : Step := ⟨.user 10, .create ⟨"notes", true, none⟩, 1, none⟩

def deleteNotes (fault : Option Fault) : Step := ⟨.user 10, .delete "alice" "notes", 2, fault⟩

theorem inStep_iff_createNotes :
    Runs.Throughout (step ⟨RepoDirectory.oneFile "HEAD", ""⟩)
        (Kept ⟨RepoDirectory.oneFile "HEAD", ""⟩ hasHead) newServer [createNotes] ↔
      Runs.Throughout (step ⟨RepoDirectory.oneFile "HEAD", ""⟩)
        (Harmless ⟨RepoDirectory.oneFile "HEAD", ""⟩ hasHead) newServer [createNotes] := by
  refine inStep_iff (by unfold hasHead; decide +kernel) ⟨fun _ => rfl, ?_, ?_, ?_, ?_⟩ _
  · intro row hrow
    cases hrow
  · intro identity dir hdir
    cases hdir
  · exact List.nodup_nil
  · exact List.nodup_nil

/-- A deletion whose statement fails leaves the row without its directory, and cannot be made
again. -/
theorem delete_leaves_row :
    let bare : InitBare := ⟨RepoDirectory.oneFile "HEAD", ""⟩
    let failing := deleteNotes (some (.row "database is locked"))
    let s := Runs.run (step bare) newServer [createNotes, failing]
    ¬ Runs.Throughout (step bare) (Kept bare hasHead) newServer [createNotes, failing] ∧
      s.db.repositories.map rowIdentity = ["alice/notes"] ∧ (s.dirs "alice/notes").isNone ∧
      (serve bare s (.user 10) (.delete "alice" "notes") 2 none).1 =
        .error (.git (.notFound "alice/notes")) := by
  intro bare failing s
  have hrows : s.db.repositories.map rowIdentity = ["alice/notes"] := by decide +kernel
  have hdir : (s.dirs "alice/notes").isNone := by decide +kernel
  refine ⟨?_, hrows, hdir, by decide +kernel⟩
  intro hkept
  obtain ⟨hall, -⟩ := hkept [createNotes] failing [] rfl (by decide +kernel)
  obtain ⟨row, hrow, hidentity⟩ : ∃ row ∈ s.db.repositories, rowIdentity row = "alice/notes" := by
    apply List.mem_map.1
    rw [hrows]
    exact List.mem_singleton_self _
  obtain ⟨dir, hfound, -⟩ := hall row hrow
  rw [hidentity] at hfound
  have hnone : s.dirs "alice/notes" = none := Option.isNone_iff_eq_none.1 hdir
  have hsome : s.dirs "alice/notes" = some dir := hfound
  rw [hnone] at hsome
  cases hsome

end Edda.App.RepositoryService
