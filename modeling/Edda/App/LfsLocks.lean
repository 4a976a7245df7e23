import Edda.App.PrivateRepositories
import Edda.App.SessionLifetime

/-!
# LFS locks

A lock belongs to the user who has asked for it. The access check of the lock API resolves the
caller from a session or from Basic credentials, as every git route does; the operation behind it
takes the user of the session. A git client has no session, and a session that is too old counts for
the check no more.

`locks_act_as_actor_iff` says for which credentials the two are one user.
-/

set_option autoImplicit false

namespace Edda.App.LfsLocks

open Edda.Domain Edda.Db Edda.Auth Edda.Support.RustText
open Edda.App.SignIn (Session resolveActor freshUser sessionLoginExpired sessionLoginAt)
open Edda.App.RepositoryRoutes (World Config repoName requireReadAccess)

abbrev LockId := BitVec 128

/-- A row of `lfs_locks`. -/
structure LfsLock where
  id : LockId
  repositoryId : RepositoryId
  path : String
  ownerId : UserId
  createdAt : Int
  deriving DecidableEq, Repr

structure LockDto where
  id : LockId
  path : String
  deriving DecidableEq, Repr

def lockDto (lock : LfsLock) : LockDto := ⟨lock.id, lock.path⟩

/-- The statements on the table. -/
inductive Statement where
  | createLock
  | listLocks
  | findLockById
  | deleteLock
  deriving DecidableEq, Repr

/-- `failing` are the statements that fail, with their errors. -/
structure LockTable where
  locks : List LfsLock
  failing : Statement → Option DbError
  now : Int

inductive Reply where
  | created (lock : LockDto)
  | locks (ours theirs : List LockDto)
  | unlocked (lock : LockDto)
  | text (status : Nat) (message : String)
  deriving DecidableEq, Repr

/-- The session of a request with its user, as the middleware has resolved it, and the
`Authorization` header. -/
structure Credentials where
  session : Option Session
  user : Option Account
  authorization : Option String

/-! ## The operations -/

section Operations

variable (table : LockTable) (repository : Repository) (userId : Option UserId)

/-- Every lock of a repository, oldest first. -/
def listLocks : List LfsLock :=
  (table.locks.filter fun lock => lock.repositoryId = repository.id).insertionSort
    fun a b => a.createdAt ≤ b.createdAt

/-- `create_lock` behind the access check. A path of a repository is locked once. -/
def createLockFor (id : LockId) (path : String) : Reply × List LfsLock :=
  match userId with
  | none => (.text 401 "", table.locks)
  | some userId => match table.failing .createLock with
    | some err => (.text 500 err, table.locks)
    | none =>
      if table.locks.any fun lock => lock.repositoryId = repository.id ∧ lock.path = path then
        (.text 409 ("\"" ++ path ++ "\" is already locked"), table.locks)
      else (.created ⟨id, path⟩, table.locks ++ [⟨id, repository.id, path, userId, table.now⟩])

/-- `verify_locks` behind the access check. -/
def verifyLocksFor : Reply :=
  match table.failing .listLocks with
  | some err => .text 500 err
  | none =>
    let (ours, theirs) := (listLocks table repository).partition fun lock =>
      some lock.ownerId = userId
    .locks (ours.map lockDto) (theirs.map lockDto)

/-- `unlock` behind the access check. Who does not hold the lock has to administer the
repository. -/
def unlockFor (db : Database) (id : LockId) : Reply × List LfsLock :=
  match userId with
  | none => (.text 401 "", table.locks)
  | some userId => match table.failing .findLockById with
    | some err => (.text 500 err, table.locks)
    | none => match table.locks.find? fun lock => lock.id = id with
      | none => (.text 404 "no such lock", table.locks)
      | some lock =>
        if lock.repositoryId ≠ repository.id then (.text 404 "no such lock", table.locks)
        else if lock.ownerId ≠ userId ∧ checkAdminister db (.user userId) repository ≠ .ok () then
          (.text 403 "you don't hold this lock", table.locks)
        else match table.failing .deleteLock with
          | some err => (.text 500 err, table.locks)
          | none => (.unlocked (lockDto lock), table.locks.filter fun other => other.id ≠ id)

end Operations

/-! ## The routes -/

section Routes

variable {σ : Type} (out : Outside) (signIn : SignIn.Config) (config : Config) (w : World σ)
  (accounts : Accounts) (credentials : Credentials) (owner repo : String)

/-- Whom the access check resolves. -/
def Credentials.actor : ActorContext :=
  resolveActor out signIn accounts credentials.session credentials.user credentials.authorization

/-- Whom the operations take. -/
def Credentials.sessionUserId : Option UserId := credentials.user.map Account.id

def refused (response : Response) : Reply := .text response.status response.text

/-- A repository that is named by the path, and found. -/
def Found (repository : Repository) : Prop :=
  ∃ name, repoName repo = some name ∧ repositoryByName w.db owner name = .ok repository

/-- Looks the repository up, and runs the check of the route. -/
def onRepository {α : Type} (refuse : Reply → α) (name : String)
    (check : Repository → Except Response Unit) (next : Repository → α) : α :=
  match repositoryByName w.db owner name with
  | .error _ => refuse (refused (notFoundResponse owner name))
  | .ok repository => match check repository with
    | .error response => refuse (refused response)
    | .ok () => next repository

def readAccess (repository : Repository) : Except Response Unit :=
  requireReadAccess config w (credentials.actor out signIn accounts) owner repository

def writeAccess (repository : Repository) : Except Response Unit :=
  requireWriteAccess w.reads config.registration (credentials.actor out signIn accounts) owner
    repository

def createLock (table : LockTable) (id : LockId) (request : Except String String) :
    Reply × List LfsLock :=
  match repoName repo with
  | none => (refused (notFoundResponse owner repo), table.locks)
  | some name => match request with
    | .error err => (.text 400 err, table.locks)
    | .ok path =>
      onRepository w owner (fun reply => (reply, table.locks)) name
        (writeAccess out signIn config w accounts credentials owner)
        fun repository => createLockFor table repository credentials.sessionUserId id path

def verifyLocks (table : LockTable) : Reply :=
  match repoName repo with
  | none => refused (notFoundResponse owner repo)
  | some name =>
    onRepository w owner (fun reply => reply) name
      (readAccess out signIn config w accounts credentials owner)
      fun repository => verifyLocksFor table repository credentials.sessionUserId

def unlock (table : LockTable) (id : Option LockId) : Reply × List LfsLock :=
  match repoName repo with
  | none => (refused (notFoundResponse owner repo), table.locks)
  | some name => match id with
    | none => (.text 400 "invalid lock id", table.locks)
    | some id =>
      onRepository w owner (fun reply => (reply, table.locks)) name
        (writeAccess out signIn config w accounts credentials owner)
        fun repository => unlockFor table repository credentials.sessionUserId w.db id

/-! ## Acting as the actor -/

/-- Whatever locks there are, a lock that is created belongs to the actor of the access check, `ours`
are the locks of that actor, and the actor unlocks a lock who holds it or administers the
repository. -/
structure ActsAsActor : Prop where
  created : ∀ table id request lock locks,
    createLock out signIn config w accounts credentials owner repo table id request =
      (.created lock, locks) →
    ∃ userId repositoryId, (credentials.actor out signIn accounts).userId = some userId ∧
      locks = table.locks ++ [⟨lock.id, repositoryId, lock.path, userId, table.now⟩]
  verified : ∀ table ours theirs repository, Found w owner repo repository →
    verifyLocks out signIn config w accounts credentials owner repo table = .locks ours theirs →
    ours = ((listLocks table repository).filter fun lock =>
      some lock.ownerId = (credentials.actor out signIn accounts).userId).map lockDto
  unlocked : ∀ table lock repository, Found w owner repo repository →
    writeAccess out signIn config w accounts credentials owner repository = .ok () →
    (∀ statement, table.failing statement = none) →
    (table.locks.find? fun other => other.id = lock.id) = some lock →
    lock.repositoryId = repository.id →
    ((unlock out signIn config w accounts credentials owner repo table (some lock.id)).1 =
        .unlocked (lockDto lock) ↔
      (credentials.actor out signIn accounts).userId = some lock.ownerId ∨
        checkAdminister w.db (credentials.actor out signIn accounts) repository = .ok ())

/-- The session counts for the access check as well, or its user is the one that the header names.
Without a session, the header names nobody either. -/
def SessionNamesActor : Prop :=
  let header := (resolveActor out signIn accounts none none credentials.authorization).userId
  match credentials.user with
  | none => header = none
  | some account =>
    sessionLoginExpired out signIn (sessionLoginAt accounts credentials.session) = false ∨
      header = some account.id

end Routes

/-! ## Rights of the actor and of its user -/

section Rights

variable {db : Database} {actor : ActorContext} {repository : Repository} {userId : UserId}
  {access : Option RepoAccess}

/-- What a token may write to, its user administers with it as without it. -/
theorem requireRole_user (huser : actor.userId = some userId)
    (hwrite : canWriteRepository actor repository access = .ok ()) (minimum : RepoRole) :
    requireRole actor repository access minimum =
      requireRole (.user userId) repository access minimum := by
  cases actor with
  | anonymous => exact absurd huser (by simp [ActorContext.userId])
  | user id =>
    obtain rfl := Option.some.inj huser
    rfl
  | token id scope tokenScope =>
    obtain rfl := Option.some.inj huser
    cases access with
    | none => rfl
    | some access =>
      cases hscope : tokenScopePermits (.token id scope tokenScope) repository with
      | false => simp [canWriteRepository, requireRole, hscope] at hwrite
      | true =>
        have hfull : tokenScopePermits (.user id) repository = true := rfl
        simp only [requireRole, hscope, hfull]
  | deployKey id readOnly => exact absurd huser (by simp [ActorContext.userId])

theorem accessFor_user (huser : actor.userId = some userId) :
    accessFor db actor repository = accessFor db (.user userId) repository := by
  simp only [accessFor, huser]
  rfl

theorem canWrite_of_checkWrite (h : checkWrite db actor repository = .ok ()) :
    ∃ access, accessFor db actor repository = .ok access ∧
      canWriteRepository actor repository access = .ok () := by
  simp only [checkWrite, checkWith] at h
  split at h
  · exact absurd h (by simp)
  · rename_i access haccess
    exact ⟨access, haccess, h⟩

theorem checkAdminister_user (huser : actor.userId = some userId)
    (hwrite : checkWrite db actor repository = .ok ()) :
    checkAdminister db actor repository = checkAdminister db (.user userId) repository := by
  obtain ⟨access, haccess, hcan⟩ := canWrite_of_checkWrite hwrite
  simp only [checkAdminister, checkWith, ← accessFor_user huser, haccess]
  exact requireRole_user huser hcan .admin

/-- Nobody administers without being a user: a deploy key writes at most. -/
theorem checkAdminister_of_none (huser : actor.userId = none) :
    checkAdminister db actor repository ≠ .ok () := by
  simp only [checkAdminister, checkWith, accessFor, huser]
  cases actor with
  | anonymous => simp [canAdministerRepository, requireRole]
  | user id => exact absurd huser (by simp [ActorContext.userId])
  | token id scope tokenScope => exact absurd huser (by simp [ActorContext.userId])
  | deployKey id readOnly =>
    have hadmin : ¬ RepoRole.admin ≤ RepoRole.write := by decide
    simp [canAdministerRepository, requireRole, hadmin]

/-- Who may write may read. -/
theorem checkRead_of_checkWrite (hwrite : checkWrite db actor repository = .ok ()) :
    checkRead db actor repository = .ok () := by
  obtain ⟨access, haccess, hcan⟩ := canWrite_of_checkWrite hwrite
  simp only [checkRead, checkWith, haccess]
  cases actor with
  | deployKey id readOnly =>
    simp only [canWriteRepository, requireRole] at hcan
    split at hcan
    · rename_i hkey
      simp only [canReadRepository, if_pos hkey.1]
    · exact absurd hcan (by simp)
  | anonymous =>
    cases access with
    | none => simp [canWriteRepository, requireRole] at hcan
    | some access => simp [canReadRepository, tokenScopePermits]
  | user id =>
    cases access with
    | none => simp [canWriteRepository, requireRole] at hcan
    | some access => simp [canReadRepository, tokenScopePermits]
  | token id scope tokenScope =>
    cases access with
    | none => simp [canWriteRepository, requireRole] at hcan
    | some access =>
      cases hscope : tokenScopePermits (.token id scope tokenScope) repository with
      | false => simp [canWriteRepository, requireRole, hscope] at hcan
      | true => simp [canReadRepository, hscope]

end Rights

section Access

variable {σ : Type} {out : Outside} {signIn : SignIn.Config} {config : Config} {w : World σ}
  {accounts : Accounts} {credentials : Credentials} {owner repo : String}
  {repository : Repository} {table : LockTable}

theorem checkWrite_of_writeAccess
    (h : writeAccess out signIn config w accounts credentials owner repository = .ok ()) :
    checkWrite w.db (credentials.actor out signIn accounts) repository = .ok () := by
  simp only [writeAccess, requireWriteAccess] at h
  split at h
  · exact absurd h (by simp)
  · split at h
    · exact absurd h (by simp)
    · split at h
      · rename_i hok
        exact hok
      · split at h <;> exact absurd h (by simp)
      · split at h <;> exact absurd h (by simp)

/-- The database knows no access of nobody. -/
theorem actor_ne_anonymous
    (h : writeAccess out signIn config w accounts credentials owner repository = .ok ()) :
    credentials.actor out signIn accounts ≠ .anonymous := by
  intro hanonymous
  obtain ⟨access, haccess, hcan⟩ := canWrite_of_checkWrite (checkWrite_of_writeAccess h)
  rw [hanonymous] at haccess hcan
  obtain rfl : (none : Option RepoAccess) = access := Except.ok.inj haccess
  exact absurd hcan (by simp [canWriteRepository, requireRole])

theorem readAccess_of_writeAccess
    (h : writeAccess out signIn config w accounts credentials owner repository = .ok ()) :
    readAccess out signIn config w accounts credentials owner repository = .ok () := by
  have hread := checkRead_of_checkWrite (checkWrite_of_writeAccess h)
  have hactor := actor_ne_anonymous h
  simp only [readAccess, requireReadAccess, hread, hactor, and_false, if_false]
  split <;> rfl

theorem sessionNamesActor_iff :
    SessionNamesActor out signIn accounts credentials ↔
      credentials.sessionUserId = (credentials.actor out signIn accounts).userId := by
  simp only [SessionNamesActor, Credentials.sessionUserId, Credentials.actor]
  cases huser : credentials.user with
  | none =>
    have hfresh : freshUser out signIn accounts credentials.session none = none := by
      simp [freshUser]
    rw [SessionLifetime.resolveActor_of_none hfresh]
    exact eq_comm
  | some account =>
    cases hexpired : sessionLoginExpired out signIn (sessionLoginAt accounts credentials.session)
    with
    | false =>
      have hfresh : freshUser out signIn accounts credentials.session (some account) =
          some account := by
        simp [freshUser, hexpired]
      rw [SessionLifetime.resolveActor_of_some hfresh]
      simp [ActorContext.userId]
    | true =>
      have hfresh : freshUser out signIn accounts credentials.session (some account) = none := by
        simp [freshUser, hexpired]
      rw [SessionLifetime.resolveActor_of_none hfresh]
      simp only [Bool.true_eq_false, false_or, Option.map_some]
      exact eq_comm

/-! ## The routes behind their checks -/

theorem onRepository_of_found {α : Type} {refuse : Reply → α} {name : String}
    {check : Repository → Except Response Unit} {next : Repository → α}
    (hname : repositoryByName w.db owner name = .ok repository)
    (hcheck : check repository = .ok ()) :
    onRepository w owner refuse name check next = next repository := by
  simp only [onRepository, hname, hcheck]

theorem verifyLocks_of_found (hfound : Found w owner repo repository)
    (hread : readAccess out signIn config w accounts credentials owner repository = .ok ()) :
    verifyLocks out signIn config w accounts credentials owner repo table =
      verifyLocksFor table repository credentials.sessionUserId := by
  obtain ⟨name, hrepo, hname⟩ := hfound
  simp only [verifyLocks, hrepo, onRepository_of_found hname hread]

theorem unlock_of_found {id : LockId} (hfound : Found w owner repo repository)
    (hwrite : writeAccess out signIn config w accounts credentials owner repository = .ok ()) :
    unlock out signIn config w accounts credentials owner repo table (some id) =
      unlockFor table repository credentials.sessionUserId w.db id := by
  obtain ⟨name, hrepo, hname⟩ := hfound
  simp only [unlock, hrepo, onRepository_of_found hname hwrite]

theorem found_of_onRepository {α : Type} {refuse : Reply → α} {name : String}
    {check : Repository → Except Response Unit} {next : Repository → α}
    (hne : ∀ response, onRepository w owner refuse name check next ≠ refuse (refused response)) :
    ∃ repository, repositoryByName w.db owner name = .ok repository ∧ check repository = .ok () ∧
      onRepository w owner refuse name check next = next repository := by
  cases hname : repositoryByName w.db owner name with
  | error err =>
    exact absurd (by simp only [onRepository, hname]) (hne (notFoundResponse owner name))
  | ok repository =>
    cases hcheck : check repository with
    | error response => exact absurd (by simp only [onRepository, hname, hcheck]) (hne response)
    | ok _ => exact ⟨repository, rfl, hcheck, by simp only [onRepository, hname, hcheck]⟩

theorem createLock_eq_created {id : LockId} {request : Except String String} {lock : LockDto}
    {locks : List LfsLock}
    (h : createLock out signIn config w accounts credentials owner repo table id request =
      (.created lock, locks)) :
    ∃ repository path, Found w owner repo repository ∧
      writeAccess out signIn config w accounts credentials owner repository = .ok () ∧
      createLockFor table repository credentials.sessionUserId id path = (.created lock, locks) := by
  unfold createLock at h
  split at h
  · exact absurd h (by simp [refused])
  · rename_i name hrepo
    split at h
    · exact absurd h (by simp)
    · rename_i path
      obtain ⟨repository, hname, hwrite, hnext⟩ := found_of_onRepository
        (fun response heq => absurd (h.symm.trans heq) (by simp [refused]))
      exact ⟨repository, path, ⟨name, hrepo, hname⟩, hwrite, hnext.symm.trans h⟩

theorem verifyLocks_eq_locks {ours theirs : List LockDto} (hfound : Found w owner repo repository)
    (h : verifyLocks out signIn config w accounts credentials owner repo table =
      .locks ours theirs) :
    readAccess out signIn config w accounts credentials owner repository = .ok () := by
  obtain ⟨name, hrepo, hname⟩ := hfound
  simp only [verifyLocks, hrepo] at h
  obtain ⟨other, hother, hread, -⟩ := found_of_onRepository
    (fun response heq => absurd (h.symm.trans heq) (by simp [refused]))
  obtain rfl := Except.ok.inj (hname.symm.trans hother)
  exact hread

/-- What `verify_locks` answers. -/
theorem ours_verifyLocksFor {userId : Option UserId} {ours theirs : List LockDto}
    (h : verifyLocksFor table repository userId = .locks ours theirs) :
    ours = ((listLocks table repository).filter fun lock => some lock.ownerId = userId).map
      lockDto := by
  unfold verifyLocksFor at h
  split at h
  · exact absurd h (by simp)
  · simp only [List.partition_eq_filter_filter, Reply.locks.injEq] at h
    exact h.1.symm

end Access

/-- The three operations act as the actor of their access check exactly if, where a request passes
the check for reading, the session names that actor. -/
theorem locks_act_as_actor_iff {σ : Type} (out : Outside) (signIn : SignIn.Config) (config : Config)
    (w : World σ) (accounts : Accounts) (credentials : Credentials) (owner repo : String) :
    ActsAsActor out signIn config w accounts credentials owner repo ↔
      ∀ repository, Found w owner repo repository →
        readAccess out signIn config w accounts credentials owner repository = .ok () →
        SessionNamesActor out signIn accounts credentials := by
  constructor
  · intro hacts repository hfound hread
    rw [sessionNamesActor_iff]
    -- a table with one lock, which belongs to the user of the session or to the actor
    have hours : ∀ holder : UserId, (some holder = credentials.sessionUserId ↔
        some holder = (credentials.actor out signIn accounts).userId) := by
      intro holder
      let table : LockTable := ⟨[⟨0, repository.id, "", holder, 0⟩], fun _ => none, 0⟩
      have hlist : listLocks table repository = [⟨0, repository.id, "", holder, 0⟩] := by
        simp [listLocks, table]
      obtain ⟨ours, theirs, hreply⟩ : ∃ ours theirs,
          verifyLocksFor table repository credentials.sessionUserId = .locks ours theirs :=
        ⟨_, _, rfl⟩
      have hsession := ours_verifyLocksFor hreply
      have hactor := hacts.verified table ours theirs repository hfound
        ((verifyLocks_of_found hfound hread).trans hreply)
      rw [hlist, hsession, hlist] at hactor
      have hcount := congrArg List.length hactor
      simp only [List.length_map, List.filter_cons, List.filter_nil, decide_eq_true_eq] at hcount
      constructor
      · intro heq
        by_contra hne
        rw [if_pos heq, if_neg hne] at hcount
        exact absurd hcount (by simp)
      · intro heq
        by_contra hne
        rw [if_neg hne, if_pos heq] at hcount
        exact absurd hcount (by simp)
    apply Option.ext
    intro holder
    rw [eq_comm, hours holder, eq_comm]
  · intro hnames
    have hsame : ∀ {repository}, Found w owner repo repository →
        readAccess out signIn config w accounts credentials owner repository = .ok () →
        credentials.sessionUserId = (credentials.actor out signIn accounts).userId :=
      fun hfound hread => sessionNamesActor_iff.1 (hnames _ hfound hread)
    refine ⟨?_, ?_, ?_⟩
    · intro table id request lock locks hcreated
      obtain ⟨repository, path, hfound, hwrite, hcreated⟩ := createLock_eq_created hcreated
      rw [hsame hfound (readAccess_of_writeAccess hwrite)] at hcreated
      cases huser : (credentials.actor out signIn accounts).userId with
      | none => exact absurd hcreated (by simp [createLockFor, huser])
      | some userId =>
        simp only [createLockFor, huser] at hcreated
        split at hcreated
        · exact absurd hcreated (by simp)
        · split at hcreated
          · exact absurd hcreated (by simp)
          · obtain ⟨hreply, hlocks⟩ := Prod.mk.inj hcreated
            obtain rfl := Reply.created.inj hreply
            exact ⟨userId, repository.id, rfl, hlocks.symm⟩
    · intro table ours theirs repository hfound hverified
      have hread := verifyLocks_eq_locks hfound hverified
      rw [verifyLocks_of_found hfound hread, hsame hfound hread] at hverified
      exact ours_verifyLocksFor hverified
    · intro table lock repository hfound hwrite hworks hfind hlock
      rw [unlock_of_found hfound hwrite, hsame hfound (readAccess_of_writeAccess hwrite)]
      cases huser : (credentials.actor out signIn accounts).userId with
      | none =>
        refine iff_of_false (by simp [unlockFor]) ?_
        rintro (hholder | hadmin)
        · exact absurd hholder (by simp)
        · exact checkAdminister_of_none huser hadmin
      | some userId =>
        rw [checkAdminister_user huser (checkWrite_of_writeAccess hwrite)]
        simp only [unlockFor, hworks, hfind, hlock, ne_eq, not_true_eq_false, if_false,
          Option.some.injEq]
        by_cases hrefused : ¬ lock.ownerId = userId ∧
            ¬ checkAdminister w.db (.user userId) repository = .ok ()
        · rw [if_pos hrefused]
          refine iff_of_false (by simp) ?_
          rintro (hholder | hadmin)
          · exact hrefused.1 hholder.symm
          · exact hrefused.2 hadmin
        · rw [if_neg hrefused]
          refine iff_of_true rfl ?_
          by_cases hholder : userId = lock.ownerId
          · exact .inl hholder
          · exact .inr (not_not.1 fun hadmin => hrefused ⟨fun heq => hholder heq.symm, hadmin⟩)

/-! ### A git client has no session -/

/-- Ada holds a lock in her repository. -/
def adasLocks : LockTable := ⟨[⟨9, 5, "logo.psd", 1, 50⟩], fun _ => none, 60⟩

/-- What `git lfs` sends: her password in a Basic header. -/
def adasCredentials : Credentials := ⟨none, none, some "Basic YWRhQGVkZGEuZGV2OnR1bGlw"⟩

/-- The requests pass their checks as Ada's. Yet her lock is listed as somebody else's, she cannot
unlock it, and she cannot lock anything. -/
theorem git_client_has_no_locks :
    (adasCredentials.actor SignIn.adasOutside SignIn.adasConfig
        (SignIn.adasAccounts fun _ => none)).userId = some 1 ∧
      verifyLocks SignIn.adasOutside SignIn.adasConfig RepositoryRoutes.openConfig
        RepositoryRoutes.vaultWorld (SignIn.adasAccounts fun _ => none) adasCredentials "ada"
        "vault.git" adasLocks = .locks [] [⟨9, "logo.psd"⟩] ∧
      (unlock SignIn.adasOutside SignIn.adasConfig RepositoryRoutes.openConfig
        RepositoryRoutes.vaultWorld (SignIn.adasAccounts fun _ => none) adasCredentials "ada"
        "vault.git" adasLocks (some 9)).1 = .text 401 "" ∧
      (createLock SignIn.adasOutside SignIn.adasConfig RepositoryRoutes.openConfig
        RepositoryRoutes.vaultWorld (SignIn.adasAccounts fun _ => none) adasCredentials "ada"
        "vault.git" adasLocks 10 (.ok "icon.psd")).1 = .text 401 "" := by
  refine ⟨?_, ?_, ?_, ?_⟩ <;> decide +kernel

end Edda.App.LfsLocks
