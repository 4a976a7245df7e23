import Edda.App.RepositoryRoutes

/-!
# Private repositories

What an actor without access to a private repository can tell of it: the reply to each request that
names the repository is compared with the reply to the same request where the name has no
repository. The pure access rules mask such a repository everywhere; what tells it apart is a route
that answers before it asks them, or that never does.

`indistinguishable_iff` says exactly which requests cannot tell.
-/

set_option autoImplicit false

namespace Edda.App.RepositoryRoutes

open Edda.Domain Edda.Db Edda.Auth Edda.Git Edda.Support Edda.Support.RustText

/-! ## The comparison -/

section Comparison

variable {σ π : Type}

/-- The repository of a name. -/
def named (db : Database) (owner name : String) : Option Repository :=
  (db.repositories.find? fun row => row.ownerUsername = owner ∧ row.repository.name = name).map
    RepositoryRow.repository

/-- The same world with no repository under the name. -/
def World.without (w : World σ) (owner name : String) : World σ :=
  { w with
    db := { w.db with
      repositories := w.db.repositories.filter fun row =>
        !decide (row.ownerUsername = owner ∧ row.repository.name = name) }
    lfsFiles := Function.update w.lfsFiles (gitIdentity owner name) fun _ => none }

/-- The grants and the scope of the actor let it read the repository. -/
def ReadAccess (db : Database) (actor : ActorContext) (repository : Repository) : Prop :=
  checkRead { db with failing := fun _ => none } actor repository = .ok ()

instance (db : Database) (actor : ActorContext) (repository : Repository) :
    Decidable (ReadAccess db actor repository) := inferInstanceAs (Decidable (checkRead _ _ _ = _))

/-- The name is that of a private repository that the actor may not read. -/
structure Hides (w : World σ) (actor : ActorContext) (owner name : String)
    (repository : Repository) : Prop where
  named : named w.db owner name = some repository
  isPrivate : repository.isPrivate = true
  unreadable : ¬ ReadAccess w.db actor repository

/-- The repositories that a call names. -/
def Call.names (owner name : String) : Call π → List (String × String)
  | .openPull input _ => (owner, name) :: match input.foreignOwner owner with
    | some sourceOwner => [(sourceOwner, name)]
    | none => []
  | _ => [(owner, name)]

/-- The repositories that a request names. -/
def Request.names (owner segment : String) : Request π → List (String × String)
  | .service call => call.names owner segment
  | .api call _ => call.names owner segment
  | .addCollaborator _ | .listCollaborators | .removeCollaborator _ | .uploadAsset _ _
  | .downloadAsset _ _ => [(owner, segment)]
  | _ => match repoName segment with
    | some name => [(owner, name)]
    | none => []

/-- The request leads to what it would lead to if a name that it hides had no repository, and
changes nothing. -/
def Indistinguishable (out : Outside σ π) (config : Config) (w : World σ) (actor : ActorContext)
    (owner segment : String) (request : Request π) : Prop :=
  ∀ pair ∈ request.names owner segment, ∀ repository, Hides w actor pair.1 pair.2 repository →
    handle out config w actor owner segment request =
      ((handle out config (w.without pair.1 pair.2) actor owner segment request).1, w)

/-! ## When it holds -/

/-- The number is read, and no pull request of the actor has it. -/
def NoPullOfAuthor (w : World σ) (actor : ActorContext) (repository : Repository) (number : Int) :
    Prop :=
  w.db.failing .findPullRequest = none ∧ ∀ pr ∈ w.db.pullRequests,
    w.db.pullRequests.find? (fun pr => pr.repositoryId = repository.id ∧ pr.number = number) =
      some pr → actor.userId ≠ some (w.pullRequestAuthor pr.id)

/-- The number is read, and a pull request that has it is open and has its reviews read. -/
def NoPullDecided (w : World σ) (repository : Repository) (number : Int) : Prop :=
  w.db.failing .findPullRequest = none ∧ ∀ pr ∈ w.db.pullRequests,
    w.db.pullRequests.find? (fun pr => pr.repositoryId = repository.id ∧ pr.number = number) =
      some pr → pr.state.isOpen = true ∧ w.db.failing .listReviews = none

/-- What is asked of a call for a repository that is found. -/
def Call.Fits (w : World σ) (actor : ActorContext) (repository : Repository) : Call π → Prop
  | .changePull _ number => NoPullOfAuthor w actor repository number
  | .commentPull _ number body _ =>
    trim body.toList ≠ [] → NoPullOfAuthor w actor repository number
  | .mergePull number _ =>
    (∃ user, actingUser w.db actor = .ok user) → NoPullDecided w repository number
  | .clearRepoWatch => False
  | _ => True

/-- The actor is let at the check of its role before it pushes. -/
def WriteFits (config : Config) (w : World σ) (actor : ActorContext) : Prop :=
  actor.permitsTokenScope .repoWrite = true ∧
    knownUnverified w.reads config.registration actor = false

/-- What is asked of a request for a repository that is found under `name`. -/
def Request.Fits (out : Outside σ π) (config : Config) (w : World σ) (actor : ActorContext)
    (owner name : String) (repository : Repository) : Request π → Prop
  | .service call => call.Fits w actor repository
  | .api call parsed => admitted config actor call parsed = .ok () → call.Fits w actor repository
  | .listCollaborators => ∀ id, actor ≠ .user id
  | .receivePack _ => WriteFits config w actor
  | .lfsBatch request => ∀ batch, request = .ok batch → batch.operation = "upload" →
    WriteFits config w actor
  | .uploadObject oid token _ => isValidOid oid = true →
    transferAllowed out (gitIdentity owner name) oid token .upload = false
  | .createLock path => ∀ text, path = .ok text → WriteFits config w actor
  | .unlock id => id.isSome → WriteFits config w actor
  | .uploadAsset _ _ => WriteFits config w actor
  | .downloadAsset tag _ => w.failing .findRelease = none ∧
    ∃ release, findRelease w repository.id tag = some release ∧
      (release.isVisibleToReaders = true ∨ WriteFits config w actor)
  | _ => True

/-- The stored object that a download is let at, whether or not its repository is found. -/
def Request.FitsFiles (out : Outside σ π) (w : World σ) (owner name : String) :
    Request π → Prop
  | .downloadObject oid token => isValidOid oid = true →
    transferAllowed out (gitIdentity owner name) oid token .download = true →
      w.lfsFiles (gitIdentity owner name) oid = none
  | _ => True

/-- When the repositories that a request hides cannot be told from none. A look-up that fails finds
no repository at all. -/
def Fits (out : Outside σ π) (config : Config) (w : World σ) (actor : ActorContext)
    (owner segment : String) (request : Request π) : Prop :=
  ∀ pair ∈ request.names owner segment, ∀ repository, Hides w actor pair.1 pair.2 repository →
    (w.db.failing .findRepository = none → pair.1 = owner →
      request.Fits out config w actor owner pair.2 repository) ∧
    request.FitsFiles out w owner pair.2

end Comparison

/-! ## What is hidden -/

section Hidden

variable {σ π : Type} {out : Outside σ π} {config : Config} {w : World σ} {actor : ActorContext}
  {owner name : String} {repository : Repository} {userId : UserId}

theorem findByOwnerUsernameAndName_eq (db : Database) (owner name : String) :
    db.findByOwnerUsernameAndName owner name = db.read .findRepository (named db owner name) := rfl

theorem repositoryByName_of_failing {db : Database} {err : DbError}
    (h : db.failing .findRepository = some err) (owner name : String) :
    repositoryByName db owner name = .error .notFound := by
  rw [repositoryByName, findByOwnerUsernameAndName_eq, Database.read, h]

theorem repositoryByName_of_named {db : Database} (h : db.failing .findRepository = none)
    (hnamed : named db owner name = some repository) :
    repositoryByName db owner name = .ok repository := by
  rw [repositoryByName, findByOwnerUsernameAndName_eq, Database.read, h, hnamed]

theorem repositoryByName_of_none {db : Database} (hnamed : named db owner name = none) :
    repositoryByName db owner name = .error .notFound := by
  rw [repositoryByName, findByOwnerUsernameAndName_eq, Database.read, hnamed]
  cases db.failing .findRepository <;> rfl

/-- A repository that is not found is not found in any way. -/
theorem eq_notFound_of_repositoryByName {db : Database} {err : AuthzError}
    (h : repositoryByName db owner name = .error err) : err = .notFound := by
  rw [repositoryByName] at h
  split at h
  · exact (Except.error.inj h).symm
  · exact (Except.error.inj h).symm
  · cases h

theorem named_without (w : World σ) (owner name : String) :
    named (w.without owner name).db owner name = none := by
  simp only [named, World.without, Option.map_eq_none_iff, List.find?_eq_none, List.mem_filter]
  rintro row ⟨-, hrow⟩ hnamed
  simp [hnamed] at hrow

theorem named_without_of_ne {otherOwner otherName : String}
    (h : ¬ (otherOwner = owner ∧ otherName = name)) :
    named (w.without owner name).db otherOwner otherName = named w.db otherOwner otherName := by
  simp only [named, World.without, List.find?_filter]
  congr 2
  funext row
  by_cases hrow : row.ownerUsername = otherOwner ∧ row.repository.name = otherName
  · obtain ⟨rfl, rfl⟩ := hrow
    simp [h]
  · simp [hrow]

theorem repositoryByName_without (w : World σ) (owner name : String) :
    repositoryByName (w.without owner name).db owner name = .error .notFound :=
  repositoryByName_of_none (named_without w owner name)

theorem repositoryByName_without_of_ne {otherOwner otherName : String}
    (h : ¬ (otherOwner = owner ∧ otherName = name)) :
    repositoryByName (w.without owner name).db otherOwner otherName =
      repositoryByName w.db otherOwner otherName := by
  simp only [repositoryByName, findByOwnerUsernameAndName_eq, named_without_of_ne h]
  rfl

theorem name_of_named {db : Database} (h : named db owner name = some repository) :
    repository.name = name := by
  simp only [named, Option.map_eq_some_iff] at h
  obtain ⟨row, hrow, rfl⟩ := h
  have hnamed := List.find?_some hrow
  simp only [decide_eq_true_eq] at hnamed
  exact hnamed.2

/-- Whatever the grants that are read, they are those that there are. -/
theorem accessFor_cases (db : Database) (actor : ActorContext) (repository : Repository) :
    ∃ access, accessFor { db with failing := fun _ => none } actor repository = .ok access ∧
      (accessFor db actor repository = .error .notFound ∨
        accessFor db actor repository = .ok access) := by
  cases huser : actor.userId with
  | none => exact ⟨none, by rw [accessFor, huser], .inr (by rw [accessFor, huser])⟩
  | some userId =>
    simp only [accessFor, huser, Database.findAccess, Database.teamRolesForUser, Database.read]
    refine ⟨_, rfl, ?_⟩
    cases db.failing .findAccess with
    | some err => exact .inl rfl
    | none =>
      cases db.failing .teamRoles with
      | some err => exact .inl rfl
      | none => exact .inr rfl

/-- Every grant that the actor has is out of the scope of its token. -/
def OutOfScope (actor : ActorContext) (repository : Repository) (access : Option RepoAccess) :
    Prop :=
  access.isSome → tokenScopePermits actor repository = false

theorem requireRole_of_outOfScope {access : Option RepoAccess} (huser : actor.userId = some userId)
    (hprivate : repository.isPrivate = true) (h : OutOfScope actor repository access)
    (minimum : RepoRole) : requireRole actor repository access minimum = .error .notFound := by
  have hmasked : notPermitted repository = .notFound := by rw [notPermitted, if_pos hprivate]
  cases actor with
  | deployKey id readOnly => cases huser
  | _ =>
    cases access with
    | none => simp [requireRole, hmasked]
    | some access => simp [requireRole, hmasked, h rfl]

theorem canReadRepository_of_outOfScope {access : Option RepoAccess}
    (huser : actor.userId = some userId) (hprivate : repository.isPrivate = true)
    (h : OutOfScope actor repository access) :
    canReadRepository actor repository access = .error .notFound := by
  cases actor with
  | deployKey id readOnly => cases huser
  | _ =>
    cases access with
    | none => simp [canReadRepository, hprivate]
    | some access => simp [canReadRepository, hprivate, h rfl]

theorem outOfScope_of_canReadRepository {access : Option RepoAccess}
    (huser : actor.userId = some userId)
    (h : canReadRepository actor repository access ≠ .ok ()) :
    OutOfScope actor repository access := by
  intro haccess
  cases actor with
  | deployKey id readOnly => cases huser
  | _ =>
    by_contra hpermits
    rw [Bool.not_eq_false] at hpermits
    apply h
    by_cases hpublic : repository.isPrivate = false
    · simp [canReadRepository, hpublic]
    · simp [canReadRepository, hpublic, haccess, hpermits]

/-- A decision that masks what is out of scope is never reached by a hidden repository. -/
theorem Hides.checkWith (h : Hides w actor owner name repository)
    (huser : actor.userId = some userId) {decision : Option RepoAccess → Except AuthzError Unit}
    (hdecision : ∀ access, OutOfScope actor repository access →
      decision access = .error .notFound) :
    checkWith w.db actor repository decision = .error .notFound := by
  obtain ⟨access, hall, hread⟩ := accessFor_cases w.db actor repository
  have hscope : OutOfScope actor repository access := by
    apply outOfScope_of_canReadRepository huser
    intro hok
    apply h.unreadable
    rw [ReadAccess, checkRead, Auth.checkWith, hall]
    exact hok
  rw [Auth.checkWith]
  rcases hread with hread | hread
  · rw [hread]
  · rw [hread]
    exact hdecision access hscope

theorem Hides.checkGate (h : Hides w actor owner name repository)
    (huser : actor.userId = some userId) (gate : Gate) :
    checkGate w.db actor repository gate = .error .notFound := by
  cases gate with
  | read =>
    exact h.checkWith huser fun access => canReadRepository_of_outOfScope huser h.isPrivate
  | write =>
    exact h.checkWith huser fun access hscope =>
      requireRole_of_outOfScope huser h.isPrivate hscope _
  | administer =>
    exact h.checkWith huser fun access hscope =>
      requireRole_of_outOfScope huser h.isPrivate hscope _
  | dangerZone =>
    exact h.checkWith huser fun access hscope =>
      requireRole_of_outOfScope huser h.isPrivate hscope _

theorem Hides.checkMergePullRequest (h : Hides w actor owner name repository)
    (huser : actor.userId = some userId) (targetBranch : String) (reviews : List PrReview) :
    checkMergePullRequest w.db actor repository targetBranch reviews = .error .notFound := by
  apply h.checkWith huser
  intro access hscope
  split
  · rfl
  · simp only [canMergePullRequest, canWriteRepository,
      requireRole_of_outOfScope huser h.isPrivate hscope]

theorem Hides.lookup (h : Hides w actor owner name repository)
    (hread : w.db.failing .findRepository = none) :
    repositoryByName w.db owner name = .ok repository := repositoryByName_of_named hread h.named

/-- The check of a role fails as the look-up of a name that has no repository does. -/
theorem Hides.checked (h : Hides w actor owner name repository) (huser : actor.userId = some userId)
    (gate : Gate) : checked w.db actor gate owner name = .error .notFound := by
  rw [RepositoryRoutes.checked]
  cases hread : w.db.failing .findRepository with
  | some err => rw [repositoryByName_of_failing hread]; rfl
  | none => rw [h.lookup hread]; simp only [h.checkGate huser]; rfl

theorem checked_without (w : World σ) (actor : ActorContext) (gate : Gate) (owner name : String) :
    RepositoryRoutes.checked (w.without owner name).db actor gate owner name = .error .notFound := by
  rw [RepositoryRoutes.checked, repositoryByName_without]
  rfl

theorem asked_without (w : World σ) (actor : ActorContext) (owner name : String) (asks : Asks) :
    asked (w.without owner name).db actor asks = asked w.db actor asks := by
  cases asks <;> rfl

end Hidden

/-! ## The calls -/

section Calls

variable {σ π : Type} {out : Outside σ π} {config : Config} {w : World σ} {actor : ActorContext}
  {owner name : String} {repository : Repository} {userId : UserId}

/-- The outcomes of a call with and without the repository agree: they are one error, and nothing
is changed. -/
def Agree (w : World σ) (result missing : Except ServiceError String × World σ) : Prop :=
  ∃ err, result = (.error err, w) ∧ missing.1 = .error err

/-- The outcomes differ: without the repository it is not found. -/
def Differ (result missing : Except ServiceError String × World σ) : Prop :=
  result.1 ≠ .error .notFound ∧ missing.1 = .error .notFound

/-- The outcomes agree where `fits` holds, and differ elsewhere. -/
structure AgreeIf (w : World σ) (result missing : Except ServiceError String × World σ)
    (fits : Prop) : Prop where
  agree : fits → Agree w result missing
  differ : ¬ fits → Differ result missing

theorem AgreeIf.of_agree {result missing : Except ServiceError String × World σ} {fits : Prop}
    (hfits : fits) (h : Agree w result missing) : AgreeIf w result missing fits :=
  ⟨fun _ => h, fun hnot => absurd hfits hnot⟩

theorem AgreeIf.of_differ {result missing : Except ServiceError String × World σ} {fits : Prop}
    (hfits : ¬ fits) (h : Differ result missing) : AgreeIf w result missing fits :=
  ⟨fun hholds => absurd hholds hfits, fun _ => h⟩

theorem agree_guarded (h : Hides w actor owner name repository)
    (huser : actor.userId = some userId) (method : Method) (payload : π) :
    Agree w (guarded out w actor owner name method payload)
      (guarded out (w.without owner name) actor owner name method payload) := by
  simp only [guarded, asked_without, h.checked huser, checked_without]
  cases asked w.db actor method.asks with
  | error err => exact ⟨err, rfl, rfl⟩
  | ok _ =>
    cases method.invalid with
    | some err => exact ⟨err, rfl, rfl⟩
    | none => exact ⟨.notFound, rfl, rfl⟩

/-- Opening a pull request checks that its target may be read, or written, before all else. -/
theorem Hides.checkOpen_target (h : Hides w actor owner name repository)
    (huser : actor.userId = some userId) (source : Repository) :
    checkOpen w.db actor source repository = .error .notFound := by
  rw [checkOpen]
  split
  · exact h.checkGate huser .write
  · obtain ⟨access, hall, hread⟩ := accessFor_cases w.db actor repository
    obtain ⟨sourceAccess, -, hsource⟩ := accessFor_cases w.db actor source
    have hscope : OutOfScope actor repository access := by
      apply outOfScope_of_canReadRepository huser
      intro hok
      apply h.unreadable
      rw [ReadAccess, checkRead, Auth.checkWith, hall]
      exact hok
    rw [checkOpenCrossRepoPullRequest]
    rcases hsource with hsource | hsource
    · rw [hsource]
    · rcases hread with hread | hread
      · simp only [hsource, hread]
      · simp only [hsource, hread, canOpenCrossRepoPullRequest,
          canReadRepository_of_outOfScope huser h.isPrivate hscope]

theorem canReadRepository_error {access : Option RepoAccess} {err : AuthzError}
    (h : canReadRepository actor repository access = .error err) : err = .notFound := by
  cases actor with
  | deployKey id readOnly =>
    simp only [canReadRepository] at h
    split at h
    · cases h
    · exact (Except.error.inj h).symm
  | _ =>
    simp only [canReadRepository] at h
    split at h
    · cases h
    · split at h
      · cases h
      · exact (Except.error.inj h).symm

/-- Opening a pull request from a fork checks that the fork may be written. -/
theorem Hides.checkOpen_source (h : Hides w actor owner name repository)
    (huser : actor.userId = some userId) {target : Repository} (hne : repository.id ≠ target.id) :
    checkOpen w.db actor repository target = .error .notFound := by
  obtain ⟨access, hall, hread⟩ := accessFor_cases w.db actor repository
  obtain ⟨targetAccess, -, htarget⟩ := accessFor_cases w.db actor target
  have hscope : OutOfScope actor repository access := by
    apply outOfScope_of_canReadRepository huser
    intro hok
    apply h.unreadable
    rw [ReadAccess, checkRead, Auth.checkWith, hall]
    exact hok
  rw [checkOpen, if_neg hne, checkOpenCrossRepoPullRequest]
  rcases hread with hread | hread
  · rw [hread]
  · rcases htarget with htarget | htarget
    · simp only [hread, htarget]
    · simp only [hread, htarget, canOpenCrossRepoPullRequest, canWriteRepository,
        requireRole_of_outOfScope huser h.isPrivate hscope]
      split
      · rename_i err herr
        rw [canReadRepository_error herr]
      · rfl

theorem agree_openPull_target (h : Hides w actor owner name repository)
    (huser : actor.userId = some userId) (input : NewPullRequestInput) (payload : π) :
    Agree w (openPull out w actor owner name input payload)
      (openPull out (w.without owner name) actor owner name input payload) := by
  simp only [openPull, huser, repositoryByName_without]
  by_cases htitle : trim input.title.toList = []
  · rw [if_pos htitle, if_pos htitle]
    exact ⟨_, rfl, rfl⟩
  · rw [if_neg htitle, if_neg htitle]
    refine ⟨.notFound, ?_, rfl⟩
    cases hread : w.db.failing .findRepository with
    | some err => simp only [repositoryByName_of_failing hread]; rfl
    | none =>
      simp only [h.lookup hread]
      cases input.foreignOwner owner with
      | none => simp only [h.checkOpen_target huser]; rfl
      | some sourceOwner =>
        dsimp only
        cases hsource : repositoryByName w.db sourceOwner name with
        | error err => rw [eq_notFound_of_repositoryByName hsource]; rfl
        | ok source => simp only [h.checkOpen_target huser]; rfl

/-- Two names of one repository are one name, by the key of the table. -/
theorem owner_eq_of_named {db : Database} {otherOwner : String} {other : Repository}
    (hids : (db.repositories.map fun row => row.repository.id).Nodup)
    (h : named db owner name = some repository) (hother : named db otherOwner name = some other)
    (hid : repository.id = other.id) : owner = otherOwner := by
  simp only [named, Option.map_eq_some_iff] at h hother
  obtain ⟨row, hrow, rfl⟩ := h
  obtain ⟨otherRow, hotherRow, rfl⟩ := hother
  have hsame : row = otherRow := List.inj_on_of_nodup_map hids (List.mem_of_find?_eq_some hrow)
    (List.mem_of_find?_eq_some hotherRow) hid
  have howner := List.find?_some hrow
  have hotherOwner := List.find?_some hotherRow
  simp only [decide_eq_true_eq] at howner hotherOwner
  rw [← howner.1, ← hotherOwner.1, hsame]

theorem foreignOwner_ne {input : NewPullRequestInput} {sourceOwner : String}
    (h : input.foreignOwner owner = some sourceOwner) : owner ≠ sourceOwner := by
  rintro rfl
  simp only [NewPullRequestInput.foreignOwner, Option.filter_eq_some_iff] at h
  simp [eqIgnoreAsciiCase] at h

theorem agree_openPull_source {sourceOwner : String} {input : NewPullRequestInput}
    (hids : (w.db.repositories.map fun row => row.repository.id).Nodup)
    (h : Hides w actor sourceOwner name repository) (huser : actor.userId = some userId)
    (hforeign : input.foreignOwner owner = some sourceOwner) (payload : π) :
    Agree w (openPull out w actor owner name input payload)
      (openPull out (w.without sourceOwner name) actor owner name input payload) := by
  have hne : ¬ (owner = sourceOwner ∧ name = name) := fun hsame =>
    foreignOwner_ne hforeign hsame.1
  simp only [openPull, huser, hforeign, repositoryByName_without,
    repositoryByName_without_of_ne hne]
  by_cases htitle : trim input.title.toList = []
  · rw [if_pos htitle, if_pos htitle]
    exact ⟨_, rfl, rfl⟩
  · rw [if_neg htitle, if_neg htitle]
    cases htarget : repositoryByName w.db owner name with
    | error err =>
      rw [eq_notFound_of_repositoryByName htarget]
      exact ⟨.notFound, rfl, rfl⟩
    | ok target =>
      refine ⟨.notFound, ?_, rfl⟩
      cases hread : w.db.failing .findRepository with
      | some err =>
        rw [repositoryByName_of_failing hread] at htarget
        cases htarget
      | none =>
        have hnamed : named w.db owner name = some target := by
          rw [repositoryByName, findByOwnerUsernameAndName_eq, Database.read, hread] at htarget
          cases hnamed : named w.db owner name with
          | none => rw [hnamed] at htarget; cases htarget
          | some found => rw [hnamed] at htarget; rw [Except.ok.inj htarget]
        have hid : repository.id ≠ target.id := fun hid =>
          foreignOwner_ne hforeign (owner_eq_of_named hids h.named hnamed hid).symm
        simp only [h.lookup hread, h.checkOpen_source huser hid]
        rfl

/-! ### The author of a pull request -/

/-- What an author's operation finds out about a hidden repository. -/
theorem Hides.authorOrWriteChecked (h : Hides w actor owner name repository)
    (huser : actor.userId = some userId) (number : Int) :
    (¬ (w.db.failing .findRepository = none → NoPullOfAuthor w actor repository number) ∧
      authorOrWriteChecked w actor owner name number ≠ .error .notFound) ∨
    ((w.db.failing .findRepository = none → NoPullOfAuthor w actor repository number) ∧
      authorOrWriteChecked w actor owner name number = .error .notFound) := by
  simp only [RepositoryRoutes.authorOrWriteChecked, huser]
  cases hread : w.db.failing .findRepository with
  | some err =>
    refine .inr ⟨nofun, ?_⟩
    rw [repositoryByName_of_failing hread]
    rfl
  | none =>
    simp only [h.lookup hread, Database.findPullRequest, Database.read, NoPullOfAuthor, huser,
      true_implies]
    cases w.db.failing .findPullRequest with
    | some err => simp
    | none =>
      cases hfind : w.db.pullRequests.find? fun pr =>
          pr.repositoryId = repository.id ∧ pr.number = number with
      | none => simp
      | some pr =>
        have hmem : pr ∈ w.db.pullRequests := List.mem_of_find?_eq_some hfind
        have hwrite : checkWrite w.db actor repository = .error .notFound :=
          h.checkGate huser .write
        by_cases hauthor : w.pullRequestAuthor pr.id = userId
        · simp [hauthor, hmem]
        · have hne : userId ≠ w.pullRequestAuthor pr.id := fun hsame => hauthor hsame.symm
          simp only [ServiceError.ofAuthz, hauthor, if_false, hwrite, Option.some.injEq, ne_eq]
          refine .inr ⟨⟨trivial, ?_⟩, trivial⟩
          rintro other - rfl
          exact hne

theorem authorOrWriteChecked_without (w : World σ) (huser : actor.userId = some userId)
    (number : Int) :
    RepositoryRoutes.authorOrWriteChecked (w.without owner name) actor owner name number =
      .error .notFound := by
  simp only [RepositoryRoutes.authorOrWriteChecked, huser, repositoryByName_without]
  rfl

theorem check_ne_notFound (op : PullOp) (state : PrState) :
    op.check state ≠ .error .notFound := by
  cases op with
  | reopen reopenedBy => cases state <;> simp [PullOp.check]
  | _ =>
    rw [PullOp.check]
    split <;> simp

theorem agreeIf_changePull (h : Hides w actor owner name repository)
    (huser : actor.userId = some userId) (op : AuthorOp) (number : Int) :
    AgreeIf w (changePull w actor owner name op number)
      (changePull (w.without owner name) actor owner name op number)
      (w.db.failing .findRepository = none → NoPullOfAuthor w actor repository number) := by
  have hmissing : (changePull (w.without owner name) actor owner name op number).1 =
      .error .notFound := by
    rw [changePull, authorOrWriteChecked_without w huser]
  rcases h.authorOrWriteChecked huser number with ⟨hfits, hfound⟩ | ⟨hfits, hhidden⟩
  · refine .of_differ hfits ⟨?_, hmissing⟩
    rw [changePull]
    split
    · rename_i err herr
      rw [herr] at hfound
      exact fun hsame => hfound (by simpa using hsame)
    · rename_i found pr other hok
      split
      · rename_i err herr
        intro hsame
        apply check_ne_notFound (op.pullOp other) pr.state
        rw [herr]
        exact congrArg Except.error (Except.error.inj hsame)
      · split <;> simp
  · refine .of_agree hfits ⟨.notFound, ?_, hmissing⟩
    rw [changePull, hhidden]

theorem agreeIf_commentPull (h : Hides w actor owner name repository)
    (huser : actor.userId = some userId) (id : BitVec 128) (number : Int) (body : String)
    (anchor : Option DiffAnchor) :
    AgreeIf w (commentPull out w actor owner name id number body anchor)
      (commentPull out (w.without owner name) actor owner name id number body anchor)
      (w.db.failing .findRepository = none → trim body.toList ≠ [] →
        NoPullOfAuthor w actor repository number) := by
  by_cases hblank : trim body.toList = []
  · refine .of_agree (fun _ hne => absurd hblank hne)
      ⟨.validation "a comment can't be empty", ?_, ?_⟩ <;>
      simp [commentPull, hblank]
  · have hbody : String.ofList (trim body.toList) ≠ "" := by
      intro hempty
      apply hblank
      simpa using congrArg String.toList hempty
    have hmissing : (commentPull out (w.without owner name) actor owner name id number body
        anchor).1 = .error .notFound := by
      simp only [commentPull, if_neg hbody, authorOrWriteChecked_without w huser]
    rcases h.authorOrWriteChecked huser number with ⟨hfits, hfound⟩ | ⟨hfits, hhidden⟩
    · refine .of_differ (fun hall => hfits fun hread => hall hread hblank) ⟨?_, hmissing⟩
      simp only [commentPull, if_neg hbody]
      split
      · rename_i err herr
        rw [herr] at hfound
        exact fun hsame => hfound (by simpa using hsame)
      · split
        · simp
        · split <;> simp
    · refine .of_agree (fun hread _ => hfits hread) ⟨.notFound, ?_, hmissing⟩
      simp only [commentPull, if_neg hbody, hhidden]

/-! ### Merging and watching -/

theorem agreeIf_mergePull (h : Hides w actor owner name repository)
    (huser : actor.userId = some userId) (number : Int) (payload : π) :
    AgreeIf w (mergePull out w actor owner name number payload)
      (mergePull out (w.without owner name) actor owner name number payload)
      (w.db.failing .findRepository = none → (∃ user, actingUser w.db actor = .ok user) →
        NoPullDecided w repository number) := by
  have hacting : actingUser (w.without owner name).db actor = actingUser w.db actor := rfl
  simp only [mergePull, mergeGate, hacting, repositoryByName_without]
  cases huserRow : actingUser w.db actor with
  | error err =>
    refine .of_agree ?_ ⟨err, rfl, rfl⟩
    rintro - ⟨user, hok⟩
    cases hok
  | ok user =>
    cases hread : w.db.failing .findRepository with
    | some err =>
      refine .of_agree (fun hnone => by cases hnone) ⟨.notFound, ?_, rfl⟩
      rw [repositoryByName_of_failing hread]
      rfl
    | none =>
      simp only [h.lookup hread, Database.findPullRequest, Database.read, NoPullDecided,
        true_implies]
      cases w.db.failing .findPullRequest with
      | some err =>
        refine .of_differ ?_ ⟨by simp, rfl⟩
        intro hfits
        cases (hfits ⟨user, rfl⟩).1
      | none =>
        cases hfind : w.db.pullRequests.find? fun pr =>
            pr.repositoryId = repository.id ∧ pr.number = number with
        | none => exact .of_agree (fun _ => ⟨rfl, by simp⟩) ⟨.notFound, rfl, rfl⟩
        | some pr =>
          have hmem : pr ∈ w.db.pullRequests := List.mem_of_find?_eq_some hfind
          dsimp only
          by_cases hopen : pr.state.isOpen = true
          · simp only [mergeCheck, hopen, if_true, Database.listReviews, Database.read]
            cases w.db.failing .listReviews with
            | some err =>
              refine .of_differ ?_ ⟨by simp, rfl⟩
              intro hfits
              cases ((hfits ⟨user, rfl⟩).2 pr hmem rfl).2
            | none =>
              simp only [h.checkMergePullRequest huser]
              refine .of_agree (fun _ => ⟨trivial, ?_⟩) ⟨.notFound, rfl, rfl⟩
              intro other _ hother
              obtain rfl := Option.some.inj hother
              exact ⟨hopen, trivial⟩
          · simp only [mergeCheck, hopen]
            refine .of_differ ?_ ⟨by simp, rfl⟩
            intro hfits
            exact hopen ((hfits ⟨user, rfl⟩).2 pr hmem rfl).1

theorem agreeIf_clearRepoWatch (h : Hides w actor owner name repository)
    (huser : actor.userId = some userId) :
    AgreeIf w (clearRepoWatch w actor owner name)
      (clearRepoWatch (w.without owner name) actor owner name)
      (w.db.failing .findRepository = none → False) := by
  simp only [clearRepoWatch, huser, repositoryByName_without]
  cases hread : w.db.failing .findRepository with
  | some err =>
    refine .of_agree (fun hnone => by cases hnone) ⟨.notFound, ?_, rfl⟩
    rw [repositoryByName_of_failing hread]
    rfl
  | none =>
    refine .of_differ (fun hfits => hfits rfl) ⟨?_, rfl⟩
    simp only [h.lookup hread]
    split <;> simp

/-- A call for a repository that is hidden. -/
theorem agreeIf_call (h : Hides w actor owner name repository) (huser : actor.userId = some userId)
    (request : Call π) :
    AgreeIf w (call out w actor owner name request)
      (call out (w.without owner name) actor owner name request)
      (w.db.failing .findRepository = none → request.Fits w actor repository) := by
  cases request with
  | guarded method payload =>
    exact .of_agree (fun _ => trivial) (agree_guarded h huser method payload)
  | openPull input payload =>
    exact .of_agree (fun _ => trivial) (agree_openPull_target h huser input payload)
  | changePull op number => exact agreeIf_changePull h huser op number
  | commentPull id number body anchor => exact agreeIf_commentPull h huser id number body anchor
  | mergePull number payload => exact agreeIf_mergePull h huser number payload
  | clearRepoWatch => exact agreeIf_clearRepoWatch h huser

/-- A call for any of the repositories that it names. -/
theorem agreeIf_names (hids : (w.db.repositories.map fun row => row.repository.id).Nodup)
    (huser : actor.userId = some userId) (request : Call π) {pair : String × String}
    (hpair : pair ∈ request.names owner name) (h : Hides w actor pair.1 pair.2 repository) :
    AgreeIf w (call out w actor owner name request)
      (call out (w.without pair.1 pair.2) actor owner name request)
      (w.db.failing .findRepository = none → pair.1 = owner →
        request.Fits w actor repository) := by
  have htarget (hsame : pair = (owner, name)) :
      AgreeIf w (call out w actor owner name request)
        (call out (w.without pair.1 pair.2) actor owner name request)
        (w.db.failing .findRepository = none → pair.1 = owner →
          request.Fits w actor repository) := by
    subst hsame
    have hcall : AgreeIf w (call out w actor owner name request) _ _ :=
      agreeIf_call h huser request
    exact ⟨fun hfits => hcall.agree fun hread => hfits hread rfl,
      fun hnot => hcall.differ fun hfits => hnot fun hread _ => hfits hread⟩
  cases request with
  | openPull input payload =>
    simp only [Call.names, List.mem_cons] at hpair
    rcases hpair with hsame | hsource
    · exact htarget hsame
    · cases hforeign : input.foreignOwner owner with
      | none => simp [hforeign] at hsource
      | some sourceOwner =>
        simp only [hforeign, List.mem_singleton] at hsource
        subst hsource
        exact .of_agree (fun _ _ => trivial) (agree_openPull_source hids h huser hforeign payload)
  | _ => exact htarget (List.mem_singleton.1 hpair)

end Calls

/-! ## The requests -/

section Requests

variable {σ π : Type} {out : Outside σ π} {config : Config} {w : World σ} {actor : ActorContext}
  {owner name segment : String} {repository : Repository} {userId : UserId}

/-- The replies agree, with nothing changed, where `fits` holds, and differ elsewhere. -/
structure MaskedIf (w : World σ) (result missing : Reply × World σ) (fits : Prop) : Prop where
  agree : fits → result = (missing.1, w)
  differ : ¬ fits → result.1 ≠ missing.1

theorem MaskedIf.iff {result missing : Reply × World σ} {fits : Prop}
    (h : MaskedIf w result missing fits) : result = (missing.1, w) ↔ fits := by
  refine ⟨fun hsame => ?_, h.agree⟩
  by_contra hnot
  exact h.differ hnot (by rw [hsame])

theorem MaskedIf.congr {result missing : Reply × World σ} {fits other : Prop}
    (h : MaskedIf w result missing fits) (hiff : fits ↔ other) :
    MaskedIf w result missing other :=
  ⟨fun hother => h.agree (hiff.2 hother), fun hnot => h.differ fun hfits => hnot (hiff.1 hfits)⟩

theorem MaskedIf.same (reply : Reply) {missing : World σ} {fits : Prop} (h : fits) :
    MaskedIf w (reply, w) (reply, missing) fits :=
  ⟨fun _ => rfl, fun hnot => absurd h hnot⟩

theorem maskedIf_service {result missing : Except ServiceError String × World σ} {fits : Prop}
    (h : AgreeIf w result missing fits) :
    MaskedIf w (serviceReply result) (serviceReply missing) fits := by
  obtain ⟨missing, missingWorld⟩ := missing
  constructor
  · intro hfits
    obtain ⟨err, rfl, hmissing⟩ := h.agree hfits
    simp only at hmissing
    subst hmissing
    rfl
  · intro hnot
    obtain ⟨hresult, hmissing⟩ := h.differ hnot
    simp only at hmissing
    subst hmissing
    rcases result with ⟨err | value, after⟩
    · intro hsame
      exact hresult (congrArg Except.error (Reply.failed.inj hsame))
    · intro hsame
      cases hsame

/-- Only what is not found is answered as such. -/
theorem eq_notFound_of_errorReply {err : ServiceError}
    (h : errorReply err = errorReply .notFound) : err = .notFound := by
  have hstatus : httpStatus err = 404 := (Reply.error.inj h).1
  cases err with
  | notFound => rfl
  | git err => cases err <;> cases hstatus
  | _ => cases hstatus

theorem maskedIf_api {result missing : Except ServiceError String × World σ} {fits : Prop}
    (h : AgreeIf w result missing fits) :
    MaskedIf w (apiReply result) (apiReply missing) fits := by
  obtain ⟨missing, missingWorld⟩ := missing
  constructor
  · intro hfits
    obtain ⟨err, rfl, hmissing⟩ := h.agree hfits
    simp only at hmissing
    subst hmissing
    rfl
  · intro hnot
    obtain ⟨hresult, hmissing⟩ := h.differ hnot
    simp only at hmissing
    subst hmissing
    rcases result with ⟨err | value, after⟩
    · intro hsame
      exact hresult (congrArg Except.error (eq_notFound_of_errorReply hsame))
    · intro hsame
      cases hsame

/-! ### The routes outside of the REST surface -/

theorem onRepository_without (w : World σ) (check : Repository → Except Response Unit)
    (next : Repository → Reply × World σ) :
    onRepository (w.without owner name) owner name check next =
      (.response (notFoundResponse owner name), w.without owner name) := by
  rw [onRepository, repositoryByName_without]

/-- A route whose check masks the repository where `fits` holds, and refuses in another way
elsewhere. -/
theorem maskedIf_onRepository {fits : Prop} {check missingCheck : Repository → Except Response Unit}
    {next missingNext : Repository → Reply × World σ} (h : Hides w actor owner name repository)
    (hmask : fits → check repository = .error (notFoundResponse owner name))
    (htell : ¬ fits → ∃ response, check repository = .error response ∧
      response ≠ notFoundResponse owner name) :
    MaskedIf w (onRepository w owner name check next)
      (onRepository (w.without owner name) owner name missingCheck missingNext)
      (w.db.failing .findRepository = none → fits) := by
  rw [onRepository_without]
  cases hread : w.db.failing .findRepository with
  | some err =>
    rw [onRepository, repositoryByName_of_failing hread]
    exact .same _ nofun
  | none =>
    simp only [onRepository, h.lookup hread]
    constructor
    · intro hfits
      rw [hmask (hfits trivial)]
    · intro hnot
      obtain ⟨response, hcheck, hne⟩ := htell fun hfits => hnot fun _ => hfits
      rw [hcheck]
      exact fun hsame => hne (Reply.response.inj hsame)

/-- A route without a check, that never answers as for a missing repository. -/
theorem maskedIf_unchecked {missingCheck : Repository → Except Response Unit}
    {next missingNext : Repository → Reply × World σ} (h : Hides w actor owner name repository)
    (hnext : (next repository).1 ≠ .response (notFoundResponse owner name)) :
    MaskedIf w (onRepository w owner name (fun _ => .ok ()) next)
      (onRepository (w.without owner name) owner name missingCheck missingNext)
      (w.db.failing .findRepository = none → False) := by
  rw [onRepository_without]
  cases hread : w.db.failing .findRepository with
  | some err =>
    rw [onRepository, repositoryByName_of_failing hread]
    exact .same _ nofun
  | none =>
    simp only [onRepository, h.lookup hread]
    exact ⟨fun hfits => (hfits trivial).elim, fun _ => hnext⟩

theorem Hides.requireReadAccess (h : Hides w actor owner name repository)
    (huser : actor.userId = some userId) :
    requireReadAccess config w actor owner repository =
      .error (notFoundResponse owner name) := by
  have hsigned : actor ≠ .anonymous := by
    rintro rfl
    cases huser
  have hread : checkRead w.db actor repository = .error .notFound := h.checkGate huser .read
  simp [RepositoryRoutes.requireReadAccess, hsigned, h.isPrivate, hread, name_of_named h.named]

theorem Hides.requireWriteAccess (h : Hides w actor owner name repository)
    (huser : actor.userId = some userId) (hfits : WriteFits config w actor) :
    requireWriteAccess w.reads config.registration actor owner repository =
      .error (notFoundResponse owner name) := by
  have hsigned : actor ≠ .anonymous := by
    rintro rfl
    cases huser
  have hwrite : checkWrite w.reads.access actor repository = .error .notFound :=
    h.checkGate huser .write
  simp [App.requireWriteAccess, hfits.1, hfits.2, hwrite, hsigned, name_of_named h.named]

/-- A token or an account that may not push is told so before its role is looked at. -/
theorem requireWriteAccess_of_not_fits (hfits : ¬ WriteFits config w actor) :
    ∃ response, requireWriteAccess w.reads config.registration actor owner repository =
      .error response ∧ response ≠ notFoundResponse owner name := by
  have hstatus (text : String) : (⟨403, text⟩ : Response) ≠ notFoundResponse owner name := by
    intro hsame
    cases congrArg Response.status hsame
  rw [App.requireWriteAccess]
  by_cases hscope : actor.permitsTokenScope .repoWrite = false
  · rw [if_pos hscope]
    exact ⟨_, rfl, hstatus _⟩
  · have hunverified : knownUnverified w.reads config.registration actor = true := by
      by_contra hverified
      exact hfits ⟨Bool.not_eq_false _ ▸ hscope, Bool.not_eq_true _ ▸ hverified⟩
    rw [if_neg hscope, if_pos hunverified]
    exact ⟨_, rfl, hstatus _⟩

theorem maskedIf_readRoute (h : Hides w actor owner name repository)
    (huser : actor.userId = some userId) (request : Request π) :
    MaskedIf w (readRoute out config w actor owner name request)
      (readRoute out config (w.without owner name) actor owner name request) True := by
  refine (maskedIf_onRepository h (fun _ => h.requireReadAccess huser)
    fun hnot => absurd trivial hnot).congr ?_
  simp

theorem maskedIf_writeRoute (h : Hides w actor owner name repository)
    (huser : actor.userId = some userId) (request : Request π) :
    MaskedIf w (writeRoute out config w actor owner name request)
      (writeRoute out config (w.without owner name) actor owner name request)
      (w.db.failing .findRepository = none → WriteFits config w actor) :=
  maskedIf_onRepository h (h.requireWriteAccess huser) requireWriteAccess_of_not_fits

theorem noSuchRelease_ne : (⟨404, "no such release"⟩ : Response) ≠ notFoundResponse owner name := by
  intro hsame
  have htext := congrArg (fun response => response.text.toList[3]?) hsame
  simp [notFoundResponse] at htext

theorem maskedIf_downloadAsset (h : Hides w actor owner name repository)
    (huser : actor.userId = some userId) (tag filename : String) :
    MaskedIf w (downloadAsset out config w actor owner name tag filename)
      (downloadAsset out config (w.without owner name) actor owner name tag filename)
      (w.db.failing .findRepository = none →
        (Request.downloadAsset tag filename : Request π).Fits out config w actor owner name
          repository) := by
  apply maskedIf_onRepository h
  · rintro ⟨hanswers, release, hrelease, haccess⟩
    simp only [releaseAccess, hanswers, hrelease]
    by_cases hvisible : release.isVisibleToReaders = true
    · rw [if_pos hvisible]
      exact h.requireReadAccess huser
    · rw [if_neg hvisible]
      exact h.requireWriteAccess huser (haccess.resolve_left hvisible)
  · intro hnot
    rw [releaseAccess]
    cases hanswers : w.failing .findRelease with
    | some err =>
      refine ⟨_, rfl, fun hsame => ?_⟩
      cases congrArg Response.status hsame
    | none =>
      cases hrelease : findRelease w repository.id tag with
      | none => exact ⟨_, rfl, noSuchRelease_ne⟩
      | some release =>
        have hvisible : ¬ release.isVisibleToReaders = true := fun hvisible =>
          hnot ⟨hanswers, release, hrelease, .inl hvisible⟩
        dsimp only
        rw [if_neg hvisible]
        exact requireWriteAccess_of_not_fits fun hfits =>
          hnot ⟨hanswers, release, hrelease, .inr hfits⟩

theorem maskedIf_changeCollaborators (h : Hides w actor owner name repository)
    (huser : actor.userId = some userId) (request : Request π) :
    MaskedIf w (changeCollaborators out w actor owner name request)
      (changeCollaborators out (w.without owner name) actor owner name request) True := by
  cases actor with
  | user id =>
    have hzone : checkDangerZone w.db (.user id) repository = .error .notFound :=
      h.checkGate huser .dangerZone
    simp only [changeCollaborators, repositoryByName_without]
    cases hread : w.db.failing .findRepository with
    | some err =>
      rw [repositoryByName_of_failing hread]
      exact .same _ trivial
    | none =>
      simp only [h.lookup hread, hzone]
      exact .same _ trivial
  | _ => exact .same _ trivial

theorem maskedIf_listCollaborators (h : Hides w actor owner name repository) :
    MaskedIf w (listCollaborators w actor owner name)
      (listCollaborators (w.without owner name) actor owner name)
      (w.db.failing .findRepository = none → ∀ id, actor ≠ .user id) := by
  cases actor with
  | user id =>
    simp only [listCollaborators, repositoryByName_without]
    cases hread : w.db.failing .findRepository with
    | some err =>
      rw [repositoryByName_of_failing hread]
      exact .same _ nofun
    | none =>
      simp only [h.lookup hread]
      refine ⟨fun hfits => absurd rfl (hfits trivial id), fun _ => ?_⟩
      cases w.failing .listCollaborators with
      | some err => simp [text, authzErrorResponse]
      | none => simp [text, authzErrorResponse]
  | _ => exact .same _ fun _ => nofun

/-- What storing an object answers is never that the repository is missing. -/
theorem storeObject_ne_notFound (identity oid : String) (body : Bytes) :
    (storeObject out config w repository identity oid body).1 ≠
      .response (notFoundResponse owner name) := by
  have hstatus (status : Nat) (message : String) (hne : status ≠ 404) :
      Reply.response ⟨status, message⟩ ≠ .response (notFoundResponse owner name) := by
    intro hsame
    exact hne (congrArg Response.status (Reply.response.inj hsame))
  rw [storeObject, readBodyCapped]
  split
  · rename_i response hcapped
    split at hcapped
    · obtain rfl := Except.error.inj hcapped
      exact hstatus 413 _ (by decide)
    · cases hcapped
  · split
    · exact hstatus 422 _ (by decide)
    · split
      · exact hstatus 500 _ (by decide)
      · split
        · exact hstatus 500 _ (by decide)
        · dsimp only
          split
          · exact hstatus 500 _ (by decide)
          · exact hstatus 200 _ (by decide)

theorem maskedIf_uploadObject (h : Hides w actor owner name repository) {repo : String}
    (hname : repoName repo = some name) (oid : String) (token : Option String) (body : Bytes) :
    MaskedIf w (uploadObject out config w owner repo oid token body)
      (uploadObject out config (w.without owner name) owner repo oid token body)
      (w.db.failing .findRepository = none → isValidOid oid = true →
        transferAllowed out (gitIdentity owner name) oid token .upload = false) := by
  simp only [uploadObject, hname]
  by_cases hoid : isValidOid oid = false
  · rw [if_pos hoid, if_pos hoid]
    exact .same _ fun _ hvalid => by rw [hoid] at hvalid; cases hvalid
  · rw [if_neg hoid, if_neg hoid]
    rw [Bool.not_eq_false] at hoid
    by_cases htoken : transferAllowed out (gitIdentity owner name) oid token .upload = false
    · rw [if_pos htoken, if_pos htoken]
      exact .same _ fun _ _ => htoken
    · rw [if_neg htoken, if_neg htoken]
      refine (maskedIf_unchecked h (storeObject_ne_notFound _ oid body)).congr ?_
      simp [hoid, htoken]

theorem maskedIf_downloadObject {repo : String} (hname : repoName repo = some name) (oid : String)
    (token : Option String) :
    MaskedIf w (downloadObject out w owner repo oid token)
      (downloadObject out (w.without owner name) owner repo oid token)
      ((Request.downloadObject oid token : Request π).FitsFiles out w owner name) := by
  simp only [downloadObject, hname, Request.FitsFiles]
  by_cases hoid : isValidOid oid = false
  · rw [if_pos hoid, if_pos hoid]
    exact .same _ fun hvalid => by rw [hoid] at hvalid; cases hvalid
  · rw [if_neg hoid, if_neg hoid]
    by_cases htoken : transferAllowed out (gitIdentity owner name) oid token .download = false
    · rw [if_pos htoken, if_pos htoken]
      exact .same _ fun _ hallowed => by rw [htoken] at hallowed; cases hallowed
    · rw [if_neg htoken, if_neg htoken]
      have hmissing : (w.without owner name).lfsFiles (gitIdentity owner name) oid = none := by
        simp [World.without]
      rw [Bool.not_eq_false] at hoid htoken
      cases hstored : w.lfsFiles (gitIdentity owner name) oid with
      | none =>
        simp only [hmissing]
        exact .same _ fun _ _ => trivial
      | some bytes =>
        simp only [hmissing]
        refine ⟨fun hfits => ?_, fun _ => by simp [text]⟩
        cases hfits hoid htoken

/-! ### All of them -/

/-- A request that stops at its path or its body leads to the same with and without the
repository; the others are those of a route. -/
theorem maskedIf_handle (hids : (w.db.repositories.map fun row => row.repository.id).Nodup)
    (huser : actor.userId = some userId) (request : Request π) {pair : String × String}
    (hpair : pair ∈ request.names owner segment) (h : Hides w actor pair.1 pair.2 repository) :
    MaskedIf w (handle out config w actor owner segment request)
      (handle out config (w.without pair.1 pair.2) actor owner segment request)
      ((w.db.failing .findRepository = none → pair.1 = owner →
        request.Fits out config w actor owner pair.2 repository) ∧
          request.FitsFiles out w owner pair.2) := by
  -- the name in the path of a route outside of the REST surface
  have hpath (hmem : pair ∈ (match repoName segment with
      | some name => [(owner, name)]
      | none => [])) : ∃ name, repoName segment = some name ∧ pair = (owner, name) := by
    cases hname : repoName segment with
    | none => simp [hname] at hmem
    | some name =>
      rw [hname] at hmem
      exact ⟨name, rfl, List.mem_singleton.1 hmem⟩
  cases request with
  | service request =>
    have hcall : AgreeIf w (call out w actor owner segment request) _ _ :=
      agreeIf_names hids huser request hpair h
    exact (maskedIf_service hcall).congr (by simp [Request.Fits, Request.FitsFiles])
  | api request parsed =>
    have hcall : AgreeIf w (call out w actor owner segment request) _ _ :=
      agreeIf_names hids huser request hpair h
    simp only [handle, api, Request.Fits, Request.FitsFiles, and_true]
    cases hadmitted : admitted config actor request parsed with
    | error err => exact .same _ fun _ _ hok => by cases hok
    | ok _ => exact (maskedIf_api hcall).congr (by simp)
  | addCollaborator payload =>
    obtain rfl := List.mem_singleton.1 hpair
    exact (maskedIf_changeCollaborators h huser _).congr (by simp [Request.Fits, Request.FitsFiles])
  | removeCollaborator payload =>
    obtain rfl := List.mem_singleton.1 hpair
    exact (maskedIf_changeCollaborators h huser _).congr (by simp [Request.Fits, Request.FitsFiles])
  | listCollaborators =>
    obtain rfl := List.mem_singleton.1 hpair
    exact (maskedIf_listCollaborators h).congr (by simp [Request.Fits, Request.FitsFiles])
  | infoRefs service =>
    obtain ⟨name, hname, rfl⟩ := hpath hpair
    simp only [handle, infoRefs, hname]
    cases service with
    | none => exact .same _ ⟨fun _ _ => trivial, trivial⟩
    | some service =>
      exact (maskedIf_readRoute h huser _).congr (by simp [Request.Fits, Request.FitsFiles])
  | uploadPack payload =>
    obtain ⟨name, hname, rfl⟩ := hpath hpair
    simp only [handle, uploadPack, hname]
    exact (maskedIf_readRoute h huser _).congr (by simp [Request.Fits, Request.FitsFiles])
  | receivePack payload =>
    obtain ⟨name, hname, rfl⟩ := hpath hpair
    simp only [handle, receivePack, hname]
    exact (maskedIf_writeRoute h huser _).congr (by simp [Request.Fits, Request.FitsFiles])
  | lfsBatch request =>
    obtain ⟨name, hname, rfl⟩ := hpath hpair
    simp only [handle, lfsBatch, hname]
    cases request with
    | error err => exact .same _ ⟨nofun, trivial⟩
    | ok batch =>
      dsimp only
      by_cases hupload : batch.operation = "upload"
      · rw [if_pos hupload, if_pos hupload]
        exact (maskedIf_writeRoute h huser _).congr
          (by simp [Request.Fits, Request.FitsFiles, hupload])
      · rw [if_neg hupload, if_neg hupload]
        exact (maskedIf_readRoute h huser _).congr
          (by simp [Request.Fits, Request.FitsFiles, hupload])
  | uploadObject oid token body =>
    obtain ⟨name, hname, rfl⟩ := hpath hpair
    exact (maskedIf_uploadObject h hname oid token body).congr
      (by simp [Request.Fits, Request.FitsFiles])
  | downloadObject oid token =>
    obtain ⟨name, hname, rfl⟩ := hpath hpair
    exact (maskedIf_downloadObject hname oid token).congr (by simp [Request.Fits])
  | createLock path =>
    obtain ⟨name, hname, rfl⟩ := hpath hpair
    simp only [handle, createLock, hname]
    cases path with
    | error err => exact .same _ ⟨nofun, trivial⟩
    | ok path =>
      exact (maskedIf_writeRoute h huser _).congr (by simp [Request.Fits, Request.FitsFiles])
  | listLocks =>
    obtain ⟨name, hname, rfl⟩ := hpath hpair
    simp only [handle, listLocks, hname]
    exact (maskedIf_readRoute h huser _).congr (by simp [Request.Fits, Request.FitsFiles])
  | verifyLocks =>
    obtain ⟨name, hname, rfl⟩ := hpath hpair
    simp only [handle, verifyLocks, hname]
    exact (maskedIf_readRoute h huser _).congr (by simp [Request.Fits, Request.FitsFiles])
  | unlock id =>
    obtain ⟨name, hname, rfl⟩ := hpath hpair
    simp only [handle, unlock, hname]
    cases id with
    | none => exact .same _ ⟨nofun, trivial⟩
    | some id =>
      exact (maskedIf_writeRoute h huser _).congr (by simp [Request.Fits, Request.FitsFiles])
  | uploadAsset tag payload =>
    obtain rfl := List.mem_singleton.1 hpair
    exact (maskedIf_writeRoute h huser _).congr (by simp [Request.Fits, Request.FitsFiles])
  | downloadAsset tag filename =>
    obtain rfl := List.mem_singleton.1 hpair
    exact (maskedIf_downloadAsset h huser tag filename).congr (by simp [Request.FitsFiles])

end Requests

theorem not_indistinguishable {σ π : Type} {out : Outside σ π} {config : Config} {w : World σ}
    {actor : ActorContext} {owner segment name : String} {request : Request π}
    {repository : Repository} (hpair : (owner, name) ∈ request.names owner segment)
    (h : Hides w actor owner name repository)
    (hne : (handle out config w actor owner segment request).1 ≠
      (handle out config (w.without owner name) actor owner segment request).1) :
    ¬ Indistinguishable out config w actor owner segment request := by
  intro hsame
  apply hne
  rw [hsame _ hpair repository h]

/-- A repository of Ada's that Bob has no access to any more. -/
def vault : Repository := ⟨5, "vault", .«private»⟩

/-- Bob's pull request is open, and that of Ada is closed. -/
def vaultWorld : World Unit where
  db := { Database.empty with
    users := [⟨1, "ada", "ada@edda.dev"⟩, ⟨2, "bob", "bob@edda.dev"⟩]
    repositories := [⟨vault, "ada"⟩]
    repoAccess := [⟨5, .user 1, .owner⟩]
    pullRequests := [⟨7, 5, 1, "Topic", none, ⟨5, "topic"⟩, "main", .«open»⟩,
      ⟨8, 5, 2, "Other", none, ⟨5, "other"⟩, "main", .closed 40 .notPlanned⟩] }
  accountStatus _ := .ok (some ⟨some 10⟩)
  pullRequestAuthor id := if id = 7 then 2 else 1
  comments := []
  events := []
  watches := []
  releases := []
  lfsObjects := []
  lfsFiles _ _ := none
  repos _ := none
  failing _ := none
  rest := ()

def vaultOutside : Outside Unit Unit where
  run _ _ _ w := (.ok "null", w)
  answer _ _ _ w := (.done "", w)
  mentioned _ _ _ := .ok []
  verifyTransfer _ _ _ _ := false
  sha256Hex _ := ""
  gix := forkedGix

def openConfig : Config := ⟨false, ⟨false⟩, 1024⟩

theorem hides_vault (actor : ActorContext) (h : ¬ ReadAccess vaultWorld.db actor vault) :
    Hides vaultWorld actor "ada" "vault" vault := ⟨by decide +kernel, by decide, h⟩

end Edda.App.RepositoryRoutes
