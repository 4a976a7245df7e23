import Edda.App.PullRequestService
import Edda.App.PushTransports
import Edda.Domain.Event
import Edda.Domain.Registration

/-!
# The routes of a repository

Every operation that names a repository by its owner and its name, up to where it has decided that
the actor may go on: the service methods, the REST handlers over them, the session routes of
collaborators, git over HTTP, LFS and the assets of releases. What a method does once it is let
through is a parameter, but for those that do something before they look at the access of the actor,
or that never do.
-/

set_option autoImplicit false

namespace Edda.App.RepositoryRoutes

open Edda.Domain Edda.Db Edda.Auth Edda.Git Edda.Support Edda.Support.RustText

/-! ## The state -/

/-- A row of `releases`. -/
structure ReleaseRow extends Release where
  draft : Bool
  deriving DecidableEq, Repr

def ReleaseRow.isVisibleToReaders (release : ReleaseRow) : Bool := !release.draft

structure DiffAnchor where
  filePath : String
  lineRange : Nat × Nat
  commitSha : String
  deriving DecidableEq, Repr

structure PrComment where
  id : BitVec 128
  pullRequestId : PullRequestId
  authorId : UserId
  body : String
  anchor : Option DiffAnchor
  deriving DecidableEq, Repr

/-- A row of `lfs_objects`. -/
structure LfsObject where
  repositoryId : RepositoryId
  oid : String
  sizeBytes : Nat
  deriving DecidableEq, Repr

/-- `INSERT OR IGNORE`: a listed object keeps its row. -/
def insertLfsObject (objects : List LfsObject) (object : LfsObject) : List LfsObject :=
  if objects.any fun other => other.repositoryId = object.repositoryId ∧ other.oid = object.oid then
    objects
  else objects ++ [object]

/-- A collaborator as the session route lists them. -/
structure CollaboratorDto where
  userId : UserId
  email : String
  role : RepoRole
  deriving DecidableEq, Repr

/-- The statements beside the queries of `Database`, and the file operations. -/
inductive Statement where
  | listCollaborators
  | clearWatch
  | updatePullState
  | insertComment
  | findRelease
  | createDirectory
  | writeFile
  | insertLfsObject
  deriving DecidableEq, Repr

/-- `pullRequestAuthor` is a column of `pull_requests`. `lfsFiles` are the stored objects, by the
identity of their repository and by their oid, and `rest` is whatever else there is. -/
structure World (σ : Type) where
  db : Database
  accountStatus : UserId → Except DbError (Option AccountStatus)
  pullRequestAuthor : PullRequestId → UserId
  comments : List PrComment
  events : List Domain.DomainEvent
  watches : List Watch
  releases : List ReleaseRow
  lfsObjects : List LfsObject
  lfsFiles : String → String → Option Bytes
  repos : Repos
  failing : Statement → Option String
  rest : σ

structure Config where
  requireSigninToView : Bool
  registration : RegistrationPolicy
  maxLfsObjectBytes : Nat
  deriving DecidableEq, Repr

/-! ## The calls -/

/-- What a method asks for before it looks the repository up: nothing, the id of the acting user, or
the row of the acting user. -/
inductive Asks where
  | nothing
  | userId
  | actingUser
  deriving DecidableEq, Repr

inductive Gate where
  | read
  | write
  | administer
  | dangerZone
  deriving DecidableEq, Repr

/-- The methods that look the repository up and check the role of the actor before anything else.
The body of a comment is the one input that is looked at earlier. -/
inductive Method where
  -- `read_repo`
  | getRepository
  | tree
  | blob
  | branches
  | commits
  | commitDiff
  | search
  | blame
  | archive
  | listPulls
  | getPull
  | diffPull
  | listIssues
  | getIssue
  | listLabels
  | listMilestones
  | listReleases
  | getRelease
  | listStatuses
  -- services that check for reading
  | repoWatchLevel
  | setRepoWatch
  | listCollaborators
  | listBranchProtection
  | fork
  -- `write_checked`
  | openIssue
  | closeIssue
  | reopenIssue
  | createLabel
  | applyLabel
  | removeLabel
  | createMilestone
  | assign
  | unassign
  | setMilestone
  | commentIssue (body : String)
  | submitReview
  | requestReview
  | cancelReviewRequest
  | reopenPull
  | updateDescription
  | createRelease
  | createStatus
  -- `admin_checked` and `administer_checked`
  | listDeployKeys
  | addDeployKey
  | removeDeployKey
  | listWebhooks
  | createWebhook
  | deleteWebhook
  | webhookDeliveries
  | setBranchProtection
  | deleteBranchProtection
  -- `danger_zone_checked`
  | addCollaborator
  | removeCollaborator
  | setVisibility
  | deleteRepository
  | listTeamGrants
  | attachTeam
  deriving DecidableEq, Repr

def Method.gate : Method → Gate
  | .getRepository | .tree | .blob | .branches | .commits | .commitDiff | .search | .blame
  | .archive | .listPulls | .getPull | .diffPull | .listIssues | .getIssue | .listLabels
  | .listMilestones | .listReleases | .getRelease | .listStatuses | .repoWatchLevel | .setRepoWatch
  | .listCollaborators | .listBranchProtection | .fork => .read
  | .openIssue | .closeIssue | .reopenIssue | .createLabel | .applyLabel | .removeLabel
  | .createMilestone | .assign | .unassign | .setMilestone | .commentIssue _ | .submitReview
  | .requestReview | .cancelReviewRequest | .reopenPull | .updateDescription | .createRelease
  | .createStatus => .write
  | .listDeployKeys | .addDeployKey | .removeDeployKey | .listWebhooks | .createWebhook
  | .deleteWebhook | .webhookDeliveries | .setBranchProtection | .deleteBranchProtection =>
    .administer
  | .addCollaborator | .removeCollaborator | .setVisibility | .deleteRepository | .listTeamGrants
  | .attachTeam => .dangerZone

def Method.asks : Method → Asks
  | .fork | .createRelease => .actingUser
  | .repoWatchLevel | .setRepoWatch | .openIssue | .closeIssue | .reopenIssue | .createLabel
  | .applyLabel | .removeLabel | .createMilestone | .assign | .unassign | .setMilestone
  | .commentIssue _ | .submitReview | .requestReview | .cancelReviewRequest | .reopenPull => .userId
  | _ => .nothing

/-- What a method has against its own input before it looks the repository up. -/
def Method.invalid : Method → Option ServiceError
  | .commentIssue body =>
    if trim body.toList = [] then some (.validation "a comment can't be empty") else none
  | _ => none

/-- The methods that are GET requests. -/
def Method.isSafe : Method → Bool
  | .setRepoWatch | .fork => false
  | .listDeployKeys | .listWebhooks | .webhookDeliveries | .listTeamGrants => true
  | method => decide (method.gate = .read)

/-- The handlers that ask for a user of their own. -/
def Method.requiresUser : Method → Bool
  | .repoWatchLevel | .listCollaborators => true
  | .listDeployKeys | .listWebhooks | .webhookDeliveries | .listTeamGrants => true
  | method => !method.isSafe

/-- The handlers that ask for the scope of a token once more. -/
def Method.requiresScope : Method → Option TokenScope
  | .listStatuses => some .repoRead
  | .createStatus => some .repoWrite
  | _ => none

/-- The operations that an author may do on their own pull request. -/
inductive AuthorOp where
  | markReady
  | convertToDraft
  | close (closedAt : Int)
  deriving DecidableEq, Repr

def AuthorOp.pullOp (userId : UserId) : AuthorOp → PullOp
  | .markReady => .markReady
  | .convertToDraft => .convertToDraft
  | .close closedAt => .close closedAt userId

def AuthorOp.events (userId : UserId) (repository : Repository) (pr : PullRequest) :
    AuthorOp → List Domain.DomainEvent
  | .markReady | .convertToDraft => []
  | .close _ => [.pullRequestClosed pr.id repository.id userId]

structure NewPullRequestInput where
  title : String
  sourceOwner : Option String
  sourceBranch : String
  deriving DecidableEq, Repr

/-- A call of a service. `payload` is the input that is read once the call is let through. -/
inductive Call (π : Type) where
  | guarded (method : Method) (payload : π)
  | openPull (input : NewPullRequestInput) (payload : π)
  | changePull (op : AuthorOp) (number : Int)
  | commentPull (id : BitVec 128) (number : Int) (body : String) (anchor : Option DiffAnchor)
  | mergePull (number : Int) (payload : π)
  | clearRepoWatch

structure BatchRequest where
  operation : String
  objects : List (String × Int)
  deriving DecidableEq, Repr

/-- The requests that name a repository. `parsed` is what a handler has against the ids and names of
its request before it calls the service, and a body that does not parse comes with its error. -/
inductive Request (π : Type) where
  | service (call : Call π)
  | api (call : Call π) (parsed : Except ServiceError Unit)
  | addCollaborator (payload : π)
  | listCollaborators
  | removeCollaborator (payload : π)
  | infoRefs (service : Option String)
  | uploadPack (payload : π)
  | receivePack (payload : π)
  | lfsBatch (request : Except String BatchRequest)
  | uploadObject (oid : String) (token : Option String) (body : Bytes)
  | downloadObject (oid : String) (token : Option String)
  | createLock (path : Except String String)
  | listLocks
  | verifyLocks
  | unlock (id : Option (BitVec 128))
  | uploadAsset (tag : String) (payload : π)
  | downloadAsset (tag filename : String)

inductive Reply where
  | failed (err : ServiceError)
  | error (status : Nat) (code message : String)
  | response (response : Response)
  | collaborators (rows : List CollaboratorDto)
  | file (bytes : Bytes)
  | done (value : String)
  deriving DecidableEq, Repr

inductive TransferAction where
  | upload
  | download
  deriving DecidableEq, Repr

/-- What is not looked into: what a request does once it is let through, the mentions of a comment,
the transfer tokens of LFS, SHA-256 and the git library. -/
structure Outside (σ π : Type) where
  run : Call π → ActorContext → Repository → World σ → Except ServiceError String × World σ
  answer : Request π → ActorContext → Repository → World σ → Reply × World σ
  mentioned : Database → String → UserId → Except DbError (List UserId)
  verifyTransfer : String → String → String → TransferAction → Bool
  sha256Hex : Bytes → String
  gix : Gix

/-! ## Checks -/

def checkGate (db : Database) (actor : ActorContext) (repository : Repository) :
    Gate → Except AuthzError Unit
  | .read => checkRead db actor repository
  | .write => checkWrite db actor repository
  | .administer => checkAdminister db actor repository
  | .dangerZone => checkDangerZone db actor repository

def asked (db : Database) (actor : ActorContext) : Asks → Except ServiceError Unit
  | .nothing => .ok ()
  | .userId => if actor.userId.isSome then .ok () else .error .unauthorized
  | .actingUser => match actingUser db actor with
    | .error err => .error err
    | .ok _ => .ok ()

/-- The repository of a name, for an actor whom the gate lets through. -/
def checked (db : Database) (actor : ActorContext) (gate : Gate) (owner name : String) :
    Except ServiceError Repository :=
  match repositoryByName db owner name with
  | .error err => .error (.ofAuthz err)
  | .ok repository => match checkGate db actor repository gate with
    | .error err => .error (.ofAuthz err)
    | .ok () => .ok repository

/-- Splits `owner:branch`. -/
def parseHeadRef (raw : String) : Option String × String :=
  match splitOnce ':' raw.toList with
  | some (owner, branch) =>
    if owner ≠ [] ∧ branch ≠ [] then (some (String.ofList owner), String.ofList branch)
    else (none, raw)
  | none => (none, raw)

/-- The owner of the repository that a pull request comes from, where it is another one. -/
def NewPullRequestInput.foreignOwner (input : NewPullRequestInput) (owner : String) :
    Option String :=
  let sourceOwner := match input.sourceOwner with
    | some sourceOwner => some sourceOwner
    | none => (parseHeadRef input.sourceBranch).1
  sourceOwner.filter fun sourceOwner => !eqIgnoreAsciiCase sourceOwner owner

/-- Reading the target is checked first. -/
def canOpenCrossRepoPullRequest (actor : ActorContext) (source : Repository)
    (sourceAccess : Option RepoAccess) (target : Repository) (targetAccess : Option RepoAccess) :
    Except AuthzError Unit :=
  match canReadRepository actor target targetAccess with
  | .error err => .error err
  | .ok () => canWriteRepository actor source sourceAccess

def checkOpenCrossRepoPullRequest (db : Database) (actor : ActorContext)
    (source target : Repository) : Except AuthzError Unit :=
  match accessFor db actor source with
  | .error err => .error err
  | .ok sourceAccess => match accessFor db actor target with
    | .error err => .error err
    | .ok targetAccess => canOpenCrossRepoPullRequest actor source sourceAccess target targetAccess

def checkOpen (db : Database) (actor : ActorContext) (source target : Repository) :
    Except AuthzError Unit :=
  if source.id = target.id then checkWrite db actor target
  else checkOpenCrossRepoPullRequest db actor source target

/-! ## The services -/

section Services

variable {σ π : Type} (out : Outside σ π) (w : World σ) (actor : ActorContext) (owner name : String)

def guarded (method : Method) (payload : π) : Except ServiceError String × World σ :=
  match asked w.db actor method.asks with
  | .error err => (.error err, w)
  | .ok () => match method.invalid with
    | some err => (.error err, w)
    | none => match checked w.db actor method.gate owner name with
      | .error err => (.error err, w)
      | .ok repository => out.run (.guarded method payload) actor repository w

def openPull (input : NewPullRequestInput) (payload : π) : Except ServiceError String × World σ :=
  match actor.userId with
  | none => (.error .unauthorized, w)
  | some _ =>
    if trim input.title.toList = [] then
      (.error (.validation "a pull request needs a title"), w)
    else match repositoryByName w.db owner name with
      | .error err => (.error (.ofAuthz err), w)
      | .ok target =>
        let source := match input.foreignOwner owner with
          | some sourceOwner => repositoryByName w.db sourceOwner name
          | none => .ok target
        match source with
        | .error err => (.error (.ofAuthz err), w)
        | .ok source => match checkOpen w.db actor source target with
          | .error err => (.error (.ofAuthz err), w)
          | .ok () => out.run (.openPull input payload) actor target w

/-- Lets a writer of the repository through, and the author of the pull request. -/
def authorOrWriteChecked (number : Int) : Except ServiceError (Repository × PullRequest × UserId) :=
  match actor.userId with
  | none => .error .unauthorized
  | some userId => match repositoryByName w.db owner name with
    | .error err => .error (.ofAuthz err)
    | .ok repository => match w.db.findPullRequest repository.id number with
      | .error err => .error (.db err)
      | .ok none => .error .notFound
      | .ok (some pr) =>
        if w.pullRequestAuthor pr.id = userId then .ok (repository, pr, userId)
        else match checkWrite w.db actor repository with
          | .error err => .error (.ofAuthz err)
          | .ok () => .ok (repository, pr, userId)

/-- `mark_ready`, `convert_to_draft` and `close`. -/
def changePull (op : AuthorOp) (number : Int) : Except ServiceError String × World σ :=
  match authorOrWriteChecked w actor owner name number with
  | .error err => (.error err, w)
  | .ok (repository, pr, userId) => match (op.pullOp userId).check pr.state with
    | .error err => (.error err, w)
    | .ok () => match w.failing .updatePullState with
      | some err => (.error (.db err), w)
      | none =>
        let pulls := updatePullState w.db.pullRequests pr.id (op.pullOp userId).next
        (.ok "null", { w with
          db := { w.db with pullRequests := pulls }
          events := w.events ++ op.events userId repository pr })

/-- `PullRequestService::add_comment`. -/
def commentPull (id : BitVec 128) (number : Int) (body : String) (anchor : Option DiffAnchor) :
    Except ServiceError String × World σ :=
  let body := String.ofList (trim body.toList)
  if body = "" then (.error (.validation "a comment can't be empty"), w)
  else match authorOrWriteChecked w actor owner name number with
    | .error err => (.error err, w)
    | .ok (_, pr, commenter) => match out.mentioned w.db body commenter with
      | .error err => (.error (.db err), w)
      | .ok mentioned => match w.failing .insertComment with
        | some err => (.error (.db err), w)
        | none =>
          let mentions := mentioned.map fun user =>
            .userMentioned user commenter (.pullRequestComment pr.id)
          (.ok "null", { w with
            comments := w.comments ++ [⟨id, pr.id, commenter, body, anchor⟩]
            events := w.events ++ mentions })

/-- `PullRequestService::merge`. -/
def mergePull (number : Int) (payload : π) : Except ServiceError String × World σ :=
  match mergeGate out.gix w.db w.repos actor owner name number with
  | .error err => (.error err, w)
  | .ok gate => out.run (.mergePull number payload) actor gate.repository w

/-- `NotificationService::clear_repo_watch`. -/
def clearRepoWatch : Except ServiceError String × World σ :=
  match actor.userId with
  | none => (.error .unauthorized, w)
  | some userId => match repositoryByName w.db owner name with
    | .error err => (.error (.ofAuthz err), w)
    | .ok repository => match w.failing .clearWatch with
      | some err => (.error (.db err), w)
      | none =>
        let watches := w.watches.filter fun watch =>
          !decide (watch.userId = userId ∧ watch.repositoryId = repository.id)
        (.ok "null", { w with watches := watches })

def call : Call π → Except ServiceError String × World σ
  | .guarded method payload => guarded out w actor owner name method payload
  | .openPull input payload => openPull out w actor owner name input payload
  | .changePull op number => changePull w actor owner name op number
  | .commentPull id number body anchor => commentPull out w actor owner name id number body anchor
  | .mergePull number payload => mergePull out w actor owner name number payload
  | .clearRepoWatch => clearRepoWatch w actor owner name

end Services

/-! ## The REST handlers -/

def httpStatus : ServiceError → Nat
  | .notFound => 404
  | .forbidden => 403
  | .conflict _ => 409
  | .validation _ => 422
  | .unauthorized => 401
  | .git (.conflict _) => 409
  | .git _ => 500
  | .db _ => 500

def code : ServiceError → String
  | .notFound => "not_found"
  | .forbidden => "forbidden"
  | .conflict _ => "conflict"
  | .validation _ => "validation"
  | .unauthorized => "unauthorized"
  | .git (.conflict _) => "conflict"
  | .git _ => "internal_error"
  | .db _ => "internal_error"

def clientMessage : ServiceError → String
  | .notFound => "not found"
  | .forbidden => "forbidden"
  | .conflict message => message
  | .validation message => message
  | .unauthorized => "authentication required"
  | .git (.conflict count) => (GitError.conflict count).display
  | .git _ => "internal error"
  | .db _ => "internal error"

def errorReply (err : ServiceError) : Reply := .error (httpStatus err) (code err) (clientMessage err)

def Call.isSafe {π : Type} : Call π → Bool
  | .guarded method _ => method.isSafe
  | _ => false

def Call.requiresUser {π : Type} : Call π → Bool
  | .guarded method _ => method.requiresUser
  | _ => true

def Call.requiresScope {π : Type} : Call π → Option TokenScope
  | .guarded method _ => method.requiresScope
  | _ => none

/-- What the extractor of the actor and the handler check before the service is called. -/
def admitted {π : Type} (config : Config) (actor : ActorContext) (call : Call π)
    (parsed : Except ServiceError Unit) : Except ServiceError Unit :=
  if actor.permitsTokenScope (if call.isSafe then .repoRead else .repoWrite) = false then
    .error .forbidden
  else if config.requireSigninToView ∧ actor = .anonymous then .error .unauthorized
  else if call.requiresUser = true ∧ actor.userId = none then .error .unauthorized
  else if (call.requiresScope.any fun required => !actor.permitsTokenScope required) = true then
    .error .forbidden
  else parsed

section Handlers

variable {σ π : Type} (out : Outside σ π) (config : Config) (w : World σ) (actor : ActorContext)
  (owner : String)

def serviceReply : Except ServiceError String × World σ → Reply × World σ
  | (.error err, w) => (.failed err, w)
  | (.ok value, w) => (.done value, w)

def apiReply : Except ServiceError String × World σ → Reply × World σ
  | (.error err, w) => (errorReply err, w)
  | (.ok value, w) => (.done value, w)

def api (name : String) (request : Call π) (parsed : Except ServiceError Unit) :
    Reply × World σ :=
  match admitted config actor request parsed with
  | .error err => (errorReply err, w)
  | .ok () => apiReply (call out w actor owner name request)

/-! ## The session routes of collaborators -/

def text (status : Nat) (text : String) : Reply := .response ⟨status, text⟩

def authzErrorResponse : AuthzError → Reply
  | .notFound => text 404 "no such repository"
  | .forbidden => text 403 "only the repo owner can do that"

/-- `add_collaborator` and `remove_collaborator`. These routes know the user of a session alone. -/
def changeCollaborators (name : String) (request : Request π) : Reply × World σ :=
  match actor with
  | .user _ => match repositoryByName w.db owner name with
    | .error err => (authzErrorResponse err, w)
    | .ok repository => match checkDangerZone w.db actor repository with
      | .error err => (authzErrorResponse err, w)
      | .ok () => out.answer request actor repository w
  | _ => (text 401 "", w)

/-- The users with a grant of their own. -/
def collaboratorsOf (repositoryId : RepositoryId) : List CollaboratorDto :=
  (w.db.repoAccess.filter fun access => access.repositoryId = repositoryId).filterMap fun access =>
    match access.subject with
    | .user userId => (w.db.users.find? fun user => user.id = userId).map fun user =>
      ⟨user.id, user.email, access.role⟩
    | .team _ => none

def listCollaborators (name : String) : Reply × World σ :=
  match actor with
  | .user _ => match repositoryByName w.db owner name with
    | .error err => (authzErrorResponse err, w)
    | .ok repository => match w.failing .listCollaborators with
      | some err => (text 500 err, w)
      | none => (.collaborators (collaboratorsOf w repository.id), w)
  | _ => (text 401 "", w)

/-! ## Git over HTTP -/

/-- The name in a path segment `<name>.git`. -/
def repoName (repo : String) : Option String :=
  (stripPrefix ".git".toList.reverse repo.toList.reverse).map fun name =>
    String.ofList name.reverse

def requireReadAccess (repository : Repository) : Except Response Unit :=
  if config.requireSigninToView ∧ actor = .anonymous then
    .error ⟨401, "this instance requires sign-in to read any repository"⟩
  else if repository.isPrivate = false then .ok ()
  else match checkRead w.db actor repository with
    | .ok () => .ok ()
    | .error .notFound =>
      if actor = .anonymous then .error ⟨401, "login required to read this repo"⟩
      else .error (notFoundResponse owner repository.name)
    | .error .forbidden => .error (notFoundResponse owner repository.name)

/-- What one request reads of the database. -/
def World.reads : PushReads := ⟨w.db, w.accountStatus, w.db⟩

/-- Looks a repository up for a route outside of the REST surface, and runs the check of the
route. -/
def onRepository (name : String) (check : Repository → Except Response Unit)
    (next : Repository → Reply × World σ) : Reply × World σ :=
  match repositoryByName w.db owner name with
  | .error _ => (.response (notFoundResponse owner name), w)
  | .ok repository => match check repository with
    | .error response => (.response response, w)
    | .ok () => next repository

/-- A route that a reader may use. -/
def readRoute (name : String) (request : Request π) : Reply × World σ :=
  onRepository w owner name (requireReadAccess config w actor owner) fun repository =>
    out.answer request actor repository w

/-- A route that a writer may use. -/
def writeRoute (name : String) (request : Request π) : Reply × World σ :=
  onRepository w owner name (requireWriteAccess w.reads config.registration actor owner)
    fun repository => out.answer request actor repository w

def notGitPath : Reply × World σ := (text 404 "expected a \"<name>.git\" path", w)

def infoRefs (repo : String) (service : Option String) : Reply × World σ :=
  match repoName repo with
  | none => notGitPath w
  | some name => match service with
    | none => (text 400 "expected ?service=git-upload-pack or git-receive-pack", w)
    | some _ => readRoute out config w actor owner name (.infoRefs service)

def uploadPack (repo : String) (payload : π) : Reply × World σ :=
  match repoName repo with
  | none => notGitPath w
  | some name => readRoute out config w actor owner name (.uploadPack payload)

def receivePack (repo : String) (payload : π) : Reply × World σ :=
  match repoName repo with
  | none => notGitPath w
  | some name => writeRoute out config w actor owner name (.receivePack payload)

/-! ## LFS -/

def noSuchPath (repo : String) : Reply × World σ := (.response (notFoundResponse owner repo), w)

def lfsBatch (repo : String) (request : Except String BatchRequest) : Reply × World σ :=
  match repoName repo with
  | none => noSuchPath w owner repo
  | some name => match request with
    | .error err => (text 400 err, w)
    | .ok batch =>
      if batch.operation = "upload" then
        writeRoute out config w actor owner name (.lfsBatch request)
      else readRoute out config w actor owner name (.lfsBatch request)

def isHexDigit (c : Char) : Bool :=
  ('0' ≤ c && c ≤ '9') || ('a' ≤ c && c ≤ 'f') || ('A' ≤ c && c ≤ 'F')

/-- A digest of 64 hexadecimal digits. -/
def isValidOid (oid : String) : Bool := oid.toList.length = 64 && oid.toList.all isHexDigit

/-- The transfer token lets the request at the object. -/
def transferAllowed (identity oid : String) (token : Option String) (action : TransferAction) :
    Bool :=
  token.any fun token => out.verifyTransfer token identity oid action

def storeObject (repository : Repository) (identity oid : String) (body : Bytes) :
    Reply × World σ :=
  match readBodyCapped body config.maxLfsObjectBytes with
  | .error response => (.response response, w)
  | .ok body =>
    if out.sha256Hex body ≠ oid then
      (text 422 ("uploaded content hashes to " ++ out.sha256Hex body ++ ", not " ++ oid), w)
    else match w.failing .createDirectory with
      | some err => (text 500 err, w)
      | none => match w.failing .writeFile with
        | some err => (text 500 err, w)
        | none =>
          let files := Function.update w.lfsFiles identity
            (Function.update (w.lfsFiles identity) oid (some body))
          match w.failing .insertLfsObject with
          | some err => (text 500 err, { w with lfsFiles := files })
          | none => (text 200 "", { w with
              lfsFiles := files
              lfsObjects := insertLfsObject w.lfsObjects ⟨repository.id, oid, body.length⟩ })

def uploadObject (repo oid : String) (token : Option String) (body : Bytes) : Reply × World σ :=
  match repoName repo with
  | none => noSuchPath w owner repo
  | some name =>
    if isValidOid oid = false then (text 400 "invalid oid", w)
    else if transferAllowed out (gitIdentity owner name) oid token .upload = false then
      (text 401 "", w)
    else onRepository w owner name (fun _ => .ok ()) fun repository =>
      storeObject out config w repository (gitIdentity owner name) oid body

/-- The transfer token is all that a download is asked for. -/
def downloadObject (repo oid : String) (token : Option String) : Reply × World σ :=
  match repoName repo with
  | none => noSuchPath w owner repo
  | some name =>
    if isValidOid oid = false then (text 400 "invalid oid", w)
    else if transferAllowed out (gitIdentity owner name) oid token .download = false then
      (text 401 "", w)
    else match w.lfsFiles (gitIdentity owner name) oid with
      | some bytes => (.file bytes, w)
      | none => (text 404 "object not found", w)

def createLock (repo : String) (path : Except String String) : Reply × World σ :=
  match repoName repo with
  | none => noSuchPath w owner repo
  | some name => match path with
    | .error err => (text 400 err, w)
    | .ok _ => writeRoute out config w actor owner name (.createLock path)

def listLocks (repo : String) : Reply × World σ :=
  match repoName repo with
  | none => noSuchPath w owner repo
  | some name => readRoute out config w actor owner name .listLocks

def verifyLocks (repo : String) : Reply × World σ :=
  match repoName repo with
  | none => noSuchPath w owner repo
  | some name => readRoute out config w actor owner name .verifyLocks

def unlock (repo : String) (id : Option (BitVec 128)) : Reply × World σ :=
  match repoName repo with
  | none => noSuchPath w owner repo
  | some name => match id with
    | none => (text 400 "invalid lock id", w)
    | some _ => writeRoute out config w actor owner name (.unlock id)

/-! ## The assets of releases -/

def findRelease (repositoryId : RepositoryId) (tag : String) : Option ReleaseRow :=
  w.releases.find? fun release => release.repositoryId = repositoryId ∧ release.tagName = tag

/-- The access that a download needs, by the release it is of. -/
def releaseAccess (tag : String) (repository : Repository) : Except Response Unit :=
  match w.failing .findRelease with
  | some err => .error ⟨500, err⟩
  | none => match findRelease w repository.id tag with
    | none => .error ⟨404, "no such release"⟩
    | some release =>
      if release.isVisibleToReaders then requireReadAccess config w actor owner repository
      else requireWriteAccess w.reads config.registration actor owner repository

def uploadAsset (name tag : String) (payload : π) : Reply × World σ :=
  writeRoute out config w actor owner name (.uploadAsset tag payload)

def downloadAsset (name tag filename : String) : Reply × World σ :=
  onRepository w owner name (releaseAccess config w actor owner tag) fun repository =>
    out.answer (.downloadAsset tag filename) actor repository w

/-! ## All of them -/

/-- `segment` is the path segment that holds the name. -/
def handle (segment : String) : Request π → Reply × World σ
  | .service request => serviceReply (call out w actor owner segment request)
  | .api request parsed => api out config w actor owner segment request parsed
  | .addCollaborator payload =>
    changeCollaborators out w actor owner segment (.addCollaborator payload)
  | .listCollaborators => listCollaborators w actor owner segment
  | .removeCollaborator payload =>
    changeCollaborators out w actor owner segment (.removeCollaborator payload)
  | .infoRefs service => infoRefs out config w actor owner segment service
  | .uploadPack payload => uploadPack out config w actor owner segment payload
  | .receivePack payload => receivePack out config w actor owner segment payload
  | .lfsBatch request => lfsBatch out config w actor owner segment request
  | .uploadObject oid token body => uploadObject out config w owner segment oid token body
  | .downloadObject oid token => downloadObject out w owner segment oid token
  | .createLock path => createLock out config w actor owner segment path
  | .listLocks => listLocks out config w actor owner segment
  | .verifyLocks => verifyLocks out config w actor owner segment
  | .unlock id => unlock out config w actor owner segment id
  | .uploadAsset tag payload => uploadAsset out config w actor owner segment tag payload
  | .downloadAsset tag filename => downloadAsset out config w actor owner segment tag filename

end Handlers

end Edda.App.RepositoryRoutes
