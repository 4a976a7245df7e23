import Edda.App.PullRequestService
import Edda.Domain.CodeOwners
import Edda.Jobs.Dispatcher
import Edda.Support.Runs

/-!
# Review requests

A row of `review_requests` asks a user to review a pull request. Someone with write access creates
it, or a job that matches the changed paths with `CODEOWNERS`; it goes when the reviewer submits a
review or the request is withdrawn. The service appends an event in the transaction of the row, from
which the dispatcher makes the notification. The job only inserts the row.

`requests_announced_iff` says in which runs every row that is created has its event: those in which
the job finds the rows that it asks for already there.
-/

set_option autoImplicit false

namespace Edda.Jobs.ReviewRequests

open Edda.Domain Edda.Db Edda.Auth Edda.Git Edda.Support
open Edda.App (ServiceError gitIdentity)

/-! ## Rows -/

abbrev ReviewRequestId := BitVec 128

structure ReviewRequest where
  id : ReviewRequestId
  pullRequestId : PullRequestId
  reviewerId : UserId
  createdAt : Int
  deriving DecidableEq, Repr

def ReviewRequest.key (request : ReviewRequest) : PullRequestId × UserId :=
  (request.pullRequestId, request.reviewerId)

/-- One of the unique indexes has an entry for the row. -/
def Conflicts (rows : List ReviewRequest) (request : ReviewRequest) : Prop :=
  ∃ row ∈ rows, row.id = request.id ∨ row.key = request.key

instance (rows : List ReviewRequest) (request : ReviewRequest) : Decidable (Conflicts rows request) :=
  inferInstanceAs (Decidable (∃ row ∈ rows, _))

/-- The rows, and whether there is a new one. -/
def insertIfNew (rows : List ReviewRequest) (request : ReviewRequest) : List ReviewRequest × Bool :=
  if Conflicts rows request then (rows, false) else (rows ++ [request], true)

/-- `ReviewRequestRepo::delete`. -/
def delete (rows : List ReviewRequest) (pullRequestId : PullRequestId) (reviewerId : UserId) :
    List ReviewRequest × Bool :=
  (rows.filter fun row => row.key ≠ (pullRequestId, reviewerId),
    rows.any fun row => row.key = (pullRequestId, reviewerId))

/-! ## Transactions -/

/-- A transaction that was committed: the rows before and after it, and its events. -/
structure Commit where
  before : List ReviewRequest
  after : List ReviewRequest
  appended : List DomainEvent
  deriving DecidableEq, Repr

/-- The rows that a transaction created. -/
def Commit.created (commit : Commit) : List ReviewRequest :=
  commit.after.filter (· ∉ commit.before)

/-- What an event asks for, and whom. -/
def requested : DomainEvent → Option (PullRequestId × UserId)
  | .reviewRequested pullRequestId _ reviewerId _ => some (pullRequestId, reviewerId)
  | _ => none

/-- The transaction has one event for each row that it created, and no others. -/
def Commit.Announces (commit : Commit) : Prop :=
  commit.appended.filterMap requested = commit.created.map ReviewRequest.key

instance (commit : Commit) : Decidable commit.Announces := inferInstanceAs (Decidable (_ = _))

/-- How a transaction ends. A commit whose answer is lost fails, but it is done. -/
inductive Outcome where
  | done
  | failed (err : DbError) (committed : Bool)
  deriving DecidableEq, Repr

def Outcome.applies : Outcome → Bool
  | .done => true
  | .failed _ committed => committed

/-! ## The world -/

/-- The reads of the repositories on disk: the text of a file at a branch, and what differs between
two branches. -/
structure GitReads where
  readBlob : String → String → String → Except GitError (Option String)
  diffRefs : String → String → String → Except GitError (List FileDiff)

/-- What a step finds beside the review requests. The tables and the repositories are written by
others between any two steps. -/
structure World where
  db : Dispatcher.Tables
  sameName : String → String → Bool
  nameQuery : Option DbError
  git : GitReads
  readPanics : Bool
  id : ReviewRequestId
  now : Int
  outcome : Outcome

/-- `UserRepo::find_by_username`. -/
def World.findByUsername (w : World) (username : String) : Except DbError (Option User) :=
  match w.nameQuery with
  | some err => .error err
  | none => .ok (w.db.users.find? fun user => w.sameName user.username username)

/-! ## Requests to the service -/

/-- A review request is made or withdrawn. -/
inductive Purpose where
  | request
  | cancel
  deriving DecidableEq, Repr

inductive Kind where
  | ask (purpose : Purpose) (reviewerUsername : String)
  | review (state : String)
  deriving DecidableEq, Repr

inductive Phase where
  | checking
  | loading (repository : Repository) (userId : UserId)
  | finding (repository : Repository) (userId : UserId) (pr : PullRequest) (purpose : Purpose)
      (reviewerUsername : String)
  | requesting (repository : Repository) (userId : UserId) (pr : PullRequest) (reviewer : User)
  | reviewing (repository : Repository) (userId : UserId) (pr : PullRequest) (state : ReviewState)
  | clearing (pullRequestId : PullRequestId) (reviewerId : UserId)
  | returned (result : Except ServiceError Unit)

structure Call where
  actor : ActorContext
  owner : String
  name : String
  number : Int
  kind : Kind
  phase : Phase

/-- What the job does next. -/
inductive JobPhase where
  | starting (pullRequestId : PullRequestId)
  | owning (pr : PullRequest) (authorId : UserId)
  | reading (pr : PullRequest) (authorId : UserId) (identity : String)
  | asking (pr : PullRequest) (authorId : UserId) (logins : List String)
  | inserting (pr : PullRequest) (authorId : UserId) (user : User) (logins : List String)
  | ended (result : Except String Unit)

inductive Task where
  | call (call : Call)
  | job (phase : JobPhase)

/-- The rows, the transactions that were committed, and what is under way. -/
structure State where
  rows : List ReviewRequest
  commits : List Commit
  tasks : List Task

def start (rows : List ReviewRequest) : State := ⟨rows, [], []⟩

def State.put (s : State) (place : Nat) (task : Task) : State :=
  { s with tasks := s.tasks.set place task }

/-- A transaction that leaves these rows. -/
def State.transact (s : State) (outcome : Outcome) (rows : List ReviewRequest)
    (events : List DomainEvent) : State :=
  if outcome.applies then { s with rows, commits := s.commits ++ [⟨s.rows, rows, events⟩] } else s

/-! ## The steps -/

section Service

variable (w : World)

/-- Write access, with the repository and who acts. -/
def writeChecked (actor : ActorContext) (owner name : String) :
    Except ServiceError (Repository × UserId) :=
  match actor.userId with
  | none => .error .unauthorized
  | some userId => match repositoryByName w.db.toDatabase owner name with
    | .error err => .error (.ofAuthz err)
    | .ok repository => match checkWrite w.db.toDatabase actor repository with
      | .error err => .error (.ofAuthz err)
      | .ok () => .ok (repository, userId)

def loadPr (repositoryId : RepositoryId) (number : Int) : Except ServiceError PullRequest :=
  match w.db.findPullRequest repositoryId number with
  | .error err => .error (.db err)
  | .ok none => .error .notFound
  | .ok (some pr) => .ok pr

def Outcome.result : Outcome → Except ServiceError Unit
  | .done => .ok ()
  | .failed err _ => .error (.db err)

/-- The phase behind the pull request. -/
def Kind.loaded (repository : Repository) (userId : UserId) (pr : PullRequest) : Kind → Phase
  | .ask purpose reviewerUsername => .finding repository userId pr purpose reviewerUsername
  | .review state => match ReviewState.fromDbStr state with
    | some state => .reviewing repository userId pr state
    | none => .returned (.error (.validation "unrecognized review state"))

/-- The state of a review is checked before the pull request is read. -/
def Kind.isRecognized : Kind → Bool
  | .ask _ _ => true
  | .review state => (ReviewState.fromDbStr state).isSome

/-- One step of `request_review`, `cancel_review_request` or `submit_review`. -/
def advanceCall (s : State) (place : Nat) (call : Call) : State :=
  let next (s : State) (phase : Phase) : State := s.put place (.call { call with phase })
  match call.phase with
  | .checking => match writeChecked w call.actor call.owner call.name with
    | .error err => next s (.returned (.error err))
    | .ok (repository, userId) =>
      if call.kind.isRecognized then next s (.loading repository userId)
      else next s (.returned (.error (.validation "unrecognized review state")))
  | .loading repository userId => match loadPr w repository.id call.number with
    | .error err => next s (.returned (.error err))
    | .ok pr => next s (call.kind.loaded repository userId pr)
  | .finding repository userId pr purpose reviewerUsername =>
    match w.findByUsername reviewerUsername with
    | .error err => next s (.returned (.error (.db err)))
    | .ok none => next s (.returned (.error .notFound))
    | .ok (some reviewer) => match purpose with
      | .request => next s (.requesting repository userId pr reviewer)
      | .cancel => next s (.clearing pr.id reviewer.id)
  | .requesting repository userId pr reviewer =>
    let (rows, newlyRequested) := insertIfNew s.rows ⟨w.id, pr.id, reviewer.id, w.now⟩
    let events : List DomainEvent := if newlyRequested then
      [.reviewRequested pr.id repository.id reviewer.id userId] else []
    next (s.transact w.outcome rows events) (.returned w.outcome.result)
  | .reviewing repository userId pr state =>
    let s := s.transact w.outcome s.rows
      [.pullRequestReviewSubmitted pr.id repository.id userId state]
    match w.outcome.result with
    | .error err => next s (.returned (.error err))
    | .ok () => next s (.clearing pr.id userId)
  | .clearing pullRequestId reviewerId =>
    next (s.transact w.outcome (delete s.rows pullRequestId reviewerId).1 [])
      (.returned w.outcome.result)
  | .returned _ => s

/-- The owners of the paths that the pull request changes, by the first `CODEOWNERS` of the target
branch that can be read. -/
def reviewers (git : GitReads) (identity target source : String) : List String :=
  let texts := [".github/CODEOWNERS", "CODEOWNERS", "docs/CODEOWNERS"].filterMap fun path =>
    match git.readBlob identity target path with
    | .ok content => content
    | .error _ => none
  match texts.head? with
  | none => []
  | some text =>
    let owners := CodeOwners.parse text
    if owners.isEmpty then []
    else
      let files := match git.diffRefs identity ("refs/heads/" ++ target) ("refs/heads/" ++ source) with
        | .ok files => files
        | .error _ => []
      owners.ownersForPaths (files.filterMap fun file => file.newPath.or file.oldPath)

/-- One step of `sync_review_requests`. -/
def advanceJob (s : State) (place : Nat) (phase : JobPhase) : State :=
  let next (s : State) (phase : JobPhase) : State := s.put place (.job phase)
  match phase with
  | .starting pullRequestId => match w.db.ask .pullRequest (w.db.pullRequestRow pullRequestId) with
    | .error err => next s (.ended (.error err))
    | .ok none => next s (.ended (.ok ()))
    | .ok (some pr) =>
      if !pr.state.isOpen ∨ pr.source.repositoryId ≠ pr.repositoryId then next s (.ended (.ok ()))
      else next s (.owning pr (w.db.pullRequestAuthor pr.id))
  | .owning pr authorId => match w.db.ask .repository (w.db.repositoryRow pr.repositoryId) with
    | .error err => next s (.ended (.error err))
    | .ok none => next s (.ended (.ok ()))
    | .ok (some row) =>
      next s (.reading pr authorId (gitIdentity row.ownerUsername row.repository.name))
  | .reading pr authorId identity =>
    if w.readPanics then next s (.ended (.error "codeowners read task panicked"))
    else next s (.asking pr authorId (reviewers w.git identity pr.target pr.source.branch))
  | .asking _ _ [] => next s (.ended (.ok ()))
  | .asking pr authorId (login :: logins) =>
    -- a team, which is for later
    if login.toList.contains '/' then next s (.asking pr authorId logins)
    else match w.findByUsername login with
      | .error err => next s (.ended (.error err))
      | .ok none => next s (.asking pr authorId logins)
      | .ok (some user) =>
        if user.id = authorId then next s (.asking pr authorId logins)
        else next s (.inserting pr authorId user logins)
  | .inserting pr authorId user logins =>
    let s := s.transact w.outcome (insertIfNew s.rows ⟨w.id, pr.id, user.id, w.now⟩).1 []
    match w.outcome with
    | .failed err _ => next s (.ended (.error err))
    | .done => next s (.asking pr authorId logins)
  | .ended _ => s

def advance (s : State) (place : Nat) : Option Task → State
  | none => s
  | some (.call call) => advanceCall w s place call
  | some (.job phase) => advanceJob w s place phase

end Service

/-- A request comes in, a job starts, or one of them takes its next step. One that is dropped takes no
more steps. -/
inductive Step where
  | call (actor : ActorContext) (owner name : String) (number : Int) (kind : Kind)
  | sync (pullRequestId : PullRequestId)
  | proceed (place : Nat) (w : World)

def step (s : State) : Step → State
  | .call actor owner name number kind =>
    { s with tasks := s.tasks ++ [.call ⟨actor, owner, name, number, kind, .checking⟩] }
  | .sync pullRequestId => { s with tasks := s.tasks ++ [.job (.starting pullRequestId)] }
  | .proceed place w => advance w s place s.tasks[place]?

/-! ## Which steps announce what they create -/

/-- Every transaction so far has its events. -/
def Announced (s : State) : Prop := ∀ commit ∈ s.commits, commit.Announces

instance (s : State) : Decidable (Announced s) := inferInstanceAs (Decidable (∀ commit ∈ _, _))

/-- A row that the job inserts is there already. -/
def InsertFits (s : State) (w : World) : Option Task → Prop
  | some (.job (.inserting pr _ user _)) =>
    w.outcome.applies = true → Conflicts s.rows ⟨w.id, pr.id, user.id, w.now⟩
  | _ => True

def StepFits (s : State) : Step → Prop
  | .proceed place w => InsertFits s w s.tasks[place]?
  | _ => True

instance (s : State) (w : World) : (task : Option Task) → Decidable (InsertFits s w task)
  | none => inferInstanceAs (Decidable True)
  | some (.call _) => inferInstanceAs (Decidable True)
  | some (.job (.starting _)) => inferInstanceAs (Decidable True)
  | some (.job (.owning _ _)) => inferInstanceAs (Decidable True)
  | some (.job (.reading _ _ _)) => inferInstanceAs (Decidable True)
  | some (.job (.asking _ _ _)) => inferInstanceAs (Decidable True)
  | some (.job (.inserting _ _ _ _)) => inferInstanceAs (Decidable (_ → _))
  | some (.job (.ended _)) => inferInstanceAs (Decidable True)

instance (s : State) : (a : Step) → Decidable (StepFits s a)
  | .call _ _ _ _ _ => inferInstanceAs (Decidable True)
  | .sync _ => inferInstanceAs (Decidable True)
  | .proceed _ _ => inferInstanceAs (Decidable (InsertFits _ _ _))

section Transactions

variable {rows : List ReviewRequest} {request : ReviewRequest} {events : List DomainEvent}

/-- What an insert creates: the row, unless it conflicts with one. -/
theorem created_insertIfNew :
    (Commit.mk rows (insertIfNew rows request).1 events).created =
      if Conflicts rows request then [] else [request] := by
  have hold : rows.filter (· ∉ rows) = [] := List.filter_eq_nil_iff.2 (by simp)
  rw [Commit.created, insertIfNew]
  split
  · exact hold
  · next hfree =>
    have hnew : request ∉ rows := fun hmem => hfree ⟨request, hmem, Or.inl rfl⟩
    simp [hnew]

theorem created_delete (pullRequestId : PullRequestId) (reviewerId : UserId) :
    (Commit.mk rows (delete rows pullRequestId reviewerId).1 events).created = [] := by
  refine List.filter_eq_nil_iff.2 fun row hrow => ?_
  have hold := List.mem_of_mem_filter hrow
  simpa using hold

theorem created_same : (Commit.mk rows rows events).created = [] :=
  List.filter_eq_nil_iff.2 (by simp)

/-- The service's transaction announces what it creates, whatever rows there are. -/
theorem announces_requestReview (repositoryId : RepositoryId) (userId : UserId) :
    (Commit.mk rows (insertIfNew rows request).1 (if (insertIfNew rows request).2 then
      [.reviewRequested request.pullRequestId repositoryId request.reviewerId userId]
      else [])).Announces := by
  rw [Commit.Announces, created_insertIfNew, insertIfNew]
  split
  · rfl
  · rfl

/-- The job's statement has no event, so that it may not create anything. -/
theorem announces_insert :
    (Commit.mk rows (insertIfNew rows request).1 []).Announces ↔ Conflicts rows request := by
  rw [Commit.Announces, created_insertIfNew]
  split
  · next hconflict => exact iff_of_true rfl hconflict
  · next hfree => exact iff_of_false (by simp) hfree

theorem announces_delete (pullRequestId : PullRequestId) (reviewerId : UserId) :
    (Commit.mk rows (delete rows pullRequestId reviewerId).1 []).Announces := by
  rw [Commit.Announces, created_delete]
  rfl

theorem announces_review (pullRequestId : PullRequestId) (repositoryId : RepositoryId)
    (reviewerId : UserId) (state : ReviewState) :
    (Commit.mk rows rows
      [.pullRequestReviewSubmitted pullRequestId repositoryId reviewerId state]).Announces := by
  rw [Commit.Announces, created_same]
  rfl

end Transactions

section Steps

variable {s : State} {w : World}

theorem announced_transact (h : Announced s) (rows : List ReviewRequest) (events : List DomainEvent) :
    Announced (s.transact w.outcome rows events) ↔
      (w.outcome.applies = true → (Commit.mk s.rows rows events).Announces) := by
  rw [State.transact]
  split
  · next happlies =>
    simp only [Announced, List.forall_mem_append, List.forall_mem_singleton, happlies,
      forall_const]
    exact and_iff_right h
  · next hrolled => exact iff_of_true h fun happlies => absurd happlies hrolled

/-- No step of a call leaves out an event. -/
theorem announced_advanceCall (h : Announced s) (place : Nat) (call : Call) :
    Announced (advanceCall w s place call) := by
  simp only [advanceCall]
  cases call.phase with
  | checking =>
    cases writeChecked w call.actor call.owner call.name with
    | error err => exact h
    | ok checked =>
      simp only
      split
      · exact h
      · exact h
  | loading repository userId =>
    simp only
    cases loadPr w repository.id call.number with
    | error err => exact h
    | ok pr => exact h
  | finding repository userId pr purpose reviewerUsername =>
    simp only
    cases w.findByUsername reviewerUsername with
    | error err => exact h
    | ok reviewer =>
      cases reviewer with
      | none => exact h
      | some reviewer =>
        cases purpose with
        | request => exact h
        | cancel => exact h
  | requesting repository userId pr reviewer =>
    refine (announced_transact h _ _).2 fun _ => ?_
    exact announces_requestReview repository.id userId
  | reviewing repository userId pr state =>
    have hnext := (announced_transact (w := w) h s.rows
      [.pullRequestReviewSubmitted pr.id repository.id userId state]).2 fun _ =>
        announces_review pr.id repository.id userId state
    simp only
    cases w.outcome.result with
    | error err => exact hnext
    | ok done => exact hnext
  | clearing pullRequestId reviewerId =>
    refine (announced_transact h _ _).2 fun _ => ?_
    exact announces_delete pullRequestId reviewerId
  | returned result => exact h

/-- Of the steps of a job only the insert is a transaction. -/
theorem announced_advanceJob (h : Announced s) (place : Nat) (phase : JobPhase) :
    Announced (advanceJob w s place phase) ↔ InsertFits s w (some (.job phase)) := by
  cases phase with
  | starting pullRequestId =>
    refine iff_of_true ?_ trivial
    simp only [advanceJob]
    split
    · exact h
    · exact h
    · split
      · exact h
      · exact h
  | owning pr authorId =>
    refine iff_of_true ?_ trivial
    simp only [advanceJob]
    split
    · exact h
    · exact h
    · exact h
  | reading pr authorId identity =>
    refine iff_of_true ?_ trivial
    simp only [advanceJob]
    split
    · exact h
    · exact h
  | asking pr authorId logins =>
    refine iff_of_true ?_ trivial
    cases logins with
    | nil => exact h
    | cons login logins =>
      simp only [advanceJob]
      split
      · exact h
      · split
        · exact h
        · exact h
        · split
          · exact h
          · exact h
  | inserting pr authorId user logins =>
    have hinsert := announced_transact (w := w) h
      (insertIfNew s.rows ⟨w.id, pr.id, user.id, w.now⟩).1 []
    rw [announces_insert] at hinsert
    refine Iff.trans ?_ hinsert
    simp only [advanceJob]
    cases w.outcome with
    | done => exact Iff.rfl
    | failed err committed => exact Iff.rfl
  | ended result => exact iff_of_true h trivial

theorem announced_step (h : Announced s) (a : Step) : Announced (step s a) ↔ StepFits s a := by
  cases a with
  | call actor owner name number kind => exact iff_of_true h trivial
  | sync pullRequestId => exact iff_of_true h trivial
  | proceed place w =>
    simp only [step, StepFits]
    cases s.tasks[place]? with
    | none => exact iff_of_true h trivial
    | some task =>
      cases task with
      | call call => exact iff_of_true (announced_advanceCall h place call) trivial
      | job phase => exact announced_advanceJob h place phase

end Steps

/-! ## Whom the dispatcher tells

Of the events only a review request leads to a notification of its kind, to the reviewer. -/

section Notifications

open Dispatcher

/-- The review that a job tells its recipient to make. -/
def notified : JobPayload → Option (PullRequestId × UserId)
  | .createNotification userId .prReviewRequested (.pullRequest id) => some (id, userId)
  | _ => none

variable {db : Tables}

theorem notified_deliveries (webhooks : List Webhook) (event : WebhookEvent) (body : WebhookBody) :
    (deliveries webhooks event body).filterMap notified = [] := by
  refine List.filterMap_eq_nil_iff.2 fun job hjob => ?_
  obtain ⟨webhook, -, rfl⟩ := List.mem_map.1 hjob
  rfl

theorem notified_notify (recipientId : UserId) (actorId : Option UserId) (kind : NotificationKind)
    (subject : NotificationSubject) (emailSubject action : String) :
    (notify db recipientId actorId kind subject emailSubject action).filterMap notified =
      (notified (.createNotification recipientId kind subject)).toList := by
  have hmail (jobs : List JobPayload) (h : ∀ job ∈ jobs, notified job = none) (first : JobPayload) :
      (first :: jobs).filterMap notified = (notified first).toList := by
    rw [List.filterMap_cons, List.filterMap_eq_nil_iff.2 h]
    cases notified first with
    | none => rfl
    | some told => rfl
  unfold notify
  apply hmail
  intro job hjob
  split at hjob
  · split at hjob
    · rw [List.mem_singleton.1 hjob]
      rfl
    · cases hjob
  · cases hjob

/-- A part of a fan-out that tells nobody to review. -/
def Silent (result : Except DbError (List JobPayload)) : Prop :=
  ∀ jobs, result = .ok jobs → jobs.filterMap notified = []

theorem silent_deliveries (webhooks : List Webhook) (event : WebhookEvent) (body : WebhookBody) :
    Silent (.ok (deliveries webhooks event body)) := by
  intro jobs h
  rw [← Except.ok.inj h]
  exact notified_deliveries webhooks event body

theorem silent_nothing : Silent (.ok []) := by
  intro jobs h
  rw [← Except.ok.inj h]
  rfl

theorem Silent.bind {α : Type} {x : Except DbError α} {f : α → Except DbError (List JobPayload)}
    (h : ∀ a, Silent (f a)) : Silent (x >>= f) := by
  intro jobs hjobs
  obtain ⟨a, -, hnext⟩ := bind_eq_ok.1 hjobs
  exact h a jobs hnext

theorem Silent.afterDeliveries {result : Except DbError (List JobPayload)} (h : Silent result)
    (webhooks : List Webhook) (event : WebhookEvent) (body : WebhookBody) :
    Silent (do
      let told ← result
      return deliveries webhooks event body ++ told) := by
  intro jobs hjobs
  obtain ⟨told, htold, hreturn⟩ := bind_eq_ok.1 hjobs
  rw [← Except.ok.inj hreturn, List.filterMap_append, notified_deliveries, h told htold]
  rfl

theorem notified_otherKind {kind : NotificationKind} (h : kind ≠ .prReviewRequested) (userId : UserId)
    (subject : NotificationSubject) :
    notified (.createNotification userId kind subject) = none := by
  rw [notified]
  intro _ _ heq
  cases heq
  exact h rfl

theorem silent_notifyWatchers {kind : NotificationKind} (hkind : kind ≠ .prReviewRequested)
    (repositoryId : RepositoryId) (subject : NotificationSubject) (actorId : Option UserId)
    (involved : List UserId) (emailSubject action : String) :
    Silent (notifyWatchers db repositoryId subject kind actorId involved emailSubject action) := by
  apply Silent.bind
  intro watches jobs h
  rw [← Except.ok.inj h, List.filterMap_flatMap]
  refine List.flatMap_eq_nil_iff.2 fun userId _ => ?_
  rw [notified_notify, notified_otherKind hkind]
  rfl

theorem silent_issueActivity (issueId : IssueId) (repositoryId : RepositoryId) (actorId : UserId)
    (event : WebhookEvent) (action : String) (notification : Option (NotificationKind × String))
    (hkind : ∀ told ∈ notification, told.1 ≠ .prReviewRequested) :
    Silent (issueActivity db issueId repositoryId actorId event action notification) := by
  apply Silent.bind
  intro issue
  apply Silent.bind
  intro repo
  split
  · apply Silent.bind
    intro owner
    apply Silent.bind
    intro webhooks
    cases notification with
    | none => exact silent_deliveries _ _ _
    | some told =>
      apply Silent.bind
      intro assignees
      apply Silent.afterDeliveries
      apply silent_notifyWatchers
      exact hkind told rfl
  · exact silent_nothing

theorem silent_prActivity (pullRequestId : PullRequestId) (repositoryId : RepositoryId)
    (actorId : UserId) (event : WebhookEvent) (action : String)
    (notification : Option (NotificationKind × String))
    (hkind : ∀ told ∈ notification, told.1 ≠ .prReviewRequested) :
    Silent (prActivity db pullRequestId repositoryId actorId event action notification) := by
  apply Silent.bind
  intro pr
  apply Silent.bind
  intro repo
  split
  · apply Silent.bind
    intro owner
    apply Silent.bind
    intro webhooks
    cases notification with
    | none => exact silent_deliveries _ _ _
    | some told =>
      apply Silent.afterDeliveries
      apply silent_notifyWatchers
      exact hkind told rfl
  · exact silent_nothing

theorem silent_releaseActivity (releaseId : ReleaseId) (repositoryId : RepositoryId)
    (actorId : UserId) : Silent (releaseActivity db releaseId repositoryId actorId) := by
  apply Silent.bind
  intro release
  apply Silent.bind
  intro repo
  split
  · apply Silent.bind
    intro owner
    apply Silent.bind
    intro webhooks
    apply Silent.afterDeliveries
    apply silent_notifyWatchers
    simp
  · exact silent_nothing

theorem silent_pullRequestMerged (pullRequestId : PullRequestId) (repositoryId : RepositoryId) :
    Silent (pullRequestMerged db pullRequestId repositoryId) := by
  apply Silent.bind
  intro webhooks
  apply Silent.bind
  intro pr
  apply Silent.bind
  intro repo
  split
  · apply Silent.bind
    intro owner
    apply Silent.afterDeliveries
    apply silent_notifyWatchers
    simp
  · exact silent_nothing

theorem silent_userMentioned (mentionedUserId mentionedByUserId : UserId) (source : MentionSource) :
    Silent (userMentioned db mentionedUserId mentionedByUserId source) := by
  have hmention : notified (.createNotification mentionedUserId .mention (mentionSubject source)) =
      none := notified_otherKind (by simp) _ _
  rw [userMentioned]
  split
  · apply Silent.bind
    intro recipient
    split
    · apply Silent.bind
      intro mentioner jobs h
      rw [← Except.ok.inj h, List.filterMap_cons_none hmention]
      rfl
    · intro jobs h
      rw [← Except.ok.inj h, List.filterMap_cons_none hmention]
      rfl
  · intro jobs h
    rw [← Except.ok.inj h, List.filterMap_cons_none hmention]
    rfl

theorem silent_fanOutBranchPushed (repositoryId : RepositoryId) (refName old new : String) :
    Silent (fanOutBranchPushed db repositoryId refName old new) := by
  apply Silent.bind
  rintro ⟨⟩
  apply Silent.bind
  intro webhooks
  split
  · exact silent_nothing
  · apply Silent.bind
    intro repo
    split
    · apply Silent.bind
      intro owner
      exact silent_deliveries _ _ _
    · exact silent_nothing

theorem silent_fanOut {event : DomainEvent} (h : requested event = none) :
    Silent (fanOut db event) := by
  cases event with
  | pullRequestMerged id repositoryId => exact silent_pullRequestMerged id repositoryId
  | userMentioned mentioned mentionedBy source =>
    exact silent_userMentioned mentioned mentionedBy source
  | branchPushed repositoryId refName old new pusherId =>
    exact silent_fanOutBranchPushed repositoryId refName old new
  | issueAssigned id repositoryId assigneeId assignedById =>
    intro jobs hjobs
    obtain ⟨issue, -, hreturn⟩ := bind_eq_ok.1 hjobs
    rw [← Except.ok.inj hreturn, notified_notify]
    rfl
  | reviewRequested id repositoryId reviewerId requestedById => cases h
  | issueClosed id repositoryId closedById viaPullRequest =>
    apply Silent.bind
    intro via
    apply silent_issueActivity
    simp
  | issueOpened id repositoryId openedById =>
    rw [fanOut]
    apply silent_issueActivity
    simp
  | issueCommented id repositoryId authorId =>
    rw [fanOut]
    apply silent_issueActivity
    simp
  | pullRequestOpened id repositoryId openedById =>
    rw [fanOut]
    apply silent_prActivity
    simp
  | pullRequestClosed id repositoryId closedById =>
    rw [fanOut]
    apply silent_prActivity
    simp
  | pullRequestReopened id repositoryId reopenedById =>
    rw [fanOut]
    apply silent_prActivity
    simp
  | pullRequestReviewSubmitted id repositoryId reviewerId state =>
    rw [fanOut]
    apply silent_prActivity
    simp
  | releasePublished id repositoryId publishedById =>
    exact silent_releaseActivity id repositoryId publishedById

/-- The dispatcher tells the reviewer of a request, once, and nobody of another event. -/
theorem notified_of_fanOut {event : DomainEvent} {jobs : List JobPayload}
    (h : fanOut db event = .ok jobs) : jobs.filterMap notified = (requested event).toList := by
  cases hrequested : requested event with
  | none => exact silent_fanOut hrequested jobs h
  | some key =>
    cases event with
    | reviewRequested id repositoryId reviewerId requestedById =>
      obtain ⟨pr, -, hreturn⟩ := bind_eq_ok.1 h
      rw [← Except.ok.inj hreturn, notified_notify, ← hrequested]
      rfl
    | _ => cases hrequested

/-- The events were dispatched, each at some time with the jobs that it led to. -/
def Dispatched (events : List DomainEvent) (batches : List (List JobPayload)) : Prop :=
  List.Forall₂ (fun event jobs => ∃ db : Tables, fanOut db event = .ok jobs) events batches

theorem notified_of_dispatched {events : List DomainEvent} {batches : List (List JobPayload)}
    (h : Dispatched events batches) :
    batches.flatten.filterMap notified = events.filterMap requested := by
  induction h with
  | nil => rfl
  | cons hjobs _ ih =>
    obtain ⟨db, hjobs⟩ := hjobs
    rw [List.flatten_cons, List.filterMap_append, notified_of_fanOut hjobs, ih, List.filterMap_cons]
    cases requested _ with
    | none => rfl
    | some key => rfl

end Notifications

/-! ## Runs -/

/-- `ada` has a pull request that changes `a.txt`. By the `CODEOWNERS` of the target branch every file
is `bob`'s. -/
def ownedWorld : World where
  db :=
    { toDatabase :=
        { App.topicDatabase [] with
          users := [⟨1, "ada", "ada@example.org"⟩, ⟨2, "bob", "bob@example.org"⟩] }
      emailNotificationsEnabled := fun _ => true
      pullRequestAuthor := fun _ => 1
      issues := []
      issueAssignees := []
      releases := []
      watches := []
      webhooks := []
      failingRead := fun _ => none }
  sameName := fun a b => a == b
  nameQuery := none
  git :=
    { readBlob := fun _ _ path => if path = "CODEOWNERS" then .ok (some "* @bob\n")
        else .error (.git "file not found")
      diffRefs := fun _ _ _ => .ok [emptyDiff none (some "a.txt") false false false] }
  readPanics := false
  id := 7
  now := 0
  outcome := .done

/-- The job of a push, as far as its insert. -/
def ownersAsked (place : Nat) : List Step := .sync 9 :: List.replicate 5 (.proceed place ownedWorld)

/-- `ada` asks `bob` before the job does. -/
def requestedFirst : List Step :=
  .call (.user 1) "ada" "demo" 1 (.ask .request "bob") ::
    List.replicate 4 (.proceed 0 ownedWorld) ++ ownersAsked 1

/-- The job asks `bob` to review, and there is no event of it. -/
theorem matched_owner_is_not_told :
    (Runs.run step (start []) (ownersAsked 0)).commits = [⟨[], [⟨7, 9, 2, 0⟩], []⟩] ∧
      ¬ Announced (Runs.run step (start []) (ownersAsked 0)) := by
  have hcommits : (Runs.run step (start []) (ownersAsked 0)).commits =
      [⟨[], [⟨7, 9, 2, 0⟩], []⟩] := by decide +kernel
  refine ⟨hcommits, fun hannounced => ?_⟩
  have hannounces := hannounced ⟨[], [⟨7, 9, 2, 0⟩], []⟩ (by simp [hcommits])
  revert hannounces
  decide

/-- The rows that a run creates have their events, each in the transaction of its row, exactly in the
runs in which the jobs find the rows there that they insert. In such a run the dispatcher tells the
reviewer of every row that was created, and nobody else. -/
theorem requests_announced_iff (rows : List ReviewRequest) (steps : List Step) :
    ((∀ earlier later, steps = earlier ++ later →
        Announced (Runs.run step (start rows) earlier)) ↔
      Runs.Throughout step StepFits (start rows) steps) ∧
    (Runs.Throughout step StepFits (start rows) steps →
      ∀ commit ∈ (Runs.run step (start rows) steps).commits, ∀ batches,
        Dispatched commit.appended batches →
          batches.flatten.filterMap notified = commit.created.map ReviewRequest.key) := by
  have hiff : (∀ earlier later, steps = earlier ++ later →
      Announced (Runs.run step (start rows) earlier)) ↔
        Runs.Throughout step StepFits (start rows) steps := by
    have hstart : Announced (start rows) := List.forall_mem_nil _
    refine Runs.always_iff_throughout (I := fun _ => True) (fun _ _ _ _ _ => trivial) ?_ trivial
      hstart
    exact fun s a _ h => announced_step h a
  refine ⟨hiff, fun hfits commit hcommit batches hbatches => ?_⟩
  have hannounces := hiff.2 hfits steps [] (List.append_nil steps).symm commit hcommit
  rw [notified_of_dispatched hbatches]
  exact hannounces

theorem requested_owner_is_told :
    Announced (Runs.run step (start []) requestedFirst) ∧
      (Runs.run step (start []) requestedFirst).commits.flatMap Commit.created = [⟨7, 9, 2, 0⟩] ∧
      ∀ commit ∈ (Runs.run step (start []) requestedFirst).commits, ∀ batches,
        Dispatched commit.appended batches →
          batches.flatten.filterMap notified = commit.created.map ReviewRequest.key := by
  have hannounced := requests_announced_iff [] requestedFirst
  have hfits : Runs.Throughout step StepFits (start []) requestedFirst := by decide +kernel
  refine ⟨hannounced.1.2 hfits requestedFirst [] (List.append_nil _).symm, by decide +kernel, ?_⟩
  exact hannounced.2 hfits

end Edda.Jobs.ReviewRequests
