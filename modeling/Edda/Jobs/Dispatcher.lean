import Edda.App.RepositoryList
import Edda.Domain.Event
import Edda.Jobs.Outbox

/-!
# The dispatcher

What an event in the outbox implies: the deliveries to the webhooks that subscribe to it, and
notifications and e-mails for the people it concerns. The tables are read when the event is
dispatched, which is any time after it was recorded. The dismissal of stale reviews, which the
fan-out of a push writes, is in `StaleReviews`.

`tellsReaders_iff` says which runs tell of a private repository only people who can read it.
-/

set_option autoImplicit false

namespace Edda.Jobs.Dispatcher

open Edda.Domain Edda.Db Edda.Auth Edda.Support

/-! ## The tables -/

/-- The queries, one for each place that makes one; those for one user can fail apart. -/
inductive Read where
  | webhooks
  | openPullRequests
  | pullRequest
  | viaPullRequest
  | issue
  | release
  | repository
  | ownerName
  | watchers
  | assignees
  | emailPreference (id : UserId)
  | recipient (id : UserId)
  | actor (id : UserId)
  deriving DecidableEq, Repr

/-- The tables with what a fan-out reads beside the rows of `Database`. `emailNotificationsEnabled`
is the column of `users`, and `pullRequestAuthor` that of `pull_requests`. -/
structure Tables extends Database where
  emailNotificationsEnabled : UserId → Bool
  pullRequestAuthor : PullRequestId → UserId
  issues : List Issue
  issueAssignees : List (IssueId × UserId)
  releases : List Release
  watches : List Watch
  webhooks : List Webhook
  failingRead : Read → Option DbError

section Queries

variable (db : Tables)

/-- The result of a query, unless it fails. -/
def Tables.ask {α : Type} (read : Read) (value : α) : Except DbError α :=
  match db.failingRead read with
  | some err => .error err
  | none => .ok value

def Tables.userRow (id : UserId) : Option User := db.users.find? fun user => user.id = id

def Tables.pullRequestRow (id : PullRequestId) : Option PullRequest :=
  db.pullRequests.find? fun pr => pr.id = id

def Tables.issueRow (id : IssueId) : Option Issue := db.issues.find? fun issue => issue.id = id

def Tables.releaseRow (id : ReleaseId) : Option Release :=
  db.releases.find? fun release => release.id = id

def Tables.repositoryRow (id : RepositoryId) : Option RepositoryRow :=
  db.repositories.find? fun row => row.repository.id = id

/-- The watch rows of a repository. -/
def Tables.watchersOf (repositoryId : RepositoryId) : List Watch :=
  db.watches.filter fun watch => watch.repositoryId = repositoryId

def Tables.assigneesOf (issueId : IssueId) : List UserId :=
  (db.issueAssignees.filter fun row => row.1 = issueId).map Prod.snd

/-- The webhooks of a repository that subscribe to an event, newest first. -/
def Tables.findSubscribed (repositoryId : RepositoryId) (event : WebhookEvent) :
    Except DbError (List Webhook) :=
  db.ask .webhooks (((db.webhooks.filter fun webhook => webhook.repositoryId = repositoryId
    ).insertionSort fun a b => b.createdAt ≤ a.createdAt).filter fun webhook =>
      webhook.isSubscribedTo event)

/-- Where the row of the user is missing, or the preference cannot be read, it counts as enabled. -/
def Tables.emailEnabled (id : UserId) : Bool :=
  match db.ask (.emailPreference id) (db.userRow id) with
  | .ok (some _) => db.emailNotificationsEnabled id
  | _ => true

def Tables.ownerDisplayName (row : RepositoryRow) : Except DbError String :=
  db.ask .ownerName row.ownerUsername

end Queries

/-! ## The fan-out -/

/-- `sort_unstable` leaves equal ids side by side. -/
def sorted (ids : List UserId) : List UserId := ids.insertionSort fun a b => a.toNat ≤ b.toNat

/-- `Vec::dedup`. -/
def dedup : List UserId → List UserId
  | [] => []
  | [id] => [id]
  | id :: next :: rest => if id = next then dedup (next :: rest) else id :: dedup (next :: rest)

/-- The deliveries of an event. -/
def deliveries (webhooks : List Webhook) (event : WebhookEvent) (body : WebhookBody) :
    List JobPayload :=
  webhooks.map fun webhook => .deliverWebhook webhook.id event body

section FanOut

variable (db : Tables)

/-- How the text of an e-mail names who acted. -/
def displayName : Option User → String
  | some user => "@" ++ user.username
  | none => "Someone"

def notify (recipientId : UserId) (actorId : Option UserId) (kind : NotificationKind)
    (subject : NotificationSubject) (emailSubject action : String) : List JobPayload :=
  .createNotification recipientId kind subject ::
    if db.emailEnabled recipientId then
      match db.ask (.recipient recipientId) (db.userRow recipientId) with
      | .ok (some recipient) =>
        let actor := match actorId with
          | some id => match db.ask (.actor id) (db.userRow id) with
            | .ok row => displayName row
            -- an actor who cannot be read is someone too
            | .error _ => displayName none
          | none => displayName none
        [.sendEmail recipient.email emailSubject (actor ++ " " ++ action ++ ".")]
      | _ => []
    else []

/-- Who is told of an activity: the watching and the involved, but not who ignores the repository,
and not who acted. -/
def recipients (watches : List Watch) (actorId : Option UserId) (involved : List UserId) :
    List UserId :=
  let ignoring := (watches.filter fun watch => watch.level = .ignoring).map Watch.userId
  let watching := (watches.filter fun watch => watch.level = .watching).map Watch.userId
  dedup (sorted ((watching ++ involved).filter fun id => some id ≠ actorId ∧ id ∉ ignoring))

def notifyWatchers (repositoryId : RepositoryId) (subject : NotificationSubject)
    (kind : NotificationKind) (actorId : Option UserId) (involved : List UserId)
    (emailSubject action : String) : Except DbError (List JobPayload) := do
  let watches ← db.ask .watchers (db.watchersOf repositoryId)
  return (recipients watches actorId involved).flatMap fun recipient =>
    notify db recipient actorId kind subject emailSubject action

def issueActivity (issueId : IssueId) (repositoryId : RepositoryId) (actorId : UserId)
    (webhookEvent : WebhookEvent) (action : String)
    (notification : Option (NotificationKind × String)) : Except DbError (List JobPayload) := do
  let issue ← db.ask .issue (db.issueRow issueId)
  let repo ← db.ask .repository (db.repositoryRow repositoryId)
  match issue, repo with
  | some issue, some repo =>
    let owner ← db.ownerDisplayName repo
    let webhooks ← db.findSubscribed repositoryId webhookEvent
    let delivered := deliveries webhooks webhookEvent
      ⟨action, owner, repo.repository.name, .issue issue.number issue.title⟩
    match notification with
    | some (kind, emailSubject) =>
      let assignees ← db.ask .assignees (db.assigneesOf issueId)
      let told ← notifyWatchers db repositoryId (.issue issueId) kind (some actorId)
        (assignees ++ [issue.authorId]) emailSubject
        (action ++ " issue #" ++ toString issue.number ++ ": " ++ issue.title)
      return delivered ++ told
    | none => return delivered
  | _, _ => return []

def prActivity (pullRequestId : PullRequestId) (repositoryId : RepositoryId) (actorId : UserId)
    (webhookEvent : WebhookEvent) (action : String)
    (notification : Option (NotificationKind × String)) : Except DbError (List JobPayload) := do
  let pr ← db.ask .pullRequest (db.pullRequestRow pullRequestId)
  let repo ← db.ask .repository (db.repositoryRow repositoryId)
  match pr, repo with
  | some pr, some repo =>
    let owner ← db.ownerDisplayName repo
    let webhooks ← db.findSubscribed repositoryId webhookEvent
    let delivered := deliveries webhooks webhookEvent
      ⟨action, owner, repo.repository.name, .pullRequest pr.number pr.title⟩
    match notification with
    | some (kind, emailSubject) =>
      let told ← notifyWatchers db repositoryId (.pullRequest pullRequestId) kind (some actorId)
        [db.pullRequestAuthor pr.id] emailSubject
        (action ++ " pull request #" ++ toString pr.number ++ ": " ++ pr.title)
      return delivered ++ told
    | none => return delivered
  | _, _ => return []

def releaseActivity (releaseId : ReleaseId) (repositoryId : RepositoryId) (actorId : UserId) :
    Except DbError (List JobPayload) := do
  let release ← db.ask .release (db.releaseRow releaseId)
  let repo ← db.ask .repository (db.repositoryRow repositoryId)
  match release, repo with
  | some release, some repo =>
    let owner ← db.ownerDisplayName repo
    let webhooks ← db.findSubscribed repositoryId .releasePublished
    let delivered := deliveries webhooks .releasePublished
      ⟨"published", owner, repo.repository.name, .release release.tagName release.name⟩
    let told ← notifyWatchers db repositoryId (.release releaseId) .releasePublished (some actorId)
      [release.authorId] "A new release was published" ("published release " ++ release.tagName)
    return delivered ++ told
  | _, _ => return []

def pullRequestMerged (pullRequestId : PullRequestId) (repositoryId : RepositoryId) :
    Except DbError (List JobPayload) := do
  let webhooks ← db.findSubscribed repositoryId .pullRequestMerged
  let pr ← db.ask .pullRequest (db.pullRequestRow pullRequestId)
  let repo ← db.ask .repository (db.repositoryRow repositoryId)
  match pr, repo with
  | some pr, some repo =>
    let owner ← db.ownerDisplayName repo
    let delivered := deliveries webhooks .pullRequestMerged
      ⟨"merged", owner, repo.repository.name, .pullRequest pr.number pr.title⟩
    -- the event does not say who merged
    let told ← notifyWatchers db repositoryId (.pullRequest pullRequestId) .prMerged none
      [db.pullRequestAuthor pr.id] "A pull request you follow was merged"
      ("merged pull request #" ++ toString pr.number ++ ": " ++ pr.title)
    return delivered ++ told
  | _, _ => return []

/-- The entity that a mention was written on. -/
def mentionSubject : MentionSource → NotificationSubject
  | .pullRequestComment id => .pullRequest id
  | .issueComment id => .issue id

def userMentioned (mentionedUserId mentionedByUserId : UserId) (source : MentionSource) :
    Except DbError (List JobPayload) := do
  let notification := .createNotification mentionedUserId .mention (mentionSubject source)
  if db.emailEnabled mentionedUserId then
    let recipient ← db.ask (.recipient mentionedUserId) (db.userRow mentionedUserId)
    match recipient with
    | some recipient =>
      let mentioner ← db.ask (.actor mentionedByUserId) (db.userRow mentionedByUserId)
      return [notification, .sendEmail recipient.email "You were mentioned on Edda"
        (displayName mentioner ++ " mentioned you in a comment.")]
    | none => return [notification]
  else return [notification]

/-- How a closing names the pull request that it came from. -/
def viaText (viaPullRequest : Option PullRequestId) : Except DbError String :=
  match viaPullRequest with
  | some prId => do
    let pr ← db.ask .viaPullRequest (db.pullRequestRow prId)
    match pr with
    | some pr => return " via pull request #" ++ toString pr.number
    | none => return ""
  | none => return ""

def issueClosed (issueId : IssueId) (repositoryId : RepositoryId) (closedById : UserId)
    (viaPullRequest : Option PullRequestId) : Except DbError (List JobPayload) := do
  let via ← viaText db viaPullRequest
  issueActivity db issueId repositoryId closedById .issueClosed ("closed" ++ via)
    (some (.issueClosed, "An issue you follow was closed"))

def zeroId : String := "0000000000000000000000000000000000000000"

def fanOutBranchPushed (repositoryId : RepositoryId) (refName old new : String) :
    Except DbError (List JobPayload) := do
  let action := if old = zeroId then "created" else if new = zeroId then "deleted" else "updated"
  let () ← db.ask .openPullRequests ()
  let webhooks ← db.findSubscribed repositoryId .push
  if webhooks = [] then return []
  let repo ← db.ask .repository (db.repositoryRow repositoryId)
  match repo with
  | some repo =>
    let owner ← db.ownerDisplayName repo
    return deliveries webhooks .push
      ⟨action, owner, repo.repository.name, .push refName old new⟩
  | none => return []

def fanOut (event : DomainEvent) : Except DbError (List JobPayload) :=
  match event with
  | .pullRequestMerged id repositoryId => pullRequestMerged db id repositoryId
  | .userMentioned mentioned mentionedBy source => userMentioned db mentioned mentionedBy source
  | .branchPushed repositoryId refName old new _ =>
    fanOutBranchPushed db repositoryId refName old new
  | .issueAssigned id _ assigneeId assignedById => do
    let issue ← db.ask .issue (db.issueRow id)
    let (number, title) := match issue with
      | some issue => (issue.number, issue.title)
      | none => (0, "")
    return notify db assigneeId (some assignedById) .issueAssigned (.issue id)
      "You were assigned an issue on Edda"
      ("assigned you issue #" ++ toString number ++ ": " ++ title)
  | .reviewRequested id _ reviewerId requestedById => do
    let pr ← db.ask .pullRequest (db.pullRequestRow id)
    let number := match pr with
      | some pr => pr.number
      | none => 0
    return notify db reviewerId (some requestedById) .prReviewRequested (.pullRequest id)
      "Your review was requested on Edda"
      ("requested your review on pull request #" ++ toString number)
  | .issueOpened id repositoryId openedById =>
    issueActivity db id repositoryId openedById .issueOpened "opened" none
  | .issueCommented id repositoryId authorId =>
    issueActivity db id repositoryId authorId .issueCommented "commented on" none
  | .issueClosed id repositoryId closedById viaPullRequest =>
    issueClosed db id repositoryId closedById viaPullRequest
  | .pullRequestOpened id repositoryId openedById =>
    prActivity db id repositoryId openedById .pullRequestOpened "opened" none
  | .pullRequestClosed id repositoryId closedById =>
    prActivity db id repositoryId closedById .pullRequestClosed "closed"
      (some (.prClosed, "A pull request you follow was closed"))
  | .pullRequestReopened id repositoryId reopenedById =>
    prActivity db id repositoryId reopenedById .pullRequestReopened "reopened" none
  | .pullRequestReviewSubmitted id repositoryId reviewerId state =>
    prActivity db id repositoryId reviewerId .pullRequestReviewSubmitted
      ("submitted a " ++ state.asDbStr ++ " review on") none
  | .releasePublished id repositoryId publishedById =>
    releaseActivity db id repositoryId publishedById

end FanOut

/-! ## Whom an event concerns -/

section Concerns

variable (db : Tables)

/-- The user watches the repository or is involved, did not act and does not ignore the
repository. -/
def Follows (repositoryId : RepositoryId) (actorId : Option UserId) (involved : UserId → Prop)
    (userId : UserId) : Prop :=
  (⟨userId, repositoryId, .watching⟩ ∈ db.watches ∨ involved userId) ∧ some userId ≠ actorId ∧
    ⟨userId, repositoryId, .ignoring⟩ ∉ db.watches

/-- The users that an event concerns, by the tables. -/
def Concerns : DomainEvent → UserId → Prop
  | .userMentioned mentionedUserId _ _, userId => userId = mentionedUserId
  | .issueAssigned _ _ assigneeId _, userId => userId = assigneeId
  | .reviewRequested _ _ reviewerId _, userId => userId = reviewerId
  | .issueClosed id repositoryId closedById _, userId =>
    ∃ issue, db.issueRow id = some issue ∧ (db.repositoryRow repositoryId).isSome ∧
      Follows db repositoryId (some closedById)
        (fun other => (id, other) ∈ db.issueAssignees ∨ other = issue.authorId) userId
  | .pullRequestClosed id repositoryId closedById, userId =>
    ∃ pr, db.pullRequestRow id = some pr ∧ (db.repositoryRow repositoryId).isSome ∧
      Follows db repositoryId (some closedById) (fun other => other = db.pullRequestAuthor pr.id)
        userId
  | .pullRequestMerged id repositoryId, userId =>
    ∃ pr, db.pullRequestRow id = some pr ∧ (db.repositoryRow repositoryId).isSome ∧
      Follows db repositoryId none (fun other => other = db.pullRequestAuthor pr.id) userId
  | .releasePublished id repositoryId publishedById, userId =>
    ∃ release, db.releaseRow id = some release ∧ (db.repositoryRow repositoryId).isSome ∧
      Follows db repositoryId (some publishedById) (fun other => other = release.authorId) userId
  | _, _ => False

/-- The reads that a fan-out cannot do without. -/
def Tables.reads : DomainEvent → List Read
  | .userMentioned mentionedUserId mentionedByUserId _ =>
    if db.emailEnabled mentionedUserId then
      if (db.userRow mentionedUserId).isSome then
        [.recipient mentionedUserId, .actor mentionedByUserId]
      else [.recipient mentionedUserId]
    else []
  | .issueAssigned _ _ _ _ => [.issue]
  | .reviewRequested _ _ _ _ => [.pullRequest]
  | .issueClosed _ _ _ viaPullRequest =>
    (if viaPullRequest.isSome then [.viaPullRequest] else []) ++
      [.issue, .repository, .ownerName, .webhooks, .assignees, .watchers]
  | .pullRequestClosed _ _ _ => [.pullRequest, .repository, .ownerName, .webhooks, .watchers]
  | .pullRequestMerged _ _ => [.webhooks, .pullRequest, .repository, .ownerName, .watchers]
  | .releasePublished _ _ _ => [.release, .repository, .ownerName, .webhooks, .watchers]
  | _ => []

def Answers (reads : List Read) : Prop := ∀ read ∈ reads, db.failingRead read = none

/-- The job is for this user; a delivery is for nobody. -/
def AddressesUser : JobPayload → UserId → Prop
  | .deliverWebhook _ _ _, _ => False
  | .createNotification id _ _, userId => id = userId
  | .sendEmail toEmail _ _, userId => ∃ user ∈ db.users, user.id = userId ∧ user.email = toEmail

def IsDelivery : JobPayload → Prop
  | .deliverWebhook _ _ _ => True
  | _ => False

/-- A part of a fan-out tells these users: what it enqueues for people is for one of them, and it
notifies every one exactly when the reads answer. -/
structure Tells (result : Except DbError (List JobPayload)) (reads : List Read)
    (concerned : UserId → Prop) : Prop where
  told : ∀ jobs, result = .ok jobs → ∀ job ∈ jobs,
    IsDelivery job ∨ ∃ userId, concerned userId ∧ AddressesUser db job userId
  notified : Answers db reads → ∀ userId, concerned userId →
    ∃ jobs kind subject, result = .ok jobs ∧ .createNotification userId kind subject ∈ jobs
  answers : ∀ jobs, result = .ok jobs → ∀ userId, concerned userId → Answers db reads

end Concerns

/-! ## What the parts of a fan-out tell -/

section Tells

variable {db : Tables} {result : Except DbError (List JobPayload)} {reads : List Read}
  {concerned : UserId → Prop}

theorem ask_eq_ok {α : Type} {read : Read} {value found : α} :
    db.ask read value = .ok found ↔ db.failingRead read = none ∧ value = found := by
  rw [Tables.ask]
  cases db.failingRead read with
  | none => simp
  | some err => simp

theorem bind_eq_ok {α β : Type} {first : Except DbError α} {next : α → Except DbError β}
    {found : β} : (first >>= next) = .ok found ↔ ∃ a, first = .ok a ∧ next a = .ok found := by
  cases first with
  | error err => simp [bind, Except.bind]
  | ok a => simp [bind, Except.bind]

/-- A read before the rest is one more that has to answer. -/
theorem Tells.ask {α : Type} {read : Read} {value : α} {next : α → Except DbError (List JobPayload)}
    (h : Tells db (next value) reads concerned) :
    Tells db (db.ask read value >>= next) (read :: reads) concerned := by
  constructor
  · intro jobs hjobs
    obtain ⟨found, hask, hnext⟩ := bind_eq_ok.1 hjobs
    obtain ⟨-, rfl⟩ := ask_eq_ok.1 hask
    exact h.told jobs hnext
  · intro hanswers userId huser
    obtain ⟨jobs, kind, subject, hnext, hmem⟩ :=
      h.notified (fun other hother => hanswers other (List.mem_cons_of_mem _ hother)) userId huser
    refine ⟨jobs, kind, subject, bind_eq_ok.2 ⟨value, ?_, hnext⟩, hmem⟩
    exact ask_eq_ok.2 ⟨hanswers read List.mem_cons_self, rfl⟩
  · intro jobs hjobs userId huser other hother
    obtain ⟨found, hask, hnext⟩ := bind_eq_ok.1 hjobs
    obtain ⟨hanswers, rfl⟩ := ask_eq_ok.1 hask
    rcases List.mem_cons.1 hother with rfl | hrest
    · exact hanswers
    · exact h.answers jobs hnext userId huser other hrest

theorem Tells.congr {others : UserId → Prop} (h : Tells db result reads concerned)
    (hiff : ∀ userId, others userId ↔ concerned userId) : Tells db result reads others := by
  obtain rfl : others = concerned := funext fun userId => propext (hiff userId)
  exact h

/-- Deliveries tell nobody, and nobody need be told where nobody is concerned. -/
theorem tells_deliveries (webhooks : List Webhook) (event : WebhookEvent) (body : WebhookBody)
    (reads : List Read) (hnone : ∀ userId, ¬ concerned userId) :
    Tells db (.ok (deliveries webhooks event body)) reads concerned := by
  constructor
  · intro jobs hjobs job hjob
    obtain rfl := Except.ok.inj hjobs
    obtain ⟨webhook, -, rfl⟩ := List.mem_map.1 hjob
    exact .inl trivial
  · intro _ userId huser
    exact absurd huser (hnone userId)
  · intro _ _ userId huser
    exact absurd huser (hnone userId)

theorem tells_nothing (reads : List Read) (hnone : ∀ userId, ¬ concerned userId) :
    Tells db (.ok []) reads concerned :=
  tells_deliveries [] .push ⟨"", "", "", .push "" "" ""⟩ reads hnone

/-- Deliveries in front of the jobs for people tell nobody more. -/
theorem Tells.afterDeliveries (h : Tells db result reads concerned) (webhooks : List Webhook)
    (event : WebhookEvent) (body : WebhookBody) :
    Tells db (do
      let told ← result
      return deliveries webhooks event body ++ told) reads concerned := by
  constructor
  · intro jobs hjobs job hjob
    obtain ⟨told, htold, hreturn⟩ := bind_eq_ok.1 hjobs
    obtain rfl := Except.ok.inj hreturn
    rcases List.mem_append.1 hjob with hdelivered | hpeople
    · obtain ⟨webhook, -, rfl⟩ := List.mem_map.1 hdelivered
      exact .inl trivial
    · exact h.told told htold job hpeople
  · intro hanswers userId huser
    obtain ⟨told, kind, subject, htold, hmem⟩ := h.notified hanswers userId huser
    refine ⟨_, kind, subject, bind_eq_ok.2 ⟨told, htold, rfl⟩, ?_⟩
    exact List.mem_append_right _ hmem
  · intro jobs hjobs userId huser
    obtain ⟨told, htold, -⟩ := bind_eq_ok.1 hjobs
    exact h.answers told htold userId huser

/-- Every job of a notice is for its recipient. -/
theorem addressesUser_of_mem_notify {recipientId : UserId} {actorId : Option UserId}
    {kind : NotificationKind} {subject : NotificationSubject} {emailSubject action : String}
    {job : JobPayload} (h : job ∈ notify db recipientId actorId kind subject emailSubject action) :
    AddressesUser db job recipientId := by
  rcases List.mem_cons.1 h with rfl | hemail
  · rfl
  · split at hemail
    · split at hemail
      · rename_i recipient hask
        obtain ⟨-, hrow⟩ := ask_eq_ok.1 hask
        obtain rfl := List.mem_singleton.1 hemail
        exact ⟨recipient, List.mem_of_find?_eq_some hrow, by simpa using List.find?_some hrow, rfl⟩
      · cases hemail
    · cases hemail

theorem tells_notify (userIds : List UserId) (actorId : Option UserId) (kind : NotificationKind)
    (subject : NotificationSubject) (emailSubject action : String) :
    Tells db (.ok (userIds.flatMap fun userId =>
      notify db userId actorId kind subject emailSubject action)) [] (· ∈ userIds) := by
  constructor
  · intro jobs hjobs job hjob
    obtain rfl := Except.ok.inj hjobs
    obtain ⟨userId, huser, hmem⟩ := List.mem_flatMap.1 hjob
    exact .inr ⟨userId, huser, addressesUser_of_mem_notify hmem⟩
  · intro _ userId huser
    refine ⟨_, kind, subject, rfl, List.mem_flatMap.2 ⟨userId, huser, ?_⟩⟩
    exact List.mem_cons_self
  · intro _ _ _ _ read hread
    cases hread

theorem mem_dedup {ids : List UserId} {id : UserId} : id ∈ dedup ids ↔ id ∈ ids := by
  induction ids using dedup.induct with
  | case1 => simp [dedup]
  | case2 => simp [dedup]
  | case3 next rest ih => simp [dedup, ih]
  | case4 first next rest hne ih =>
    rw [dedup, if_neg hne, List.mem_cons, ih, List.mem_cons (l := next :: rest)]

theorem mem_recipients {repositoryId : RepositoryId} {actorId : Option UserId}
    {involved : List UserId} {userId : UserId} :
    userId ∈ recipients (db.watchersOf repositoryId) actorId involved ↔
      Follows db repositoryId actorId (· ∈ involved) userId := by
  have hlevel : ∀ level, userId ∈ ((db.watchersOf repositoryId).filter fun watch =>
      watch.level = level).map Watch.userId ↔ ⟨userId, repositoryId, level⟩ ∈ db.watches := by
    intro level
    simp only [Tables.watchersOf, List.mem_map, List.mem_filter, decide_eq_true_eq]
    constructor
    · rintro ⟨⟨id, repository, _⟩, ⟨⟨hmem, rfl⟩, rfl⟩, rfl⟩
      exact hmem
    · intro hmem
      exact ⟨_, ⟨⟨hmem, rfl⟩, rfl⟩, rfl⟩
  rw [recipients, mem_dedup, sorted, List.mem_insertionSort, List.mem_filter, List.mem_append,
    hlevel]
  simp only [Follows, Bool.decide_and, Bool.and_eq_true, decide_eq_true_eq, hlevel]

theorem tells_notifyWatchers (repositoryId : RepositoryId) (subject : NotificationSubject)
    (kind : NotificationKind) (actorId : Option UserId) (involved : List UserId)
    (emailSubject action : String) :
    Tells db (notifyWatchers db repositoryId subject kind actorId involved emailSubject action)
      [.watchers] (Follows db repositoryId actorId (· ∈ involved)) := by
  apply Tells.ask
  apply (tells_notify _ actorId kind subject emailSubject action).congr
  intro userId
  exact mem_recipients.symm

/-- Follows only asks who is involved. -/
theorem follows_congr {repositoryId : RepositoryId} {actorId : Option UserId}
    {involved others : UserId → Prop} (hiff : ∀ userId, involved userId ↔ others userId)
    (userId : UserId) :
    Follows db repositoryId actorId involved userId ↔
      Follows db repositoryId actorId others userId := by
  rw [Follows, Follows, hiff]

/-- Where nobody is concerned, it does not matter which reads answer. -/
theorem Tells.noReads (reads : List Read) (h : Tells db result reads fun _ => False) :
    Tells db result [] fun _ => False :=
  ⟨h.told, fun _ _ hfalse => hfalse.elim, fun _ _ _ hfalse => hfalse.elim⟩

/-- An activity without a notification tells nobody. -/
theorem tells_issueActivity_none (issueId : IssueId) (repositoryId : RepositoryId)
    (actorId : UserId) (event : WebhookEvent) (action : String) :
    Tells db (issueActivity db issueId repositoryId actorId event action none) [] fun _ => False := by
  apply Tells.noReads [.issue, .repository, .ownerName, .webhooks]
  apply Tells.ask
  apply Tells.ask
  cases db.issueRow issueId with
  | none => exact tells_nothing _ fun _ => id
  | some issue =>
    cases db.repositoryRow repositoryId with
    | none => exact tells_nothing _ fun _ => id
    | some repo =>
      apply Tells.ask
      apply Tells.ask
      exact tells_deliveries _ _ _ _ fun _ => id

theorem tells_prActivity_none (pullRequestId : PullRequestId) (repositoryId : RepositoryId)
    (actorId : UserId) (event : WebhookEvent) (action : String) :
    Tells db (prActivity db pullRequestId repositoryId actorId event action none) []
      fun _ => False := by
  apply Tells.noReads [.pullRequest, .repository, .ownerName, .webhooks]
  apply Tells.ask
  apply Tells.ask
  cases db.pullRequestRow pullRequestId with
  | none => exact tells_nothing _ fun _ => id
  | some pr =>
    cases db.repositoryRow repositoryId with
    | none => exact tells_nothing _ fun _ => id
    | some repo =>
      apply Tells.ask
      apply Tells.ask
      exact tells_deliveries _ _ _ _ fun _ => id

theorem tells_issueActivity (issueId : IssueId) (repositoryId : RepositoryId) (actorId : UserId)
    (event : WebhookEvent) (action : String) (notification : NotificationKind × String) :
    Tells db (issueActivity db issueId repositoryId actorId event action (some notification))
      [.issue, .repository, .ownerName, .webhooks, .assignees, .watchers] fun userId =>
        ∃ issue, db.issueRow issueId = some issue ∧ (db.repositoryRow repositoryId).isSome ∧
          Follows db repositoryId (some actorId)
            (fun other => (issueId, other) ∈ db.issueAssignees ∨ other = issue.authorId) userId := by
  apply Tells.ask
  apply Tells.ask
  cases hissue : db.issueRow issueId with
  | none => exact tells_nothing _ fun _ => by simp
  | some issue =>
    cases hrepo : db.repositoryRow repositoryId with
    | none => exact tells_nothing _ fun _ => by simp
    | some repo =>
      apply Tells.ask
      apply Tells.ask
      apply Tells.ask
      apply Tells.afterDeliveries
      apply (tells_notifyWatchers _ _ _ _ _ _ _).congr
      intro userId
      simp only [Option.some.injEq, exists_eq_left', Option.isSome_some, true_and]
      apply follows_congr
      simp [Tables.assigneesOf]

theorem tells_prActivity (pullRequestId : PullRequestId) (repositoryId : RepositoryId)
    (actorId : UserId) (event : WebhookEvent) (action : String)
    (notification : NotificationKind × String) :
    Tells db (prActivity db pullRequestId repositoryId actorId event action (some notification))
      [.pullRequest, .repository, .ownerName, .webhooks, .watchers] fun userId =>
        ∃ pr, db.pullRequestRow pullRequestId = some pr ∧ (db.repositoryRow repositoryId).isSome ∧
          Follows db repositoryId (some actorId) (fun other => other = db.pullRequestAuthor pr.id)
            userId := by
  apply Tells.ask
  apply Tells.ask
  cases hpr : db.pullRequestRow pullRequestId with
  | none => exact tells_nothing _ fun _ => by simp
  | some pr =>
    cases hrepo : db.repositoryRow repositoryId with
    | none => exact tells_nothing _ fun _ => by simp
    | some repo =>
      apply Tells.ask
      apply Tells.ask
      apply Tells.afterDeliveries
      apply (tells_notifyWatchers _ _ _ _ _ _ _).congr
      intro userId
      simp only [Option.some.injEq, exists_eq_left', Option.isSome_some, true_and]
      apply follows_congr
      simp

theorem tells_pullRequestMerged (pullRequestId : PullRequestId) (repositoryId : RepositoryId) :
    Tells db (pullRequestMerged db pullRequestId repositoryId)
      [.webhooks, .pullRequest, .repository, .ownerName, .watchers] fun userId =>
        ∃ pr, db.pullRequestRow pullRequestId = some pr ∧ (db.repositoryRow repositoryId).isSome ∧
          Follows db repositoryId none (fun other => other = db.pullRequestAuthor pr.id) userId := by
  apply Tells.ask
  apply Tells.ask
  apply Tells.ask
  cases hpr : db.pullRequestRow pullRequestId with
  | none => exact tells_nothing _ fun _ => by simp
  | some pr =>
    cases hrepo : db.repositoryRow repositoryId with
    | none => exact tells_nothing _ fun _ => by simp
    | some repo =>
      apply Tells.ask
      apply Tells.afterDeliveries
      apply (tells_notifyWatchers _ _ _ _ _ _ _).congr
      intro userId
      simp only [Option.some.injEq, exists_eq_left', Option.isSome_some, true_and]
      apply follows_congr
      simp

theorem tells_releaseActivity (releaseId : ReleaseId) (repositoryId : RepositoryId)
    (actorId : UserId) :
    Tells db (releaseActivity db releaseId repositoryId actorId)
      [.release, .repository, .ownerName, .webhooks, .watchers] fun userId =>
        ∃ release, db.releaseRow releaseId = some release ∧
          (db.repositoryRow repositoryId).isSome ∧
            Follows db repositoryId (some actorId) (fun other => other = release.authorId) userId := by
  apply Tells.ask
  apply Tells.ask
  cases hrelease : db.releaseRow releaseId with
  | none => exact tells_nothing _ fun _ => by simp
  | some release =>
    cases hrepo : db.repositoryRow repositoryId with
    | none => exact tells_nothing _ fun _ => by simp
    | some repo =>
      apply Tells.ask
      apply Tells.ask
      apply Tells.afterDeliveries
      apply (tells_notifyWatchers _ _ _ _ _ _ _).congr
      intro userId
      simp only [Option.some.injEq, exists_eq_left', Option.isSome_some, true_and]
      apply follows_congr
      simp

theorem tells_fanOutBranchPushed (repositoryId : RepositoryId) (refName old new : String) :
    Tells db (fanOutBranchPushed db repositoryId refName old new) [] fun _ => False := by
  apply Tells.noReads [.openPullRequests, .webhooks, .repository, .ownerName]
  apply Tells.ask
  apply Tells.ask
  split
  · exact tells_nothing _ fun _ => id
  · apply Tells.ask
    cases db.repositoryRow repositoryId with
    | none => exact tells_nothing _ fun _ => id
    | some repo =>
      apply Tells.ask
      exact tells_deliveries _ _ _ _ fun _ => id

theorem tells_userMentioned (mentionedUserId mentionedByUserId : UserId) (source : MentionSource) :
    Tells db (userMentioned db mentionedUserId mentionedByUserId source)
      (db.reads (.userMentioned mentionedUserId mentionedByUserId source))
      (· = mentionedUserId) := by
  have hsingle : Tells db
      (.ok [.createNotification mentionedUserId .mention (mentionSubject source)]) []
      (· = mentionedUserId) := by
    constructor
    · intro jobs hjobs job hjob
      obtain rfl := Except.ok.inj hjobs
      obtain rfl := List.mem_singleton.1 hjob
      exact .inr ⟨mentionedUserId, rfl, rfl⟩
    · rintro _ _ rfl
      exact ⟨_, _, _, rfl, List.mem_singleton_self _⟩
    · intro _ _ _ _ read hread
      cases hread
  simp only [userMentioned, Tables.reads]
  split
  · cases hrow : db.userRow mentionedUserId with
    | none => exact Tells.ask hsingle
    | some recipient =>
      apply Tells.ask
      apply Tells.ask
      constructor
      · intro jobs hjobs job hjob
        obtain rfl := Except.ok.inj hjobs
        refine .inr ⟨mentionedUserId, rfl, ?_⟩
        rcases List.mem_cons.1 hjob with rfl | hemail
        · rfl
        · obtain rfl := List.mem_singleton.1 hemail
          exact ⟨recipient, List.mem_of_find?_eq_some hrow, by simpa using List.find?_some hrow,
            rfl⟩
      · rintro _ _ rfl
        exact ⟨_, _, _, rfl, List.mem_cons_self⟩
      · intro _ _ _ _ read hread
        cases hread
  · exact hsingle

theorem tells_issueClosed (issueId : IssueId) (repositoryId : RepositoryId) (closedById : UserId)
    (viaPullRequest : Option PullRequestId) :
    Tells db (issueClosed db issueId repositoryId closedById viaPullRequest)
      (db.reads (.issueClosed issueId repositoryId closedById viaPullRequest))
      (Concerns db (.issueClosed issueId repositoryId closedById viaPullRequest)) := by
  have hrest : ∀ via, Tells db (issueActivity db issueId repositoryId closedById .issueClosed
      ("closed" ++ via) (some (.issueClosed, "An issue you follow was closed")))
      [.issue, .repository, .ownerName, .webhooks, .assignees, .watchers]
      (Concerns db (.issueClosed issueId repositoryId closedById viaPullRequest)) :=
    fun via => tells_issueActivity issueId repositoryId closedById _ _ _
  cases viaPullRequest with
  | none => exact hrest ""
  | some prId =>
    rw [issueClosed, viaText, bind_assoc]
    apply Tells.ask
    cases db.pullRequestRow prId with
    | none => exact hrest ""
    | some pr => exact hrest (" via pull request #" ++ toString pr.number)

theorem tells_one (userId : UserId) (actorId : Option UserId) (kind : NotificationKind)
    (subject : NotificationSubject) (emailSubject action : String) :
    Tells db (.ok (notify db userId actorId kind subject emailSubject action)) []
      (· = userId) := by
  have h : Tells db (.ok ([userId].flatMap fun other =>
      notify db other actorId kind subject emailSubject action)) [] (· ∈ [userId]) :=
    tells_notify [userId] actorId kind subject emailSubject action
  rw [List.flatMap_singleton] at h
  exact h.congr fun other => List.mem_singleton.symm

/-- What an event implies for people, and for whom. -/
theorem tells_fanOut (event : DomainEvent) :
    Tells db (fanOut db event) (db.reads event) (Concerns db event) := by
  cases event with
  | pullRequestMerged id repositoryId => exact tells_pullRequestMerged id repositoryId
  | userMentioned mentioned mentionedBy source =>
    exact tells_userMentioned mentioned mentionedBy source
  | branchPushed repositoryId refName old new pusherId =>
    exact tells_fanOutBranchPushed repositoryId refName old new
  | issueAssigned id repositoryId assigneeId assignedById =>
    apply Tells.ask
    exact tells_one assigneeId _ _ _ _ _
  | reviewRequested id repositoryId reviewerId requestedById =>
    apply Tells.ask
    exact tells_one reviewerId _ _ _ _ _
  | issueClosed id repositoryId closedById viaPullRequest =>
    exact tells_issueClosed id repositoryId closedById viaPullRequest
  | issueOpened id repositoryId openedById =>
    exact tells_issueActivity_none id repositoryId openedById _ _
  | issueCommented id repositoryId authorId =>
    exact tells_issueActivity_none id repositoryId authorId _ _
  | pullRequestOpened id repositoryId openedById =>
    exact tells_prActivity_none id repositoryId openedById _ _
  | pullRequestClosed id repositoryId closedById =>
    exact tells_prActivity id repositoryId closedById .pullRequestClosed "closed"
      (.prClosed, "A pull request you follow was closed")
  | pullRequestReopened id repositoryId reopenedById =>
    exact tells_prActivity_none id repositoryId reopenedById _ _
  | pullRequestReviewSubmitted id repositoryId reviewerId state =>
    exact tells_prActivity_none id repositoryId reviewerId _ _
  | releasePublished id repositoryId publishedById =>
    exact tells_releaseActivity id repositoryId publishedById

end Tells

/-! ## Who can read -/

section Readers

variable (db : Tables)

/-- The repository that an event is about. -/
def Tables.about : DomainEvent → Option RepositoryId
  | .userMentioned _ _ (.pullRequestComment id) =>
    (db.pullRequestRow id).map PullRequest.repositoryId
  | .userMentioned _ _ (.issueComment id) => (db.issueRow id).map Issue.repositoryId
  | .pullRequestMerged _ repositoryId => some repositoryId
  | .branchPushed repositoryId _ _ _ _ => some repositoryId
  | .issueAssigned _ repositoryId _ _ => some repositoryId
  | .reviewRequested _ repositoryId _ _ => some repositoryId
  | .issueClosed _ repositoryId _ _ => some repositoryId
  | .issueOpened _ repositoryId _ => some repositoryId
  | .issueCommented _ repositoryId _ => some repositoryId
  | .pullRequestOpened _ repositoryId _ => some repositoryId
  | .pullRequestClosed _ repositoryId _ => some repositoryId
  | .pullRequestReopened _ repositoryId _ => some repositoryId
  | .pullRequestReviewSubmitted _ repositoryId _ _ => some repositoryId
  | .releasePublished _ repositoryId _ => some repositoryId

/-- The access check admits the user, by the grants that there are. -/
def CanRead (userId : UserId) (repository : Repository) : Prop :=
  checkRead { db.toDatabase with failing := fun _ => none } (.user userId) repository = .ok ()

instance (userId : UserId) (repository : Repository) : Decidable (CanRead db userId repository) :=
  inferInstanceAs (Decidable (checkRead _ _ _ = _))

/-- The user has a grant on the repository, their own or that of a team. -/
def HasGrant (repositoryId : RepositoryId) (userId : UserId) : Prop :=
  ∃ access ∈ db.repoAccess, access.repositoryId = repositoryId ∧
    (access.subject = .user userId ∨
      ∃ member ∈ db.teamMembers, access.subject = .team member.1 ∧ member.2 = userId)

/-- What the fan-out of an event about a private repository enqueues for people is for users who can
read the repository. -/
def TellsReaders (event : DomainEvent) : Prop :=
  ∀ row ∈ db.repositories, row.repository.isPrivate = true →
    db.about event = some row.repository.id → ∀ jobs, fanOut db event = .ok jobs →
      ∀ job ∈ jobs, IsDelivery job ∨
        ∃ userId, AddressesUser db job userId ∧ CanRead db userId row.repository

/-- Whoever an event about a private repository concerns has a grant on it, unless the fan-out
fails. -/
def Fits (event : DomainEvent) : Prop :=
  ∀ row ∈ db.repositories, row.repository.isPrivate = true →
    db.about event = some row.repository.id → Answers db (db.reads event) →
      ∀ userId, Concerns db event userId → HasGrant db row.repository.id userId

variable {db}

/-- The readers of a private repository are those who have a grant on it. -/
theorem canRead_iff {userId : UserId} {repository : Repository}
    (hprivate : repository.isPrivate = true) :
    CanRead db userId repository ↔ HasGrant db repository.id userId := by
  have hown : ∀ access : RepoAccess,
      decide (access.repositoryId = repository.id ∧ access.subject = .user userId) = true ↔
        access.repositoryId = repository.id ∧ access.subject = .user userId := by
    intro access
    exact decide_eq_true_iff
  rw [CanRead, Edda.App.RepositoryList.checkRead_eq_ok (fun _ => rfl) (by simp)]
  simp only [hprivate, Bool.true_eq_false, false_or, tokenScopePermits, and_true,
    Edda.App.RepositoryList.directRole, Edda.App.RepositoryList.teamRoles, ActorContext.userId,
    Option.bind_some, Option.isSome_map, List.find?_isSome, ne_eq, List.map_eq_nil_iff,
    List.filter_eq_nil_iff, not_forall, decide_eq_true_eq, not_not, exists_prop, HasGrant, hown]
  constructor
  · rintro (⟨access, hmem, hid, hsubject⟩ | ⟨access, hmem, hid, hteam⟩)
    · exact ⟨access, hmem, hid, .inl hsubject⟩
    · exact ⟨access, hmem, hid, .inr hteam⟩
  · rintro ⟨access, hmem, hid, hsubject | hteam⟩
    · exact .inl ⟨access, hmem, hid, hsubject⟩
    · exact .inr ⟨access, hmem, hid, hteam⟩

theorem tellsReaders_iff_fits (event : DomainEvent) : TellsReaders db event ↔ Fits db event := by
  have htells : Tells db (fanOut db event) (db.reads event) (Concerns db event) :=
    tells_fanOut event
  constructor
  · intro h row hrow hprivate habout hanswers userId huser
    obtain ⟨jobs, kind, subject, hjobs, hmem⟩ := htells.notified hanswers userId huser
    rcases h row hrow hprivate habout jobs hjobs _ hmem with hdelivery | ⟨other, hfor, hread⟩
    · exact hdelivery.elim
    · obtain rfl : userId = other := hfor
      exact (canRead_iff hprivate).1 hread
  · intro h row hrow hprivate habout jobs hjobs job hjob
    rcases htells.told jobs hjobs job hjob with hdelivery | ⟨userId, huser, hfor⟩
    · exact .inl hdelivery
    · refine .inr ⟨userId, hfor, (canRead_iff hprivate).2 ?_⟩
      exact h row hrow hprivate habout (htells.answers jobs hjobs userId huser) userId huser

end Readers

/-! ## Runs of the outbox -/

section Runs

abbrev State := Outbox.State DomainEvent JobPayload

abbrev Step := Outbox.Step DomainEvent Tables

/-- The outbox with the fan-out of this dispatcher. Between the steps, the tables change as the
services change them; a step of a fan-out brings those that it reads. -/
def step : State → Step → State := Outbox.step fun event db => fanOut db event

/-- A fan-out of an event that a dispatcher has read tells readers. -/
def DispatchTells (s : State) : Step → Prop
  | .fanOut place db => ∀ id event, s.processes[place]? = some ⟨id, event, .fetched⟩ →
    TellsReaders db event
  | _ => True

/-- Whoever the event concerns has a grant when a dispatcher fans it out. -/
def DispatchFits (s : State) : Step → Prop
  | .fanOut place db => ∀ id event, s.processes[place]? = some ⟨id, event, .fetched⟩ →
    Fits db event
  | _ => True

/-- However the dispatchers and the services interleave, and whenever an event is dispatched, what
is enqueued about a private repository is for its readers, exactly if everyone whom the event then
concerns has a grant. -/
theorem tellsReaders_iff (s : State) (steps : List Step) :
    Runs.Throughout step DispatchTells s steps ↔ Runs.Throughout step DispatchFits s steps := by
  apply Runs.throughout_congr
  intro s a
  cases a with
  | fanOut place db => simp only [DispatchTells, DispatchFits, tellsReaders_iff_fits]
  | append id event => exact Iff.rfl
  | fetch id => exact Iff.rfl
  | markProcessed place now => exact Iff.rfl
  | enqueue place jobId now => exact Iff.rfl
  | commit place => exact Iff.rfl
  | stop place => exact Iff.rfl

/-- A private repository of `alice` that `bob` may read by a grant, and watches. -/
def watched : Tables where
  toDatabase :=
    { Database.empty with
      users := [⟨1, "alice", "alice@example.com"⟩, ⟨2, "bob", "bob@example.com"⟩]
      repositories := [⟨⟨10, "secret", .«private»⟩, "alice"⟩]
      repoAccess := [⟨10, .user 1, .owner⟩, ⟨10, .user 2, .read⟩] }
  emailNotificationsEnabled := fun _ => true
  pullRequestAuthor := fun _ => 1
  issues := []
  issueAssignees := []
  releases := [⟨20, 10, "v1.0", "The first", 1⟩]
  watches := [⟨2, 10, .watching⟩]
  webhooks := []
  failingRead := fun _ => none

/-- The tables when the grant of `bob` has been removed. -/
def watchedAfterRemoval : Tables :=
  { watched with repoAccess := watched.repoAccess.filter fun access => access.subject ≠ .user 2 }

/-- `bob` could read the repository when he watched it. His grant is removed, then `alice` publishes
a release, and what is enqueued is for `bob`. -/
theorem removed_collaborator_is_told :
    CanRead watched 2 ⟨10, "secret", .«private»⟩ ∧
      fanOut watchedAfterRemoval (.releasePublished 20 10 1) = .ok
        [.createNotification 2 .releasePublished (.release 20),
          .sendEmail "bob@example.com" "A new release was published"
            "@alice published release v1.0."] ∧
      ¬ Runs.Throughout step DispatchTells Outbox.State.start
        [.append 100 (.releasePublished 20 10 1), .fetch 100, .fanOut 0 watchedAfterRemoval] := by
  have hjobs : fanOut watchedAfterRemoval (.releasePublished 20 10 1) = .ok
      [.createNotification 2 .releasePublished (.release 20),
        .sendEmail "bob@example.com" "A new release was published"
          "@alice published release v1.0."] := by
    decide +kernel
  refine ⟨by decide +kernel, hjobs, ?_⟩
  intro h
  have hdispatch := h [.append 100 (.releasePublished 20 10 1), .fetch 100]
    (.fanOut 0 watchedAfterRemoval) [] rfl 100 (.releasePublished 20 10 1) rfl
  rcases hdispatch _ List.mem_cons_self rfl rfl _ hjobs _ List.mem_cons_self with
    hdelivery | ⟨userId, hfor, hread⟩
  · exact hdelivery
  · obtain rfl : 2 = userId := hfor
    exact absurd hread (by decide +kernel)

end Runs

end Edda.Jobs.Dispatcher
