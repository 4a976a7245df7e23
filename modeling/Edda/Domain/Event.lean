import Edda.Domain.PullRequest

/-!
# Events and what they lead to

What the services record in the outbox, the jobs that the dispatcher makes of it, and the rows that
it reads for that.
-/

set_option autoImplicit false

namespace Edda.Domain

abbrev IssueId := BitVec 128
abbrev ReleaseId := BitVec 128
abbrev WebhookId := BitVec 128

/-! ## Events -/

/-- Where a mention was written. -/
inductive MentionSource where
  | pullRequestComment (pullRequestId : PullRequestId)
  | issueComment (issueId : IssueId)
  deriving DecidableEq, Repr

inductive DomainEvent where
  | pullRequestMerged (pullRequestId : PullRequestId) (repositoryId : RepositoryId)
  | userMentioned (mentionedUserId mentionedByUserId : UserId) (source : MentionSource)
  | branchPushed (repositoryId : RepositoryId) (refName old new : String) (pusherId : Option UserId)
  | issueAssigned (issueId : IssueId) (repositoryId : RepositoryId) (assigneeId assignedById : UserId)
  | reviewRequested (pullRequestId : PullRequestId) (repositoryId : RepositoryId)
      (reviewerId requestedById : UserId)
  | issueClosed (issueId : IssueId) (repositoryId : RepositoryId) (closedById : UserId)
      (viaPullRequest : Option PullRequestId)
  | issueOpened (issueId : IssueId) (repositoryId : RepositoryId) (openedById : UserId)
  | issueCommented (issueId : IssueId) (repositoryId : RepositoryId) (commentAuthorId : UserId)
  | pullRequestOpened (pullRequestId : PullRequestId) (repositoryId : RepositoryId)
      (openedById : UserId)
  | pullRequestClosed (pullRequestId : PullRequestId) (repositoryId : RepositoryId)
      (closedById : UserId)
  | pullRequestReopened (pullRequestId : PullRequestId) (repositoryId : RepositoryId)
      (reopenedById : UserId)
  | pullRequestReviewSubmitted (pullRequestId : PullRequestId) (repositoryId : RepositoryId)
      (reviewerId : UserId) (state : ReviewState)
  | releasePublished (releaseId : ReleaseId) (repositoryId : RepositoryId) (publishedById : UserId)
  deriving DecidableEq, Repr

def ReviewState.asDbStr : ReviewState → String
  | .approved => "approved"
  | .changesRequested => "changes_requested"
  | .commented => "commented"

def ReviewState.fromDbStr (value : String) : Option ReviewState :=
  if value = "approved" then some .approved
  else if value = "changes_requested" then some .changesRequested
  else if value = "commented" then some .commented
  else none

theorem ReviewState.fromDbStr_asDbStr (state : ReviewState) : fromDbStr state.asDbStr = some state := by
  cases state with
  | approved => rfl
  | changesRequested => rfl
  | commented => rfl

/-! ## Jobs -/

inductive WebhookEvent where
  | pullRequestOpened
  | pullRequestClosed
  | pullRequestReopened
  | pullRequestReviewSubmitted
  | pullRequestMerged
  | issueOpened
  | issueClosed
  | issueCommented
  | releasePublished
  | push
  deriving DecidableEq, Repr

inductive NotificationKind where
  | mention
  | prReviewRequested
  | issueAssigned
  | prMerged
  | prClosed
  | issueClosed
  | releasePublished
  deriving DecidableEq, Repr

inductive NotificationSubject where
  | pullRequest (id : PullRequestId)
  | issue (id : IssueId)
  | release (id : ReleaseId)
  deriving DecidableEq, Repr

/-- What the JSON of a delivery shows of the entity that the event is about. -/
inductive WebhookEntity where
  | pullRequest (number : Int) (title : String)
  | issue (number : Int) (title : String)
  | release (tagName name : String)
  | push (ref before after : String)
  deriving DecidableEq, Repr

/-- The JSON of a delivery. -/
structure WebhookBody where
  action : String
  owner : String
  name : String
  entity : WebhookEntity
  deriving DecidableEq, Repr

/-- The jobs that events lead to. -/
inductive JobPayload where
  | deliverWebhook (webhookId : WebhookId) (event : WebhookEvent) (payload : WebhookBody)
  | createNotification (userId : UserId) (kind : NotificationKind) (subject : NotificationSubject)
  | sendEmail (toEmail subject bodyText : String)
  deriving DecidableEq, Repr

/-! ## Rows -/

inductive WatchLevel where
  | watching
  | ignoring
  deriving DecidableEq, Repr

/-- A row of `watches` on a repository. -/
structure Watch where
  userId : UserId
  repositoryId : RepositoryId
  level : WatchLevel
  deriving DecidableEq, Repr

structure Webhook where
  id : WebhookId
  repositoryId : RepositoryId
  events : List WebhookEvent
  active : Bool
  createdAt : Int
  deriving DecidableEq, Repr

def Webhook.isSubscribedTo (webhook : Webhook) (event : WebhookEvent) : Bool :=
  webhook.active && webhook.events.contains event

structure Issue where
  id : IssueId
  repositoryId : RepositoryId
  number : Int
  title : String
  authorId : UserId
  deriving DecidableEq, Repr

structure Release where
  id : ReleaseId
  repositoryId : RepositoryId
  tagName : String
  name : String
  authorId : UserId
  deriving DecidableEq, Repr

end Edda.Domain
