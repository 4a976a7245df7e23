import Edda.Jobs.Dispatcher

/-!
# Who is notified

The users that an event is meant for are each to be notified once, whoever else is not
(`Intended`, `Exact`): not the user who acted, and nobody who ignores the repository. E-mails go only
to users who have not opted out of them. `fanOut_exact_iff` says for which tables the fan-out of an
event keeps to this.
-/

set_option autoImplicit false

namespace Edda.Jobs.Recipients

open Edda.Domain Edda.Db Edda.Auth Edda.Support Edda.Jobs.Dispatcher

/-! ## What a fan-out is to produce -/

/-- The user that a job notifies. -/
def notified : JobPayload → Option UserId
  | .createNotification id _ _ => some id
  | _ => none

/-- The address that a job sends an e-mail to. -/
def emailed : JobPayload → Option String
  | .sendEmail toEmail _ _ => some toEmail
  | _ => none

/-- The user acted. The event of a merge does not say who merged. -/
def ActedBy : DomainEvent → UserId → Prop
  | .pullRequestMerged _ _, _ => True
  | .userMentioned _ mentionedByUserId _, actor => actor = mentionedByUserId
  | .branchPushed _ _ _ _ pusherId, actor => actor = pusherId
  | .issueAssigned _ _ _ assignedById, actor => actor = assignedById
  | .reviewRequested _ _ _ requestedById, actor => actor = requestedById
  | .issueClosed _ _ closedById _, actor => actor = closedById
  | .issueOpened _ _ openedById, actor => actor = openedById
  | .issueCommented _ _ authorId, actor => actor = authorId
  | .pullRequestOpened _ _ openedById, actor => actor = openedById
  | .pullRequestClosed _ _ closedById, actor => actor = closedById
  | .pullRequestReopened _ _ reopenedById, actor => actor = reopenedById
  | .pullRequestReviewSubmitted _ _ reviewerId _, actor => actor = reviewerId
  | .releasePublished _ _ publishedById, actor => actor = publishedById

section Law

variable (db : Tables)

def Watches (repositoryId : RepositoryId) (userId : UserId) : Prop :=
  ⟨userId, repositoryId, .watching⟩ ∈ db.watches

/-- The user ignores the repository that the event is about. -/
def Ignores (event : DomainEvent) (userId : UserId) : Prop :=
  ∃ repositoryId, db.about event = some repositoryId ∧
    ⟨userId, repositoryId, .ignoring⟩ ∈ db.watches

/-- The users that an event is meant for, before those who acted or ignore the repository are left
out: the one that it addresses, or the watchers and whoever is involved. -/
def Intended : DomainEvent → UserId → Prop
  | .userMentioned mentionedUserId _ _, userId => userId = mentionedUserId
  | .issueAssigned _ _ assigneeId _, userId => userId = assigneeId
  | .reviewRequested _ _ reviewerId _, userId => userId = reviewerId
  | .issueClosed id repositoryId _ _, userId =>
    ∃ issue, db.issueRow id = some issue ∧ (db.repositoryRow repositoryId).isSome ∧
      (Watches db repositoryId userId ∨ (id, userId) ∈ db.issueAssignees ∨
        userId = issue.authorId)
  | .pullRequestClosed id repositoryId _, userId =>
    ∃ pr, db.pullRequestRow id = some pr ∧ (db.repositoryRow repositoryId).isSome ∧
      (Watches db repositoryId userId ∨ userId = db.pullRequestAuthor pr.id)
  | .pullRequestMerged id repositoryId, userId =>
    ∃ pr, db.pullRequestRow id = some pr ∧ (db.repositoryRow repositoryId).isSome ∧
      (Watches db repositoryId userId ∨ userId = db.pullRequestAuthor pr.id)
  | .releasePublished id repositoryId _, userId =>
    ∃ release, db.releaseRow id = some release ∧ (db.repositoryRow repositoryId).isSome ∧
      (Watches db repositoryId userId ∨ userId = release.authorId)
  | _, _ => False

/-- A job is for the user. -/
def Told (jobs : List JobPayload) (userId : UserId) : Prop :=
  userId ∈ jobs.filterMap notified ∨
    ∃ user ∈ db.users, user.id = userId ∧ user.email ∈ jobs.filterMap emailed

/-- What a fan-out enqueues for people is right. -/
structure Exact (event : DomainEvent) (actor : UserId) (jobs : List JobPayload) : Prop where
  oneNotification : (jobs.filterMap notified).Nodup
  oneEmail : (jobs.filterMap emailed).Nodup
  notActor : ¬ Told db jobs actor
  notIgnoring : ∀ userId, Ignores db event userId → ¬ Told db jobs userId
  optedIn : ∀ user ∈ db.users, user.email ∈ jobs.filterMap emailed →
    db.emailNotificationsEnabled user.id = true
  intended : ∀ userId, Intended db event userId → userId ≠ actor → ¬ Ignores db event userId →
    userId ∈ jobs.filterMap notified

/-- Where the fan-out does not fail, nobody whom it concerns acted or ignores the repository; and
nobody of them has opted out of e-mails while that cannot be read and the rest of the user can. -/
def Fits (event : DomainEvent) (actor : UserId) : Prop :=
  Answers db (db.reads event) → ∀ userId, Concerns db event userId →
    userId ≠ actor ∧ ¬ Ignores db event userId ∧
      ∀ user, db.userRow userId = some user → db.failingRead (.emailPreference userId) ≠ none →
        db.failingRead (.recipient userId) = none → db.emailNotificationsEnabled userId = true

/-- The address that goes with a notification, if an e-mail does. -/
def emailOf (userId : UserId) : Option String :=
  if db.emailEnabled userId then
    match db.ask (.recipient userId) (db.userRow userId) with
    | .ok (some recipient) => some recipient.email
    | _ => none
  else none

/-- A part of a fan-out notifies nobody twice, and sends e-mails only beside notifications. -/
def Counted (result : Except DbError (List JobPayload)) : Prop :=
  ∀ jobs, result = .ok jobs → (jobs.filterMap notified).Nodup ∧
    jobs.filterMap emailed = (jobs.filterMap notified).filterMap (emailOf db)

end Law

/-! ## Nobody is notified twice -/

section Counted

variable {db : Tables}

/-- What is sorted has each id once after `dedup`. -/
theorem pairwise_dedup {ids : List UserId} (h : ids.Pairwise fun a b => a.toNat ≤ b.toNat) :
    (dedup ids).Pairwise fun a b => a.toNat < b.toNat := by
  induction ids using dedup.induct with
  | case1 => exact List.Pairwise.nil
  | case2 id => exact List.pairwise_singleton _ _
  | case3 next rest ih =>
    rw [dedup, if_pos rfl]
    exact ih (List.pairwise_cons.1 h).2
  | case4 first next rest hne ih =>
    obtain ⟨hfirst, hrest⟩ := List.pairwise_cons.1 h
    rw [dedup, if_neg hne, List.pairwise_cons]
    refine ⟨fun id hid => ?_, ih hrest⟩
    have hlt : first.toNat < next.toNat :=
      lt_of_le_of_ne (hfirst next List.mem_cons_self) fun heq => hne (BitVec.eq_of_toNat_eq heq)
    rcases List.mem_cons.1 (mem_dedup.1 hid) with rfl | hid
    · exact hlt
    · exact hlt.trans_le ((List.pairwise_cons.1 hrest).1 id hid)

theorem nodup_recipients (watches : List Watch) (actorId : Option UserId)
    (involved : List UserId) : (recipients watches actorId involved).Nodup := by
  refine (pairwise_dedup ?_).imp fun hlt heq => ?_
  · exact List.pairwise_insertionSort _ _
  · exact absurd (congrArg BitVec.toNat heq) hlt.ne

theorem Counted.bind {α : Type} {first : Except DbError α}
    {next : α → Except DbError (List JobPayload)} (h : ∀ a, Counted db (next a)) :
    Counted db (first >>= next) := by
  intro jobs hjobs
  obtain ⟨a, -, hnext⟩ := bind_eq_ok.1 hjobs
  exact h a jobs hnext

theorem filterMap_deliveries {β : Type} (webhooks : List Webhook) (event : WebhookEvent)
    (body : WebhookBody) {f : JobPayload → Option β}
    (hf : ∀ id event body, f (.deliverWebhook id event body) = none) :
    (deliveries webhooks event body).filterMap f = [] := by
  rw [List.filterMap_eq_nil_iff]
  intro job hjob
  obtain ⟨webhook, -, rfl⟩ := List.mem_map.1 hjob
  exact hf _ _ _

/-- Deliveries in front make no difference. -/
theorem Counted.afterDeliveries {result : Except DbError (List JobPayload)}
    (h : Counted db result) (webhooks : List Webhook) (event : WebhookEvent) (body : WebhookBody) :
    Counted db (do
      let told ← result
      return deliveries webhooks event body ++ told) := by
  intro jobs hjobs
  obtain ⟨told, htold, hreturn⟩ := bind_eq_ok.1 hjobs
  obtain rfl := Except.ok.inj hreturn
  rw [List.filterMap_append, List.filterMap_append, filterMap_deliveries _ _ _ fun _ _ _ => rfl,
    filterMap_deliveries _ _ _ fun _ _ _ => rfl, List.nil_append, List.nil_append]
  exact h told htold

theorem counted_deliveries (webhooks : List Webhook) (event : WebhookEvent) (body : WebhookBody) :
    Counted db (.ok (deliveries webhooks event body)) := by
  intro jobs hjobs
  obtain rfl := Except.ok.inj hjobs
  rw [filterMap_deliveries _ _ _ fun _ _ _ => rfl, filterMap_deliveries _ _ _ fun _ _ _ => rfl]
  exact ⟨List.nodup_nil, rfl⟩

theorem counted_nothing : Counted db (.ok []) :=
  counted_deliveries [] .push ⟨"", "", "", .push "" "" ""⟩

theorem notified_notify (userId : UserId) (actorId : Option UserId) (kind : NotificationKind)
    (subject : NotificationSubject) (emailSubject action : String) :
    (notify db userId actorId kind subject emailSubject action).filterMap notified = [userId] := by
  unfold notify
  by_cases henabled : db.emailEnabled userId = true
  · rw [if_pos henabled]
    cases db.ask (.recipient userId) (db.userRow userId) with
    | error err => rfl
    | ok row =>
      cases row with
      | none => rfl
      | some recipient => rfl
  · rw [if_neg henabled]
    rfl

theorem emailed_notify (userId : UserId) (actorId : Option UserId) (kind : NotificationKind)
    (subject : NotificationSubject) (emailSubject action : String) :
    (notify db userId actorId kind subject emailSubject action).filterMap emailed =
      (emailOf db userId).toList := by
  unfold notify emailOf
  by_cases henabled : db.emailEnabled userId = true
  · rw [if_pos henabled, if_pos henabled]
    cases db.ask (.recipient userId) (db.userRow userId) with
    | error err => rfl
    | ok row =>
      cases row with
      | none => rfl
      | some recipient => rfl
  · rw [if_neg henabled, if_neg henabled]
    rfl

/-- Notices for users, each of whom is there once. -/
theorem counted_notices {userIds : List UserId} (hnodup : userIds.Nodup) (actorId : Option UserId)
    (kind : NotificationKind) (subject : NotificationSubject) (emailSubject action : String) :
    Counted db (.ok (userIds.flatMap fun userId =>
      notify db userId actorId kind subject emailSubject action)) := by
  intro jobs hjobs
  obtain rfl := Except.ok.inj hjobs
  have hnotified : (userIds.flatMap fun userId =>
      notify db userId actorId kind subject emailSubject action).filterMap notified = userIds := by
    rw [List.filterMap_flatMap]
    simp only [notified_notify]
    exact List.flatMap_singleton' userIds
  rw [hnotified]
  refine ⟨hnodup, ?_⟩
  rw [List.filterMap_flatMap, List.filterMap_eq_flatMap_toList]
  simp only [emailed_notify]

theorem counted_notifyWatchers (repositoryId : RepositoryId) (subject : NotificationSubject)
    (kind : NotificationKind) (actorId : Option UserId) (involved : List UserId)
    (emailSubject action : String) :
    Counted db
      (notifyWatchers db repositoryId subject kind actorId involved emailSubject action) := by
  apply Counted.bind
  intro watches
  exact counted_notices (nodup_recipients watches actorId involved) _ _ _ _ _

theorem counted_one (userId : UserId) (actorId : Option UserId) (kind : NotificationKind)
    (subject : NotificationSubject) (emailSubject action : String) :
    Counted db (.ok (notify db userId actorId kind subject emailSubject action)) := by
  have h := @counted_notices db [userId] (List.nodup_singleton userId) actorId kind subject
    emailSubject action
  rwa [List.flatMap_singleton] at h

theorem counted_issueActivity (issueId : IssueId) (repositoryId : RepositoryId) (actorId : UserId)
    (event : WebhookEvent) (action : String) (notification : Option (NotificationKind × String)) :
    Counted db (issueActivity db issueId repositoryId actorId event action notification) := by
  apply Counted.bind
  intro issue
  apply Counted.bind
  intro repo
  split
  · apply Counted.bind
    intro owner
    apply Counted.bind
    intro webhooks
    split
    · apply Counted.bind
      intro assignees
      exact (counted_notifyWatchers _ _ _ _ _ _ _).afterDeliveries _ _ _
    · exact counted_deliveries _ _ _
  · exact counted_nothing

theorem counted_prActivity (pullRequestId : PullRequestId) (repositoryId : RepositoryId)
    (actorId : UserId) (event : WebhookEvent) (action : String)
    (notification : Option (NotificationKind × String)) :
    Counted db (prActivity db pullRequestId repositoryId actorId event action notification) := by
  apply Counted.bind
  intro pr
  apply Counted.bind
  intro repo
  split
  · apply Counted.bind
    intro owner
    apply Counted.bind
    intro webhooks
    split
    · exact (counted_notifyWatchers _ _ _ _ _ _ _).afterDeliveries _ _ _
    · exact counted_deliveries _ _ _
  · exact counted_nothing

theorem counted_releaseActivity (releaseId : ReleaseId) (repositoryId : RepositoryId)
    (actorId : UserId) : Counted db (releaseActivity db releaseId repositoryId actorId) := by
  apply Counted.bind
  intro release
  apply Counted.bind
  intro repo
  split
  · apply Counted.bind
    intro owner
    apply Counted.bind
    intro webhooks
    exact (counted_notifyWatchers _ _ _ _ _ _ _).afterDeliveries _ _ _
  · exact counted_nothing

theorem counted_pullRequestMerged (pullRequestId : PullRequestId) (repositoryId : RepositoryId) :
    Counted db (pullRequestMerged db pullRequestId repositoryId) := by
  apply Counted.bind
  intro webhooks
  apply Counted.bind
  intro pr
  apply Counted.bind
  intro repo
  split
  · apply Counted.bind
    intro owner
    exact (counted_notifyWatchers _ _ _ _ _ _ _).afterDeliveries _ _ _
  · exact counted_nothing

theorem counted_fanOutBranchPushed (repositoryId : RepositoryId) (refName old new : String) :
    Counted db (fanOutBranchPushed db repositoryId refName old new) := by
  apply Counted.bind
  intro _
  apply Counted.bind
  intro webhooks
  split
  · exact counted_nothing
  · apply Counted.bind
    intro repo
    split
    · apply Counted.bind
      intro owner
      exact counted_deliveries _ _ _
    · exact counted_nothing

theorem counted_userMentioned (mentionedUserId mentionedByUserId : UserId)
    (source : MentionSource) :
    Counted db (userMentioned db mentionedUserId mentionedByUserId source) := by
  intro jobs hjobs
  simp only [userMentioned] at hjobs
  split at hjobs
  · next henabled =>
    obtain ⟨recipient, hask, hnext⟩ := bind_eq_ok.1 hjobs
    have hemail : emailOf db mentionedUserId = recipient.map User.email := by
      rw [emailOf, if_pos henabled, hask]
      cases recipient with
      | none => rfl
      | some user => rfl
    cases recipient with
    | none =>
      obtain rfl := Except.ok.inj hnext
      exact ⟨List.nodup_singleton _, by simp [notified, emailed, hemail]⟩
    | some user =>
      obtain ⟨mentioner, -, hreturn⟩ := bind_eq_ok.1 hnext
      obtain rfl := Except.ok.inj hreturn
      refine ⟨List.nodup_singleton _, ?_⟩
      change [user.email] = [mentionedUserId].filterMap (emailOf db)
      rw [List.filterMap_cons_some hemail]
      rfl
  · next henabled =>
    obtain rfl := Except.ok.inj hjobs
    exact ⟨List.nodup_singleton _, by simp [notified, emailed, emailOf, henabled]⟩

/-- No fan-out notifies a user twice. -/
theorem counted_fanOut (event : DomainEvent) : Counted db (fanOut db event) := by
  cases event with
  | pullRequestMerged id repositoryId => exact counted_pullRequestMerged id repositoryId
  | userMentioned mentioned mentionedBy source =>
    exact counted_userMentioned mentioned mentionedBy source
  | branchPushed repositoryId refName old new pusherId =>
    exact counted_fanOutBranchPushed repositoryId refName old new
  | issueAssigned id repositoryId assigneeId assignedById =>
    apply Counted.bind
    intro issue
    exact counted_one _ _ _ _ _ _
  | reviewRequested id repositoryId reviewerId requestedById =>
    apply Counted.bind
    intro pr
    exact counted_one _ _ _ _ _ _
  | issueClosed id repositoryId closedById viaPullRequest =>
    apply Counted.bind
    intro via
    exact counted_issueActivity _ _ _ _ _ _
  | issueOpened id repositoryId openedById =>
    exact counted_issueActivity id repositoryId openedById .issueOpened "opened" none
  | issueCommented id repositoryId authorId =>
    exact counted_issueActivity id repositoryId authorId .issueCommented "commented on" none
  | pullRequestOpened id repositoryId openedById =>
    exact counted_prActivity id repositoryId openedById .pullRequestOpened "opened" none
  | pullRequestClosed id repositoryId closedById =>
    exact counted_prActivity id repositoryId closedById .pullRequestClosed "closed"
      (some (.prClosed, "A pull request you follow was closed"))
  | pullRequestReopened id repositoryId reopenedById =>
    exact counted_prActivity id repositoryId reopenedById .pullRequestReopened "reopened" none
  | pullRequestReviewSubmitted id repositoryId reviewerId state =>
    exact counted_prActivity id repositoryId reviewerId .pullRequestReviewSubmitted
      ("submitted a " ++ state.asDbStr ++ " review on") none
  | releasePublished id repositoryId publishedById => exact counted_releaseActivity _ _ _

end Counted

/-! ## Who is told -/

section Told

variable {db : Tables} {event : DomainEvent} {jobs : List JobPayload}

theorem mem_notified_iff (hjobs : fanOut db event = .ok jobs) {userId : UserId} :
    userId ∈ jobs.filterMap notified ↔ Concerns db event userId := by
  have htells : Tells db (fanOut db event) (db.reads event) (Concerns db event) :=
    tells_fanOut event
  rw [List.mem_filterMap]
  constructor
  · rintro ⟨job, hmem, hjob⟩
    cases job with
    | createNotification id kind subject =>
      obtain rfl := Option.some.inj hjob
      rcases htells.told jobs hjobs _ hmem with hdelivery | ⟨other, huser, hfor⟩
      · exact hdelivery.elim
      · obtain rfl : id = other := hfor
        exact huser
    | deliverWebhook webhookId event body => cases hjob
    | sendEmail toEmail subject body => cases hjob
  · intro huser
    obtain ⟨others, kind, subject, hothers, hmem⟩ :=
      htells.notified (htells.answers jobs hjobs userId huser) userId huser
    obtain rfl : jobs = others := Except.ok.inj (hjobs.symm.trans hothers)
    exact ⟨_, hmem, rfl⟩

/-- Where an e-mail goes. -/
theorem emailOf_eq_some {userId : UserId} {email : String} :
    emailOf db userId = some email ↔ db.emailEnabled userId = true ∧
      db.failingRead (.recipient userId) = none ∧
        ∃ user, db.userRow userId = some user ∧ user.email = email := by
  rw [emailOf]
  split
  · next henabled =>
    split
    · next recipient hask =>
      obtain ⟨hanswers, hrow⟩ := ask_eq_ok.1 hask
      simp [henabled, hanswers, hrow]
    · next hask =>
      constructor
      · intro h
        cases h
      · rintro ⟨-, hanswers, user, hrow, -⟩
        exact absurd (ask_eq_ok.2 ⟨hanswers, hrow⟩) (hask user)
  · next henabled => simp [henabled]

theorem userRow_eq_some {userId : UserId} {user : User} (h : db.userRow userId = some user) :
    user ∈ db.users ∧ user.id = userId :=
  ⟨List.mem_of_find?_eq_some h, by simpa using List.find?_some h⟩

theorem mem_emailed_iff (hjobs : fanOut db event = .ok jobs) {email : String} :
    email ∈ jobs.filterMap emailed ↔
      ∃ userId, Concerns db event userId ∧ emailOf db userId = some email := by
  rw [(counted_fanOut event jobs hjobs).2, List.mem_filterMap]
  simp only [mem_notified_iff hjobs]

variable (hemails : (db.users.map User.email).Nodup)

include hemails

/-- An e-mail goes to the one user with that address. -/
theorem eq_of_emailOf {userId : UserId} {user : User} (hmem : user ∈ db.users)
    (h : emailOf db userId = some user.email) :
    db.userRow userId = some user ∧ user.id = userId := by
  obtain ⟨-, -, other, hrow, hemail⟩ := emailOf_eq_some.1 h
  obtain ⟨hother, hid⟩ := userRow_eq_some hrow
  obtain rfl : other = user := List.inj_on_of_nodup_map hemails hother hmem hemail
  exact ⟨hrow, hid⟩

theorem told_iff (hjobs : fanOut db event = .ok jobs) {userId : UserId} :
    Told db jobs userId ↔ Concerns db event userId := by
  constructor
  · rintro (hnotified | ⟨user, hmem, rfl, hemail⟩)
    · exact (mem_notified_iff hjobs).1 hnotified
    · obtain ⟨userId, huser, hgoes⟩ := (mem_emailed_iff hjobs).1 hemail
      obtain ⟨-, rfl⟩ := eq_of_emailOf hemails hmem hgoes
      exact huser
  · intro huser
    exact .inl ((mem_notified_iff hjobs).2 huser)

theorem nodup_emailed (hjobs : fanOut db event = .ok jobs) : (jobs.filterMap emailed).Nodup := by
  obtain ⟨hnodup, hemailed⟩ := counted_fanOut event jobs hjobs
  rw [hemailed]
  apply hnodup.filterMap
  intro userId other email huser hother
  obtain ⟨-, -, user, hrow, rfl⟩ := emailOf_eq_some.1 huser
  obtain ⟨hmem, rfl⟩ := userRow_eq_some hrow
  exact (eq_of_emailOf hemails hmem hother).2

/-- Those who have opted out get no e-mail, unless the preference cannot be read. -/
theorem optedIn_iff (hjobs : fanOut db event = .ok jobs) :
    (∀ user ∈ db.users, user.email ∈ jobs.filterMap emailed →
      db.emailNotificationsEnabled user.id = true) ↔
    ∀ userId, Concerns db event userId → ∀ user, db.userRow userId = some user →
      db.failingRead (.emailPreference userId) ≠ none →
        db.failingRead (.recipient userId) = none → db.emailNotificationsEnabled userId = true := by
  constructor
  · intro h userId huser user hrow hfails hanswers
    obtain ⟨hmem, rfl⟩ := userRow_eq_some hrow
    apply h user hmem
    refine (mem_emailed_iff hjobs).2 ⟨user.id, huser, ?_⟩
    refine emailOf_eq_some.2 ⟨?_, hanswers, user, hrow, rfl⟩
    rw [Tables.emailEnabled]
    split
    · next hask => exact absurd (ask_eq_ok.1 hask).1 hfails
    · rfl
  · intro h user hmem hemail
    obtain ⟨userId, huser, hgoes⟩ := (mem_emailed_iff hjobs).1 hemail
    obtain ⟨hrow, rfl⟩ := eq_of_emailOf hemails hmem hgoes
    obtain ⟨henabled, hanswers, -⟩ := emailOf_eq_some.1 hgoes
    -- the default stands in for the preference only where it cannot be read
    by_cases hread : db.failingRead (.emailPreference user.id) = none
    · rwa [Tables.emailEnabled, ask_eq_ok.2 ⟨hread, hrow⟩] at henabled
    · exact h user.id huser user hrow hread hanswers

end Told

/-- Whoever the event is meant for is concerned, the user who acted and those who ignore the
repository apart. -/
theorem concerns_of_intended {db : Tables} {event : DomainEvent} {actor userId : UserId}
    (hacted : ActedBy event actor) (h : Intended db event userId) (hactor : userId ≠ actor)
    (hignores : ¬ Ignores db event userId) : Concerns db event userId := by
  have hmute : ∀ {repositoryId}, db.about event = some repositoryId →
      ⟨userId, repositoryId, .ignoring⟩ ∉ db.watches :=
    fun habout hmem => hignores ⟨_, habout, hmem⟩
  cases event with
  | userMentioned mentioned mentionedBy source => exact h
  | issueAssigned id repositoryId assigneeId assignedById => exact h
  | reviewRequested id repositoryId reviewerId requestedById => exact h
  | issueClosed id repositoryId closedById viaPullRequest =>
    obtain ⟨issue, hissue, hrepo, hinvolved⟩ := h
    obtain rfl : actor = closedById := hacted
    exact ⟨issue, hissue, hrepo, hinvolved, fun heq => hactor (Option.some.inj heq), hmute rfl⟩
  | pullRequestClosed id repositoryId closedById =>
    obtain ⟨pr, hpr, hrepo, hinvolved⟩ := h
    obtain rfl : actor = closedById := hacted
    exact ⟨pr, hpr, hrepo, hinvolved, fun heq => hactor (Option.some.inj heq), hmute rfl⟩
  | pullRequestMerged id repositoryId =>
    obtain ⟨pr, hpr, hrepo, hinvolved⟩ := h
    exact ⟨pr, hpr, hrepo, hinvolved, by simp, hmute rfl⟩
  | releasePublished id repositoryId publishedById =>
    obtain ⟨release, hrelease, hrepo, hinvolved⟩ := h
    obtain rfl : actor = publishedById := hacted
    exact ⟨release, hrelease, hrepo, hinvolved, fun heq => hactor (Option.some.inj heq), hmute rfl⟩
  | branchPushed repositoryId refName old new pusherId => exact h
  | issueOpened id repositoryId openedById => exact h
  | issueCommented id repositoryId authorId => exact h
  | pullRequestOpened id repositoryId openedById => exact h
  | pullRequestReopened id repositoryId reopenedById => exact h
  | pullRequestReviewSubmitted id repositoryId reviewerId state => exact h

/-- The fan-out of an event notifies exactly whom it is meant for where `Fits` holds, and only
there. -/
theorem fanOut_exact_iff (db : Tables) (hemails : (db.users.map User.email).Nodup)
    (event : DomainEvent) (actor : UserId) (hacted : ActedBy event actor) :
    (∀ jobs, fanOut db event = .ok jobs → Exact db event actor jobs) ↔ Fits db event actor := by
  have htells : Tells db (fanOut db event) (db.reads event) (Concerns db event) :=
    tells_fanOut event
  constructor
  · intro h hanswers userId huser
    obtain ⟨jobs, -, -, hjobs, -⟩ := htells.notified hanswers userId huser
    obtain ⟨-, -, hactor, hignoring, hopted, -⟩ := h jobs hjobs
    refine ⟨?_, ?_, (optedIn_iff hemails hjobs).1 hopted userId huser⟩
    · rintro rfl
      exact hactor ((told_iff hemails hjobs).2 huser)
    · intro hignores
      exact hignoring userId hignores ((told_iff hemails hjobs).2 huser)
  · intro h jobs hjobs
    -- where somebody is concerned, the fan-out has not failed
    have hfits : ∀ userId, Concerns db event userId → _ :=
      fun userId huser => h (htells.answers jobs hjobs userId huser) userId huser
    refine ⟨(counted_fanOut event jobs hjobs).1, nodup_emailed hemails hjobs, ?_, ?_, ?_, ?_⟩
    · intro htold
      exact (hfits actor ((told_iff hemails hjobs).1 htold)).1 rfl
    · intro userId hignores htold
      exact (hfits userId ((told_iff hemails hjobs).1 htold)).2.1 hignores
    · exact (optedIn_iff hemails hjobs).2 fun userId huser => (hfits userId huser).2.2
    · intro userId hintended hactor hignores
      exact (mem_notified_iff hjobs).2 (concerns_of_intended hacted hintended hactor hignores)

/-- `alice` publishes a release of a repository that `bob` watches. -/
theorem fanOut_exact_watched :
    fanOut watched (.releasePublished 20 10 1) = .ok
        [.createNotification 2 .releasePublished (.release 20),
          .sendEmail "bob@example.com" "A new release was published"
            "@alice published release v1.0."] ∧
      ∀ jobs, fanOut watched (.releasePublished 20 10 1) = .ok jobs →
        Exact watched (.releasePublished 20 10 1) 1 jobs := by
  refine ⟨by decide +kernel, ?_⟩
  refine (fanOut_exact_iff watched (by decide +kernel) (.releasePublished 20 10 1) 1 rfl).2 ?_
  intro _ userId huser
  obtain ⟨release, -, -, -, hactor, hmute⟩ := huser
  refine ⟨fun heq => hactor (congrArg some heq), ?_, fun _ _ hfails => absurd rfl hfails⟩
  rintro ⟨repositoryId, habout, hmem⟩
  obtain rfl : 10 = repositoryId := Option.some.inj habout
  exact hmute hmem

/-- `bob` ignores the repository of `watched`, which has an issue. -/
def muted : Tables :=
  { watched with
    watches := [⟨2, 10, .ignoring⟩]
    issues := [⟨30, 10, 1, "Crash", 1⟩] }

/-- The issue is assigned to `bob`, who has muted the repository, and he is notified. -/
theorem ignoring_assignee_is_notified :
    Ignores muted (.issueAssigned 30 10 2 1) 2 ∧
      fanOut muted (.issueAssigned 30 10 2 1) = .ok
        [.createNotification 2 .issueAssigned (.issue 30),
          .sendEmail "bob@example.com" "You were assigned an issue on Edda"
            "@alice assigned you issue #1: Crash."] ∧
      ¬ ∀ jobs, fanOut muted (.issueAssigned 30 10 2 1) = .ok jobs →
        Exact muted (.issueAssigned 30 10 2 1) 1 jobs := by
  have hignores : Ignores muted (.issueAssigned 30 10 2 1) 2 := ⟨10, rfl, by decide +kernel⟩
  have hjobs : fanOut muted (.issueAssigned 30 10 2 1) = .ok
      [.createNotification 2 .issueAssigned (.issue 30),
        .sendEmail "bob@example.com" "You were assigned an issue on Edda"
          "@alice assigned you issue #1: Crash."] := by
    decide +kernel
  refine ⟨hignores, hjobs, ?_⟩
  intro h
  exact (h _ hjobs).notIgnoring 2 hignores (.inl (by decide +kernel))

end Edda.Jobs.Recipients
