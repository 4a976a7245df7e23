import Edda.App.PullRequestService

/-!
# The mergeability that is shown

The detail of a pull request says whether the caller may merge it. It is to say what the gate of a
merge would decide in the same state; it asks for the state of the pull request and for the access
and the approvals, and does not look at the status checks that the rule of the target branch
requires.

`shown_mergeability_iff` says when the two agree.
-/

set_option autoImplicit false

namespace Edda.App.ShownMergeability

open Edda.Domain Edda.Db Edda.Auth Edda.Git Edda.Support

/-! ## The detail of a pull request -/

section Detail

variable {π : Type} (db : Database) (actor : ActorContext)

/-- The repository of a request that reads. -/
def readRepo (owner repo : String) : Except ServiceError Repository :=
  match repositoryByName db owner repo with
  | .error err => .error (.ofAuthz err)
  | .ok repository => match checkRead db actor repository with
    | .error err => .error (.ofAuthz err)
    | .ok () => .ok repository

/-- Whether the caller may currently merge a pull request. -/
def canMerge (repository : Repository) (pr : PullRequest) (reviews : List PrReview) : Bool :=
  pr.state.isOpen && match actor with
    | .anonymous => false
    | resolved => (checkMergePullRequest db resolved repository pr.target reviews).isOk

/-- The page of a pull request with what else it shows: the pull request itself, its comments, its
reviews and whom it asks for one. -/
structure PullRequestDetail (π : Type) where
  page : π
  canMerge : Bool

/-- `page` is what the rest of the page shows, with the names that it looks up and the bodies that it
renders. -/
def getOne (page : Repository → PullRequest → List PrReview → Except ServiceError π)
    (owner repo : String) (number : Int) : Except ServiceError (PullRequestDetail π) :=
  match readRepo db actor owner repo with
  | .error err => .error err
  | .ok repository => match db.findPullRequest repository.id number with
    | .error err => .error (.db err)
    | .ok none => .error .notFound
    | .ok (some pr) => match db.listReviews pr.id with
      | .error err => .error (.db err)
      | .ok reviews => match page repository pr reviews with
        | .error err => .error err
        | .ok page => .ok ⟨page, canMerge db actor repository pr reviews⟩

end Detail

/-! ## What the gate asks for -/

section Gate

variable (gix : Gix) (db : Database) (repos : Repos) (actor : ActorContext)
  (repository : Repository) (pr : PullRequest) (owner name : String)

/-- Write access, and as many approvals as the rule of the target branch asks for. -/
def MayMerge : Prop :=
  ∃ access, accessFor db actor repository = .ok access ∧ db.failing .findMatchingRule = none ∧
    canWriteRepository actor repository access = .ok () ∧
    ∀ rule ∈ db.matchingRule repository.id pr.target,
      rule.requiredApprovals ≤ (activeApprovals (db.reviewsOf pr.id) : Int)

/-- There is an account to commit the merge. -/
def HasAccount : Prop :=
  ∃ userId user, actor.userId = some userId ∧ db.failing .findUser = none ∧
    db.users.find? (fun user => user.id = userId) = some user

/-- Every check that the rule of the target branch requires has succeeded on the commit at the tip
of the source branch. -/
def ChecksPass : Prop :=
  db.failing .findMatchingChecks = none ∧
    ∀ rule ∈ db.matchingRule repository.id pr.target, rule.requiredStatusChecks ≠ [] →
      ∃ tip, sourceTip gix db repository pr owner name repos = some tip ∧
        (pr.source.repositoryId = repository.id ∨ db.failing .findHeadRepository = none) ∧
        db.failing .listStatuses = none ∧
        ∀ context ∈ rule.requiredStatusChecks, ∃ status ∈ db.commitStatuses,
          status.repositoryId = repository.id ∧ status.commitSha = tip.toHex ∧
            status.context = context ∧ status.state = .success

end Gate

section Decisions

variable {gix : Gix} {db : Database} {repos : Repos} {actor : ActorContext}
  {repository : Repository} {pr : PullRequest} {owner name : String}

theorem read_eq_ok_iff {α : Type} {query : Query} {value result : α} :
    db.read query value = .ok result ↔ db.failing query = none ∧ result = value := by
  rw [Database.read]
  cases db.failing query with
  | none => simp [eq_comm]
  | some err => simp

theorem checkMerge_eq_ok_iff :
    checkMergePullRequest db actor repository pr.target (db.reviewsOf pr.id) = .ok () ↔
      MayMerge db actor repository pr := by
  constructor
  · intro h
    obtain ⟨access, haccess, hmerge⟩ := checkMergePullRequest_eq_ok h
    obtain ⟨hwrite, hrule⟩ := canMergePullRequest_eq_ok.1 hmerge
    refine ⟨access, haccess, ?_, hwrite, hrule⟩
    -- a rule that cannot be read counts as no permission
    by_contra hfailing
    simp only [checkMergePullRequest, checkWith, haccess, Database.findMatching, Database.read] at h
    cases hread : db.failing .findMatchingRule with
    | none => exact hfailing hread
    | some err => simp [hread] at h
  · rintro ⟨access, haccess, hread, hwrite, hrule⟩
    simp only [checkMergePullRequest, checkWith, haccess, Database.findMatching,
      Database.read_of_not_failing hread]
    exact canMergePullRequest_eq_ok.2 ⟨hwrite, hrule⟩

/-- Nobody in particular has no access. -/
theorem not_mayMerge_anonymous : ¬ MayMerge db .anonymous repository pr := by
  rintro ⟨access, haccess, -, hwrite, -⟩
  obtain rfl := Except.ok.inj haccess
  simp [canWriteRepository, requireRole] at hwrite

theorem isOk_iff {result : Except AuthzError Unit} : result.isOk = true ↔ result = .ok () := by
  cases result with
  | error err => simp [Except.isOk, Except.toBool]
  | ok value => simp [Except.isOk, Except.toBool]

theorem canMerge_iff :
    canMerge db actor repository pr (db.reviewsOf pr.id) = true ↔
      pr.state.isOpen = true ∧ MayMerge db actor repository pr := by
  unfold canMerge
  rw [Bool.and_eq_true]
  apply and_congr_right
  intro _
  cases actor with
  | anonymous => simp [not_mayMerge_anonymous]
  | user id => exact isOk_iff.trans checkMerge_eq_ok_iff
  | token userId scope tokenScope => exact isOk_iff.trans checkMerge_eq_ok_iff
  | deployKey repositoryId readOnly => exact isOk_iff.trans checkMerge_eq_ok_iff

theorem actingUser_eq_ok_iff :
    (∃ user, actingUser db actor = .ok user) ↔ HasAccount db actor := by
  simp only [actingUser, HasAccount]
  cases actor.userId with
  | none => simp
  | some userId =>
    simp only [Database.findUserById, Database.read]
    cases db.failing .findUser with
    | some err => simp
    | none =>
      simp only [Option.some.injEq, true_and]
      cases hfind : db.users.find? fun user => user.id = userId with
      | none => simp [hfind]
      | some user => simp [hfind]

theorem headIdentity_eq_ok_iff {identity : String} :
    headIdentity db repository pr owner name = .ok identity ↔
      sourceIdentity db repository pr owner name = some identity ∧
        (pr.source.repositoryId = repository.id ∨ db.failing .findHeadRepository = none) := by
  simp only [headIdentity, sourceIdentity]
  by_cases hsame : pr.source.repositoryId = repository.id
  · simp [hsame]
  · simp only [hsame, if_false, false_or, findSource, Database.findByIdWithOwnerUsername,
      Database.read]
    cases db.failing .findHeadRepository with
    | some err => simp
    | none =>
      cases db.repositories.find? fun row => row.repository.id = pr.source.repositoryId with
      | none => simp
      | some row => simp

theorem branchTip_eq_ok_iff {identity branch headSha : String} :
    branchTip gix repos identity branch = .ok headSha ↔
      ∃ repo tip, repos identity = some repo ∧
        resolveCommitId gix repo (branchRef branch) = .ok tip ∧ headSha = tip.toHex := by
  refine ⟨branchTip_eq_ok, ?_⟩
  rintro ⟨repo, tip, hrepo, htip, rfl⟩
  simp only [branchTip, openRepo, hrepo, resolveBranchCommit, openAndResolve]
  rw [branchRef] at htip
  rw [htip]
  rfl

/-- The commit whose statuses are looked up is the one at the tip of the source branch. -/
theorem head_eq_ok_iff {headSha : String} :
    (∃ identity, headIdentity db repository pr owner name = .ok identity ∧
        branchTip gix repos identity pr.source.branch = .ok headSha) ↔
      ∃ tip, sourceTip gix db repository pr owner name repos = some tip ∧
        (pr.source.repositoryId = repository.id ∨ db.failing .findHeadRepository = none) ∧
        headSha = tip.toHex := by
  constructor
  · rintro ⟨identity, hidentity, hhead⟩
    obtain ⟨hsource, hread⟩ := headIdentity_eq_ok_iff.1 hidentity
    obtain ⟨repo, tip, hrepo, htip, rfl⟩ := branchTip_eq_ok_iff.1 hhead
    refine ⟨tip, ?_, hread, rfl⟩
    simp [sourceTip, hsource, hrepo, htip, Except.toOption]
  · rintro ⟨tip, hsource, hread, rfl⟩
    simp only [sourceTip, Option.bind_eq_some_iff] at hsource
    obtain ⟨identity, hidentity, repo, hrepo, htip⟩ := hsource
    refine ⟨identity, headIdentity_eq_ok_iff.2 ⟨hidentity, hread⟩, ?_⟩
    apply branchTip_eq_ok_iff.2
    refine ⟨repo, tip, hrepo, ?_, rfl⟩
    cases hresolve : resolveCommitId gix repo (branchRef pr.source.branch) with
    | error err => simp [hresolve, Except.toOption] at htip
    | ok found =>
      rw [hresolve] at htip
      exact congrArg Except.ok (Option.some.inj htip)

/-- The statuses of a commit of the target repository satisfy a rule. -/
theorem requiredChecks_iff {required : List String} {headSha : String} :
    requiredChecksSatisfied required (db.statusesOf repository.id headSha) = true ↔
      ∀ context ∈ required, ∃ status ∈ db.commitStatuses, status.repositoryId = repository.id ∧
        status.commitSha = headSha ∧ status.context = context ∧ status.state = .success := by
  simp only [requiredChecksSatisfied_iff, Database.mem_statusesOf, and_assoc]

theorem checkStatuses_eq_ok_iff :
    (∃ headSha, checkStatuses gix db repos repository pr owner name = .ok headSha) ↔
      ChecksPass gix db repos repository pr owner name := by
  simp only [ChecksPass, checkStatuses, Database.findMatching, Database.read]
  cases db.failing .findMatchingChecks with
  | some err => simp
  | none =>
    cases hrule : db.matchingRule repository.id pr.target with
    | none => simp
    | some rule =>
      simp only [Option.mem_some_iff, true_and, forall_eq']
      by_cases hrequired : rule.requiredStatusChecks = []
      · simp [hrequired]
      · have hnonempty : rule.requiredStatusChecks.isEmpty = false := by simpa using hrequired
        simp only [hnonempty, hrequired, ne_eq, not_false_eq_true, true_implies, Bool.false_eq_true,
          if_false, ← requiredChecks_iff, Database.listForCommit, Database.read]
        constructor
        · rintro ⟨found, h⟩
          cases hidentity : headIdentity db repository pr owner name with
          | error err => simp [hidentity] at h
          | ok identity =>
            cases hhead : branchTip gix repos identity pr.source.branch with
            | error err => simp [hidentity, hhead] at h
            | ok headSha =>
              obtain ⟨tip, hsource, hread, rfl⟩ := head_eq_ok_iff.1 ⟨identity, hidentity, hhead⟩
              cases hstatuses : db.failing .listStatuses with
              | some err => simp [hidentity, hhead, hstatuses] at h
              | none =>
                refine ⟨tip, hsource, hread, rfl, ?_⟩
                by_contra hunsatisfied
                simp [hidentity, hhead, hstatuses, hunsatisfied] at h
        · rintro ⟨tip, hsource, hread, hstatuses, hsatisfied⟩
          obtain ⟨identity, hidentity, hhead⟩ := head_eq_ok_iff.2 ⟨tip, hsource, hread, rfl⟩
          refine ⟨some tip.toHex, ?_⟩
          simp [hidentity, hhead, hstatuses, hsatisfied]

/-- The gate lets through exactly the merges of an open pull request by somebody who may merge it,
with an account and with the required checks. -/
theorem mergeGate_eq_ok_iff {number : Int}
    (hrepository : repositoryByName db owner name = .ok repository)
    (hpr : db.findPullRequest repository.id number = .ok (some pr))
    (hreviews : db.failing .listReviews = none) :
    (∃ gate, mergeGate gix db repos actor owner name number = .ok gate) ↔
      HasAccount db actor ∧ (pr.state.isOpen = true ∧ MayMerge db actor repository pr) ∧
        ChecksPass gix db repos repository pr owner name := by
  rw [← actingUser_eq_ok_iff, ← checkMerge_eq_ok_iff, ← checkStatuses_eq_ok_iff]
  simp only [mergeGate, hrepository, hpr, mergeCheck, Database.listReviews,
    Database.read_of_not_failing hreviews]
  cases actingUser db actor with
  | error err => simp
  | ok committer =>
    by_cases hopen : pr.state.isOpen = true
    · simp only [hopen, if_true]
      cases checkMergePullRequest db actor repository pr.target (db.reviewsOf pr.id) with
      | error err => simp
      | ok result =>
        cases checkStatuses gix db repos repository pr owner name with
        | error err => simp
        | ok headSha => simp
    · simp [hopen]

theorem getOne_eq_ok {π : Type} {page : Repository → PullRequest → List PrReview →
      Except ServiceError π} {number : Int} {detail : PullRequestDetail π}
    (hrepository : repositoryByName db owner name = .ok repository)
    (hpr : db.findPullRequest repository.id number = .ok (some pr))
    (h : getOne db actor page owner name number = .ok detail) :
    db.failing .listReviews = none ∧
      detail.canMerge = canMerge db actor repository pr (db.reviewsOf pr.id) := by
  simp only [getOne, readRepo, hrepository] at h
  cases hread : checkRead db actor repository with
  | error err => simp [hread] at h
  | ok result =>
    simp only [hread, hpr, Database.listReviews, Database.read] at h
    cases hreviews : db.failing .listReviews with
    | some err => simp [hreviews] at h
    | none =>
      simp only [hreviews] at h
      cases hpage : page repository pr (db.reviewsOf pr.id) with
      | error err => simp [hpage] at h
      | ok shown =>
        rw [hpage] at h
        obtain rfl := Except.ok.inj h
        exact ⟨rfl, rfl⟩

end Decisions

/-- What is shown agrees with the gate exactly where an open pull request that the caller may merge
has its required checks, and the caller an account. -/
theorem shown_mergeability_iff {π : Type} (gix : Gix) {db : Database} (repos : Repos)
    {actor : ActorContext} {repository : Repository} {pr : PullRequest} {owner name : String}
    {number : Int} {page : Repository → PullRequest → List PrReview → Except ServiceError π}
    {detail : PullRequestDetail π}
    (hrepository : repositoryByName db owner name = .ok repository)
    (hpr : db.findPullRequest repository.id number = .ok (some pr))
    (hdetail : getOne db actor page owner name number = .ok detail) :
    (detail.canMerge = true ↔ ∃ gate, mergeGate gix db repos actor owner name number = .ok gate) ↔
      (pr.state.isOpen = true → MayMerge db actor repository pr →
        HasAccount db actor ∧ ChecksPass gix db repos repository pr owner name) := by
  obtain ⟨hreviews, hshown⟩ := getOne_eq_ok hrepository hpr hdetail
  rw [hshown, canMerge_iff, mergeGate_eq_ok_iff hrepository hpr hreviews]
  constructor
  · intro h hopen hmerge
    obtain ⟨haccount, -, hchecks⟩ := h.1 ⟨hopen, hmerge⟩
    exact ⟨haccount, hchecks⟩
  · intro h
    constructor
    · rintro ⟨hopen, hmerge⟩
      obtain ⟨haccount, hchecks⟩ := h hopen hmerge
      exact ⟨haccount, ⟨hopen, hmerge⟩, hchecks⟩
    · rintro ⟨-, hallowed, -⟩
      exact hallowed

/-! ## A check that has not been reported -/

/-- A rule for `main` that requires two checks, of which one is green. -/
def lintedRule : BranchProtectionRule := ⟨"main", 0, false, false, false, false, ["ci", "lint"], []⟩

/-- The page says that the pull request can be merged, and the gate refuses for the check. -/
theorem mergeable_is_shown_without_checks :
    getOne (topicDatabase [lintedRule]) (.user 1) (fun _ _ _ => .ok ()) "ada" "demo" 1 =
        .ok ⟨(), true⟩ ∧
      mergeGate forkedGix (topicDatabase [lintedRule]) topicRepos (.user 1) "ada" "demo" 1 =
        .error (.conflict "the required status checks are not all passing on the head commit") := by
  constructor
  · rfl
  · decide +kernel

/-- With the one check that is green, the page and the gate are asked for alike. -/
theorem shown_mergeability_of_green_check :
    getOne (topicDatabase [anyBranchRule]) (.user 1) (fun _ _ _ => .ok ()) "ada" "demo" 1 =
        .ok ⟨(), true⟩ ∧
      ((true = true ↔ ∃ gate, mergeGate forkedGix (topicDatabase [anyBranchRule]) topicRepos
          (.user 1) "ada" "demo" 1 = .ok gate) ↔
        (topicPull.state.isOpen = true →
          MayMerge (topicDatabase [anyBranchRule]) (.user 1) ⟨5, "demo", .«public»⟩ topicPull →
          HasAccount (topicDatabase [anyBranchRule]) (.user 1) ∧
            ChecksPass forkedGix (topicDatabase [anyBranchRule]) topicRepos ⟨5, "demo", .«public»⟩
              topicPull "ada" "demo")) :=
  ⟨rfl, @shown_mergeability_iff Unit forkedGix (topicDatabase [anyBranchRule]) topicRepos (.user 1)
    ⟨5, "demo", .«public»⟩ topicPull "ada" "demo" 1 (fun _ _ _ => .ok ()) ⟨(), true⟩ rfl rfl rfl⟩

end Edda.App.ShownMergeability
