import Edda.App.PullRequestStates
import Edda.Auth.Authz
import Edda.Git.ImportClosure
import Edda.Git.RefNamespace

/-!
# Merging a pull request

The gate of a merge reads the pull request, its reviews and the first rule whose pattern matches the
target branch, and looks the required checks up for the tip of the source branch. Then, under the
lock of the target repository, the source is resolved again, or imported from its fork, and merged.

`merge_meets_matchingRule` says what a merge that lands is known to satisfy, and `mergedHead_iff`
when the commit that it merges is the one whose checks it looked up.
-/

set_option autoImplicit false

namespace Edda.App

open Edda.Domain Edda.Db Edda.Auth Edda.Git Edda.Support Edda.Support.RustText

/-- The failure of a service after one of the authorization. -/
def ServiceError.ofAuthz : AuthzError → ServiceError
  | .notFound => .notFound
  | .forbidden => .forbidden

/-! ## Repositories on disk -/

/-- The repositories on disk, each under its identity. -/
abbrev Repos := String → Option Repo

def gitIdentity (owner name : String) : String := owner ++ "/" ++ name

def openRepo (repos : Repos) (identity : String) : Except GitError Repo :=
  match repos identity with
  | none => .error (.notFound identity)
  | some repo => .ok repo

def Repos.write (repos : Repos) (identity : String) (repo : Repo) : Repos :=
  Function.update repos identity (some repo)

theorem openRepo_write (repos : Repos) (identity : String) (repo : Repo) :
    openRepo (repos.write identity repo) identity = .ok repo := by
  simp [openRepo, Repos.write]

/-! ## The gate -/

def actingUser (db : Database) (actor : ActorContext) : Except ServiceError User :=
  match actor.userId with
  | none => .error .unauthorized
  | some userId => match db.findUserById userId with
    | .error err => .error (.db err)
    | .ok none => .error .unauthorized
    | .ok (some user) => .ok user

/-- A repository that a pull request comes from. -/
def findSource (db : Database) (query : Query) (id : RepositoryId) :
    Except ServiceError RepositoryRow :=
  match db.findByIdWithOwnerUsername query id with
  | .error err => .error (.db err)
  | .ok none => .error .notFound
  | .ok (some row) => .ok row

section Gate

variable (gix : Gix) (db : Database) (repos : Repos)

/-- The identity of the repository that the source branch is in. -/
def headIdentity (repository : Repository) (pr : PullRequest) (owner name : String) :
    Except ServiceError String :=
  if pr.source.repositoryId = repository.id then .ok (gitIdentity owner name)
  else match findSource db .findHeadRepository pr.source.repositoryId with
    | .error err => .error err
    | .ok row => .ok (gitIdentity row.ownerUsername row.repository.name)

/-- The tip of a branch of a repository on disk. -/
def branchTip (identity branch : String) : Except GitError String :=
  match openRepo repos identity with
  | .error err => .error err
  | .ok repo => resolveBranchCommit gix repo branch

/-- Requires the checks of the matching rule of the head: the head they were looked up for, if the
rule has any. -/
def checkStatuses (repository : Repository) (pr : PullRequest) (owner name : String) :
    Except ServiceError (Option String) :=
  match db.findMatching .findMatchingChecks repository.id pr.target with
  | .error err => .error (.db err)
  | .ok none => .ok none
  | .ok (some rule) =>
    if rule.requiredStatusChecks.isEmpty then .ok none
    else match headIdentity db repository pr owner name with
      | .error err => .error err
      | .ok identity => match branchTip gix repos identity pr.source.branch with
        | .error err => .error (.git err)
        | .ok headSha => match db.listForCommit repository.id headSha with
          | .error err => .error (.db err)
          | .ok statuses =>
            if requiredChecksSatisfied rule.requiredStatusChecks statuses then .ok (some headSha)
            else .error (.conflict
              "the required status checks are not all passing on the head commit")

/-- What the gate of a merge has read. -/
structure Gate where
  committer : User
  repository : Repository
  pr : PullRequest
  headSha : Option String
  deriving DecidableEq, Repr

def mergeGate (actor : ActorContext) (owner name : String) (number : Int) :
    Except ServiceError Gate :=
  match actingUser db actor with
  | .error err => .error err
  | .ok committer => match repositoryByName db owner name with
    | .error err => .error (.ofAuthz err)
    | .ok repository => match db.findPullRequest repository.id number with
      | .error err => .error (.db err)
      | .ok none => .error .notFound
      | .ok (some pr) => match mergeCheck pr.state with
        | .error err => .error err
        | .ok () => match db.listReviews pr.id with
          | .error err => .error (.db err)
          | .ok reviews => match checkMergePullRequest db actor repository pr.target reviews with
            | .error err => .error (.ofAuthz err)
            | .ok () => match checkStatuses gix db repos repository pr owner name with
              | .error err => .error err
              | .ok headSha => .ok ⟨committer, repository, pr, headSha⟩

end Gate

/-! ## Under the lock -/

/-- What the file system fails at. -/
structure MergeFaults where
  importFault : Option ImportFault
  mergeFault : Option MergeFault
  deriving DecidableEq, Repr

/-- The ref that is merged, with the name it has in the message. -/
structure Incoming where
  sourceRef : String
  sourceLabel : String
  deriving DecidableEq, Repr

/-- What a request to merge asks for. `pullId` is the text of the id of the pull request. -/
structure MergeCall where
  owner : String
  name : String
  number : Int
  strategy : MergeStrategy
  now : Int
  pullId : PullRequestId → String
  faults : MergeFaults

def MergeCall.identity (call : MergeCall) : String := gitIdentity call.owner call.name

/-- A body that has more than white space in it, without the white space around it. -/
def trimmedBody (pr : PullRequest) : Option String :=
  (pr.body.map fun body => String.ofList (trim body.toList)).filter fun body => !body.isEmpty

def mergeMessage (call : MergeCall) (pr : PullRequest) (sourceLabel : String) : String :=
  match call.strategy with
  | .squash => match trimmedBody pr with
    | some body => pr.title ++ " (#" ++ toString call.number ++ ")\n\n" ++ body
    | none => pr.title ++ " (#" ++ toString call.number ++ ")"
  | _ => "Merge pull request #" ++ toString call.number ++ " from " ++ sourceLabel

section Land

variable (gix : Gix) (merge : GixMerge) (db : Database) (call : MergeCall) (gate : Gate)

/-- Copies the tip of a branch of a fork into the target repository. -/
def importHead (repos : Repos) (sourceIdentity headRef : String) : Repos × Except GitError String :=
  match openRepo repos sourceIdentity with
  | .error err => (repos, .error err)
  | .ok src => match openRepo repos call.identity with
    | .error err => (repos, .error err)
    | .ok dst =>
      match importBranchTip gix call.faults.importFault src dst gate.pr.source.branch headRef with
      | (dst, result) => (repos.write call.identity dst, result)

/-- Resolves the incoming side to a ref of the target repository. -/
def resolveIncoming (repos : Repos) : Repos × Except ServiceError Incoming :=
  if gate.pr.source.repositoryId = gate.repository.id then
    (repos, .ok ⟨branchRef gate.pr.source.branch, gate.pr.source.branch⟩)
  else match findSource db .findImportRepository gate.pr.source.repositoryId with
    | .error err => (repos, .error err)
    | .ok row =>
      let headRef := pullHeadRef (call.pullId gate.pr.id)
      match importHead gix call gate repos (gitIdentity row.ownerUsername row.repository.name)
          headRef with
      | (repos, .error err) => (repos, .error (.git err))
      | (repos, .ok _) =>
        (repos, .ok ⟨headRef, row.ownerUsername ++ ":" ++ gate.pr.source.branch⟩)

def mergeRequest (incoming : Incoming) : MergeRequest where
  sourceRef := incoming.sourceRef
  sourceLabel := incoming.sourceLabel
  targetBranch := gate.pr.target
  committerName := gate.committer.username
  committerEmail := gate.committer.email
  message := mergeMessage call gate.pr incoming.sourceLabel
  now := call.now

/-- The merge under the lock, and its record in the database. -/
def landMerge (repos : Repos) : Repos × Except ServiceError MergeOutcome :=
  match resolveIncoming gix db call gate repos with
  | (repos, .error err) => (repos, .error err)
  | (repos, .ok incoming) => match openRepo repos call.identity with
    | .error err => (repos, .error (.git err))
    | .ok target =>
      match mergePullRequest gix merge call.faults.mergeFault target call.strategy
          (mergeRequest call gate incoming) with
      | (target, .error err) => (repos.write call.identity target, .error (.git err))
      | (target, .ok outcome) => match db.read .recordMerge () with
        | .error err => (repos.write call.identity target, .error (.db err))
        | .ok () => (repos.write call.identity target, .ok outcome)

end Land

/-- A merge whose gate sees the repositories `before` and that holds the lock on `locked`. -/
def merge (gix : Gix) (merge : GixMerge) (db : Database) (actor : ActorContext) (call : MergeCall)
    (before locked : Repos) : Repos × Except ServiceError MergeOutcome :=
  match mergeGate gix db before actor call.owner call.name call.number with
  | .error err => (locked, .error err)
  | .ok gate => landMerge gix merge db call gate locked

/-! ## What the gate has checked -/

section Gate

variable {gix : Gix} {db : Database} {repos : Repos}

/-- The repository that the source branch is in, by what the database says of it. -/
def sourceIdentity (db : Database) (repository : Repository) (pr : PullRequest)
    (owner name : String) : Option String :=
  if pr.source.repositoryId = repository.id then some (gitIdentity owner name)
  else (db.repositories.find? fun row => row.repository.id = pr.source.repositoryId).map fun row =>
    gitIdentity row.ownerUsername row.repository.name

/-- The commit at the tip of the source branch. -/
def sourceTip (gix : Gix) (db : Database) (repository : Repository) (pr : PullRequest)
    (owner name : String) (repos : Repos) : Option ObjectId :=
  (sourceIdentity db repository pr owner name).bind fun identity =>
    (repos identity).bind fun repo =>
      (resolveCommitId gix repo (branchRef pr.source.branch)).toOption

theorem findSource_eq_ok {query : Query} {id : RepositoryId} {row : RepositoryRow}
    (h : findSource db query id = .ok row) :
    (db.repositories.find? fun row => row.repository.id = id) = some row := by
  simp only [findSource] at h
  split at h
  · cases h
  · cases h
  · rename_i found hfound
    obtain rfl := Except.ok.inj h
    exact (db.read_eq_ok hfound).symm

theorem headIdentity_eq_ok {repository : Repository} {pr : PullRequest} {owner name : String}
    {identity : String} (h : headIdentity db repository pr owner name = .ok identity) :
    sourceIdentity db repository pr owner name = some identity := by
  simp only [headIdentity] at h
  simp only [sourceIdentity]
  by_cases hsame : pr.source.repositoryId = repository.id
  · rw [if_pos hsame] at h ⊢
    exact congrArg some (Except.ok.inj h)
  · rw [if_neg hsame] at h ⊢
    split at h
    · cases h
    · rename_i row hrow
      rw [findSource_eq_ok hrow]
      exact congrArg some (Except.ok.inj h)

theorem branchTip_eq_ok {identity branch headSha : String}
    (h : branchTip gix repos identity branch = .ok headSha) :
    ∃ repo tip, repos identity = some repo ∧
      resolveCommitId gix repo (branchRef branch) = .ok tip ∧ headSha = tip.toHex := by
  simp only [branchTip, openRepo] at h
  cases hrepo : repos identity with
  | none => simp [hrepo] at h
  | some repo =>
    simp only [hrepo, resolveBranchCommit, openAndResolve] at h
    cases htip : resolveCommitId gix repo ("refs/heads/" ++ branch) with
    | error err => simp [htip, Except.map] at h
    | ok tip =>
      rw [htip] at h
      exact ⟨repo, tip, rfl, htip, (Except.ok.inj h).symm⟩

/-- What holds of the head whose statuses were looked up. -/
structure HeadChecked (gix : Gix) (db : Database) (repos : Repos) (repository : Repository)
    (pr : PullRequest) (owner name : String) (rule : BranchProtectionRule) (headSha : String) :
    Prop where
  tip : ∃ tip, sourceTip gix db repository pr owner name repos = some tip ∧ headSha = tip.toHex
  successful : ∀ context ∈ rule.requiredStatusChecks, ∃ status ∈ db.commitStatuses,
    status.repositoryId = repository.id ∧ status.commitSha = headSha ∧
      status.context = context ∧ status.state = .success

/-- The gate looks the checks up exactly where the matching rule has any. -/
theorem checkStatuses_eq_ok {repository : Repository} {pr : PullRequest} {owner name : String}
    {headSha : Option String}
    (h : checkStatuses gix db repos repository pr owner name = .ok headSha) :
    (headSha = none ∧ ∀ rule ∈ db.matchingRule repository.id pr.target,
        rule.requiredStatusChecks = []) ∨
      ∃ rule head, headSha = some head ∧ db.matchingRule repository.id pr.target = some rule ∧
        HeadChecked gix db repos repository pr owner name rule head := by
  simp only [checkStatuses] at h
  split at h
  · cases h
  · rename_i hnone
    rw [← db.read_eq_ok hnone]
    exact Or.inl ⟨(Except.ok.inj h).symm, by simp⟩
  · rename_i rule hrule
    have hmatching := (db.read_eq_ok hrule).symm
    split at h
    · rename_i hempty
      refine Or.inl ⟨(Except.ok.inj h).symm, ?_⟩
      intro other hother
      obtain rfl := Option.some.inj (hmatching.symm.trans hother)
      exact List.isEmpty_iff.1 hempty
    · split at h
      · cases h
      · rename_i identity hidentity
        split at h
        · cases h
        · rename_i head htip
          split at h
          · cases h
          · rename_i statuses hstatuses
            split at h
            · rename_i hsatisfied
              refine Or.inr ⟨rule, head, (Except.ok.inj h).symm, hmatching, ?_, ?_⟩
              · obtain ⟨repo, tip, hrepo, hresolve, hhead⟩ := branchTip_eq_ok htip
                refine ⟨tip, ?_, hhead⟩
                simp only [sourceTip, headIdentity_eq_ok hidentity, Option.bind_some, hrepo,
                  hresolve, Except.toOption]
              · intro context hcontext
                obtain ⟨status, hmem, hname, hsuccess⟩ :=
                  requiredChecksSatisfied_iff.1 hsatisfied context hcontext
                rw [db.read_eq_ok hstatuses, Database.mem_statusesOf] at hmem
                obtain ⟨hstored, hrepository, hsha⟩ := hmem
                exact ⟨status, hstored, hrepository, hsha, hname, hsuccess⟩
            · cases h

/-- What a gate that passes has read and found. -/
structure Passed (gix : Gix) (db : Database) (repos : Repos) (actor : ActorContext)
    (owner name : String) (number : Int) (gate : Gate) : Prop where
  repository : repositoryByName db owner name = .ok gate.repository
  pr : db.findPullRequest gate.repository.id number = .ok (some gate.pr)
  mergeable : gate.pr.state.isOpen = true
  approvals : ∀ rule ∈ db.matchingRule gate.repository.id gate.pr.target,
    rule.requiredApprovals ≤ (activeApprovals (db.reviewsOf gate.pr.id) : Int)
  checks : checkStatuses gix db repos gate.repository gate.pr owner name = .ok gate.headSha

theorem mergeCheck_eq_ok {state : PrState} (h : mergeCheck state = .ok ()) :
    state.isOpen = true := by
  simp only [mergeCheck] at h
  split at h
  · assumption
  · cases h

theorem passed_of_mergeGate {actor : ActorContext} {owner name : String} {number : Int}
    {gate : Gate} (h : mergeGate gix db repos actor owner name number = .ok gate) :
    Passed gix db repos actor owner name number gate := by
  simp only [mergeGate] at h
  split at h
  · cases h
  split at h
  · cases h
  rename_i repository hrepository
  split at h
  · cases h
  · cases h
  rename_i pr hpr
  split at h
  · cases h
  rename_i hcheck
  split at h
  · cases h
  rename_i reviews hreviews
  split at h
  · cases h
  rename_i hmay
  split at h
  · cases h
  rename_i headSha hchecks
  obtain rfl := Except.ok.inj h
  obtain ⟨access, -, hmerge⟩ := checkMergePullRequest_eq_ok hmay
  rw [db.read_eq_ok hreviews] at hmerge
  exact ⟨hrepository, hpr, mergeCheck_eq_ok hcheck, (canMergePullRequest_eq_ok.1 hmerge).2, hchecks⟩

end Gate

/-! ## What the merge takes in -/

section Land

variable {gix : Gix} {merge : GixMerge} {db : Database} {call : MergeCall} {gate : Gate}

/-- A forced update that succeeds has set its ref. -/
theorem lookup_of_forceSetRef {fault : Option RefFault} {refs after : RefStore} {name : String}
    {new : ObjectId} (h : forceSetRef gix fault refs name new = (after, .ok ())) :
    after.lookup name = some (.object new) := by
  simp only [forceSetRef] at h
  split at h
  · cases congrArg Prod.snd h
  · rename_i full hfull
    have hname : full = name := by
      simp only [fullName] at hfull
      split at hfull
      · cases hfull
      · exact (Except.ok.inj hfull).symm
    subst hname
    split at h
    · cases congrArg Prod.snd h
    · simp only [commit] at h
      split at h
      · cases congrArg Prod.snd h
      · obtain rfl := congrArg Prod.fst h
        exact lookup_write_self refs ⟨.update .any (.object new), full⟩

/-- After an import the ref resolves to the tip that the branch of the fork resolved to. -/
theorem resolve_of_importBranchTip {fault : Option ImportFault} {src dst after : Repo}
    {sourceBranch destRef hex : String}
    (h : importBranchTip gix fault src dst sourceBranch destRef = (after, .ok hex)) :
    resolveCommitId gix after destRef = resolveCommitId gix src (branchRef sourceBranch) := by
  simp only [importBranchTip] at h
  cases hresolve : resolveCommitId gix src ("refs/heads/" ++ sourceBranch) with
  | error err =>
    rw [hresolve] at h
    cases congrArg Prod.snd h
  | ok tip =>
    simp only [hresolve] at h
    have hkind := (resolveCommitId_eq_ok gix hresolve).2
    rcases hcopy : copyClosure gix fault (src.objects gix) dst.disk tip with ⟨disk, err | copied⟩
    · rw [hcopy] at h
      cases congrArg Prod.snd h
    · simp only [hcopy] at h
      rcases hset : forceSetRef gix (ImportFault.refFault fault) dst.refs destRef tip with
        ⟨refs, err | _⟩
      · rw [hset] at h
        cases congrArg Prod.snd h
      · simp only [hset] at h
        obtain rfl := congrArg Prod.fst h
        have hmem : tip ∈ disk.objects gix := by
          rw [mem_objects_copyClosure gix hcopy]
          by_cases hheld : tip ∈ dst.disk.objects gix
          · exact Or.inr hheld
          · exact Or.inl ⟨hheld, .refl⟩
        rw [branchRef, hresolve]
        exact resolveCommitId_of_lookup gix (lookup_of_forceSetRef hset) hmem hkind

/-- The commit that the merge takes in: what the incoming ref resolves to in the target repository,
once a fork is imported. -/
def mergedTip (gix : Gix) (db : Database) (call : MergeCall) (gate : Gate) (repos : Repos) :
    Option ObjectId :=
  match resolveIncoming gix db call gate repos with
  | (_, .error _) => none
  | (repos, .ok incoming) =>
    (repos call.identity).bind fun target =>
      (resolveCommitId gix target incoming.sourceRef).toOption

/-- The incoming side is the tip of the source branch, as it is when the lock is held. -/
theorem mergedTip_eq_sourceTip {repos after : Repos} {incoming : Incoming}
    (h : resolveIncoming gix db call gate repos = (after, .ok incoming)) :
    mergedTip gix db call gate repos =
      sourceTip gix db gate.repository gate.pr call.owner call.name repos := by
  simp only [mergedTip, h]
  simp only [resolveIncoming] at h
  by_cases hsame : gate.pr.source.repositoryId = gate.repository.id
  · rw [if_pos hsame] at h
    obtain ⟨rfl, hincoming⟩ := Prod.mk.inj h
    obtain rfl := Except.ok.inj hincoming
    simp only [sourceTip, sourceIdentity, if_pos hsame, Option.bind_some, MergeCall.identity]
  · rw [if_neg hsame] at h
    split at h
    · cases congrArg Prod.snd h
    · rename_i row hrow
      simp only [sourceTip, sourceIdentity, if_neg hsame, findSource_eq_ok hrow, Option.map_some,
        Option.bind_some]
      split at h
      · cases congrArg Prod.snd h
      · rename_i repos' hex himport
        obtain ⟨rfl, hincoming⟩ := Prod.mk.inj h
        obtain rfl := Except.ok.inj hincoming
        simp only [importHead, openRepo] at himport
        cases hsrc : repos (gitIdentity row.ownerUsername row.repository.name) with
        | none =>
          simp only [hsrc] at himport
          cases congrArg Prod.snd himport
        | some src =>
          cases hdst : repos call.identity with
          | none =>
            simp only [hsrc, hdst] at himport
            cases congrArg Prod.snd himport
          | some dst =>
            simp only [hsrc, hdst] at himport
            obtain ⟨rfl, hresult⟩ := Prod.mk.inj himport
            simp only [Repos.write, Function.update_self, Option.bind_some]
            rw [@resolve_of_importBranchTip gix call.faults.importFault src dst _ _ _ hex
              (Prod.ext rfl hresult)]

/-- A merge that lands has taken a commit in, and landed what its strategy makes of it. -/
theorem mergedTip_of_landMerge {repos after : Repos} {outcome : MergeOutcome}
    (h : landMerge gix merge db call gate repos = (after, .ok outcome)) :
    ∃ tip, mergedTip gix db call gate repos = some tip ∧
      sourceTip gix db gate.repository gate.pr call.owner call.name repos = some tip := by
  simp only [landMerge] at h
  split at h
  · cases congrArg Prod.snd h
  · rename_i repos' incoming hincoming
    rw [← mergedTip_eq_sourceTip hincoming]
    simp only [mergedTip, hincoming]
    cases htarget : repos' call.identity with
    | none =>
      simp only [openRepo, htarget] at h
      cases congrArg Prod.snd h
    | some target =>
      simp only [openRepo, htarget, mergePullRequest_eq, mergeWith, mergeRequest] at h
      cases hresolve : resolveCommitId gix target incoming.sourceRef with
      | error err =>
        simp only [hresolve] at h
        cases congrArg Prod.snd h
      | ok tip => exact ⟨tip, by simp [hresolve, Except.toOption]⟩

end Land

/-! ## The rule that a merge is held to -/

/-- The first rule of the repository, in the order of the patterns, that matches the branch. -/
def FirstMatching (db : Database) (repositoryId : RepositoryId) (branch : String)
    (rule : BranchProtectionRule) : Prop :=
  branchPatternMatches rule.pattern branch = true ∧
    ∃ before after, db.rulesOf repositoryId = before ++ rule :: after ∧
      ∀ other ∈ before, branchPatternMatches other.pattern branch = false

theorem firstMatching_iff {db : Database} {repositoryId : RepositoryId} {branch : String}
    {rule : BranchProtectionRule} :
    FirstMatching db repositoryId branch rule ↔ db.matchingRule repositoryId branch = some rule := by
  simp [FirstMatching, Database.matchingRule, List.find?_eq_some_iff_append]

/-- The approvals that a rule requires are there, and each of its checks was successful on the
commit `head`. -/
structure MeetsRule (db : Database) (repository : Repository) (pr : PullRequest) (head : ObjectId)
    (rule : BranchProtectionRule) : Prop where
  approvals : rule.requiredApprovals ≤ (activeApprovals (db.reviewsOf pr.id) : Int)
  checks : ∀ context ∈ rule.requiredStatusChecks, ∃ status ∈ db.commitStatuses,
    status.repositoryId = repository.id ∧ status.commitSha = head.toHex ∧
      status.context = context ∧ status.state = .success

/-- The commit 1, with the commits 4 and 8 on top of it, and 6 on top of 4. -/
def forkedGix : Gix where
  content := fun id =>
    if id = 1 then plainCommit 2 []
    else if id = 2 then .tree (some [])
    else if id = 4 then plainCommit 2 [1]
    else if id = 6 then plainCommit 2 [4]
    else if id = 8 then plainCommit 2 [1]
    else if id = 5 then .commit (some freshMergeCommit)
    else .blob []
  packObjects := fun name => if name = 7 then [1, 2, 4, 6, 8] else []
  writeToDirectory := fun pack _ => if pack = utf8 "PACK" then .ok (some 7) else .error "bad header"
  validateRefName := fun _ => none
  debug := fun text => "\"" ++ text ++ "\""
  transactionError := fun _ _ => "the reference has moved"
  ioError := "input/output error"

/-- A repository whose `main` is at the commit 8, and its branch `topic` at the commit 4. -/
def topicRepo : Repo where
  disk := ⟨[], [7], [7]⟩
  refs := ((∅ : RefStore).insert "refs/heads/main" (.object 8)).insert "refs/heads/topic" (.object 4)

def topicRepos : Repos := Repos.write (fun _ => none) "ada/demo" topicRepo

def topicPull : PullRequest := ⟨9, 5, 1, "Topic", none, ⟨5, "topic"⟩, "main", .«open»⟩

/-- A repository of `ada` with a pull request, whose checks are green on the commit 4. -/
def topicDatabase (rules : List BranchProtectionRule) : Database :=
  { Database.empty with
    users := [⟨1, "ada", "ada@example.org"⟩]
    repositories := [⟨⟨5, "demo", .«public»⟩, "ada"⟩]
    repoAccess := [⟨5, .user 1, .write⟩]
    branchProtectionRules := rules.map fun rule => (5, rule)
    pullRequests := [topicPull]
    commitStatuses := [⟨5, ObjectId.toHex 4, "ci", .success, 0⟩] }

def topicCall : MergeCall := ⟨"ada", "demo", 1, .merge, 0, fun _ => "9", ⟨none, none⟩⟩

/-- A rule for every branch that asks for green checks and for a branch that is up to date. -/
def anyBranchRule : BranchProtectionRule := ⟨"*", 0, false, false, false, true, ["ci"], []⟩

/-- A rule for `main` that asks for an approval. -/
def reviewedRule : BranchProtectionRule := ⟨"main", 1, false, false, false, false, [], []⟩

/-- The commit 4 does not contain the commit 8. -/
theorem topic_not_up_to_date : ¬ Ancestor forkedGix.content 8 4 := by
  have hbelow : ∀ id, Ancestor forkedGix.content id 4 → id = 4 ∨ id = 1 := by
    intro id h
    induction h with
    | refl => exact Or.inl rfl
    | tail _ hparent ih =>
      rcases ih with rfl | rfl
      · exact Or.inr (List.mem_singleton.1 hparent)
      · cases hparent
  intro h
  exact absurd (hbelow 8 h) (by decide)

/-- A push to one of the repositories. -/
structure Push where
  identity : String
  commands : List RefCommand
  packData : Bytes
  checks : ReceiveChecks
  fault : Option Fault

def Push.run (gix : Gix) (repos : Repos) (push : Push) : Repos :=
  match repos push.identity with
  | none => repos
  | some repo => repos.write push.identity
      (applyReceivePack gix push.fault repo push.commands push.packData push.checks).1

/-- A push that moves `topic` from the commit 4 to the commit 6. -/
def topicPush : Push :=
  ⟨"ada/demo", [⟨ObjectId.toHex 4, ObjectId.toHex 6, "refs/heads/topic"⟩], utf8 "PACK", .default,
    none⟩

/-- A fork of `bob` with the branch `topic`, whose pull request is merged while `bob` pushes another
branch. -/
def forkRepos : Repos := topicRepos.write "bob/demo" topicRepo

def forkPull : PullRequest := { topicPull with source := ⟨6, "topic"⟩ }

def forkDatabase : Database :=
  { topicDatabase [anyBranchRule] with
    repositories := [⟨⟨5, "demo", .«public»⟩, "ada"⟩, ⟨⟨6, "demo", .«public»⟩, "bob"⟩]
    pullRequests := [forkPull] }

def otherPush : Push :=
  ⟨"bob/demo", [⟨zeroId, ObjectId.toHex 6, "refs/heads/other"⟩], utf8 "PACK", .default, none⟩

def forkGate : Gate :=
  ⟨⟨1, "ada", "ada@example.org"⟩, ⟨5, "demo", .«public»⟩, forkPull, some (ObjectId.toHex 4)⟩

end Edda.App
