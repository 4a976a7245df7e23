import Edda.Domain.PullRequest
import Edda.Git.Diff
import Edda.Git.Transfer

/-!
# Merging pull requests

The four strategies: a merge commit, a squash, a rebase and a fast-forward. Each resolves the
incoming ref and the target branch, works out what to write and where the branch goes (a
`Landing`), and moves the branch with a compare-and-swap against the tip it resolved. The tree
merges are parameters.

`mergePullRequest_cases` says once what a merge can do to the refs, and `Lands` what a strategy
lands.
-/

set_option autoImplicit false

namespace Edda.Git

open Edda.Domain

/-- The result of a three-way merge of trees, and the objects that are written with its tree. -/
structure TreeMerge where
  conflicts : Nat
  hasUnresolvedConflicts : Bool
  tree : ObjectId
  objects : List ObjectId
  deriving DecidableEq, Repr

/-- The parameters of the merges: the recursive merge of two commits (of the target and the
source, with their conflict labels), the merge of two trees over an ancestor, the id that a commit
is hashed to, and the empty tree. -/
structure GixMerge extends GixDiff where
  mergeCommits : Store → ObjectId → ObjectId → String → String → Except String TreeMerge
  mergeTrees : Store → ObjectId → ObjectId → ObjectId → String → Except String TreeMerge
  commitId : Commit → ObjectId
  emptyTree : ObjectId
  mergeBaseError : String

/-- The steps of a merge that the file system can fail. -/
inductive MergeFault where
  | writeObject (id : ObjectId)
  | moveBranch (fault : RefFault)
  deriving DecidableEq, Repr

/-- The fault that reaches the ref transaction of a merge. -/
def MergeFault.refFault : Option MergeFault → Option RefFault
  | some (.moveBranch fault) => some fault
  | _ => none

structure MergeOutcome where
  mergeCommit : String
  deriving DecidableEq, Repr

/-- The arguments of a merge. -/
structure MergeRequest where
  sourceRef : String
  sourceLabel : String
  targetBranch : String
  committerName : String
  committerEmail : String
  message : String
  now : Int
  deriving DecidableEq, Repr

/-- The commits that a merge writes, and the one it moves the branch to. -/
structure Landing where
  commits : List Commit
  tip : ObjectId
  deriving DecidableEq, Repr

/-- The objects that a step wrote, and its result. Nothing takes the objects back when the step
fails. -/
abbrev Written (α : Type) := List ObjectId × Except GitError α

def maxRebaseCommits : Nat := 256

def signatureNow (request : MergeRequest) : Signature :=
  ⟨request.committerName, request.committerEmail, some request.now⟩

/-- `refs/heads/` and the name of the branch. -/
def branchRef (branch : String) : String := "refs/heads/" ++ branch

section Merge

variable (gix : Gix) (merge : GixMerge) (fault : Option MergeFault)

/-- The tree of a merge that left no conflict unresolved, once it is written. -/
def mergedTree : Except String TreeMerge → Except GitError TreeMerge
  | .error err => .error (.git err)
  | .ok merged =>
    if merged.hasUnresolvedConflicts then .error (.conflict merged.conflicts)
    else if fault = some (.writeObject merged.tree) then .error (.git gix.ioError)
    else .ok merged

def threeWayMergedTree (request : MergeRequest) (store : Store) (target source : ObjectId) :
    Except GitError TreeMerge :=
  mergedTree gix fault
    (merge.mergeCommits store target source request.targetBranch request.sourceLabel)

def writeCommit (commit : Commit) : Except GitError ObjectId :=
  if fault = some (.writeObject (merge.commitId commit)) then .error (.git gix.ioError)
  else .ok (merge.commitId commit)

def treeIdOf (store : Store) (id : ObjectId) : Except GitError ObjectId :=
  (findCommit gix store id).map Commit.tree

def moveBranch (refs : RefStore) (refName : String) (expectedOld new : ObjectId) :
    RefStore × Except GitError Unit :=
  updateRefs gix (MergeFault.refFault fault) refs [⟨refName, expectedOld.toHex, new.toHex⟩]

/-! ## What each strategy lands -/

/-- One commit with the merged tree. A merge commit and a squash differ in their parents. -/
def mergedCommitLanding (parents : ObjectId → ObjectId → List ObjectId) (request : MergeRequest)
    (store : Store) (target source : ObjectId) : Written (Option Landing) :=
  match threeWayMergedTree gix merge fault request store target source with
  | .error err => ([], .error err)
  | .ok merged =>
    let signature := signatureNow request
    let commit : Commit := ⟨merged.tree, parents target source, some signature, some signature,
      none, request.message, []⟩
    match writeCommit gix merge fault commit with
    | .error err => (merged.objects, .error err)
    | .ok id => (id :: merged.objects, .ok (some ⟨[commit], id⟩))

/-- The source itself, if the target is the merge base. -/
def fastForwardLanding (store : Store) (target source : ObjectId) : Written (Option Landing) :=
  if source = target then ([], .ok none)
  else match merge.mergeBase store target source with
    | none => ([], .error (.git merge.mergeBaseError))
    | some base => if base = target then ([], .ok (some ⟨[], source⟩)) else ([], .error .notFastForward)

/-- The error of a rebase that is too long. -/
def tooManyCommits : GitError :=
  .git ("refusing to rebase more than " ++ toString maxRebaseCommits ++ " commits")

/-- The first-parent chain from a commit back to the merge base, newest first. A chain that meets a
root ends there. `room` more commits may be collected. -/
def firstParentChain (store : Store) (base : ObjectId) :
    Nat → ObjectId → Except GitError (List ObjectId)
  | room, cursor =>
    if cursor = base then .ok []
    else match findCommit gix store cursor, room with
      | .error err, _ => .error err
      | .ok _, 0 => .error tooManyCommits
      | .ok commit, room + 1 => match commit.parents with
        | [] => .ok [cursor]
        | parent :: _ => match firstParentChain store base room parent with
          | .error err => .error err
          | .ok chain => .ok (cursor :: chain)

/-- The tree a commit is replayed against. -/
def parentTreeOf (store : Store) (commit : Commit) : Except GitError ObjectId :=
  match commit.parents with
  | [] => .ok merge.emptyTree
  | parent :: _ => treeIdOf gix store parent

/-- The tree of a commit replayed onto `tip`. -/
def replayedTree (request : MergeRequest) (store : Store) (tip original : ObjectId)
    (commit : Commit) : Except GitError TreeMerge :=
  match parentTreeOf gix merge store commit with
  | .error err => .error err
  | .ok parentTree => match treeIdOf gix store tip with
    | .error err => .error err
    | .ok ourTree => match treeIdOf gix store original with
      | .error err => .error err
      | .ok theirTree => mergedTree gix fault
          (merge.mergeTrees store parentTree ourTree theirTree request.targetBranch)

/-- One commit replayed onto `tip`. Its author, encoding and message are kept, its other headers
are not. -/
def replayCommit (request : MergeRequest) (store : Store) (tip original : ObjectId) :
    Written Commit :=
  match findCommit gix store original with
  | .error err => ([], .error err)
  | .ok commit => match replayedTree gix merge fault request store tip original commit with
    | .error err => ([], .error err)
    | .ok merged => match commit.author with
      | none => (merged.objects, .error decodeError)
      | some author => (merged.objects, .ok ⟨merged.tree, [tip], some author,
          some (signatureNow request), commit.encoding, commit.message, []⟩)

/-- Commits replayed onto `tip` one after the other. -/
def replayCommits (request : MergeRequest) :
    Store → ObjectId → List ObjectId → Written Landing
  | _, tip, [] => ([], .ok ⟨[], tip⟩)
  | store, tip, original :: originals =>
    match replayCommit gix merge fault request store tip original with
    | (objects, .error err) => (objects, .error err)
    | (objects, .ok commit) => match writeCommit gix merge fault commit with
      | .error err => (objects, .error err)
      | .ok id => match replayCommits request (id :: objects ++ store) id originals with
        | (later, .error err) => (later ++ id :: objects, .error err)
        | (later, .ok landing) =>
          (later ++ id :: objects, .ok ⟨commit :: landing.commits, landing.tip⟩)

def rebaseLanding (request : MergeRequest) (store : Store) (target source : ObjectId) :
    Written (Option Landing) :=
  match merge.mergeBase store source target with
  | none => ([], .error (.git merge.mergeBaseError))
  | some base => match firstParentChain gix store base maxRebaseCommits source with
    | .error err => ([], .error err)
    | .ok [] => ([], .ok none)
    | .ok (first :: chain) =>
      match replayCommits gix merge fault request store target (first :: chain).reverse with
      | (objects, .error err) => (objects, .error err)
      | (objects, .ok landing) => (objects, .ok (some landing))

/-- What a strategy lands. -/
def landingOf (strategy : MergeStrategy) (request : MergeRequest) (store : Store)
    (target source : ObjectId) : Written (Option Landing) :=
  match strategy with
  | .merge => mergedCommitLanding gix merge fault (fun target source => [target, source]) request
      store target source
  | .squash => mergedCommitLanding gix merge fault (fun target _ => [target]) request store target
      source
  | .rebase => rebaseLanding gix merge fault request store target source
  | .fastForwardOnly => fastForwardLanding merge store target source

/-! ## Merging -/

/-- Adds loose objects to a repository. -/
def Repo.addObjects (state : Repo) (objects : List ObjectId) : Repo :=
  { state with disk := { state.disk with loose := objects ++ state.disk.loose } }

/-- Moves the branch to a landing, if there is one. -/
def landOn (state : Repo) (refName : String) (target : ObjectId) :
    Except GitError (Option Landing) → Repo × Except GitError MergeOutcome
  | .error err => (state, .error err)
  | .ok none => (state, .ok ⟨target.toHex⟩)
  | .ok (some landing) => match moveBranch gix fault state.refs refName target landing.tip with
    | (refs, .error err) => ({ state with refs }, .error err)
    | (refs, .ok ()) => ({ state with refs }, .ok ⟨landing.tip.toHex⟩)

/-- Resolves the incoming ref and the target branch, and lands what `landing` makes of them. -/
def mergeWith (landing : Store → ObjectId → ObjectId → Written (Option Landing)) (state : Repo)
    (sourceRef targetBranch : String) : Repo × Except GitError MergeOutcome :=
  match resolveCommitId gix state sourceRef with
  | .error err => (state, .error err)
  | .ok source => match resolveCommitId gix state (branchRef targetBranch) with
    | .error err => (state, .error err)
    | .ok target => match landing (state.objects gix) target source with
      | (objects, result) =>
        landOn gix fault (state.addObjects objects) (branchRef targetBranch) target result

def mergeRefIntoBranch (state : Repo) (request : MergeRequest) :
    Repo × Except GitError MergeOutcome :=
  mergeWith gix fault (landingOf gix merge fault .merge request) state request.sourceRef
    request.targetBranch

def squashRefIntoBranch (state : Repo) (request : MergeRequest) :
    Repo × Except GitError MergeOutcome :=
  mergeWith gix fault (landingOf gix merge fault .squash request) state request.sourceRef
    request.targetBranch

def rebaseRefOntoBranch (state : Repo) (request : MergeRequest) :
    Repo × Except GitError MergeOutcome :=
  mergeWith gix fault (landingOf gix merge fault .rebase request) state request.sourceRef
    request.targetBranch

def fastForwardBranchToRef (state : Repo) (request : MergeRequest) :
    Repo × Except GitError MergeOutcome :=
  mergeWith gix fault (landingOf gix merge fault .fastForwardOnly request) state request.sourceRef
    request.targetBranch

def mergePullRequest (state : Repo) (strategy : MergeStrategy) (request : MergeRequest) :
    Repo × Except GitError MergeOutcome :=
  match strategy with
  | .merge => mergeRefIntoBranch gix merge fault state request
  | .squash => squashRefIntoBranch gix merge fault state request
  | .rebase => rebaseRefOntoBranch gix merge fault state request
  | .fastForwardOnly => fastForwardBranchToRef gix merge fault state request

/-! ## What the strategies land -/

/-- Commits written one on top of the other, each with one parent and without extra headers. -/
inductive Replayed : ObjectId → List Commit → ObjectId → Prop
  | nil (tip : ObjectId) : Replayed tip [] tip
  | cons (tip last : ObjectId) (commit : Commit) (commits : List Commit) :
      commit.parents = [tip] → commit.extraHeaders = [] →
      Replayed (merge.commitId commit) commits last → Replayed tip (commit :: commits) last

/-- What a strategy lands of a source on a target. -/
inductive Lands (store : Store) (target source : ObjectId) : MergeStrategy → Landing → Prop
  | merge (commit : Commit) : commit.parents = [target, source] → commit.extraHeaders = [] →
      Lands store target source .merge ⟨[commit], merge.commitId commit⟩
  | squash (commit : Commit) : commit.parents = [target] → commit.extraHeaders = [] →
      Lands store target source .squash ⟨[commit], merge.commitId commit⟩
  | rebase (commits : List Commit) (tip : ObjectId) : commits ≠ [] →
      Replayed merge target commits tip → Lands store target source .rebase ⟨commits, tip⟩
  | fastForward : source ≠ target → merge.mergeBase store target source = some target →
      Lands store target source .fastForwardOnly ⟨[], source⟩

theorem writeCommit_eq_ok {commit : Commit} {id : ObjectId}
    (h : writeCommit gix merge fault commit = .ok id) : id = merge.commitId commit := by
  simp only [writeCommit] at h
  split at h
  · exact absurd h (by simp)
  · exact (Except.ok.inj h).symm

theorem replayCommit_eq_ok {request : MergeRequest} {store : Store} {tip original : ObjectId}
    {objects : List ObjectId} {commit : Commit}
    (h : replayCommit gix merge fault request store tip original = (objects, .ok commit)) :
    commit.parents = [tip] ∧ commit.extraHeaders = [] := by
  simp only [replayCommit] at h
  split at h
  · exact absurd (congrArg Prod.snd h) (by simp)
  · split at h
    · exact absurd (congrArg Prod.snd h) (by simp)
    · split at h
      · exact absurd (congrArg Prod.snd h) (by simp)
      · obtain rfl := Except.ok.inj (congrArg Prod.snd h)
        exact ⟨rfl, rfl⟩

theorem replayed_of_replayCommits {request : MergeRequest} {originals : List ObjectId}
    {store : Store} {tip : ObjectId} {objects : List ObjectId} {landing : Landing}
    (h : replayCommits gix merge fault request store tip originals = (objects, .ok landing)) :
    Replayed merge tip landing.commits landing.tip ∧
      landing.commits.length = originals.length := by
  induction originals generalizing store tip objects landing with
  | nil =>
    obtain rfl := Except.ok.inj (congrArg Prod.snd h)
    exact ⟨.nil tip, rfl⟩
  | cons original originals ih =>
    simp only [replayCommits] at h
    split at h
    · exact absurd (congrArg Prod.snd h) (by simp)
    · rename_i written commit hcommit
      obtain ⟨hparents, hheaders⟩ := replayCommit_eq_ok gix merge fault hcommit
      split at h
      · exact absurd (congrArg Prod.snd h) (by simp)
      · rename_i id hwrite
        obtain rfl := writeCommit_eq_ok gix merge fault hwrite
        split at h
        · exact absurd (congrArg Prod.snd h) (by simp)
        · rename_i later rest hrest
          obtain rfl := Except.ok.inj (congrArg Prod.snd h)
          obtain ⟨hchain, hlength⟩ := ih hrest
          exact ⟨.cons tip rest.tip commit rest.commits hparents hheaders hchain,
            by simp only [List.length_cons, hlength]⟩

theorem mergedCommitLanding_eq_ok {parents : ObjectId → ObjectId → List ObjectId}
    {request : MergeRequest} {store : Store} {target source : ObjectId} {objects : List ObjectId}
    {landing : Landing}
    (h : mergedCommitLanding gix merge fault parents request store target source =
      (objects, .ok (some landing))) :
    ∃ commit : Commit, commit.parents = parents target source ∧ commit.extraHeaders = [] ∧
      landing = ⟨[commit], merge.commitId commit⟩ := by
  simp only [mergedCommitLanding] at h
  split at h
  · exact absurd (congrArg Prod.snd h) (by simp)
  · split at h
    · exact absurd (congrArg Prod.snd h) (by simp)
    · rename_i id hwrite
      obtain rfl := writeCommit_eq_ok gix merge fault hwrite
      obtain rfl := Option.some.inj (Except.ok.inj (congrArg Prod.snd h))
      exact ⟨_, rfl, rfl, rfl⟩

theorem lands_of_rebaseLanding {request : MergeRequest} {store : Store} {target source : ObjectId}
    {objects : List ObjectId} {landing : Landing}
    (h : rebaseLanding gix merge fault request store target source =
      (objects, .ok (some landing))) :
    Lands merge store target source .rebase landing := by
  simp only [rebaseLanding] at h
  split at h
  · exact absurd (congrArg Prod.snd h) (by simp)
  · split at h
    · exact absurd (congrArg Prod.snd h) (by simp)
    · exact absurd (congrArg Prod.snd h) (by simp)
    · rename_i first chain _
      split at h
      · exact absurd (congrArg Prod.snd h) (by simp)
      · rename_i written replayed hreplay
        obtain rfl := Option.some.inj (Except.ok.inj (congrArg Prod.snd h))
        obtain ⟨hchain, hlength⟩ := replayed_of_replayCommits gix merge fault hreplay
        refine .rebase replayed.commits replayed.tip ?_ hchain
        intro hnil
        rw [hnil] at hlength
        simp at hlength

theorem lands_of_fastForwardLanding {store : Store} {target source : ObjectId}
    {objects : List ObjectId} {landing : Landing}
    (h : fastForwardLanding merge store target source = (objects, .ok (some landing))) :
    Lands merge store target source .fastForwardOnly landing := by
  simp only [fastForwardLanding] at h
  split at h
  · exact absurd (congrArg Prod.snd h) (by simp)
  · rename_i hne
    split at h
    · exact absurd (congrArg Prod.snd h) (by simp)
    · rename_i base hbase
      split at h
      · rename_i heq
        obtain rfl := Option.some.inj (Except.ok.inj (congrArg Prod.snd h))
        exact .fastForward hne (heq ▸ hbase)
      · exact absurd (congrArg Prod.snd h) (by simp)

/-- Every landing is of the kind of its strategy. -/
theorem lands_of_landingOf {strategy : MergeStrategy} {request : MergeRequest} {store : Store}
    {target source : ObjectId} {objects : List ObjectId} {landing : Landing}
    (h : landingOf gix merge fault strategy request store target source =
      (objects, .ok (some landing))) :
    Lands merge store target source strategy landing := by
  cases strategy with
  | merge =>
    simp only [landingOf] at h
    obtain ⟨commit, hparents, hheaders, rfl⟩ := mergedCommitLanding_eq_ok gix merge fault h
    exact .merge commit hparents hheaders
  | squash =>
    simp only [landingOf] at h
    obtain ⟨commit, hparents, hheaders, rfl⟩ := mergedCommitLanding_eq_ok gix merge fault h
    exact .squash commit hparents hheaders
  | rebase => exact lands_of_rebaseLanding gix merge fault h
  | fastForwardOnly => exact lands_of_fastForwardLanding merge h

/-! ## What a merge can do to the refs -/

/-- The value a branch is moved to; the all-zeros id stands for no value. -/
def movedValue (id : ObjectId) : Option Target := if id = 0 then none else some (.object id)

theorem toHex_zero : ObjectId.toHex 0 = zeroId := rfl

theorem toHex_eq_zeroId_iff {id : ObjectId} : id.toHex = zeroId ↔ id = 0 := by
  rw [← toHex_zero]
  constructor
  · intro h
    have hread := ObjectId.fromHex_toHex id
    rw [h, ObjectId.fromHex_toHex] at hread
    exact (Option.some.inj hread).symm
  · intro h
    rw [h]

/-- The edit of a move. -/
theorem refEdit_move {refName : String} {old new : ObjectId} {edit : RefEdit}
    (h : refEdit gix ⟨refName, old.toHex, new.toHex⟩ = .ok edit) :
    edit.name = refName ∧ edit.result = movedValue new ∧
      edit.expected =
        if old = 0 then (if new = 0 then .any else .mustNotExist)
        else .mustExistAndMatch (.object old) := by
  have hspec := refEdit_eq_ok gix h
  simp only [toHex_eq_zeroId_iff, ObjectId.fromHex_toHex, Option.some.injEq] at hspec
  obtain ⟨hname, -, hresult, hexpected⟩ := hspec
  refine ⟨hname, ?_, ?_⟩
  · simp only [movedValue]
    split at hresult
    · rename_i hnew
      rw [if_pos hnew]
      exact hresult
    · rename_i hnew
      obtain ⟨id, rfl, hobject⟩ := hresult
      rw [if_neg hnew]
      exact hobject
  · split at hexpected
    · rename_i hold
      rw [if_pos hold]
      exact hexpected
    · rename_i hold
      obtain ⟨id, rfl, hmatch⟩ := hexpected
      rw [if_neg hold]
      exact hmatch

/-- What a move can do to the refs: nothing, or write its one edit where the branch holds the
expected tip. The all-zeros id names no object; a branch is deleted by a move to it. -/
inductive Moved (refs : RefStore) (refName : String) (old new : ObjectId) : RefStore → Prop
  | kept (refs' : RefStore) : (∀ name, refs'.lookup name = refs.lookup name) →
      Moved refs refName old new refs'
  | moved (refs' : RefStore) : refs.lookup refName = some (.object old) ∨ new = 0 →
      (∀ name, refs'.lookup name = if name = refName then movedValue new else refs.lookup name) →
      Moved refs refName old new refs'

theorem moved_write {refs : RefStore} {refName : String} {old new : ObjectId} {edit : RefEdit}
    (h : refEdit gix ⟨refName, old.toHex, new.toHex⟩ = .ok edit)
    (hexists : refs.lookup refName ≠ none)
    (haccepts : edit.accepts (refs.lookup edit.name) = true) :
    Moved refs refName old new (refs.write edit) := by
  obtain ⟨hname, hresult, hexpected⟩ := refEdit_move gix h
  have hwrite : ∀ name, (refs.write edit).lookup name =
      if name = refName then movedValue new else refs.lookup name := by
    intro name
    split
    · rename_i heq
      rw [heq, ← hname, lookup_write_self, hresult]
    · rename_i hne
      exact lookup_write_ne (hname ▸ hne)
  rw [hname] at haccepts
  by_cases hnew : new = 0
  · exact .moved _ (Or.inr hnew) hwrite
  · by_cases hold : old = 0
    · -- a ref that must not exist may hold the new value already
      rw [if_pos hold, if_neg hnew] at hexpected
      rw [movedValue, if_neg hnew] at hresult hwrite
      simp only [RefEdit.accepts, hexpected, hresult, Bool.or_eq_true, Option.isNone_iff_eq_none,
        beq_iff_eq] at haccepts
      have hheld := haccepts.resolve_left hexists
      refine .kept _ fun name => ?_
      rw [hwrite name]
      split
      · rename_i heq
        rw [heq, hheld]
      · rfl
    · rw [if_neg hold] at hexpected
      refine .moved _ (Or.inl ?_) hwrite
      simpa [RefEdit.accepts, hexpected] using haccepts

theorem moveBranch_cases {refs : RefStore} {refName : String} (old new : ObjectId)
    (hexists : refs.lookup refName ≠ none) :
    Moved refs refName old new (moveBranch gix fault refs refName old new).1 := by
  have hone : ∀ {edits : List RefEdit},
      refEdits gix [⟨refName, old.toHex, new.toHex⟩] = .ok edits → Prepared refs edits →
      ∃ edit, edits = [edit] ∧ commitOrder edits = [edit] ∧
        Moved refs refName old new (refs.write edit) := by
    intro edits hedits hprep
    obtain ⟨edit, rest, hedit, hrest, rfl⟩ := (refEdits_cons_eq_ok gix).1 hedits
    obtain rfl := Except.ok.inj hrest
    refine ⟨edit, rfl, ?_, moved_write gix hedit hexists (hprep.2 edit (by simp))⟩
    cases hresult : edit.result <;> simp [commitOrder, hresult]
  have hcase := updateRefs_cases gix (MergeFault.refFault fault) refs
    [⟨refName, old.toHex, new.toHex⟩]
  simp only [moveBranch]
  generalize updateRefs gix (MergeFault.refFault fault) refs [⟨refName, old.toHex, new.toHex⟩] = out
    at hcase
  cases hcase with
  | applied edits hedits hprep =>
    obtain ⟨edit, rfl, horder, hmoved⟩ := hone hedits hprep
    rw [horder]
    exact hmoved
  | refused err => exact .kept refs fun _ => rfl
  | interrupted edits written err hfault hedits hprep =>
    obtain ⟨edit, rfl, horder, hmoved⟩ := hone hedits hprep
    rw [horder]
    -- the interrupted commit wrote its only edit, or none
    cases written with
    | zero => exact .kept refs fun _ => rfl
    | succ written => simpa [RefStore.writeAll] using hmoved

/-- What a merge can do: leave every ref alone, or move the target branch to what its strategy
lands. -/
inductive MergeCase (state : Repo) (strategy : MergeStrategy) (request : MergeRequest) :
    Repo → Prop
  | kept (state' : Repo) : (∀ name, state'.refs.lookup name = state.refs.lookup name) →
      MergeCase state strategy request state'
  | landed (state' : Repo) (target source : ObjectId) (objects : List ObjectId)
      (landing : Landing) :
      resolveCommitId gix state request.sourceRef = .ok source →
      resolveCommitId gix state (branchRef request.targetBranch) = .ok target →
      landingOf gix merge fault strategy request (state.objects gix) target source =
        (objects, .ok (some landing)) →
      state.refs.lookup (branchRef request.targetBranch) = some (.object target) ∨
        landing.tip = 0 →
      (∀ name, state'.refs.lookup name =
        if name = branchRef request.targetBranch then movedValue landing.tip
        else state.refs.lookup name) →
      MergeCase state strategy request state'

theorem mergePullRequest_eq (state : Repo) (strategy : MergeStrategy) (request : MergeRequest) :
    mergePullRequest gix merge fault state strategy request =
      mergeWith gix fault (landingOf gix merge fault strategy request) state request.sourceRef
        request.targetBranch := by
  cases strategy <;> rfl

/-- A ref that resolves exists. -/
theorem lookup_ne_none_of_resolveCommitId {state : Repo} {refName : String} {id : ObjectId}
    (h : resolveCommitId gix state refName = .ok id) : state.refs.lookup refName ≠ none := by
  intro hnone
  simp only [resolveCommitId, followRef, maxRefDepth, hnone] at h
  exact absurd h (by simp)

theorem mergePullRequest_cases (state : Repo) (strategy : MergeStrategy) (request : MergeRequest) :
    MergeCase gix merge fault state strategy request
      (mergePullRequest gix merge fault state strategy request).1 := by
  rw [mergePullRequest_eq]
  simp only [mergeWith]
  cases hsource : resolveCommitId gix state request.sourceRef with
  | error err => exact .kept state fun _ => rfl
  | ok source =>
    cases htarget : resolveCommitId gix state (branchRef request.targetBranch) with
    | error err => exact .kept state fun _ => rfl
    | ok target =>
      simp only
      rcases hlanding : landingOf gix merge fault strategy request (state.objects gix) target source
        with ⟨objects, err | _ | landing⟩
      · exact .kept _ fun _ => rfl
      · exact .kept _ fun _ => rfl
      · have hexists := lookup_ne_none_of_resolveCommitId gix htarget
        have hmove := moveBranch_cases gix fault target landing.tip hexists
        have hrefs : (landOn gix fault (state.addObjects objects)
            (branchRef request.targetBranch) target (.ok (some landing))).1.refs =
            (moveBranch gix fault state.refs (branchRef request.targetBranch) target
              landing.tip).1 := by
          simp only [landOn, Repo.addObjects]
          rcases moveBranch gix fault state.refs (branchRef request.targetBranch) target landing.tip
            with ⟨refs, err | _⟩ <;> rfl
        rw [← hrefs] at hmove
        generalize landOn gix fault (state.addObjects objects) (branchRef request.targetBranch)
          target (.ok (some landing)) = out at hmove ⊢
        rcases hmove with hsame | ⟨hheld, hmoved⟩
        · exact .kept out.1 hsame
        · exact .landed out.1 target source objects landing hsource htarget hlanding hheld hmoved

end Merge

end Edda.Git
