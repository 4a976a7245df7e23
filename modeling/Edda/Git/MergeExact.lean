import Edda.Git.Rebase
import Edda.Git.HistoryPolicy

/-!
# What a merge does to its target

A merge resolves the source and the target, works out what to land, and moves the target branch
as its last step, by a compare-and-swap against the tip that it resolved. Other changes may come in
between; `mergePullRequestAmid` is a merge that meets the repository in a later state when it gets
to that step.

`merge_as_documented_iff` says when all of what is documented of the strategies holds. A
fast-forward of a source that has no history in common with the target is refused with the failure
of the merge base search, not with `NotFastForward`; and a merge that has nothing to land
does not look at the branch again.
-/

set_option autoImplicit false

namespace Edda.Git

open Edda.Domain

section MergeExact

variable (gix : Gix) (merge : GixMerge) (fault : Option MergeFault)

/-! ## A merge among other changes -/

/-- A merge that resolves its refs and reads the objects at `state`, and finds the repository at
`later` when it moves the branch. -/
def mergePullRequestAmid (state later : Repo) (strategy : MergeStrategy) (request : MergeRequest) :
    Repo × Except GitError MergeOutcome :=
  match resolveCommitId gix state request.sourceRef with
  | .error err => (later, .error err)
  | .ok source => match resolveCommitId gix state (branchRef request.targetBranch) with
    | .error err => (later, .error err)
    | .ok target =>
      match landingOf gix merge fault strategy request (state.objects gix) target source with
      | (objects, result) =>
        landOn gix fault (later.addObjects objects) (branchRef request.targetBranch) target result

/-- Without other changes it is the merge. -/
theorem mergePullRequestAmid_self (state : Repo) (strategy : MergeStrategy)
    (request : MergeRequest) :
    mergePullRequestAmid gix merge fault state state strategy request =
      mergePullRequest gix merge fault state strategy request := by
  rw [mergePullRequest_eq]
  rfl

theorem mergePullRequestAmid_eq {state : Repo} {strategy : MergeStrategy} {request : MergeRequest}
    {target source : ObjectId} (later : Repo)
    (hsource : resolveCommitId gix state request.sourceRef = .ok source)
    (htarget : resolveCommitId gix state (branchRef request.targetBranch) = .ok target)
    {objects : List ObjectId} {result : Except GitError (Option Landing)}
    (hlanding : landingOf gix merge fault strategy request (state.objects gix) target source =
      (objects, result)) :
    mergePullRequestAmid gix merge fault state later strategy request =
      landOn gix fault (later.addObjects objects) (branchRef request.targetBranch) target
        result := by
  simp only [mergePullRequestAmid, hsource, htarget, hlanding]

/-! ## Moving a branch -/

/-- A move that succeeds found the branch at the expected tip. -/
theorem held_of_moveBranch {refs refs' : RefStore} {refName : String} {old new : ObjectId}
    (hold : old ≠ 0) (h : moveBranch gix fault refs refName old new = (refs', .ok ())) :
    refs.lookup refName = some (.object old) := by
  have hcase := updateRefs_cases gix (MergeFault.refFault fault) refs
    [⟨refName, old.toHex, new.toHex⟩]
  simp only [moveBranch] at h
  rw [h] at hcase
  cases hcase with
  | applied edits hedits hprep =>
    obtain ⟨edit, rest, hedit, -, rfl⟩ := (refEdits_cons_eq_ok gix).1 hedits
    obtain ⟨hname, -, hexpected⟩ := refEdit_move gix hedit
    rw [if_neg hold] at hexpected
    have haccepts := hprep.2 edit List.mem_cons_self
    rw [hname] at haccepts
    simpa [RefEdit.accepts, hexpected] using haccepts

/-- The edit of a move from one commit to another. -/
theorem refEdit_of_move {refName : String} {old new : ObjectId}
    (hvalid : gix.validateRefName refName = none) (hold : old ≠ 0) (hnew : new ≠ 0) :
    refEdit gix ⟨refName, old.toHex, new.toHex⟩ =
      .ok ⟨.update (.mustExistAndMatch (.object old)) (.object new), refName⟩ := by
  have hparse : ∀ id : ObjectId, parseOid gix id.toHex = .ok id := fun id =>
    (parseOid_eq_ok gix).2 (ObjectId.fromHex_toHex id)
  have hnew' : new.toHex ≠ zeroId := fun h => hnew (toHex_eq_zeroId_iff.1 h)
  have hold' : old.toHex ≠ zeroId := fun h => hold (toHex_eq_zeroId_iff.1 h)
  simp only [refEdit, expectedValue, changeOf, fullName, if_neg hnew', if_neg hold', hparse,
    hvalid]

/-- A move of a branch that is at the expected tip succeeds where nothing fails. -/
theorem moveBranch_of_held {refs : RefStore} {refName : String} {old new : ObjectId}
    (hvalid : gix.validateRefName refName = none) (hold : old ≠ 0) (hnew : new ≠ 0)
    (hheld : refs.lookup refName = some (.object old)) :
    (moveBranch gix none refs refName old new).2 = .ok () := by
  apply (updateRefs_eq_ok_iff gix refs [⟨refName, old.toHex, new.toHex⟩]).2
  refine ⟨_, (refEdits_cons_eq_ok gix).2
    ⟨_, [], refEdit_of_move gix hvalid hold hnew, rfl, rfl⟩, List.nodup_singleton _, ?_⟩
  intro edit hmem
  obtain rfl := List.mem_singleton.1 hmem
  simp only [RefEdit.accepts, RefEdit.expected, beq_iff_eq]
  exact hheld

/-! ## What is documented -/

/-- The branch is at a commit with the given parents and the tree of the three-way merge, which is
stored and reported. -/
def MergedOnto (parents : List ObjectId) (target source : ObjectId) (state after : Repo)
    (request : MergeRequest) (outcome : MergeOutcome) : Prop :=
  ∃ merged commit,
    threeWayMergedTree gix merge fault request (state.objects gix) target source = .ok merged ∧
      commit.tree = merged.tree ∧ commit.parents = parents ∧
      merge.commitId commit ∈ after.disk.loose ∧
      after.refs.lookup (branchRef request.targetBranch) = some (.object (merge.commitId commit)) ∧
      outcome.mergeCommit = (merge.commitId commit).toHex

/-- The refs of the request resolve to the source and the target. -/
structure Resolves (state : Repo) (request : MergeRequest) (target source : ObjectId) : Prop where
  source : resolveCommitId gix state request.sourceRef = .ok source
  target : resolveCommitId gix state (branchRef request.targetBranch) = .ok target

/-- The branch held the target when it was resolved, and holds something else when it is moved. -/
def ChangedAmid (state later : Repo) (request : MergeRequest) (target : ObjectId) : Prop :=
  state.refs.lookup (branchRef request.targetBranch) = some (.object target) ∧
    later.refs.lookup (branchRef request.targetBranch) ≠ some (.object target)

/-- What is documented of a merge. -/
structure AsDocumented (state later : Repo) (strategy : MergeStrategy) (request : MergeRequest) :
    Prop where
  /-- An error leaves the target as it was. -/
  onError : ∀ after err,
    mergePullRequestAmid gix merge fault state later strategy request = (after, .error err) →
    after.refs.lookup (branchRef request.targetBranch) =
      later.refs.lookup (branchRef request.targetBranch)
  /-- A merge commit has the target and the source as its parents. -/
  onMerge : strategy = .merge → ∀ target source after outcome,
    Resolves gix state request target source →
    mergePullRequestAmid gix merge fault state later strategy request = (after, .ok outcome) →
    MergedOnto gix merge fault [target, source] target source state after request outcome
  /-- A squash has the target as its only parent. -/
  onSquash : strategy = .squash → ∀ target source after outcome,
    Resolves gix state request target source →
    mergePullRequestAmid gix merge fault state later strategy request = (after, .ok outcome) →
    MergedOnto gix merge fault [target] target source state after request outcome
  /-- A fast-forward moves an ancestor of the source to the source. -/
  onAncestor : strategy = .fastForwardOnly → ∀ target source,
    Resolves gix state request target source → Ancestor gix.content target source →
    fault = none →
    later.refs.lookup (branchRef request.targetBranch) = some (.object target) →
    ∃ after, mergePullRequestAmid gix merge fault state later strategy request =
        (after, .ok ⟨source.toHex⟩) ∧
      after.refs.lookup (branchRef request.targetBranch) = some (.object source)
  /-- A fast-forward of anything else is refused. -/
  onOther : strategy = .fastForwardOnly → ∀ target source,
    Resolves gix state request target source → ¬ Ancestor gix.content target source →
    (mergePullRequestAmid gix merge fault state later strategy request).2 = .error .notFastForward
  /-- A target that changed in between makes the merge fail. -/
  onChange : ∀ target source, Resolves gix state request target source →
    ChangedAmid state later request target →
    ∃ err, (mergePullRequestAmid gix merge fault state later strategy request).2 = .error err

/-! ## Where it fails -/

/-- The move of the branch is interrupted after the branch has changed. -/
def InterruptedAmid (state later : Repo) (strategy : MergeStrategy) (request : MergeRequest) :
    Prop :=
  ∃ target source objects landing, Resolves gix state request target source ∧
    landingOf gix merge fault strategy request (state.objects gix) target source =
      (objects, .ok (some landing)) ∧
    MoveTorn gix fault later.refs (branchRef request.targetBranch) target landing.tip

/-- A fast-forward of a source that shares no history with the target. -/
def Unrelated (state : Repo) (strategy : MergeStrategy) (request : MergeRequest) : Prop :=
  strategy = .fastForwardOnly ∧ ∃ target source, Resolves gix state request target source ∧
    ∀ id, ¬ (Ancestor gix.content id target ∧ Ancestor gix.content id source)

/-- A strategy finds nothing to land: the source is the target already, or has nothing that could
be rebased. -/
def NothingToLand (strategy : MergeStrategy) (target source : ObjectId) : Prop :=
  match strategy with
  | .merge => False
  | .squash => False
  | .rebase => Ancestor gix.content source target
  | .fastForwardOnly => source = target

/-- The target changed, and the merge has nothing to move it to. -/
def ChangeOverlooked (state later : Repo) (strategy : MergeStrategy) (request : MergeRequest) :
    Prop :=
  ∃ target source, Resolves gix state request target source ∧
    NothingToLand gix strategy target source ∧ ChangedAmid state later request target

/-! ## Landings -/

/-- Two commits whose histories are stored and have a commit in common have a merge base. -/
def MergeBaseFound (content : ObjectId → Object) (store : Store)
    (mergeBase : Store → ObjectId → ObjectId → Option ObjectId) : Prop :=
  ∀ a b id, CommitGraph content store a → CommitGraph content store b →
    Ancestor content id a → Ancestor content id b → ∃ base, mergeBase store a b = some base

section Landings

variable {gix merge fault} {request : MergeRequest} {store : Store} {target source : ObjectId}

/-- A commit that has the other one as an ancestor has it as the merge base. -/
theorem mergeBase_eq_of_ancestor (law : MergeBaseLaw gix.content merge.mergeBase)
    {a b base : ObjectId} (hbase : merge.mergeBase store a b = some base)
    {id : ObjectId} (ha : Ancestor gix.content id a) (hb : Ancestor gix.content id b)
    (hends : id = a ∨ id = b) : base = id := by
  obtain ⟨hbaseA, hbaseB⟩ := law.common store a b base hbase
  refine (law.best store a b base hbase id ha hb ?_).symm
  rcases hends with rfl | rfl
  · exact hbaseA
  · exact hbaseB

theorem fastForwardLanding_of_ancestor (law : MergeBaseLaw gix.content merge.mergeBase)
    (hfound : MergeBaseFound gix.content store merge.mergeBase)
    (htarget : CommitGraph gix.content store target)
    (hsource : CommitGraph gix.content store source) (hne : source ≠ target)
    (hancestor : Ancestor gix.content target source) :
    fastForwardLanding merge store target source = ([], .ok (some ⟨[], source⟩)) := by
  obtain ⟨base, hbase⟩ := hfound target source target htarget hsource .refl hancestor
  have heq : base = target :=
    mergeBase_eq_of_ancestor law hbase .refl hancestor (Or.inl rfl)
  simp only [fastForwardLanding, if_neg hne, hbase, if_pos heq]

/-- Commits with a common history of which the target is no ancestor are no fast-forward. -/
theorem fastForwardLanding_of_diverged (law : MergeBaseLaw gix.content merge.mergeBase)
    {base : ObjectId} (hbase : merge.mergeBase store target source = some base)
    (hancestor : ¬ Ancestor gix.content target source) :
    fastForwardLanding merge store target source = ([], .error .notFastForward) := by
  have hne : source ≠ target := by
    rintro rfl
    exact hancestor .refl
  have hbaseNe : base ≠ target := by
    rintro rfl
    exact hancestor (law.common store base source base hbase).2
  simp only [fastForwardLanding, if_neg hne, hbase, if_neg hbaseNe]

/-- Commits with nothing in common make the search for the merge base fail. -/
theorem fastForwardLanding_of_unrelated (law : MergeBaseLaw gix.content merge.mergeBase)
    (hunrelated : ∀ id, ¬ (Ancestor gix.content id target ∧ Ancestor gix.content id source)) :
    fastForwardLanding merge store target source =
      ([], .error (.git merge.mergeBaseError)) := by
  have hne : source ≠ target := by
    rintro rfl
    exact hunrelated source ⟨.refl, .refl⟩
  have hnone : merge.mergeBase store target source = none := by
    cases hbase : merge.mergeBase store target source with
    | none => rfl
    | some base => exact absurd (law.common store target source base hbase) (hunrelated base)
  simp only [fastForwardLanding, if_neg hne, hnone]

/-- A strategy lands nothing exactly when there is nothing to land. -/
theorem nothingToLand_of_landingOf (law : MergeBaseLaw gix.content merge.mergeBase)
    {strategy : MergeStrategy} {objects : List ObjectId}
    (h : landingOf gix merge fault strategy request store target source = (objects, .ok none)) :
    NothingToLand gix strategy target source := by
  have hcommit : ∀ parents, mergedCommitLanding gix merge fault parents request store target
      source ≠ (objects, .ok none) := by
    intro parents hlanding
    simp only [mergedCommitLanding] at hlanding
    split at hlanding
    · exact absurd (congrArg Prod.snd hlanding) (by simp)
    · split at hlanding <;> exact absurd (congrArg Prod.snd hlanding) (by simp)
  cases strategy with
  | merge =>
    simp only [landingOf] at h
    exact absurd h (hcommit _)
  | squash =>
    simp only [landingOf] at h
    exact absurd h (hcommit _)
  | rebase =>
    simp only [landingOf, rebaseLanding] at h
    split at h
    · exact absurd (congrArg Prod.snd h) (by simp)
    · rename_i base hbase
      split at h
      · exact absurd (congrArg Prod.snd h) (by simp)
      · rename_i hchain
        -- a chain without commits starts at the merge base
        have hstart : source = base := by
          by_contra hne
          unfold firstParentChain at hchain
          rw [if_neg hne] at hchain
          repeat' split at hchain
          all_goals exact absurd hchain (by simp)
        exact hstart ▸ (law.common store source target base hbase).2
      · split at h <;> exact absurd (congrArg Prod.snd h) (by simp)
  | fastForwardOnly =>
    simp only [landingOf, fastForwardLanding] at h
    split at h
    · rename_i heq
      exact heq
    · split at h
      · exact absurd (congrArg Prod.snd h) (by simp)
      · split at h <;> exact absurd (congrArg Prod.snd h) (by simp)

theorem landingOf_of_nothingToLand (fault : Option MergeFault) (request : MergeRequest)
    (law : MergeBaseLaw gix.content merge.mergeBase)
    (hfound : MergeBaseFound gix.content store merge.mergeBase)
    (htarget : CommitGraph gix.content store target)
    (hsource : CommitGraph gix.content store source) {strategy : MergeStrategy}
    (h : NothingToLand gix strategy target source) :
    landingOf gix merge fault strategy request store target source = ([], .ok none) := by
  cases strategy with
  | merge => exact h.elim
  | squash => exact h.elim
  | rebase =>
    have hancestor : Ancestor gix.content source target := h
    obtain ⟨base, hbase⟩ := hfound source target source hsource htarget .refl hancestor
    obtain rfl := mergeBase_eq_of_ancestor law hbase .refl hancestor (Or.inl rfl)
    have hchain : firstParentChain gix store base maxRebaseCommits base = .ok [] := by
      unfold firstParentChain
      exact if_pos rfl
    simp only [landingOf, rebaseLanding, hbase, hchain]
  | fastForwardOnly =>
    have hsame : source = target := h
    simp only [landingOf, fastForwardLanding, if_pos hsame]

/-- No landing is at the all-zeros id. -/
theorem tip_ne_zero_of_landingOf (hzero : ∀ commit, merge.commitId commit ≠ 0)
    (hsource : source ≠ 0) {strategy : MergeStrategy} {objects : List ObjectId}
    {landing : Landing}
    (h : landingOf gix merge fault strategy request store target source =
      (objects, .ok (some landing))) : landing.tip ≠ 0 := by
  cases lands_of_landingOf gix merge fault h with
  | merge commit _ _ => exact hzero commit
  | squash commit _ _ => exact hzero commit
  | rebase commits tip hne hreplayed =>
    have hlands : Lands merge store target source .rebase ⟨commits, tip⟩ :=
      .rebase commits tip hne hreplayed
    exact tip_ne_zero merge hzero hlands
  | fastForward _ _ => exact hsource

/-- What is written and landed by a merge commit or a squash. -/
theorem mergedCommitLanding_cases (gix : Gix) (merge : GixMerge) (fault : Option MergeFault)
    (parents : ObjectId → ObjectId → List ObjectId) (request : MergeRequest) (store : Store)
    (target source : ObjectId) :
    (∃ objects err, mergedCommitLanding gix merge fault parents request store target source =
        (objects, .error err)) ∨
      ∃ merged commit,
        threeWayMergedTree gix merge fault request store target source = .ok merged ∧
        commit.tree = merged.tree ∧ commit.parents = parents target source ∧
        mergedCommitLanding gix merge fault parents request store target source =
          (merge.commitId commit :: merged.objects,
            .ok (some ⟨[commit], merge.commitId commit⟩)) := by
  cases hmerged : threeWayMergedTree gix merge fault request store target source with
  | error err => exact Or.inl ⟨[], err, by simp only [mergedCommitLanding, hmerged]⟩
  | ok merged =>
    simp only [mergedCommitLanding, hmerged]
    split
    · rename_i err _
      exact Or.inl ⟨_, err, rfl⟩
    · rename_i id hwrite
      obtain rfl := writeCommit_eq_ok gix merge fault hwrite
      exact Or.inr ⟨merged, _, rfl, rfl, rfl, rfl⟩

end Landings

/-! ## When all of it holds -/

/-- What the merges rest on: the merge base is a best common ancestor and is found, no commit
hashes to the all-zeros id, no object has it, the refs of the request lead to complete histories,
and refs have valid names. -/
structure MergeWorld (gix : Gix) (merge : GixMerge) (state : Repo) : Prop where
  law : MergeBaseLaw gix.content merge.mergeBase
  found : MergeBaseFound gix.content (state.objects gix) merge.mergeBase
  commitId_ne_zero : ∀ commit, merge.commitId commit ≠ 0
  no_null : 0 ∉ state.objects gix
  histories : ∀ refName id, resolveCommitId gix state refName = .ok id →
    CommitGraph gix.content (state.objects gix) id
  names : ∀ refName value, state.refs.lookup refName = some value →
    gix.validateRefName refName = none

section Outcomes

variable {gix merge fault} {state later : Repo} {strategy : MergeStrategy} {request : MergeRequest}
  {target source : ObjectId}

theorem MergeWorld.ne_zero (hworld : MergeWorld gix merge state) {refName : String} {id : ObjectId}
    (h : resolveCommitId gix state refName = .ok id) : id ≠ 0 := by
  rintro rfl
  exact hworld.no_null (resolveCommitId_eq_ok gix h).1

theorem Resolves.unique {target' source' : ObjectId}
    (h : Resolves gix state request target source)
    (h' : Resolves gix state request target' source') :
    target' = target ∧ source' = source :=
  ⟨Except.ok.inj (h'.target.symm.trans h.target), Except.ok.inj (h'.source.symm.trans h.source)⟩

/-- A merge that lands something moves the branch. -/
theorem amid_of_landing (later : Repo) (hresolves : Resolves gix state request target source)
    {objects : List ObjectId} {landing : Landing}
    (hlanding : landingOf gix merge fault strategy request (state.objects gix) target source =
      (objects, .ok (some landing))) :
    (∃ refs err, moveBranch gix fault later.refs (branchRef request.targetBranch) target
          landing.tip = (refs, .error err) ∧
        mergePullRequestAmid gix merge fault state later strategy request =
          ({ later.addObjects objects with refs }, .error err)) ∨
      ∃ refs, moveBranch gix fault later.refs (branchRef request.targetBranch) target
          landing.tip = (refs, .ok ()) ∧
        mergePullRequestAmid gix merge fault state later strategy request =
          ({ later.addObjects objects with refs }, .ok ⟨landing.tip.toHex⟩) := by
  rw [mergePullRequestAmid_eq gix merge fault later hresolves.source hresolves.target hlanding]
  simp only [landOn]
  have hrefs : (later.addObjects objects).refs = later.refs := rfl
  rw [hrefs]
  rcases moveBranch gix fault later.refs (branchRef request.targetBranch) target landing.tip with
    ⟨refs, err | done⟩
  · exact Or.inl ⟨refs, err, rfl, rfl⟩
  · exact Or.inr ⟨refs, rfl, rfl⟩

/-- An error leaves the target as it was exactly when the move was not interrupted behind its
write. -/
theorem onError_iff (hworld : MergeWorld gix merge state) :
    (∀ after err,
      mergePullRequestAmid gix merge fault state later strategy request = (after, .error err) →
      after.refs.lookup (branchRef request.targetBranch) =
        later.refs.lookup (branchRef request.targetBranch)) ↔
      ¬ InterruptedAmid gix merge fault state later strategy request := by
  constructor
  · rintro hkeeps ⟨target, source, objects, landing, hresolves, hlanding, htorn⟩
    have htip := tip_ne_zero_of_landingOf hworld.commitId_ne_zero
      (hworld.ne_zero hresolves.source) hlanding
    rcases amid_of_landing later hresolves hlanding with
      ⟨refs, err, hmove, hout⟩ | ⟨refs, hmove, -⟩
    · exact (lookup_of_moveBranch_error gix fault htip hmove).1 (hkeeps _ _ hout) htorn
    · -- an interrupted move does not succeed
      obtain ⟨written, hfault, ⟨edits, hedits, hprep⟩, -⟩ := htorn
      rw [moveBranch, (refFault_eq_some_iff fault).2 hfault] at hmove
      simp [updateRefs, hedits, prepare, hprep, commit] at hmove
  · intro hwhole after err h
    cases hsource : resolveCommitId gix state request.sourceRef with
    | error other =>
      simp only [mergePullRequestAmid, hsource, Prod.mk.injEq] at h
      rw [← h.1]
    | ok source =>
      cases htarget : resolveCommitId gix state (branchRef request.targetBranch) with
      | error other =>
        simp only [mergePullRequestAmid, hsource, htarget, Prod.mk.injEq] at h
        rw [← h.1]
      | ok target =>
        have hresolves : Resolves gix state request target source := ⟨hsource, htarget⟩
        rcases hlanding : landingOf gix merge fault strategy request (state.objects gix) target
          source with ⟨objects, other | _ | landing⟩
        · rw [mergePullRequestAmid_eq gix merge fault later hsource htarget hlanding] at h
          obtain ⟨rfl, -⟩ := Prod.mk.inj h
          rfl
        · rw [mergePullRequestAmid_eq gix merge fault later hsource htarget hlanding] at h
          exact absurd (congrArg Prod.snd h) (by simp [landOn])
        · have htip := tip_ne_zero_of_landingOf hworld.commitId_ne_zero
            (hworld.ne_zero hsource) hlanding
          rcases amid_of_landing later hresolves hlanding with
            ⟨refs, moveErr, hmove, hout⟩ | ⟨refs, -, hout⟩
          · obtain ⟨rfl, -⟩ := Prod.mk.inj (h.symm.trans hout)
            refine (lookup_of_moveBranch_error gix fault htip hmove).2 fun htorn => hwhole ?_
            exact ⟨target, source, objects, landing, hresolves, hlanding, htorn⟩
          · exact absurd (congrArg Prod.snd (h.symm.trans hout)) (by simp)

/-- A merge commit or a squash that succeeds has moved the branch to its commit. -/
theorem mergedOnto_of_ok (parents : ObjectId → ObjectId → List ObjectId)
    (hworld : MergeWorld gix merge state) (hresolves : Resolves gix state request target source)
    (hstrategy : landingOf gix merge fault strategy request (state.objects gix) target source =
      mergedCommitLanding gix merge fault parents request (state.objects gix) target source)
    {after : Repo} {outcome : MergeOutcome}
    (h : mergePullRequestAmid gix merge fault state later strategy request =
      (after, .ok outcome)) :
    MergedOnto gix merge fault (parents target source) target source state after request
      outcome := by
  rcases mergedCommitLanding_cases gix merge fault parents request (state.objects gix) target source
    with ⟨objects, err, hlanding⟩ | ⟨merged, commit, hmerged, htree, hparents, hlanding⟩
  · rw [mergePullRequestAmid_eq gix merge fault later hresolves.source hresolves.target
      (hstrategy.trans hlanding)] at h
    exact absurd (congrArg Prod.snd h) (by simp [landOn])
  · rcases amid_of_landing later hresolves (hstrategy.trans hlanding) with
      ⟨refs, err, -, hout⟩ | ⟨refs, hmove, hout⟩
    · exact absurd (congrArg Prod.snd (h.symm.trans hout)) (by simp)
    · obtain ⟨rfl, houtcome⟩ := Prod.mk.inj (h.symm.trans hout)
      obtain rfl := Except.ok.inj houtcome
      refine ⟨merged, commit, hmerged, htree, hparents, ?_, ?_, rfl⟩
      · simp [Repo.addObjects]
      · exact lookup_of_moveBranch gix fault (hworld.commitId_ne_zero commit) hmove

/-- A fast-forward of an ancestor moves the branch. -/
theorem fastForward_of_ancestor (hworld : MergeWorld gix merge state)
    (hresolves : Resolves gix state request target source)
    (hancestor : Ancestor gix.content target source)
    (hheld : later.refs.lookup (branchRef request.targetBranch) = some (.object target)) :
    ∃ after, mergePullRequestAmid gix merge none state later .fastForwardOnly request =
        (after, .ok ⟨source.toHex⟩) ∧
      after.refs.lookup (branchRef request.targetBranch) = some (.object source) := by
  by_cases hsame : source = target
  · obtain rfl := hsame
    have hlanding : landingOf gix merge none .fastForwardOnly request (state.objects gix) source
        source = ([], .ok none) := by
      simp only [landingOf, fastForwardLanding, if_true]
    rw [mergePullRequestAmid_eq gix merge none later hresolves.source hresolves.target hlanding]
    exact ⟨_, rfl, hheld⟩
  · have hlanding : landingOf gix merge none .fastForwardOnly request (state.objects gix) target
        source = ([], .ok (some ⟨[], source⟩)) :=
      fastForwardLanding_of_ancestor hworld.law hworld.found
        (hworld.histories _ _ hresolves.target) (hworld.histories _ _ hresolves.source) hsame
        hancestor
    have hsourceNe := hworld.ne_zero hresolves.source
    have hvalid : gix.validateRefName (branchRef request.targetBranch) = none := by
      obtain ⟨value, hvalue⟩ := Option.ne_none_iff_exists'.1
        (lookup_ne_none_of_resolveCommitId gix hresolves.target)
      exact hworld.names _ _ hvalue
    have hmoves := moveBranch_of_held gix hvalid (hworld.ne_zero hresolves.target) hsourceNe hheld
    rcases amid_of_landing later hresolves hlanding with ⟨refs, err, hmove, -⟩ | ⟨refs, hmove, hout⟩
    · rw [hmove] at hmoves
      exact absurd hmoves (by simp)
    · exact ⟨_, hout, lookup_of_moveBranch gix none hsourceNe hmove⟩

/-- A fast-forward of anything else is refused, if there is a common history. -/
theorem fastForward_of_diverged (hworld : MergeWorld gix merge state)
    (hresolves : Resolves gix state request target source)
    (hancestor : ¬ Ancestor gix.content target source)
    (hrelated : ∃ id, Ancestor gix.content id target ∧ Ancestor gix.content id source) :
    (mergePullRequestAmid gix merge fault state later .fastForwardOnly request).2 =
      .error .notFastForward := by
  obtain ⟨id, hidTarget, hidSource⟩ := hrelated
  obtain ⟨base, hbase⟩ := hworld.found target source id (hworld.histories _ _ hresolves.target)
    (hworld.histories _ _ hresolves.source) hidTarget hidSource
  have hlanding : landingOf gix merge fault .fastForwardOnly request (state.objects gix) target
      source = ([], .error .notFastForward) :=
    fastForwardLanding_of_diverged hworld.law hbase hancestor
  rw [mergePullRequestAmid_eq gix merge fault later hresolves.source hresolves.target hlanding]
  rfl

/-- A merge that has something to land fails where the target changed. -/
theorem fails_of_changed (hworld : MergeWorld gix merge state)
    (hresolves : Resolves gix state request target source)
    (hchanged : ChangedAmid state later request target)
    (hland : ¬ NothingToLand gix strategy target source) :
    ∃ err, (mergePullRequestAmid gix merge fault state later strategy request).2 =
      .error err := by
  rcases hlanding : landingOf gix merge fault strategy request (state.objects gix) target source
    with ⟨objects, err | _ | landing⟩
  · rw [mergePullRequestAmid_eq gix merge fault later hresolves.source hresolves.target hlanding]
    exact ⟨err, rfl⟩
  · exact absurd (nothingToLand_of_landingOf hworld.law hlanding) hland
  · rcases amid_of_landing later hresolves hlanding with ⟨refs, err, -, hout⟩ | ⟨refs, hmove, -⟩
    · exact ⟨err, by rw [hout]⟩
    · exact absurd (held_of_moveBranch gix fault (hworld.ne_zero hresolves.target) hmove) hchanged.2

end Outcomes

/-- A merge does what is documented of its strategy exactly when the move of the branch is not
interrupted behind its write, a fast-forward is asked for between related histories only, and a
change of the target meets a merge that has something to land. -/
theorem merge_as_documented_iff (state later : Repo) (strategy : MergeStrategy)
    (request : MergeRequest) (hworld : MergeWorld gix merge state) :
    AsDocumented gix merge fault state later strategy request ↔
      ¬ InterruptedAmid gix merge fault state later strategy request ∧
        ¬ Unrelated gix state strategy request ∧
        ¬ ChangeOverlooked gix state later strategy request := by
  constructor
  · intro hdocumented
    refine ⟨(onError_iff hworld).1 hdocumented.onError, ?_, ?_⟩
    · rintro ⟨rfl, target, source, hresolves, hunrelated⟩
      have hrefused := hdocumented.onOther rfl target source hresolves fun hancestor =>
        hunrelated target ⟨.refl, hancestor⟩
      have hlanding : landingOf gix merge fault .fastForwardOnly request (state.objects gix) target
          source = ([], .error (.git merge.mergeBaseError)) :=
        fastForwardLanding_of_unrelated hworld.law hunrelated
      rw [mergePullRequestAmid_eq gix merge fault later hresolves.source hresolves.target
        hlanding] at hrefused
      exact absurd hrefused (by simp [landOn])
    · rintro ⟨target, source, hresolves, hnothing, hchanged⟩
      obtain ⟨err, hfails⟩ := hdocumented.onChange target source hresolves hchanged
      have hlanding := landingOf_of_nothingToLand fault request hworld.law hworld.found
        (hworld.histories _ _ hresolves.target) (hworld.histories _ _ hresolves.source) hnothing
      rw [mergePullRequestAmid_eq gix merge fault later hresolves.source hresolves.target
        hlanding] at hfails
      exact absurd hfails (by simp [landOn])
  · rintro ⟨hwhole, hrelated, hnoticed⟩
    constructor
    · exact (onError_iff hworld).2 hwhole
    · rintro rfl target source after outcome hresolves hok
      exact mergedOnto_of_ok (fun target source => [target, source]) hworld hresolves rfl hok
    · rintro rfl target source after outcome hresolves hok
      exact mergedOnto_of_ok (fun target _ => [target]) hworld hresolves rfl hok
    · rintro rfl target source hresolves hancestor rfl hheld
      exact fastForward_of_ancestor hworld hresolves hancestor hheld
    · rintro rfl target source hresolves hancestor
      apply fastForward_of_diverged hworld hresolves hancestor
      by_contra hnone
      exact hrelated ⟨rfl, target, source, hresolves, fun id hid => hnone ⟨id, hid⟩⟩
    · intro target source hresolves hchanged
      apply fails_of_changed hworld hresolves hchanged
      intro hnothing
      exact hnoticed ⟨target, source, hresolves, hnothing, hchanged⟩

end MergeExact

/-! ## An orphan branch -/

/-- The commits 1 and 3 are roots, and 2 is on top of 1. -/
def orphanGix : Gix where
  content := fun id =>
    if id = 2 then .commit (some (adaCommit "work" [1]))
    else if id = 1 ∨ id = 3 then .commit (some (adaCommit "root" []))
    else .tree (some [])
  packObjects := fun _ => []
  writeToDirectory := fun _ _ => .error "bad header"
  validateRefName := fun _ => none
  debug := fun text => "\"" ++ text ++ "\""
  transactionError := fun _ _ => "the reference has moved"
  ioError := "input/output error"

def orphanMerge : GixMerge where
  diffTreeToTree := fun _ _ _ => .ok []
  mergeBase := fun _ a b =>
    if a = b then some a
    else if a = 1 ∧ b = 2 ∨ a = 2 ∧ b = 1 then some 1
    else none
  histogramHunks := fun _ _ => []
  rawData := fun _ => []
  mergeCommits := fun _ _ _ _ _ => .ok ⟨0, false, 9, []⟩
  mergeTrees := fun _ _ _ _ _ => .ok ⟨0, false, 9, []⟩
  commitId := fun commit => if commit.parents.length = 2 then 5 else 4
  emptyTree := 9
  mergeBaseError := "could not find a merge base"

/-- The branch `main` is at 1, `topic` at 2 and the unrelated `pages` at 3. -/
def orphanRepo : Repo where
  disk := ⟨[1, 2, 3, 9], [], []⟩
  refs := ((∅ : RefStore).insert "refs/heads/main" (.object 1)).insert "refs/heads/topic"
    (.object 2) |>.insert "refs/heads/pages" (.object 3)

/-- The only commit with a parent is 2. -/
theorem orphan_ancestor {id tip : ObjectId} (h : Ancestor orphanGix.content id tip) :
    id = tip ∨ tip = 2 ∧ id = 1 := by
  have hparents : ∀ a b : ObjectId, b ∈ parentsOf orphanGix.content a → a = 2 ∧ b = 1 := by
    intro a b hb
    simp only [parentsOf, orphanGix] at hb
    by_cases htwo : a = 2
    · rw [if_pos htwo] at hb
      exact ⟨htwo, List.mem_singleton.1 hb⟩
    · rw [if_neg htwo] at hb
      split at hb
      · rename_i hcommit
        split at hcommit
        · cases hcommit
          simp [adaCommit] at hb
        · cases hcommit
      · simp at hb
  induction h with
  | refl => exact Or.inl rfl
  | tail _ hparent ih =>
    obtain ⟨rfl, rfl⟩ := hparents _ _ hparent
    rcases ih with heq | ⟨-, heq⟩
    · exact Or.inr ⟨heq.symm, rfl⟩
    · exact absurd heq (by decide)

theorem orphanMerge_law : MergeBaseLaw orphanGix.content orphanMerge.mergeBase := by
  have hcases : ∀ store a b base, orphanMerge.mergeBase store a b = some base →
      (a = b ∧ base = a) ∨ base = 1 ∧ (a = 1 ∧ b = 2 ∨ a = 2 ∧ b = 1) := by
    intro store a b base h
    simp only [orphanMerge] at h
    split at h
    · rename_i hab
      exact Or.inl ⟨hab, (Option.some.inj h).symm⟩
    · split at h
      · rename_i hab
        exact Or.inr ⟨(Option.some.inj h).symm, hab⟩
      · exact absurd h (by simp)
  have hwork : Ancestor orphanGix.content 1 2 := .single (by decide)
  constructor
  · intro store a b base h
    rcases hcases store a b base h with ⟨rfl, rfl⟩ | ⟨rfl, ⟨rfl, rfl⟩ | ⟨rfl, rfl⟩⟩
    · exact ⟨.refl, .refl⟩
    · exact ⟨.refl, hwork⟩
    · exact ⟨hwork, .refl⟩
  · intro store a b base h id ha hb hbelow
    rcases hcases store a b base h with ⟨rfl, rfl⟩ | ⟨rfl, ⟨rfl, rfl⟩ | ⟨rfl, rfl⟩⟩
    · rcases orphan_ancestor ha with heq | ⟨rfl, rfl⟩
      · exact heq
      · rcases orphan_ancestor hbelow with heq | ⟨heq, -⟩
        · exact heq.symm
        · exact absurd heq (by decide)
    · rcases orphan_ancestor ha with heq | ⟨heq, -⟩
      · exact heq
      · exact absurd heq (by decide)
    · rcases orphan_ancestor hb with heq | ⟨heq, -⟩
      · exact heq
      · exact absurd heq (by decide)

theorem orphanMerge_found (store : Store) :
    MergeBaseFound orphanGix.content store orphanMerge.mergeBase := by
  intro a b id _ _ ha hb
  simp only [orphanMerge]
  split
  · exact ⟨a, rfl⟩
  · rename_i hab
    rw [if_pos]
    · exact ⟨1, rfl⟩
    · rcases orphan_ancestor ha with rfl | ⟨rfl, rfl⟩
      · rcases orphan_ancestor hb with heq | ⟨hb2, ha1⟩
        · exact absurd heq hab
        · exact Or.inl ⟨ha1, hb2⟩
      · rcases orphan_ancestor hb with heq | ⟨hb2, -⟩
        · exact Or.inr ⟨rfl, heq.symm⟩
        · exact absurd hb2.symm hab

theorem orphan_world : MergeWorld orphanGix orphanMerge orphanRepo where
  law := orphanMerge_law
  found := orphanMerge_found _
  commitId_ne_zero := by
    intro commit
    simp only [orphanMerge]
    split <;> decide
  no_null := by decide
  histories := by
    intro refName id h
    obtain ⟨hmem, hkind⟩ := resolveCommitId_eq_ok orphanGix h
    have hobjects : orphanRepo.objects orphanGix = [1, 2, 3, 9] := by decide
    have hid : id = 1 ∨ id = 2 ∨ id = 3 := by
      rw [hobjects] at hmem
      simp only [List.mem_cons, List.not_mem_nil, or_false] at hmem
      rcases hmem with rfl | rfl | rfl | rfl
      · exact Or.inl rfl
      · exact Or.inr (Or.inl rfl)
      · exact Or.inr (Or.inr rfl)
      · exact absurd hkind (by decide)
    have hreached : ∀ other, Ancestor orphanGix.content other id →
        other = 1 ∨ other = 2 ∨ other = 3 := by
      intro other hother
      rcases orphan_ancestor hother with rfl | ⟨-, rfl⟩
      · exact hid
      · exact Or.inl rfl
    constructor
    · intro other hother
      rw [hobjects]
      rcases hreached other hother with rfl | rfl | rfl <;> simp
    · intro other hother
      rcases hreached other hother with rfl | rfl | rfl
      · exact ⟨adaCommit "root" [], by decide⟩
      · exact ⟨adaCommit "work" [1], by decide⟩
      · exact ⟨adaCommit "root" [], by decide⟩
  names := fun _ _ _ => rfl

/-- A fast-forward of `main` to the unrelated branch fails, but not with `NotFastForward`. -/
theorem orphan_is_not_refused :
    ¬ AsDocumented orphanGix orphanMerge none orphanRepo orphanRepo .fastForwardOnly
      (rebaseOf "refs/heads/pages") := by
  intro hdocumented
  have hresolves : Resolves orphanGix orphanRepo (rebaseOf "refs/heads/pages") 1 3 :=
    ⟨by decide, by decide⟩
  have hrefused := hdocumented.onOther rfl 1 3 hresolves fun hancestor => by
    rcases orphan_ancestor hancestor with heq | ⟨heq, -⟩ <;> exact absurd heq (by decide)
  have hout : (mergePullRequestAmid orphanGix orphanMerge none orphanRepo orphanRepo
      .fastForwardOnly (rebaseOf "refs/heads/pages")).2 =
      .error (.git "could not find a merge base") := by decide
  exact absurd (hout.symm.trans hrefused) (by simp)

/-- The fast-forward of `main` to `topic` is as documented. -/
theorem topic_is_fast_forwarded :
    AsDocumented orphanGix orphanMerge none orphanRepo orphanRepo .fastForwardOnly
      (rebaseOf "refs/heads/topic") := by
  apply (merge_as_documented_iff orphanGix orphanMerge none orphanRepo orphanRepo
    .fastForwardOnly (rebaseOf "refs/heads/topic") orphan_world).2
  have hresolves : Resolves orphanGix orphanRepo (rebaseOf "refs/heads/topic") 1 2 :=
    ⟨by decide, by decide⟩
  refine ⟨?_, ?_, ?_⟩
  · rintro ⟨_, _, _, _, _, _, written, hfault, _⟩
    exact absurd hfault (by simp)
  · rintro ⟨_, target, source, hresolves', hunrelated⟩
    obtain ⟨rfl, rfl⟩ := hresolves.unique hresolves'
    exact hunrelated 1 ⟨.refl, .single (by decide)⟩
  · rintro ⟨_, _, _, _, hheld, hchanged⟩
    exact hchanged hheld

end Edda.Git
