import Edda.Git.Merge

/-!
# Rebasing onto a branch

A rebase replays the commits that the source has over the target, the oldest first. It looks for
them on the first-parent chain of the source, from the source back to the merge base.

`rebase_replays_missing_iff` says exactly when these are the commits of that chain which the
target does not reach: when the merge base lies on the chain, or the target reaches no commit of
it. A source that has merged the target into itself has its merge base off the chain. The walk
does not meet it then, and goes on to the root, through commits of the target.
-/

set_option autoImplicit false

namespace Edda.Git

open Edda.Domain

/-! ## First-parent chains -/

section FirstParents

variable (content : ObjectId → Object)

def FirstParent (child parent : ObjectId) : Prop := (parentsOf content child).head? = some parent

instance (child parent : ObjectId) : Decidable (FirstParent content child parent) :=
  inferInstanceAs (Decidable (_ = _))

/-- `id` is `tip`, or comes after it on its first-parent chain. -/
def OnChain (tip id : ObjectId) : Prop := Relation.ReflTransGen (FirstParent content) tip id

/-- The commits of a first-parent chain, newest first, up to the first one where `stop` holds. A
chain that meets no such commit is followed to its root. -/
inductive ChainUntil (stop : ObjectId → Prop) : ObjectId → List ObjectId → Prop
  | stopped (tip : ObjectId) : stop tip → ChainUntil stop tip []
  | root (tip : ObjectId) : ¬ stop tip → parentsOf content tip = [] → ChainUntil stop tip [tip]
  | step (tip parent : ObjectId) (rest : List ObjectId) : ¬ stop tip →
      FirstParent content tip parent → ChainUntil stop parent rest →
      ChainUntil stop tip (tip :: rest)

/-- The commits on the first-parent chain of the source that the target does not reach. -/
def MissingChain (target source : ObjectId) (ids : List ObjectId) : Prop :=
  ChainUntil content (fun id => Ancestor content id target) source ids

theorem FirstParent.unique {child parent parent' : ObjectId} (h : FirstParent content child parent)
    (h' : FirstParent content child parent') : parent = parent' :=
  Option.some.inj (h.symm.trans h')

theorem OnChain.ancestor {tip id : ObjectId} (h : OnChain content tip id) :
    Ancestor content id tip := by
  induction h with
  | refl => exact .refl
  | tail _ hparent ih => exact ih.tail (List.mem_of_mem_head? hparent)

/-- What comes on a chain is its tip, or comes on the chain of the first parent. -/
theorem OnChain.cases {tip parent id : ObjectId} (hparent : FirstParent content tip parent)
    (h : OnChain content tip id) : id = tip ∨ OnChain content parent id := by
  rcases Relation.ReflTransGen.cases_head h with rfl | ⟨next, hnext, hrest⟩
  · exact Or.inl rfl
  · obtain rfl := FirstParent.unique content hparent hnext
    exact Or.inr hrest

/-- A root is all of its chain. -/
theorem OnChain.eq_of_root {tip id : ObjectId} (hroot : parentsOf content tip = [])
    (h : OnChain content tip id) : id = tip := by
  rcases Relation.ReflTransGen.cases_head h with rfl | ⟨next, hnext, -⟩
  · rfl
  · simp [FirstParent, hroot] at hnext

variable {stop stop' : ObjectId → Prop}

/-- The commits before a stop come on the chain, and none of them is a stop. -/
theorem ChainUntil.of_mem {tip : ObjectId} {ids : List ObjectId}
    (h : ChainUntil content stop tip ids) {id : ObjectId} (hid : id ∈ ids) :
    OnChain content tip id ∧ ¬ stop id := by
  induction h with
  | stopped tip _ => simp at hid
  | root tip hstop _ =>
    obtain rfl := List.mem_singleton.1 hid
    exact ⟨.refl, hstop⟩
  | step tip parent rest hstop hparent _ ih =>
    rcases List.mem_cons.1 hid with rfl | hid
    · exact ⟨.refl, hstop⟩
    · exact ⟨.head hparent (ih hid).1, (ih hid).2⟩

/-- A chain that never stops is followed to its root. -/
theorem ChainUntil.mem_of_onChain {tip : ObjectId} {ids : List ObjectId}
    (h : ChainUntil content stop tip ids) (hnever : ∀ id, OnChain content tip id → ¬ stop id)
    {id : ObjectId} (hid : OnChain content tip id) : id ∈ ids := by
  induction h with
  | stopped tip hstop => exact absurd hstop (hnever tip .refl)
  | root tip _ hroot =>
    rw [hid.eq_of_root content hroot]
    exact List.mem_singleton.2 rfl
  | step tip parent rest _ hparent _ ih =>
    rcases hid.cases content hparent with rfl | hid
    · exact List.mem_cons_self
    · exact List.mem_cons_of_mem _ (ih (fun id hid => hnever id (.head hparent hid)) hid)

/-- Two stretches of one chain that are as long as each other are the same. -/
theorem ChainUntil.eq_of_length {tip : ObjectId} {ids ids' : List ObjectId}
    (h : ChainUntil content stop tip ids) (h' : ChainUntil content stop' tip ids')
    (hlength : ids.length = ids'.length) : ids = ids' := by
  induction h generalizing ids' with
  | stopped tip _ => exact (List.length_eq_zero_iff.1 hlength.symm).symm
  | root tip _ hroot =>
    cases h' with
    | stopped _ _ => simp at hlength
    | root _ _ _ => rfl
    | step _ parent rest _ hparent _ => simp [FirstParent, hroot] at hparent
  | step tip parent rest _ hparent _ ih =>
    cases h' with
    | stopped _ _ => simp at hlength
    | root _ _ hroot => simp [FirstParent, hroot] at hparent
    | step _ parent' rest' _ hparent' hrest' =>
      obtain rfl := FirstParent.unique content hparent hparent'
      rw [ih hrest' (by simpa using hlength)]

/-- A stretch is one for another kind of stop that holds where it ends and not before. -/
theorem ChainUntil.of_stop {tip : ObjectId} {ids : List ObjectId}
    (h : ChainUntil content stop tip ids) (hend : ∀ id, stop id → stop' id)
    (hbefore : ∀ id ∈ ids, ¬ stop' id) : ChainUntil content stop' tip ids := by
  induction h with
  | stopped tip hstop => exact .stopped tip (hend tip hstop)
  | root tip _ hroot => exact .root tip (hbefore tip List.mem_cons_self) hroot
  | step tip parent rest _ hparent _ ih =>
    refine .step tip parent rest (hbefore tip List.mem_cons_self) hparent ?_
    exact ih fun id hid => hbefore id (List.mem_cons_of_mem _ hid)

/-- From every commit before a stop, the chain leads to every stop that comes on it. -/
theorem ChainUntil.onChain_of_mem {tip base : ObjectId} {ids : List ObjectId}
    (h : ChainUntil content (· = base) tip ids) (hbase : OnChain content tip base) {id : ObjectId}
    (hid : id ∈ ids) : OnChain content id base := by
  induction h with
  | stopped tip _ => simp at hid
  | root tip _ _ =>
    obtain rfl := List.mem_singleton.1 hid
    exact hbase
  | step tip parent rest hstop hparent _ ih =>
    rcases List.mem_cons.1 hid with rfl | hid
    · exact hbase
    · exact ih ((hbase.cases content hparent).resolve_left (Ne.symm hstop)) hid

/-- The missing commits are those of the chain that the target does not reach. -/
theorem mem_missingChain_iff {target source : ObjectId} {ids : List ObjectId}
    (h : MissingChain content target source ids) (id : ObjectId) :
    id ∈ ids ↔ OnChain content source id ∧ ¬ Ancestor content id target := by
  constructor
  · intro hid
    exact h.of_mem content hid
  · rintro ⟨hchain, hmissing⟩
    simp only [MissingChain] at h
    induction h with
    | stopped tip hreached => exact absurd (hreached.trans (hchain.ancestor content)) hmissing
    | root tip _ hroot =>
      rw [hchain.eq_of_root content hroot]
      exact List.mem_singleton.2 rfl
    | step tip parent rest _ hparent _ ih =>
      rcases hchain.cases content hparent with rfl | hchain
      · exact List.mem_cons_self
      · exact List.mem_cons_of_mem _ (ih hchain)

end FirstParents

/-! ## What a rebase lands -/

section Rebase

variable (gix : Gix) (merge : GixMerge) (fault : Option MergeFault)

/-- Commits written one on top of the other, each with the author and the message of its
original. -/
inductive ReplayedAs : ObjectId → List ObjectId → List Commit → ObjectId → Prop
  | nil (tip : ObjectId) : ReplayedAs tip [] [] tip
  | cons (tip last original : ObjectId) (originals : List ObjectId) (body commit : Commit)
      (commits : List Commit) :
      gix.content original = .commit (some body) → commit.parents = [tip] →
      commit.author = body.author → commit.message = body.message →
      ReplayedAs (merge.commitId commit) originals commits last →
      ReplayedAs tip (original :: originals) (commit :: commits) last

/-- What a merge lands, where a merge that has nothing to do stays at the target. -/
def landed (target : ObjectId) (result : Option Landing) : Landing := result.getD ⟨[], target⟩

theorem ReplayedAs.length_eq {tip last : ObjectId} {originals : List ObjectId}
    {commits : List Commit} (h : ReplayedAs gix merge tip originals commits last) :
    originals.length = commits.length := by
  induction h with
  | nil tip => rfl
  | cons _ _ _ _ _ _ _ _ _ _ _ _ ih => simp only [List.length_cons, ih]

theorem findCommit_eq_ok {store : Store} {id : ObjectId} {commit : Commit}
    (h : findCommit gix store id = .ok commit) :
    id ∈ store ∧ gix.content id = .commit (some commit) := by
  simp only [findCommit] at h
  cases hfind : findObject gix.content store id with
  | error err => simp [hfind] at h
  | ok object =>
    obtain ⟨hstored, rfl⟩ := mem_of_findObject gix.content hfind
    cases hcontent : gix.content id with
    | commit body =>
      cases body with
      | none => simp [hfind, hcontent] at h
      | some body =>
        simp only [hfind, hcontent, Except.ok.injEq] at h
        exact ⟨hstored, by rw [h]⟩
    | tree body => simp [hfind, hcontent] at h
    | blob data => simp [hfind, hcontent] at h
    | tag body => simp [hfind, hcontent] at h

/-- The walk follows the first-parent chain up to the merge base, or to its root. -/
theorem chainUntil_of_firstParentChain {store : Store} {base : ObjectId} {room : Nat}
    {cursor : ObjectId} {chain : List ObjectId}
    (h : firstParentChain gix store base room cursor = .ok chain) :
    ChainUntil gix.content (· = base) cursor chain := by
  induction room generalizing cursor chain with
  | zero =>
    unfold firstParentChain at h
    split at h
    · rename_i hbase
      obtain rfl := Except.ok.inj h
      exact .stopped cursor hbase
    · split at h
      all_goals simp_all
  | succ room ih =>
    unfold firstParentChain at h
    split at h
    · rename_i hbase
      obtain rfl := Except.ok.inj h
      exact .stopped cursor hbase
    · rename_i hbase
      cases hfind : findCommit gix store cursor with
      | error err => simp [hfind] at h
      | ok commit =>
        have hparents : parentsOf gix.content cursor = commit.parents := by
          simp only [parentsOf, (findCommit_eq_ok gix hfind).2]
        simp only [hfind] at h
        cases hfirst : commit.parents with
        | nil =>
          simp only [hfirst, Except.ok.injEq] at h
          rw [← h]
          exact .root cursor hbase (hparents.trans hfirst)
        | cons parent others =>
          simp only [hfirst] at h
          cases hrest : firstParentChain gix store base room parent with
          | error err => simp [hrest] at h
          | ok rest =>
            simp only [hrest, Except.ok.injEq] at h
            rw [← h]
            refine .step cursor parent rest hbase ?_ (ih hrest)
            simp only [FirstParent, hparents, hfirst, List.head?_cons]

/-- What a replayed commit keeps of its original. -/
theorem replayCommit_keeps {request : MergeRequest} {store : Store} {tip original : ObjectId}
    {objects : List ObjectId} {commit : Commit}
    (h : replayCommit gix merge fault request store tip original = (objects, .ok commit)) :
    ∃ body, gix.content original = .commit (some body) ∧ commit.parents = [tip] ∧
      commit.author = body.author ∧ commit.message = body.message := by
  simp only [replayCommit] at h
  split at h
  · exact absurd (congrArg Prod.snd h) (by simp)
  · rename_i body hfind
    split at h
    · exact absurd (congrArg Prod.snd h) (by simp)
    · split at h
      · exact absurd (congrArg Prod.snd h) (by simp)
      · rename_i author hauthor
        obtain rfl := Except.ok.inj (congrArg Prod.snd h)
        exact ⟨body, (findCommit_eq_ok gix hfind).2, rfl, hauthor.symm, rfl⟩

theorem replayedAs_of_replayCommits {request : MergeRequest} {originals : List ObjectId}
    {store : Store} {tip : ObjectId} {objects : List ObjectId} {landing : Landing}
    (h : replayCommits gix merge fault request store tip originals = (objects, .ok landing)) :
    ReplayedAs gix merge tip originals landing.commits landing.tip := by
  induction originals generalizing store tip objects landing with
  | nil =>
    obtain rfl := Except.ok.inj (congrArg Prod.snd h)
    exact .nil tip
  | cons original originals ih =>
    simp only [replayCommits] at h
    split at h
    · exact absurd (congrArg Prod.snd h) (by simp)
    · rename_i written commit hcommit
      obtain ⟨body, hbody, hparents, hauthor, hmessage⟩ :=
        replayCommit_keeps gix merge fault hcommit
      split at h
      · exact absurd (congrArg Prod.snd h) (by simp)
      · rename_i id hwrite
        obtain rfl := writeCommit_eq_ok gix merge fault hwrite
        split at h
        · exact absurd (congrArg Prod.snd h) (by simp)
        · rename_i later rest hrest
          obtain rfl := Except.ok.inj (congrArg Prod.snd h)
          exact .cons tip rest.tip original originals body commit rest.commits hbody hparents
            hauthor hmessage (ih hrest)

/-- A rebase replays the chain from the source to the merge base, or to its root, oldest first. -/
theorem replayedAs_of_rebaseLanding {request : MergeRequest} {store : Store}
    {target source : ObjectId} {objects : List ObjectId} {result : Option Landing}
    (h : rebaseLanding gix merge fault request store target source = (objects, .ok result)) :
    ∃ base chain, merge.mergeBase store source target = some base ∧
      ChainUntil gix.content (· = base) source chain ∧
      ReplayedAs gix merge target chain.reverse (landed target result).commits
        (landed target result).tip := by
  simp only [rebaseLanding] at h
  split at h
  · exact absurd (congrArg Prod.snd h) (by simp)
  · rename_i base hbase
    split at h
    · exact absurd (congrArg Prod.snd h) (by simp)
    · rename_i hchain
      obtain rfl := Except.ok.inj (congrArg Prod.snd h)
      exact ⟨base, [], hbase, chainUntil_of_firstParentChain gix hchain, .nil target⟩
    · rename_i first chain hchain
      split at h
      · exact absurd (congrArg Prod.snd h) (by simp)
      · rename_i written landing hreplay
        obtain rfl := Except.ok.inj (congrArg Prod.snd h)
        exact ⟨base, first :: chain, hbase, chainUntil_of_firstParentChain gix hchain,
          replayedAs_of_replayCommits gix merge fault hreplay⟩

/-- What is documented of the merge base: it is an ancestor of both commits, and no other common
ancestor descends from it. -/
structure MergeBaseLaw (content : ObjectId → Object)
    (mergeBase : Store → ObjectId → ObjectId → Option ObjectId) : Prop where
  common : ∀ store a b base, mergeBase store a b = some base →
    Ancestor content base a ∧ Ancestor content base b
  best : ∀ store a b base, mergeBase store a b = some base →
    ∀ id, Ancestor content id a → Ancestor content id b → Ancestor content base id → id = base

/-- What is landed on the target are replays of the missing commits, oldest first. -/
def ReplaysMissing (target source : ObjectId) (result : Option Landing) : Prop :=
  ∃ originals, MissingChain gix.content target source originals ∧
    ReplayedAs gix merge target originals.reverse (landed target result).commits
      (landed target result).tip

/-- The merge base lies on the first-parent chain of the source, or the target reaches no commit
of that chain. -/
def BaseOnChain (base target source : ObjectId) : Prop :=
  OnChain gix.content source base ∨
    ∀ id, OnChain gix.content source id → ¬ Ancestor gix.content id target

/-- Up to the merge base the chain holds the missing commits exactly when the merge base lies on
the chain, or nothing of the chain is missing its place. -/
theorem missingChain_iff (law : MergeBaseLaw gix.content merge.mergeBase) {store : Store}
    {base target source : ObjectId} (hbase : merge.mergeBase store source target = some base)
    {chain : List ObjectId} (hchain : ChainUntil gix.content (· = base) source chain) :
    MissingChain gix.content target source chain ↔ BaseOnChain gix base target source := by
  obtain ⟨hsource, htarget⟩ := law.common store source target base hbase
  constructor
  · intro hmissing
    by_cases hon : OnChain gix.content source base
    · exact Or.inl hon
    · -- the walk went on to the root, so all of the chain is missing
      right
      intro id hid
      have hnever : ∀ id, OnChain gix.content source id → ¬ id = base := by
        rintro id hid rfl
        exact hon hid
      exact (hmissing.of_mem gix.content (hchain.mem_of_onChain gix.content hnever hid)).2
  · intro hcond
    refine hchain.of_stop gix.content ?_ ?_
    · rintro id rfl
      exact htarget
    · intro id hid hreached
      obtain ⟨hidChain, hne⟩ := hchain.of_mem gix.content hid
      rcases hcond with hon | hnone
      · -- a reached commit above the merge base would be a better one
        have habove := (hchain.onChain_of_mem gix.content hon hid).ancestor gix.content
        exact hne (law.best store source target base hbase id (hidChain.ancestor gix.content)
          hreached habove)
      · exact hnone id hidChain hreached

theorem replaysMissing_iff (law : MergeBaseLaw gix.content merge.mergeBase)
    {request : MergeRequest} {store : Store} {base target source : ObjectId}
    (hbase : merge.mergeBase store source target = some base) {objects : List ObjectId}
    {result : Option Landing}
    (h : rebaseLanding gix merge fault request store target source = (objects, .ok result)) :
    ReplaysMissing gix merge target source result ↔ BaseOnChain gix base target source := by
  obtain ⟨base', chain, hbase', hchain, hreplayed⟩ :=
    replayedAs_of_rebaseLanding gix merge fault h
  obtain rfl := Option.some.inj (hbase.symm.trans hbase')
  rw [← missingChain_iff gix merge law hbase hchain]
  constructor
  · rintro ⟨originals, hmissing, horiginals⟩
    -- as many commits were missing as were replayed, and both are stretches of one chain
    have hlength : originals.length = chain.length := by
      have hreplays := horiginals.length_eq.trans hreplayed.length_eq.symm
      simpa using hreplays
    rwa [ChainUntil.eq_of_length gix.content hmissing hchain hlength] at hmissing
  · intro hmissing
    exact ⟨chain, hmissing, hreplayed⟩

/-! ## The target branch -/

/-- A move that succeeds leaves the branch at the new tip. -/
theorem lookup_of_moveBranch {refs refs' : RefStore} {refName : String} {old new : ObjectId}
    (hnew : new ≠ 0) (h : moveBranch gix fault refs refName old new = (refs', .ok ())) :
    refs'.lookup refName = some (.object new) := by
  simp only [moveBranch] at h
  have hcase := updateRefs_cases gix (MergeFault.refFault fault) refs
    [⟨refName, old.toHex, new.toHex⟩]
  rw [h] at hcase
  cases hcase with
  | applied edits hedits hprep =>
    obtain ⟨edit, rest, hedit, -, rfl⟩ := (refEdits_cons_eq_ok gix).1 hedits
    obtain ⟨hname, hresult, -⟩ := refEdit_move gix hedit
    have hlookup := lookup_writeAll_of_mem _ refs (nodup_names_commitOrder hprep.1)
      (mem_commitOrder.2 (List.mem_cons_self : edit ∈ edit :: rest))
    rwa [hname, hresult, movedValue, if_neg hnew] at hlookup

/-- The tip of replayed commits is one of them. -/
theorem tip_ne_zero (hzero : ∀ commit, merge.commitId commit ≠ 0) {store : Store}
    {target source : ObjectId} {landing : Landing}
    (h : Lands merge store target source .rebase landing) : landing.tip ≠ 0 := by
  have hlast : ∀ {tip last : ObjectId} {commits : List Commit}, Replayed merge tip commits last →
      commits ≠ [] → last ≠ 0 := by
    intro tip last commits hreplayed
    induction hreplayed with
    | nil tip => exact fun hne => absurd rfl hne
    | cons tip last commit commits _ _ hrest ih =>
      intro _
      cases hrest with
      | nil _ => exact hzero commit
      | cons _ _ _ _ _ _ _ => exact ih (by simp)
  cases h with
  | rebase commits tip hne hreplayed => exact hlast hreplayed hne

/-- The branch after a rebase that succeeded: at the landed tip, or as it was if there was nothing
to land. -/
def BranchMoved (state state' : Repo) (branch : String) : Option Landing → Prop
  | none => state'.refs.lookup (branchRef branch) = state.refs.lookup (branchRef branch)
  | some landing => state'.refs.lookup (branchRef branch) = some (.object landing.tip)

/-- The rebase replayed the missing commits onto the target tip, the branch is at the last one,
and it is reported. -/
structure Rebased (state state' : Repo) (request : MergeRequest) (outcome : MergeOutcome)
    (target source : ObjectId) (objects : List ObjectId) (result : Option Landing) : Prop where
  incoming : resolveCommitId gix state request.sourceRef = .ok source
  branch : resolveCommitId gix state (branchRef request.targetBranch) = .ok target
  landing : rebaseLanding gix merge fault request (state.objects gix) target source =
    (objects, .ok result)
  replays : ReplaysMissing gix merge target source result
  moved : BranchMoved state state' request.targetBranch result
  reported : outcome.mergeCommit = (landed target result).tip.toHex

/-- What a rebase that succeeds has done. -/
theorem rebase_eq_ok (hzero : ∀ commit, merge.commitId commit ≠ 0) {state state' : Repo}
    {request : MergeRequest} {outcome : MergeOutcome}
    (h : rebaseRefOntoBranch gix merge fault state request = (state', .ok outcome)) :
    ∃ target source objects result,
      resolveCommitId gix state request.sourceRef = .ok source ∧
      resolveCommitId gix state (branchRef request.targetBranch) = .ok target ∧
      rebaseLanding gix merge fault request (state.objects gix) target source =
        (objects, .ok result) ∧
      BranchMoved state state' request.targetBranch result ∧
      outcome.mergeCommit = (landed target result).tip.toHex := by
  simp only [rebaseRefOntoBranch, mergeWith, landingOf] at h
  cases hsource : resolveCommitId gix state request.sourceRef with
  | error err => simp [hsource] at h
  | ok source =>
    cases htarget : resolveCommitId gix state (branchRef request.targetBranch) with
    | error err => simp [hsource, htarget] at h
    | ok target =>
      simp only [hsource, htarget] at h
      rcases hlanding : rebaseLanding gix merge fault request (state.objects gix) target source
        with ⟨objects, err | _ | landing⟩
      · simp [hlanding, landOn] at h
      · simp only [hlanding, landOn, Prod.mk.injEq, Except.ok.injEq] at h
        obtain ⟨rfl, rfl⟩ := h
        exact ⟨target, source, objects, none, rfl, rfl, hlanding, rfl, rfl⟩
      · have hlands := lands_of_rebaseLanding gix merge fault hlanding
        have htip := tip_ne_zero merge hzero hlands
        simp only [hlanding, landOn] at h
        rcases hmove : moveBranch gix fault (state.addObjects objects).refs
            (branchRef request.targetBranch) target landing.tip with ⟨refs, err | _⟩
        · simp [hmove] at h
        · simp only [hmove, Prod.mk.injEq, Except.ok.injEq] at h
          obtain ⟨rfl, rfl⟩ := h
          exact ⟨target, source, objects, some landing, rfl, rfl, hlanding,
            lookup_of_moveBranch gix fault htip hmove, rfl⟩

theorem refFault_eq_some_iff {refFault : RefFault} :
    MergeFault.refFault fault = some refFault ↔ fault = some (.moveBranch refFault) := by
  rcases fault with _ | _ | other
  · simp [MergeFault.refFault]
  · simp [MergeFault.refFault]
  · simp [MergeFault.refFault]

/-- An accepted transaction that is interrupted leaves the edits written so far. -/
theorem updateRefs_interrupted {refs : RefStore} {updates : List RefUpdate} {edits : List RefEdit}
    (hne : updates ≠ []) (hedits : refEdits gix updates = .ok edits)
    (hprep : Prepared refs edits) (written : Nat) :
    (updateRefs gix (some (.commit written)) refs updates).1 =
      refs.writeAll ((commitOrder edits).take written) := by
  have hempty : updates.isEmpty = false := by simpa using hne
  simp only [updateRefs, hempty, Bool.false_eq_true, if_false, hedits, prepare, hprep,
    not_true_eq_false, or_false, reduceCtorEq, Option.some.injEq, commit]

/-- The move of a branch was interrupted after the branch had changed. -/
def MoveTorn (refs : RefStore) (refName : String) (old new : ObjectId) : Prop :=
  ∃ written, fault = some (.moveBranch (.commit (written + 1))) ∧
    UpdatesAccepted gix refs [⟨refName, old.toHex, new.toHex⟩] ∧
    refs.lookup refName ≠ some (.object new)

/-- A move that fails leaves the branch alone, unless it was interrupted behind its write. -/
theorem lookup_of_moveBranch_error {refs refs' : RefStore} {refName : String} {old new : ObjectId}
    {err : GitError} (hnew : new ≠ 0)
    (h : moveBranch gix fault refs refName old new = (refs', .error err)) :
    refs'.lookup refName = refs.lookup refName ↔ ¬ MoveTorn gix fault refs refName old new := by
  have hone : ∀ {edits : List RefEdit} (written : Nat),
      refEdits gix [⟨refName, old.toHex, new.toHex⟩] = .ok edits → Prepared refs edits →
      (refs.writeAll ((commitOrder edits).take (written + 1))).lookup refName =
        some (.object new) := by
    intro edits written hedits hprep
    obtain ⟨edit, rest, hedit, hrest, rfl⟩ := (refEdits_cons_eq_ok gix).1 hedits
    obtain rfl := Except.ok.inj hrest
    obtain ⟨hname, hresult, -⟩ := refEdit_move gix hedit
    rw [movedValue, if_neg hnew] at hresult
    have horder : commitOrder [edit] = [edit] := by simp [commitOrder, hresult]
    rw [horder, List.take_succ_cons, List.take_nil, ← hname]
    exact (lookup_write_self refs edit).trans hresult
  simp only [moveBranch] at h
  constructor
  · rintro hsame ⟨written, hfault, ⟨edits, hedits, hprep⟩, hchanged⟩
    have hrefs := updateRefs_interrupted gix (List.cons_ne_nil _ _) hedits hprep (written + 1)
    rw [(refFault_eq_some_iff fault).2 hfault] at h
    rw [h] at hrefs
    apply hchanged
    rw [← hsame]
    rw [show refs' = _ from hrefs]
    exact hone written hedits hprep
  · intro hwhole
    have hcase := updateRefs_cases gix (MergeFault.refFault fault) refs
      [⟨refName, old.toHex, new.toHex⟩]
    rw [h] at hcase
    cases hcase with
    | refused _ => rfl
    | interrupted edits written _ hfault hedits hprep =>
      cases written with
      | zero => rfl
      | succ written =>
        by_contra hchanged
        apply hwhole
        refine ⟨written, (refFault_eq_some_iff fault).1 hfault, ⟨edits, hedits, hprep⟩, ?_⟩
        intro hheld
        exact hchanged ((hone written hedits hprep).trans hheld.symm)

/-- The rebase was interrupted after it had moved the branch. -/
def Torn (state : Repo) (request : MergeRequest) : Prop :=
  ∃ target source objects landing,
    resolveCommitId gix state request.sourceRef = .ok source ∧
      resolveCommitId gix state (branchRef request.targetBranch) = .ok target ∧
      rebaseLanding gix merge fault request (state.objects gix) target source =
        (objects, .ok (some landing)) ∧
      MoveTorn gix fault state.refs (branchRef request.targetBranch) target landing.tip

theorem torn_iff {state : Repo} {request : MergeRequest} {target source : ObjectId}
    (hsource : resolveCommitId gix state request.sourceRef = .ok source)
    (htarget : resolveCommitId gix state (branchRef request.targetBranch) = .ok target) :
    Torn gix merge fault state request ↔ ∃ objects landing,
      rebaseLanding gix merge fault request (state.objects gix) target source =
        (objects, .ok (some landing)) ∧
      MoveTorn gix fault state.refs (branchRef request.targetBranch) target landing.tip := by
  constructor
  · rintro ⟨target', source', objects, landing, hsource', htarget', hlanding, htorn⟩
    obtain rfl := Except.ok.inj (hsource.symm.trans hsource')
    obtain rfl := Except.ok.inj (htarget.symm.trans htarget')
    exact ⟨objects, landing, hlanding, htorn⟩
  · rintro ⟨objects, landing, hlanding, htorn⟩
    exact ⟨target, source, objects, landing, hsource, htarget, hlanding, htorn⟩

/-- A rebase that fails leaves the branch alone, unless it was interrupted behind the move. -/
theorem rebase_error (hzero : ∀ commit, merge.commitId commit ≠ 0) {state state' : Repo}
    {request : MergeRequest} {err : GitError}
    (h : rebaseRefOntoBranch gix merge fault state request = (state', .error err)) :
    state'.refs.lookup (branchRef request.targetBranch) =
        state.refs.lookup (branchRef request.targetBranch) ↔
      ¬ Torn gix merge fault state request := by
  simp only [rebaseRefOntoBranch, mergeWith, landingOf] at h
  cases hsource : resolveCommitId gix state request.sourceRef with
  | error other =>
    simp only [hsource, Prod.mk.injEq] at h
    simp only [← h.1, Torn, hsource, reduceCtorEq, false_and, exists_false, not_false_eq_true]
  | ok source =>
    cases htarget : resolveCommitId gix state (branchRef request.targetBranch) with
    | error other =>
      simp only [hsource, htarget, Prod.mk.injEq] at h
      simp only [← h.1, Torn, htarget, reduceCtorEq, false_and, and_false, exists_false,
        not_false_eq_true]
    | ok target =>
      simp only [hsource, htarget] at h
      rw [torn_iff gix merge fault hsource htarget]
      rcases hlanding : rebaseLanding gix merge fault request (state.objects gix) target source
        with ⟨objects, other | _ | landing⟩
      · simp only [hlanding, landOn, Prod.mk.injEq] at h
        rw [← h.1]
        simp [Repo.addObjects]
      · simp [hlanding, landOn] at h
      · have htip := tip_ne_zero merge hzero (lands_of_rebaseLanding gix merge fault hlanding)
        simp only [hlanding, landOn] at h
        rcases hmove : moveBranch gix fault (state.addObjects objects).refs
            (branchRef request.targetBranch) target landing.tip with ⟨refs, other | _⟩
        · simp only [hmove, Prod.mk.injEq] at h
          obtain ⟨rfl, -⟩ := h
          have hmoved : refs.lookup (branchRef request.targetBranch) =
              state.refs.lookup (branchRef request.targetBranch) ↔
              ¬ MoveTorn gix fault state.refs (branchRef request.targetBranch) target
                landing.tip := lookup_of_moveBranch_error gix fault htip hmove
          apply hmoved.trans
          constructor
          · rintro hwhole ⟨objects', landing', heq, htorn⟩
            obtain ⟨-, hsome⟩ := Prod.mk.inj heq
            obtain rfl := Option.some.inj (Except.ok.inj hsome)
            exact hwhole htorn
          · intro hwhole htorn
            exact hwhole ⟨objects, landing, rfl, htorn⟩
        · simp [hmove] at h

/-- When a rebase of the resolved commits meets the target where it should. -/
def MeetsTarget (state : Repo) (request : MergeRequest) : Prop :=
  ∀ target source base, resolveCommitId gix state request.sourceRef = .ok source →
    resolveCommitId gix state (branchRef request.targetBranch) = .ok target →
    merge.mergeBase (state.objects gix) source target = some base →
    BaseOnChain gix base target source

/-- A rebase that succeeds replays exactly the commits on the first-parent chain of the source
that the target does not reach, when and only when the merge base lies on that chain or the target
reaches no commit of it. One that fails leaves the target branch alone, unless the move of the
branch is interrupted behind its write. -/
theorem rebase_replays_missing_iff (law : MergeBaseLaw gix.content merge.mergeBase)
    (hzero : ∀ commit, merge.commitId commit ≠ 0) (state : Repo) (request : MergeRequest) :
    (∀ state' outcome,
        rebaseRefOntoBranch gix merge fault state request = (state', .ok outcome) →
        ((∃ target source objects result,
            Rebased gix merge fault state state' request outcome target source objects result) ↔
          MeetsTarget gix merge state request)) ∧
      ∀ state' err,
        rebaseRefOntoBranch gix merge fault state request = (state', .error err) →
        (state'.refs.lookup (branchRef request.targetBranch) =
            state.refs.lookup (branchRef request.targetBranch) ↔
          ¬ Torn gix merge fault state request) := by
  constructor
  · intro state' outcome h
    obtain ⟨target, source, objects, result, hsource, htarget, hlanding, hmoved, hreported⟩ :=
      rebase_eq_ok gix merge fault hzero h
    obtain ⟨base, -, hbase, -⟩ := replayedAs_of_rebaseLanding gix merge fault hlanding
    have hiff := replaysMissing_iff gix merge fault law hbase hlanding
    constructor
    · rintro ⟨target', source', objects', result', hrebased⟩
      intro target'' source'' base' hsource'' htarget'' hbase'
      obtain rfl := Except.ok.inj (hsource.symm.trans hsource'')
      obtain rfl := Except.ok.inj (htarget.symm.trans htarget'')
      obtain rfl := Option.some.inj (hbase.symm.trans hbase')
      obtain rfl := Except.ok.inj (hsource.symm.trans hrebased.incoming)
      obtain rfl := Except.ok.inj (htarget.symm.trans hrebased.branch)
      obtain ⟨-, hresult⟩ := Prod.mk.inj (hlanding.symm.trans hrebased.landing)
      obtain rfl := Except.ok.inj hresult
      exact hiff.1 hrebased.replays
    · intro hmeets
      have hreplays := hiff.2 (hmeets target source base hsource htarget hbase)
      exact ⟨target, source, objects, result, hsource, htarget, hlanding, hreplays, hmoved,
        hreported⟩
  · intro state' err h
    exact rebase_error gix merge fault hzero h

end Rebase

/-! ## A source that has merged the target -/

def ada : Signature := ⟨"ada", "ada@example.org", some 0⟩

/-- A commit of the empty tree 9. -/
def adaCommit (message : String) (parents : List ObjectId) : Commit :=
  ⟨9, parents, some ada, some ada, none, message, []⟩

/-- The commit 1 is the root; the target is at 2 and the source at 3, both on top of it; 4 merges
the target into the source. The commits from 5 on are what rebases of the source write. -/
def mergedGix : Gix where
  content := fun id =>
    if id = 1 then .commit (some (adaCommit "root" []))
    else if id = 2 then .commit (some (adaCommit "target" [1]))
    else if id = 3 then .commit (some (adaCommit "source" [1]))
    else if id = 4 then .commit (some (adaCommit "merge" [3, 2]))
    else if id = 5 then .commit (some (adaCommit "root" [2]))
    else if id = 6 then .commit (some (adaCommit "source" [5]))
    else if id = 7 then .commit (some (adaCommit "merge" [6]))
    else if id = 8 then .commit (some (adaCommit "source" [2]))
    else .tree (some [])
  packObjects := fun _ => []
  writeToDirectory := fun _ _ => .error "bad header"
  validateRefName := fun _ => none
  debug := fun text => "\"" ++ text ++ "\""
  transactionError := fun _ _ => "the reference has moved"
  ioError := "input/output error"

def mergedMerge : GixMerge where
  diffTreeToTree := fun _ _ _ => .ok []
  mergeBase := fun _ a b =>
    if a = 4 ∧ b = 2 then some 2 else if a = 3 ∧ b = 2 then some 1 else none
  histogramHunks := fun _ _ => []
  rawData := fun _ => []
  mergeCommits := fun _ _ _ _ _ => .ok ⟨0, false, 9, []⟩
  mergeTrees := fun _ _ _ _ _ => .ok ⟨0, false, 9, []⟩
  commitId := fun commit =>
    if commit.message = "root" then 5
    else if commit.message = "merge" then 7
    else if commit.parents = [5] then 6 else 8
  emptyTree := 9
  mergeBaseError := "no merge base"

def mergedRepo : Repo where
  disk := ⟨[1, 2, 3, 4, 9], [], []⟩
  refs := ((∅ : RefStore).insert "refs/heads/main" (.object 2)).insert "refs/heads/topic"
    (.object 4) |>.insert "refs/heads/early" (.object 3)

def rebaseOf (sourceRef : String) : MergeRequest :=
  ⟨sourceRef, "topic", "main", "ada", "ada@example.org", "", 0⟩

theorem ancestor_root {id : ObjectId} (h : Ancestor mergedGix.content id 1) : id = 1 := by
  have hone : parentsOf mergedGix.content 1 = [] := by decide
  rcases Relation.ReflTransGen.cases_head h with heq | ⟨next, hnext, -⟩
  · exact heq.symm
  · rw [hone] at hnext
    simp at hnext

/-- What the target and the early source reach: themselves and the root. -/
theorem ancestor_of_root {tip id : ObjectId} (htip : parentsOf mergedGix.content tip = [1])
    (h : Ancestor mergedGix.content id tip) : id = tip ∨ id = 1 := by
  rcases Relation.ReflTransGen.cases_head h with heq | ⟨next, hnext, hrest⟩
  · exact Or.inl heq.symm
  · rw [htip, List.mem_singleton] at hnext
    rw [hnext] at hrest
    exact Or.inr (ancestor_root hrest)

theorem mergedMerge_law : MergeBaseLaw mergedGix.content mergedMerge.mergeBase := by
  have htwo : parentsOf mergedGix.content 2 = [1] := by decide
  have hthree : parentsOf mergedGix.content 3 = [1] := by decide
  have hfour : (2 : ObjectId) ∈ parentsOf mergedGix.content 4 := by decide
  have hcases : ∀ store a b base, mergedMerge.mergeBase store a b = some base →
      (a = 4 ∧ b = 2 ∧ base = 2) ∨ (a = 3 ∧ b = 2 ∧ base = 1) := by
    intro store a b base h
    simp only [mergedMerge] at h
    split at h
    · rename_i hab
      exact Or.inl ⟨hab.1, hab.2, (Option.some.inj h).symm⟩
    · split at h
      · rename_i hab
        exact Or.inr ⟨hab.1, hab.2, (Option.some.inj h).symm⟩
      · exact absurd h (by simp)
  constructor
  · intro store a b base h
    rcases hcases store a b base h with ⟨rfl, rfl, rfl⟩ | ⟨rfl, rfl, rfl⟩
    · exact ⟨.single hfour, .refl⟩
    · exact ⟨.single (by rw [hthree]; exact List.mem_singleton.2 rfl),
        .single (by rw [htwo]; exact List.mem_singleton.2 rfl)⟩
  · intro store a b base h id ha hb hbelow
    rcases hcases store a b base h with ⟨rfl, rfl, rfl⟩ | ⟨rfl, rfl, rfl⟩
    · rcases ancestor_of_root htwo hb with rfl | rfl
      · rfl
      · exact absurd (ancestor_root hbelow) (by decide)
    · rcases ancestor_of_root htwo hb with rfl | rfl
      · exact absurd (ancestor_of_root hthree ha) (by decide)
      · rfl

theorem mergedMerge_commitId (commit : Commit) : mergedMerge.commitId commit ≠ 0 := by
  simp only [mergedMerge]
  repeat' split
  all_goals decide

/-- The first-parent chain of the merge leads over the source to the root, past the target. -/
theorem onChain_four {id : ObjectId} (h : OnChain mergedGix.content 4 id) :
    id = 4 ∨ id = 3 ∨ id = 1 := by
  have hfour : FirstParent mergedGix.content 4 3 := by decide
  have hthree : FirstParent mergedGix.content 3 1 := by decide
  have hone : parentsOf mergedGix.content 1 = [] := by decide
  rcases h.cases mergedGix.content hfour with heq | h
  · exact Or.inl heq
  · rcases h.cases mergedGix.content hthree with heq | h
    · exact Or.inr (Or.inl heq)
    · exact Or.inr (Or.inr (h.eq_of_root mergedGix.content hone))

/-- The root, which the target reaches, is replayed. -/
theorem merged_source_replays_root :
    ∃ state' outcome, rebaseRefOntoBranch mergedGix mergedMerge none mergedRepo
        (rebaseOf "refs/heads/topic") = (state', .ok outcome) ∧
      ¬ ∃ target source objects result, Rebased mergedGix mergedMerge none mergedRepo state'
        (rebaseOf "refs/heads/topic") outcome target source objects result := by
  have hout : (rebaseRefOntoBranch mergedGix mergedMerge none mergedRepo
      (rebaseOf "refs/heads/topic")).2 = .ok ⟨(7 : ObjectId).toHex⟩ := by decide +kernel
  have hsource : resolveCommitId mergedGix mergedRepo "refs/heads/topic" = .ok 4 := by decide
  have htarget : resolveCommitId mergedGix mergedRepo (branchRef "main") = .ok 2 := by decide
  refine ⟨_, _, Prod.ext rfl hout, ?_⟩
  rintro ⟨target, source, objects, result, hrebased⟩
  obtain rfl := Except.ok.inj (hsource.symm.trans hrebased.incoming)
  obtain rfl := Except.ok.inj (htarget.symm.trans hrebased.branch)
  have hbase : mergedMerge.mergeBase (mergedRepo.objects mergedGix) 4 2 = some 2 := rfl
  rcases (replaysMissing_iff mergedGix mergedMerge none mergedMerge_law hbase
    hrebased.landing).1 hrebased.replays with hon | hnone
  · exact absurd (onChain_four hon) (by decide)
  · have hchain : OnChain mergedGix.content 4 1 := by
      have hfour : FirstParent mergedGix.content 4 3 := by decide
      have hthree : FirstParent mergedGix.content 3 1 := by decide
      exact .head hfour (.head hthree .refl)
    have hreached : Ancestor mergedGix.content 1 2 := by
      have htwo : (1 : ObjectId) ∈ parentsOf mergedGix.content 2 := by decide
      exact .single htwo
    exact hnone 1 hchain hreached

/-- Before the target was merged into it, the source is rebased as it should be. -/
theorem early_source_is_rebased :
    ∃ state' outcome, rebaseRefOntoBranch mergedGix mergedMerge none mergedRepo
        (rebaseOf "refs/heads/early") = (state', .ok outcome) ∧
      ∃ target source objects result, Rebased mergedGix mergedMerge none mergedRepo state'
        (rebaseOf "refs/heads/early") outcome target source objects result := by
  have hout : (rebaseRefOntoBranch mergedGix mergedMerge none mergedRepo
      (rebaseOf "refs/heads/early")).2 = .ok ⟨(8 : ObjectId).toHex⟩ := by decide +kernel
  have hsource : resolveCommitId mergedGix mergedRepo "refs/heads/early" = .ok 3 := by decide
  have htarget : resolveCommitId mergedGix mergedRepo (branchRef "main") = .ok 2 := by decide
  have hmeets : MeetsTarget mergedGix mergedMerge mergedRepo (rebaseOf "refs/heads/early") := by
    intro target source base hsource' htarget' hbase
    obtain rfl := Except.ok.inj (hsource.symm.trans hsource')
    obtain rfl := Except.ok.inj (htarget.symm.trans htarget')
    obtain rfl := Option.some.inj ((rfl : some (1 : ObjectId) = _).trans hbase)
    have hthree : FirstParent mergedGix.content 3 1 := by decide
    exact Or.inl (.single hthree)
  have hreplays := (rebase_replays_missing_iff mergedGix mergedMerge none mergedMerge_law
    mergedMerge_commitId mergedRepo (rebaseOf "refs/heads/early")).1 _ _ (Prod.ext rfl hout)
  exact ⟨_, _, Prod.ext rfl hout, hreplays.2 hmeets⟩

end Edda.Git
