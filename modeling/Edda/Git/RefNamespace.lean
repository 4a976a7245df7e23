import Edda.Git.Merge
import Edda.Git.RefSerialization

/-!
# The ref namespace over runs

A repository is written by pushes, by imports of fork tips and by merges. Its `HEAD` names a branch,
its branches hold commits, and the internal refs belong to the imports. Nothing but the ref
transaction looks at the names and the kinds of what a push writes.

`namespace_of_inOrder` says which pushes keep the namespace, over every run: those that reach their
transaction with no deletion of `HEAD` out of nothing, no branch at an object of another kind, and
no change of an internal ref.
-/

set_option autoImplicit false

namespace Edda.Git

open Edda.Domain Edda.Support.RustText

/-! ## Names -/

def IsBranchRef (name : String) : Prop := ∃ branch, name = branchRef branch

/-- The refs of the server's own bookkeeping. -/
def IsInternalRef (name : String) : Prop := ∃ rest, name = "refs/edda/" ++ rest

/-- The ref that the tip of a fork is imported to, for the pull request with the id `pull`. -/
def pullHeadRef (pull : String) : String := "refs/edda/pull-heads/" ++ pull

theorem isInternalRef_pullHeadRef (pull : String) : IsInternalRef (pullHeadRef pull) := by
  refine ⟨"pull-heads/" ++ pull, ?_⟩
  rw [← String.append_assoc]
  rfl

theorem not_isBranchRef_head : ¬ IsBranchRef "HEAD" := by
  rintro ⟨branch, h⟩
  have htext := congrArg String.toList h
  simp [branchRef, String.toList_append] at htext

theorem not_isInternalRef_head : ¬ IsInternalRef "HEAD" := by
  rintro ⟨rest, h⟩
  have htext := congrArg String.toList h
  simp [String.toList_append] at htext

theorem IsInternalRef.not_isBranchRef {name : String} (h : IsInternalRef name) :
    ¬ IsBranchRef name := by
  obtain ⟨rest, rfl⟩ := h
  rintro ⟨branch, h⟩
  have htext := congrArg String.toList h
  simp [branchRef, String.toList_append] at htext

section Run

variable (gix : Gix) (merge : GixMerge)

/-- `HEAD` is a symbolic ref to a branch, and every branch holds the id of a commit. -/
structure Namespace (refs : RefStore) : Prop where
  head : ∃ branch, refs.lookup "HEAD" = some (.symbolic (branchRef branch))
  commits : ∀ branch target, refs.lookup (branchRef branch) = some target →
    ∃ id, target = .object id ∧ (gix.content id).kind = .commit

/-- A fresh bare repository: an empty store, and a `HEAD` that names a branch. -/
def Initialised (state : Repo) : Prop :=
  state.disk = ⟨[], [], []⟩ ∧
    ∃ branch, state.refs = (∅ : RefStore).insert "HEAD" (.symbolic (branchRef branch))

/-- One write to a repository, with what the file system fails at. -/
inductive RepoStep where
  | push (commands : List RefCommand) (packData : Bytes) (checks : ReceiveChecks)
      (fault : Option Fault)
  | importTip (src : Repo) (sourceBranch pull : String) (fault : Option ImportFault)
  | mergePull (strategy : MergeStrategy) (request : MergeRequest) (fault : Option MergeFault)

/-- The repository after a step. -/
def RepoStep.run (state : Repo) : RepoStep → Repo
  | .push commands packData checks fault =>
    (applyReceivePack gix fault state commands packData checks).1
  | .importTip src sourceBranch pull fault =>
    (importBranchTip gix fault src state sourceBranch (pullHeadRef pull)).1
  | .mergePull strategy request fault =>
    (mergePullRequest gix merge fault state strategy request).1

def runSteps (state : Repo) : List RepoStep → Repo
  | [] => state
  | step :: steps => runSteps (step.run gix merge state) steps

/-- Only an import changes an internal ref, and only the one it imports to. -/
def InternalKept (state : Repo) (step : RepoStep) : Prop :=
  ∀ name, IsInternalRef name →
    (step.run gix merge state).refs.lookup name = state.refs.lookup name ∨
      ∃ src sourceBranch pull fault, step = .importTip src sourceBranch pull fault ∧
        name = pullHeadRef pull

/-! ## What a push may write -/

/-- The value a command writes, if its text is one. -/
def commandValue (command : RefCommand) : Option Target :=
  if command.newId = zeroId then none else (ObjectId.fromHex command.newId).map .object

/-- The command respects the namespace. -/
structure CommandInOrder (refs : RefStore) (command : RefCommand) : Prop where
  head : command.refName = "HEAD" → ¬ (command.oldId = zeroId ∧ command.newId = zeroId)
  branch : IsBranchRef command.refName → ∀ id, commandValue command = some (.object id) →
    (gix.content id).kind = .commit
  internal : IsInternalRef command.refName →
    refs.lookup command.refName = commandValue command

/-- The push passes its checks, and its transaction is accepted. -/
def ReachesRefs (state : Repo) (commands : List RefCommand) (packData : Bytes)
    (checks : ReceiveChecks) (fault : Option Fault) : Prop :=
  (∃ pack, Promoted gix fault state commands packData checks pack ∧
    historyReason gix fault state commands checks pack = none) ∧
  UpdatesAccepted gix state.refs (refUpdates commands)

/-- A push that reaches the refs respects the namespace with every command. -/
def RepoStep.InOrder (state : Repo) : RepoStep → Prop
  | .push commands packData checks fault =>
    ReachesRefs gix state commands packData checks fault →
      ∀ command ∈ commands, CommandInOrder gix state.refs command
  | .importTip _ _ _ _ => True
  | .mergePull _ _ _ => True

/-! ## Pushes -/

variable {gix}

/-- The edit of a command that respects the namespace. -/
theorem edit_inOrder {refs : RefStore} {commands : List RefCommand} {edits : List RefEdit}
    (hedits : refEdits gix (refUpdates commands) = .ok edits)
    (horder : ∀ command ∈ commands, CommandInOrder gix refs command) {edit : RefEdit}
    (hmem : edit ∈ edits) :
    (edit.name = "HEAD" → ∀ name, edit.accepts (some (.symbolic name)) = false) ∧
      (IsBranchRef edit.name → ∀ target, edit.result = some target →
        ∃ id, target = .object id ∧ (gix.content id).kind = .commit) ∧
      (IsInternalRef edit.name → refs.lookup edit.name = edit.result) := by
  obtain ⟨update, hupdate, hedit⟩ := exists_update_of_edit gix hedits hmem
  obtain ⟨command, hcommand, rfl⟩ := List.mem_map.1 hupdate
  obtain ⟨hname, -, hresult, hexpected⟩ := refEdit_eq_ok gix hedit
  have hvalue : edit.result = commandValue command := by
    simp only [commandValue]
    by_cases hnew : command.newId = zeroId
    · rw [if_pos hnew] at hresult ⊢
      exact hresult
    · rw [if_neg hnew] at hresult ⊢
      obtain ⟨id, hid, hobject⟩ := hresult
      rw [hobject, hid]
      rfl
  have hwithin := horder command hcommand
  simp only at hname
  rw [hname]
  refine ⟨?_, ?_, ?_⟩
  · intro hhead name
    by_cases hold : command.oldId = zeroId
    · have hnew : command.newId ≠ zeroId := fun hnew => hwithin.head hhead ⟨hold, hnew⟩
      rw [if_pos hold, if_neg hnew] at hexpected
      rw [if_neg hnew] at hresult
      obtain ⟨id, -, hobject⟩ := hresult
      simp [RefEdit.accepts, hexpected, hobject]
    · rw [if_neg hold] at hexpected
      obtain ⟨id, -, hmatch⟩ := hexpected
      simp [RefEdit.accepts, hmatch]
  · intro hbranch target htarget
    rw [hvalue] at htarget
    have hobject : ∃ id, target = .object id := by
      simp only [commandValue] at htarget
      split at htarget
      · cases htarget
      · obtain ⟨id, -, rfl⟩ := Option.map_eq_some_iff.1 htarget
        exact ⟨id, rfl⟩
    obtain ⟨id, rfl⟩ := hobject
    exact ⟨id, rfl, hwithin.branch hbranch id htarget⟩
  · intro hinternal
    rw [hvalue]
    exact hwithin.internal hinternal

/-- Accepted edits that respect the namespace keep it, however many of them are written. -/
theorem Namespace.writeAll {refs : RefStore} (h : Namespace gix refs) {commands : List RefCommand}
    {edits written : List RefEdit} (hedits : refEdits gix (refUpdates commands) = .ok edits)
    (hprep : Prepared refs edits) (hwritten : ∀ edit ∈ written, edit ∈ edits)
    (horder : ∀ command ∈ commands, CommandInOrder gix refs command) :
    Namespace gix (refs.writeAll written) ∧
      ∀ name, IsInternalRef name → (refs.writeAll written).lookup name = refs.lookup name := by
  refine ⟨⟨?_, ?_⟩, ?_⟩
  · obtain ⟨branch, hhead⟩ := h.head
    rcases lookup_writeAll_cases written refs "HEAD" with hsame | ⟨edit, hmem, hname, -⟩
    · exact ⟨branch, hsame.trans hhead⟩
    · -- a symbolic HEAD accepts no edit
      have haccepts := hprep.2 edit (hwritten edit hmem)
      rw [hname, hhead, (edit_inOrder hedits horder (hwritten edit hmem)).1 hname] at haccepts
      cases haccepts
  · intro branch target htarget
    rcases lookup_writeAll_cases written refs (branchRef branch) with
      hsame | ⟨edit, hmem, hname, hresult⟩
    · exact h.commits branch target (hsame.symm.trans htarget)
    · exact (edit_inOrder hedits horder (hwritten edit hmem)).2.1 ⟨branch, hname⟩ target
        (hresult.symm.trans htarget)
  · intro name hinternal
    rcases lookup_writeAll_cases written refs name with hsame | ⟨edit, hmem, hname, hresult⟩
    · exact hsame
    · subst hname
      rw [hresult]
      exact ((edit_inOrder hedits horder (hwritten edit hmem)).2.2 hinternal).symm

/-- The repair of `HEAD` writes `HEAD` only, and points it at a branch. -/
theorem fixUnbornHead_cases (refs : RefStore) :
    fixUnbornHead gix refs = refs ∨
      ∃ branch, fixUnbornHead gix refs = refs.insert "HEAD" (.symbolic (branchRef branch)) := by
  simp only [fixUnbornHead]
  split
  · split
    · exact Or.inl rfl
    · split
      · exact Or.inl rfl
      · rename_i branch _
        split
        · rename_i target htarget
          right
          refine ⟨branch, ?_⟩
          simp only [fullName] at htarget
          split at htarget
          · cases htarget
          · rw [← Except.ok.inj htarget]
            rfl
        · exact Or.inl rfl
  · exact Or.inl rfl

theorem lookup_fixUnbornHead {refs : RefStore} {name : String} (h : name ≠ "HEAD") :
    (fixUnbornHead gix refs).lookup name = refs.lookup name := by
  rcases @fixUnbornHead_cases gix refs with heq | ⟨branch, heq⟩
  · rw [heq]
  · rw [heq]
    exact AList.lookup_insert_ne h

theorem Namespace.fixUnbornHead {refs : RefStore} (h : Namespace gix refs) :
    Namespace gix (fixUnbornHead gix refs) where
  head := by
    rcases @fixUnbornHead_cases gix refs with heq | ⟨branch, heq⟩
    · rw [heq]
      exact h.head
    · rw [heq]
      exact ⟨branch, AList.lookup_insert refs⟩
  commits := by
    intro branch target htarget
    have hne : branchRef branch ≠ "HEAD" := fun heq => not_isBranchRef_head ⟨branch, heq.symm⟩
    rw [lookup_fixUnbornHead hne] at htarget
    exact h.commits branch target htarget

/-- A push that respects the namespace keeps it. -/
theorem Namespace.push {state : Repo} (h : Namespace gix state.refs) {commands : List RefCommand}
    {packData : Bytes} {checks : ReceiveChecks} {fault : Option Fault}
    (horder : ReachesRefs gix state commands packData checks fault →
      ∀ command ∈ commands, CommandInOrder gix state.refs command) :
    Namespace gix (applyReceivePack gix fault state commands packData checks).1.refs ∧
      ∀ name, IsInternalRef name →
        (applyReceivePack gix fault state commands packData checks).1.refs.lookup name =
          state.refs.lookup name := by
  simp only [applyReceivePack]
  split
  · exact ⟨h, fun _ _ => rfl⟩
  · have hcase := receiveBlocking_cases gix fault state commands packData checks
    generalize receiveBlocking gix fault state commands packData checks = out at hcase
    cases hcase with
    | failed err _ => exact ⟨h, fun _ _ => rfl⟩
    | refused reason _ => exact ⟨h, fun _ _ => rfl⟩
    | halfPromoted name reason _ _ => exact ⟨h, fun _ _ => rfl⟩
    | unopened pack reason _ _ _ => exact ⟨h, fun _ _ => rfl⟩
    | rejected pack reason _ _ => exact ⟨h, fun _ _ => rfl⟩
    | notUpdated pack refs err hpromoted hreason hupdate =>
      have hcases := updateRefs_cases gix (refFault fault) state.refs (refUpdates commands)
      rw [hupdate] at hcases
      cases hcases with
      | refused err => exact ⟨h, fun _ _ => rfl⟩
      | interrupted edits written err hfault hedits hprep =>
        refine h.writeAll hedits hprep ?_ (horder ⟨⟨pack, hpromoted, hreason⟩, edits, hedits, hprep⟩)
        intro edit hmem
        exact mem_commitOrder.1 (List.mem_of_mem_take hmem)
    | landed pack refs hpromoted hreason hupdate =>
      have hcases := updateRefs_cases gix (refFault fault) state.refs (refUpdates commands)
      rw [hupdate] at hcases
      cases hcases with
      | applied edits hedits hprep =>
        have hkept := h.writeAll hedits hprep (fun edit hmem => mem_commitOrder.1 hmem)
          (horder ⟨⟨pack, hpromoted, hreason⟩, edits, hedits, hprep⟩)
        simp only
        split
        · exact hkept
        · refine ⟨hkept.1.fixUnbornHead, ?_⟩
          intro name hinternal
          have hne : name ≠ "HEAD" := fun heq => not_isInternalRef_head (heq ▸ hinternal)
          rw [lookup_fixUnbornHead hne]
          exact hkept.2 name hinternal

/-- The commands of a fault-free push that reaches the refs are all written. -/
theorem lookup_of_reachesRefs {state : Repo} {commands : List RefCommand} {packData : Bytes}
    {checks : ReceiveChecks} (h : ReachesRefs gix state commands packData checks none)
    {command : RefCommand} (hmem : command ∈ commands) :
    ∃ refs, refs.lookup command.refName = commandValue command ∧
      (applyReceivePack gix none state commands packData checks).1.refs =
        fixUnbornHead gix refs := by
  obtain ⟨⟨pack, hpromoted, hreason⟩, haccepted⟩ := h
  have hne : commands.isEmpty = false := by
    cases commands with
    | nil => simp at hmem
    | cons _ _ => rfl
  simp only [applyReceivePack, hne, Bool.false_eq_true, if_false]
  have hcase := receiveBlocking_cases gix none state commands packData checks
  generalize receiveBlocking gix none state commands packData checks = out at hcase
  have hok := (updateRefs_eq_ok_iff gix state.refs (refUpdates commands)).2 haccepted
  cases hcase with
  | failed err hquarantine =>
    obtain ⟨quarantine, hready, -⟩ := hpromoted.ready
    rw [hquarantine] at hready
    cases hready
  | refused reason hnot =>
    rcases hnot with hnot | hfault
    · exact absurd hpromoted.ready (hnot pack)
    · cases hfault
  | halfPromoted name reason _ hfault => cases hfault
  | unopened pack' reason _ _ hfault => cases hfault
  | rejected pack' reason hpromoted' hreason' =>
    rw [hpromoted.ready.unique gix none state commands packData checks hpromoted'.ready] at hreason
    rw [hreason] at hreason'
    cases hreason'
  | notUpdated pack' refs err _ _ hupdate =>
    simp only [refFault] at hupdate
    rw [hupdate] at hok
    cases hok
  | landed pack' refs _ _ hupdate =>
    refine ⟨refs, ?_, rfl⟩
    have hcases := updateRefs_cases gix (refFault none) state.refs (refUpdates commands)
    rw [hupdate] at hcases
    cases hcases with
    | applied edits hedits hprep =>
      have hnamed := namedValue_written gix hedits hprep
        (List.mem_map.2 ⟨command, hmem, rfl⟩ : RefUpdate.mk command.refName command.oldId
          command.newId ∈ refUpdates commands)
      simp only [NamedValue] at hnamed
      simp only [commandValue]
      split
      · rename_i hzero
        rw [if_pos hzero] at hnamed
        exact hnamed
      · rename_i hzero
        rw [if_neg hzero] at hnamed
        obtain ⟨id, hid, hlookup⟩ := hnamed
        rw [hlookup, hid]
        rfl

/-- A fault-free push keeps the namespace exactly when it respects it. -/
theorem push_inOrder_iff {state : Repo} (h : Namespace gix state.refs) (commands : List RefCommand)
    (packData : Bytes) (checks : ReceiveChecks) :
    RepoStep.InOrder gix state (.push commands packData checks none) ↔
      Namespace gix (applyReceivePack gix none state commands packData checks).1.refs ∧
        ∀ name, IsInternalRef name →
          (applyReceivePack gix none state commands packData checks).1.refs.lookup name =
            state.refs.lookup name := by
  constructor
  · intro horder
    exact h.push horder
  · rintro ⟨hafter, hinternal⟩ hreaches command hmem
    obtain ⟨refs, hwritten, hrefs⟩ := lookup_of_reachesRefs hreaches hmem
    rw [hrefs] at hafter hinternal
    refine ⟨?_, ?_, ?_⟩
    · rintro hname ⟨-, hnew⟩
      -- with HEAD deleted there is nothing to repair
      rw [hname, commandValue, if_pos hnew] at hwritten
      have hnone : fixUnbornHead gix refs = refs := by
        simp only [fixUnbornHead, hwritten]
      obtain ⟨branch, hhead⟩ := hafter.head
      rw [hnone, hwritten] at hhead
      cases hhead
    · rintro ⟨branch, hname⟩ id hid
      have hne : branchRef branch ≠ "HEAD" := fun heq => not_isBranchRef_head ⟨branch, heq.symm⟩
      rw [hname, hid] at hwritten
      obtain ⟨id', heq, hkind⟩ := hafter.commits branch (.object id) (by
        rw [lookup_fixUnbornHead hne, hwritten])
      cases heq
      exact hkind
    · intro hname
      have hne : command.refName ≠ "HEAD" := fun heq => not_isInternalRef_head (heq ▸ hname)
      rw [← hinternal command.refName hname, lookup_fixUnbornHead hne, hwritten]

/-! ## Imports and merges -/

/-- A forced update writes its own ref only. -/
theorem lookup_forceSetRef {fault : Option RefFault} {refs : RefStore} {name other : String}
    {new : ObjectId} (hne : other ≠ name) :
    (forceSetRef gix fault refs name new).1.lookup other = refs.lookup other := by
  have hwrite : ∀ edits : List RefEdit, (∀ edit ∈ edits, edit.name = name) →
      (refs.writeAll edits).lookup other = refs.lookup other := by
    intro edits hedits
    refine lookup_writeAll_of_not_mem edits refs ?_
    intro hmem
    obtain ⟨edit, hedit, heq⟩ := List.mem_map.1 hmem
    exact hne (heq.symm.trans (hedits edit hedit))
  simp only [forceSetRef]
  split
  · rfl
  · rename_i full hfull
    have hname : full = name := by
      simp only [fullName] at hfull
      split at hfull
      · cases hfull
      · exact (Except.ok.inj hfull).symm
    subst hname
    split
    · rfl
    · simp only [commit]
      split
      · refine hwrite _ ?_
        intro edit hedit
        have hmem := mem_commitOrder.1 (List.mem_of_mem_take hedit)
        rw [List.mem_singleton.1 hmem]
      · refine hwrite _ ?_
        intro edit hedit
        rw [List.mem_singleton.1 (mem_commitOrder.1 hedit)]

theorem lookup_importBranchTip {fault : Option ImportFault} {src dst : Repo}
    {sourceBranch destRef name : String} (hne : name ≠ destRef) :
    (importBranchTip gix fault src dst sourceBranch destRef).1.refs.lookup name =
      dst.refs.lookup name := by
  simp only [importBranchTip]
  split
  · rfl
  · rename_i tip _
    split
    · rfl
    · have hset := @lookup_forceSetRef gix (ImportFault.refFault fault) dst.refs destRef name tip hne
      split <;> rename_i hforce <;> rw [hforce] at hset <;> exact hset

variable {merge}

theorem kind_of_replayed (hids : ∀ commit, (gix.content (merge.commitId commit)).kind = .commit)
    {tip last : ObjectId} {commits : List Commit} (h : Replayed merge tip commits last)
    (hne : commits ≠ []) : (gix.content last).kind = .commit := by
  induction h with
  | nil tip => exact absurd rfl hne
  | cons tip last commit commits _ _ hrest ih =>
    cases hrest with
    | nil => exact hids commit
    | cons _ _ _ _ _ _ _ => exact ih (by simp)

/-- What a strategy lands on is a commit. -/
theorem kind_of_lands (hids : ∀ commit, (gix.content (merge.commitId commit)).kind = .commit)
    {store : Store} {target source : ObjectId} {strategy : MergeStrategy} {landing : Landing}
    (hsource : (gix.content source).kind = .commit)
    (h : Lands merge store target source strategy landing) :
    (gix.content landing.tip).kind = .commit := by
  cases h with
  | merge commit _ _ => exact hids commit
  | squash commit _ _ => exact hids commit
  | rebase commits tip hne hreplayed => exact kind_of_replayed hids hreplayed hne
  | fastForward _ _ => exact hsource

theorem Namespace.mergePull {state : Repo} (h : Namespace gix state.refs)
    (hids : ∀ commit, (gix.content (merge.commitId commit)).kind = .commit)
    (strategy : MergeStrategy) (request : MergeRequest) (fault : Option MergeFault) :
    Namespace gix (mergePullRequest gix merge fault state strategy request).1.refs ∧
      ∀ name, IsInternalRef name →
        (mergePullRequest gix merge fault state strategy request).1.refs.lookup name =
          state.refs.lookup name := by
  have hcase := mergePullRequest_cases gix merge fault state strategy request
  generalize (mergePullRequest gix merge fault state strategy request).1 = after at hcase
  cases hcase with
  | kept hsame =>
    refine ⟨⟨?_, ?_⟩, fun name _ => hsame name⟩
    · obtain ⟨branch, hhead⟩ := h.head
      exact ⟨branch, (hsame "HEAD").trans hhead⟩
    · intro branch target htarget
      exact h.commits branch target ((hsame _).symm.trans htarget)
  | landed target source objects landing hsource htarget hlanding hheld hmoved =>
    have hkind := kind_of_lands hids (resolveCommitId_eq_ok gix hsource).2
      (lands_of_landingOf gix merge fault hlanding)
    refine ⟨⟨?_, ?_⟩, ?_⟩
    · obtain ⟨branch, hhead⟩ := h.head
      refine ⟨branch, ?_⟩
      rw [hmoved, if_neg fun heq => not_isBranchRef_head ⟨_, heq⟩]
      exact hhead
    · intro branch value hvalue
      rw [hmoved] at hvalue
      split at hvalue
      · simp only [movedValue] at hvalue
        split at hvalue
        · cases hvalue
        · obtain rfl := Option.some.inj hvalue
          exact ⟨landing.tip, rfl, hkind⟩
      · exact h.commits branch value hvalue
    · intro name hinternal
      rw [hmoved, if_neg fun heq => hinternal.not_isBranchRef ⟨_, heq⟩]

theorem Namespace.importTip {state : Repo} (h : Namespace gix state.refs) (src : Repo)
    (sourceBranch pull : String) (fault : Option ImportFault) :
    Namespace gix (importBranchTip gix fault src state sourceBranch (pullHeadRef pull)).1.refs := by
  have hinternal := isInternalRef_pullHeadRef pull
  refine ⟨?_, ?_⟩
  · obtain ⟨branch, hhead⟩ := h.head
    refine ⟨branch, ?_⟩
    have hne : "HEAD" ≠ pullHeadRef pull := fun heq => not_isInternalRef_head (heq ▸ hinternal)
    rw [lookup_importBranchTip hne]
    exact hhead
  · intro branch target htarget
    rw [lookup_importBranchTip fun heq => hinternal.not_isBranchRef ⟨branch, heq.symm⟩] at htarget
    exact h.commits branch target htarget

/-! ## Runs -/

/-- A step that respects the namespace keeps it. -/
theorem Namespace.step {state : Repo} (h : Namespace gix state.refs)
    (hids : ∀ commit, (gix.content (merge.commitId commit)).kind = .commit) {step : RepoStep}
    (horder : step.InOrder gix state) :
    Namespace gix (step.run gix merge state).refs ∧ InternalKept gix merge state step := by
  cases step with
  | push commands packData checks fault =>
    obtain ⟨hafter, hinternal⟩ := h.push horder
    exact ⟨hafter, fun name hname => Or.inl (hinternal name hname)⟩
  | importTip src sourceBranch pull fault =>
    refine ⟨h.importTip src sourceBranch pull fault, ?_⟩
    intro name _
    by_cases hname : name = pullHeadRef pull
    · exact Or.inr ⟨src, sourceBranch, pull, fault, rfl, hname⟩
    · exact Or.inl (lookup_importBranchTip hname)
  | mergePull strategy request fault =>
    obtain ⟨hafter, hinternal⟩ := h.mergePull hids strategy request fault
    exact ⟨hafter, fun name hname => Or.inl (hinternal name hname)⟩

theorem Initialised.namespace {state : Repo} (h : Initialised state) : Namespace gix state.refs := by
  obtain ⟨-, branch, hrefs⟩ := h
  rw [hrefs]
  refine ⟨⟨branch, AList.lookup_insert _⟩, ?_⟩
  intro name target htarget
  rw [AList.lookup_insert_ne fun heq => not_isBranchRef_head ⟨name, heq.symm⟩] at htarget
  cases htarget

/-- The namespace holds throughout a run that respects it. -/
theorem Namespace.run {state : Repo} (h : Namespace gix state.refs)
    (hids : ∀ commit, (gix.content (merge.commitId commit)).kind = .commit)
    (steps : List RepoStep)
    (horder : ∀ earlier step later, steps = earlier ++ step :: later →
      step.InOrder gix (runSteps gix merge state earlier)) :
    (∀ earlier later, steps = earlier ++ later →
        Namespace gix (runSteps gix merge state earlier).refs) ∧
      ∀ earlier step later, steps = earlier ++ step :: later →
        InternalKept gix merge (runSteps gix merge state earlier) step := by
  induction steps generalizing state with
  | nil =>
    refine ⟨?_, ?_⟩
    · intro earlier later heq
      obtain ⟨rfl, -⟩ := List.append_eq_nil_iff.1 heq.symm
      exact h
    · intro earlier step later heq
      simp at heq
  | cons first steps ih =>
    obtain ⟨hafter, hkept⟩ := h.step hids (horder [] first steps rfl)
    obtain ⟨hstates, hsteps⟩ := ih hafter (by
      intro earlier step later heq
      exact horder (first :: earlier) step later (by rw [heq]; rfl))
    refine ⟨?_, ?_⟩
    · intro earlier later heq
      cases earlier with
      | nil => exact h
      | cons other earlier =>
        obtain ⟨rfl, hrest⟩ := List.cons.inj heq
        exact hstates earlier later hrest
    · intro earlier step later heq
      cases earlier with
      | nil =>
        obtain ⟨rfl, -⟩ := List.cons.inj heq
        exact hkept
      | cons other earlier =>
        obtain ⟨rfl, hrest⟩ := List.cons.inj heq
        exact hsteps earlier step later hrest

/-- From a fresh repository on, a run whose pushes respect the namespace keeps it: `HEAD` names a
branch and the branches hold commits in every state, and only imports change internal refs. -/
theorem namespace_of_inOrder
    (hids : ∀ commit, (gix.content (merge.commitId commit)).kind = .commit) {state : Repo}
    (hinit : Initialised state) (steps : List RepoStep)
    (horder : ∀ earlier step later, steps = earlier ++ step :: later →
      step.InOrder gix (runSteps gix merge state earlier)) :
    (∀ earlier later, steps = earlier ++ later →
        Namespace gix (runSteps gix merge state earlier).refs) ∧
      ∀ earlier step later, steps = earlier ++ step :: later →
        InternalKept gix merge (runSteps gix merge state earlier) step :=
  hinit.namespace.run hids steps horder

end Run

/-! ## Two runs of a fresh repository -/

/-- The merge of the commit 4 into the commit 1. -/
def freshMergeCommit : Commit :=
  let signature : Signature := ⟨"ada", "ada@example.org", some 0⟩
  ⟨2, [1, 4], some signature, some signature, none, "Merge", []⟩

/-- A library with one pack: the commits 1 and 4, their tree 2 and the blob 3. -/
def freshGix : Gix where
  content := fun id =>
    if id = 1 then plainCommit 2 []
    else if id = 2 then .tree (some [])
    else if id = 4 then plainCommit 2 [1]
    else if id = 5 then .commit (some freshMergeCommit)
    else .blob []
  packObjects := fun name => if name = 7 then [1, 2, 3, 4] else []
  writeToDirectory := fun pack _ => if pack = utf8 "PACK" then .ok (some 7) else .error "bad header"
  validateRefName := fun _ => none
  debug := fun text => "\"" ++ text ++ "\""
  transactionError := fun _ _ => "the reference has moved"
  ioError := "input/output error"

def freshMerge : GixMerge where
  diffTreeToTree := fun _ _ _ => .ok []
  mergeBase := fun _ _ _ => some 1
  histogramHunks := fun _ _ => []
  rawData := fun _ => []
  mergeCommits := fun _ _ _ _ _ => .ok ⟨0, false, 2, []⟩
  mergeTrees := fun _ _ _ _ _ => .ok ⟨0, false, 2, []⟩
  commitId := fun _ => 5
  emptyTree := 2
  mergeBaseError := "no merge base"

def freshRepo : Repo where
  disk := ⟨[], [], []⟩
  refs := (∅ : RefStore).insert "HEAD" (.symbolic (branchRef "main"))

/-- A push that creates a branch at a blob and an internal ref, and deletes `HEAD`. -/
def strayCommands : List RefCommand :=
  [⟨zeroId, ObjectId.toHex 3, "refs/heads/main"⟩,
    ⟨zeroId, ObjectId.toHex 1, "refs/edda/pull-heads/1"⟩, ⟨zeroId, zeroId, "HEAD"⟩]

theorem push_breaks_namespace :
    Initialised freshRepo ∧
    let after := RepoStep.run freshGix freshMerge freshRepo
      (.push strayCommands (utf8 "PACK") .default none)
    after.refs.lookup "HEAD" = none ∧
      after.refs.lookup (branchRef "main") = some (.object 3) ∧
      (freshGix.content 3).kind = .blob ∧
      freshRepo.refs.lookup (pullHeadRef "1") = none ∧
      after.refs.lookup (pullHeadRef "1") = some (.object 1) := by
  refine ⟨⟨rfl, "main", rfl⟩, ?_⟩
  decide +kernel

/-- A push of two branches, the import of a fork's tip, and a merge. -/
def orderlySteps : List RepoStep :=
  [.push [⟨zeroId, ObjectId.toHex 1, "refs/heads/main"⟩,
      ⟨zeroId, ObjectId.toHex 4, "refs/heads/topic"⟩] (utf8 "PACK") .default none,
    .importTip ⟨⟨[], [7], [7]⟩, (∅ : RefStore).insert "refs/heads/main" (.object 4)⟩ "main" "1" none,
    .mergePull .merge ⟨"refs/edda/pull-heads/1", "ada:main", "main", "ada", "ada@example.org",
      "Merge", 0⟩ none]

/-- The creation of a branch at a commit respects the namespace. -/
theorem commandInOrder_create {refs : RefStore} {branch : String} {id : ObjectId}
    (hkind : (freshGix.content id).kind = .commit) :
    CommandInOrder freshGix refs ⟨zeroId, id.toHex, branchRef branch⟩ where
  head := by
    intro heq
    exact absurd ⟨branch, heq.symm⟩ not_isBranchRef_head
  branch := by
    intro _ other hother
    simp only [commandValue, ObjectId.fromHex_toHex] at hother
    split at hother
    · cases hother
    · cases hother
      exact hkind
  internal := by
    intro hinternal
    exact absurd ⟨branch, rfl⟩ hinternal.not_isBranchRef

theorem orderly_run_keeps_namespace :
    Namespace freshGix (runSteps freshGix freshMerge freshRepo orderlySteps).refs ∧
      (runSteps freshGix freshMerge freshRepo orderlySteps).refs.lookup "refs/heads/main" =
        some (.object 5) := by
  have horder : ∀ (state : Repo), ∀ step ∈ orderlySteps, step.InOrder freshGix state := by
    intro state step hmem
    simp only [orderlySteps, List.mem_cons, List.not_mem_nil, or_false] at hmem
    rcases hmem with rfl | rfl | rfl
    · intro _ command hcommand
      simp only [List.mem_cons, List.not_mem_nil, or_false] at hcommand
      rcases hcommand with rfl | rfl
      · exact @commandInOrder_create _ "main" 1 rfl
      · exact @commandInOrder_create _ "topic" 4 rfl
    · trivial
    · trivial
  have hids : ∀ commit, (freshGix.content (freshMerge.commitId commit)).kind = .commit := by
    intro commit
    rfl
  refine ⟨?_, by decide +kernel⟩
  refine (namespace_of_inOrder hids ⟨rfl, "main", rfl⟩ orderlySteps ?_).1 orderlySteps []
    (List.append_nil _).symm
  intro earlier step later heq
  exact horder _ step (by rw [heq]; simp)

end Edda.Git
