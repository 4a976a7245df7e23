import Edda.App.PushTransports
import Edda.Git.Connectivity
import Edda.Git.HistoryPolicy
import Edda.Support.Runs

/-!
# The history of protected branches over runs

A rule can require signed commits and a linear history of the branches that it matches. A push is
checked against both; a merge of a pull request is checked against neither, and a branch that is
deleted and created again is new to the checks of a push.

`historyKept_of_fits` says, over every run of pushes and merges, when the rules hold of all that
lands.
-/

set_option autoImplicit false

namespace Edda.App

open Edda.Domain Edda.Db Edda.Auth Edda.Git Edda.Support Edda.Support.RustText

/-! ## Histories -/

section Histories

variable (content : ObjectId → Object)

/-- A commit leads to its parents, and an annotated tag to its target. -/
def HistoryEdge (x y : ObjectId) : Prop :=
  y ∈ parentsOf content x ∨ ∃ tag, content x = .tag (some tag) ∧ tag.target = y

/-- The history of `tip` comes to `id`. -/
def InHistory (tip id : ObjectId) : Prop := Relation.ReflTransGen (HistoryEdge content) tip id

/-- All that the tip descends from are commits; no tag is among them. -/
def HistoryOfCommits (tip : ObjectId) : Prop :=
  ∀ id, Ancestor content id tip → (content id).kind = .commit

/-- The ref reaches the commit. -/
def Reached (refs : RefStore) (name : String) (id : ObjectId) : Prop :=
  (content id).kind = .commit ∧
    ∃ tip, refs.lookup name = some (.object tip) ∧ InHistory content tip id

/-- The commit becomes reachable from the ref. -/
def Gained (before after : RefStore) (name : String) (id : ObjectId) : Prop :=
  Reached content after name id ∧ ¬ Reached content before name id

theorem InHistory.of_ancestor {tip id : ObjectId} (h : Ancestor content id tip) :
    InHistory content tip id :=
  Relation.ReflTransGen.mono (fun _ _ hparent => Or.inl hparent) _ _ h

theorem HistoryOfCommits.ancestor {tip id : ObjectId} (hcommits : HistoryOfCommits content tip)
    (h : InHistory content tip id) : Ancestor content id tip := by
  induction h with
  | refl => exact Relation.ReflTransGen.refl
  | tail _ hedge ih =>
    rcases hedge with hparent | ⟨tag, htag, -⟩
    · exact ih.tail hparent
    · -- a commit is no tag
      have hkind := hcommits _ ih
      rw [htag] at hkind
      cases hkind

/-- The history of a commit is the commit and the histories of its parents. -/
theorem inHistory_commit {tip id : ObjectId} {commit : Commit}
    (hcontent : content tip = .commit (some commit)) (h : InHistory content tip id) :
    id = tip ∨ ∃ parent ∈ commit.parents, InHistory content parent id := by
  rcases Relation.ReflTransGen.cases_head h with rfl | ⟨next, hedge, hrest⟩
  · exact Or.inl rfl
  · right
    rcases hedge with hparent | ⟨tag, htag, -⟩
    · simp only [parentsOf, hcontent] at hparent
      exact ⟨next, hparent, hrest⟩
    · rw [hcontent] at htag
      cases htag

end Histories

/-! ## Rules over runs -/

section Rules

variable (gix : Gix) (m : GixMerge) (rules : List BranchProtectionRule)

/-- A rule requires signed commits of the ref. -/
def SignedRef (name : String) : Prop :=
  ∃ rule ∈ rules, rule.requireSignedCommits = true ∧ Protects rule name

/-- A rule requires a linear history of the ref. -/
def LinearRef (name : String) : Prop :=
  ∃ rule ∈ rules, rule.requireLinearHistory = true ∧ Protects rule name

/-- What a step may make reachable. -/
structure StepKept (before after : RefStore) : Prop where
  signed : ∀ name, SignedRef rules name → ∀ id, Gained gix.content before after name id →
    IsSigned gix.content id
  linear : ∀ name, LinearRef rules name → ∀ id, Gained gix.content before after name id →
    ¬ IsMerge gix.content id

/-- The repository after a run. -/
def repoAfter (start : Repo) (steps : List RepoStep) : Repo :=
  Runs.run (RepoStep.run gix m) start steps

/-- No step of the run makes an unsigned commit reachable from a branch that requires signed ones, or
a merge from one that requires a linear history, and every tip of the latter descends from all the
earlier ones. -/
structure HistoryKept (start : Repo) (steps : List RepoStep) : Prop where
  landed : ∀ earlier step later, steps = earlier ++ step :: later →
    StepKept gix rules (repoAfter gix m start earlier).refs
      (repoAfter gix m start (earlier ++ [step])).refs
  descends : ∀ earlier between later, steps = earlier ++ (between ++ later) →
    ∀ name, LinearRef rules name → ∀ old new,
      (repoAfter gix m start earlier).refs.lookup name = some (.object old) →
      (repoAfter gix m start (earlier ++ between)).refs.lookup name = some (.object new) →
      InHistory gix.content new old

/-- A repository with the last tip that each ref had. -/
structure Tracked where
  repo : Repo
  last : String → Option ObjectId

/-- The object that a ref holds. -/
def heldTip (refs : RefStore) (name : String) : Option ObjectId :=
  match refs.lookup name with
  | some (.object id) => some id
  | _ => none

def Tracked.start (repo : Repo) : Tracked := ⟨repo, heldTip repo.refs⟩

def Tracked.step (tracked : Tracked) (step : RepoStep) : Tracked :=
  let repo := step.run gix m tracked.repo
  ⟨repo, fun name => (heldTip repo.refs name).or (tracked.last name)⟩

/-- What a merge resolves and lands, if it comes to move its branch. -/
structure Moves (state : Repo) (strategy : MergeStrategy) (request : MergeRequest)
    (fault : Option MergeFault) (target source : ObjectId) (landing : Landing) : Prop where
  resolved : resolveCommitId gix state request.sourceRef = .ok source
  tip : resolveCommitId gix state (branchRef request.targetBranch) = .ok target
  lands : (landingOf gix m fault strategy request (state.objects gix) target source).2 =
    .ok (some landing)

/-- The checks of a push by an actor who does not administer the repository. -/
def ChecksOf (checks : ReceiveChecks) : Prop :=
  ∃ (db : Database) (actor : ActorContext) (repository : Repository) (limits : GitLimits),
    checkAdminister db actor repository ≠ .ok () ∧ db.rulesOf repository.id = rules ∧
      checks = receiveChecksFor db actor repository limits

/-- The runs that the rules are about: pushes of actors who do not administer the repository, with
histories within the bound of the inspection, and merges that write the commits that their ids
name. -/
def InScope (tracked : Tracked) : RepoStep → Prop
  | .push commands _ checks _ =>
    ChecksOf rules checks ∧
      ∀ command ∈ commands, ∀ new, ObjectId.fromHex command.newId = some new →
        AtMost maxWalk fun id => Ancestor gix.content id new
  | .importTip _ _ _ _ => True
  | .mergePull strategy request fault =>
    ∀ target source landing, Moves gix m tracked.repo strategy request fault target source landing →
      ∀ commit ∈ landing.commits, gix.content (m.commitId commit) = .commit (some commit)

/-- A commit of the source that the target does not reach. -/
def Brings (content : ObjectId → Object) (target source id : ObjectId) : Prop :=
  (content id).kind = .commit ∧ InHistory content source id ∧ ¬ InHistory content target id

/-- The step writes to no protected branch, or in a way that keeps to the rules: a push whose rules
and history can be read, the latter of commits, and which creates a linear branch again only above
its last tip; a merge into a branch that requires signed commits is a fast-forward over signed ones,
and one into a branch that requires a linear history writes and brings no merge. -/
def StepFits (tracked : Tracked) : RepoStep → Prop
  | .push commands _ checks fault =>
    (∀ id, fault ≠ some (.readHistory id)) ∧
      ∀ command ∈ commands, command.newId ≠ zeroId →
        ∀ new, ObjectId.fromHex command.newId = some new →
          (SignedRef rules command.refName ∨ LinearRef rules command.refName →
            checks ≠ .default ∧ HistoryOfCommits gix.content new) ∧
          (LinearRef rules command.refName → tracked.repo.refs.lookup command.refName = none →
            ∀ old, tracked.last command.refName = some old → InHistory gix.content new old)
  | .importTip _ _ _ _ => True
  | .mergePull strategy request fault =>
    ∀ target source landing, Moves gix m tracked.repo strategy request fault target source landing →
      (SignedRef rules (branchRef request.targetBranch) → strategy = .fastForwardOnly ∧
        ∀ id, Brings gix.content target source id → IsSigned gix.content id) ∧
      (LinearRef rules (branchRef request.targetBranch) → strategy ≠ .merge ∧
        (strategy = .fastForwardOnly →
          ∀ id, Brings gix.content target source id → ¬ IsMerge gix.content id))

end Rules

/-! ## What a push does to one ref -/

section Push

variable {gix : Gix}

/-- A text that names an id, other than the all-zeros text, names a value. -/
theorem isNoValue_eq_false {hex : String} {id : ObjectId} (h : ObjectId.fromHex hex = some id)
    (hne : hex ≠ zeroId) : isNoValue hex = false := by
  rw [← Bool.not_eq_true]
  intro hzeros
  simp only [isNoValue, List.all_eq_true, decide_eq_true_eq] at hzeros
  have hlength : hex.toList.length = 40 := by
    by_contra hlength
    simp [ObjectId.fromHex, hlength] at h
  refine hne (String.toList_inj.1 ?_)
  exact (List.eq_replicate_iff.2 ⟨hlength, hzeros⟩).trans (by decide)

section Case

variable (gix) (fault : Option Fault) (state : Repo) (commands : List RefCommand)
  (packData : Bytes) (checks : ReceiveChecks) (name : String)

/-- What a push does to a ref: it leaves it, deletes it, or writes the value of one of its commands,
which passed the history checks. -/
inductive PushCase : Option Target → Prop
  | kept : PushCase (state.refs.lookup name)
  | deleted : PushCase none
  | written (command : RefCommand) (pack : Option PackName) (old : Option ObjectId)
      (new : ObjectId) : command ∈ commands → command.refName = name → Tips command old new →
      state.refs.lookup name = old.map .object →
      Promoted gix fault state commands packData checks pack →
      historyReason gix fault state commands checks pack = none → PushCase (some (.object new))

end Case

variable {fault : Option Fault} {state : Repo} {commands : List RefCommand} {packData : Bytes}
  {checks : ReceiveChecks} {name : String}

/-- The accepted edits of a push, however many of them are written. -/
theorem pushCase_of_edits {pack : Option PackName} {edits written : List RefEdit}
    (hpromoted : Promoted gix fault state commands packData checks pack)
    (hreason : historyReason gix fault state commands checks pack = none)
    (hedits : refEdits gix (refUpdates commands) = .ok edits) (hprep : Prepared state.refs edits)
    (hwritten : ∀ edit ∈ written, edit ∈ edits) :
    PushCase gix fault state commands packData checks name
      ((state.refs.writeAll written).lookup name) := by
  rcases lookup_writeAll_cases written state.refs name with hsame | ⟨edit, hmem, rfl, hresult⟩
  · rw [hsame]
    exact .kept
  · obtain ⟨update, hupdate, hedit⟩ := exists_update_of_edit gix hedits (hwritten edit hmem)
    obtain ⟨command, hcommand, rfl⟩ := List.mem_map.1 hupdate
    obtain ⟨hname, -, hvalue, hexpected⟩ := refEdit_eq_ok gix hedit
    have haccepts := hprep.2 edit (hwritten edit hmem)
    simp only at hname hvalue hexpected
    rw [hresult]
    by_cases hnew : command.newId = zeroId
    · rw [if_pos hnew] at hvalue
      rw [hvalue]
      exact .deleted
    · rw [if_neg hnew] at hvalue
      obtain ⟨new, hread, hobject⟩ := hvalue
      rw [hobject]
      by_cases hold : command.oldId = zeroId
      · rw [if_pos hold, if_neg hnew] at hexpected
        simp only [RefEdit.accepts, hexpected, hobject, Bool.or_eq_true,
          Option.isNone_iff_eq_none, beq_iff_eq] at haccepts
        rcases haccepts with hnone | hsame
        · refine .written command pack none new hcommand hname.symm ⟨hnew, hread, ?_⟩ hnone
            hpromoted hreason
          rw [hold]
          rfl
        · -- the ref holds the value already
          rw [← hsame]
          exact .kept
      · rw [if_neg hold] at hexpected
        obtain ⟨old, holdread, hmatch⟩ := hexpected
        simp only [RefEdit.accepts, hmatch, beq_iff_eq] at haccepts
        refine .written command pack (some old) new hcommand hname.symm ⟨hnew, hread, ?_⟩ haccepts
          hpromoted hreason
        rw [isNoValue_eq_false holdread hold]
        exact ⟨old, holdread, rfl⟩

theorem push_cases (hname : name ≠ "HEAD") :
    PushCase gix fault state commands packData checks name
      ((applyReceivePack gix fault state commands packData checks).1.refs.lookup name) := by
  simp only [applyReceivePack]
  split
  · exact .kept
  · have hcase := receiveBlocking_cases gix fault state commands packData checks
    generalize receiveBlocking gix fault state commands packData checks = out at hcase
    cases hcase with
    | failed | refused | halfPromoted | unopened | rejected => exact .kept
    | notUpdated pack refs err hpromoted hreason hupdate =>
      have hcases := updateRefs_cases gix (refFault fault) state.refs (refUpdates commands)
      rw [hupdate] at hcases
      cases hcases with
      | refused err => exact .kept
      | interrupted edits written err hfault hedits hprep =>
        refine pushCase_of_edits hpromoted hreason hedits hprep ?_
        intro edit hmem
        exact mem_commitOrder.1 (List.mem_of_mem_take hmem)
    | landed pack refs hpromoted hreason hupdate =>
      have hcases := updateRefs_cases gix (refFault fault) state.refs (refUpdates commands)
      rw [hupdate] at hcases
      cases hcases with
      | applied edits hedits hprep =>
        have hwritten := @pushCase_of_edits gix fault state commands packData checks name pack edits
          (commitOrder edits) hpromoted hreason hedits hprep fun edit hmem => mem_commitOrder.1 hmem
        simp only
        split
        · exact hwritten
        · rw [lookup_fixUnbornHead hname]
          exact hwritten

/-! ## What an accepted push lands -/

variable {rules : List BranchProtectionRule} {actor : ActorContext} {limit : Option Nat}
  {current : Nat}

theorem needsSigned_iff :
    anyPatternMatches (ruleChecks actor rules limit current).signedCommitRefPatterns name = true ↔
      SignedRef rules name := by
  simp only [ruleChecks, anyPatternMatches_map_refGlob, SignedRef, List.mem_filter, and_assoc]

theorem needsLinear_iff :
    anyPatternMatches (ruleChecks actor rules limit current).linearHistoryRefPatterns name = true ↔
      LinearRef rules name := by
  simp only [ruleChecks, anyPatternMatches_map_refGlob, LinearRef, List.mem_filter, and_assoc]

/-- Within its bound an inspection is not cut short. -/
theorem newWalk_failure {content : ObjectId → Object} {store : Store} {old : Option ObjectId}
    {new : ObjectId} (hbound : AtMost maxWalk fun id => Ancestor content id new) :
    (newWalk content store old new).failure = none := by
  have hlimit : ∀ k, k < maxWalk →
      (historyWalk content store fun id => decide (id ∈ inspected content store old)).limit k =
        none := by
    intro k hk
    exact if_neg (not_le.2 hk)
  apply Worklist.failure_eq_none _ rfl _ ?_ ?_ hlimit ?_
  · intro id _
    exact ⟨_, rfl⟩
  · intro ids hnodup hids
    exact hbound ids hnodup fun id hid => ancestor_of_reaches content store (hids id hid)
  · intro _ _
    rfl

theorem isSigned_of_commitIsSigned {content : ObjectId → Object} {store : Store} {id : ObjectId}
    (h : commitIsSigned content store id = true) : IsSigned content id := by
  simp only [commitIsSigned] at h
  split at h
  · rename_i commit hfind
    have hcontent := (mem_of_findObject content hfind).2
    simp only [List.any_eq_true, Bool.or_eq_true, decide_eq_true_eq] at h
    exact ⟨commit, hcontent.symm, h⟩
  · cases h

theorem not_isMerge_of_isMergeCommit {content : ObjectId → Object} {store : Store} {id : ObjectId}
    (hstored : id ∈ store) (h : isMergeCommit content store id = false) : ¬ IsMerge content id := by
  intro hmerge
  simp only [isMergeCommit, commitParents, findObject_of_mem content hstored] at h
  cases hcontent : content id with
  | commit body =>
    rw [hcontent] at h
    simp only [decide_eq_false_iff_not] at h
    exact h hmerge
  | tree body | blob data | tag body => simp [IsMerge, parentsOf, hcontent] at hmerge

/-- What the value of a command that passed the checks of the rules brings to its ref. -/
structure LandedUpdate (content : ObjectId → Object) (rules : List BranchProtectionRule)
    (name : String) (old : Option ObjectId) (new : ObjectId) : Prop where
  signed : SignedRef rules name → ∀ id, Ancestor content id new →
    (∃ tip, old = some tip ∧ Ancestor content id tip) ∨ IsSigned content id
  linear : LinearRef rules name → ∀ id, Ancestor content id new →
    (∃ tip, old = some tip ∧ Ancestor content id tip) ∨ ¬ IsMerge content id
  forward : LinearRef rules name → ∀ tip, old = some tip → Ancestor content tip new

theorem landed_of_accepted {pack : Option PackName} {command : RefCommand} {old : Option ObjectId}
    {new : ObjectId} (hreadable : ∀ id, fault ≠ some (.readHistory id))
    (hbound : AtMost maxWalk fun id => Ancestor gix.content id new) (hmem : command ∈ commands)
    (htips : Tips command old new)
    (hpromoted : Promoted gix fault state commands packData (ruleChecks actor rules limit current)
      pack)
    (hreason : historyReason gix fault state commands (ruleChecks actor rules limit current) pack =
      none) :
    LandedUpdate gix.content rules command.refName old new := by
  have hstored : ∀ id, Ancestor gix.content id new → id ∈ (state.disk.withPack pack).objects gix := by
    intro id hid
    exact closureStored_of_ready gix fault commands packData _ hpromoted.ready hmem htips.written
      htips.new_read id hid.reachable
  have hobjects : readableObjects gix fault (state.disk.withPack pack) =
      (state.disk.withPack pack).objects gix := by
    simp only [readableObjects]
  -- a rule that protects the ref has its history inspected
  have haccepted : SignedRef rules command.refName ∨ LinearRef rules command.refName →
      HistoryAccepted gix.content ((state.disk.withPack pack).objects gix)
        (ruleChecks actor rules limit current) command
        ⟨(newWalk gix.content ((state.disk.withPack pack).objects gix) old new).order,
          old.all fun id => isAncestor gix.content ((state.disk.withPack pack).objects gix) id new,
          (newWalk gix.content ((state.disk.withPack pack).objects gix) old new).failure.isSome⟩ := by
    intro hprotected
    have hinspects : inspectsHistory (ruleChecks actor rules limit current) = true := by
      rcases hprotected with hsigned | hlinear
      · have hsome := (@needsSigned_iff _ rules actor limit current).2 hsigned
        simp only [inspectsHistory, Bool.or_eq_true]
        right
        cases hpatterns : (ruleChecks actor rules limit current).signedCommitRefPatterns with
        | nil =>
          rw [hpatterns] at hsome
          cases hsome
        | cons _ _ => rfl
      · have hsome := (@needsLinear_iff _ rules actor limit current).2 hlinear
        simp only [inspectsHistory, Bool.or_eq_true]
        left
        cases hpatterns : (ruleChecks actor rules limit current).linearHistoryRefPatterns with
        | nil =>
          rw [hpatterns] at hsome
          cases hsome
        | cons _ _ => rfl
    simp only [historyReason, hinspects, if_true, hobjects] at hreason
    exact historyRejection_eq_none _ _ _ hreason hmem htips.written
      (addedCommits_of_tips _ _ htips)
  have hcomplete : (newWalk gix.content ((state.disk.withPack pack).objects gix) old
      new).failure.isSome = false := by
    rw [newWalk_failure hbound]
    rfl
  have hlisted : ∀ id, Ancestor gix.content id new →
      id ∈ (newWalk gix.content ((state.disk.withPack pack).objects gix) old new).order ∨
        ∃ tip, old = some tip ∧ Ancestor gix.content id tip := by
    intro id hid
    rcases mem_addedCommits gix.content _ (addedCommits_of_tips _ _ htips) htips.new_read hcomplete
      hstored hid with hlist | ⟨tip, hvalue, htip, hanc⟩
    · exact Or.inl hlist
    · right
      have hold := htips.old_read
      rw [hvalue] at hold
      obtain ⟨found, hfound, rfl⟩ := hold
      obtain rfl := Option.some.inj (hfound.symm.trans htip)
      exact ⟨found, rfl, hanc⟩
  refine ⟨?_, ?_, ?_⟩
  · intro hsigned id hid
    rcases hlisted id hid with hlist | hbefore
    · right
      exact isSigned_of_commitIsSigned
        ((haccepted (Or.inl hsigned)).signed (needsSigned_iff.2 hsigned) hcomplete id hlist)
    · exact Or.inl hbefore
  · intro hlinear id hid
    rcases hlisted id hid with hlist | hbefore
    · right
      exact not_isMerge_of_isMergeCommit (hstored id hid)
        ((haccepted (Or.inr hlinear)).linear (needsLinear_iff.2 hlinear) hcomplete id hlist)
    · exact Or.inl hbefore
  · rintro hlinear tip rfl
    have hforward := (haccepted (Or.inr hlinear)).fastForward (needsLinear_iff.2 hlinear)
    exact ancestor_of_isAncestor gix.content _ hforward

end Push

/-! ## What a step does to a protected ref -/

section Step

variable {gix : Gix} {m : GixMerge} {rules : List BranchProtectionRule}

/-- A step within the rules: the ref is left, deleted, or moved to a commit that brings nothing
against the rules and, where they ask for a linear history, descends from its last tip. -/
inductive RefStep (content : ObjectId → Object) (rules : List BranchProtectionRule)
    (before : RefStore) (last : Option ObjectId) (name : String) : Option Target → Prop
  | kept : RefStep content rules before last name (before.lookup name)
  | deleted : RefStep content rules before last name none
  | moved (new : ObjectId) :
      (SignedRef rules name → ∀ id, InHistory content new id → (content id).kind = .commit →
        Reached content before name id ∨ IsSigned content id) →
      (LinearRef rules name → ∀ id, InHistory content new id → (content id).kind = .commit →
        Reached content before name id ∨ ¬ IsMerge content id) →
      (LinearRef rules name → ∀ old, last = some old → InHistory content new old) →
      RefStep content rules before last name (some (.object new))

/-- The last tips are those that the refs hold, or held before they were deleted. -/
def Tracked.Current (tracked : Tracked) : Prop :=
  ∀ name id, tracked.repo.refs.lookup name = some (.object id) → tracked.last name = some id

/-- Checks that could be resolved are those of the rules. -/
theorem ruleChecks_of_checksOf {checks : ReceiveChecks} (h : ChecksOf rules checks)
    (hread : checks ≠ .default) :
    ∃ actor limit current, checks = ruleChecks actor rules limit current := by
  obtain ⟨db, actor, repository, limits, hadmin, rfl, rfl⟩ := h
  simp only [receiveChecksFor] at hread ⊢
  split at hread
  · rename_i resolved hresolved
    obtain ⟨limit, current, rfl⟩ := resolveReceiveChecks_eq_ok hadmin hresolved
    exact ⟨actor, limit, current, rfl⟩
  · exact absurd rfl hread

theorem refStep_push {tracked : Tracked} (hcurrent : tracked.Current) {commands : List RefCommand}
    {packData : Bytes} {checks : ReceiveChecks} {fault : Option Fault}
    (hscope : InScope gix m rules tracked (.push commands packData checks fault))
    (hfits : StepFits gix m rules tracked (.push commands packData checks fault)) {name : String}
    (hhead : name ≠ "HEAD") (hname : SignedRef rules name ∨ LinearRef rules name) :
    RefStep gix.content rules tracked.repo.refs (tracked.last name) name
      ((applyReceivePack gix fault tracked.repo commands packData checks).1.refs.lookup name) := by
  obtain ⟨hchecks, hbounds⟩ := hscope
  obtain ⟨hreadable, hcommands⟩ := hfits
  have hcase := @push_cases gix fault tracked.repo commands packData checks name hhead
  generalize (applyReceivePack gix fault tracked.repo commands packData checks).1.refs.lookup name =
    value at hcase
  cases hcase with
  | kept => exact .kept
  | deleted => exact .deleted
  | written command pack old new hmem href htips hheld hpromoted hreason =>
    subst href
    obtain ⟨hread, hagain⟩ := hcommands command hmem htips.written new htips.new_read
    obtain ⟨hresolved, hhistory⟩ := hread hname
    obtain ⟨actor, limit, current, rfl⟩ := ruleChecks_of_checksOf hchecks hresolved
    have hlanded := landed_of_accepted hreadable (hbounds command hmem new htips.new_read) hmem htips
      hpromoted hreason
    have hbefore : ∀ id tip, (gix.content id).kind = .commit → old = some tip →
        Ancestor gix.content id tip → Reached gix.content tracked.repo.refs command.refName id := by
      rintro id tip hkind rfl hanc
      exact ⟨hkind, tip, hheld, .of_ancestor _ hanc⟩
    refine .moved new ?_ ?_ ?_
    · intro hsigned id hid hkind
      rcases hlanded.signed hsigned id (hhistory.ancestor _ hid) with
        ⟨tip, htip, hanc⟩ | hid
      · exact Or.inl (hbefore id tip hkind htip hanc)
      · exact Or.inr hid
    · intro hlinear id hid hkind
      rcases hlanded.linear hlinear id (hhistory.ancestor _ hid) with
        ⟨tip, htip, hanc⟩ | hid
      · exact Or.inl (hbefore id tip hkind htip hanc)
      · exact Or.inr hid
    · intro hlinear last hlast
      cases old with
      | none => exact hagain hlinear hheld last hlast
      | some tip =>
        obtain rfl := Option.some.inj ((hcurrent _ tip hheld).symm.trans hlast)
        exact .of_ancestor _ (hlanded.forward hlinear tip rfl)

/-- A chain of replayed commits has one parent each, down to the target. -/
theorem replayed_history {content : ObjectId → Object} {target tip : ObjectId}
    {commits : List Commit} (h : Replayed m target commits tip)
    (hrecorded : ∀ commit ∈ commits, content (m.commitId commit) = .commit (some commit)) :
    InHistory content tip target ∧
      ∀ id, InHistory content tip id → InHistory content target id ∨ ¬ IsMerge content id := by
  induction h with
  | nil target => exact ⟨.refl, fun id hid => Or.inl hid⟩
  | cons target last commit commits hparents hheaders hrest ih =>
    have hcontent := hrecorded commit (by simp)
    obtain ⟨hbelow, hall⟩ := ih fun other hother => hrecorded other (List.mem_cons_of_mem _ hother)
    have hedge : HistoryEdge content (m.commitId commit) target :=
      Or.inl (by simp [parentsOf, hcontent, hparents])
    refine ⟨hbelow.tail hedge, ?_⟩
    intro id hid
    rcases hall id hid with hin | hnot
    · rcases inHistory_commit content hcontent hin with rfl | ⟨parent, hparent, hrest⟩
      · right
        simp [IsMerge, parentsOf, hcontent, hparents]
      · rw [hparents, List.mem_singleton] at hparent
        exact Or.inl (hparent ▸ hrest)
    · exact Or.inr hnot

/-- What a landing of one of the strategies brings to a branch with a linear history. -/
theorem lands_history {store : Store} {target source : ObjectId} {strategy : MergeStrategy}
    {landing : Landing}
    (hbase : ∀ store a b base, m.mergeBase store a b = some base →
      InHistory gix.content a base ∧ InHistory gix.content b base)
    (hrecorded : ∀ commit ∈ landing.commits,
      gix.content (m.commitId commit) = .commit (some commit))
    (h : Lands m store target source strategy landing) (hstrategy : strategy ≠ .merge) :
    InHistory gix.content landing.tip target ∧
      (strategy = .fastForwardOnly → landing.tip = source) ∧
      (strategy ≠ .fastForwardOnly → ∀ id, InHistory gix.content landing.tip id →
        InHistory gix.content target id ∨ ¬ IsMerge gix.content id) := by
  cases h with
  | merge => exact absurd rfl hstrategy
  | squash commit hparents hheaders =>
    have hone : Replayed m target [commit] (m.commitId commit) :=
      .cons target _ commit [] hparents hheaders (.nil _)
    obtain ⟨hbelow, hall⟩ := replayed_history hone hrecorded
    exact ⟨hbelow, by simp, fun _ => hall⟩
  | rebase commits tip hne hreplayed =>
    obtain ⟨hbelow, hall⟩ := replayed_history hreplayed hrecorded
    exact ⟨hbelow, by simp, fun _ => hall⟩
  | fastForward hne hmergeBase =>
    exact ⟨(hbase _ _ _ _ hmergeBase).2, fun _ => rfl, fun hnot => absurd rfl hnot⟩

theorem refStep_mergePull {tracked : Tracked} (hcurrent : tracked.Current)
    {strategy : MergeStrategy} {request : MergeRequest} {fault : Option MergeFault}
    (hbase : ∀ store a b base, m.mergeBase store a b = some base →
      InHistory gix.content a base ∧ InHistory gix.content b base)
    (hscope : InScope gix m rules tracked (.mergePull strategy request fault))
    (hfits : StepFits gix m rules tracked (.mergePull strategy request fault)) (name : String) :
    RefStep gix.content rules tracked.repo.refs (tracked.last name) name
      ((mergePullRequest gix m fault tracked.repo strategy request).1.refs.lookup name) := by
  have hcase := mergePullRequest_cases gix m fault tracked.repo strategy request
  generalize (mergePullRequest gix m fault tracked.repo strategy request).1 = after at hcase
  cases hcase with
  | kept hsame =>
    rw [hsame]
    exact .kept
  | landed target source objects landing hsource htarget hlanding hheld hmoved =>
    rw [hmoved]
    by_cases hname : name = branchRef request.targetBranch
    swap
    · rw [if_neg hname]
      exact .kept
    subst hname
    rw [if_pos rfl, movedValue]
    by_cases hzero : landing.tip = 0
    · rw [if_pos hzero]
      exact .deleted
    rw [if_neg hzero]
    have htip := hheld.resolve_right hzero
    have hmoves : Moves gix m tracked.repo strategy request fault target source landing :=
      ⟨hsource, htarget, by rw [hlanding]⟩
    obtain ⟨hsigned, hlinear⟩ := hfits target source landing hmoves
    have hlands := lands_of_landingOf gix m fault hlanding
    have hhistory := lands_history hbase (hscope target source landing hmoves) hlands
    have hbefore : ∀ id, (gix.content id).kind = .commit → InHistory gix.content target id →
        Reached gix.content tracked.repo.refs (branchRef request.targetBranch) id :=
      fun id hkind hid => ⟨hkind, target, htip, hid⟩
    refine .moved landing.tip ?_ ?_ ?_
    · intro href id hid hkind
      obtain ⟨hstrategy, hbrings⟩ := hsigned href
      have hff : strategy ≠ .merge := by
        rw [hstrategy]
        simp
      rw [(hhistory hff).2.1 hstrategy] at hid
      by_cases hin : InHistory gix.content target id
      · exact Or.inl (hbefore id hkind hin)
      · exact Or.inr (hbrings id ⟨hkind, hid, hin⟩)
    · intro href id hid hkind
      obtain ⟨hstrategy, hbrings⟩ := hlinear href
      obtain ⟨-, hsame, hrest⟩ := hhistory hstrategy
      by_cases hin : InHistory gix.content target id
      · exact Or.inl (hbefore id hkind hin)
      · right
        by_cases hff : strategy = .fastForwardOnly
        · rw [hsame hff] at hid
          exact hbrings hff id ⟨hkind, hid, hin⟩
        · exact (hrest hff id hid).resolve_left hin
    · intro href old hold
      obtain rfl := Option.some.inj ((hcurrent _ target htip).symm.trans hold)
      exact (hhistory (hlinear href).1).1

/-- An import writes to no branch. -/
theorem refStep {tracked : Tracked} (hcurrent : tracked.Current)
    (hbase : ∀ store a b base, m.mergeBase store a b = some base →
      InHistory gix.content a base ∧ InHistory gix.content b base) {step : RepoStep}
    (hscope : InScope gix m rules tracked step) (hfits : StepFits gix m rules tracked step)
    {name : String} (hname : SignedRef rules name ∨ LinearRef rules name) :
    RefStep gix.content rules tracked.repo.refs (tracked.last name) name
      ((step.run gix m tracked.repo).refs.lookup name) := by
  obtain ⟨branch, heq⟩ : IsBranchRef name := by
    rcases hname with ⟨rule, -, -, branch, rfl, -⟩ | ⟨rule, -, -, branch, rfl, -⟩
    · exact ⟨branch, rfl⟩
    · exact ⟨branch, rfl⟩
  subst heq
  cases step with
  | push commands packData checks fault =>
    refine refStep_push hcurrent hscope hfits ?_ hname
    intro heq
    exact not_isBranchRef_head ⟨branch, heq.symm⟩
  | importTip src sourceBranch pull fault =>
    have hne : branchRef branch ≠ pullHeadRef pull :=
      fun heq => (isInternalRef_pullHeadRef pull).not_isBranchRef ⟨branch, heq.symm⟩
    simp only [RepoStep.run, lookup_importBranchTip hne]
    exact .kept
  | mergePull strategy request fault =>
    exact refStep_mergePull hcurrent hbase hscope hfits (branchRef branch)

/-! ## Runs -/

theorem current_start (repo : Repo) : (Tracked.start repo).Current := by
  intro name id hlookup
  change repo.refs.lookup name = some (.object id) at hlookup
  simp only [Tracked.start, heldTip, hlookup]

theorem current_step (tracked : Tracked) (step : RepoStep) : (tracked.step gix m step).Current := by
  intro name id hlookup
  simp only [Tracked.step] at hlookup ⊢
  simp only [heldTip, hlookup, Option.some_or]

theorem repo_run (tracked : Tracked) (steps : List RepoStep) :
    (Runs.run (Tracked.step gix m) tracked steps).repo = repoAfter gix m tracked.repo steps := by
  induction steps generalizing tracked with
  | nil => rfl
  | cons step steps ih => exact ih (tracked.step gix m step)

/-- A step within the rules lets nothing through that is against them. -/
theorem stepKept_of_refStep {before after : RefStore} {last : String → Option ObjectId}
    (h : ∀ name, SignedRef rules name ∨ LinearRef rules name →
      RefStep gix.content rules before (last name) name (after.lookup name)) :
    StepKept gix rules before after := by
  constructor
  · rintro name hname id ⟨⟨hkind, tip, htip, hid⟩, hnot⟩
    have hstep := h name (Or.inl hname)
    rw [htip] at hstep
    generalize hvalue : some (Target.object tip) = value at hstep
    cases hstep with
    | kept => exact absurd ⟨hkind, tip, hvalue.symm, hid⟩ hnot
    | deleted => cases hvalue
    | moved new hsigned hlinear hforward =>
      cases hvalue
      exact (hsigned hname id hid hkind).resolve_left hnot
  · rintro name hname id ⟨⟨hkind, tip, htip, hid⟩, hnot⟩
    have hstep := h name (Or.inr hname)
    rw [htip] at hstep
    generalize hvalue : some (Target.object tip) = value at hstep
    cases hstep with
    | kept => exact absurd ⟨hkind, tip, hvalue.symm, hid⟩ hnot
    | deleted => cases hvalue
    | moved new hsigned hlinear hforward =>
      cases hvalue
      exact (hlinear hname id hid hkind).resolve_left hnot

/-- The last tip of a branch with a linear history descends from the one before. -/
theorem last_descends {tracked : Tracked} {step : RepoStep} {name : String} {old : ObjectId}
    (hstep : RefStep gix.content rules tracked.repo.refs (tracked.last name) name
      ((step.run gix m tracked.repo).refs.lookup name))
    (hcurrent : tracked.Current) (hname : LinearRef rules name)
    (hlast : tracked.last name = some old) :
    ∃ new, (tracked.step gix m step).last name = some new ∧ InHistory gix.content new old := by
  simp only [Tracked.step, heldTip]
  generalize (step.run gix m tracked.repo).refs.lookup name = value at hstep
  cases hstep with
  | kept =>
    cases hheld : tracked.repo.refs.lookup name with
    | none => exact ⟨old, hlast, .refl⟩
    | some target =>
      cases target with
      | symbolic next => exact ⟨old, hlast, .refl⟩
      | object id =>
        obtain rfl := Option.some.inj ((hcurrent name id hheld).symm.trans hlast)
        exact ⟨id, rfl, .refl⟩
  | deleted => exact ⟨old, hlast, .refl⟩
  | moved new hsigned hlinear hforward => exact ⟨new, rfl, hforward hname old hlast⟩

end Step

section Run

variable {gix : Gix} {m : GixMerge} {rules : List BranchProtectionRule}

/-- Over a run that keeps to the rules, every later tip of a branch with a linear history descends
from the earlier one. -/
theorem run_descends
    (hbase : ∀ store a b base, m.mergeBase store a b = some base →
      InHistory gix.content a base ∧ InHistory gix.content b base)
    {tracked : Tracked} {steps : List RepoStep}
    (h : Runs.Throughout (Tracked.step gix m)
      (fun tracked step => InScope gix m rules tracked step ∧ StepFits gix m rules tracked step)
      tracked steps)
    (hcurrent : tracked.Current) {name : String} (hname : LinearRef rules name) {old : ObjectId}
    (hlast : tracked.last name = some old) :
    (Runs.run (Tracked.step gix m) tracked steps).Current ∧
      ∃ new, (Runs.run (Tracked.step gix m) tracked steps).last name = some new ∧
        InHistory gix.content new old := by
  refine Runs.invariant (I := fun tracked => tracked.Current ∧
    ∃ new, tracked.last name = some new ∧ InHistory gix.content new old) ?_
    ⟨hcurrent, old, hlast, .refl⟩ h
  rintro tracked step ⟨hcurrent, last, hlast, hold⟩ ⟨hscope, hfits⟩
  obtain ⟨new, hnew, hdescends⟩ := last_descends
    (refStep hcurrent hbase hscope hfits (Or.inr hname)) hcurrent hname hlast
  exact ⟨current_step tracked step, new, hnew, hdescends.trans hold⟩

/-- The rules hold of all that lands, over every run whose steps keep to them. -/
theorem historyKept_of_fits
    (hbase : ∀ store a b base, m.mergeBase store a b = some base →
      InHistory gix.content a base ∧ InHistory gix.content b base)
    (start : Repo) (steps : List RepoStep)
    (hscope : Runs.Throughout (Tracked.step gix m) (InScope gix m rules) (.start start) steps)
    (hfits : Runs.Throughout (Tracked.step gix m) (StepFits gix m rules) (.start start) steps) :
    HistoryKept gix m rules start steps := by
  have hboth : Runs.Throughout (Tracked.step gix m)
      (fun tracked step => InScope gix m rules tracked step ∧ StepFits gix m rules tracked step)
      (.start start) steps :=
    fun earlier step later heq => ⟨hscope earlier step later heq, hfits earlier step later heq⟩
  have hcurrent : ∀ earlier : List RepoStep,
      (Runs.run (Tracked.step gix m) (.start start) earlier).Current := by
    intro earlier
    induction earlier using List.reverseRecOn with
    | nil => exact current_start start
    | append_singleton earlier step _ =>
      rw [Runs.run_concat]
      exact current_step _ step
  have hrepo : ∀ earlier : List RepoStep,
      (Runs.run (Tracked.step gix m) (.start start) earlier).repo = repoAfter gix m start earlier :=
    repo_run (.start start)
  constructor
  · rintro earlier step later rfl
    obtain ⟨hscope', hfits'⟩ := hboth earlier step later rfl
    have hnext : repoAfter gix m start (earlier ++ [step]) =
        step.run gix m (repoAfter gix m start earlier) :=
      Runs.run_concat (RepoStep.run gix m) start earlier step
    rw [hnext, ← hrepo earlier]
    exact stepKept_of_refStep fun name hname =>
      refStep (hcurrent earlier) hbase hscope' hfits' hname
  · rintro earlier between later rfl name hname old new hold hnew
    rw [← hrepo] at hold hnew
    have hbetween := (Runs.throughout_append.1 (Runs.throughout_append.1 hboth).2).1
    obtain ⟨hend, last, hlast, hdescends⟩ := run_descends hbase hbetween (hcurrent earlier) hname
      (hcurrent earlier name old hold)
    rw [Runs.run_append] at hnew
    obtain rfl := Option.some.inj ((hend name new hnew).symm.trans hlast)
    exact hdescends

end Run

/-! ## Two runs of a protected branch -/

def signedCommit (parents : List ObjectId) : Object :=
  .commit (some ⟨2, parents, none, none, none, "", [("gpgsig", "signature")]⟩)

/-- The signed commits 1 and 4, and the commit 5 that a merge of them writes. -/
def signedGix : Gix :=
  { freshGix with
    content := fun id =>
      if id = 1 then signedCommit []
      else if id = 2 then .tree (some [])
      else if id = 4 then signedCommit [1]
      else if id = 5 then .commit (some freshMergeCommit)
      else .blob [] }

/-- The commit 1 is the merge base of itself and the commit 4. -/
def signedMerge : GixMerge :=
  { freshMerge with mergeBase := fun _ a b => if a = 1 ∧ (b = 1 ∨ b = 4) then some 1 else none }

/-- `main` requires signed commits and a linear history, and user 1 may push to it. -/
def strictRule : BranchProtectionRule := ⟨"main", 0, true, true, false, false, [], [.user 1]⟩

/-- User 1 may write to repository 5. -/
def strictDatabase : Database :=
  { Database.empty with
    repoAccess := [⟨5, .user 1, .write⟩]
    branchProtectionRules := [(5, strictRule)] }

/-- A push that creates `main` at the commit 1, and `topic` at the commit 4. -/
def signedPush : RepoStep :=
  .push [⟨zeroId, ObjectId.toHex 1, "refs/heads/main"⟩,
    ⟨zeroId, ObjectId.toHex 4, "refs/heads/topic"⟩] (utf8 "PACK")
    (ruleChecks (.user 1) [strictRule] none 0) none

def topicRequest : MergeRequest :=
  ⟨"refs/heads/topic", "topic", "main", "ada", "ada@example.org", "Merge", 0⟩

theorem history_of_signed {tip id : ObjectId} (htip : tip = 1 ∨ tip = 4)
    (h : InHistory signedGix.content tip id) : id = 1 ∨ id = 4 := by
  induction h with
  | refl => exact htip
  | tail _ hedge ih =>
    rcases ih with rfl | rfl
    · rcases hedge with hparent | ⟨tag, htag, -⟩
      · cases hparent
      · cases htag
    · rcases hedge with hparent | ⟨tag, htag, -⟩
      · exact Or.inl (List.mem_singleton.1 hparent)
      · cases htag

theorem ancestor_of_signed {tip id : ObjectId} (htip : tip = 1 ∨ tip = 4)
    (h : Ancestor signedGix.content id tip) : id = 1 ∨ id = 4 :=
  history_of_signed htip (.of_ancestor _ h)

theorem inScope_signedPush (tracked : Tracked) :
    InScope signedGix signedMerge [strictRule] tracked signedPush := by
  refine ⟨⟨strictDatabase, .user 1, ⟨5, "demo", .«public»⟩, ⟨0, none⟩, ?_⟩, ?_⟩
  · decide +kernel
  intro command hcommand new hnew
  have htip : new = 1 ∨ new = 4 := by
    simp only [List.mem_cons, List.not_mem_nil, or_false] at hcommand
    rcases hcommand with rfl | rfl
    · exact Or.inl (Option.some.inj (hnew.symm.trans (ObjectId.fromHex_toHex 1)))
    · exact Or.inr (Option.some.inj (hnew.symm.trans (ObjectId.fromHex_toHex 4)))
  refine AtMost.of_forall_mem [1, 4] ?_ (by decide)
  intro id hid
  rcases ancestor_of_signed htip hid with rfl | rfl
  · simp
  · simp

theorem fits_signedPush :
    StepFits signedGix signedMerge [strictRule] (.start freshRepo) signedPush := by
  refine ⟨by simp, ?_⟩
  intro command hcommand hvalue new hnew
  have htip : new = 1 ∨ new = 4 := by
    simp only [List.mem_cons, List.not_mem_nil, or_false] at hcommand
    rcases hcommand with rfl | rfl
    · exact Or.inl (Option.some.inj (hnew.symm.trans (ObjectId.fromHex_toHex 1)))
    · exact Or.inr (Option.some.inj (hnew.symm.trans (ObjectId.fromHex_toHex 4)))
  refine ⟨?_, ?_⟩
  · intro _
    refine ⟨by decide, ?_⟩
    intro id hid
    rcases ancestor_of_signed htip hid with rfl | rfl
    · rfl
    · rfl
  · -- no branch had a tip before
    intro _ hnone old hold
    simp only [Tracked.start, heldTip] at hold hnone
    rw [hnone] at hold
    cases hold

theorem mergeBase_of_signed (store : Store) (a b base : ObjectId)
    (h : signedMerge.mergeBase store a b = some base) :
    InHistory signedGix.content a base ∧ InHistory signedGix.content b base := by
  simp only [signedMerge] at h
  split at h
  · rename_i hids
    obtain rfl := Option.some.inj h
    obtain ⟨rfl, rfl | rfl⟩ := hids
    · exact ⟨.refl, .refl⟩
    · exact ⟨.refl, .single (Or.inl (by decide))⟩
  · cases h

/-- A fast-forward of `main` to the commit 4 keeps to the rules. -/
theorem fastForward_keeps_rules :
    HistoryKept signedGix signedMerge [strictRule] freshRepo
        [signedPush, .mergePull .fastForwardOnly topicRequest none] ∧
      (repoAfter signedGix signedMerge freshRepo
        [signedPush, .mergePull .fastForwardOnly topicRequest none]).refs.lookup "refs/heads/main" =
          some (.object 4) := by
  have hmoves : ∀ target source landing, Moves signedGix signedMerge
      ((Tracked.start freshRepo).step signedGix signedMerge signedPush).repo .fastForwardOnly
      topicRequest none target source landing → target = 1 ∧ source = 4 ∧ landing = ⟨[], 4⟩ := by
    rintro target source landing ⟨hsource, htarget, hlands⟩
    have hfour : source = 4 :=
      Except.ok.inj (hsource.symm.trans (by decide +kernel))
    have hone : target = 1 :=
      Except.ok.inj (htarget.symm.trans (by decide +kernel))
    subst hfour hone
    refine ⟨rfl, rfl, ?_⟩
    exact (Option.some.inj (Except.ok.inj hlands)).symm
  refine ⟨?_, by decide +kernel⟩
  refine historyKept_of_fits mergeBase_of_signed freshRepo _ ?_ ?_
  · refine Runs.throughout_cons.2 ⟨inScope_signedPush _, ?_⟩
    refine Runs.throughout_cons.2 ⟨?_, Runs.throughout_nil _⟩
    intro target source landing hmove
    obtain ⟨-, -, rfl⟩ := hmoves target source landing hmove
    simp
  · refine Runs.throughout_cons.2 ⟨fits_signedPush, ?_⟩
    refine Runs.throughout_cons.2 ⟨?_, Runs.throughout_nil _⟩
    intro target source landing hmove
    obtain ⟨rfl, rfl, rfl⟩ := hmoves target source landing hmove
    refine ⟨fun _ => ⟨rfl, ?_⟩, fun _ => ⟨by simp, fun _ => ?_⟩⟩
    · rintro id ⟨-, hid, -⟩
      rcases history_of_signed (Or.inr rfl) hid with rfl | rfl
      · exact ⟨_, rfl, ("gpgsig", "signature"), by simp, Or.inl rfl⟩
      · exact ⟨_, rfl, ("gpgsig", "signature"), by simp, Or.inl rfl⟩
    · rintro id ⟨-, hid, -⟩
      rcases history_of_signed (Or.inr rfl) hid with rfl | rfl
      · exact (by decide : ¬ 1 < (parentsOf signedGix.content 1).length)
      · exact (by decide : ¬ 1 < (parentsOf signedGix.content 4).length)

/-- A merge commit of the server lands on `main` without a signature. -/
theorem merge_breaks_rules :
    Runs.Throughout (Tracked.step signedGix signedMerge) (InScope signedGix signedMerge [strictRule])
        (.start freshRepo) [signedPush, .mergePull .merge topicRequest none] ∧
      ¬ HistoryKept signedGix signedMerge [strictRule] freshRepo
        [signedPush, .mergePull .merge topicRequest none] := by
  constructor
  · refine Runs.throughout_cons.2 ⟨inScope_signedPush _, ?_⟩
    refine Runs.throughout_cons.2 ⟨?_, Runs.throughout_nil _⟩
    rintro target source landing ⟨hsource, htarget, hlands⟩
    obtain rfl : source = 4 := Except.ok.inj (hsource.symm.trans (by decide +kernel))
    obtain rfl : target = 1 := Except.ok.inj (htarget.symm.trans (by decide +kernel))
    obtain rfl : landing = ⟨[freshMergeCommit], 5⟩ :=
      (Option.some.inj (Except.ok.inj hlands)).symm
    intro commit hcommit
    obtain rfl := List.mem_singleton.1 hcommit
    rfl
  · intro h
    have hprotects : SignedRef [strictRule] "refs/heads/main" :=
      ⟨strictRule, by simp, rfl, "main", rfl, by decide⟩
    have hbefore : (repoAfter signedGix signedMerge freshRepo [signedPush]).refs.lookup
        "refs/heads/main" = some (.object 1) := by decide +kernel
    have hafter : (repoAfter signedGix signedMerge freshRepo
        ([signedPush] ++ [.mergePull .merge topicRequest none])).refs.lookup "refs/heads/main" =
          some (.object 5) := by decide +kernel
    have hsigned := (h.landed [signedPush] _ [] rfl).signed "refs/heads/main" hprotects 5 ⟨?_, ?_⟩
    · obtain ⟨body, hbody, header, hheader, -⟩ := hsigned
      cases hbody
      cases hheader
    · exact ⟨rfl, 5, hafter, .refl⟩
    · rintro ⟨-, tip, htip, hid⟩
      obtain rfl : (1 : ObjectId) = tip := by
        rw [hbefore] at htip
        cases htip
        rfl
      rcases history_of_signed (Or.inl rfl) hid with heq | heq
      · exact absurd heq (by decide)
      · exact absurd heq (by decide)

end Edda.App
