import Edda.Git.Hooks

/-!
# When a history rejection is justified

The history checks of a push walk three times: over the history of the old value, over what the new
value adds to it, and from the new value in search of the old one. Every walk is bounded. Only the
second one tells when it was cut short.

`historyRejection_justified_iff` says exactly when a rejected update breaks the policy that the
rejection names, with no walk behind the rejection cut short: when the search ends or meets the old
value within its bound, and a cut in the history of the old value lets nothing through that is
rejected.
-/

set_option autoImplicit false

namespace Edda.Git

open Edda.Support Edda.Support.Worklist Edda.Domain

section Policy

variable (content : ObjectId → Object) (store : Store)

/-! ## The updates and their policies -/

/-- The tips that the texts of a command name; an old text without a value names none. -/
structure Tips (command : RefCommand) (old : Option ObjectId) (new : ObjectId) : Prop where
  written : command.newId ≠ zeroId
  new_read : ObjectId.fromHex command.newId = some new
  old_read : if isNoValue command.oldId then old = none
    else ∃ id, ObjectId.fromHex command.oldId = some id ∧ old = some id

theorem Tips.unique {command : RefCommand} {old old' : Option ObjectId} {new new' : ObjectId}
    (h : Tips command old new) (h' : Tips command old' new') : old = old' ∧ new = new' := by
  refine ⟨?_, Option.some.inj (h.new_read.symm.trans h'.new_read)⟩
  have hold := h.old_read
  have hold' := h'.old_read
  by_cases hvalue : isNoValue command.oldId = true
  · rw [if_pos hvalue] at hold hold'
    rw [hold, hold']
  · rw [if_neg hvalue] at hold hold'
    obtain ⟨id, hid, rfl⟩ := hold
    obtain ⟨id', hid', rfl⟩ := hold'
    exact hid.symm.trans hid'

/-- Every ancestor of the tip is a stored commit. -/
structure CommitGraph (tip : ObjectId) : Prop where
  stored : ∀ id, Ancestor content id tip → id ∈ store
  commit : ∀ id, Ancestor content id tip → ∃ body, content id = .commit (some body)

/-- The update adds the commit: the new value reaches it and the old one does not. -/
def Added (old : Option ObjectId) (new id : ObjectId) : Prop :=
  Ancestor content id new ∧ ∀ tip, old = some tip → ¬ Ancestor content id tip

def IsMerge (id : ObjectId) : Prop := 1 < (parentsOf content id).length

/-- The commit carries a signature header. -/
def IsSigned (id : ObjectId) : Prop :=
  ∃ body, content id = .commit (some body) ∧
    ∃ header ∈ body.extraHeaders, header.1 = "gpgsig" ∨ header.1 = "gpgsig-sha256"

def nonFastForwardReason (command : RefCommand) : String :=
  command.refName ++ ": non-fast-forward push to a linear-history branch"

def mergeReason (command : RefCommand) (id : ObjectId) : String :=
  command.refName ++ ": merge commit " ++ id.toHex ++ " — this branch requires a linear history"

def unsignedReason (command : RefCommand) (id : ObjectId) : String :=
  command.refName ++ ": commit " ++ id.toHex ++
    " is unsigned — this branch requires signed commits"

/-! ## The walks behind a rejection -/

/-- Whether the search for `ancestor` ends within the next `steps` entries, because it meets the
commit or because nothing is left on the queue. -/
def searchEnds (ancestor : ObjectId) : Nat → List ObjectId → List ObjectId → Bool
  | _, [], _ => true
  | 0, _ :: _, _ => false
  | steps + 1, id :: queue, seen =>
    if id ∈ seen then searchEnds ancestor steps queue seen
    else if id = ancestor then true
    else searchEnds ancestor steps ((walkParents content store id).reverse ++ queue) (id :: seen)

/-- The search of `isAncestor` is not cut short. -/
def AncestorKnown (ancestor descendant : ObjectId) : Prop :=
  ancestor = descendant ∨ searchEnds content store ancestor maxWalk [descendant] [] = true

/-- The commits of the old value's history that are inspected. -/
def inspected (old : Option ObjectId) : List ObjectId :=
  match old with
  | none => []
  | some id => (walkHistory content store (fun _ => false) id).visited

/-- The history of the old value is inspected to its end. -/
def OldKnown (old : Option ObjectId) : Prop :=
  ∀ id, old = some id → (walkHistory content store (fun _ => false) id).failure = none

/-- The walk from the new value up to what was inspected of the old one's history. -/
def newWalk (old : Option ObjectId) (new : ObjectId) : State ObjectId Unit :=
  walkHistory content store (fun id => decide (id ∈ inspected content store old)) new

/-- The new value reaches the commit past what was inspected. -/
def Listed (old : Option ObjectId) (new id : ObjectId) : Prop :=
  id ∈ (newWalk content store old new).visited

/-- A rejection that is justified: the update breaks the policy it names, and no walk behind it was
cut short. -/
inductive Justified (command : RefCommand) : String → Prop
  | nonFastForward (old new : ObjectId) : Tips command (some old) new →
      AncestorKnown content store old new → ¬ Ancestor content old new →
      Justified command (nonFastForwardReason command)
  | merge (old : Option ObjectId) (new named id : ObjectId) : Tips command old new →
      OldKnown content store old → (newWalk content store old new).failure = none →
      Added content old new id → IsMerge content id → Justified command (mergeReason command named)
  | unsigned (old : Option ObjectId) (new named id : ObjectId) : Tips command old new →
      OldKnown content store old → (newWalk content store old new).failure = none →
      Added content old new id → ¬ IsSigned content id →
      Justified command (unsignedReason command named)

/-! ## The search for the old value -/

/-- A search that ends without a hit has seen everything the queue reaches. -/
theorem not_ancestor_of_searchEnds {ancestor : ObjectId} {steps : Nat}
    {queue seen : List ObjectId}
    (hends : searchEnds content store ancestor steps queue seen = true)
    (hmiss : isAncestorWithin content store ancestor steps queue seen = false)
    (hseen : ∀ id ∈ seen, id ≠ ancestor ∧
      ∀ parent ∈ walkParents content store id, parent ∈ seen ∨ parent ∈ queue) :
    ∃ known : List ObjectId, (∀ id ∈ seen ++ queue, id ∈ known) ∧ ancestor ∉ known ∧
      ∀ id ∈ known, ∀ parent ∈ walkParents content store id, parent ∈ known := by
  induction steps generalizing queue seen with
  | zero =>
    cases queue with
    | cons id queue => simp [searchEnds] at hends
    | nil =>
      refine ⟨seen, by simp, fun h => (hseen ancestor h).1 rfl, ?_⟩
      intro id hid parent hparent
      simpa using (hseen id hid).2 parent hparent
  | succ steps ih =>
    cases queue with
    | nil =>
      refine ⟨seen, by simp, fun h => (hseen ancestor h).1 rfl, ?_⟩
      intro id hid parent hparent
      simpa using (hseen id hid).2 parent hparent
    | cons id queue =>
      simp only [searchEnds] at hends
      simp only [isAncestorWithin] at hmiss
      by_cases hold : id ∈ seen
      · -- an entry that was seen before is dropped
        rw [if_pos hold] at hends hmiss
        obtain ⟨known, hsub, hnot, hclosed⟩ := ih hends hmiss (by
          intro other hother
          refine ⟨(hseen other hother).1, ?_⟩
          intro parent hparent
          rcases (hseen other hother).2 parent hparent with h | h
          · exact Or.inl h
          · rcases List.mem_cons.1 h with rfl | h
            · exact Or.inl hold
            · exact Or.inr h)
        refine ⟨known, ?_, hnot, hclosed⟩
        intro other hother
        rcases List.mem_append.1 hother with h | h
        · exact hsub other (List.mem_append_left _ h)
        · rcases List.mem_cons.1 h with rfl | h
          · exact hsub _ (List.mem_append_left _ hold)
          · exact hsub other (List.mem_append_right _ h)
      · rw [if_neg hold] at hends hmiss
        by_cases hhit : id = ancestor
        · simp [hhit] at hmiss
        · rw [if_neg hhit] at hends hmiss
          obtain ⟨known, hsub, hnot, hclosed⟩ := ih hends hmiss (by
            intro other hother
            rcases List.mem_cons.1 hother with rfl | hother
            · refine ⟨hhit, ?_⟩
              intro parent hparent
              exact Or.inr (List.mem_append_left _ (List.mem_reverse.2 hparent))
            · refine ⟨(hseen other hother).1, ?_⟩
              intro parent hparent
              rcases (hseen other hother).2 parent hparent with h | h
              · exact Or.inl (List.mem_cons_of_mem _ h)
              · rcases List.mem_cons.1 h with rfl | h
                · exact Or.inl List.mem_cons_self
                · exact Or.inr (List.mem_append_right _ h))
          refine ⟨known, ?_, hnot, hclosed⟩
          intro other hother
          rcases List.mem_append.1 hother with h | h
          · exact hsub other (List.mem_append_left _ (List.mem_cons_of_mem _ h))
          · rcases List.mem_cons.1 h with rfl | h
            · exact hsub _ (List.mem_append_left _ List.mem_cons_self)
            · exact hsub other (List.mem_append_right _ (List.mem_append_right _ h))

/-- Where the search was not cut short, an ancestor that it does not find is none. -/
theorem not_ancestor_of_known {ancestor descendant : ObjectId}
    (hgraph : CommitGraph content store descendant)
    (hknown : AncestorKnown content store ancestor descendant)
    (hmiss : isAncestor content store ancestor descendant = false) :
    ¬ Ancestor content ancestor descendant := by
  simp only [isAncestor, Bool.or_eq_false_iff, decide_eq_false_iff_not] at hmiss
  obtain ⟨known, hsub, hnot, hclosed⟩ := not_ancestor_of_searchEnds content store
    (hknown.resolve_left hmiss.1) hmiss.2 (by simp)
  intro hanc
  have hall : ∀ id, Ancestor content id descendant → id ∈ known := by
    intro id hid
    induction hid with
    | refl => exact hsub descendant (by simp)
    | @tail child parent hchild hparent ih =>
      apply hclosed child ih
      rw [walkParents_of_mem content store (hgraph.stored child hchild)]
      exact hparent
  exact hnot (hall ancestor hanc)

/-! ## The walk over what is added -/

/-- The inspection of an update, told by its walks. -/
theorem addedCommits_of_tips {command : RefCommand} {old : Option ObjectId} {new : ObjectId}
    (htips : Tips command old new) :
    addedCommits content store command.oldId command.newId =
      .ok ⟨(newWalk content store old new).order, old.all fun id => isAncestor content store id new,
        (newWalk content store old new).failure.isSome⟩ := by
  have hold := htips.old_read
  simp only [addedCommits, htips.new_read]
  by_cases hvalue : isNoValue command.oldId = true
  · rw [if_pos hvalue] at hold
    subst hold
    simp [hvalue, newWalk, inspected]
  · rw [if_neg hvalue] at hold
    obtain ⟨id, hid, rfl⟩ := hold
    simp only [hvalue, hid, Bool.false_eq_true, if_false]
    rfl

/-- Once the history of the old value is inspected to its end, the walk lists added commits only. -/
theorem added_of_listed {old : Option ObjectId} {new id : ObjectId}
    (hgraph : ∀ tip, old = some tip → CommitGraph content store tip)
    (hknown : OldKnown content store old) (hid : Listed content store old new id) :
    Added content old new id := by
  refine ⟨ancestor_of_mem_walkHistory content store hid, ?_⟩
  intro tip htip hanc
  subst htip
  -- a visited commit is not one that the walk skips
  have hskip := ((run_sound _ [new] _).reached id hid).skip_eq_false
  rcases mem_walkHistory content store (hgraph tip rfl).stored (hknown tip rfl) hanc with
    hvisited | ⟨_, hskipped, _⟩
  · exact of_decide_eq_false hskip hvisited
  · exact absurd hskipped (by simp)

theorem isMergeCommit_iff {tip id : ObjectId} (hgraph : CommitGraph content store tip)
    (hid : Ancestor content id tip) :
    isMergeCommit content store id = true ↔ IsMerge content id := by
  obtain ⟨body, hbody⟩ := hgraph.commit id hid
  simp only [isMergeCommit, commitParents, findObject_of_mem content (hgraph.stored id hid), hbody,
    IsMerge, decide_eq_true_eq]

theorem commitIsSigned_iff {tip id : ObjectId} (hgraph : CommitGraph content store tip)
    (hid : Ancestor content id tip) :
    commitIsSigned content store id = true ↔ IsSigned content id := by
  obtain ⟨body, hbody⟩ := hgraph.commit id hid
  simp only [commitIsSigned, findObject_of_mem content (hgraph.stored id hid), IsSigned, hbody,
    List.any_eq_true, Bool.or_eq_true, decide_eq_true_eq, Object.commit.injEq, Option.some.injEq,
    exists_eq_left']

/-! ## The rejections -/

variable (checks : ReceiveChecks)

def NeedsLinear (command : RefCommand) : Prop :=
  anyPatternMatches checks.linearHistoryRefPatterns command.refName = true

def NeedsSigned (command : RefCommand) : Prop :=
  anyPatternMatches checks.signedCommitRefPatterns command.refName = true

/-- The search meets the old value, where there is one. -/
def MeetsOld (old : Option ObjectId) (new : ObjectId) : Prop :=
  ∀ tip, old = some tip → isAncestor content store tip new = true

/-- Why an update is rejected. -/
inductive RejectionCase (command : RefCommand) (old : Option ObjectId) (new : ObjectId) :
    String → Prop
  | nonFastForward (tip : ObjectId) : NeedsLinear checks command → old = some tip →
      isAncestor content store tip new = false →
      RejectionCase command old new (nonFastForwardReason command)
  | merge (id : ObjectId) : NeedsLinear checks command → MeetsOld content store old new →
      (newWalk content store old new).failure = none → Listed content store old new id →
      isMergeCommit content store id = true →
      RejectionCase command old new (mergeReason command id)
  | unsigned (id : ObjectId) : NeedsSigned checks command →
      (NeedsLinear checks command → MeetsOld content store old new) →
      (newWalk content store old new).failure = none → Listed content store old new id →
      commitIsSigned content store id = false →
      RejectionCase command old new (unsignedReason command id)

theorem meetsOld_iff {old : Option ObjectId} {new : ObjectId} :
    (old.all fun id => isAncestor content store id new) = true ↔ MeetsOld content store old new := by
  cases old <;> simp [MeetsOld]

theorem linearRejection_cases {command : RefCommand} {old : Option ObjectId} {new : ObjectId}
    {reason : String} (hneeds : NeedsLinear checks command)
    (h : linearRejection content store command
      ⟨(newWalk content store old new).order, old.all fun id => isAncestor content store id new,
        (newWalk content store old new).failure.isSome⟩ = some reason) :
    RejectionCase content store checks command old new reason := by
  simp only [linearRejection] at h
  split at h
  · rename_i hff
    obtain rfl := Option.some.inj h
    cases old with
    | none => simp at hff
    | some tip => exact .nonFastForward tip hneeds rfl (by simpa using hff)
  · rename_i hff
    have hmeets := (meetsOld_iff content store).1 (by simpa using hff)
    split at h
    · exact absurd h (by simp)
    · rename_i hcomplete
      obtain ⟨id, hfind, rfl⟩ := Option.map_eq_some_iff.1 h
      exact .merge id hneeds hmeets (by simpa using hcomplete)
        (List.mem_reverse.1 (List.mem_of_find?_eq_some hfind)) (List.find?_some hfind)

theorem signedRejection_cases {command : RefCommand} {old : Option ObjectId} {new : ObjectId}
    {reason : String} (ff : Bool) (hneeds : NeedsSigned checks command)
    (hmeets : NeedsLinear checks command → MeetsOld content store old new)
    (h : signedRejection content store command
      ⟨(newWalk content store old new).order, ff,
        (newWalk content store old new).failure.isSome⟩ = some reason) :
    RejectionCase content store checks command old new reason := by
  simp only [signedRejection] at h
  split at h
  · exact absurd h (by simp)
  · rename_i hcomplete
    obtain ⟨id, hfind, rfl⟩ := Option.map_eq_some_iff.1 h
    exact .unsigned id hneeds hmeets (by simpa using hcomplete)
      (List.mem_reverse.1 (List.mem_of_find?_eq_some hfind)) (by simpa using List.find?_some hfind)

/-- A rejected update has tips that can be read. -/
theorem tips_of_commandRejection {command : RefCommand} {reason : String}
    (h : commandRejection content store checks command = some reason) :
    ∃ old new, Tips command old new := by
  simp only [commandRejection] at h
  split at h
  · exact absurd h (by simp)
  · rename_i hwritten
    split at h
    · exact absurd h (by simp)
    · cases hadded : addedCommits content store command.oldId command.newId with
      | error e => simp [hadded] at h
      | ok added =>
        simp only [addedCommits] at hadded
        split at hadded
        · exact absurd hadded (by simp)
        · rename_i new hnew
          by_cases hvalue : isNoValue command.oldId = true
          · exact ⟨none, new, hwritten, hnew, by rw [if_pos hvalue]⟩
          · rw [if_neg hvalue] at hadded
            split at hadded
            · exact absurd hadded (by simp)
            · rename_i old hold
              exact ⟨some old, new, hwritten, hnew, by rw [if_neg hvalue]; exact ⟨old, hold, rfl⟩⟩

theorem commandRejection_cases {command : RefCommand} {old : Option ObjectId} {new : ObjectId}
    {reason : String} (htips : Tips command old new)
    (h : commandRejection content store checks command = some reason) :
    RejectionCase content store checks command old new reason := by
  simp only [commandRejection, if_neg htips.written, addedCommits_of_tips content store htips] at h
  split at h
  · exact absurd h (by simp)
  · rcases Option.or_eq_some_iff.1 h with hlinear | ⟨hpassed, hsigned⟩
    · split at hlinear
      · rename_i hneeds
        exact linearRejection_cases content store checks hneeds hlinear
      · exact absurd hlinear (by simp)
    · split at hsigned
      · -- the signatures are looked at once the linear check has passed
        rename_i hneeds
        refine signedRejection_cases content store checks _ hneeds ?_ hsigned
        intro hlinear
        simp only [NeedsLinear] at hlinear
        rw [if_pos hlinear] at hpassed
        exact (meetsOld_iff content store).1 (linearRejection_eq_none content store hpassed).1
      · exact absurd hsigned (by simp)

/-- The tips of the update have histories of stored commits. -/
def Graphs (command : RefCommand) : Prop :=
  ∀ old new, Tips command old new →
    CommitGraph content store new ∧ ∀ tip, old = some tip → CommitGraph content store tip

/-- No walk that was cut short can reject the update: the search for the old value ends or meets it,
and where the history of the old value is not inspected to its end, the commits reached past it are
in order. -/
structure Conclusive (command : RefCommand) : Prop where
  search : NeedsLinear checks command → ∀ old new, Tips command (some old) new →
    isAncestor content store old new = true ∨ AncestorKnown content store old new
  merges : NeedsLinear checks command → ∀ old new, Tips command old new →
    MeetsOld content store old new →
    (newWalk content store old new).failure = none → ¬ OldKnown content store old →
    ∀ id, Listed content store old new id → ¬ IsMerge content id
  signatures : NeedsSigned checks command → ∀ old new, Tips command old new →
    (NeedsLinear checks command → MeetsOld content store old new) →
    (newWalk content store old new).failure = none → ¬ OldKnown content store old →
    ∀ id, Listed content store old new id → IsSigned content id

theorem nonFastForwardReason_ne_mergeReason (command : RefCommand) (id : ObjectId) :
    nonFastForwardReason command ≠ mergeReason command id := by
  intro h
  have htext := congrArg String.toList h
  simp [nonFastForwardReason, mergeReason, String.toList_append, List.append_assoc] at htext

theorem nonFastForwardReason_ne_unsignedReason (command : RefCommand) (id : ObjectId) :
    nonFastForwardReason command ≠ unsignedReason command id := by
  intro h
  have htext := congrArg String.toList h
  simp [nonFastForwardReason, unsignedReason, String.toList_append, List.append_assoc] at htext

/-- A justified rejection says that a known old value is left behind, or rests on a complete
inspection. -/
theorem Justified.cases {command : RefCommand} {reason : String}
    (h : Justified content store command reason) :
    (reason = nonFastForwardReason command ∧ ∃ old new, Tips command (some old) new ∧
      AncestorKnown content store old new) ∨
    (reason ≠ nonFastForwardReason command ∧ ∃ old new, Tips command old new ∧
      OldKnown content store old) := by
  cases h with
  | nonFastForward old new htips hknown _ => exact Or.inl ⟨rfl, old, new, htips, hknown⟩
  | merge old new named id htips hknown _ _ _ =>
    exact Or.inr ⟨(nonFastForwardReason_ne_mergeReason command named).symm, old, new, htips,
      hknown⟩
  | unsigned old new named id htips hknown _ _ _ =>
    exact Or.inr ⟨(nonFastForwardReason_ne_unsignedReason command named).symm, old, new, htips,
      hknown⟩

/-- Every rejection of a conclusive update is justified. -/
theorem justified_of_conclusive {command : RefCommand} {reason : String}
    (hgraph : Graphs content store command) (hconclusive : Conclusive content store checks command)
    (h : commandRejection content store checks command = some reason) :
    Justified content store command reason := by
  obtain ⟨old, new, htips⟩ := tips_of_commandRejection content store checks h
  obtain ⟨hnew, hold⟩ := hgraph old new htips
  cases commandRejection_cases content store checks htips h with
  | nonFastForward tip hneeds heq hmiss =>
    subst heq
    rcases hconclusive.search hneeds tip new htips with hff | hknown
    · simp [hmiss] at hff
    · exact .nonFastForward tip new htips hknown
        (not_ancestor_of_known content store hnew hknown hmiss)
  | merge id hneeds hmeets hcomplete hlisted hmerge =>
    have hanc := ancestor_of_mem_walkHistory content store hlisted
    have hismerge := (isMergeCommit_iff content store hnew hanc).1 hmerge
    by_cases hknown : OldKnown content store old
    · exact .merge old new id id htips hknown hcomplete
        (added_of_listed content store hold hknown hlisted) hismerge
    · exact absurd hismerge
        (hconclusive.merges hneeds old new htips hmeets hcomplete hknown id hlisted)
  | unsigned id hneeds hmeets hcomplete hlisted hunsigned =>
    have hanc := ancestor_of_mem_walkHistory content store hlisted
    have hnotsigned : ¬ IsSigned content id := by
      intro hsigned
      simp [(commitIsSigned_iff content store hnew hanc).2 hsigned] at hunsigned
    by_cases hknown : OldKnown content store old
    · exact .unsigned old new id id htips hknown hcomplete
        (added_of_listed content store hold hknown hlisted) hnotsigned
    · exact absurd
        (hconclusive.signatures hneeds old new htips hmeets hcomplete hknown id hlisted) hnotsigned

theorem historyRejection_singleton (command : RefCommand) :
    historyRejection content store checks [command] =
      commandRejection content store checks command := by
  simp only [historyRejection, List.findSome?_cons, List.findSome?_nil]
  cases commandRejection content store checks command <;> rfl

/-- An update that breaks a policy, as far as it was inspected, is rejected. -/
theorem exists_rejection {command : RefCommand} {old : Option ObjectId} {new : ObjectId}
    (htips : Tips command old new)
    (hbroken : ¬ HistoryAccepted content store checks command
      ⟨(newWalk content store old new).order, old.all fun id => isAncestor content store id new,
        (newWalk content store old new).failure.isSome⟩) :
    ∃ reason, commandRejection content store checks command = some reason := by
  cases hresult : commandRejection content store checks command with
  | some reason => exact ⟨reason, rfl⟩
  | none =>
    have hpassed : historyRejection content store checks [command] = none := by
      rw [historyRejection_singleton, hresult]
    exact absurd (historyRejection_eq_none content store checks hpassed List.mem_cons_self
      htips.written (addedCommits_of_tips content store htips)) hbroken

/-- On a linear branch an update whose search misses the old value is rejected as no fast-forward. -/
theorem commandRejection_of_missed {command : RefCommand} {old : Option ObjectId} {new : ObjectId}
    (htips : Tips command old new) (hneeds : NeedsLinear checks command)
    (hmissed : ¬ MeetsOld content store old new) :
    commandRejection content store checks command = some (nonFastForwardReason command) := by
  obtain ⟨reason, hreason⟩ := exists_rejection content store checks htips (by
    intro haccepted
    exact hmissed ((meetsOld_iff content store).1 (haccepted.fastForward hneeds)))
  rw [hreason]
  cases commandRejection_cases content store checks htips hreason with
  | nonFastForward _ _ _ _ => rfl
  | merge _ _ hmeets _ _ _ => exact absurd hmeets hmissed
  | unsigned _ _ hmeets _ _ _ => exact absurd (hmeets hneeds) hmissed

/-- A justified rejection of an update whose old value was met rests on a complete inspection. -/
theorem oldKnown_of_justified {command : RefCommand} {old : Option ObjectId} {new : ObjectId}
    {reason : String} (htips : Tips command old new)
    (hmeets : NeedsLinear checks command → MeetsOld content store old new)
    (hrejected : commandRejection content store checks command = some reason)
    (h : Justified content store command reason) : OldKnown content store old := by
  rcases h.cases content store with ⟨hreason, _⟩ | ⟨_, old', new', htips', hknown⟩
  · -- the text of a fast-forward rejection belongs to no other case
    cases commandRejection_cases content store checks htips hrejected with
    | nonFastForward tip hneeds heq hmiss =>
      simp [hmeets hneeds tip heq] at hmiss
    | merge id _ _ _ _ _ =>
      exact absurd hreason.symm (nonFastForwardReason_ne_mergeReason command id)
    | unsigned id _ _ _ _ _ =>
      exact absurd hreason.symm (nonFastForwardReason_ne_unsignedReason command id)
  · rw [(htips.unique htips').1]
    exact hknown

/-- An update whose rejections are all justified is conclusive. -/
theorem conclusive_of_justified {command : RefCommand} (hgraph : Graphs content store command)
    (h : ∀ reason, commandRejection content store checks command = some reason →
      Justified content store command reason) : Conclusive content store checks command where
  search := by
    intro hneeds old new htips
    cases hff : isAncestor content store old new with
    | true => exact Or.inl rfl
    | false =>
      right
      have hmissed : ¬ MeetsOld content store (some old) new := by
        intro hmeets
        simp [hmeets old rfl] at hff
      have hjustified := h _ (commandRejection_of_missed content store checks htips hneeds hmissed)
      rcases hjustified.cases content store with ⟨_, old', new', htips', hknown⟩ | ⟨hne, _⟩
      · obtain ⟨heq, rfl⟩ := htips.unique htips'
        rw [Option.some.inj heq]
        exact hknown
      · exact absurd rfl hne
  merges := by
    intro hneeds old new htips hmeets hcomplete hunknown id hlisted hmerge
    obtain ⟨reason, hreason⟩ := exists_rejection content store checks htips (by
      intro haccepted
      have hlinear := haccepted.linear hneeds (by simp [hcomplete]) id (List.mem_reverse.2 hlisted)
      have hanc := ancestor_of_mem_walkHistory content store hlisted
      simp [(isMergeCommit_iff content store (hgraph old new htips).1 hanc).2 hmerge] at hlinear)
    exact hunknown (oldKnown_of_justified content store checks htips (fun _ => hmeets) hreason
      (h reason hreason))
  signatures := by
    intro hneeds old new htips hmeets hcomplete hunknown id hlisted
    by_contra hunsigned
    obtain ⟨reason, hreason⟩ := exists_rejection content store checks htips (by
      intro haccepted
      have hsigned := haccepted.signed hneeds (by simp [hcomplete]) id (List.mem_reverse.2 hlisted)
      have hanc := ancestor_of_mem_walkHistory content store hlisted
      exact hunsigned ((commitIsSigned_iff content store (hgraph old new htips).1 hanc).1 hsigned))
    exact hunknown (oldKnown_of_justified content store checks htips hmeets hreason
      (h reason hreason))

/-- A push is rejected for one of its updates, and every rejection of an update is justified exactly
when the updates are conclusive. -/
theorem historyRejection_justified_iff (commands : List RefCommand)
    (hgraph : ∀ command ∈ commands, Graphs content store command) :
    ((∀ command ∈ commands, ∀ reason,
        historyRejection content store checks [command] = some reason →
          Justified content store command reason) ↔
      ∀ command ∈ commands, Conclusive content store checks command) ∧
    ∀ reason, historyRejection content store checks commands = some reason →
      ∃ command ∈ commands, historyRejection content store checks [command] = some reason := by
  refine ⟨⟨?_, ?_⟩, ?_⟩
  · intro h command hmem
    refine conclusive_of_justified content store checks (hgraph command hmem) ?_
    intro reason hreason
    exact h command hmem reason (by rw [historyRejection_singleton, hreason])
  · intro h command hmem reason hreason
    rw [historyRejection_singleton] at hreason
    exact justified_of_conclusive content store checks (hgraph command hmem) (h command hmem)
      hreason
  · intro reason hreason
    obtain ⟨command, hmem, hcommand⟩ := List.exists_of_findSome?_eq_some hreason
    exact ⟨command, hmem, by rw [historyRejection_singleton, hcommand]⟩

end Policy

/-! ## A history past the bound -/

/-- Every commit but the first has the one before it as its parent. -/
def chainContent (id : ObjectId) : Object :=
  plainCommit 0 (if 1 < id.toNat then [BitVec.ofNat 160 (id.toNat - 1)] else [])

def chainStore : Store := (List.range 4002).map (BitVec.ofNat 160)

def linearMain : ReceiveChecks := { ReceiveChecks.default with linearHistoryRefPatterns := ["refs/heads/main"] }

/-- A fast-forward of 4000 commits. -/
def longPush : RefCommand :=
  ⟨ObjectId.toHex (BitVec.ofNat 160 1), ObjectId.toHex (BitVec.ofNat 160 4001), "refs/heads/main"⟩

theorem toNat_chain {n : Nat} (hn : n ≤ 4001) : (BitVec.ofNat 160 n).toNat = n := by
  simp only [BitVec.toNat_ofNat]
  omega

theorem mem_chainStore {n : Nat} (hn : n ≤ 4001) : BitVec.ofNat 160 n ∈ chainStore :=
  List.mem_map.2 ⟨n, List.mem_range.2 (by omega), rfl⟩

theorem parentsOf_chain {n : Nat} (hn : n ≤ 4001) :
    parentsOf chainContent (BitVec.ofNat 160 n) =
      if 1 < n then [BitVec.ofNat 160 (n - 1)] else [] := by
  simp only [parentsOf, chainContent, plainCommit, toNat_chain hn]

theorem chainGraph {n : Nat} (hn : n ≤ 4001) :
    CommitGraph chainContent chainStore (BitVec.ofNat 160 n) := by
  have hwithin : ∀ id, Ancestor chainContent id (BitVec.ofNat 160 n) →
      ∃ m ≤ 4001, id = BitVec.ofNat 160 m := by
    intro id hid
    induction hid with
    | refl => exact ⟨n, hn, rfl⟩
    | tail _ hparent ih =>
      obtain ⟨m, hm, rfl⟩ := ih
      rw [parentsOf_chain hm] at hparent
      split at hparent
      · exact ⟨m - 1, by omega, List.mem_singleton.1 hparent⟩
      · simp at hparent
  refine ⟨?_, ?_⟩
  · intro id hid
    obtain ⟨m, hm, rfl⟩ := hwithin id hid
    exact mem_chainStore hm
  · intro id _
    exact ⟨_, rfl⟩

theorem chain_ancestor {n : Nat} (hpos : 0 < n) (hn : n ≤ 4001) :
    Ancestor chainContent (BitVec.ofNat 160 1) (BitVec.ofNat 160 n) := by
  induction n with
  | zero => omega
  | succ n ih =>
    by_cases hfirst : n = 0
    · subst hfirst
      exact Relation.ReflTransGen.refl
    · refine Relation.ReflTransGen.head ?_ (ih (by omega) (by omega))
      rw [parentsOf_chain hn, if_pos (by omega)]
      simp

/-- A search with fewer steps than there are commits does not get to the first one. -/
theorem search_chain (steps : Nat) (seen : List ObjectId) {n : Nat} (hsteps : steps < n)
    (hn : n ≤ 4001) :
    isAncestorWithin chainContent chainStore (BitVec.ofNat 160 1) steps [BitVec.ofNat 160 n] seen =
      false := by
  induction steps generalizing n seen with
  | zero => rfl
  | succ steps ih =>
    simp only [isAncestorWithin]
    split
    · cases steps <;> rfl
    · rw [if_neg]
      · rw [walkParents_of_mem chainContent chainStore (mem_chainStore hn), parentsOf_chain hn,
          if_pos (by omega)]
        exact ih _ (by omega) (by omega)
      · intro heq
        have htoNat := congrArg BitVec.toNat heq
        rw [toNat_chain hn, toNat_chain (by omega)] at htoNat
        omega

theorem tips_longPush : Tips longPush (some (BitVec.ofNat 160 1)) (BitVec.ofNat 160 4001) where
  written := by decide +kernel
  new_read := ObjectId.fromHex_toHex _
  old_read := by
    have hvalue : isNoValue longPush.oldId = false := by decide +kernel
    simp only [hvalue, Bool.false_eq_true, if_false]
    exact ⟨_, ObjectId.fromHex_toHex _, rfl⟩

/-- The search for the old value runs out of steps, and the fast-forward is rejected as none. -/
theorem fastForward_rejected :
    historyRejection chainContent chainStore linearMain [longPush] =
        some (nonFastForwardReason longPush) ∧
      Tips longPush (some (BitVec.ofNat 160 1)) (BitVec.ofNat 160 4001) ∧
      CommitGraph chainContent chainStore (BitVec.ofNat 160 4001) ∧
      Ancestor chainContent (BitVec.ofNat 160 1) (BitVec.ofNat 160 4001) := by
  have hneeds : NeedsLinear linearMain longPush := by
    simp only [NeedsLinear]
    decide +kernel
  have hmiss : isAncestor chainContent chainStore (BitVec.ofNat 160 1) (BitVec.ofNat 160 4001) =
      false := by
    simp only [isAncestor, Bool.or_eq_false_iff]
    exact ⟨by decide, search_chain maxWalk [] (by simp [maxWalk]) (Nat.le_refl _)⟩
  have hmissed : ¬ MeetsOld chainContent chainStore (some (BitVec.ofNat 160 1))
      (BitVec.ofNat 160 4001) := by
    intro hmeets
    simp [hmeets _ rfl] at hmiss
  refine ⟨?_, tips_longPush, chainGraph (Nat.le_refl _), chain_ancestor (by decide) (Nat.le_refl _)⟩
  rw [historyRejection_singleton]
  exact commandRejection_of_missed chainContent chainStore linearMain tips_longPush hneeds hmissed

/-- The branch goes back by one commit. -/
def rewind : RefCommand :=
  ⟨ObjectId.toHex (BitVec.ofNat 160 2), ObjectId.toHex (BitVec.ofNat 160 1), "refs/heads/main"⟩

theorem tips_rewind : Tips rewind (some (BitVec.ofNat 160 2)) (BitVec.ofNat 160 1) where
  written := by decide +kernel
  new_read := ObjectId.fromHex_toHex _
  old_read := by
    have hvalue : isNoValue rewind.oldId = false := by decide +kernel
    simp only [hvalue, Bool.false_eq_true, if_false]
    exact ⟨_, ObjectId.fromHex_toHex _, rfl⟩

theorem rewind_rejection_justified :
    Justified chainContent chainStore rewind (nonFastForwardReason rewind) := by
  have hmissed : ¬ MeetsOld chainContent chainStore (some (BitVec.ofNat 160 2))
      (BitVec.ofNat 160 1) := by
    intro hmeets
    have hanc := ancestor_of_isAncestor chainContent chainStore (hmeets _ rfl)
    rcases Relation.ReflTransGen.cases_head hanc with heq | ⟨parent, hparent, _⟩
    · exact absurd heq (by decide)
    · rw [parentsOf_chain (by decide)] at hparent
      simp at hparent
  refine (historyRejection_justified_iff chainContent chainStore linearMain [rewind] ?_).1.2 ?_
    rewind List.mem_cons_self _ ?_
  · intro command hmem old new htips
    obtain rfl := List.mem_singleton.1 hmem
    obtain ⟨rfl, rfl⟩ := tips_rewind.unique htips
    refine ⟨chainGraph (by decide), ?_⟩
    intro tip htip
    obtain rfl := Option.some.inj htip
    exact chainGraph (by decide)
  · intro command hmem
    obtain rfl := List.mem_singleton.1 hmem
    refine ⟨?_, ?_, ?_⟩
    · intro _ old new htips
      obtain ⟨heq, rfl⟩ := tips_rewind.unique htips
      obtain rfl := Option.some.inj heq
      right
      right
      simp only [maxWalk, searchEnds]
      rw [walkParents_of_mem chainContent chainStore (mem_chainStore (by decide)),
        parentsOf_chain (by decide)]
      decide
    · intro _ old new htips hmeets
      obtain ⟨rfl, rfl⟩ := tips_rewind.unique htips
      exact absurd hmeets hmissed
    · intro hneeds
      simp [NeedsSigned, linearMain, ReceiveChecks.default, anyPatternMatches] at hneeds
  · rw [historyRejection_singleton]
    refine commandRejection_of_missed chainContent chainStore linearMain tips_rewind ?_ hmissed
    simp only [NeedsLinear]
    decide +kernel

end Edda.Git
