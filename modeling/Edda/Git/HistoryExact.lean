import Edda.Git.HistoryPolicy

/-!
# The history checks below their bound

Where the old value has no more commits than a walk visits, an update adds no more of them, and the
search for the old value ends within its bound, the inspection of the update is exact: it lists
every added commit once, and finds the old value exactly when the new one reaches it. A push is
then rejected exactly when one of its updates breaks a policy of its ref (`historyPolicy_exact`).

Walks over the full histories of both values that take no more than `maxWalk` entries off their
queues are one case of this (`walksWithin_of_pops`).
-/

set_option autoImplicit false

namespace Edda.Git

open Edda.Support Edda.Support.Worklist Edda.Domain

section HistoryExact

variable (content : ObjectId → Object) (store : Store)

/-- No walk of an inspection of the update comes to its bound. -/
structure WalksWithin (old : Option ObjectId) (new : ObjectId) : Prop where
  history : ∀ tip, old = some tip → AtMost maxWalk fun id => Ancestor content id tip
  added : AtMost maxWalk (Added content old new)
  search : ∀ tip, old = some tip → AncestorKnown content store tip new

/-- An update that breaks a policy of its ref: it is no fast-forward or adds a merge where the
history is to be linear, or it adds an unsigned commit where the commits are to be signed. -/
inductive Violates (checks : ReceiveChecks) (command : RefCommand) : Prop
  | nonFastForward (old new : ObjectId) : NeedsLinear checks command →
      Tips command (some old) new → ¬ Ancestor content old new → Violates checks command
  | merge (old : Option ObjectId) (new id : ObjectId) : NeedsLinear checks command →
      Tips command old new → Added content old new id → IsMerge content id →
      Violates checks command
  | unsigned (old : Option ObjectId) (new id : ObjectId) : NeedsSigned checks command →
      Tips command old new → Added content old new id → ¬ IsSigned content id →
      Violates checks command

/-! ## Walks that are counted by their entries -/

/-- The walk over a full history, without a bound. -/
def fullWalk : Walk ObjectId ObjectId Unit where
  key := id
  skip := fun _ => false
  limit := fun _ => none
  expand := fun id => .ok (walkParents content store id)
  settle := fun _ => none
  discipline := .lifo

/-- The walk over the history of `tip` takes at most `maxWalk` entries off its queue. -/
def PopsWithin (tip : ObjectId) : Prop :=
  (run (fullWalk content store) maxWalk (State.init [tip])).queue = []

theorem failure_fullWalk (start : List ObjectId) (n : Nat) :
    (run (fullWalk content store) n (State.init start)).failure = none := by
  apply failure_eq_none_of_expands
  · exact fun id _ => ⟨walkParents content store id, rfl⟩
  · exact fun _ => rfl
  · exact fun _ => rfl

/-- A history whose walk takes few entries off its queue has few commits. -/
theorem atMost_of_pops {tip : ObjectId} (hgraph : CommitGraph content store tip)
    (h : PopsWithin content store tip) :
    AtMost maxWalk fun id => Ancestor content id tip := by
  apply AtMost.of_forall_mem (run (fullWalk content store) maxWalk (State.init [tip])).visited
  · intro id hid
    apply mem_visited_of_reaches (fullWalk content store) rfl (run_closed _ [tip] maxWalk)
      (failure_fullWalk content store [tip] maxWalk) h
    induction hid with
    | refl => exact .of_mem _ (by simp) rfl
    | @tail child parent hchild hparent ih =>
      apply ih.tail
      refine ⟨_, rfl, ?_, rfl⟩
      rw [walkParents_of_mem content store (hgraph.stored child hchild)]
      exact hparent
  · have hlength := visited_length_le_add (fullWalk content store) maxWalk (State.init [tip])
    simpa [State.init] using hlength

/-- The search for a commit takes the same entries off its queue as the walk, until it meets the
commit. -/
theorem searchEnds_of_run (ancestor : ObjectId) (steps : Nat) (queue seen : List ObjectId)
    (h : (run (fullWalk content store) steps ⟨seen, queue, none⟩).queue = []) :
    searchEnds content store ancestor steps queue seen = true := by
  induction steps generalizing queue seen with
  | zero =>
    obtain rfl : queue = [] := h
    rfl
  | succ steps ih =>
    cases queue with
    | nil => rfl
    | cons id queue =>
      simp only [searchEnds]
      by_cases hseen : id ∈ seen
      · rw [if_pos hseen]
        apply ih
        have hstep : step (fullWalk content store) ⟨seen, id :: queue, none⟩ =
            ⟨seen, queue, none⟩ := if_pos (Or.inl (by simpa [fullWalk] using hseen))
        rwa [run, hstep] at h
      · rw [if_neg hseen]
        by_cases hhit : id = ancestor
        · rw [if_pos hhit]
        · rw [if_neg hhit]
          apply ih
          have hstep : step (fullWalk content store) ⟨seen, id :: queue, none⟩ =
              ⟨id :: seen, (walkParents content store id).reverse ++ queue, none⟩ :=
            if_neg (by simpa [fullWalk] using hseen)
          rwa [run, hstep] at h

/-- Walks over both full histories that take few entries off their queues come to no bound. -/
theorem walksWithin_of_pops {old : Option ObjectId} {new : ObjectId}
    (hnew : CommitGraph content store new)
    (hold : ∀ tip, old = some tip → CommitGraph content store tip)
    (hpops : PopsWithin content store new)
    (hpops' : ∀ tip, old = some tip → PopsWithin content store tip) :
    WalksWithin content store old new where
  history := fun tip htip => atMost_of_pops content store (hold tip htip) (hpops' tip htip)
  added := fun ids hnodup hids =>
    atMost_of_pops content store hnew hpops ids hnodup fun id hid => (hids id hid).1
  search := fun tip _ => Or.inr (searchEnds_of_run content store tip maxWalk [new] [] hpops)

/-! ## What an inspection finds -/

section Inspection

variable {old : Option ObjectId} {new : ObjectId} (hnew : CommitGraph content store new)
  (hold : ∀ tip, old = some tip → CommitGraph content store tip)
  (hwithin : WalksWithin content store old new)

/-- A walk that reaches few commits is not cut short. -/
theorem walkHistory_failure {skip : ObjectId → Bool} {start : ObjectId}
    (h : AtMost maxWalk (Reaches (historyWalk content store skip) [start])) :
    (walkHistory content store skip start).failure = none := by
  apply failure_eq_none (historyWalk content store skip) rfl
  · exact fun id _ => ⟨walkParents content store id, rfl⟩
  · exact h
  · exact fun k hk => if_neg (Nat.not_le.2 hk)
  · exact fun _ _ => rfl

include hwithin in
theorem oldKnown_of_within : OldKnown content store old := by
  intro tip htip
  apply walkHistory_failure
  intro ids hnodup hids
  exact hwithin.history tip htip ids hnodup
    fun id hid => ancestor_of_reaches content store (hids id hid)

include hold hwithin in
/-- The walk from the new value reaches added commits only. -/
theorem added_of_reaches {id : ObjectId}
    (h : Reaches (historyWalk content store
      (fun id => decide (id ∈ inspected content store old))) [new] id) :
    Added content old new id := by
  refine ⟨ancestor_of_reaches content store h, ?_⟩
  intro tip htip hanc
  subst htip
  have hknown := oldKnown_of_within content store hwithin tip rfl
  have hskip := h.skip_eq_false
  -- an ancestor of the old value was inspected, and the walk skips it
  rcases mem_walkHistory content store (hold tip rfl).stored hknown hanc with
    hvisited | ⟨_, hbad, _⟩
  · exact of_decide_eq_false hskip hvisited
  · exact absurd hbad (by simp)

include hold hwithin in
theorem newWalk_failure : (newWalk content store old new).failure = none := by
  apply walkHistory_failure
  intro ids hnodup hids
  exact hwithin.added ids hnodup
    fun id hid => added_of_reaches content store hold hwithin (hids id hid)

include hnew hold hwithin in
/-- The walk from the new value lists the added commits. -/
theorem listed_iff_added {id : ObjectId} :
    Listed content store old new id ↔ Added content old new id := by
  constructor
  · exact added_of_listed content store hold (oldKnown_of_within content store hwithin)
  · rintro ⟨hanc, hfresh⟩
    rcases mem_walkHistory content store hnew.stored (newWalk_failure content store hold hwithin)
      hanc with hvisited | ⟨boundary, hskip, hbelow⟩
    · exact hvisited
    · -- what lies behind the inspected commits is no news
      cases old with
      | none => simp [inspected] at hskip
      | some tip =>
        have hboundary := ancestor_of_mem_walkHistory content store (of_decide_eq_true hskip)
        exact absurd (Relation.ReflTransGen.trans hboundary hbelow) (hfresh tip rfl)

include hnew hwithin in
/-- The search finds the old value exactly when the new one reaches it. -/
theorem isAncestor_iff {tip : ObjectId} (htip : old = some tip) :
    isAncestor content store tip new = true ↔ Ancestor content tip new := by
  constructor
  · exact ancestor_of_isAncestor content store
  · intro hanc
    by_contra hmiss
    exact not_ancestor_of_known content store hnew (hwithin.search tip htip)
      (Bool.eq_false_iff.2 hmiss) hanc

end Inspection

/-! ## What is rejected -/

variable (checks : ReceiveChecks)

/-- An update is rejected exactly when it breaks a policy. -/
theorem commandRejection_iff_violates {command : RefCommand}
    (hgraph : Graphs content store command)
    (hwithin : ∀ old new, Tips command old new → WalksWithin content store old new) :
    (∃ reason, commandRejection content store checks command = some reason) ↔
      Violates content checks command := by
  constructor
  · rintro ⟨reason, hreason⟩
    obtain ⟨old, new, htips⟩ := tips_of_commandRejection content store checks hreason
    obtain ⟨hnew, hold⟩ := hgraph old new htips
    have hbound := hwithin old new htips
    cases commandRejection_cases content store checks htips hreason with
    | nonFastForward tip hneeds heq hmiss =>
      subst heq
      refine .nonFastForward tip new hneeds htips fun hanc => ?_
      rw [(isAncestor_iff content store hnew hbound rfl).2 hanc] at hmiss
      exact absurd hmiss (by simp)
    | merge id hneeds _ _ hlisted hmerge =>
      have hadded := (listed_iff_added content store hnew hold hbound).1 hlisted
      exact .merge old new id hneeds htips hadded
        ((isMergeCommit_iff content store hnew hadded.1).1 hmerge)
    | unsigned id hneeds _ _ hlisted hunsigned =>
      have hadded := (listed_iff_added content store hnew hold hbound).1 hlisted
      refine .unsigned old new id hneeds htips hadded fun hsigned => ?_
      rw [(commitIsSigned_iff content store hnew hadded.1).2 hsigned] at hunsigned
      exact absurd hunsigned (by simp)
  · -- an accepted update keeps every policy
    intro hviolates
    cases hviolates with
    | nonFastForward old new hneeds htips hnot =>
      refine exists_rejection content store checks htips fun haccepted => hnot ?_
      apply ancestor_of_isAncestor content store
      exact (meetsOld_iff content store).1 (haccepted.fastForward hneeds) old rfl
    | merge old new id hneeds htips hadded hmerge =>
      obtain ⟨hnew, hold⟩ := hgraph old new htips
      have hbound := hwithin old new htips
      refine exists_rejection content store checks htips fun haccepted => ?_
      have hlisted := (listed_iff_added content store hnew hold hbound).2 hadded
      have hlinear := haccepted.linear hneeds
        (by simp [newWalk_failure content store hold hbound]) id (List.mem_reverse.2 hlisted)
      rw [(isMergeCommit_iff content store hnew hadded.1).2 hmerge] at hlinear
      exact absurd hlinear (by simp)
    | unsigned old new id hneeds htips hadded hunsigned =>
      obtain ⟨hnew, hold⟩ := hgraph old new htips
      have hbound := hwithin old new htips
      refine exists_rejection content store checks htips fun haccepted => ?_
      have hlisted := (listed_iff_added content store hnew hold hbound).2 hadded
      have hsigned := haccepted.signed hneeds
        (by simp [newWalk_failure content store hold hbound]) id (List.mem_reverse.2 hlisted)
      exact hunsigned ((commitIsSigned_iff content store hnew hadded.1).1 hsigned)

/-- Below the bound of the walks, an inspection lists each added commit once and finds the old value
exactly when the new one reaches it, and a push is rejected exactly when one of its updates that
writes a value breaks a policy. -/
theorem historyPolicy_exact (commands : List RefCommand)
    (hgraph : ∀ command ∈ commands, Graphs content store command)
    (hwithin : ∀ command ∈ commands, ∀ old new, Tips command old new →
      WalksWithin content store old new) :
    (∀ command ∈ commands, ∀ old new, Tips command old new →
      ∃ added, addedCommits content store command.oldId command.newId = .ok added ∧
        added.commits.Nodup ∧ (∀ id, id ∈ added.commits ↔ Added content old new id) ∧
        ∀ tip, old = some tip →
          (isAncestor content store tip new = true ↔ Ancestor content tip new)) ∧
    ((∃ reason, historyRejection content store checks commands = some reason) ↔
      ∃ command ∈ commands, Violates content checks command) := by
  refine ⟨?_, ?_⟩
  · intro command hmem old new htips
    obtain ⟨hnew, hold⟩ := hgraph command hmem old new htips
    have hbound := hwithin command hmem old new htips
    refine ⟨_, addedCommits_of_tips content store htips, ?_, ?_, ?_⟩
    · exact nodup_order (historyWalk content store _) rfl [new] _
    · intro id
      rw [State.order, List.mem_reverse]
      exact listed_iff_added content store hnew hold hbound
    · exact fun tip htip => isAncestor_iff content store hnew hbound htip
  · have hone : ∀ command ∈ commands,
        (∃ reason, commandRejection content store checks command = some reason) ↔
          Violates content checks command := fun command hmem =>
      commandRejection_iff_violates content store checks (hgraph command hmem)
        (hwithin command hmem)
    constructor
    · rintro ⟨reason, hreason⟩
      obtain ⟨command, hmem, hcommand⟩ := List.exists_of_findSome?_eq_some hreason
      exact ⟨command, hmem, (hone command hmem).1 ⟨reason, hcommand⟩⟩
    · rintro ⟨command, hmem, hviolates⟩
      obtain ⟨reason, hreason⟩ := (hone command hmem).2 hviolates
      by_contra hnone
      have hpassed : historyRejection content store checks commands = none := by
        cases h : historyRejection content store checks commands with
        | none => rfl
        | some reason => exact absurd ⟨reason, h⟩ hnone
      rw [historyRejection, List.findSome?_eq_none_iff] at hpassed
      rw [hpassed command hmem] at hreason
      exact absurd hreason (by simp)

end HistoryExact

/-! ## A branch that goes back -/

theorem popsWithin_chain {n : Nat} (hn : n = 1 ∨ n = 2) :
    PopsWithin chainContent chainStore (BitVec.ofNat 160 n) := by
  have hqueue : (run (fullWalk chainContent chainStore) 2
      (State.init [BitVec.ofNat 160 n])).queue = [] := by
    rcases hn with rfl | rfl <;> decide +kernel
  rw [PopsWithin, run_eq_of_halted _ _ (Or.inr hqueue) (by decide)]
  exact hqueue

/-- A branch with a linear history does not go back by one commit. -/
theorem historyPolicy_exact_rewind :
    (∃ reason, historyRejection chainContent chainStore linearMain [rewind] = some reason) ∧
      Violates chainContent linearMain rewind := by
  have hgraphs : ∀ command ∈ [rewind], Graphs chainContent chainStore command := by
    intro command hmem old new htips
    obtain rfl := List.mem_singleton.1 hmem
    obtain ⟨rfl, rfl⟩ := tips_rewind.unique htips
    refine ⟨chainGraph (by decide), fun tip htip => ?_⟩
    obtain rfl := Option.some.inj htip
    exact chainGraph (by decide)
  have hviolates : Violates chainContent linearMain rewind := by
    refine .nonFastForward (BitVec.ofNat 160 2) (BitVec.ofNat 160 1) ?_ tips_rewind fun hanc => ?_
    · simp only [NeedsLinear]
      decide +kernel
    · -- the commit 1 has no parents
      rcases Relation.ReflTransGen.cases_head hanc with heq | ⟨parent, hparent, _⟩
      · exact absurd heq (by decide)
      · rw [parentsOf_chain (by decide)] at hparent
        simp at hparent
  refine ⟨?_, hviolates⟩
  refine (historyPolicy_exact chainContent chainStore linearMain [rewind] hgraphs ?_).2.2
    ⟨rewind, List.mem_cons_self, hviolates⟩
  intro command hmem old new htips
  obtain ⟨hnew, hold⟩ := hgraphs command hmem old new htips
  obtain rfl := List.mem_singleton.1 hmem
  obtain ⟨rfl, rfl⟩ := tips_rewind.unique htips
  refine walksWithin_of_pops chainContent chainStore hnew hold (popsWithin_chain (Or.inl rfl)) ?_
  intro tip htip
  obtain rfl := Option.some.inj htip
  exact popsWithin_chain (Or.inr rfl)

end Edda.Git
