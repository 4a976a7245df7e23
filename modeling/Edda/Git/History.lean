import Edda.Git.Object
import Edda.Support.Worklist

/-!
# Commit-graph inspection

What a ref update adds: the commits reached from the new value and not from the old one, whether
the update is a fast-forward, and whether the commits carry a signature or are merges. Every walk
visits at most `maxWalk` commits.

`mem_addedCommits` says that an inspection that was not cut short lists every ancestor of the new
value that is no ancestor of the old one, and `ancestor_of_isAncestor` that a reported
fast-forward is one.
-/

set_option autoImplicit false

namespace Edda.Git

open Edda.Support Edda.Support.Worklist

/-- The number of commits a walk visits at most. -/
def maxWalk : Nat := 4000

/-- The commits an update adds, newest first. -/
structure AddedCommits where
  commits : List ObjectId
  isFastForward : Bool
  truncated : Bool
  deriving DecidableEq, Repr

section History

variable (content : ObjectId → Object) (store : Store)

/-- The parents of a commit that can be read. A commit that does not decode counts as one without
parents; no pushed commit is one, since the connectivity check refuses it. -/
def commitParents (id : ObjectId) : Option (List ObjectId) :=
  match findObject content store id with
  | .ok (.commit _) => some (parentsOf content id)
  | _ => none

/-- The parents a walk goes on to. -/
def walkParents (id : ObjectId) : List ObjectId := (commitParents content store id).getD []

/-- The walk over the history of a commit that stops at `skip`. A walk that has visited `maxWalk`
commits ends before the next one. -/
def historyWalk (skip : ObjectId → Bool) : Walk ObjectId ObjectId Unit where
  key := id
  skip := skip
  limit := fun visited => if maxWalk ≤ visited then some () else none
  expand := fun id => .ok (walkParents content store id)
  settle := fun _ => none
  discipline := .lifo

/-- The walk from `start` run to its end. -/
def walkHistory (skip : ObjectId → Bool) (start : ObjectId) : State ObjectId Unit :=
  run (historyWalk content store skip)
    (fuel store (fun id => (walkParents content store id).length) [start]) (State.init [start])

/-- Whether `ancestor` is met within the next `steps` entries taken off the queue. -/
def isAncestorWithin (ancestor : ObjectId) : Nat → List ObjectId → List ObjectId → Bool
  | 0, _, _ => false
  | _ + 1, [], _ => false
  | steps + 1, id :: queue, seen =>
    if id ∈ seen then isAncestorWithin ancestor steps queue seen
    else if id = ancestor then true
    else isAncestorWithin ancestor steps ((walkParents content store id).reverse ++ queue)
      (id :: seen)

def isAncestor (ancestor descendant : ObjectId) : Bool :=
  ancestor = descendant || isAncestorWithin content store ancestor maxWalk [descendant] []

/-- No previous value: the text is empty or all zeros. -/
def isNoValue (hex : String) : Bool := hex.toList.all (· = '0')

def addedCommits (oldHex newHex : String) : Except GitError AddedCommits :=
  match ObjectId.fromHex newHex with
  | none => .error (.git ("not a valid object id: " ++ newHex))
  | some new =>
    if isNoValue oldHex then
      let walk := walkHistory content store (fun _ => false) new
      .ok ⟨walk.order, true, walk.failure.isSome⟩
    else match ObjectId.fromHex oldHex with
      | none => .error (.git ("not a valid object id: " ++ oldHex))
      | some old =>
        let boundary := (walkHistory content store (fun _ => false) old).visited
        let walk := walkHistory content store (fun id => decide (id ∈ boundary)) new
        .ok ⟨walk.order, isAncestor content store old new, walk.failure.isSome⟩

def isMergeCommit (id : ObjectId) : Bool :=
  match commitParents content store id with
  | some parents => decide (1 < parents.length)
  | none => false

def commitIsSigned (id : ObjectId) : Bool :=
  match findObject content store id with
  | .ok (.commit (some commit)) =>
    commit.extraHeaders.any fun (name, _) => name = "gpgsig" || name = "gpgsig-sha256"
  | _ => false

/-! ## The walks -/

theorem walkParents_subset {id parent : ObjectId} (h : parent ∈ walkParents content store id) :
    parent ∈ parentsOf content id := by
  unfold walkParents commitParents at h
  split at h
  · exact h
  · simp at h

/-- A stored id is walked to all its parents. -/
theorem walkParents_of_mem {id : ObjectId} (h : id ∈ store) :
    walkParents content store id = parentsOf content id := by
  unfold walkParents commitParents
  rw [findObject_of_mem content h]
  unfold parentsOf
  cases content id with
  | commit body => cases body <;> rfl
  | tree body => rfl
  | blob data => rfl
  | tag body => rfl

theorem mem_of_walkParents_ne_nil {id : ObjectId} (h : walkParents content store id ≠ []) :
    id ∈ store := by
  by_contra hid
  apply h
  simp [walkParents, commitParents, findObject_of_not_mem content hid]

theorem historyWalk_bounded (skip : ObjectId → Bool) :
    Bounded (historyWalk content store skip) store
      (fun id => (walkParents content store id).length) where
  mem_nodes := by
    intro a children h hne
    obtain rfl := Except.ok.inj h
    exact mem_of_walkParents_ne_nil content store hne
  length_le := by
    intro a children h
    obtain rfl := Except.ok.inj h
    exact Nat.le_refl _

/-- What the walk reaches are ancestors of its start. -/
theorem ancestor_of_reaches {skip : ObjectId → Bool} {start id : ObjectId}
    (h : Reaches (historyWalk content store skip) [start] id) : Ancestor content id start := by
  obtain ⟨a, ha, -, hpath⟩ := h
  obtain rfl := List.mem_singleton.1 ha
  refine Relation.ReflTransGen.mono ?_ _ _ hpath
  rintro x y ⟨children, hexpand, hy, -⟩
  obtain rfl := Except.ok.inj hexpand
  exact walkParents_subset content store hy

theorem ancestor_of_mem_walkHistory {skip : ObjectId → Bool} {start id : ObjectId}
    (h : id ∈ (walkHistory content store skip start).visited) : Ancestor content id start :=
  ancestor_of_reaches content store ((run_sound _ [start] _).reached id h)

/-- In a walk that was not cut short, an ancestor of the start was visited, unless it lies behind
a skipped commit. -/
theorem mem_walkHistory {skip : ObjectId → Bool} {start id : ObjectId}
    (hstored : ∀ b, Ancestor content b start → b ∈ store)
    (hdone : (walkHistory content store skip start).failure = none)
    (hanc : Ancestor content id start) :
    id ∈ (walkHistory content store skip start).visited ∨
      ∃ b, skip b = true ∧ Ancestor content id b := by
  have hhalts := run_halts _ (historyWalk_bounded content store skip) [start]
  have hiff := mem_visited_iff_reaches (historyWalk content store skip) rfl hdone hhalts
  induction hanc with
  | refl =>
    cases hskip : skip start with
    | true => exact Or.inr ⟨start, hskip, Relation.ReflTransGen.refl⟩
    | false => exact Or.inl ((hiff start).2 (.of_mem _ (by simp) hskip))
  | @tail b c hb hbc ih =>
    rcases ih with hvisited | ⟨d, hd, hbd⟩
    · cases hskip : skip c with
      | true => exact Or.inr ⟨c, hskip, Relation.ReflTransGen.refl⟩
      | false =>
        have hedge : Edge (historyWalk content store skip) b c :=
          ⟨_, rfl, by rw [walkParents_of_mem content store (hstored b hb)]; exact hbc, hskip⟩
        exact Or.inl ((hiff c).2 (((hiff b).1 hvisited).tail _ hedge))
    · exact Or.inr ⟨d, hd, hbd.tail hbc⟩

/-- A reported ancestor is one. -/
theorem ancestor_of_isAncestorWithin {ancestor descendant : ObjectId} :
    ∀ (steps : Nat) (queue seen : List ObjectId),
      (∀ id ∈ queue, Ancestor content id descendant) →
      isAncestorWithin content store ancestor steps queue seen = true →
      Ancestor content ancestor descendant
  | 0, _, _, _, h => by simp [isAncestorWithin] at h
  | _ + 1, [], _, _, h => by simp [isAncestorWithin] at h
  | steps + 1, id :: queue, seen, hqueue, h => by
    have hid : Ancestor content id descendant := hqueue id (by simp)
    have hrest : ∀ b ∈ queue, Ancestor content b descendant :=
      fun b hb => hqueue b (List.mem_cons_of_mem _ hb)
    unfold isAncestorWithin at h
    split at h
    · exact ancestor_of_isAncestorWithin steps queue seen hrest h
    · split at h
      · rename_i heq
        exact heq ▸ hid
      · refine ancestor_of_isAncestorWithin steps _ _ ?_ h
        intro b hb
        rcases List.mem_append.1 hb with hb | hb
        · exact hid.tail (walkParents_subset content store (List.mem_reverse.1 hb))
        · exact hrest b hb

theorem ancestor_of_isAncestor {ancestor descendant : ObjectId}
    (h : isAncestor content store ancestor descendant = true) :
    Ancestor content ancestor descendant := by
  simp only [isAncestor, Bool.or_eq_true, decide_eq_true_eq] at h
  rcases h with rfl | h
  · exact Relation.ReflTransGen.refl
  · refine ancestor_of_isAncestorWithin content store maxWalk _ _ ?_ h
    intro id hid
    obtain rfl := List.mem_singleton.1 hid
    exact Relation.ReflTransGen.refl

/-! ## What an inspection reports -/

/-- A complete inspection lists every ancestor of the new value that is no ancestor of the old
one, where there is an old one. -/
theorem mem_addedCommits {oldHex newHex : String} {new : ObjectId} {added : AddedCommits}
    (h : addedCommits content store oldHex newHex = .ok added)
    (hnew : ObjectId.fromHex newHex = some new) (hcomplete : added.truncated = false)
    (hstored : ∀ b, Ancestor content b new → b ∈ store) {id : ObjectId}
    (hanc : Ancestor content id new) :
    id ∈ added.commits ∨
      ∃ old, isNoValue oldHex = false ∧ ObjectId.fromHex oldHex = some old ∧
        Ancestor content id old := by
  unfold addedCommits at h
  rw [hnew] at h
  simp only at h
  split at h
  · obtain rfl := Except.ok.inj h
    have hdone : (walkHistory content store (fun _ => false) new).failure = none := by
      simpa using hcomplete
    rcases mem_walkHistory content store hstored hdone hanc with hmem | ⟨_, hskip, _⟩
    · exact Or.inl (List.mem_reverse.2 hmem)
    · exact absurd hskip (by simp)
  · rename_i hvalue
    split at h
    · exact absurd h (by simp)
    · rename_i old hold
      obtain rfl := Except.ok.inj h
      simp only [Option.isSome_eq_false_iff, Option.isNone_iff_eq_none] at hcomplete
      rcases mem_walkHistory content store hstored hcomplete hanc with hmem | ⟨b, hskip, hb⟩
      · exact Or.inl (List.mem_reverse.2 hmem)
      · have hbold := ancestor_of_mem_walkHistory content store (of_decide_eq_true hskip)
        exact Or.inr ⟨old, by simpa using hvalue, hold, Relation.ReflTransGen.trans hbold hb⟩

/-- A reported fast-forward goes to a descendant of the old value. -/
theorem ancestor_of_fastForward {oldHex newHex : String} {old new : ObjectId}
    {added : AddedCommits} (h : addedCommits content store oldHex newHex = .ok added)
    (hnew : ObjectId.fromHex newHex = some new) (hvalue : isNoValue oldHex = false)
    (hold : ObjectId.fromHex oldHex = some old) (hff : added.isFastForward = true) :
    Ancestor content old new := by
  unfold addedCommits at h
  rw [hnew, hold] at h
  simp only [hvalue, Bool.false_eq_true, if_false] at h
  obtain rfl := Except.ok.inj h
  exact ancestor_of_isAncestor content store hff

/-- With readable ids an inspection reports. -/
theorem exists_addedCommits {oldHex newHex : String} {new : ObjectId}
    (hnew : ObjectId.fromHex newHex = some new)
    (hold : isNoValue oldHex = true ∨ ∃ old, ObjectId.fromHex oldHex = some old) :
    ∃ added, addedCommits content store oldHex newHex = .ok added := by
  unfold addedCommits
  rw [hnew]
  by_cases hvalue : isNoValue oldHex = true
  · simp [hvalue]
  · obtain ⟨old, hold⟩ := hold.resolve_left hvalue
    simp [hvalue, hold]

end History

end Edda.Git
