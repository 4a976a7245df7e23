import Edda.Git.History

/-!
# Building packs

A fetch is answered with the objects reached from its wants and not from its haves. A shallow
fetch bounds the walk over the commits by depth or by date, and packs the trees of every commit it
visits in full. A pack is modelled by the ids of its objects in the order they are written; the
bytes of an object are fixed by its id.
-/

set_option autoImplicit false

namespace Edda.Git

open Edda.Support Edda.Support.Worklist

/-- How far back a shallow fetch reaches. -/
inductive Deepen where
  | none
  | depth (limit : Nat)
  | since (seconds : Int)
  deriving DecidableEq, Repr

structure ShallowSpec where
  clientShallow : List ObjectId
  deepen : Deepen
  deriving DecidableEq, Repr

structure ShallowPack where
  pack : List ObjectId
  newShallow : List ObjectId
  unshallow : List ObjectId
  deriving DecidableEq, Repr

/-- `i64::MAX`. -/
def maxI64 : Int := 2 ^ 63 - 1

section Pack

variable (content : ObjectId → Object) (store : Store)

/-! ## The walk over the haves -/

/-- What a have refers to; an id that is not stored refers to nothing. -/
def haveChildren (id : ObjectId) : Except GitError (List ObjectId) :=
  match findObject content store id with
  | .error _ => .ok []
  | .ok object => references object

def haveWalk : Walk ObjectId ObjectId GitError where
  key := id
  skip := fun _ => false
  limit := fun _ => none
  expand := haveChildren content store
  settle := fun _ => none
  discipline := .fifo

/-- The walk over everything the haves reach, run to its end. -/
def haveRun (haves : List ObjectId) : State ObjectId GitError :=
  run (haveWalk content store) (fuel store (referenceCount content) haves) (State.init haves)

/-- The haves reach `id`. -/
def Had (haves : List ObjectId) (id : ObjectId) : Prop := Reaches (haveWalk content store) haves id

/-! ## The walk over objects -/

def objectChildren (id : ObjectId) : Except GitError (List ObjectId) :=
  match findObject content store id with
  | .error err => .error err
  | .ok object => references object

/-- The walk over everything but the objects in `seen`. -/
def objectWalk (seen : ObjectId → Bool) : Walk ObjectId ObjectId GitError where
  key := id
  skip := seen
  limit := fun _ => none
  expand := objectChildren content store
  settle := fun _ => none
  discipline := .fifo

def objectRun (seen : ObjectId → Bool) (start : List ObjectId) : State ObjectId GitError :=
  run (objectWalk content store seen) (fuel store (referenceCount content) start) (State.init start)

/-- The objects reached from the wants and not from the haves. -/
def buildPackExcluding (wants haves : List ObjectId) : Except GitError (List ObjectId) :=
  let had := haveRun content store haves
  match had.failure with
  | some err => .error err
  | none =>
    let walk := objectRun content store (fun id => decide (id ∈ had.visited)) wants
    match walk.failure with
    | some err => .error err
    | none => .ok walk.order

def buildPack (wants : List ObjectId) : Except GitError (List ObjectId) :=
  buildPackExcluding content store wants []

/-! ## The walk over commits -/

/-- The committer time of a commit. What is no commit counts as new, a time that does not parse as
the epoch. -/
def commitCommitterTime (id : ObjectId) : Except GitError Int :=
  match findObject content store id with
  | .error err => .error err
  | .ok (.commit none) => .error decodeError
  | .ok (.commit (some commit)) => match commit.committer with
    | none => .error decodeError
    | some signature => .ok (signature.seconds.getD 0)
  | .ok _ => .ok maxI64

/-- Whether the walk goes on from a commit at `depth` to its parent. -/
def follows (deepen : Deepen) (depth : Nat) (parent : ObjectId) : Except GitError Bool :=
  match deepen with
  | .none => .ok true
  | .depth limit => .ok (decide (depth < limit))
  | .since seconds => match commitCommitterTime content store parent with
    | .error err => .error err
    | .ok time => .ok (decide (seconds ≤ time))

/-- The parents the walk goes on to. -/
def followedParents (deepen : Deepen) (depth : Nat) :
    List ObjectId → Except GitError (List ObjectId)
  | [] => .ok []
  | parent :: parents => match follows content store deepen depth parent with
    | .error err => .error err
    | .ok follow => match followedParents deepen depth parents with
      | .error err => .error err
      | .ok rest => .ok (if follow then parent :: rest else rest)

/-- The entries a visited entry queues: the followed parents of a commit one deeper, the target of
a tag at the depth of the tag. -/
def commitChildren (deepen : Deepen) (entry : ObjectId × Nat) :
    Except GitError (List (ObjectId × Nat)) :=
  match findObject content store entry.1 with
  | .error err => .error err
  | .ok (.tag none) => .error decodeError
  | .ok (.tag (some tag)) => .ok [(tag.target, entry.2)]
  | .ok (.commit none) => .error decodeError
  | .ok (.commit (some commit)) =>
    match followedParents content store deepen entry.2 commit.parents with
    | .error err => .error err
    | .ok parents => .ok (parents.map fun parent => (parent, entry.2 + 1))
  | .ok _ => .ok []

/-- The walk over commits and their depths. -/
def commitWalk (deepen : Deepen) (seen : ObjectId → Bool) :
    Walk (ObjectId × Nat) ObjectId GitError where
  key := Prod.fst
  skip := seen
  limit := fun _ => none
  expand := commitChildren content store deepen
  settle := fun _ => none
  discipline := .fifo

/-- The wants, which are at depth one. -/
def wantEntries (wants : List ObjectId) : List (ObjectId × Nat) := wants.map fun id => (id, 1)

def commitRun (deepen : Deepen) (seen : ObjectId → Bool) (wants : List ObjectId) :
    State (ObjectId × Nat) GitError :=
  run (commitWalk content store deepen seen)
    (fuel store (referenceCount content) (wantEntries wants)) (State.init (wantEntries wants))

/-- Whether the walk leaves a parent of the commit out. -/
def cutsParent (deepen : Deepen) (entry : ObjectId × Nat) : Bool :=
  (parentsOf content entry.1).any fun parent =>
    match follows content store deepen entry.2 parent with
    | .ok follow => !follow
    | .error _ => false

/-- Commits and tags are packed as the commit walk visits them. -/
def packedAtVisit (id : ObjectId) : Bool :=
  match content id with
  | .commit _ | .tag _ => true
  | .tree _ | .blob _ => false

/-- Where the walk over trees and blobs starts for a visited entry. -/
def filesOf (id : ObjectId) : List ObjectId :=
  match content id with
  | .commit (some commit) => [commit.tree]
  | .tree _ | .blob _ => [id]
  | _ => []

/-- The files that the visited entries lead to. -/
def fileStarts (order : List (ObjectId × Nat)) : List ObjectId :=
  order.flatMap fun entry => filesOf content entry.1

/-- The commits and tags among the visited entries. -/
def packedOf (order : List (ObjectId × Nat)) : List ObjectId :=
  (order.map Prod.fst).filter (packedAtVisit content)

/-- The visited entries that become shallow boundaries of the client. -/
def newShallowOf (spec : ShallowSpec) (order : List (ObjectId × Nat)) : List ObjectId :=
  (order.filter fun entry => cutsParent content store spec.deepen entry &&
    !decide (entry.1 ∈ spec.clientShallow)).map Prod.fst

/-- The visited entries that are no longer shallow boundaries of the client. -/
def unshallowOf (spec : ShallowSpec) (order : List (ObjectId × Nat)) : List ObjectId :=
  (order.filter fun entry => !cutsParent content store spec.deepen entry &&
    !(parentsOf content entry.1).isEmpty && decide (entry.1 ∈ spec.clientShallow)).map Prod.fst

def buildShallowPack (wants haves : List ObjectId) (spec : ShallowSpec) :
    Except GitError ShallowPack :=
  if spec.deepen = .none then match buildPackExcluding content store wants haves with
    | .error err => .error err
    | .ok pack => .ok ⟨pack, [], []⟩
  else
    let had := haveRun content store haves
    match had.failure with
    | some err => .error err
    | none =>
      let commits := commitRun content store spec.deepen (fun id => decide (id ∈ had.visited)) wants
      match commits.failure with
      | some err => .error err
      | none =>
        let packed := packedOf content commits.order
        let files := objectRun content store
          (fun id => decide (id ∈ had.visited ∨ id ∈ packed)) (fileStarts content commits.order)
        match files.failure with
        | some err => .error err
        | none => .ok ⟨packed ++ files.order, newShallowOf content store spec commits.order,
            unshallowOf content store spec commits.order⟩

/-! ## What the walks visit -/

theorem haveWalk_bounded : Bounded (haveWalk content store) store (referenceCount content) where
  mem_nodes := by
    intro id children h hne
    change haveChildren content store id = .ok children at h
    change id ∈ store
    by_contra hid
    unfold haveChildren at h
    rw [findObject_of_not_mem content hid] at h
    exact hne (Except.ok.inj h).symm
  length_le := by
    intro id children h
    change haveChildren content store id = .ok children at h
    unfold haveChildren at h
    by_cases hid : id ∈ store
    · rw [findObject_of_mem content hid] at h
      simp only at h
      change _ ≤ referenceCount content id
      simp [referenceCount, h]
    · rw [findObject_of_not_mem content hid] at h
      obtain rfl := Except.ok.inj h
      simp

/-- The walk over the haves visits what they reach. -/
theorem mem_haveRun_iff {haves : List ObjectId} (h : (haveRun content store haves).failure = none)
    (id : ObjectId) : id ∈ (haveRun content store haves).visited ↔ Had content store haves id :=
  mem_visited_iff_reaches (haveWalk content store) rfl h
    (run_halts _ (haveWalk_bounded content store) haves) id

theorem objectChildren_eq_ok {id : ObjectId} {ids : List ObjectId} :
    objectChildren content store id = .ok ids ↔
      id ∈ store ∧ references (content id) = .ok ids := by
  unfold objectChildren
  by_cases hid : id ∈ store
  · simp [hid]
  · simp [findObject_of_not_mem content hid, hid]

theorem objectWalk_bounded (seen : ObjectId → Bool) :
    Bounded (objectWalk content store seen) store (referenceCount content) where
  mem_nodes := fun h _ => ((objectChildren_eq_ok content store).1 h).1
  length_le := by
    intro id children h
    have href := ((objectChildren_eq_ok content store).1 h).2
    change _ ≤ referenceCount content id
    simp [referenceCount, href]

theorem objectRun_halts (seen : ObjectId → Bool) (start : List ObjectId) :
    (objectRun content store seen start).Halted :=
  run_halts _ (objectWalk_bounded content store seen) start

/-- The walk over objects visits what the start reaches outside of `seen`. -/
theorem mem_objectRun_iff {seen : ObjectId → Bool} {start : List ObjectId}
    (h : (objectRun content store seen start).failure = none) (id : ObjectId) :
    id ∈ (objectRun content store seen start).visited ↔
      Reaches (objectWalk content store seen) start id :=
  mem_visited_iff_reaches (objectWalk content store seen) rfl h
    (objectRun_halts content store seen start) id

/-- What the walk over objects reaches, a walk that did not fail found stored and readable. -/
theorem stored_of_objectRun {seen : ObjectId → Bool} {start : List ObjectId}
    (h : (objectRun content store seen start).failure = none) {id : ObjectId}
    (hid : Reaches (objectWalk content store seen) start id) :
    id ∈ store ∧ ∃ ids, references (content id) = .ok ids := by
  obtain ⟨children, hchildren⟩ := exists_expand_of_reaches (objectWalk content store seen) rfl h
    (objectRun_halts content store seen start) hid
  obtain ⟨hstored, href⟩ := (objectChildren_eq_ok content store).1 hchildren
  exact ⟨hstored, children, href⟩

/-- What a built pack is: the objects the wants reach and the haves do not. -/
theorem buildPackExcluding_eq_ok {wants haves pack : List ObjectId}
    (h : buildPackExcluding content store wants haves = .ok pack) :
    ∃ seen : ObjectId → Bool, (∀ id, seen id = true ↔ Had content store haves id) ∧
      (objectRun content store seen wants).failure = none ∧
      pack = (objectRun content store seen wants).order := by
  unfold buildPackExcluding at h
  simp only at h
  split at h
  · exact absurd h (by simp)
  · rename_i hhad
    split at h
    · exact absurd h (by simp)
    · rename_i hwalk
      exact ⟨_, fun id => by simp [mem_haveRun_iff content store hhad], hwalk,
        (Except.ok.inj h).symm⟩

theorem length_followedParents_le {deepen : Deepen} {depth : Nat} :
    ∀ {parents followed : List ObjectId},
      followedParents content store deepen depth parents = .ok followed →
      followed.length ≤ parents.length
  | [], _, h => by
    obtain rfl := Except.ok.inj h
    exact Nat.le_refl _
  | parent :: parents, followed, h => by
    unfold followedParents at h
    split at h
    · exact absurd h (by simp)
    · split at h
      · exact absurd h (by simp)
      · rename_i rest hrest
        have ih := length_followedParents_le hrest
        obtain rfl := Except.ok.inj h
        split <;> simp only [List.length_cons] <;> omega

theorem mem_followedParents {deepen : Deepen} {depth : Nat} :
    ∀ {parents followed : List ObjectId},
      followedParents content store deepen depth parents = .ok followed → ∀ parent,
      parent ∈ followed ↔
        parent ∈ parents ∧ follows content store deepen depth parent = .ok true
  | [], _, h, parent => by
    obtain rfl := Except.ok.inj h
    simp
  | first :: parents, followed, h, parent => by
    unfold followedParents at h
    split at h
    · exact absurd h (by simp)
    · rename_i follow hfollow
      split at h
      · exact absurd h (by simp)
      · rename_i rest hrest
        have ih := mem_followedParents hrest parent
        obtain rfl := Except.ok.inj h
        by_cases heq : parent = first
        · subst heq
          cases follow <;> simp [ih, hfollow]
        · cases follow <;> simp [ih, heq]

/-- Where the followed parents are found, every parent is decided. -/
theorem exists_follows {deepen : Deepen} {depth : Nat} :
    ∀ {parents followed : List ObjectId},
      followedParents content store deepen depth parents = .ok followed →
      ∀ parent ∈ parents, ∃ follow, follows content store deepen depth parent = .ok follow
  | [], _, _, parent, hparent => by simp at hparent
  | first :: parents, followed, h, parent, hparent => by
    unfold followedParents at h
    split at h
    · exact absurd h (by simp)
    · rename_i follow hfollow
      split at h
      · exact absurd h (by simp)
      · rename_i rest hrest
        rcases List.mem_cons.1 hparent with rfl | hparent
        · exact ⟨follow, hfollow⟩
        · exact exists_follows hrest parent hparent

/-- The followed parents are found where every parent is decided. -/
theorem exists_followedParents {deepen : Deepen} {depth : Nat} :
    ∀ {parents : List ObjectId},
      (∀ parent ∈ parents, ∃ follow, follows content store deepen depth parent = .ok follow) →
      ∃ followed, followedParents content store deepen depth parents = .ok followed
  | [], _ => ⟨[], rfl⟩
  | first :: parents, h => by
    obtain ⟨follow, hfollow⟩ := h first (by simp)
    obtain ⟨rest, hrest⟩ := exists_followedParents
      fun parent hparent => h parent (List.mem_cons_of_mem _ hparent)
    exact ⟨if follow then first :: rest else rest, by simp [followedParents, hfollow, hrest]⟩

theorem commitWalk_bounded (deepen : Deepen) (seen : ObjectId → Bool) :
    Bounded (commitWalk content store deepen seen) store (referenceCount content) where
  mem_nodes := by
    intro entry children h _
    change commitChildren content store deepen entry = .ok children at h
    change entry.1 ∈ store
    by_contra hid
    unfold commitChildren at h
    rw [findObject_of_not_mem content hid] at h
    exact absurd h (by simp)
  length_le := by
    intro entry children h
    change commitChildren content store deepen entry = .ok children at h
    change _ ≤ referenceCount content entry.1
    unfold commitChildren at h
    by_cases hid : entry.1 ∈ store
    · rw [findObject_of_mem content hid] at h
      unfold referenceCount
      cases hcontent : content entry.1 with
      | commit body =>
        cases body with
        | none => simp [hcontent] at h
        | some commit =>
          simp only [hcontent] at h
          split at h
          · exact absurd h (by simp)
          · rename_i parents hparents
            obtain rfl := Except.ok.inj h
            have hlen := length_followedParents_le content store hparents
            simp only [references, List.length_map, List.length_cons]
            omega
      | tree body =>
        simp only [hcontent] at h
        obtain rfl := Except.ok.inj h
        simp
      | blob data =>
        simp only [hcontent] at h
        obtain rfl := Except.ok.inj h
        simp
      | tag body =>
        cases body with
        | none => simp [hcontent] at h
        | some tag =>
          simp only [hcontent] at h
          obtain rfl := Except.ok.inj h
          simp [references]
    · rw [findObject_of_not_mem content hid] at h
      exact absurd h (by simp)

theorem commitRun_halts (deepen : Deepen) (seen : ObjectId → Bool) (wants : List ObjectId) :
    (commitRun content store deepen seen wants).Halted :=
  run_halts _ (commitWalk_bounded content store deepen seen) (wantEntries wants)

/-- The children of an expanded entry: the target of a tag, or the followed parents of a commit. -/
theorem commitChildren_eq_ok {deepen : Deepen} {entry : ObjectId × Nat}
    {children : List (ObjectId × Nat)}
    (h : commitChildren content store deepen entry = .ok children) :
    entry.1 ∈ store ∧
      ((∃ tag, content entry.1 = .tag (some tag) ∧ children = [(tag.target, entry.2)]) ∨
        (∃ commit followed, content entry.1 = .commit (some commit) ∧
          followedParents content store deepen entry.2 commit.parents = .ok followed ∧
          children = followed.map fun parent => (parent, entry.2 + 1)) ∨
        (((content entry.1).kind = .tree ∨ (content entry.1).kind = .blob) ∧ children = [])) := by
  have hid : entry.1 ∈ store := by
    by_contra hid
    unfold commitChildren at h
    rw [findObject_of_not_mem content hid] at h
    exact absurd h (by simp)
  refine ⟨hid, ?_⟩
  unfold commitChildren at h
  rw [findObject_of_mem content hid] at h
  cases hcontent : content entry.1 with
  | commit body =>
    cases body with
    | none => simp [hcontent] at h
    | some commit =>
      simp only [hcontent] at h
      split at h
      · exact absurd h (by simp)
      · rename_i followed hfollowed
        exact Or.inr (Or.inl ⟨commit, followed, rfl, hfollowed, (Except.ok.inj h).symm⟩)
  | tag body =>
    cases body with
    | none => simp [hcontent] at h
    | some tag =>
      simp only [hcontent] at h
      exact Or.inl ⟨tag, rfl, (Except.ok.inj h).symm⟩
  | tree body =>
    simp only [hcontent] at h
    exact Or.inr (Or.inr ⟨Or.inl rfl, (Except.ok.inj h).symm⟩)
  | blob data =>
    simp only [hcontent] at h
    exact Or.inr (Or.inr ⟨Or.inr rfl, (Except.ok.inj h).symm⟩)

theorem mem_packedOf_iff {order : List (ObjectId × Nat)} {id : ObjectId} :
    id ∈ packedOf content order ↔
      (∃ depth, (id, depth) ∈ order) ∧ packedAtVisit content id = true := by
  simp [packedOf]

/-- What a bounded fetch does: it walks the commits outside of `seen`, which the haves reach, and
then the trees and blobs outside of `covered`, and reports the boundaries of the first walk. -/
structure BoundedFetch (wants haves : List ObjectId) (spec : ShallowSpec)
    (seen covered : ObjectId → Bool) (order : List (ObjectId × Nat)) (result : ShallowPack) :
    Prop where
  seen_iff : ∀ id, seen id = true ↔ Had content store haves id
  commits : (commitRun content store spec.deepen seen wants).failure = none
  order_eq : order = (commitRun content store spec.deepen seen wants).order
  covered_iff : ∀ id, covered id = true ↔ Had content store haves id ∨ id ∈ packedOf content order
  files : (objectRun content store covered (fileStarts content order)).failure = none
  pack_eq : result.pack = packedOf content order ++
    (objectRun content store covered (fileStarts content order)).order
  newShallow_eq : result.newShallow = newShallowOf content store spec order
  unshallow_eq : result.unshallow = unshallowOf content store spec order

theorem buildShallowPack_eq_ok {wants haves : List ObjectId} {spec : ShallowSpec}
    {result : ShallowPack} (hdeepen : spec.deepen ≠ .none)
    (h : buildShallowPack content store wants haves spec = .ok result) :
    ∃ seen covered order, BoundedFetch content store wants haves spec seen covered order result := by
  unfold buildShallowPack at h
  rw [if_neg hdeepen] at h
  simp only at h
  split at h
  · exact absurd h (by simp)
  rename_i hhad
  split at h
  · exact absurd h (by simp)
  rename_i hcommits
  split at h
  · exact absurd h (by simp)
  rename_i hfiles
  obtain rfl := Except.ok.inj h
  refine ⟨_, _, _, fun id => ?_, hcommits, rfl, fun id => ?_, hfiles, rfl, rfl, rfl⟩
  · simp [mem_haveRun_iff content store hhad]
  · simp [mem_haveRun_iff content store hhad]

section Bounded

variable {wants haves : List ObjectId} {spec : ShallowSpec} {seen covered : ObjectId → Bool}
  {order : List (ObjectId × Nat)} {result : ShallowPack}
  (hfetch : BoundedFetch content store wants haves spec seen covered order result)

include hfetch

theorem mem_order_iff {entry : ObjectId × Nat} :
    entry ∈ order ↔ entry ∈ (commitRun content store spec.deepen seen wants).visited := by
  rw [hfetch.order_eq, State.order, List.mem_reverse]

theorem queue_eq_nil : (commitRun content store spec.deepen seen wants).queue = [] := by
  have hhalts := commitRun_halts content store spec.deepen seen wants
  simpa [State.Halted, hfetch.commits] using hhalts

/-- A want is visited, or the haves reach it. -/
theorem want_visited {id : ObjectId} (hid : id ∈ wants) :
    Had content store haves id ∨ ∃ depth, (id, depth) ∈ order := by
  have hclosed := run_closed (commitWalk content store spec.deepen seen) (wantEntries wants)
    (fuel store (referenceCount content) (wantEntries wants))
  have hqueue := queue_eq_nil content store hfetch
  rcases hclosed.start_done hfetch.commits (id, 1) (List.mem_map.2 ⟨id, hid, rfl⟩) with h | h | h
  · exact Or.inl ((hfetch.seen_iff id).1 h)
  · obtain ⟨⟨id', depth⟩, hentry, rfl⟩ := List.mem_map.1 h
    exact Or.inr ⟨depth, (mem_order_iff content store hfetch).2 hentry⟩
  · exact absurd (hqueue ▸ h) (by simp)

/-- A visited entry is stored. -/
theorem stored_of_order {entry : ObjectId × Nat} (h : entry ∈ order) : entry.1 ∈ store := by
  obtain ⟨children, hchildren⟩ := (run_sound (commitWalk content store spec.deepen seen)
    (wantEntries wants) _).expanded entry ((mem_order_iff content store hfetch).1 h)
  exact (commitChildren_eq_ok content store hchildren).1

theorem mem_pack_iff {id : ObjectId} :
    id ∈ result.pack ↔ id ∈ packedOf content order ∨
      Reaches (objectWalk content store covered) (fileStarts content order) id := by
  rw [hfetch.pack_eq, List.mem_append, State.order, List.mem_reverse,
    mem_objectRun_iff content store hfetch.files]

end Bounded

/-! ## What a pack holds -/

section Served

variable {P : ObjectId → Prop}

/-- A property of the wants that commits hand on to their parents, and tags to what they name,
holds of every id that the walk over commits reaches. -/
theorem commitWalk_closed {deepen : Deepen} {seen : ObjectId → Bool} {wants : List ObjectId}
    (hwants : ∀ id ∈ wants, P id) (hparent : ∀ {a b}, P a → b ∈ parentsOf content a → P b)
    (htag : ∀ {a tag}, P a → content a = .tag (some tag) → P tag.target) {entry : ObjectId × Nat}
    (h : Reaches (commitWalk content store deepen seen) (wantEntries wants) entry) :
    P entry.1 := by
  apply h.induct
  · intro a ha
    obtain ⟨want, hwant, rfl⟩ := List.mem_map.1 ha
    exact hwants want hwant
  · intro a children ha hchildren b hb
    obtain ⟨-, hcase | hcase | hcase⟩ := commitChildren_eq_ok content store hchildren
    · obtain ⟨tag, hcontent, rfl⟩ := hcase
      obtain rfl := List.mem_singleton.1 hb
      exact htag ha hcontent
    · obtain ⟨commit, followed, hcontent, hfollowed, rfl⟩ := hcase
      obtain ⟨parent, hparent', rfl⟩ := List.mem_map.1 hb
      have hmem := ((mem_followedParents content store hfollowed parent).1 hparent').1
      exact hparent ha (by simpa [parentsOf, hcontent] using hmem)
    · obtain ⟨-, rfl⟩ := hcase
      simp at hb

/-- Where the walk over files starts is an id with the property, or the tree of one. -/
theorem fileStarts_closed {order : List (ObjectId × Nat)} (horder : ∀ entry ∈ order, P entry.1)
    (htree : ∀ {a commit}, P a → content a = .commit (some commit) → P commit.tree) :
    ∀ id ∈ fileStarts content order, P id := by
  intro id hid
  obtain ⟨entry, hentry, hfile⟩ := List.mem_flatMap.1 hid
  have hentryP := horder entry hentry
  simp only [filesOf] at hfile
  split at hfile
  · rename_i commit hcommit
    rw [List.mem_singleton.1 hfile]
    exact htree hentryP hcommit
  · rwa [List.mem_singleton.1 hfile]
  · rwa [List.mem_singleton.1 hfile]
  · simp at hfile

/-- What the walk over objects reaches is reached from its start. -/
theorem reachableFrom_of_objectWalk {seen : ObjectId → Bool} {wants start : List ObjectId}
    (hstart : ∀ id ∈ start, ReachableFrom content wants id) {id : ObjectId}
    (h : Reaches (objectWalk content store seen) start id) : ReachableFrom content wants id := by
  apply h.induct
  · exact hstart
  · rintro a children ⟨want, hwant, ha⟩ hchildren b hb
    exact ⟨want, hwant, ha.tail ⟨children, ((objectChildren_eq_ok content store).1 hchildren).2, hb⟩⟩

/-- A fetch sends stored objects that its wants reach. -/
theorem served_of_mem_pack {wants haves : List ObjectId} {spec : ShallowSpec}
    {result : ShallowPack} (h : buildShallowPack content store wants haves spec = .ok result)
    {id : ObjectId} (hid : id ∈ result.pack) :
    id ∈ store ∧ ReachableFrom content wants id := by
  have hwants : ∀ id ∈ wants, ReachableFrom content wants id :=
    fun want hwant => ⟨want, hwant, Reachable.refl content want⟩
  by_cases hdeepen : spec.deepen = .none
  · simp only [buildShallowPack, if_pos hdeepen] at h
    split at h
    · exact absurd h (by simp)
    · rename_i pack hpack
      obtain rfl := Except.ok.inj h
      obtain ⟨seen, -, hdone, rfl⟩ := buildPackExcluding_eq_ok content store hpack
      have hreach := (mem_objectRun_iff content store hdone id).1 (List.mem_reverse.1 hid)
      exact ⟨(stored_of_objectRun content store hdone hreach).1,
        reachableFrom_of_objectWalk content store hwants hreach⟩
  · obtain ⟨seen, covered, order, hfetch⟩ := buildShallowPack_eq_ok content store hdeepen h
    have horder : ∀ entry ∈ order, ReachableFrom content wants entry.1 := by
      intro entry hentry
      apply commitWalk_closed content store hwants _ _
        ((run_sound _ _ _).reached entry ((mem_order_iff content store hfetch).1 hentry))
      · rintro a b ⟨want, hwant, ha⟩ hb
        exact ⟨want, hwant, ha.tail (refers_of_mem_parentsOf content hb)⟩
      · rintro a tag ⟨want, hwant, ha⟩ htag
        exact ⟨want, hwant, ha.tail ⟨[tag.target], by rw [htag]; rfl, List.mem_cons_self⟩⟩
    rcases (mem_pack_iff content store hfetch).1 hid with hpacked | hreach
    · obtain ⟨⟨depth, hentry⟩, -⟩ := (mem_packedOf_iff content).1 hpacked
      exact ⟨stored_of_order content store hfetch hentry, horder _ hentry⟩
    · refine ⟨(stored_of_objectRun content store hfetch.files hreach).1, ?_⟩
      apply reachableFrom_of_objectWalk content store _ hreach
      apply fileStarts_closed content horder
      rintro a commit ⟨want, hwant, ha⟩ hcommit
      exact ⟨want, hwant, ha.tail ⟨commit.tree :: commit.parents, by rw [hcommit]; rfl,
        List.mem_cons_self⟩⟩

/-- A fetch finds every want in the store, unless the haves reach it. -/
theorem want_stored {wants haves : List ObjectId} {spec : ShallowSpec} {result : ShallowPack}
    (h : buildShallowPack content store wants haves spec = .ok result) {want : ObjectId}
    (hwant : want ∈ wants) : Had content store haves want ∨ want ∈ store := by
  by_cases hdeepen : spec.deepen = .none
  · simp only [buildShallowPack, if_pos hdeepen] at h
    split at h
    · exact absurd h (by simp)
    · rename_i pack hpack
      obtain ⟨seen, hseen, hdone, -⟩ := buildPackExcluding_eq_ok content store hpack
      cases hs : seen want with
      | true => exact Or.inl ((hseen want).1 hs)
      | false => exact Or.inr (stored_of_objectRun content store hdone (.of_mem _ hwant hs)).1
  · obtain ⟨seen, covered, order, hfetch⟩ := buildShallowPack_eq_ok content store hdeepen h
    rcases want_visited content store hfetch hwant with hhad | ⟨depth, hentry⟩
    · exact Or.inl hhad
    · exact Or.inr (stored_of_order content store hfetch hentry)

end Served

end Pack

end Edda.Git
