import Edda.Git.PackExact
import Edda.Support.FirstRoute

/-!
# The commits of a clone of bounded depth

A clone of depth `limit` should hold the commits that are fewer than `limit` parents away from a
want, where a wanted tag stands for the commit that it peels to, and the last of them should be
its shallow commits. The walk visits a commit once, at the depth of its first entry on the queue.
A tag puts its target behind everything that is queued already, at the depth of the tag itself. So
the first entry of a commit may not be the one of the least depth.

`depth_exact_iff` says exactly when the clone is right: when the first route to every commit that
is to be followed goes over few enough parents, tags counted as steps of the route (and when no
tree of the clone names a commit outside of it). That is so where no tag is wanted
(`firstRoutesShort_of_commits`).
-/

set_option autoImplicit false

namespace Edda.Git

open Edda.Support Edda.Support.Worklist

section DepthExact

variable (content : ObjectId → Object) (store : Store) (wants : List ObjectId) (limit : Nat)

/-! ## Distances and routes -/

/-- The commit, or the annotated tag, leads to the commit. -/
inductive Peels : ObjectId → ObjectId → Prop
  | commit {id : ObjectId} {body : Commit} : content id = .commit (some body) → Peels id id
  | tag {id commit : ObjectId} {tag : Tag} : content id = .tag (some tag) →
      Peels tag.target commit → Peels id commit

/-- A path of that many parents leads from a peeled want to the commit. -/
inductive AtDistance : Nat → ObjectId → Prop
  | want {want id : ObjectId} : want ∈ wants → Peels content want id → AtDistance 0 id
  | parent {n : Nat} {id parent : ObjectId} : AtDistance n id → parent ∈ parentsOf content id →
      AtDistance (n + 1) parent

/-- The least distance of the commit from a peeled want is below `n`. -/
def Within (n : Nat) (id : ObjectId) : Prop := ∃ k < n, AtDistance content wants k id

/-- What a clone of depth `limit` is to be: the commits of its pack are those at a distance below
`limit`, and its new shallow commits those at the distance `limit - 1` that have a parent. -/
structure DepthExact (result : ShallowPack) : Prop where
  packed : ∀ id, (content id).kind = .commit →
    (id ∈ result.pack ↔ Within content wants limit id)
  newShallow : ∀ id, id ∈ result.newShallow ↔ AtDistance content wants (limit - 1) id ∧
    ¬ Within content wants (limit - 1) id ∧ parentsOf content id ≠ []

/-- The places of a want, and then of the target of a tag (which has the place 0) or of a parent of
a commit nearer than `limit - 1`, lead to the object over that many parents. -/
inductive RouteTo : List Nat → ObjectId → Nat → Prop
  | want {i : Nat} {id : ObjectId} : wants[i]? = some id → RouteTo [i] id 0
  | tag {r : List Nat} {id : ObjectId} {k : Nat} {tag : Tag} : RouteTo r id k →
      content id = .tag (some tag) → RouteTo (r ++ [0]) tag.target k
  | parent {r : List Nat} {id parent : ObjectId} {k i : Nat} : RouteTo r id k →
      Within content wants (limit - 1) id → (parentsOf content id)[i]? = some parent →
      RouteTo (r ++ [i]) parent (k + 1)

/-- The route to the object is the shortest one, and the first one of these by its places. -/
def FirstRoute (r : List Nat) (id : ObjectId) (k : Nat) : Prop :=
  RouteTo content wants limit r id k ∧
    ∀ s m, RouteTo content wants limit s id m → r = s ∨ Earlier r s

/-- The first route to every commit that has parents and is nearer than `limit - 1` goes over fewer
than `limit - 1` parents. -/
def FirstRoutesShort : Prop :=
  ∀ r id k, FirstRoute content wants limit r id k → parentsOf content id ≠ [] →
    Within content wants (limit - 1) id → k < limit - 1

/-- References lead from one object to the other, not through a commit. -/
def LeadsTo : ObjectId → ObjectId → Prop :=
  Relation.ReflTransGen fun a b => (content a).kind ≠ .commit ∧ Refers content a b

/-- Every commit that the trees of the clone name belongs to the clone. -/
def TreesWithin : Prop :=
  ∀ id body, Within content wants limit id → content id = .commit (some body) →
    ∀ commit, LeadsTo content body.tree commit → (content commit).kind = .commit →
      Within content wants limit commit

/-! ## The walk by distance -/

/-- What a visited entry leads to: the target of a tag at the depth of the tag, or the parents of a
commit one deeper, if they are followed. -/
def stepChildren (entry : ObjectId × Nat) (follow : Prop) [Decidable follow] :
    List (ObjectId × Nat) :=
  match content entry.1 with
  | .tag (some tag) => [(tag.target, entry.2)]
  | .commit (some commit) =>
    if follow then commit.parents.map fun parent => (parent, entry.2 + 1) else []
  | _ => []

open Classical in
/-- The walk that follows the parents of the commits nearer than `limit - 1`, at whatever depth it
visits them. -/
noncomputable def nearWalk : Walk (ObjectId × Nat) ObjectId GitError :=
  { commitWalk content store (.depth limit) (fun _ => false) with
    expand := fun entry => .ok (if entry.1 ∈ store then
      stepChildren content entry (Within content wants (limit - 1) entry.1) else []) }

noncomputable def nearRun : State (ObjectId × Nat) GitError :=
  run (nearWalk content store wants limit)
    (fuel store (referenceCount content) (wantEntries wants)) (State.init (wantEntries wants))

theorem followedParents_depth (depth : Nat) (parents : List ObjectId) :
    followedParents content store (.depth limit) depth parents =
      .ok (if depth < limit then parents else []) := by
  induction parents with
  | nil => simp [followedParents]
  | cons parent parents ih =>
    simp only [followedParents, follows, ih]
    by_cases h : depth < limit <;> simp [h]

/-- The walk over commits follows the parents of the commits at a depth below `limit`. -/
theorem commitChildren_depth {entry : ObjectId × Nat} (hstored : entry.1 ∈ store)
    (hread : ∃ ids, references (content entry.1) = .ok ids) :
    commitChildren content store (.depth limit) entry =
      .ok (stepChildren content entry (entry.2 < limit)) := by
  obtain ⟨ids, hids⟩ := hread
  simp only [commitChildren, findObject_of_mem content hstored, stepChildren]
  cases hcontent : content entry.1 with
  | commit body =>
    cases body with
    | none => simp [hcontent, references] at hids
    | some commit =>
      simp only [followedParents_depth]
      by_cases h : entry.2 < limit <;> simp [h]
  | tree body => rfl
  | blob data => rfl
  | tag body =>
    cases body with
    | none => simp [hcontent, references] at hids
    | some tag => rfl

/-- Two ways to follow parents agree where there are none, or where they follow alike. -/
theorem stepChildren_congr {entry : ObjectId × Nat} {p q : Prop} [Decidable p] [Decidable q]
    (h : parentsOf content entry.1 ≠ [] → (p ↔ q)) :
    stepChildren content entry p = stepChildren content entry q := by
  unfold stepChildren
  split
  · rfl
  · rename_i commit hcommit
    by_cases hparents : commit.parents = []
    · simp [hparents]
    · have hpq := h (by simpa [parentsOf, hcommit] using hparents)
      by_cases hp : p
      · rw [if_pos hp, if_pos (hpq.1 hp)]
      · rw [if_neg hp, if_neg fun hq => hp (hpq.2 hq)]
  · rfl

/-- The children that follow `entry`: the target of a tag, or the followed parents of a commit. -/
theorem mem_stepChildren {entry child : ObjectId × Nat} {i : Nat} {p : Prop} [Decidable p] :
    (stepChildren content entry p)[i]? = some child ↔
      (∃ tag, content entry.1 = .tag (some tag) ∧ i = 0 ∧ child = (tag.target, entry.2)) ∨
        (p ∧ (parentsOf content entry.1)[i]? = some child.1 ∧ child.2 = entry.2 + 1) := by
  unfold stepChildren parentsOf
  cases hcontent : content entry.1 with
  | commit body =>
    cases body with
    | none => simp
    | some commit =>
      by_cases hp : p
      · simp only [hp, if_true, List.getElem?_map, Option.map_eq_some_iff]
        constructor
        · rintro ⟨parent, hparent, rfl⟩
          exact Or.inr ⟨trivial, hparent, rfl⟩
        · rintro (⟨tag, htag, _⟩ | ⟨-, hparent, hdepth⟩)
          · exact absurd htag (by simp)
          · exact ⟨child.1, hparent, Prod.ext rfl hdepth.symm⟩
      · simp [hp]
  | tree body => simp
  | blob data => simp
  | tag body =>
    cases body with
    | none => simp
    | some tag =>
      cases i with
      | zero => simp [eq_comm]
      | succ i => simp

/-! ## Where routes lead -/

/-- Commits of one clone: what the wants reach is readable, the wants peel to commits, and the
parents of commits are commits. -/
structure CloneGraph : Prop where
  readable : ∀ want ∈ wants, ClosureReadable content store want
  peels : ∀ want ∈ wants, ∃ commit, Peels content want commit
  parents : ∀ id, ReachableFrom content wants id → ∀ parent ∈ parentsOf content id,
    (content parent).kind = .commit

variable {content store wants limit}

theorem Peels.of_tag {id commit : ObjectId} {tag : Tag} (h : Peels content id commit)
    (htag : content id = .tag (some tag)) : Peels content tag.target commit := by
  cases h with
  | commit hcommit => simp [htag] at hcommit
  | tag htag' hrest =>
    obtain rfl : _ = tag := by simpa [htag'] using htag
    exact hrest

/-- What peels and has parents is a commit itself. -/
theorem Peels.eq_of_parents {id commit : ObjectId} (h : Peels content id commit)
    (hparents : parentsOf content id ≠ []) : commit = id := by
  cases h with
  | commit _ => rfl
  | tag htag _ => simp [parentsOf, htag] at hparents

theorem Peels.eq_of_kind {id commit : ObjectId} (h : Peels content id commit)
    (hkind : (content id).kind = .commit) : commit = id := by
  cases h with
  | commit _ => rfl
  | tag htag _ => simp [htag, Object.kind] at hkind

/-- What peels is a commit or a tag. -/
theorem Peels.packedAtVisit {id commit : ObjectId} (h : Peels content id commit) :
    packedAtVisit content id = true := by
  cases h with
  | commit hcommit => simp [Edda.Git.packedAtVisit, hcommit]
  | tag htag _ => simp [Edda.Git.packedAtVisit, htag]

theorem reachable_of_parent {id parent : ObjectId} (h : ReachableFrom content wants id)
    (hparent : parent ∈ parentsOf content id) : ReachableFrom content wants parent := by
  obtain ⟨ids, hids, hmem⟩ := refers_of_mem_parentsOf content hparent
  exact h.tail content hids hmem

theorem CloneGraph.parent_peels (hgraph : CloneGraph content store wants) {id parent : ObjectId}
    (h : ReachableFrom content wants id) (hparent : parent ∈ parentsOf content id) :
    Peels content parent parent := by
  have hkind := hgraph.parents id h parent hparent
  obtain ⟨-, ids, hids⟩ := (reachable_of_parent h hparent).readable content store hgraph.readable
  cases hcontent : content parent with
  | commit body =>
    cases body with
    | none => simp [hcontent, references] at hids
    | some body => exact .commit hcontent
  | tree body => simp [hcontent, Object.kind] at hkind
  | blob data => simp [hcontent, Object.kind] at hkind
  | tag body => simp [hcontent, Object.kind] at hkind

/-- The object peels to a commit at the distance `k` from a want. -/
def Placed (content : ObjectId → Object) (wants : List ObjectId) (id : ObjectId) (k : Nat) : Prop :=
  ReachableFrom content wants id ∧ ∃ commit, Peels content id commit ∧
    AtDistance content wants k commit

theorem Placed.tag {id : ObjectId} {k : Nat} {tag : Tag} (h : Placed content wants id k)
    (htag : content id = .tag (some tag)) : Placed content wants tag.target k := by
  obtain ⟨hreach, commit, hpeels, hdistance⟩ := h
  exact ⟨hreach.tail content (by rw [htag]; rfl) List.mem_cons_self, commit, hpeels.of_tag htag,
    hdistance⟩

theorem Placed.parent (hgraph : CloneGraph content store wants) {id parent : ObjectId} {k : Nat}
    (h : Placed content wants id k) (hparent : parent ∈ parentsOf content id) :
    Placed content wants parent (k + 1) := by
  obtain ⟨hreach, commit, hpeels, hdistance⟩ := h
  obtain rfl := hpeels.eq_of_parents (List.ne_nil_of_mem hparent)
  exact ⟨reachable_of_parent hreach hparent, parent, hgraph.parent_peels hreach hparent,
    hdistance.parent hparent⟩

theorem CloneGraph.placed_want (hgraph : CloneGraph content store wants) {want : ObjectId}
    (hwant : want ∈ wants) : Placed content wants want 0 := by
  obtain ⟨commit, hpeels⟩ := hgraph.peels want hwant
  exact ⟨⟨want, hwant, .refl content want⟩, commit, hpeels, .want hwant hpeels⟩

theorem Placed.atDistance {id : ObjectId} {k : Nat} (h : Placed content wants id k)
    (hkind : (content id).kind = .commit) : AtDistance content wants k id := by
  obtain ⟨-, commit, hpeels, hdistance⟩ := h
  exact hpeels.eq_of_kind hkind ▸ hdistance

theorem kind_of_parents {id : ObjectId} (h : parentsOf content id ≠ []) :
    (content id).kind = .commit := by
  unfold parentsOf at h
  split at h
  · rename_i commit hcommit
    rw [hcommit]
    rfl
  · simp at h

/-- A route leads to what peels to a commit at the distance that the route goes over. -/
theorem RouteTo.placed (hgraph : CloneGraph content store wants) {r : List Nat} {id : ObjectId}
    {k : Nat} (h : RouteTo content wants limit r id k) : Placed content wants id k := by
  induction h with
  | want hwant => exact hgraph.placed_want (List.mem_of_getElem? hwant)
  | tag _ htag ih => exact ih.tag htag
  | parent _ _ hparent ih => exact ih.parent hgraph (List.mem_of_getElem? hparent)

/-- A route leads to a commit that the clone is to hold. -/
theorem RouteTo.within (hlimit : 1 ≤ limit) (hgraph : CloneGraph content store wants)
    {r : List Nat} {id : ObjectId} {k : Nat} (h : RouteTo content wants limit r id k) :
    ∃ commit, Peels content id commit ∧ Within content wants limit commit := by
  induction h with
  | want hwant =>
    obtain ⟨-, commit, hpeels, hdistance⟩ := hgraph.placed_want (List.mem_of_getElem? hwant)
    exact ⟨commit, hpeels, 0, by omega, hdistance⟩
  | tag _ htag ih =>
    obtain ⟨commit, hpeels, hwithin⟩ := ih
    exact ⟨commit, hpeels.of_tag htag, hwithin⟩
  | @parent r id parent k i hroute hnear hparent _ =>
    obtain ⟨m, hm, hdistance⟩ := hnear
    have hmem := List.mem_of_getElem? hparent
    exact ⟨parent, hgraph.parent_peels (hroute.placed hgraph).1 hmem, m + 1, by omega,
      hdistance.parent hmem⟩

/-- A route goes on from a tag to the commit that it peels to. -/
theorem exists_route_of_peels {r : List Nat} {id commit : ObjectId} {k : Nat}
    (h : RouteTo content wants limit r id k) (hpeels : Peels content id commit) :
    ∃ s, RouteTo content wants limit s commit k := by
  induction hpeels generalizing r with
  | commit _ => exact ⟨r, h⟩
  | tag htag _ ih => exact ih (h.tag htag)

/-- A route leads to every commit of the clone, over as many parents as any short path to it. -/
theorem exists_route {k : Nat} {id : ObjectId} (h : AtDistance content wants k id)
    (hk : k < limit) : ∃ r, RouteTo content wants limit r id k := by
  induction h with
  | want hwant hpeels =>
    obtain ⟨i, hi⟩ := List.mem_iff_getElem?.1 hwant
    exact exists_route_of_peels (.want hi) hpeels
  | @parent n id parent hdistance hparent ih =>
    obtain ⟨r, hr⟩ := ih (by omega)
    obtain ⟨i, hi⟩ := List.mem_iff_getElem?.1 hparent
    exact ⟨_, hr.parent ⟨n, by omega, hdistance⟩ hi⟩

/-- The commits of the clone are those that a route leads to. -/
theorem within_iff_exists_route (hlimit : 1 ≤ limit) (hgraph : CloneGraph content store wants)
    {id : ObjectId} (hkind : (content id).kind = .commit) :
    Within content wants limit id ↔ ∃ r k, RouteTo content wants limit r id k := by
  constructor
  · rintro ⟨k, hk, hdistance⟩
    obtain ⟨r, hr⟩ := exists_route hdistance hk
    exact ⟨r, k, hr⟩
  · rintro ⟨r, k, hroute⟩
    obtain ⟨commit, hpeels, hwithin⟩ := hroute.within hlimit hgraph
    exact hpeels.eq_of_kind hkind ▸ hwithin

theorem Placed.stored (hgraph : CloneGraph content store wants) {id : ObjectId} {k : Nat}
    (h : Placed content wants id k) : id ∈ store ∧ ∃ ids, references (content id) = .ok ids :=
  h.1.readable content store hgraph.readable

/-- The routes of the walk by distance. -/
theorem route_nearWalk_iff (hgraph : CloneGraph content store wants) {r : List Nat}
    {entry : ObjectId × Nat} :
    Route (nearWalk content store wants limit) (wantEntries wants) r entry ↔
      ∃ k, entry.2 = k + 1 ∧ RouteTo content wants limit r entry.1 k := by
  classical
  constructor
  · intro h
    induction h with
    | start hentry =>
      simp only [wantEntries, List.getElem?_map, Option.map_eq_some_iff] at hentry
      obtain ⟨want, hwant, rfl⟩ := hentry
      exact ⟨0, rfl, .want hwant⟩
    | @step r a b children i _ hexpand hchild ih =>
      obtain ⟨k, hk, hroute⟩ := ih
      obtain rfl := Except.ok.inj hexpand
      rw [if_pos ((hroute.placed hgraph).stored hgraph).1] at hchild
      rcases (mem_stepChildren content).1 hchild with ⟨tag, htag, rfl, rfl⟩ | ⟨hnear, hparent, hb⟩
      · exact ⟨k, hk, hroute.tag htag⟩
      · exact ⟨k + 1, by rw [hb, hk], hroute.parent hnear hparent⟩
  · rintro ⟨k, hk, hroute⟩
    obtain ⟨id, depth⟩ := entry
    simp only at hk hroute
    subst hk
    induction hroute with
    | want hwant => exact .start (by simp [wantEntries, hwant])
    | tag hroute htag ih =>
      refine .step ih rfl ?_
      rw [if_pos ((hroute.placed hgraph).stored hgraph).1]
      exact (mem_stepChildren content).2 (Or.inl ⟨_, htag, rfl, rfl⟩)
    | parent hroute hnear hparent ih =>
      refine .step ih rfl ?_
      rw [if_pos ((hroute.placed hgraph).stored hgraph).1]
      exact (mem_stepChildren content).2 (Or.inr ⟨hnear, hparent, rfl⟩)

theorem RouteTo.route (hgraph : CloneGraph content store wants) {r : List Nat} {id : ObjectId}
    {k : Nat} (h : RouteTo content wants limit r id k) :
    Route (nearWalk content store wants limit) (wantEntries wants) r (id, k + 1) :=
  (route_nearWalk_iff hgraph).2 ⟨k, rfl, h⟩

/-! ## What the walk by distance visits -/

theorem length_stepChildren_le {entry : ObjectId × Nat} {p : Prop} [Decidable p] :
    (stepChildren content entry p).length ≤ referenceCount content entry.1 := by
  unfold stepChildren referenceCount
  split
  · rename_i tag htag
    simp [htag, references]
  · rename_i commit hcommit
    by_cases hp : p <;> simp [hp, hcommit, references]
  · simp

theorem nearWalk_bounded :
    Bounded (nearWalk content store wants limit) store (referenceCount content) where
  mem_nodes := by
    intro entry children h hne
    obtain rfl := Except.ok.inj h
    by_contra hid
    exact hne (if_neg hid)
  length_le := by
    intro entry children h
    classical
    obtain rfl := Except.ok.inj h
    split
    · exact length_stepChildren_le
    · exact Nat.zero_le _

theorem nearRun_halts : (nearRun content store wants limit).Halted :=
  run_halts _ nearWalk_bounded (wantEntries wants)

/-- The walk by distance does not fail. -/
theorem nearRun_failure : (nearRun content store wants limit).failure = none := by
  apply failure_eq_none_of_expands
  · exact fun entry _ => ⟨_, rfl⟩
  · exact fun _ => rfl
  · exact fun _ => rfl

/-- Which ids an entry leads to does not depend on its depth. -/
theorem map_fst_stepChildren (id : ObjectId) (depth depth' : Nat) (p : Prop) [Decidable p] :
    (stepChildren content (id, depth) p).map Prod.fst =
      (stepChildren content (id, depth') p).map Prod.fst := by
  unfold stepChildren
  cases content id with
  | commit body =>
    cases body with
    | none => rfl
    | some commit => by_cases hp : p <;> simp [hp]
  | tree body => rfl
  | blob data => rfl
  | tag body => cases body <;> rfl

/-- The keys of the children depend on the key. -/
theorem nearWalk_keys (a b : ObjectId × Nat) (as bs : List (ObjectId × Nat))
    (hkey : a.1 = b.1) (has : (nearWalk content store wants limit).expand a = .ok as)
    (hbs : (nearWalk content store wants limit).expand b = .ok bs) :
    as.map Prod.fst = bs.map Prod.fst := by
  classical
  obtain ⟨id, depth⟩ := a
  obtain ⟨id', depth'⟩ := b
  obtain rfl : id = id' := hkey
  obtain rfl := Except.ok.inj has
  obtain rfl := Except.ok.inj hbs
  split
  · exact map_fst_stepChildren id depth depth' _
  · rfl

/-- The walk by distance visits an entry at the distance of the first route to it. -/
theorem firstRoute_of_visited (hgraph : CloneGraph content store wants) {entry : ObjectId × Nat}
    (h : entry ∈ (nearRun content store wants limit).visited) :
    ∃ r k, entry.2 = k + 1 ∧ FirstRoute content wants limit r entry.1 k := by
  obtain ⟨r, hroute, hfirst⟩ := exists_first_route (W := nearWalk content store wants limit) rfl
    (fun _ => rfl) nearWalk_keys nearRun_failure nearRun_halts h
  obtain ⟨k, hk, hrouteTo⟩ := (route_nearWalk_iff hgraph).1 hroute
  refine ⟨r, k, hk, hrouteTo, fun s m hs => ?_⟩
  exact hfirst s (entry.1, m + 1) (hs.route hgraph) rfl

/-- The walk by distance visits everything that a route leads to. -/
theorem visited_of_route (hgraph : CloneGraph content store wants) {r : List Nat} {id : ObjectId}
    {k : Nat} (h : RouteTo content wants limit r id k) :
    ∃ depth, (id, depth) ∈ (nearRun content store wants limit).visited := by
  obtain ⟨⟨id', depth⟩, hentry, hkey⟩ := exists_visited_of_route
    (W := nearWalk content store wants limit) rfl (fun _ => rfl) nearWalk_keys nearRun_failure
    nearRun_halts (h.route hgraph)
  obtain rfl : id' = id := hkey
  exact ⟨depth, hentry⟩

/-- A route goes over one number of parents. -/
theorem RouteTo.unique (hgraph : CloneGraph content store wants) {r : List Nat} {id : ObjectId}
    {k m : Nat} (h : RouteTo content wants limit r id k)
    (h' : RouteTo content wants limit r id m) : k = m := by
  have hentry := (h.route hgraph).unique _ (h'.route hgraph) rfl
  simpa using congrArg Prod.snd hentry

/-! ## The walk by depth -/

section Clone

variable (content store wants limit) in
/-- The walk over the commits of a clone. -/
def cloneRun : State (ObjectId × Nat) GitError :=
  commitRun content store (.depth limit) (fun _ => false) wants

variable (content wants limit) in
/-- The depth and the distance of the entry say the same of its parents. -/
def DepthRight (entry : ObjectId × Nat) : Prop :=
  parentsOf content entry.1 ≠ [] →
    (entry.2 < limit ↔ Within content wants (limit - 1) entry.1)

variable (hlimit : 1 ≤ limit) (hgraph : CloneGraph content store wants)

include hlimit hgraph

/-- The walk meets what peels to a commit at the distance that its depth says. -/
theorem placed_of_reaches {entry : ObjectId × Nat}
    (h : Reaches (commitWalk content store (.depth limit) (fun _ => false)) (wantEntries wants)
      entry) : ∃ k < limit, entry.2 = k + 1 ∧ Placed content wants entry.1 k := by
  apply h.induct
  · intro entry hentry
    obtain ⟨want, hwant, rfl⟩ := List.mem_map.1 hentry
    exact ⟨0, by omega, rfl, hgraph.placed_want hwant⟩
  · rintro entry children ⟨k, hk, hdepth, hplaced⟩ hexpand child hchild
    obtain ⟨hstored, hread⟩ := hplaced.stored hgraph
    have hchildren := (commitChildren_depth content store limit hstored hread).symm.trans hexpand
    obtain rfl := Except.ok.inj hchildren
    obtain ⟨i, hi⟩ := List.mem_iff_getElem?.1 hchild
    rcases (mem_stepChildren content).1 hi with ⟨tag, htag, rfl, rfl⟩ | ⟨hfollow, hparent, hdepth'⟩
    · exact ⟨k, hk, hdepth, hplaced.tag htag⟩
    · exact ⟨k + 1, by omega, by rw [hdepth', hdepth],
        hplaced.parent hgraph (List.mem_of_getElem? hparent)⟩

theorem cloneRun_failure : (cloneRun content store wants limit).failure = none := by
  apply failure_eq_none_of_expands
  · intro entry hentry
    obtain ⟨k, -, -, hplaced⟩ := placed_of_reaches hlimit hgraph hentry
    obtain ⟨hstored, hread⟩ := hplaced.stored hgraph
    exact ⟨_, commitChildren_depth content store limit hstored hread⟩
  · exact fun _ => rfl
  · exact fun _ => rfl

theorem placed_of_visited {entry : ObjectId × Nat}
    (h : entry ∈ (cloneRun content store wants limit).visited) :
    ∃ k < limit, entry.2 = k + 1 ∧ Placed content wants entry.1 k :=
  placed_of_reaches hlimit hgraph ((run_sound _ (wantEntries wants) _).reached entry h)

omit hlimit in
/-- Where depth and distance say the same, the walks expand an entry alike. -/
theorem expand_agree {entry : ObjectId × Nat} {k : Nat} (hplaced : Placed content wants entry.1 k)
    (h : DepthRight content wants limit entry) :
    (nearWalk content store wants limit).expand entry =
      commitChildren content store (.depth limit) entry := by
  classical
  obtain ⟨hstored, hread⟩ := hplaced.stored hgraph
  rw [commitChildren_depth content store limit hstored hread, stepChildren_congr content h]
  simp only [nearWalk, if_pos hstored]

/-- If the depths of the visited entries are right, the walk by depth is the walk by distance. -/
theorem nearRun_eq (h : ∀ entry ∈ (cloneRun content store wants limit).visited,
    DepthRight content wants limit entry) :
    nearRun content store wants limit = cloneRun content store wants limit := by
  apply run_congr (commitWalk content store (.depth limit) (fun _ => false))
  · exact cloneRun_failure hlimit hgraph
  · intro entry hentry
    obtain ⟨k, -, -, hplaced⟩ := placed_of_visited hlimit hgraph hentry
    exact expand_agree hgraph hplaced (h entry hentry)

omit hlimit in
/-- Short first routes make the depths of the walk by distance right. -/
theorem depthRight_of_short (hshort : FirstRoutesShort content wants limit) {entry : ObjectId × Nat}
    (h : entry ∈ (nearRun content store wants limit).visited) :
    DepthRight content wants limit entry := by
  obtain ⟨r, k, hk, hfirst⟩ := firstRoute_of_visited hgraph h
  intro hparents
  constructor
  · intro hdepth
    exact ⟨k, by omega, (hfirst.1.placed hgraph).atDistance (kind_of_parents hparents)⟩
  · intro hnear
    have hlow := hshort r entry.1 k hfirst hparents hnear
    omega

omit hlimit in
/-- With short first routes, the walk by depth is the walk by distance. -/
theorem cloneRun_eq (hshort : FirstRoutesShort content wants limit) :
    cloneRun content store wants limit = nearRun content store wants limit := by
  apply run_congr (nearWalk content store wants limit)
  · exact nearRun_failure
  · intro entry hentry
    obtain ⟨r, k, hk, hfirst⟩ := firstRoute_of_visited hgraph hentry
    exact (expand_agree hgraph (hfirst.1.placed hgraph)
      (depthRight_of_short hgraph hshort hentry)).symm

/-- The depths are right exactly when the first routes are short. -/
theorem depthRight_iff_short :
    (∀ entry ∈ (cloneRun content store wants limit).visited, DepthRight content wants limit entry) ↔
      FirstRoutesShort content wants limit := by
  constructor
  · intro hright r id k hfirst hparents hnear
    have hsame := nearRun_eq hlimit hgraph hright
    obtain ⟨depth, hentry⟩ := visited_of_route hgraph hfirst.1
    obtain ⟨s, m, hm, hfirst'⟩ := firstRoute_of_visited hgraph hentry
    -- two first routes to one commit are the same
    have hrs : r = s := by
      rcases hfirst.2 s m hfirst'.1 with h | h
      · exact h
      · rcases hfirst'.2 r k hfirst.1 with h' | h'
        · exact h'.symm
        · exact absurd (h.trans h') (Earlier.irrefl r)
    subst hrs
    obtain rfl := hfirst.1.unique hgraph hfirst'.1
    rw [hsame] at hentry
    have hdepth := (hright _ hentry hparents).2 hnear
    simp only at hm hdepth
    omega
  · intro hshort entry hentry
    rw [cloneRun_eq hgraph hshort] at hentry
    exact depthRight_of_short hgraph hshort hentry

/-- A walk with the right depths visits the commits of the clone. -/
theorem visited_iff_within
    (hright : ∀ entry ∈ (cloneRun content store wants limit).visited,
      DepthRight content wants limit entry) {id : ObjectId}
    (hkind : (content id).kind = .commit) :
    (∃ depth, (id, depth) ∈ (cloneRun content store wants limit).visited) ↔
      Within content wants limit id := by
  rw [within_iff_exists_route hlimit hgraph hkind, ← nearRun_eq hlimit hgraph hright]
  constructor
  · rintro ⟨depth, hentry⟩
    obtain ⟨r, k, -, hfirst⟩ := firstRoute_of_visited hgraph hentry
    exact ⟨r, k, hfirst.1⟩
  · rintro ⟨r, k, hroute⟩
    exact visited_of_route hgraph hroute

/-! ## The pack and the boundary -/

omit hlimit hgraph in
theorem not_had_nil (id : ObjectId) : ¬ Had content store [] id := by
  rintro ⟨tip, htip, -⟩
  simp at htip

omit hlimit in
theorem CloneGraph.closure {id : ObjectId} (h : ReachableFrom content wants id) :
    ClosureReadable content store id := by
  obtain ⟨want, hwant, hreach⟩ := h
  exact fun b hb => hgraph.readable want hwant b (Relation.ReflTransGen.trans hreach hb)

/-- The files of a clone are the trees of the visited commits. -/
theorem mem_fileStarts_iff {id : ObjectId} :
    id ∈ fileStarts content (cloneRun content store wants limit).order ↔
      ∃ commit depth body, (commit, depth) ∈ (cloneRun content store wants limit).visited ∧
        content commit = .commit (some body) ∧ id = body.tree := by
  simp only [fileStarts, List.mem_flatMap, State.order, List.mem_reverse]
  constructor
  · rintro ⟨⟨commit, depth⟩, hentry, hfile⟩
    obtain ⟨k, -, -, -, commit', hpeels, -⟩ := placed_of_visited hlimit hgraph hentry
    cases hpeels with
    | commit hcommit =>
      rw [filesOf, hcommit, List.mem_singleton] at hfile
      exact ⟨commit, depth, _, hentry, hcommit, hfile⟩
    | tag htag _ => simp [filesOf, htag] at hfile
  · rintro ⟨commit, depth, body, hentry, hcommit, rfl⟩
    exact ⟨(commit, depth), hentry, by simp [filesOf, hcommit]⟩

/-- What the clone visits is packed as it is visited. -/
theorem mem_packedOf_visited {id : ObjectId} {depth : Nat}
    (h : (id, depth) ∈ (cloneRun content store wants limit).visited) :
    id ∈ packedOf content (cloneRun content store wants limit).order := by
  obtain ⟨k, -, -, -, commit, hpeels, -⟩ := placed_of_visited hlimit hgraph h
  exact (mem_packedOf_iff content).2 ⟨⟨depth, List.mem_reverse.2 h⟩, hpeels.packedAtVisit⟩

/-- The target of a visited tag is visited. -/
theorem target_visited {id : ObjectId} {depth : Nat} {tag : Tag}
    (h : (id, depth) ∈ (cloneRun content store wants limit).visited)
    (htag : content id = .tag (some tag)) :
    ∃ depth', (tag.target, depth') ∈ (cloneRun content store wants limit).visited := by
  have hfailure := cloneRun_failure hlimit hgraph
  have hqueue : (cloneRun content store wants limit).queue = [] :=
    (commitRun_halts content store (.depth limit) (fun _ => false) wants).resolve_left (by
      change ¬ (cloneRun content store wants limit).failure.isSome = true
      simp [hfailure])
  obtain ⟨k, -, -, hplaced⟩ := placed_of_visited hlimit hgraph h
  obtain ⟨hstored, hread⟩ := hplaced.stored hgraph
  have hchildren : commitChildren content store (.depth limit) (id, depth) = _ :=
    commitChildren_depth content store limit hstored hread
  have hclosed := run_closed (commitWalk content store (.depth limit) (fun _ => false))
    (wantEntries wants) (fuel store (referenceCount content) (wantEntries wants))
  rcases hclosed.children_done hfailure (id, depth) h _ hchildren (tag.target, depth)
    (by simp [stepChildren, htag]) with hskip | hvisited | hqueued
  · exact absurd hskip (by simp [commitWalk])
  · obtain ⟨⟨target, depth'⟩, hmem, rfl⟩ := List.mem_map.1 hvisited
    exact ⟨depth', hmem⟩
  · exact absurd (hqueue ▸ hqueued) (by simp)

/-- A clone succeeds. -/
theorem exists_clone : ∃ result covered,
    buildShallowPack content store wants [] ⟨[], .depth limit⟩ = .ok result ∧
      BoundedFetch content store wants [] ⟨[], .depth limit⟩ (fun _ => false) covered
        (cloneRun content store wants limit).order result := by
  have hhad : haveRun content store [] = State.init [] := run_of_halted _ (Or.inr rfl) _
  have hnothing : (fun id => decide (id ∈ (State.init [] : State ObjectId GitError).visited)) =
      fun _ => false := by
    funext id
    simp [State.init]
  have hfiles : ∀ file ∈ fileStarts content (cloneRun content store wants limit).order,
      ClosureReadable content store file := by
    intro file hfile
    obtain ⟨commit, depth, body, hentry, hcommit, rfl⟩ :=
      (mem_fileStarts_iff hlimit hgraph).1 hfile
    obtain ⟨k, -, -, hreach, -⟩ := placed_of_visited hlimit hgraph hentry
    exact hgraph.closure (hreach.tail content (by rw [hcommit]; rfl) List.mem_cons_self)
  have hok : ∃ result, buildShallowPack content store wants [] ⟨[], .depth limit⟩ = .ok result := by
    have hcommits := cloneRun_failure hlimit hgraph
    unfold cloneRun at hcommits hfiles
    unfold buildShallowPack
    rw [if_neg (by simp)]
    simp only [hhad, hnothing]
    split
    · rename_i hfailed
      exact absurd hfailed (by simp [State.init])
    · split
      · rename_i hfailed
        exact absurd (hcommits.symm.trans hfailed) (by simp)
      · split
        · rename_i hfailed
          exact absurd ((objectRun_failure content store hfiles).symm.trans hfailed) (by simp)
        · exact ⟨_, rfl⟩
  obtain ⟨result, hresult⟩ := hok
  obtain ⟨seen, covered, order, hfetch⟩ :=
    buildShallowPack_eq_ok content store (by simp) hresult
  have hseen : seen = fun _ => false := by
    funext id
    exact Bool.eq_false_iff.2 fun h => not_had_nil id ((hfetch.seen_iff id).1 h)
  subst hseen
  have horder : order = (cloneRun content store wants limit).order := hfetch.order_eq
  subst horder
  exact ⟨result, covered, hresult, hfetch⟩

omit hlimit hgraph in
/-- A visited entry is a boundary if it has parents and its depth is the last one. -/
theorem mem_newShallowOf_iff {order : List (ObjectId × Nat)} {id : ObjectId} :
    id ∈ newShallowOf content store ⟨[], .depth limit⟩ order ↔
      ∃ depth, (id, depth) ∈ order ∧ parentsOf content id ≠ [] ∧ ¬ depth < limit := by
  have hcut : ∀ entry : ObjectId × Nat, cutsParent content store (.depth limit) entry = true ↔
      parentsOf content entry.1 ≠ [] ∧ ¬ entry.2 < limit := by
    intro entry
    simp only [cutsParent, follows, List.any_eq_true, Bool.not_eq_true', decide_eq_false_iff_not]
    constructor
    · rintro ⟨parent, hparent, hdepth⟩
      exact ⟨List.ne_nil_of_mem hparent, hdepth⟩
    · rintro ⟨hparents, hdepth⟩
      obtain ⟨parent, hparent⟩ := List.exists_mem_of_ne_nil _ hparents
      exact ⟨parent, hparent, hdepth⟩
  simp only [newShallowOf, List.mem_map, List.mem_filter, Bool.and_eq_true, hcut]
  constructor
  · rintro ⟨⟨id', depth⟩, ⟨hentry, ⟨hparents, hdepth⟩, -⟩, rfl⟩
    exact ⟨depth, hentry, hparents, hdepth⟩
  · rintro ⟨depth, hentry, hparents, hdepth⟩
    exact ⟨(id, depth), ⟨hentry, ⟨hparents, hdepth⟩, by simp⟩, rfl⟩

section Result

variable {covered : ObjectId → Bool} {result : ShallowPack}
  (hfetch : BoundedFetch content store wants [] ⟨[], .depth limit⟩ (fun _ => false) covered
    (cloneRun content store wants limit).order result)

include hfetch

omit hlimit hgraph in
theorem mem_newShallow_clone {id : ObjectId} :
    id ∈ result.newShallow ↔
      ∃ depth, (id, depth) ∈ (cloneRun content store wants limit).visited ∧
        parentsOf content id ≠ [] ∧ ¬ depth < limit := by
  rw [hfetch.newShallow_eq, mem_newShallowOf_iff]
  simp only [State.order, List.mem_reverse]

/-- The shallow commits are the right ones exactly when the depths are right. -/
theorem newShallow_iff_depthRight :
    (∀ id, id ∈ result.newShallow ↔ AtDistance content wants (limit - 1) id ∧
      ¬ Within content wants (limit - 1) id ∧ parentsOf content id ≠ []) ↔
    ∀ entry ∈ (cloneRun content store wants limit).visited,
      DepthRight content wants limit entry := by
  constructor
  · intro hexact entry hentry hparents
    obtain ⟨k, hk, hdepth, hplaced⟩ := placed_of_visited hlimit hgraph hentry
    constructor
    · intro hlow
      exact ⟨k, by omega, hplaced.atDistance (kind_of_parents hparents)⟩
    · intro hnear
      by_contra hcut
      have hmem := (mem_newShallow_clone hfetch).2 ⟨entry.2, hentry, hparents, hcut⟩
      exact ((hexact entry.1).1 hmem).2.1 hnear
  · intro hright id
    rw [mem_newShallow_clone hfetch]
    constructor
    · rintro ⟨depth, hentry, hparents, hcut⟩
      have hfar : ¬ Within content wants (limit - 1) id :=
        fun h => hcut ((hright _ hentry hparents).2 h)
      obtain ⟨k, hk, hdepth, hplaced⟩ := placed_of_visited hlimit hgraph hentry
      simp only at hdepth
      obtain rfl : k = limit - 1 := by omega
      exact ⟨hplaced.atDistance (kind_of_parents hparents), hfar, hparents⟩
    · rintro ⟨hdistance, hfar, hparents⟩
      have hwithin : Within content wants limit id := ⟨limit - 1, by omega, hdistance⟩
      obtain ⟨depth, hentry⟩ :=
        (visited_iff_within hlimit hgraph hright (kind_of_parents hparents)).2 hwithin
      exact ⟨depth, hentry, hparents, fun h => hfar ((hright _ hentry hparents).1 h)⟩

omit hlimit hgraph in
theorem covered_iff_packed {id : ObjectId} :
    covered id = true ↔ id ∈ packedOf content (cloneRun content store wants limit).order := by
  rw [hfetch.covered_iff]
  exact ⟨fun h => h.resolve_left (not_had_nil id), Or.inr⟩

/-- Where the trees name commits of the clone only, no other commit is packed with them. -/
theorem within_of_reaches (htrees : TreesWithin content wants limit)
    (hright : ∀ entry ∈ (cloneRun content store wants limit).visited,
      DepthRight content wants limit entry) {id : ObjectId}
    (h : Reaches (objectWalk content store covered)
      (fileStarts content (cloneRun content store wants limit).order) id)
    (hkind : (content id).kind = .commit) : Within content wants limit id := by
  have hleads : ∃ commit body, Within content wants limit commit ∧
      content commit = .commit (some body) ∧ LeadsTo content body.tree id := by
    apply h.induct_reached
    · intro file hfile _
      obtain ⟨commit, depth, body, hentry, hcommit, rfl⟩ :=
        (mem_fileStarts_iff hlimit hgraph).1 hfile
      exact ⟨commit, body, (visited_iff_within hlimit hgraph hright (by rw [hcommit]; rfl)).1
        ⟨depth, hentry⟩, hcommit, .refl⟩
    · rintro a children ha ⟨commit, body, hwithin, hcommit, hleads⟩ hexpand b hb _
      refine ⟨commit, body, hwithin, hcommit, hleads.tail ⟨fun hakind => ?_, children, ?_, hb⟩⟩
      · -- a commit that a tree names was packed before, and the walk skips it
        have hawithin := htrees commit body hwithin hcommit a hleads hakind
        obtain ⟨depth, hentry⟩ := (visited_iff_within hlimit hgraph hright hakind).2 hawithin
        have hskip : covered a = false := ha.skip_eq_false
        rw [(covered_iff_packed hfetch).2 (mem_packedOf_visited hlimit hgraph hentry)] at hskip
        exact absurd hskip (by simp)
      · exact ((objectChildren_eq_ok content store).1 hexpand).2
  obtain ⟨commit, body, hwithin, hcommit, hleads⟩ := hleads
  exact htrees commit body hwithin hcommit id hleads hkind

/-- What the tree of a visited commit leads to is packed. -/
theorem mem_pack_of_leadsTo {commit id : ObjectId} {depth : Nat} {body : Commit}
    (hentry : (commit, depth) ∈ (cloneRun content store wants limit).visited)
    (hcommit : content commit = .commit (some body)) (h : LeadsTo content body.tree id) :
    id ∈ result.pack := by
  rw [mem_pack_iff content store hfetch]
  have hcover : ∀ {a}, (covered a = false → Reaches (objectWalk content store covered)
      (fileStarts content (cloneRun content store wants limit).order) a) →
      a ∈ packedOf content (cloneRun content store wants limit).order ∨
        Reaches (objectWalk content store covered)
          (fileStarts content (cloneRun content store wants limit).order) a := by
    intro a ha
    cases hc : covered a with
    | true => exact Or.inl ((covered_iff_packed hfetch).1 hc)
    | false => exact Or.inr (ha hc)
  induction h with
  | refl =>
    refine hcover fun hskip => .of_mem _ ?_ hskip
    exact (mem_fileStarts_iff hlimit hgraph).2 ⟨commit, depth, body, hentry, hcommit, rfl⟩
  | @tail a b _ hab ih =>
    obtain ⟨hakind, ids, hids, hb⟩ := hab
    rcases ih with hpacked | hreach
    · -- a packed object that is no commit is a tag, whose target is visited with it
      obtain ⟨⟨depth', hmem⟩, -⟩ := (mem_packedOf_iff content).1 hpacked
      have hvisited := List.mem_reverse.1 hmem
      obtain ⟨k, -, -, -, commit', hpeels, -⟩ := placed_of_visited hlimit hgraph hvisited
      cases hpeels with
      | commit hcommit' => exact absurd (by rw [hcommit']; rfl) hakind
      | @tag _ _ tag htag _ =>
        obtain rfl : [tag.target] = ids := by simpa [htag, references] using hids
        obtain rfl := List.mem_singleton.1 hb
        obtain ⟨depth'', htarget⟩ := target_visited hlimit hgraph hvisited htag
        exact Or.inl (mem_packedOf_visited hlimit hgraph htarget)
    · have hstored := (stored_of_objectRun content store hfetch.files hreach).1
      refine hcover fun hskip => hreach.tail _ ⟨ids, ?_, hb, hskip⟩
      exact (objectChildren_eq_ok content store).2 ⟨hstored, hids⟩

/-- With the right depths, the commits of the pack are the right ones exactly when the trees name no
others. -/
theorem packed_iff_treesWithin
    (hright : ∀ entry ∈ (cloneRun content store wants limit).visited,
      DepthRight content wants limit entry) :
    (∀ id, (content id).kind = .commit → (id ∈ result.pack ↔ Within content wants limit id)) ↔
      TreesWithin content wants limit := by
  constructor
  · intro hexact commit body hwithin hcommit id hleads hkind
    obtain ⟨depth, hentry⟩ :=
      (visited_iff_within hlimit hgraph hright (by rw [hcommit]; rfl)).2 hwithin
    exact (hexact id hkind).1 (mem_pack_of_leadsTo hlimit hgraph hfetch hentry hcommit hleads)
  · intro htrees id hkind
    rw [mem_pack_iff content store hfetch]
    constructor
    · rintro (hpacked | hreach)
      · obtain ⟨⟨depth, hmem⟩, -⟩ := (mem_packedOf_iff content).1 hpacked
        exact (visited_iff_within hlimit hgraph hright hkind).1 ⟨depth, List.mem_reverse.1 hmem⟩
      · exact within_of_reaches hlimit hgraph hfetch htrees hright hreach hkind
    · intro hwithin
      obtain ⟨depth, hentry⟩ := (visited_iff_within hlimit hgraph hright hkind).2 hwithin
      exact Or.inl (mem_packedOf_visited hlimit hgraph hentry)

end Result

end Clone

variable (content store wants limit) in
/-- A clone of bounded depth succeeds, and holds the right commits with the right boundary exactly
when the first routes to the commits that are to be followed are short, and no tree of the clone
names a commit outside of it. -/
theorem depth_exact_iff (hlimit : 1 ≤ limit) (hgraph : CloneGraph content store wants) :
    ∃ result, buildShallowPack content store wants [] ⟨[], .depth limit⟩ = .ok result ∧
      (DepthExact content wants limit result ↔
        FirstRoutesShort content wants limit ∧ TreesWithin content wants limit) := by
  obtain ⟨result, covered, hresult, hfetch⟩ := exists_clone hlimit hgraph
  refine ⟨result, hresult, ?_⟩
  constructor
  · rintro ⟨hpacked, hshallow⟩
    have hright := (newShallow_iff_depthRight hlimit hgraph hfetch).1 hshallow
    exact ⟨(depthRight_iff_short hlimit hgraph).1 hright,
      (packed_iff_treesWithin hlimit hgraph hfetch hright).1 hpacked⟩
  · rintro ⟨hshort, htrees⟩
    have hright := (depthRight_iff_short hlimit hgraph).2 hshort
    exact ⟨(packed_iff_treesWithin hlimit hgraph hfetch hright).2 htrees,
      (newShallow_iff_depthRight hlimit hgraph hfetch).2 hright⟩

/-! ## Clones without tags -/

/-- Where no tag is wanted, a route goes over one parent less than it has places. -/
theorem length_of_route (hgraph : CloneGraph content store wants)
    (hcommits : ∀ want ∈ wants, (content want).kind = .commit) {r : List Nat} {id : ObjectId}
    {k : Nat} (h : RouteTo content wants limit r id k) :
    r.length = k + 1 ∧ (content id).kind = .commit := by
  induction h with
  | want hwant => exact ⟨rfl, hcommits _ (List.mem_of_getElem? hwant)⟩
  | tag _ htag ih => simp [htag, Object.kind] at ih
  | parent hroute _ hparent ih =>
    refine ⟨by simp [ih.1], ?_⟩
    exact hgraph.parents _ (hroute.placed hgraph).1 _ (List.mem_of_getElem? hparent)

/-- Where no tag is wanted, all first routes are short. -/
theorem firstRoutesShort_of_commits (hgraph : CloneGraph content store wants)
    (hcommits : ∀ want ∈ wants, (content want).kind = .commit) :
    FirstRoutesShort content wants limit := by
  rintro r id k hfirst - ⟨m, hm, hdistance⟩
  have hlow : m < limit := by omega
  obtain ⟨s, hs⟩ := exists_route hdistance hlow
  have hr := (length_of_route hgraph hcommits hfirst.1).1
  have hslength := (length_of_route hgraph hcommits hs).1
  rcases hfirst.2 s m hs with rfl | hearlier
  · omega
  · rcases List.shortlex_def.1 hearlier with hlt | ⟨heq, -⟩ <;> omega

end DepthExact

/-! ## A wanted tag behind a wanted branch -/

/-- The commit 2 on top of 1 on top of 3, with the empty tree 10, and the tag 20 of the commit 1. -/
def taggedCommits : ObjectId → Object := fun id =>
  if id = 1 then plainCommit 10 [3]
  else if id = 2 then plainCommit 10 [1]
  else if id = 3 then plainCommit 10 []
  else if id = 10 then .tree (some [])
  else if id = 20 then .tag (some ⟨1, "v1", ""⟩)
  else .blob []

def taggedStore : Store := [1, 2, 3, 10, 20]

theorem readable_tagged {id : ObjectId} (h : id ∈ taggedStore) :
    ClosureReadable taggedCommits taggedStore id := by
  refine .of_closed taggedCommits taggedStore (List.Subset.refl _) ?_ h
  intro id hid
  fin_cases hid <;> exact ⟨_, rfl, by decide⟩

theorem cloneGraph_tagged {wants : List ObjectId} (hwants : ∀ want ∈ wants, want = 2 ∨ want = 20) :
    CloneGraph taggedCommits taggedStore wants where
  readable := by
    intro want hwant
    apply readable_tagged
    rcases hwants want hwant with rfl | rfl <;> decide
  peels := by
    intro want hwant
    rcases hwants want hwant with rfl | rfl
    · exact ⟨2, .commit rfl⟩
    · exact ⟨1, .tag rfl (.commit rfl)⟩
  parents := by
    intro id _ parent hparent
    unfold parentsOf taggedCommits at hparent
    split at hparent
    · rename_i commit hcommit
      split at hcommit
      · cases hcommit
        obtain rfl := List.mem_singleton.1 hparent
        decide
      · split at hcommit
        · cases hcommit
          obtain rfl := List.mem_singleton.1 hparent
          decide
        · split at hcommit
          · cases hcommit
            simp at hparent
          · split at hcommit
            · cases hcommit
            · split at hcommit <;> cases hcommit
    · simp at hparent

/-- A clone of depth 2 of the branch at the commit 2 and of the tag has 1 as its shallow commit, and
lacks the commit 3, which is the parent of the tagged one. -/
theorem clone_cut_behind_tag :
    ∃ result, buildShallowPack taggedCommits taggedStore [2, 20] [] ⟨[], .depth 2⟩ = .ok result ∧
      result.newShallow = [1] ∧ 3 ∉ result.pack ∧
      ¬ DepthExact taggedCommits [2, 20] 2 result := by
  refine ⟨⟨[2, 20, 1, 10], [1], []⟩, by decide +kernel, rfl, by decide, ?_⟩
  intro hexact
  have hpeels : Peels taggedCommits 20 1 := .tag rfl (.commit rfl)
  have hnear : Within taggedCommits [2, 20] 1 1 := ⟨0, by decide, .want (by simp) hpeels⟩
  exact ((hexact.newShallow 1).1 (by simp)).2.1 hnear

/-- A clone of depth 2 of the branch alone is right. -/
theorem depth_exact_branch :
    ∃ result, buildShallowPack taggedCommits taggedStore [2] [] ⟨[], .depth 2⟩ = .ok result ∧
      DepthExact taggedCommits [2] 2 result := by
  have hgraph : CloneGraph taggedCommits taggedStore [2] := cloneGraph_tagged (by simp)
  obtain ⟨result, hresult, hiff⟩ :=
    depth_exact_iff taggedCommits taggedStore [2] 2 (by decide) hgraph
  refine ⟨result, hresult, hiff.2 ⟨firstRoutesShort_of_commits hgraph ?_, ?_⟩⟩
  · intro want hwant
    obtain rfl := List.mem_singleton.1 hwant
    rfl
  · -- the one tree of the clone is empty
    intro commit body _ hbody id hleads hkind
    have htree : body.tree = 10 := by
      unfold taggedCommits plainCommit at hbody
      split at hbody
      · cases hbody
        rfl
      · split at hbody
        · cases hbody
          rfl
        · split at hbody
          · cases hbody
            rfl
          · split at hbody
            · cases hbody
            · split at hbody <;> cases hbody
    rw [htree] at hleads
    have hself : id = 10 := by
      rcases Relation.ReflTransGen.cases_head hleads with h | ⟨next, ⟨-, ids, hids, hnext⟩, -⟩
      · exact h.symm
      · obtain rfl : [] = ids := Except.ok.inj (hids.symm.trans rfl).symm
        simp at hnext
    subst hself
    exact absurd hkind (by decide)

end Edda.Git
