import Edda.Git.Search
import Edda.Git.Transfer

/-!
# Repositories with submodules

A tree entry of mode `commit` links a commit of another repository, which is not stored. In git
such an entry is a leaf, and a repository is complete when everything that is reached without
following these links is stored.

None of the walks of the server looks at the mode of an entry before it follows it. So a complete
repository is served throughout exactly when it has no submodule, up to the bounds on the number
of objects (`submodulesAreLeaves_iff`).
-/

set_option autoImplicit false

namespace Edda.Git

open Edda.Support Edda.Support.Worklist Edda.Support.RustText

section Graph

variable (content : ObjectId → Object)

/-- What an object refers to in its own repository. -/
def plainReferences : Object → List ObjectId
  | .commit (some commit) => commit.tree :: commit.parents
  | .tree (some entries) =>
    (entries.filter fun entry => entry.mode ≠ .commit).map fun entry => entry.oid
  | .tag (some tag) => [tag.target]
  | _ => []

def PlainRefers (a b : ObjectId) : Prop := b ∈ plainReferences (content a)

/-- The tips reach `id` without following a submodule link. -/
def InGraph (tips : List ObjectId) (id : ObjectId) : Prop :=
  ∃ tip ∈ tips, Relation.ReflTransGen (PlainRefers content) tip id

/-- A graph that is complete in the sense of git: its objects are stored, decode, and refer to
objects of the right kind, and what its submodule links name is not stored. -/
structure CompleteGraph (store : Store) (tips : List ObjectId) : Prop where
  stored : ∀ {id}, InGraph content tips id → id ∈ store
  decodes : ∀ {id}, InGraph content tips id → ∃ ids, references (content id) = .ok ids
  committer : ∀ {id commit}, InGraph content tips id → content id = .commit (some commit) →
    commit.committer ≠ none
  tree : ∀ {id commit}, InGraph content tips id → content id = .commit (some commit) →
    (content commit.tree).kind = .tree
  parents : ∀ {id commit}, InGraph content tips id → content id = .commit (some commit) →
    ∀ parent ∈ commit.parents, (content parent).kind = .commit
  subtree : ∀ {id entries}, InGraph content tips id → content id = .tree (some entries) →
    ∀ entry ∈ entries, entry.mode = .tree → (content entry.oid).kind = .tree
  submodule : ∀ {id entries}, InGraph content tips id → content id = .tree (some entries) →
    ∀ entry ∈ entries, entry.mode = .commit → entry.oid ∉ store
  acyclic : ∀ id, ¬ Relation.TransGen (PlainRefers content) id id

/-- No tree of the graph links a submodule. -/
def NoSubmodule (tips : List ObjectId) : Prop :=
  ∀ id entries, InGraph content tips id → content id = .tree (some entries) →
    ∀ entry ∈ entries, entry.mode ≠ .commit

theorem inGraph_of_mem {tips : List ObjectId} {tip : ObjectId} (h : tip ∈ tips) :
    InGraph content tips tip :=
  ⟨tip, h, Relation.ReflTransGen.refl⟩

theorem InGraph.tail {tips : List ObjectId} {a b : ObjectId} (ha : InGraph content tips a)
    (hab : PlainRefers content a b) : InGraph content tips b := by
  obtain ⟨tip, htip, hreach⟩ := ha
  exact ⟨tip, htip, hreach.tail hab⟩

theorem InGraph.trans {tips : List ObjectId} {a b : ObjectId} (ha : InGraph content tips a)
    (hab : Relation.ReflTransGen (PlainRefers content) a b) : InGraph content tips b := by
  obtain ⟨tip, htip, hreach⟩ := ha
  exact ⟨tip, htip, hreach.trans hab⟩

/-- Only a tree can have references that are not plain. -/
theorem references_cases {object : Object} {ids : List ObjectId}
    (h : references object = .ok ids) :
    ids = plainReferences object ∨
      ∃ entries, object = .tree (some entries) ∧ ids = entries.map fun entry => entry.oid := by
  cases object with
  | commit body =>
    cases body with
    | none => simp [references] at h
    | some commit => exact Or.inl (Except.ok.inj h).symm
  | tree body =>
    cases body with
    | none => simp [references] at h
    | some entries => exact Or.inr ⟨entries, rfl, (Except.ok.inj h).symm⟩
  | blob data => exact Or.inl (Except.ok.inj h).symm
  | tag body =>
    cases body with
    | none => simp [references] at h
    | some tag => exact Or.inl (Except.ok.inj h).symm

/-- A plain reference is a reference. -/
theorem refers_of_plainRefers {a b : ObjectId} {ids : List ObjectId}
    (href : references (content a) = .ok ids) (h : PlainRefers content a b) : b ∈ ids := by
  rcases references_cases href with rfl | ⟨entries, hcontent, rfl⟩
  · exact h
  · simp only [PlainRefers, hcontent, plainReferences, List.mem_map, List.mem_filter] at h
    obtain ⟨entry, ⟨hentry, -⟩, rfl⟩ := h
    exact List.mem_map_of_mem hentry

/-- Where no submodule is linked, every reference is plain. -/
theorem plainRefers_of_refers {tips : List ObjectId} (hplain : NoSubmodule content tips)
    {a b : ObjectId} (ha : InGraph content tips a) {ids : List ObjectId}
    (href : references (content a) = .ok ids) (hb : b ∈ ids) : PlainRefers content a b := by
  rcases references_cases href with rfl | ⟨entries, hcontent, rfl⟩
  · exact hb
  · obtain ⟨entry, hentry, rfl⟩ := List.mem_map.1 hb
    have hmode := hplain a entries ha hcontent entry hentry
    simp only [PlainRefers, hcontent, plainReferences]
    exact List.mem_map_of_mem (List.mem_filter.2 ⟨hentry, by simpa using hmode⟩)

/-- An entry of a tree that is no submodule link is in the graph of the tree. -/
theorem InGraph.entry {tips : List ObjectId} (hplain : NoSubmodule content tips) {id : ObjectId}
    {entries : List TreeEntry} (hid : InGraph content tips id)
    (hcontent : content id = .tree (some entries)) {entry : TreeEntry} (hentry : entry ∈ entries) :
    InGraph content tips entry.oid := by
  have href : references (content id) = .ok (entries.map fun entry => entry.oid) := by
    rw [hcontent]
    rfl
  exact hid.tail content (plainRefers_of_refers content hplain hid href (List.mem_map_of_mem hentry))

/-- Ancestors of a commit of the graph are in the graph. -/
theorem InGraph.ancestor {tips : List ObjectId} {a b : ObjectId} (ha : InGraph content tips a)
    (hb : Ancestor content b a) : InGraph content tips b := by
  induction hb with
  | refl => exact ha
  | @tail c d _ hcd ih =>
    apply ih.tail
    simp only [parentsOf] at hcd
    split at hcd
    · rename_i commit hcommit
      simp only [PlainRefers, hcommit, plainReferences]
      exact List.mem_cons_of_mem _ hcd
    · simp at hcd

/-- Ancestors of a commit of the graph are commits. -/
theorem kind_of_ancestor {store : Store} {tips : List ObjectId}
    (hgraph : CompleteGraph content store tips) {a b : ObjectId} (ha : InGraph content tips a)
    (hkind : (content a).kind = .commit) (hb : Ancestor content b a) :
    (content b).kind = .commit := by
  induction hb with
  | refl => exact hkind
  | @tail c d hac hcd _ =>
    have hc : InGraph content tips c := ha.ancestor content hac
    simp only [parentsOf] at hcd
    split at hcd
    · rename_i commit hcommit
      exact hgraph.parents hc hcommit d hcd
    · simp at hcd

/-- A commit of the graph decodes. -/
theorem CompleteGraph.exists_commit {store : Store} {tips : List ObjectId}
    (hgraph : CompleteGraph content store tips) {id : ObjectId} (hid : InGraph content tips id)
    (hkind : (content id).kind = .commit) : ∃ commit, content id = .commit (some commit) := by
  obtain ⟨ids, hids⟩ := hgraph.decodes hid
  cases hcontent : content id with
  | commit body =>
    cases body with
    | none => simp [hcontent, references] at hids
    | some commit => exact ⟨commit, rfl⟩
  | tree body => simp [hcontent, Object.kind] at hkind
  | blob data => simp [hcontent, Object.kind] at hkind
  | tag body => simp [hcontent, Object.kind] at hkind

/-- A tree of the graph decodes. -/
theorem CompleteGraph.exists_tree {store : Store} {tips : List ObjectId}
    (hgraph : CompleteGraph content store tips) {id : ObjectId} (hid : InGraph content tips id)
    (hkind : (content id).kind = .tree) : ∃ entries, content id = .tree (some entries) := by
  obtain ⟨ids, hids⟩ := hgraph.decodes hid
  cases hcontent : content id with
  | tree body =>
    cases body with
    | none => simp [hcontent, references] at hids
    | some entries => exact ⟨entries, rfl⟩
  | commit body => simp [hcontent, Object.kind] at hkind
  | blob data => simp [hcontent, Object.kind] at hkind
  | tag body => simp [hcontent, Object.kind] at hkind

/-- Without submodules the tips reach the objects of the graph only. -/
theorem inGraph_of_reachableFrom {tips : List ObjectId} (hplain : NoSubmodule content tips)
    {id : ObjectId} (h : ReachableFrom content tips id) : InGraph content tips id := by
  obtain ⟨tip, htip, hreach⟩ := h
  induction hreach with
  | refl => exact inGraph_of_mem content htip
  | tail _ hbc ih =>
    obtain ⟨ids, href, hmem⟩ := hbc
    exact ih.tail content (plainRefers_of_refers content hplain ih href hmem)

/-- The objects of a graph that decodes are reached. -/
theorem reachableFrom_of_inGraph {tips : List ObjectId}
    (hdecodes : ∀ {id}, InGraph content tips id → ∃ ids, references (content id) = .ok ids)
    {id : ObjectId} (h : InGraph content tips id) : ReachableFrom content tips id := by
  obtain ⟨tip, htip, hreach⟩ := h
  refine ⟨tip, htip, ?_⟩
  induction hreach with
  | refl => exact Reachable.refl content tip
  | tail hab hbc ih =>
    obtain ⟨ids, href⟩ := hdecodes ((inGraph_of_mem content htip).trans content hab)
    exact ih.tail ⟨ids, href, refers_of_plainRefers content href hbc⟩

end Graph

/-! ## The operations that read a repository -/

section Operations

variable (gix : Gix) (diff : GixDiff) (toLowercase : List Char → List Char) (state : Repo)
  (tips : List ObjectId) (destRef : String)

/-- What the library documents of the functions that the diffs call. A comparison reads the trees
and files below its roots, and reports entries of these trees; a merge base is an ancestor of both
commits. -/
structure DiffDocumented : Prop where
  compares : ∀ store old new,
    (∀ root ∈ old.toList ++ [new], (gix.content root).kind = .tree) →
    (∀ id, InGraph gix.content (old.toList ++ [new]) id →
      id ∈ store ∧ ∃ ids, references (gix.content id) = .ok ids) →
    ∃ changes, diff.diffTreeToTree store old new = .ok changes
  sides : ∀ store old new changes, diff.diffTreeToTree store old new = .ok changes →
    ∀ change ∈ changes, ∀ side ∈ change.sides, ∃ tree entries,
      InGraph gix.content (old.toList ++ [new]) tree ∧
        gix.content tree = .tree (some entries) ∧
        ∃ entry ∈ entries, entry.mode = side.1 ∧ entry.oid = side.2
  mergeBase : ∀ store a b base, diff.mergeBase store a b = some base →
    Ancestor gix.content base a ∧ Ancestor gix.content base b

/-- The graph of the tips can be pushed, fetched with any haves, imported into any repository and
browsed. A push may bring any part of it; the haves are objects of the graph or objects that the
repository does not store. -/
structure SubmodulesAreLeaves : Prop where
  fsck : ∀ (quarantine : Quarantine) (disk : Disk),
    (∀ id, id ∈ quarantine.objects gix ∨ id ∈ disk.objects gix ↔ id ∈ state.objects gix) →
    quarantine.fsck gix none disk tips = .ok ()
  pack : ∀ haves, (∀ id ∈ haves, InGraph gix.content tips id ∨ id ∉ state.objects gix) →
    ∃ pack, buildPackExcluding gix.content (state.objects gix) tips haves = .ok pack
  shallowPack : ∀ haves spec,
    (∀ id ∈ haves, InGraph gix.content tips id ∨ id ∉ state.objects gix) →
    ∃ result, buildShallowPack gix.content (state.objects gix) tips haves spec = .ok result
  importTip : ∀ branch commit, resolveCommitId gix state ("refs/heads/" ++ branch) = .ok commit →
    InGraph gix.content tips commit →
    ∀ dst, (importBranchTip gix none state dst branch destRef).2 = .ok commit.toHex
  commitDiff : ∀ commit, InGraph gix.content tips commit →
    (gix.content commit).kind = .commit →
    ∃ diffs, commitDiff gix diff state commit.toHex = .ok diffs
  diffRefs : ∀ baseRef headRef base head, resolveCommitId gix state baseRef = .ok base →
    resolveCommitId gix state headRef = .ok head → InGraph gix.content tips base →
    InGraph gix.content tips head → ∃ diffs, diffRefs gix diff state baseRef headRef = .ok diffs
  search : ∀ branch commit, openAndResolve gix state branch = .ok commit →
    InGraph gix.content tips commit →
    ∀ query, ∃ found, searchTree gix diff toLowercase state branch query = .ok found

/-- What the server needs of a complete graph: no submodule, and no more objects than the bounds of
the connectivity check and of an import. -/
structure ServedGraph : Prop where
  noSubmodule : NoSubmodule gix.content tips
  pushed : AtMost maxFsckObjects (InGraph gix.content tips)
  imported : ∀ branch commit,
    resolveCommitId gix state ("refs/heads/" ++ branch) = .ok commit →
    InGraph gix.content tips commit → AtMost maxImportedObjects (InGraph gix.content [commit])

section Served

variable {gix tips state}

/-- The commits that a bounded fetch visits are in the graph. -/
theorem inGraph_of_commitWalk {store : Store} {deepen : Deepen} {seen : ObjectId → Bool}
    {entry : ObjectId × Nat}
    (h : Reaches (commitWalk gix.content store deepen seen) (wantEntries tips) entry) :
    InGraph gix.content tips entry.1 := by
  apply commitWalk_closed gix.content store (fun tip htip => inGraph_of_mem gix.content htip) _ _ h
  · intro a b ha hb
    exact ha.ancestor gix.content (.single hb)
  · intro a tag ha htag
    apply ha.tail
    simp [PlainRefers, htag, plainReferences]

/-- The files that a bounded fetch packs are in the graph. -/
theorem inGraph_of_fileStarts (store : Store) (deepen : Deepen) (seen : ObjectId → Bool) :
    ∀ id ∈ fileStarts gix.content (commitRun gix.content store deepen seen tips).order,
      InGraph gix.content tips id := by
  apply fileStarts_closed
  · intro entry hentry
    exact inGraph_of_commitWalk ((run_sound (commitWalk gix.content store deepen seen)
      (wantEntries tips) _).reached entry (List.mem_reverse.1 hentry))
  · intro a commit ha hcommit
    apply ha.tail
    simp [PlainRefers, hcommit, plainReferences]

section Walks

variable (hgraph : CompleteGraph gix.content (state.objects gix) tips)
  (hplain : NoSubmodule gix.content tips)

include hgraph hplain

theorem haveRun_of_graph {haves : List ObjectId}
    (hhaves : ∀ id ∈ haves, InGraph gix.content tips id ∨ id ∉ state.objects gix) :
    (haveRun gix.content (state.objects gix) haves).failure = none := by
  apply failure_eq_none_of_expands (haveWalk gix.content (state.objects gix))
  · intro id hid
    -- the walk stays in the graph, or ends at once at a have that is not stored
    have hcase : InGraph gix.content tips id ∨ id ∉ state.objects gix := by
      apply hid.induct
      · exact hhaves
      · intro a children ha hchildren b hb
        change haveChildren gix.content (state.objects gix) a = .ok children at hchildren
        simp only [haveChildren] at hchildren
        by_cases hstored : a ∈ state.objects gix
        · have hin := ha.resolve_right fun h => h hstored
          rw [findObject_of_mem gix.content hstored] at hchildren
          exact Or.inl (hin.tail gix.content
            (plainRefers_of_refers gix.content hplain hin hchildren hb))
        · rw [findObject_of_not_mem gix.content hstored] at hchildren
          obtain rfl := Except.ok.inj hchildren
          simp at hb
    change ∃ children, haveChildren gix.content (state.objects gix) id = .ok children
    simp only [haveChildren]
    rcases hcase with hin | hout
    · rw [findObject_of_mem gix.content (hgraph.stored hin)]
      exact hgraph.decodes hin
    · rw [findObject_of_not_mem gix.content hout]
      exact ⟨[], rfl⟩
  · exact fun _ => rfl
  · exact fun _ => rfl

theorem objectRun_of_graph (seen : ObjectId → Bool) {start : List ObjectId}
    (hstart : ∀ id ∈ start, InGraph gix.content tips id) :
    (objectRun gix.content (state.objects gix) seen start).failure = none := by
  apply failure_eq_none_of_expands (objectWalk gix.content (state.objects gix) seen)
  · intro id hid
    have hin : InGraph gix.content tips id := by
      apply hid.induct
      · exact hstart
      · intro a children ha hchildren b hb
        have href := ((objectChildren_eq_ok gix.content _).1 hchildren).2
        exact ha.tail gix.content (plainRefers_of_refers gix.content hplain ha href hb)
    obtain ⟨ids, hids⟩ := hgraph.decodes hin
    exact ⟨ids, (objectChildren_eq_ok gix.content _).2 ⟨hgraph.stored hin, hids⟩⟩
  · exact fun _ => rfl
  · exact fun _ => rfl

omit hplain in
/-- Every parent of a commit of the graph can be followed or cut. -/
theorem exists_follows_of_graph (deepen : Deepen) (depth : Nat) {parent : ObjectId}
    (hin : InGraph gix.content tips parent) (hkind : (gix.content parent).kind = .commit) :
    ∃ follow, follows gix.content (state.objects gix) deepen depth parent = .ok follow := by
  cases deepen with
  | none => exact ⟨true, rfl⟩
  | depth limit => exact ⟨decide (depth < limit), rfl⟩
  | since seconds =>
    obtain ⟨commit, hcommit⟩ := hgraph.exists_commit gix.content hin hkind
    obtain ⟨signature, hsignature⟩ := Option.ne_none_iff_exists'.1 (hgraph.committer hin hcommit)
    have htime : commitCommitterTime gix.content (state.objects gix) parent =
        .ok (signature.seconds.getD 0) := by
      simp only [commitCommitterTime, findObject_of_mem gix.content (hgraph.stored hin), hcommit,
        hsignature]
    simp only [follows, htime]
    exact ⟨_, rfl⟩

omit hplain in
theorem commitRun_of_graph (deepen : Deepen) (seen : ObjectId → Bool) :
    (commitRun gix.content (state.objects gix) deepen seen tips).failure = none := by
  apply failure_eq_none_of_expands (commitWalk gix.content (state.objects gix) deepen seen)
  · intro entry hentry
    have hin := inGraph_of_commitWalk hentry
    change ∃ children, commitChildren gix.content (state.objects gix) deepen entry = .ok children
    obtain ⟨ids, hids⟩ := hgraph.decodes hin
    simp only [commitChildren, findObject_of_mem gix.content (hgraph.stored hin)]
    cases hcontent : gix.content entry.1 with
    | tree body => exact ⟨[], rfl⟩
    | blob data => exact ⟨[], rfl⟩
    | tag body =>
      cases body with
      | none => simp [hcontent, references] at hids
      | some tag => exact ⟨[(tag.target, entry.2)], rfl⟩
    | commit body =>
      cases body with
      | none => simp [hcontent, references] at hids
      | some commit =>
        have hparents : ∀ parent ∈ commit.parents,
            ∃ follow, follows gix.content (state.objects gix) deepen entry.2 parent =
              .ok follow := by
          intro parent hparent
          apply exists_follows_of_graph hgraph deepen entry.2
          · apply hin.tail
            simp [PlainRefers, hcontent, plainReferences, hparent]
          · exact hgraph.parents hin hcontent parent hparent
        obtain ⟨followed, hfollowed⟩ := exists_followedParents gix.content _ hparents
        exact ⟨followed.map fun parent => (parent, entry.2 + 1), by simp only [hfollowed]⟩
  · exact fun _ => rfl
  · exact fun _ => rfl

theorem exists_buildPackExcluding {haves : List ObjectId}
    (hhaves : ∀ id ∈ haves, InGraph gix.content tips id ∨ id ∉ state.objects gix) :
    ∃ pack, buildPackExcluding gix.content (state.objects gix) tips haves = .ok pack := by
  have hwalk := objectRun_of_graph hgraph hplain
    (fun id => decide (id ∈ (haveRun gix.content (state.objects gix) haves).visited))
    (fun tip htip => inGraph_of_mem gix.content htip)
  simp only [buildPackExcluding, haveRun_of_graph hgraph hplain hhaves, hwalk]
  exact ⟨_, rfl⟩

theorem exists_buildShallowPack {haves : List ObjectId} (spec : ShallowSpec)
    (hhaves : ∀ id ∈ haves, InGraph gix.content tips id ∨ id ∉ state.objects gix) :
    ∃ result, buildShallowPack gix.content (state.objects gix) tips haves spec = .ok result := by
  simp only [buildShallowPack]
  split
  · obtain ⟨pack, hpack⟩ := exists_buildPackExcluding hgraph hplain hhaves
    exact ⟨⟨pack, [], []⟩, by simp only [hpack]⟩
  · have hfiles := fun covered => objectRun_of_graph hgraph hplain covered
      (inGraph_of_fileStarts (state.objects gix) spec.deepen
        fun id => decide (id ∈ (haveRun gix.content (state.objects gix) haves).visited))
    simp only [haveRun_of_graph hgraph hplain hhaves, commitRun_of_graph hgraph, hfiles]
    exact ⟨_, rfl⟩

omit hgraph in
/-- An object that an import copies is in the graph of the tip. -/
theorem inGraph_of_copyWalk {dst : Store} {tip id : ObjectId} (htip : InGraph gix.content tips tip)
    (h : Reaches (copyWalk gix none (state.objects gix) dst) [tip] id) :
    InGraph gix.content [tip] id ∧ InGraph gix.content tips id := by
  apply h.induct
  · intro a ha
    obtain rfl := List.mem_singleton.1 ha
    exact ⟨inGraph_of_mem gix.content (by simp), htip⟩
  · rintro a children ⟨ha, ha'⟩ hchildren b hb
    have href := (copyObject_eq_ok gix none hchildren).2
    have hab := plainRefers_of_refers gix.content hplain ha' href hb
    exact ⟨ha.tail gix.content hab, ha'.tail gix.content hab⟩

theorem copyRun_of_graph {tip : ObjectId} (htip : InGraph gix.content tips tip)
    (hcount : AtMost maxImportedObjects (InGraph gix.content [tip])) (dst : Store) :
    (copyRun gix none (state.objects gix) dst tip).failure = none := by
  apply failure_eq_none (copyWalk gix none (state.objects gix) dst) rfl
  · intro id hid
    have hin := (inGraph_of_copyWalk hplain htip hid).2
    obtain ⟨ids, hids⟩ := hgraph.decodes hin
    have hread := (objectChildren_eq_ok gix.content (state.objects gix)).2 ⟨hgraph.stored hin, hids⟩
    exact ⟨ids, by simp [copyWalk, copyObject, hread]⟩
  · intro ids hnodup hids
    apply hcount ids hnodup
    intro id hid
    exact (inGraph_of_copyWalk hplain htip (hids id hid)).1
  · exact fun _ _ => rfl
  · intro k hk
    have hroom : ¬ maxImportedObjects < k := by omega
    exact if_neg hroom

theorem importBranchTip_of_graph {branch destRef : String} {tip : ObjectId}
    (hdest : gix.validateRefName destRef = none)
    (hresolve : resolveCommitId gix state ("refs/heads/" ++ branch) = .ok tip)
    (htip : InGraph gix.content tips tip)
    (hcount : AtMost maxImportedObjects (InGraph gix.content [tip])) (dst : Repo) :
    (importBranchTip gix none state dst branch destRef).2 = .ok tip.toHex := by
  have hcopy := copyRun_of_graph hgraph hplain htip hcount (dst.disk.objects gix)
  simp only [importBranchTip, hresolve, copyClosure, hcopy, ImportFault.refFault,
    forceSetRef_eq_ok gix hdest]

omit hplain in
/-- The tree of a commit of the graph is read. -/
theorem treeOfCommit_of_graph {id : ObjectId} (hid : InGraph gix.content tips id)
    (hkind : (gix.content id).kind = .commit) :
    ∃ tree, treeOfCommit gix (state.objects gix) id = .ok tree ∧
      InGraph gix.content tips tree ∧ (gix.content tree).kind = .tree := by
  obtain ⟨commit, hcommit⟩ := hgraph.exists_commit gix.content hid hkind
  have hin : InGraph gix.content tips commit.tree := by
    apply hid.tail
    simp [PlainRefers, hcommit, plainReferences]
  have htree := hgraph.tree hid hcommit
  obtain ⟨entries, hentries⟩ := hgraph.exists_tree gix.content hin htree
  refine ⟨commit.tree, ?_, hin, htree⟩
  simp only [treeOfCommit, findCommit, findObject_of_mem gix.content (hgraph.stored hid), hcommit,
    findTree, findObject_of_mem gix.content (hgraph.stored hin), hentries]

/-- The diff between two trees of the graph is shown. -/
theorem exists_fileDiffsBetween (hdiff : DiffDocumented gix diff) {old : Option ObjectId}
    {new : ObjectId} (hroots : ∀ root ∈ old.toList ++ [new],
      InGraph gix.content tips root ∧ (gix.content root).kind = .tree) :
    ∃ diffs, fileDiffsBetween gix diff (state.objects gix) old new = .ok diffs := by
  have hbelow : ∀ id, InGraph gix.content (old.toList ++ [new]) id → InGraph gix.content tips id := by
    rintro id ⟨root, hroot, hreach⟩
    exact (hroots root hroot).1.trans gix.content hreach
  obtain ⟨changes, hchanges⟩ := hdiff.compares (state.objects gix) old new
    (fun root hroot => (hroots root hroot).2)
    (fun id hid => ⟨hgraph.stored (hbelow id hid), hgraph.decodes (hbelow id hid)⟩)
  simp only [fileDiffsBetween, hchanges]
  apply exists_fileDiffs
  intro change hchange side hside
  obtain ⟨tree, entries, htree, hcontent, entry, hentry, -, hoid⟩ :=
    hdiff.sides _ old new changes hchanges change hchange side hside
  -- without submodules the entry of either side is an object of the graph
  rw [← hoid]
  exact hgraph.stored ((hbelow tree htree).entry gix.content hplain hcontent hentry)

theorem commitDiff_of_graph (hdiff : DiffDocumented gix diff) {id : ObjectId}
    (hid : InGraph gix.content tips id) (hkind : (gix.content id).kind = .commit) :
    ∃ diffs, commitDiff gix diff state id.toHex = .ok diffs := by
  obtain ⟨commit, hcommit⟩ := hgraph.exists_commit gix.content hid hkind
  have hfind : findCommit gix (state.objects gix) id = .ok commit := by
    simp only [findCommit, findObject_of_mem gix.content (hgraph.stored hid), hcommit]
  obtain ⟨newTree, hnew, hnewIn, hnewKind⟩ := treeOfCommit_of_graph hgraph hid hkind
  simp only [commitDiff, ObjectId.fromHex_toHex, hfind, hnew]
  cases hparents : commit.parents with
  | nil =>
    simp only [parentTree]
    apply exists_fileDiffsBetween diff hgraph hplain hdiff
    intro root hroot
    obtain rfl : root = newTree := by simpa using hroot
    exact ⟨hnewIn, hnewKind⟩
  | cons parent rest =>
    have hparent : parent ∈ commit.parents := by simp [hparents]
    have hparentIn : InGraph gix.content tips parent := by
      apply hid.tail
      simp [PlainRefers, hcommit, plainReferences, hparent]
    obtain ⟨oldTree, hold, holdIn, holdKind⟩ :=
      treeOfCommit_of_graph hgraph hparentIn (hgraph.parents hid hcommit parent hparent)
    simp only [parentTree, hold]
    apply exists_fileDiffsBetween diff hgraph hplain hdiff
    intro root hroot
    rcases (by simpa using hroot : root = oldTree ∨ root = newTree) with rfl | rfl
    · exact ⟨holdIn, holdKind⟩
    · exact ⟨hnewIn, hnewKind⟩

theorem diffRefs_of_graph (hdiff : DiffDocumented gix diff) {baseRef headRef : String}
    {base head : ObjectId} (hbase : resolveCommitId gix state baseRef = .ok base)
    (hhead : resolveCommitId gix state headRef = .ok head)
    (hbaseIn : InGraph gix.content tips base) (hheadIn : InGraph gix.content tips head) :
    ∃ diffs, diffRefs gix diff state baseRef headRef = .ok diffs := by
  have hbaseKind := (resolveCommitId_eq_ok gix hbase).2
  have hheadKind := (resolveCommitId_eq_ok gix hhead).2
  -- the diff starts at the merge base, or at the base where there is none
  have hstart : InGraph gix.content tips
        ((diff.mergeBase (state.objects gix) base head).getD base) ∧
      (gix.content ((diff.mergeBase (state.objects gix) base head).getD base)).kind = .commit := by
    cases hmerge : diff.mergeBase (state.objects gix) base head with
    | none => exact ⟨hbaseIn, hbaseKind⟩
    | some start =>
      have hancestor := (hdiff.mergeBase _ _ _ _ hmerge).1
      exact ⟨hbaseIn.ancestor gix.content hancestor,
        kind_of_ancestor gix.content hgraph hbaseIn hbaseKind hancestor⟩
  obtain ⟨fromTree, hfrom, hfromIn, hfromKind⟩ := treeOfCommit_of_graph hgraph hstart.1 hstart.2
  obtain ⟨headTree, hheadTree, hheadTreeIn, hheadTreeKind⟩ :=
    treeOfCommit_of_graph hgraph hheadIn hheadKind
  simp only [diffRefs, hbase, hhead, hfrom, hheadTree]
  apply exists_fileDiffsBetween diff hgraph hplain hdiff
  intro root hroot
  rcases (by simpa using hroot : root = fromTree ∨ root = headTree) with rfl | rfl
  · exact ⟨hfromIn, hfromKind⟩
  · exact ⟨hheadTreeIn, hheadTreeKind⟩

/-- A tree of the graph is searched with as many levels as the store has objects beside the trees
above it. -/
theorem searchWalk_of_graph (query : List Char) :
    ∀ (depth : Nat) (above : List ObjectId) (tree : ObjectId),
      (tree :: above).Nodup → (∀ id ∈ tree :: above, id ∈ state.objects gix) →
      (∀ id ∈ above, Relation.TransGen (PlainRefers gix.content) id tree) →
      (state.objects gix).length < depth + above.length →
      InGraph gix.content tips tree → (gix.content tree).kind = .tree →
      ∀ dir found, ∃ result,
        searchWalk gix diff toLowercase (state.objects gix) query depth tree dir found = .ok result
  | 0, above, tree, hnodup, hstored, _, hdepth, _, _ => by
    -- the trees above are distinct objects of the store
    have hlength := (List.subperm_of_subset hnodup hstored).length_le
    simp only [List.length_cons] at hlength
    omega
  | depth + 1, above, tree, hnodup, hstored, habove, hdepth, hin, hkind => by
    intro dir found
    obtain ⟨entries, hentries⟩ := hgraph.exists_tree gix.content hin hkind
    have hfind : findTree gix (state.objects gix) tree = .ok entries := by
      simp only [findTree, findObject_of_mem gix.content (hgraph.stored hin), hentries]
    simp only [searchWalk, hfind]
    have hentryIn : ∀ entry ∈ entries, InGraph gix.content tips entry.oid :=
      fun entry hentry => hin.entry gix.content hplain hentries hentry
    apply exists_searchEntries
    · exact fun entry hentry => hgraph.stored (hentryIn entry hentry)
    · intro entry hentry hmode
      have href : references (gix.content tree) = .ok (entries.map fun entry => entry.oid) := by
        rw [hentries]
        rfl
      have hstep : PlainRefers gix.content tree entry.oid :=
        plainRefers_of_refers gix.content hplain hin href (List.mem_map_of_mem hentry)
      have hbelow : ∀ id ∈ tree :: above,
          Relation.TransGen (PlainRefers gix.content) id entry.oid := by
        intro id hid
        rcases List.mem_cons.1 hid with rfl | hid
        · exact .single hstep
        · exact (habove id hid).tail hstep
      apply searchWalk_of_graph query depth (tree :: above) entry.oid
      · refine List.nodup_cons.2 ⟨fun hmem => ?_, hnodup⟩
        exact hgraph.acyclic _ (hbelow _ hmem)
      · intro id hid
        rcases List.mem_cons.1 hid with rfl | hid
        · exact hgraph.stored (hentryIn entry hentry)
        · exact hstored id hid
      · exact hbelow
      · simp only [List.length_cons]
        omega
      · exact hentryIn entry hentry
      · exact hgraph.subtree hin hentries entry hentry hmode

theorem searchTree_of_graph {branch : Option String} {commit : ObjectId}
    (hresolve : openAndResolve gix state branch = .ok commit)
    (hcommit : InGraph gix.content tips commit) (query : String) :
    ∃ found, searchTree gix diff toLowercase state branch query = .ok found := by
  have hkind := (openAndResolve_eq_ok gix hresolve).2
  obtain ⟨tree, htree, hin, htreeKind⟩ := treeOfCommit_of_graph hgraph hcommit hkind
  simp only [searchTree, hresolve, htree]
  apply searchWalk_of_graph diff toLowercase hgraph hplain _ _ []
  · simp
  · intro id hid
    obtain rfl := List.mem_singleton.1 hid
    exact hgraph.stored hin
  · simp
  · simp
  · exact hin
  · exact htreeKind

end Walks

/-- A complete graph without submodules is served. -/
theorem submodulesAreLeaves_of_served (hgraph : CompleteGraph gix.content (state.objects gix) tips)
    (hdiff : DiffDocumented gix diff) (hdest : gix.validateRefName destRef = none)
    (h : ServedGraph gix state tips) :
    SubmodulesAreLeaves gix diff toLowercase state tips destRef where
  fsck := by
    intro quarantine disk hobjects
    apply (fsck_eq_ok_iff gix).2
    constructor
    · intro id hid
      have hin := inGraph_of_reachableFrom gix.content h.noSubmodule hid
      exact ⟨(hobjects id).2 (hgraph.stored hin), hgraph.decodes hin⟩
    · intro ids hnodup hids
      apply h.pushed ids hnodup
      exact fun id hid => inGraph_of_reachableFrom gix.content h.noSubmodule (hids id hid)
  pack := fun _ hhaves => exists_buildPackExcluding hgraph h.noSubmodule hhaves
  shallowPack := fun _ spec hhaves => exists_buildShallowPack hgraph h.noSubmodule spec hhaves
  importTip := fun branch commit hresolve hcommit dst =>
    importBranchTip_of_graph hgraph h.noSubmodule hdest hresolve hcommit
      (h.imported branch commit hresolve hcommit) dst
  commitDiff := fun _ hin hkind => commitDiff_of_graph diff hgraph h.noSubmodule hdiff hin hkind
  diffRefs := fun _ _ _ _ hbase hhead hbaseIn hheadIn =>
    diffRefs_of_graph diff hgraph h.noSubmodule hdiff hbase hhead hbaseIn hheadIn
  search := fun _ _ hresolve hcommit query =>
    searchTree_of_graph diff toLowercase hgraph h.noSubmodule hresolve hcommit query

/-- A walk over references that ended without failure reached the graph of its start, where it
skips none of it. -/
theorem reaches_of_inGraph {W : Walk ObjectId ObjectId GitError} (hkey : W.key = id)
    {start : List ObjectId} {n : Nat} (hdone : (run W n (State.init start)).failure = none)
    (hhalts : (run W n (State.init start)).Halted)
    (hexpand : ∀ {a children}, W.expand a = .ok children →
      references (gix.content a) = .ok children)
    (hskip : ∀ id, W.skip id = false) {id : ObjectId} (h : InGraph gix.content start id) :
    Reaches W start id := by
  obtain ⟨tip, htip, hreach⟩ := h
  induction hreach with
  | refl => exact .of_mem W htip (hskip _)
  | tail _ hbc ih =>
    obtain ⟨children, hchildren⟩ := exists_expand_of_reaches W hkey hdone hhalts ih
    have hmem := refers_of_plainRefers gix.content (hexpand hchildren) hbc
    exact ih.tail W ⟨children, hchildren, hmem, hskip _⟩

/-- An import into an empty repository that succeeds copied the graph of the tip. -/
theorem copied_of_importBranchTip {branch destRef : String} {tip : ObjectId} {hex : String}
    (hresolve : resolveCommitId gix state ("refs/heads/" ++ branch) = .ok tip)
    (h : (importBranchTip gix none state ⟨⟨[], [], []⟩, ∅⟩ branch destRef).2 = .ok hex) :
    (copyRun gix none (state.objects gix) [] tip).failure = none ∧
      ∀ id, InGraph gix.content [tip] id →
        Reaches (copyWalk gix none (state.objects gix) []) [tip] id := by
  have hdone : (copyRun gix none (state.objects gix) [] tip).failure = none := by
    simp only [importBranchTip, hresolve, copyClosure] at h
    change (copyRun gix none (state.objects gix) (Disk.objects gix ⟨[], [], []⟩) tip).failure = none
    split at h
    · exact absurd h (by simp)
    · rename_i hclosure
      revert hclosure
      cases (copyRun gix none (state.objects gix) (Disk.objects gix ⟨[], [], []⟩) tip).failure with
      | none => exact fun _ => rfl
      | some err => intro hclosure; simp at hclosure
  refine ⟨hdone, fun id hid => ?_⟩
  apply reaches_of_inGraph rfl hdone (copyRun_halts gix none (state.objects gix) [] tip) _ _ hid
  · exact fun hchildren => (copyObject_eq_ok gix none hchildren).2
  · intro id
    simp [copyWalk]

variable (hgraph : CompleteGraph gix.content (state.objects gix) tips)

include hgraph

/-- A complete graph that is served has no submodule, and is within the bounds. -/
theorem served_of_submodulesAreLeaves
    (h : SubmodulesAreLeaves gix diff toLowercase state tips destRef) :
    ServedGraph gix state tips := by
  -- a push whose objects are all in the repository already
  have hobjects : ∀ id, id ∈ Quarantine.objects gix ⟨none⟩ ∨ id ∈ state.disk.objects gix ↔
      id ∈ state.objects gix := by
    intro id
    simp [Quarantine.objects, Repo.objects]
  obtain ⟨hstored, hcount⟩ := (fsck_eq_ok_iff gix).1 (h.fsck ⟨none⟩ state.disk hobjects)
  have hreached : ∀ id, InGraph gix.content tips id → ReachableFrom gix.content tips id :=
    fun id hid => reachableFrom_of_inGraph gix.content hgraph.decodes hid
  refine ⟨?_, ?_, ?_⟩
  · intro tree entries htree hcontent entry hentry hmode
    -- the check reached the linked commit, which is not stored
    obtain ⟨tip, htip, hreach⟩ := hreached tree htree
    have hlinked : ReachableFrom gix.content tips entry.oid := by
      refine ⟨tip, htip, hreach.tail ⟨entries.map fun entry => entry.oid, ?_, ?_⟩⟩
      · rw [hcontent]
        rfl
      · exact List.mem_map_of_mem hentry
    apply hgraph.submodule htree hcontent entry hentry hmode
    exact (hobjects entry.oid).1 (hstored entry.oid hlinked).1
  · intro ids hnodup hids
    apply hcount ids hnodup
    exact fun id hid => hreached id (hids id hid)
  · intro branch commit hresolve hcommit
    obtain ⟨hdone, hreach⟩ := copied_of_importBranchTip hresolve
      (h.importTip branch commit hresolve hcommit ⟨⟨[], [], []⟩, ∅⟩)
    apply AtMost.of_forall_mem ((copyRun gix none (state.objects gix) [] commit).visited)
    · intro id hid
      exact (mem_copyRun_iff gix none hdone id).2 (hreach id hid)
    · exact length_copyRun_le gix none hdone

/-- A complete graph is served exactly when it has no submodule, and no more objects than the
connectivity check and an import are willing to visit. -/
theorem submodulesAreLeaves_iff (hdiff : DiffDocumented gix diff)
    (hdest : gix.validateRefName destRef = none) :
    SubmodulesAreLeaves gix diff toLowercase state tips destRef ↔ ServedGraph gix state tips := by
  constructor
  · exact served_of_submodulesAreLeaves diff toLowercase destRef hgraph
  · exact submodulesAreLeaves_of_served diff toLowercase destRef hgraph hdiff hdest

/-- No clone of a graph with a submodule succeeds. -/
theorem buildPack_of_submodule {tree : ObjectId} {entries : List TreeEntry} {entry : TreeEntry}
    (htree : InGraph gix.content tips tree) (hcontent : gix.content tree = .tree (some entries))
    (hentry : entry ∈ entries) (hmode : entry.mode = .commit) :
    ∀ pack, buildPack gix.content (state.objects gix) tips ≠ .ok pack := by
  intro pack hpack
  obtain ⟨seen, hseen, hdone, -⟩ := buildPackExcluding_eq_ok gix.content _ hpack
  have hskip : ∀ id, seen id = false := by
    intro id
    -- without haves nothing is left out
    have hhad : ¬ Had gix.content (state.objects gix) [] id := by
      rintro ⟨have_, hmem, -⟩
      simp at hmem
    simpa using fun hid => hhad ((hseen id).1 hid)
  have hreach : Reaches (objectWalk gix.content (state.objects gix) seen) tips tree :=
    reaches_of_inGraph rfl hdone (objectRun_halts gix.content _ seen tips)
      (fun hchildren => ((objectChildren_eq_ok gix.content _).1 hchildren).2) hskip htree
  obtain ⟨children, hchildren⟩ := exists_expand_of_reaches
    (objectWalk gix.content (state.objects gix) seen) rfl hdone
    (objectRun_halts gix.content _ seen tips) hreach
  have href := ((objectChildren_eq_ok gix.content _).1 hchildren).2
  rw [hcontent] at href
  obtain rfl := Except.ok.inj href
  have hlinked := hreach.tail _ ⟨_, hchildren, List.mem_map_of_mem hentry, hskip _⟩
  have hstored := (stored_of_objectRun gix.content _ hdone hlinked).1
  exact hgraph.submodule htree hcontent entry hentry hmode hstored

end Served

end Operations

/-! ## A repository with one submodule -/

def testAuthor : Signature := ⟨"Test Author", "author@example.com", some 1700000000⟩

/-- The commit 1 with the tree 2, whose entries are given. -/
def oneTreeGix (entries : List TreeEntry) : Gix where
  content := fun id =>
    if id = 1 then .commit (some ⟨2, [], some testAuthor, some testAuthor, none, "", []⟩)
    else if id = 2 then .tree (some entries)
    else .blob []
  packObjects := fun _ => []
  writeToDirectory := fun _ _ => .error "bad header"
  validateRefName := fun _ => none
  debug := fun text => "\"" ++ text ++ "\""
  transactionError := fun _ _ => "the reference has moved"
  ioError := "input/output error"

/-- A comparison with a tree that is not there, or with another one, adds every entry; a commit is
its own merge base. -/
def oneTreeDiff (gix : Gix) : GixDiff where
  diffTreeToTree := fun _ old new => .ok (if old = some new then [] else match gix.content new with
    | .tree (some entries) =>
      entries.map fun entry => .addition entry.filename entry.mode entry.oid
    | _ => [])
  mergeBase := fun _ a b => if a = b then some a else none
  histogramHunks := fun _ _ => []
  rawData := fun _ => []

/-- The repository of the two objects, with the commit on `main`. -/
def oneTreeRepo : Repo where
  disk := ⟨[1, 2], [], []⟩
  refs := (∅ : RefStore).insert "refs/heads/main" (.object 1)

/-- The entry of a submodule whose commit is 3. -/
def vendorEntry : TreeEntry := ⟨.commit, "vendor", 3⟩

theorem diffDocumented_oneTree (gix : Gix) : DiffDocumented gix (oneTreeDiff gix) where
  compares := fun _ _ _ _ _ => ⟨_, rfl⟩
  sides := by
    intro store old new changes hchanges change hchange side hside
    obtain rfl := Except.ok.inj hchanges
    split at hchange
    · simp at hchange
    · split at hchange
      · rename_i entries hcontent
        obtain ⟨entry, hentry, rfl⟩ := List.mem_map.1 hchange
        obtain rfl := List.mem_singleton.1 hside
        exact ⟨new, entries, inGraph_of_mem gix.content (by simp), hcontent, entry, hentry, rfl, rfl⟩
      · simp at hchange
  mergeBase := by
    intro store a b base h
    simp only [oneTreeDiff] at h
    split at h
    · rename_i hab
      obtain rfl := Option.some.inj h
      subst hab
      exact ⟨Relation.ReflTransGen.refl, Relation.ReflTransGen.refl⟩
    · exact absurd h (by simp)

section OneTree

variable {entries : List TreeEntry} (hlinks : ∀ entry ∈ entries, entry.mode = .commit)

include hlinks

theorem plainRefers_oneTree {a b : ObjectId} (h : PlainRefers (oneTreeGix entries).content a b) :
    a = 1 ∧ b = 2 := by
  simp only [PlainRefers, oneTreeGix] at h
  split at h
  · rename_i ha
    exact ⟨ha, by simpa [plainReferences] using h⟩
  · split at h
    · simp only [plainReferences, List.mem_map, List.mem_filter] at h
      obtain ⟨entry, ⟨hentry, hmode⟩, -⟩ := h
      simp [hlinks entry hentry] at hmode
    · simp [plainReferences] at h

theorem inGraph_oneTree {id : ObjectId} (h : InGraph (oneTreeGix entries).content [1] id) :
    id = 1 ∨ id = 2 := by
  obtain ⟨tip, htip, hreach⟩ := h
  obtain rfl := List.mem_singleton.1 htip
  rcases Relation.ReflTransGen.cases_tail hreach with rfl | ⟨c, -, hc⟩
  · exact Or.inl rfl
  · exact Or.inr (plainRefers_oneTree hlinks hc).2

/-- The graph is complete when no link names one of the two objects. -/
theorem completeGraph_oneTree (hout : ∀ entry ∈ entries, entry.oid ∉ [(1 : ObjectId), 2]) :
    CompleteGraph (oneTreeGix entries).content (oneTreeRepo.objects (oneTreeGix entries)) [1] where
  stored := by
    intro id hid
    rcases inGraph_oneTree hlinks hid with rfl | rfl
    · exact List.mem_cons_self
    · exact List.mem_cons_of_mem _ List.mem_cons_self
  decodes := by
    intro id hid
    rcases inGraph_oneTree hlinks hid with rfl | rfl
    · exact ⟨[2], rfl⟩
    · exact ⟨entries.map fun entry => entry.oid, rfl⟩
  committer := by
    intro id commit hid hcontent
    rcases inGraph_oneTree hlinks hid with rfl | rfl
    · cases hcontent
      simp
    · cases hcontent
  tree := by
    intro id commit hid hcontent
    rcases inGraph_oneTree hlinks hid with rfl | rfl
    · cases hcontent
      rfl
    · cases hcontent
  parents := by
    intro id commit hid hcontent
    rcases inGraph_oneTree hlinks hid with rfl | rfl
    · cases hcontent
      simp
    · cases hcontent
  subtree := by
    intro id found hid hcontent entry hentry hmode
    rcases inGraph_oneTree hlinks hid with rfl | rfl
    · cases hcontent
    · cases hcontent
      rw [hlinks entry hentry] at hmode
      exact absurd hmode (by decide)
  submodule := by
    intro id found hid hcontent entry hentry hmode
    rcases inGraph_oneTree hlinks hid with rfl | rfl
    · cases hcontent
    · cases hcontent
      exact hout entry hentry
  acyclic := by
    intro id hcycle
    have hends : ∀ b, Relation.TransGen (PlainRefers (oneTreeGix entries).content) id b →
        id = 1 ∧ b = 2 := by
      intro b hb
      induction hb with
      | single hab => exact plainRefers_oneTree hlinks hab
      | tail _ hbc ih => exact ⟨ih.1, (plainRefers_oneTree hlinks hbc).2⟩
    obtain ⟨hone, htwo⟩ := hends id hcycle
    rw [hone] at htwo
    exact absurd htwo (by decide)

end OneTree

/-- The repository without entries is served. -/
theorem submodulesAreLeaves_iff_oneTree :
    SubmodulesAreLeaves (oneTreeGix []) (oneTreeDiff (oneTreeGix [])) id oneTreeRepo [1]
        "refs/edda/pull-heads/1" ↔
      ServedGraph (oneTreeGix []) oneTreeRepo [1] :=
  submodulesAreLeaves_iff (oneTreeDiff (oneTreeGix [])) id "refs/edda/pull-heads/1"
    (completeGraph_oneTree (by simp) (by simp)) (diffDocumented_oneTree _) rfl

/-- With the entry of a submodule, the connectivity check of a push refuses the repository. -/
theorem linked_commit_is_missing :
    ¬ ∀ (gix : Gix) (diff : GixDiff) (toLowercase : List Char → List Char) (state : Repo)
      (tips : List ObjectId) (destRef : String),
      CompleteGraph gix.content (state.objects gix) tips → DiffDocumented gix diff →
      gix.validateRefName destRef = none →
      SubmodulesAreLeaves gix diff toLowercase state tips destRef := by
  intro h
  have hserved := h (oneTreeGix [vendorEntry]) (oneTreeDiff _) id oneTreeRepo [1]
    "refs/edda/pull-heads/1" (completeGraph_oneTree (by simp [vendorEntry])
      (by intro entry hentry; obtain rfl := List.mem_singleton.1 hentry; decide))
    (diffDocumented_oneTree _) rfl
  have haccepted := hserved.fsck ⟨none⟩ oneTreeRepo.disk (by simp [Quarantine.objects, Repo.objects])
  have hrefused : Quarantine.fsck (oneTreeGix [vendorEntry]) none ⟨none⟩ oneTreeRepo.disk [1] =
      .error (.git ("fsck: the push references object " ++ ObjectId.toHex 3 ++
        ", which is in neither the pack nor the repository")) := by decide +kernel
  rw [hrefused] at haccepted
  exact absurd haccepted (by simp)

end Edda.Git
