import Edda.Git.Resolve

/-!
# Diffs between commits

A commit is shown against its first parent, and a pull request against the merge base of its two
refs. The library compares the trees; the server then reads both sides of every change that is not
a change of a directory, and cuts them into lines.
-/

set_option autoImplicit false

namespace Edda.Git

open Edda.Support.RustText

/-- A changed tree entry: its path, its mode and what it names. A rewrite is an entry that moved. -/
inductive TreeChange where
  | addition (location : String) (entryMode : EntryKind) (id : ObjectId)
  | deletion (location : String) (entryMode : EntryKind) (id : ObjectId)
  | modification (location : String) (previousEntryMode : EntryKind) (previousId : ObjectId)
    (entryMode : EntryKind) (id : ObjectId)
  | rewrite (sourceLocation : String) (sourceEntryMode : EntryKind) (sourceId : ObjectId)
    (location : String) (entryMode : EntryKind) (id : ObjectId)
  deriving DecidableEq, Repr

/-- The entries that a change is about. -/
def TreeChange.sides : TreeChange → List (EntryKind × ObjectId)
  | .addition _ mode id => [(mode, id)]
  | .deletion _ mode id => [(mode, id)]
  | .modification _ previousMode previousId mode id => [(previousMode, previousId), (mode, id)]
  | .rewrite _ sourceMode sourceId _ mode id => [(sourceMode, sourceId), (mode, id)]

inductive DiffLine where
  | context (text : String)
  | added (text : String)
  | removed (text : String)
  deriving DecidableEq, Repr

structure DiffHunk where
  oldStart : Nat
  oldLines : Nat
  newStart : Nat
  newLines : Nat
  lines : List DiffLine
  deriving DecidableEq, Repr

structure FileDiff where
  oldPath : Option String
  newPath : Option String
  hunks : List DiffHunk
  isBinary : Bool
  isRename : Bool
  isTooLarge : Bool
  deriving DecidableEq, Repr

/-- The parameters of the diffs: the comparison of an old tree, if there is one, with a new tree,
with rename tracking; the best common ancestor of two commits; the line alignment; and the bytes
of an object that is no blob. -/
structure GixDiff where
  diffTreeToTree : Store → Option ObjectId → ObjectId → Except String (List TreeChange)
  mergeBase : Store → ObjectId → ObjectId → Option ObjectId
  histogramHunks : Bytes → Bytes → List DiffHunk
  rawData : ObjectId → Bytes

def maxDiffBytes : Nat := 512 * 1024

/-- A NUL among the first bytes (`is_binary_data`). -/
def isBinaryData (data : Bytes) : Bool := (data.take 8000).any fun byte => byte == 0

/-- The lines of a file that is added or deleted as a whole. -/
def splitLines (data : Bytes) : List String := (lines (fromUtf8Lossy data)).map String.ofList

/-- A diff without hunks. -/
def emptyDiff (oldPath newPath : Option String) (isBinary isRename isTooLarge : Bool) : FileDiff :=
  ⟨oldPath, newPath, [], isBinary, isRename, isTooLarge⟩

def fileDiffForAddition (path : String) (data : Bytes) : FileDiff :=
  if isBinaryData data then emptyDiff none (some path) true false false
  else if maxDiffBytes < data.length then emptyDiff none (some path) false false true
  else
    let lines := splitLines data
    let start := if lines.isEmpty then 0 else 1
    ⟨none, some path, [⟨0, 0, start, asU32 lines.length, lines.map .added⟩], false, false, false⟩

def fileDiffForDeletion (path : String) (data : Bytes) : FileDiff :=
  if isBinaryData data then emptyDiff (some path) none true false false
  else if maxDiffBytes < data.length then emptyDiff (some path) none false false true
  else
    let lines := splitLines data
    let start := if lines.isEmpty then 0 else 1
    ⟨some path, none, [⟨start, asU32 lines.length, 0, 0, lines.map .removed⟩], false, false, false⟩

section Diff

variable (gix : Gix) (diff : GixDiff)

def fileDiffForModification (oldPath : Option String) (newPath : String) (oldData newData : Bytes)
    (isRename : Bool) : FileDiff :=
  if isBinaryData oldData ∨ isBinaryData newData then
    emptyDiff oldPath (some newPath) true isRename false
  else if maxDiffBytes < oldData.length ∨ maxDiffBytes < newData.length then
    emptyDiff oldPath (some newPath) false isRename true
  else ⟨oldPath, some newPath, diff.histogramHunks oldData newData, false, isRename, false⟩

/-- The bytes of an object. -/
def objectData (store : Store) (id : ObjectId) : Except GitError Bytes :=
  match findObject gix.content store id with
  | .error err => .error err
  | .ok (.blob data) => .ok data
  | .ok _ => .ok (diff.rawData id)

/-- The diff of one change; a changed directory has none. Only the mode of the new side is looked
at. -/
def fileDiff (store : Store) : TreeChange → Except GitError (Option FileDiff)
  | .addition location mode id =>
    if mode = .tree then .ok none
    else match objectData gix diff store id with
      | .error err => .error err
      | .ok data => .ok (some (fileDiffForAddition location data))
  | .deletion location mode id =>
    if mode = .tree then .ok none
    else match objectData gix diff store id with
      | .error err => .error err
      | .ok data => .ok (some (fileDiffForDeletion location data))
  | .modification location _ previousId mode id =>
    if mode = .tree then .ok none
    else match objectData gix diff store previousId, objectData gix diff store id with
      | .error err, _ => .error err
      | .ok _, .error err => .error err
      | .ok oldData, .ok newData =>
        .ok (some (fileDiffForModification diff (some location) location oldData newData false))
  | .rewrite sourceLocation _ sourceId location mode id =>
    if mode = .tree then .ok none
    -- a pure rename is not read
    else if sourceId = id then
      .ok (some (emptyDiff (some sourceLocation) (some location) false true false))
    else match objectData gix diff store sourceId, objectData gix diff store id with
      | .error err, _ => .error err
      | .ok _, .error err => .error err
      | .ok oldData, .ok newData =>
        .ok (some (fileDiffForModification diff (some sourceLocation) location oldData newData true))

/-- The diffs of all changes, or the error of the first change that cannot be read. -/
def fileDiffs (store : Store) : List TreeChange → Except GitError (List FileDiff)
  | [] => .ok []
  | change :: changes => match fileDiff gix diff store change with
    | .error err => .error err
    | .ok first => match fileDiffs store changes with
      | .error err => .error err
      | .ok rest => .ok (first.toList ++ rest)

def fileDiffsBetween (store : Store) (oldTree : Option ObjectId) (newTree : ObjectId) :
    Except GitError (List FileDiff) :=
  match diff.diffTreeToTree store oldTree newTree with
  | .error err => .error (.git err)
  | .ok changes => fileDiffs gix diff store changes

/-- The tree of a commit; the tree is read too. -/
def treeOfCommit (store : Store) (id : ObjectId) : Except GitError ObjectId :=
  match findCommit gix store id with
  | .error err => .error err
  | .ok commit => match findTree gix store commit.tree with
    | .error err => .error err
    | .ok _ => .ok commit.tree

/-- The tree of the first parent, if there is one. -/
def parentTree (store : Store) : List ObjectId → Except GitError (Option ObjectId)
  | [] => .ok none
  | parent :: _ => match treeOfCommit gix store parent with
    | .error err => .error err
    | .ok tree => .ok (some tree)

/-- The diff of a commit against its first parent. -/
def commitDiff (state : Repo) (commitId : String) : Except GitError (List FileDiff) :=
  let store := state.objects gix
  match ObjectId.fromHex commitId with
  | none => .error (.git "not a valid object id")
  | some oid => match findCommit gix store oid with
    | .error err => .error err
    | .ok commit => match treeOfCommit gix store oid with
      | .error err => .error err
      | .ok newTree => match parentTree gix store commit.parents with
        | .error err => .error err
        | .ok oldTree => fileDiffsBetween gix diff store oldTree newTree

/-- The diff of a pull request, from the merge base of its refs to its head. Without a merge base
it is the diff between the refs. -/
def diffRefs (state : Repo) (baseRef headRef : String) : Except GitError (List FileDiff) :=
  let store := state.objects gix
  match resolveCommitId gix state baseRef with
  | .error err => .error err
  | .ok base => match resolveCommitId gix state headRef with
    | .error err => .error err
    | .ok head =>
      let start := (diff.mergeBase store base head).getD base
      match treeOfCommit gix store start with
      | .error err => .error err
      | .ok fromTree => match treeOfCommit gix store head with
        | .error err => .error err
        | .ok headTree => fileDiffsBetween gix diff store (some fromTree) headTree

/-- The bytes of a stored object are read. -/
theorem exists_objectData {store : Store} {id : ObjectId} (h : id ∈ store) :
    ∃ data, objectData gix diff store id = .ok data := by
  simp only [objectData, findObject_of_mem gix.content h]
  split
  · rename_i heq
    exact absurd heq (by simp)
  · exact ⟨_, rfl⟩
  · exact ⟨_, rfl⟩

/-- A change is shown where both its sides are stored. -/
theorem exists_fileDiff {store : Store} {change : TreeChange}
    (h : ∀ side ∈ change.sides, side.2 ∈ store) :
    ∃ result, fileDiff gix diff store change = .ok result := by
  cases change with
  | addition location mode id =>
    obtain ⟨data, hdata⟩ := exists_objectData gix diff (h (mode, id) (by simp [TreeChange.sides]))
    simp only [fileDiff, hdata]
    split <;> exact ⟨_, rfl⟩
  | deletion location mode id =>
    obtain ⟨data, hdata⟩ := exists_objectData gix diff (h (mode, id) (by simp [TreeChange.sides]))
    simp only [fileDiff, hdata]
    split <;> exact ⟨_, rfl⟩
  | modification location previousMode previousId mode id =>
    obtain ⟨old, hold⟩ :=
      exists_objectData gix diff (h (previousMode, previousId) (by simp [TreeChange.sides]))
    obtain ⟨data, hdata⟩ := exists_objectData gix diff (h (mode, id) (by simp [TreeChange.sides]))
    simp only [fileDiff, hold, hdata]
    split <;> exact ⟨_, rfl⟩
  | rewrite sourceLocation sourceMode sourceId location mode id =>
    obtain ⟨old, hold⟩ :=
      exists_objectData gix diff (h (sourceMode, sourceId) (by simp [TreeChange.sides]))
    obtain ⟨data, hdata⟩ := exists_objectData gix diff (h (mode, id) (by simp [TreeChange.sides]))
    simp only [fileDiff, hold, hdata]
    split
    · exact ⟨_, rfl⟩
    · split <;> exact ⟨_, rfl⟩

/-- Changes are shown where all their sides are stored. -/
theorem exists_fileDiffs {store : Store} {changes : List TreeChange}
    (h : ∀ change ∈ changes, ∀ side ∈ change.sides, side.2 ∈ store) :
    ∃ result, fileDiffs gix diff store changes = .ok result := by
  induction changes with
  | nil => exact ⟨[], rfl⟩
  | cons change changes ih =>
    obtain ⟨first, hfirst⟩ := exists_fileDiff gix diff (h change (by simp))
    obtain ⟨rest, hrest⟩ := ih fun other hother => h other (List.mem_cons_of_mem _ hother)
    exact ⟨first.toList ++ rest, by simp only [fileDiffs, hfirst, hrest]⟩

end Diff

end Edda.Git
