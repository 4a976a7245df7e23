import Edda.Git.Pack
import Edda.Git.Resolve

/-!
# Importing the tip of a fork

The merge of a pull request from a fork first copies what the fork's branch reaches into the
target repository, and points an internal ref there at the branch's tip. An object that the
destination holds ends the walk, as everything it reaches is taken to be there as well.

Objects are written while the walk goes on, so that an import that fails leaves what it wrote.
-/

set_option autoImplicit false

namespace Edda.Git

open Edda.Support Edda.Support.Worklist

/-- The steps of an import that the file system can fail. -/
inductive ImportFault where
  | writeObject (id : ObjectId)
  | setRef (fault : RefFault)
  deriving DecidableEq, Repr

def maxImportedObjects : Nat := 100000

section Transfer

variable (gix : Gix) (fault : Option ImportFault)

/-- Copies one object, and finds what it refers to. -/
def copyObject (src : Store) (id : ObjectId) : Except GitError (List ObjectId) :=
  match objectChildren gix.content src id with
  | .error err => .error err
  | .ok children =>
    if fault = some (.writeObject id) then .error (.git gix.ioError) else .ok children

/-- The walk over what the destination does not hold. The destination gains the visited objects
only, which are not visited twice. -/
def copyWalk (src dst : Store) : Walk ObjectId ObjectId GitError where
  key := id
  skip := fun id => decide (id ∈ dst)
  limit := fun _ => none
  expand := copyObject gix fault src
  settle := fun copied =>
    if maxImportedObjects < copied then
      some (.git ("cross-repo import exceeded " ++ toString maxImportedObjects ++
        " objects — refusing to continue"))
    else none
  discipline := .lifo

def copyRun (src dst : Store) (tip : ObjectId) : State ObjectId GitError :=
  run (copyWalk gix fault src dst) (fuel src (referenceCount gix.content) [tip]) (State.init [tip])

/-- Writes into `dst` what `tip` reaches in `src`: the disk afterwards, and the number of objects
written. -/
def copyClosure (src : Store) (dst : Disk) (tip : ObjectId) : Disk × Except GitError Nat :=
  let walk := copyRun gix fault src (dst.objects gix) tip
  ({ dst with loose := walk.order ++ dst.loose },
    match walk.failure with
    | some err => .error err
    | none => .ok walk.visited.length)

/-- Sets a ref whatever it holds. -/
def forceSetRef (fault : Option RefFault) (refs : RefStore) (name : String) (new : ObjectId) :
    RefStore × Except GitError Unit :=
  match fullName gix name with
  | .error err => (refs, .error err)
  | .ok name =>
    let edits : List RefEdit := [⟨.update .any (.object new), name⟩]
    match prepare gix fault refs edits with
    | .error err => (refs, .error err)
    | .ok () => commit gix fault refs edits

/-- The fault that reaches the ref transaction of an import. -/
def ImportFault.refFault : Option ImportFault → Option RefFault
  | some (.setRef fault) => some fault
  | _ => none

/-- Copies what the tip of a branch of `src` reaches into `dst`, and points `destRef` at the tip. -/
def importBranchTip (src dst : Repo) (sourceBranch destRef : String) :
    Repo × Except GitError String :=
  match resolveCommitId gix src ("refs/heads/" ++ sourceBranch) with
  | .error err => (dst, .error err)
  | .ok tip => match copyClosure gix fault (src.objects gix) dst.disk tip with
    | (disk, .error err) => ({ dst with disk }, .error err)
    | (disk, .ok _) => match forceSetRef gix (ImportFault.refFault fault) dst.refs destRef tip with
      | (refs, .error err) => (⟨disk, refs⟩, .error err)
      | (refs, .ok ()) => (⟨disk, refs⟩, .ok tip.toHex)

/-! ## What an import copies -/

theorem copyObject_eq_ok {src : Store} {id : ObjectId} {children : List ObjectId}
    (h : copyObject gix fault src id = .ok children) :
    id ∈ src ∧ references (gix.content id) = .ok children := by
  simp only [copyObject] at h
  split at h
  · exact absurd h (by simp)
  · rename_i ids hids
    split at h
    · exact absurd h (by simp)
    · obtain rfl := Except.ok.inj h
      exact (objectChildren_eq_ok gix.content src).1 hids

theorem copyWalk_bounded (src dst : Store) :
    Bounded (copyWalk gix fault src dst) src (referenceCount gix.content) where
  mem_nodes := fun h _ => (copyObject_eq_ok gix fault h).1
  length_le := by
    intro id children h
    have href := (copyObject_eq_ok gix fault h).2
    change _ ≤ referenceCount gix.content id
    simp [referenceCount, href]

theorem copyRun_halts (src dst : Store) (tip : ObjectId) :
    (copyRun gix fault src dst tip).Halted :=
  run_halts _ (copyWalk_bounded gix fault src dst) [tip]

/-- An import that does not fail copies everything the tip reaches outside of the destination. -/
theorem mem_copyRun_iff {src dst : Store} {tip : ObjectId}
    (h : (copyRun gix fault src dst tip).failure = none) (id : ObjectId) :
    id ∈ (copyRun gix fault src dst tip).visited ↔
      Reaches (copyWalk gix fault src dst) [tip] id :=
  mem_visited_iff_reaches (copyWalk gix fault src dst) rfl h (copyRun_halts gix fault src dst tip) id

/-- An import that does not fail stays within its bound. -/
theorem length_copyRun_le {src dst : Store} {tip : ObjectId}
    (h : (copyRun gix fault src dst tip).failure = none) :
    (copyRun gix fault src dst tip).visited.length ≤ maxImportedObjects := by
  rcases settle_eq_none (copyWalk gix fault src dst) h with hnil | hsettle
  · have hlength : (copyRun gix fault src dst tip).visited.length = 0 := by
      change (run _ _ _).visited.length = 0
      rw [hnil]
      rfl
    omega
  · by_contra hlt
    have hover : maxImportedObjects < (copyRun gix fault src dst tip).visited.length := by omega
    have hrefused : (copyWalk gix fault src dst).settle
        (copyRun gix fault src dst tip).visited.length ≠ none := by
      simp [copyWalk, hover]
    exact hrefused hsettle

/-- Without a fault of the file system a ref with a valid name is set. -/
theorem forceSetRef_eq_ok {refs : RefStore} {name : String} {new : ObjectId}
    (hname : gix.validateRefName name = none) :
    forceSetRef gix none refs name new =
      (refs.insert name (.object new), .ok ()) := by
  have hprepared : Prepared refs [⟨.update .any (.object new), name⟩] := by
    refine ⟨by simp, ?_⟩
    intro edit hedit
    obtain rfl := List.mem_singleton.1 hedit
    rfl
  have hfull : fullName gix name = .ok name := by simp only [fullName, hname]
  have hprepare : prepare gix none refs [⟨.update .any (.object new), name⟩] = .ok () := by
    simp [prepare, hprepared]
  simp only [forceSetRef, hfull, hprepare]
  rfl

end Transfer

end Edda.Git
