import Edda.Git.ReceivePack

/-!
# Resolving refs to commits

A ref is followed through symbolic refs to an object id, and an annotated tag is peeled to the
commit it names. Without a branch, a repository is browsed at its `HEAD`, or at the branch that
stands in for a `HEAD` that names none.
-/

set_option autoImplicit false

namespace Edda.Git

section Resolve

variable (gix : Gix)

/-- The error of a ref that does not exist. -/
def refNotFound (name : String) : GitError :=
  .git ("The reference " ++ gix.debug name ++ " did not exist")

/-- How many symbolic refs are followed. -/
def maxRefDepth : Nat := 5

/-- The object id that a ref leads to. -/
def followRef (refs : RefStore) : Nat → String → Except GitError ObjectId
  | 0, name => .error (.git ("Refusing to follow more than 5 symbolic refs: " ++ gix.debug name))
  | depth + 1, name => match refs.lookup name with
    | none => .error (refNotFound gix name)
    | some (.object id) => .ok id
    | some (.symbolic next) => followRef refs depth next

/-- The commit that an object id leads to through annotated tags. Tags do not name each other in
circles, so that a chain of them is no longer than the store. -/
def peelToCommit (store : Store) : Nat → ObjectId → Except GitError ObjectId
  | 0, id => .error (.git ("Could not peel " ++ id.toHex))
  | depth + 1, id => match findObject gix.content store id with
    | .error err => .error err
    | .ok (.commit _) => .ok id
    | .ok (.tag none) => .error decodeError
    | .ok (.tag (some tag)) => peelToCommit store depth tag.target
    | .ok _ => .error (.git ("Last encountered object " ++ id.toHex ++ " was not a commit"))

/-- The objects of the repository. -/
def Repo.objects (state : Repo) : Store := state.disk.objects gix

/-- The commit a ref resolves to. -/
def resolveCommitId (state : Repo) (refName : String) : Except GitError ObjectId :=
  match followRef gix state.refs maxRefDepth refName with
  | .error err => .error err
  | .ok id => peelToCommit gix (state.objects gix) ((state.objects gix).length + 1) id

/-- The commit to browse: the tip of `branch`, or without one that of `HEAD`, or of the branch
that stands in for it. -/
def openAndResolve (state : Repo) (branch : Option String) : Except GitError ObjectId :=
  match branch with
  | some branch => resolveCommitId gix state ("refs/heads/" ++ branch)
  | none => match resolveCommitId gix state "HEAD" with
    | .ok commit => .ok commit
    | .error _ => match pickDefaultBranch (branchNames state.refs) with
      | none => .error (.git "repository has no commits yet")
      | some branch => resolveCommitId gix state ("refs/heads/" ++ branch)

/-- The hexadecimal id of the commit at the tip of `branch`. -/
def resolveBranchCommit (state : Repo) (branch : String) : Except GitError String :=
  (openAndResolve gix state (some branch)).map ObjectId.toHex

/-- A commit as it is read from the store. -/
def findCommit (store : Store) (id : ObjectId) : Except GitError Commit :=
  match findObject gix.content store id with
  | .error err => .error err
  | .ok (.commit (some commit)) => .ok commit
  | .ok (.commit none) => .error decodeError
  | .ok _ => .error (.git ("Expected object " ++ id.toHex ++ " to be a commit"))

/-- A tree as it is read from the store. -/
def findTree (store : Store) (id : ObjectId) : Except GitError (List TreeEntry) :=
  match findObject gix.content store id with
  | .error err => .error err
  | .ok (.tree (some entries)) => .ok entries
  | .ok (.tree none) => .error decodeError
  | .ok _ => .error (.git ("Expected object " ++ id.toHex ++ " to be a tree"))

/-- What is peeled is a stored commit. -/
theorem peelToCommit_eq_ok {store : Store} {depth : Nat} {id commit : ObjectId}
    (h : peelToCommit gix store depth id = .ok commit) :
    commit ∈ store ∧ (gix.content commit).kind = .commit := by
  induction depth generalizing id with
  | zero => exact absurd h (by simp [peelToCommit])
  | succ depth ih =>
    simp only [peelToCommit] at h
    split at h
    · exact absurd h (by simp)
    · rename_i body hfind
      obtain ⟨hmem, hcontent⟩ := mem_of_findObject gix.content hfind
      obtain rfl := Except.ok.inj h
      exact ⟨hmem, by rw [← hcontent]; rfl⟩
    · exact absurd h (by simp)
    · exact ih h
    · exact absurd h (by simp)

theorem resolveCommitId_eq_ok {state : Repo} {refName : String} {commit : ObjectId}
    (h : resolveCommitId gix state refName = .ok commit) :
    commit ∈ state.objects gix ∧ (gix.content commit).kind = .commit := by
  simp only [resolveCommitId] at h
  split at h
  · exact absurd h (by simp)
  · exact peelToCommit_eq_ok gix h

theorem openAndResolve_eq_ok {state : Repo} {branch : Option String} {commit : ObjectId}
    (h : openAndResolve gix state branch = .ok commit) :
    commit ∈ state.objects gix ∧ (gix.content commit).kind = .commit := by
  cases branch with
  | some branch => exact resolveCommitId_eq_ok gix h
  | none =>
    simp only [openAndResolve] at h
    split at h
    · rename_i commit' hhead
      obtain rfl := Except.ok.inj h
      exact resolveCommitId_eq_ok gix hhead
    · split at h
      · exact absurd h (by simp)
      · exact resolveCommitId_eq_ok gix h

/-- A ref that holds a stored commit resolves to it. -/
theorem resolveCommitId_of_lookup {state : Repo} {refName : String} {commit : ObjectId}
    (hlookup : state.refs.lookup refName = some (.object commit))
    (hmem : commit ∈ state.objects gix) (hkind : (gix.content commit).kind = .commit) :
    resolveCommitId gix state refName = .ok commit := by
  have hfollow : followRef gix state.refs maxRefDepth refName = .ok commit := by
    simp only [followRef, maxRefDepth, hlookup]
  simp only [resolveCommitId, hfollow, peelToCommit, findObject_of_mem gix.content hmem]
  cases hcontent : gix.content commit with
  | commit body => rfl
  | tree body => simp [hcontent, Object.kind] at hkind
  | blob data => simp [hcontent, Object.kind] at hkind
  | tag body => simp [hcontent, Object.kind] at hkind

end Resolve

end Edda.Git
