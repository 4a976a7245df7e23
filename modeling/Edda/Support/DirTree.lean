import Mathlib

/-!
# A directory tree under concurrent writes

The nodes below one directory, each at its path. Unlike `FileTree`, which has what one recursive copy
writes, nodes also go here, one entry at a time, and a directory has the time of its last change. The
calls are those of the operating system: each is one step, takes effect or fails, and needs the
directory that it writes into. `get_insert` and `get_remove` say what a write and a removal change,
`isSome_unlink` what a removal takes away, and the lemmas `notFound_of_…` what a call fails for.
-/

set_option autoImplicit false

namespace Edda.Support.DirTree

universe u

/-- A directory with the time of its last change, or a file with its size. -/
inductive Node where
  | dir (modified : Nat)
  | file (size : Nat)
  deriving DecidableEq, Repr

def Node.isDir : Node → Bool
  | .dir _ => true
  | .file _ => false

/-- The nodes by their paths. The directory itself, at `[]`, is always there. -/
abbrev Tree (ν : Type u) := List (List ν × Node)

/-- Why a call fails; `notFound` names what is missing. -/
inductive CallError (ν : Type u) where
  | notFound (path : List ν)
  | notADirectory (path : List ν)
  | isADirectory (path : List ν)
  deriving DecidableEq, Repr

section DirTree

variable {ν : Type u} [DecidableEq ν]

namespace Tree

def get (tree : Tree ν) (path : List ν) : Option Node :=
  (tree.find? fun entry => entry.1 = path).map Prod.snd

def insert (tree : Tree ν) (path : List ν) (node : Node) : Tree ν := (path, node) :: tree

def remove (tree : Tree ν) (path : List ν) : Tree ν := tree.filter fun entry => entry.1 ≠ path

/-- The paths of the entries of a directory. -/
def entries (tree : Tree ν) (path : List ν) : List (List ν) :=
  (tree.map Prod.fst).dedup.filter fun other => other ≠ [] ∧ other.dropLast = path

def isDir (tree : Tree ν) (path : List ν) : Bool :=
  path = [] || ((tree.get path).map Node.isDir).getD false

/-- A directory without entries. -/
def isEmptyDir (tree : Tree ν) (path : List ν) : Bool :=
  ((tree.get path).map Node.isDir).getD false && (tree.entries path).isEmpty

/-- The sizes of the files below a directory. -/
def dirSize (tree : Tree ν) (path : List ν) : Nat :=
  ((tree.map Prod.fst).dedup.filter fun other => path.isPrefixOf other).foldl
    (fun total other => match tree.get other with
      | some (.file size) => total + size
      | _ => total) 0

/-- An entry came or went, so the directory is changed. -/
def touch (tree : Tree ν) (path : List ν) (now : Nat) : Tree ν :=
  match tree.get path with
  | some (.dir _) => tree.insert path (.dir now)
  | _ => tree

/-- The directory that a call writes into. -/
def checkDir (tree : Tree ν) (path : List ν) : Except (CallError ν) Unit :=
  if path = [] then .ok ()
  else match tree.get path with
    | none => .error (.notFound path)
    | some (.file _) => .error (.notADirectory path)
    | some (.dir _) => .ok ()

/-- `mkdir`, where a directory that is there already is fine. -/
def mkdir (tree : Tree ν) (path : List ν) (now : Nat) : Except (CallError ν) (Tree ν) :=
  match tree.checkDir path.dropLast with
  | .error err => .error err
  | .ok () => match tree.get path with
    | some (.dir _) => .ok tree
    | some (.file _) => .error (.notADirectory path)
    | none => .ok ((tree.insert path (.dir now)).touch path.dropLast now)

def write (tree : Tree ν) (path : List ν) (size now : Nat) : Except (CallError ν) (Tree ν) :=
  match tree.checkDir path.dropLast with
  | .error err => .error err
  | .ok () => match tree.get path with
    | some (.dir _) => .error (.isADirectory path)
    | some (.file _) => .ok (tree.insert path (.file size))
    | none => .ok ((tree.insert path (.file size)).touch path.dropLast now)

/-- A rename of a file. -/
def rename (tree : Tree ν) (source dest : List ν) (now : Nat) : Except (CallError ν) (Tree ν) :=
  match tree.get source with
  | none => .error (.notFound source)
  | some node => match tree.checkDir dest.dropLast with
    | .error err => .error err
    | .ok () => match tree.get dest with
      | some (.dir _) => .error (.isADirectory dest)
      | _ => .ok ((((tree.remove source).insert dest node).touch source.dropLast now).touch
          dest.dropLast now)

/-- The removal of one entry, a file or an empty directory. -/
def unlink (tree : Tree ν) (path : List ν) (now : Nat) : Tree ν :=
  (tree.remove path).touch path.dropLast now

/-- A directory and all that is below it go. -/
def removeAll (tree : Tree ν) (path : List ν) (now : Nat) : Tree ν :=
  Tree.touch (tree.filter fun entry => !path.isPrefixOf entry.1) path.dropLast now

end Tree

variable {tree tree' : Tree ν} {path other source dest : List ν} {node : Node} {now size : Nat}

theorem get_insert :
    (tree.insert path node).get other = if other = path then some node else tree.get other := by
  simp only [Tree.get, Tree.insert, List.find?_cons]
  by_cases h : path = other
  · simp [h]
  · simp [h, Ne.symm h]

theorem get_remove : (tree.remove path).get other = if other = path then none else tree.get other := by
  simp only [Tree.get, Tree.remove, List.find?_filter]
  split
  · next heq =>
    subst heq
    simp
  · next hne =>
    congr 2
    funext entry
    by_cases h : entry.1 = other
    · simp [h, hne]
    · simp [h]

/-- A touch changes the time of a directory, and takes nothing away. -/
theorem isSome_touch : ((tree.touch path now).get other).isSome = (tree.get other).isSome := by
  unfold Tree.touch
  split
  · next hdir =>
    rw [get_insert]
    split
    · next heq => simp [heq, hdir]
    · rfl
  · rfl

theorem isSome_mkdir (h : tree.mkdir path now = .ok tree') :
    (tree'.get other).isSome = (decide (other = path) || (tree.get other).isSome) := by
  unfold Tree.mkdir at h
  split at h
  · cases h
  · split at h
    · next hdir =>
      obtain rfl := Except.ok.inj h
      by_cases heq : other = path
      · simp [heq, hdir]
      · simp [heq]
    · cases h
    · obtain rfl := Except.ok.inj h
      rw [isSome_touch, get_insert]
      split
      · next heq => simp [heq]
      · next hne => simp [hne]

theorem isSome_write (h : tree.write path size now = .ok tree') :
    (tree'.get other).isSome = (decide (other = path) || (tree.get other).isSome) := by
  have hinsert : ((tree.insert path (.file size)).get other).isSome =
      (decide (other = path) || (tree.get other).isSome) := by
    rw [get_insert]
    split
    · next heq => simp [heq]
    · next hne => simp [hne]
  unfold Tree.write at h
  split at h
  · cases h
  · split at h
    · cases h
    · obtain rfl := Except.ok.inj h
      exact hinsert
    · obtain rfl := Except.ok.inj h
      rw [isSome_touch, hinsert]

/-- What a call fails for is the directory that it writes into, if that is missing. -/
theorem notFound_of_checkDir {missing : List ν} (h : tree.checkDir path = .error (.notFound missing)) :
    missing = path ∧ path ≠ [] := by
  unfold Tree.checkDir at h
  split at h
  · cases h
  · next hne =>
    split at h
    · obtain rfl := CallError.notFound.inj (Except.error.inj h)
      exact ⟨rfl, hne⟩
    · cases h
    · cases h

theorem notFound_of_mkdir {missing : List ν} (h : tree.mkdir path now = .error (.notFound missing)) :
    missing = path.dropLast ∧ path.dropLast ≠ [] := by
  unfold Tree.mkdir at h
  split at h
  · next hcheck =>
    obtain rfl := Except.error.inj h
    exact notFound_of_checkDir hcheck
  · split at h
    · cases h
    · cases h
    · cases h

theorem notFound_of_write {missing : List ν}
    (h : tree.write path size now = .error (.notFound missing)) :
    missing = path.dropLast ∧ path.dropLast ≠ [] := by
  unfold Tree.write at h
  split at h
  · next hcheck =>
    obtain rfl := Except.error.inj h
    exact notFound_of_checkDir hcheck
  · split at h
    · cases h
    · cases h
    · cases h

theorem notFound_of_rename {missing : List ν}
    (h : tree.rename source dest now = .error (.notFound missing)) :
    missing = source ∨ missing = dest.dropLast ∧ dest.dropLast ≠ [] := by
  unfold Tree.rename at h
  split at h
  · exact Or.inl (CallError.notFound.inj (Except.error.inj h)).symm
  · split at h
    · next hcheck =>
      obtain rfl := Except.error.inj h
      exact Or.inr (notFound_of_checkDir hcheck)
    · split at h
      · cases h
      · cases h

/-- An unlink takes away the node of its path and no other. -/
theorem isSome_unlink :
    ((tree.unlink path now).get other).isSome = (decide (other ≠ path) && (tree.get other).isSome) := by
  rw [Tree.unlink, isSome_touch, get_remove]
  split
  · next heq => simp [heq]
  · next hne => simp [hne]

end DirTree

end Edda.Support.DirTree
