import Edda.Git.Diff

/-!
# Code search

A search reads every file of a branch's tree, in the order of the trees, and collects the lines
that hold the query, up to a fixed number of matches.
-/

set_option autoImplicit false

namespace Edda.Git

open Edda.Support.RustText

structure SearchMatch where
  path : String
  lineNumber : Nat
  line : String
  deriving DecidableEq, Repr

def maxSearchMatches : Nat := 200

section Search

variable (gix : Gix) (diff : GixDiff) (toLowercase : List Char → List Char)

/-- Adds the lines of one file that hold the query; `index` is the number of lines before. -/
def searchLines (path : String) (query : List Char) :
    Nat → List (List Char) → List SearchMatch → List SearchMatch
  | _, [], found => found
  | index, line :: rest, found =>
    if maxSearchMatches ≤ found.length then found
    else if contains (toLowercase line) query then
      searchLines path query (index + 1) rest
        (found ++ [⟨path, asU32 (index + 1), String.ofList line⟩])
    else searchLines path query (index + 1) rest found

/-- Adds the matches of one file. -/
def searchFile (path : String) (query : List Char) (data : Bytes) (found : List SearchMatch) :
    List SearchMatch :=
  if isBinaryData data then found
  else searchLines toLowercase path query 0 (lines (fromUtf8Lossy data)) found

/-- The path of an entry of the directory `dir`. -/
def entryPath (dir : String) (entry : TreeEntry) : String :=
  if dir.isEmpty then entry.filename else dir ++ "/" ++ entry.filename

/-- Searches the entries of one directory, and its subdirectories with `searchTree`. -/
def searchEntries (store : Store) (query : List Char)
    (searchTree : ObjectId → String → List SearchMatch → Except GitError (List SearchMatch))
    (dir : String) : List TreeEntry → List SearchMatch → Except GitError (List SearchMatch)
  | [], found => .ok found
  | entry :: entries, found =>
    if maxSearchMatches ≤ found.length then .ok found
    -- every entry is read, whatever its mode
    else match objectData gix diff store entry.oid with
      | .error err => .error err
      | .ok data =>
        if entry.mode = .tree then match searchTree entry.oid (entryPath dir entry) found with
          | .error err => .error err
          | .ok found => searchEntries store query searchTree dir entries found
        else searchEntries store query searchTree dir entries
          (searchFile toLowercase (entryPath dir entry) query data found)

/-- `walk`: searches a tree. A tree does not contain itself, so that trees are nested no deeper
than the store is large. -/
def searchWalk (store : Store) (query : List Char) :
    Nat → ObjectId → String → List SearchMatch → Except GitError (List SearchMatch)
  | 0, _, _, _ => .error (.git "stack overflow")
  | depth + 1, tree, dir, found => match findTree gix store tree with
    | .error err => .error err
    | .ok entries => searchEntries gix diff toLowercase store query
        (searchWalk store query depth) dir entries found

/-- Searches the files of a branch, or of the default branch. -/
def searchTree (state : Repo) (branch : Option String) (query : String) :
    Except GitError (List SearchMatch) :=
  let store := state.objects gix
  match openAndResolve gix state branch with
  | .error err => .error err
  | .ok commit => match treeOfCommit gix store commit with
    | .error err => .error err
    | .ok tree => searchWalk gix diff toLowercase store (toLowercase query.toList)
        (store.length + 1) tree "" []

/-- The entries of a directory are searched where all of them are stored and every subdirectory is
searched. -/
theorem exists_searchEntries {store : Store} {query : List Char}
    {searchTree : ObjectId → String → List SearchMatch → Except GitError (List SearchMatch)}
    {dir : String} {entries : List TreeEntry} (hstored : ∀ entry ∈ entries, entry.oid ∈ store)
    (htrees : ∀ entry ∈ entries, entry.mode = .tree →
      ∀ path found, ∃ result, searchTree entry.oid path found = .ok result)
    (found : List SearchMatch) :
    ∃ result, searchEntries gix diff toLowercase store query searchTree dir entries found =
      .ok result := by
  induction entries generalizing found with
  | nil => exact ⟨found, rfl⟩
  | cons entry entries ih =>
    have ih' := ih (fun other hother => hstored other (List.mem_cons_of_mem _ hother))
      fun other hother => htrees other (List.mem_cons_of_mem _ hother)
    obtain ⟨data, hdata⟩ := exists_objectData gix diff (hstored entry (by simp))
    simp only [searchEntries, hdata]
    split
    · exact ⟨found, rfl⟩
    · split
      · rename_i hmode
        obtain ⟨inner, hinner⟩ := htrees entry (by simp) hmode (entryPath dir entry) found
        simp only [hinner]
        exact ih' inner
      · exact ih' _

end Search

end Edda.Git
