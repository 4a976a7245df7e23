import Edda.Git.Search
import Edda.Support.FirstHits

/-!
# The order of a code search

A search is to return the first matches in the order in which `browse_tree` lists directories: in
every directory, subdirectories before files and each group by name (`documentedMatches`). It walks
the trees in the order in which they are stored, where files and directories are mixed.
`searchTree_eq_documented` says when that makes no difference.
-/

set_option autoImplicit false

namespace Edda.Git.SearchOrder

open Edda.Support Edda.Support.FirstHits Edda.Support.RustText

/-! ## How directories are listed -/

/-- What the entries of a directory are sorted by: directories in front, then the name. -/
def browseKey (isDir : Bool) (name : String) : Bool ×ₗ String := toLex (!isDir, name)

/-- An entry as it is listed. -/
structure BrowseEntry where
  name : String
  isDir : Bool
  size : Option Nat

def browseEntry (sizeOf : ObjectId → Option Nat) (entry : TreeEntry) : BrowseEntry :=
  ⟨entry.filename, entry.mode = .tree, if entry.mode = .tree then none else sizeOf entry.oid⟩

/-- The listing of a directory (`browse_tree`, once it has the tree). -/
def browseEntries (sizeOf : ObjectId → Option Nat) (entries : List TreeEntry) : List BrowseEntry :=
  (entries.map (browseEntry sizeOf)).mergeSort fun a b =>
    browseKey a.isDir a.name ≤ browseKey b.isDir b.name

/-- The entries of a tree in the order of its listing. -/
def browseOrder (entries : List TreeEntry) : List TreeEntry :=
  entries.mergeSort fun a b =>
    browseKey (a.mode = .tree) a.filename ≤ browseKey (b.mode = .tree) b.filename

/-- A directory is listed in the browse order of its tree. -/
theorem browseEntries_eq (sizeOf : ObjectId → Option Nat) (entries : List TreeEntry) :
    browseEntries sizeOf entries = (browseOrder entries).map (browseEntry sizeOf) := by
  rw [browseEntries, browseOrder, List.map_mergeSort]
  exact fun a _ b _ => rfl

section Search

variable (gix : Gix) (diff : GixDiff) (toLowercase : List Char → List Char) (store : Store)

/-! ## What is to be found -/

/-- The entries of a tree that can be read. -/
def entriesOf (tree : ObjectId) : List TreeEntry :=
  match findTree gix store tree with
  | .ok entries => entries
  | .error _ => []

/-- The data of a file that can be read. -/
def dataOf (id : ObjectId) : Bytes :=
  match objectData gix diff store id with
  | .ok data => data
  | .error _ => []

/-- The files below a tree with their paths, directory by directory in the given order. Trees are
nested no deeper than `depth`. -/
def files (order : List TreeEntry → List TreeEntry) :
    Nat → ObjectId → String → List (String × Bytes)
  | 0, _, _ => []
  | depth + 1, tree, dir => (order (entriesOf gix store tree)).flatMap fun entry =>
      if entry.mode = .tree then files order depth entry.oid (entryPath dir entry)
      else [(entryPath dir entry, dataOf gix diff store entry.oid)]

/-- The matching lines among these; `index` is the number of lines before. -/
def matchesFrom (path : String) (query : List Char) :
    Nat → List (List Char) → List SearchMatch
  | _, [] => []
  | index, line :: rest =>
    if contains (toLowercase line) query then
      ⟨path, index + 1, String.ofList line⟩ :: matchesFrom path query (index + 1) rest
    else matchesFrom path query (index + 1) rest

/-- The matching lines of a file; a binary file has none. -/
def lineMatches (query : List Char) (file : String × Bytes) : List SearchMatch :=
  if isBinaryData file.2 then []
  else matchesFrom toLowercase file.1 query 0 (lines (fromUtf8Lossy file.2))

/-- All matches in the documented order. -/
def documentedMatches (query : List Char) (tree : ObjectId) : List SearchMatch :=
  (files gix diff store browseOrder (store.length + 1) tree "").flatMap
    (lineMatches toLowercase query)

/-- A tree that can be read whole: every entry is stored, and every subtree can be read whole. -/
inductive Whole : ObjectId → Prop
  | mk {tree : ObjectId} {entries : List TreeEntry} : findTree gix store tree = .ok entries →
      (∀ entry ∈ entries, entry.oid ∈ store) →
      (∀ entry ∈ entries, entry.mode = .tree → Whole entry.oid) → Whole tree

/-! ## The search in the order of the trees -/

/-- A match as it is reported, with the line number as 32 bits. -/
def reported (found : SearchMatch) : SearchMatch :=
  { found with lineNumber := asU32 found.lineNumber }

variable {gix diff toLowercase store}

theorem searchLines_eq (path : String) (query : List Char) (index : Nat) (rest : List (List Char))
    {found : List SearchMatch} (hfound : found.length ≤ maxSearchMatches) :
    searchLines toLowercase path query index rest found =
      (found ++ (matchesFrom toLowercase path query index rest).map reported).take
        maxSearchMatches := by
  induction rest generalizing index found with
  | nil => simp [searchLines, matchesFrom, List.take_of_length_le hfound]
  | cons line rest ih =>
    rw [searchLines, matchesFrom]
    split
    · next hfull => rw [List.take_append_of_le_length hfull, List.take_of_length_le hfound]
    · next hroom =>
      split
      · rw [ih, List.map_cons, List.append_assoc]
        · rfl
        · rw [List.length_append, List.length_singleton]
          omega
      · exact ih _ hfound

theorem searchFile_eq (path : String) (query : List Char) (data : Bytes)
    {found : List SearchMatch} (hfound : found.length ≤ maxSearchMatches) :
    searchFile toLowercase path query data found =
      (found ++ (lineMatches toLowercase query (path, data)).map reported).take
        maxSearchMatches := by
  rw [searchFile, lineMatches]
  split
  · simp [List.take_of_length_le hfound]
  · exact searchLines_eq path query 0 _ hfound

/-- A list that is cut twice. -/
theorem take_take_append {α : Type} (n : Nat) (front back : List α) :
    (front.take n ++ back).take n = (front ++ back).take n := by
  have hleft : n - (front.take n).length = n - front.length := by
    rw [List.length_take]
    omega
  rw [List.take_append, List.take_append, List.take_take, Nat.min_self, hleft]

/-- The entries of a directory are searched one after the other, if the subdirectories are. -/
theorem searchEntries_eq (query : List Char) (depth : Nat) (dir : String)
    {searchTree : ObjectId → String → List SearchMatch → Except GitError (List SearchMatch)}
    {entries : List TreeEntry} (hstored : ∀ entry ∈ entries, entry.oid ∈ store)
    (hsub : ∀ entry ∈ entries, entry.mode = .tree → ∀ found : List SearchMatch,
      found.length ≤ maxSearchMatches → searchTree entry.oid (entryPath dir entry) found =
        .ok ((found ++ ((files gix diff store id depth entry.oid (entryPath dir entry)).flatMap
          (lineMatches toLowercase query)).map reported).take maxSearchMatches))
    {found : List SearchMatch} (hfound : found.length ≤ maxSearchMatches) :
    searchEntries gix diff toLowercase store query searchTree dir entries found =
      .ok ((found ++ ((entries.flatMap fun entry =>
        if entry.mode = .tree then files gix diff store id depth entry.oid (entryPath dir entry)
        else [(entryPath dir entry, dataOf gix diff store entry.oid)]).flatMap
          (lineMatches toLowercase query)).map reported).take maxSearchMatches) := by
  induction entries generalizing found with
  | nil => simp [searchEntries, List.take_of_length_le hfound]
  | cons entry entries ih =>
    have hrest {found : List SearchMatch} (hfound : found.length ≤ maxSearchMatches) :=
      ih (fun other hother => hstored other (List.mem_cons_of_mem _ hother))
        (fun other hother => hsub other (List.mem_cons_of_mem _ hother)) hfound
    obtain ⟨data, hdata⟩ := exists_objectData gix diff (hstored entry List.mem_cons_self)
    have hread : dataOf gix diff store entry.oid = data := by
      rw [dataOf, hdata]
    have hcut (added : List SearchMatch) :
        ((found ++ added).take maxSearchMatches).length ≤ maxSearchMatches :=
      List.length_take_le _ _
    rw [searchEntries, List.flatMap_cons, List.flatMap_append, List.map_append,
      ← List.append_assoc]
    split
    · next hfull =>
      -- the bound is reached before the entry is read
      rw [List.append_assoc, List.take_append_of_le_length hfull, List.take_of_length_le hfound]
    · simp only [hdata]
      split
      · next hmode =>
        rw [hsub entry List.mem_cons_self hmode found hfound]
        simp only
        rw [hrest (hcut _), take_take_append]
      · rw [searchFile_eq _ _ _ hfound, hrest (hcut _), take_take_append, hread,
          List.flatMap_singleton]

/-- Trees nested no deeper than `depth`, all of whose entries can be read. -/
def Laid (gix : Gix) (store : Store) : Nat → ObjectId → Prop
  | 0, _ => False
  | depth + 1, tree => ∃ entries, findTree gix store tree = .ok entries ∧
      (∀ entry ∈ entries, entry.oid ∈ store) ∧
        ∀ entry ∈ entries, entry.mode = .tree → Laid gix store depth entry.oid

/-- The search of a tree adds the matches of its files in the order of the trees, up to the bound. -/
theorem searchWalk_eq (query : List Char) (depth : Nat) (tree : ObjectId) (dir : String)
    (hlaid : Laid gix store depth tree) {found : List SearchMatch}
    (hfound : found.length ≤ maxSearchMatches) :
    searchWalk gix diff toLowercase store query depth tree dir found =
      .ok ((found ++ ((files gix diff store id depth tree dir).flatMap
        (lineMatches toLowercase query)).map reported).take maxSearchMatches) := by
  induction depth generalizing tree dir found with
  | zero => exact hlaid.elim
  | succ depth ih =>
    obtain ⟨entries, hentries, hstored, hsub⟩ := hlaid
    have hread : entriesOf gix store tree = entries := by
      rw [entriesOf, hentries]
    rw [searchWalk, hentries, files, id, hread]
    exact searchEntries_eq query depth dir hstored
      (fun entry hentry hmode found hfound => ih _ _ (hsub entry hentry hmode) hfound) hfound

/-! ## How deep trees are nested -/

/-- One tree is a subtree of the other. -/
def Subtree (gix : Gix) (store : Store) (tree sub : ObjectId) : Prop :=
  ∃ entries, findTree gix store tree = .ok entries ∧
    ∃ entry ∈ entries, entry.mode = .tree ∧ entry.oid = sub

/-- A tree that can be read whole is not below itself. -/
theorem Whole.irrefl {tree : ObjectId} (h : Whole gix store tree) :
    ¬ Relation.TransGen (Subtree gix store) tree tree := by
  induction h with
  | @mk tree entries hentries _ _ ih =>
    intro hself
    obtain ⟨sub, ⟨entries', hentries', entry, hentry, hmode, rfl⟩, hback⟩ :=
      Relation.TransGen.head'_iff.1 hself
    obtain rfl := Except.ok.inj (hentries.symm.trans hentries')
    -- the way back leads from the subtree to itself
    apply ih entry hentry hmode
    exact Relation.TransGen.tail' hback ⟨_, hentries, entry, hentry, hmode, rfl⟩

theorem Whole.mem {tree : ObjectId} (h : Whole gix store tree) : tree ∈ store := by
  cases h with
  | mk hentries =>
    by_contra hmem
    simp [findTree, findObject_of_not_mem gix.content hmem] at hentries

/-- Trees are nested no deeper than the store has objects beside those above. -/
theorem Whole.laid {tree : ObjectId} (h : Whole gix store tree) {depth : Nat}
    {above : List ObjectId} (hnodup : above.Nodup) (hstored : ∀ id ∈ above, id ∈ store)
    (habove : ∀ id ∈ above, Relation.TransGen (Subtree gix store) id tree)
    (hdepth : store.length < depth + above.length) : Laid gix store depth tree := by
  induction h generalizing depth above with
  | @mk tree entries hentries hmem hsub ih =>
    have hwhole : Whole gix store tree := .mk hentries hmem hsub
    have hnodup' : (tree :: above).Nodup :=
      List.nodup_cons.2 ⟨fun hin => hwhole.irrefl (habove tree hin), hnodup⟩
    have hstored' : ∀ id ∈ tree :: above, id ∈ store :=
      List.forall_mem_cons.2 ⟨hwhole.mem, hstored⟩
    cases depth with
    | zero =>
      -- the trees above and this one are distinct objects of the store
      have := (List.subperm_of_subset hnodup' hstored').length_le
      rw [List.length_cons] at this
      omega
    | succ depth =>
      refine ⟨entries, hentries, hmem, fun entry hentry hmode => ?_⟩
      have hstep : Subtree gix store tree entry.oid :=
        ⟨entries, hentries, entry, hentry, hmode, rfl⟩
      apply ih entry hentry hmode hnodup' hstored'
      · intro id hid
        rcases List.mem_cons.1 hid with rfl | hid
        · exact .single hstep
        · exact (habove id hid).tail hstep
      · rw [List.length_cons]
        omega

/-! ## Where files stand in the listings -/

/-- The place of an entry in the listing of its directory: what it is sorted by, and where it stands
in the tree, which the sort keeps among equals. -/
abbrev Place := (Bool ×ₗ String) ×ₗ Nat

def placeOf (numbered : TreeEntry × Nat) : Place :=
  toLex (browseKey (numbered.1.mode = .tree) numbered.1.filename, numbered.2)

/-- A file with its places from the root down. -/
structure PlacedFile where
  place : List Place
  file : String × Bytes

/-- The file, seen from the directory above. -/
def PlacedFile.under (place : Place) (file : PlacedFile) : PlacedFile :=
  { file with place := place :: file.place }

/-- The files below a tree with their places. -/
def placedFiles (gix : Gix) (diff : GixDiff) (store : Store)
    (order : List (TreeEntry × Nat) → List (TreeEntry × Nat)) :
    Nat → ObjectId → String → List PlacedFile
  | 0, _, _ => []
  | depth + 1, tree, dir =>
    (order (entriesOf gix store tree).zipIdx).flatMap fun numbered =>
      if numbered.1.mode = .tree then
        (placedFiles gix diff store order depth numbered.1.oid (entryPath dir numbered.1)).map
          (PlacedFile.under (placeOf numbered))
      else [⟨[placeOf numbered], entryPath dir numbered.1,
        dataOf gix diff store numbered.1.oid⟩]

theorem place_of_mem {order : List (TreeEntry × Nat) → List (TreeEntry × Nat)} {depth : Nat}
    {numbered : TreeEntry × Nat} {dir : String} {file : PlacedFile}
    (h : file ∈ if numbered.1.mode = .tree then
        (placedFiles gix diff store order depth numbered.1.oid (entryPath dir numbered.1)).map
          (PlacedFile.under (placeOf numbered))
      else [⟨[placeOf numbered], entryPath dir numbered.1,
        dataOf gix diff store numbered.1.oid⟩]) :
    ∃ rest, file.place = placeOf numbered :: rest := by
  split at h
  · obtain ⟨inner, -, rfl⟩ := List.mem_map.1 h
    exact ⟨inner.place, rfl⟩
  · obtain rfl := List.mem_singleton.1 h
    exact ⟨[], rfl⟩

/-- The files are those without places. -/
theorem map_placedFiles {numbering : List (TreeEntry × Nat) → List (TreeEntry × Nat)}
    {order : List TreeEntry → List TreeEntry}
    (horder : ∀ entries : List TreeEntry, (numbering entries.zipIdx).map Prod.fst = order entries)
    (depth : Nat) (tree : ObjectId) (dir : String) :
    (placedFiles gix diff store numbering depth tree dir).map PlacedFile.file =
      files gix diff store order depth tree dir := by
  induction depth generalizing tree dir with
  | zero => rfl
  | succ depth ih =>
    rw [placedFiles, files, ← horder, List.map_flatMap, List.flatMap_map]
    apply List.flatMap_congr
    intro numbered _
    split
    · rw [List.map_map, ← ih]
      rfl
    · rfl

/-- The files are the same in every order. -/
theorem placedFiles_perm {numbering : List (TreeEntry × Nat) → List (TreeEntry × Nat)}
    (hperm : ∀ entries, (numbering entries).Perm entries) (depth : Nat) (tree : ObjectId)
    (dir : String) :
    (placedFiles gix diff store numbering depth tree dir).Perm
      (placedFiles gix diff store id depth tree dir) := by
  induction depth generalizing tree dir with
  | zero => exact List.Perm.refl _
  | succ depth ih =>
    rw [placedFiles, placedFiles]
    refine List.Perm.flatMap (hperm _) fun numbered _ => ?_
    split
    · exact (ih _ _).map _
    · exact List.Perm.refl _

/-- The numbered entries of a tree in the order of its listing. -/
def browseNumbered (numbered : List (TreeEntry × Nat)) : List (TreeEntry × Nat) :=
  numbered.mergeSort (List.zipIdxLE fun a b : TreeEntry =>
    browseKey (a.mode = .tree) a.filename ≤ browseKey (b.mode = .tree) b.filename)

theorem browseNumbered_fst (entries : List TreeEntry) :
    (browseNumbered entries.zipIdx).map Prod.fst = browseOrder entries :=
  List.mergeSort_zipIdx

theorem zipIdxLE_iff {a b : TreeEntry × Nat} :
    List.zipIdxLE (fun a b : TreeEntry =>
      decide (browseKey (a.mode = .tree) a.filename ≤ browseKey (b.mode = .tree) b.filename)) a b =
        true ↔ placeOf a ≤ placeOf b := by
  rw [List.zipIdxLE, placeOf, placeOf, Prod.Lex.toLex_le_toLex]
  simp only [decide_eq_true_eq]
  rcases lt_trichotomy (browseKey (a.1.mode = .tree) a.1.filename)
    (browseKey (b.1.mode = .tree) b.1.filename) with hlt | heq | hgt
  · simp [hlt, hlt.le, not_le.2 hlt]
  · simp [heq]
  · simp [not_le.2 hgt, not_lt.2 hgt.le, hgt.ne']

/-- A listing is strictly sorted by the places. -/
theorem pairwise_browseNumbered (entries : List TreeEntry) :
    (browseNumbered entries.zipIdx).Pairwise fun a b => placeOf a < placeOf b := by
  have hle : (browseNumbered entries.zipIdx).Pairwise fun a b => placeOf a ≤ placeOf b := by
    refine (List.pairwise_mergeSort ?_ ?_ entries.zipIdx).imp zipIdxLE_iff.1
    · intro a b c hab hbc
      exact zipIdxLE_iff.2 ((zipIdxLE_iff.1 hab).trans (zipIdxLE_iff.1 hbc))
    · intro a b
      rw [Bool.or_eq_true, zipIdxLE_iff, zipIdxLE_iff]
      exact le_total _ _
  -- no two entries have the same number
  have hne : ((browseNumbered entries.zipIdx).map Prod.snd).Nodup :=
    ((List.mergeSort_perm _ _).map _).nodup_iff.2 (List.nodup_zipIdx_map_snd entries)
  refine (hle.and (List.pairwise_map.1 hne)).imp ?_
  rintro a b ⟨hab, hdistinct⟩
  refine lt_of_le_of_ne hab fun heq => hdistinct ?_
  exact congrArg (fun place : Place => (ofLex place).2) heq

theorem pairwise_placedFiles (depth : Nat) (tree : ObjectId) (dir : String) :
    (placedFiles gix diff store browseNumbered depth tree dir).Pairwise
      fun a b => a.place < b.place := by
  induction depth generalizing tree dir with
  | zero => exact List.Pairwise.nil
  | succ depth ih =>
    rw [placedFiles, List.pairwise_flatMap]
    constructor
    · intro numbered _
      split
      · rw [List.pairwise_map]
        refine (ih _ _).imp ?_
        intro a b hlt
        exact List.cons_lt_cons_iff.2 (.inr ⟨rfl, hlt⟩)
      · exact List.pairwise_singleton _ _
    · refine (pairwise_browseNumbered _).imp ?_
      intro a b hlt x hx y hy
      obtain ⟨rest, hrest⟩ := place_of_mem hx
      obtain ⟨rest', hrest'⟩ := place_of_mem hy
      rw [hrest, hrest']
      exact List.cons_lt_cons_iff.2 (.inl hlt)

/-! ## When the order makes no difference -/

/-- The files below a tree, with their places, in the order in which they are stored. -/
def storedFiles (gix : Gix) (diff : GixDiff) (store : Store) (tree : ObjectId) : List PlacedFile :=
  placedFiles gix diff store id (store.length + 1) tree ""

/-- The matching lines of a file with its places. -/
def placedMatches (toLowercase : List Char → List Char) (query : List Char) (file : PlacedFile) :
    List SearchMatch :=
  lineMatches toLowercase query file.file

/-- Where a file with matches is stored before one that the listings put first, the search is at its
bound before both; and no line that is found has a number of more than 32 bits. -/
structure InOrder (gix : Gix) (diff : GixDiff) (toLowercase : List Char → List Char) (store : Store)
    (query : List Char) (tree : ObjectId) : Prop where
  settled : Settled PlacedFile.place (placedMatches toLowercase query) maxSearchMatches
    (storedFiles gix diff store tree)
  numbered : ∀ found ∈ ((storedFiles gix diff store tree).flatMap
    (placedMatches toLowercase query)).take maxSearchMatches, found.lineNumber < 2 ^ 32

theorem reported_eq_iff {found : SearchMatch} : reported found = found ↔
    found.lineNumber < 2 ^ 32 := by
  cases found with
  | mk path lineNumber line =>
    simp only [reported, asU32, SearchMatch.mk.injEq, true_and, and_true]
    constructor
    · intro h
      rw [← h]
      exact Nat.mod_lt _ (by decide)
    · exact Nat.mod_eq_of_lt

theorem path_of_mem_matchesFrom {path : String} {query : List Char} {index : Nat}
    {rest : List (List Char)} {found : SearchMatch}
    (h : found ∈ matchesFrom toLowercase path query index rest) : found.path = path := by
  induction rest generalizing index with
  | nil => exact absurd h List.not_mem_nil
  | cons line rest ih =>
    rw [matchesFrom] at h
    split at h
    · rcases List.mem_cons.1 h with rfl | h
      · rfl
      · exact ih h
    · exact ih h

/-- A match has the path of its file. -/
theorem path_of_mem_placedMatches {query : List Char} {file : PlacedFile} {found : SearchMatch}
    (h : found ∈ placedMatches toLowercase query file) : found.path = file.file.1 := by
  rw [placedMatches, lineMatches] at h
  split at h
  · exact absurd h List.not_mem_nil
  · exact path_of_mem_matchesFrom h

/-- The documented matches are those of the placed files in the order of the listings. -/
theorem documentedMatches_eq (query : List Char) (tree : ObjectId) :
    documentedMatches gix diff toLowercase store query tree =
      (placedFiles gix diff store browseNumbered (store.length + 1) tree "").flatMap
        (placedMatches toLowercase query) := by
  rw [documentedMatches, ← map_placedFiles browseNumbered_fst, List.flatMap_map]
  rfl

/-- A whole tree is searched in the order in which it is stored. -/
theorem searchTree_eq {state : Repo} {branch : Option String} {commit tree : ObjectId}
    (hcommit : openAndResolve gix state branch = .ok commit)
    (htree : treeOfCommit gix (state.objects gix) commit = .ok tree)
    (hwhole : Whole gix (state.objects gix) tree) (query : String) :
    searchTree gix diff toLowercase state branch query =
      .ok (((storedFiles gix diff (state.objects gix) tree).flatMap
        (placedMatches toLowercase (toLowercase query.toList))).map reported |>.take
          maxSearchMatches) := by
  have hlaid : Laid gix (state.objects gix) ((state.objects gix).length + 1) tree :=
    hwhole.laid List.nodup_nil (fun _ h => absurd h List.not_mem_nil)
      (fun _ h => absurd h List.not_mem_nil) (by simp)
  have hfiles : (storedFiles gix diff (state.objects gix) tree).map PlacedFile.file =
      files gix diff (state.objects gix) id ((state.objects gix).length + 1) tree "" :=
    map_placedFiles (fun entries => List.zipIdx_map_fst 0 entries) _ _ _
  simp only [searchTree, hcommit, htree]
  rw [searchWalk_eq _ _ _ _ hlaid (Nat.zero_le _), ← hfiles, List.flatMap_map, List.nil_append]
  rfl

/-- A whole tree is searched. Where the order makes no difference, the search returns the first
matches in the documented order; and if no two files have the same path, it does so only there. -/
theorem searchTree_eq_documented (gix : Gix) (diff : GixDiff)
    (toLowercase : List Char → List Char) (state : Repo) (branch : Option String)
    (commit tree : ObjectId) (hcommit : openAndResolve gix state branch = .ok commit)
    (htree : treeOfCommit gix (state.objects gix) commit = .ok tree)
    (hwhole : Whole gix (state.objects gix) tree) (query : String) :
    ∃ result, searchTree gix diff toLowercase state branch query = .ok result ∧
      (InOrder gix diff toLowercase (state.objects gix) (toLowercase query.toList) tree →
        result = (documentedMatches gix diff toLowercase (state.objects gix)
          (toLowercase query.toList) tree).take maxSearchMatches) ∧
      (((storedFiles gix diff (state.objects gix) tree).map fun file => file.file.1).Nodup →
        result = (documentedMatches gix diff toLowercase (state.objects gix)
          (toLowercase query.toList) tree).take maxSearchMatches →
        InOrder gix diff toLowercase (state.objects gix) (toLowercase query.toList) tree) := by
  refine ⟨_, searchTree_eq hcommit htree hwhole query, ?_⟩
  have hperm : (placedFiles gix diff (state.objects gix) browseNumbered
      ((state.objects gix).length + 1) tree "").Perm (storedFiles gix diff (state.objects gix) tree) :=
    placedFiles_perm (fun entries => List.mergeSort_perm entries _) _ _ _
  have hsorted := @pairwise_placedFiles gix diff (state.objects gix)
    ((state.objects gix).length + 1) tree ""
  rw [documentedMatches_eq]
  constructor
  · intro h
    rw [← take_flatMap_eq h.settled hperm hsorted, ← List.map_take]
    have hsame := List.map_congr_left fun found hfound =>
      reported_eq_iff.2 (h.numbered found hfound)
    rw [hsame, List.map_id']
  · intro hpaths h
    have hlabel : ∀ file ∈ storedFiles gix diff (state.objects gix) tree,
        ∀ found ∈ placedMatches toLowercase (toLowercase query.toList) file,
          found.path = file.file.1 :=
      fun _ _ _ hfound => path_of_mem_placedMatches hfound
    have hreport (found : SearchMatch) : (reported found).path = found.path := rfl
    have hfixed := fixed_of_take_map_eq hlabel hreport hpaths hperm h
    refine ⟨?_, fun found hfound => reported_eq_iff.1 (hfixed found hfound)⟩
    apply settled_of_take_eq hperm hsorted
    · intro f hf g hg found hfound hfound'
      refine List.inj_on_of_nodup_map hpaths hf hg ?_
      rw [← path_of_mem_placedMatches hfound, path_of_mem_placedMatches hfound']
    · rw [← h, ← List.map_take, List.map_congr_left hfixed, List.map_id']

end Search

/-! ## A file before a directory -/

/-- A commit of a tree with the file `a` and the directory `b`, with the file `x` in it. Both files
hold the line `hit`. -/
def mixedGix : Gix where
  content := fun id =>
    if id = 1 then plainCommit 2 []
    else if id = 2 then .tree (some [⟨.blob, "a", 4⟩, ⟨.tree, "b", 3⟩])
    else if id = 3 then .tree (some [⟨.blob, "x", 4⟩])
    else .blob (utf8 "hit")
  packObjects := fun _ => []
  writeToDirectory := fun _ _ => .error "bad header"
  validateRefName := fun _ => none
  debug := fun text => "\"" ++ text ++ "\""
  transactionError := fun _ _ => "the reference has moved"
  ioError := "input/output error"

def mixedDiff : GixDiff where
  diffTreeToTree := fun _ _ _ => .ok []
  mergeBase := fun _ _ _ => none
  histogramHunks := fun _ _ => []
  rawData := fun _ => []

def mixedRepo : Repo where
  disk := ⟨[1, 2, 3, 4], [], []⟩
  refs := (∅ : RefStore).insert "refs/heads/main" (.object 1)

/-- The lower case of texts in the letters of ASCII. -/
def lowerAscii (text : List Char) : List Char := text.map Char.toLower

theorem mixed_whole : Whole mixedGix [1, 2, 3, 4] 2 := by
  refine @Whole.mk _ _ 2 [⟨.blob, "a", 4⟩, ⟨.tree, "b", 3⟩] (by decide +kernel) (by decide) ?_
  intro entry hentry hmode
  have hsub : entry = ⟨.tree, "b", 3⟩ := by
    rcases List.mem_cons.1 hentry with rfl | hentry
    · cases hmode
    · exact List.mem_singleton.1 hentry
  rw [hsub]
  refine @Whole.mk _ _ 3 [⟨.blob, "x", 4⟩] (by decide +kernel) (by decide) ?_
  intro entry hentry hmode
  obtain rfl := List.mem_singleton.1 hentry
  cases hmode

/-- The tree with a file and a directory is searched. -/
theorem searchTree_eq_documented_mixed :
    ∃ result, searchTree mixedGix mixedDiff lowerAscii mixedRepo (some "main") "hit" = .ok result ∧
      (InOrder mixedGix mixedDiff lowerAscii (mixedRepo.objects mixedGix)
          (lowerAscii "hit".toList) 2 →
        result = (documentedMatches mixedGix mixedDiff lowerAscii (mixedRepo.objects mixedGix)
          (lowerAscii "hit".toList) 2).take maxSearchMatches) ∧
      (((storedFiles mixedGix mixedDiff (mixedRepo.objects mixedGix) 2).map
          fun file => file.file.1).Nodup →
        result = (documentedMatches mixedGix mixedDiff lowerAscii (mixedRepo.objects mixedGix)
          (lowerAscii "hit".toList) 2).take maxSearchMatches →
        InOrder mixedGix mixedDiff lowerAscii (mixedRepo.objects mixedGix)
          (lowerAscii "hit".toList) 2) :=
  searchTree_eq_documented mixedGix mixedDiff lowerAscii mixedRepo (some "main") 1 2
    (by decide +kernel) (by decide +kernel) mixed_whole "hit"

/-- The directory is listed in front of the file. -/
theorem browseOrder_mixed : browseOrder [⟨.blob, "a", 4⟩, ⟨.tree, "b", 3⟩] =
    [⟨.tree, "b", 3⟩, ⟨.blob, "a", 4⟩] := by
  have hafter : ¬ browseKey false "a" ≤ browseKey true "b" := by
    rw [browseKey, browseKey, Prod.Lex.toLex_le_toLex]
    simp
  simp [browseOrder, List.mergeSort, hafter]

/-- The file `a` is searched before the directory `b`, which the listing puts first. -/
theorem file_searched_before_directory :
    searchTree mixedGix mixedDiff lowerAscii mixedRepo (some "main") "hit" =
        .ok [⟨"a", 1, "hit"⟩, ⟨"b/x", 1, "hit"⟩] ∧
      (documentedMatches mixedGix mixedDiff lowerAscii (mixedRepo.objects mixedGix)
        (lowerAscii "hit".toList) 2).take maxSearchMatches =
          [⟨"b/x", 1, "hit"⟩, ⟨"a", 1, "hit"⟩] := by
  refine ⟨by decide +kernel, ?_⟩
  have hone : browseOrder [⟨.blob, "x", 4⟩] = [⟨.blob, "x", 4⟩] := List.mergeSort_singleton _
  have hroot : entriesOf mixedGix [1, 2, 3, 4] 2 = [⟨.blob, "a", 4⟩, ⟨.tree, "b", 3⟩] := by
    decide +kernel
  have hsub : entriesOf mixedGix [1, 2, 3, 4] 3 = [⟨.blob, "x", 4⟩] := by
    decide +kernel
  have hfiles : files mixedGix mixedDiff [1, 2, 3, 4] browseOrder 5 2 "" =
      [("b/x", utf8 "hit"), ("a", utf8 "hit")] := by
    rw [files, hroot, browseOrder_mixed]
    simp only [List.flatMap_cons, if_true, files, hsub, hone]
    decide +kernel
  have hstore : mixedRepo.objects mixedGix = [1, 2, 3, 4] := by decide +kernel
  rw [documentedMatches, hstore]
  rw [show [(1 : ObjectId), 2, 3, 4].length + 1 = 5 from rfl, hfiles]
  decide +kernel

end Edda.Git.SearchOrder
