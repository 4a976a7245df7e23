import Edda.Support.RustText
import Edda.Support.TreeArchive

/-!
# Dumping and restoring an instance

`dump` puts a snapshot of the database and the files of the data directory into one archive, and
`restore` lays such an archive down in a data directory. The directory is read with a stack of the
directories still to be read; the live files of the database are passed over, since the snapshot
stands for them.

`dump_restores` says when an archive that was dumped is restored, and what is there afterwards.
-/

set_option autoImplicit false

namespace Edda.Cli.DumpRestore

open Edda.Support.FileTree Edda.Support.RustText

inductive Backend where
  | postgres
  | sqlite
  | mySql
  deriving DecidableEq, Repr

def dbBasename : String := "edda.db"

/-- The database in the data directory and the files beside it. They change while they are read. -/
def isLive (name : String) : Bool :=
  name = dbBasename || (dbBasename ++ "-").toList.isPrefixOf name.toList

/-- Reads one directory: archives its files and pushes its directories. -/
def visit (dir : List String) : Listing String Bytes →
    List (List String × Listing String Bytes) → Archive String Bytes →
      List (List String × Listing String Bytes) × Archive String Bytes
  | .nil, stack, out => (stack, out)
  | .file name content rest, stack, out =>
    if dir = [] ∧ isLive name then visit dir rest stack out
    else visit dir rest stack (out ++ [("data" :: (dir ++ [name]), .file content)])
  -- a link to a directory is archived as what it leads to, without the entries
  | .symlink name rest, stack, out =>
    if dir = [] ∧ isLive name then visit dir rest stack out
    else visit dir rest stack (out ++ [("data" :: (dir ++ [name]), .dir)])
  | .dir name entries rest, stack, out =>
    if dir = [] ∧ isLive name then visit dir rest stack out
    else visit dir rest ((dir ++ [name], entries) :: stack) out

/-- `append_data_dir`, reading at most `fuel` directories. -/
def appendDataDir : Nat → List (List String × Listing String Bytes) → Archive String Bytes →
    Archive String Bytes
  | 0, _, out => out
  | _ + 1, [], out => out
  | fuel + 1, (dir, entries) :: stack, out =>
    let (stack, out) := visit dir entries stack out
    appendDataDir fuel stack out

/-- The archive of an instance. `taken` says which paths there are, and `snapshot` is what
`VACUUM INTO` gives. -/
def dump (backend : Backend) (snapshot : Except String Bytes) (dataDir : Listing String Bytes)
    (taken : String → Bool) (now : Int) (out : Option String) :
    Except String (Archive String Bytes) :=
  if backend ≠ .sqlite then
    .error ("dump supports the SQLite backend only — use pg_dump / mysqldump for " ++
      "PostgreSQL / MySQL (the data/ tree can still be tar'd separately)")
  else
    let out := out.getD ("edda-dump-" ++ toString now ++ ".tar.gz")
    if taken out then .error (out ++ " already exists")
    else match snapshot with
      | .error err => .error ("VACUUM INTO failed: " ++ err)
      | .ok db => .ok (appendDataDir (dataDir.dirCount + 1) [([], dataDir)]
          [([dbBasename], .file db)])

/-- Where an entry of an archive belongs in the data directory. -/
def destOf : List String → Option (List String)
  | [] => none
  | first :: rel =>
    if first :: rel = [dbBasename] then some [dbBasename]
    else if first = "data" then some rel
    else none

/-- The database or anything else is in the data directory. -/
def populated (target : Tree String Bytes) : Bool :=
  (target.get [dbBasename]).isSome || !target.isEmpty

section Restore

variable (display : String) (errorText : IoError → String)

/-- The entries of an archive one after the other. -/
def restoreEntries : Tree String Bytes → Bool → Archive String Bytes →
    Tree String Bytes × Except String Unit
  | target, restoredDb, [] =>
    if restoredDb then (target, .ok ())
    else (target, .error "the archive contained no edda.db entry — is it an edda dump?")
  | target, restoredDb, (path, node) :: archive => match destOf path with
    -- written nowhere rather than outside the data directory
    | none => restoreEntries target restoredDb archive
    | some dest => match target.unpackEntry dest node with
      | (target, some err) => (target, .error (errorText err))
      | (target, none) =>
        restoreEntries target (restoredDb || decide (path = [dbBasename])) archive

/-- The data directory after a restore, and how the restore ended. -/
def restore (target : Tree String Bytes) (archive : Archive String Bytes) (force : Bool) :
    Tree String Bytes × Except String Unit :=
  if populated target && !force then
    (target, .error (display ++ " is not empty — pass --force to overwrite"))
  else restoreEntries errorText target false archive

end Restore

/-- What a dump keeps of an instance: the snapshot in the place of the database, and the files of
the data directory with the directories above them. -/
def image (db : Bytes) (dataDir : Listing String Bytes) (path : List String) :
    Option (Node Bytes) :=
  if path = [] then some .dir
  else if path = [dbBasename] then some (.file db)
  else (dataDir.keep fun name => !isLive name).image path

/-! ## What is archived -/

/-- The entries of a directory that are not passed over. -/
def keepAt (dir : List String) (entries : Listing String Bytes) : Listing String Bytes :=
  if dir = [] then entries.keep fun name => !isLive name else entries

/-- An entry as it is archived. -/
def inData (entry : List String × Node Bytes) : List String × Node Bytes :=
  ("data" :: entry.1, entry.2)

theorem visit_eq (dir : List String) (entries : Listing String Bytes)
    (stack : List (List String × Listing String Bytes)) (out : Archive String Bytes) :
    visit dir entries stack out = (((keepAt dir entries).subdirs dir).reverse ++ stack,
      out ++ ((keepAt dir entries).here dir).map inData) := by
  induction entries generalizing stack out with
  | nil => simp [visit, keepAt, Listing.keep, Listing.subdirs, Listing.here]
  | file name content rest ih =>
    by_cases hdir : dir = [] <;> cases hlive : isLive name <;>
      simp_all [visit, keepAt, Listing.keep, Listing.subdirs, Listing.here, inData]
  | symlink name rest ih =>
    by_cases hdir : dir = [] <;> cases hlive : isLive name <;>
      simp_all [visit, keepAt, Listing.keep, Listing.subdirs, Listing.here, inData]
  | dir name entries rest _ ih =>
    by_cases hdir : dir = [] <;> cases hlive : isLive name <;>
      simp_all [visit, keepAt, Listing.keep, Listing.subdirs, Listing.here]

theorem fst_of_mem_subdirs {dir : List String} {entries : Listing String Bytes}
    {sub : List String × Listing String Bytes} (h : sub ∈ entries.subdirs dir) : sub.1 ≠ [] := by
  induction entries with
  | nil => cases h
  | file name content rest ih => exact ih h
  | symlink name rest ih => exact ih h
  | dir name entries rest _ ih =>
    rcases List.mem_cons.1 h with rfl | h
    · simp
    · exact ih h

/-- The loop walks over the directories without what is passed over. -/
theorem appendDataDir_eq (fuel : Nat) (stack : List (List String × Listing String Bytes))
    (out : Archive String Bytes) : appendDataDir fuel stack out =
      out ++ (walk fuel (stack.map fun dir => (dir.1, keepAt dir.1 dir.2))).map inData := by
  induction fuel generalizing stack out with
  | zero => simp [appendDataDir, walk]
  | succ fuel ih =>
    cases stack with
    | nil => simp [appendDataDir, walk]
    | cons top stack =>
      obtain ⟨dir, entries⟩ := top
      -- only the data directory itself is cut
      have hsubdirs : ((keepAt dir entries).subdirs dir).reverse.map
          (fun dir => (dir.1, keepAt dir.1 dir.2)) = ((keepAt dir entries).subdirs dir).reverse := by
        refine (List.map_congr_left fun sub hmem => ?_).trans (List.map_id _)
        have hne := fst_of_mem_subdirs (List.mem_reverse.1 hmem)
        rw [keepAt, if_neg hne]
        rfl
      simp only [appendDataDir, visit_eq, ih, List.map_append, hsubdirs, List.map_cons, walk,
        List.append_assoc]

/-- The leaves of the data directory that a dump keeps, in the order of the walk. -/
def kept (dataDir : Listing String Bytes) : Archive String Bytes :=
  walk (dataDir.dirCount + 1) [([], dataDir.keep fun name => !isLive name)]

theorem dump_eq {db : Bytes} {dataDir : Listing String Bytes} {taken : String → Bool} {now : Int}
    {out : Option String}
    (hout : taken (out.getD ("edda-dump-" ++ toString now ++ ".tar.gz")) = false) :
    dump .sqlite (.ok db) dataDir taken now out =
      .ok (([dbBasename], .file db) :: (kept dataDir).map inData) := by
  have harchive := appendDataDir_eq (dataDir.dirCount + 1) [([], dataDir)]
    [([dbBasename], .file db)]
  simp only [dump, hout, ne_eq, not_true_eq_false, if_false, Bool.false_eq_true, harchive]
  rfl

theorem dump_eq_ok {db : Bytes} {dataDir : Listing String Bytes} {taken : String → Bool}
    {now : Int} {out : Option String} {archive : Archive String Bytes}
    (h : dump .sqlite (.ok db) dataDir taken now out = .ok archive) :
    taken (out.getD ("edda-dump-" ++ toString now ++ ".tar.gz")) = false ∧
      archive = ([dbBasename], .file db) :: (kept dataDir).map inData := by
  cases hout : taken (out.getD ("edda-dump-" ++ toString now ++ ".tar.gz")) with
  | true =>
    simp only [dump, ne_eq, not_true_eq_false, if_false, hout, if_true] at h
    cases h
  | false =>
    rw [dump_eq hout] at h
    exact ⟨rfl, (Except.ok.inj h).symm⟩

theorem kept_perm (dataDir : Listing String Bytes) :
    (kept dataDir).Perm ((dataDir.keep fun name => !isLive name).leaves []) := by
  have hcost := Listing.dirCount_keep_le (fun name => !isLive name) dataDir
  have hwalk := walk_perm (dataDir.dirCount + 1)
    [([], dataDir.keep fun name => !isLive name)] (by simpa [toRead] using hcost)
  simpa [kept] using hwalk

/-- The entries of a dump, by where they belong. -/
def dumped (db : Bytes) (dataDir : Listing String Bytes) : Archive String Bytes :=
  ([dbBasename], .file db) :: (dataDir.keep fun name => !isLive name).leaves []

theorem isLive_dbBasename : isLive dbBasename = true := by
  simp [isLive]

theorem dbBasename_notMem (dataDir : Listing String Bytes) :
    dbBasename ∉ (dataDir.keep fun name => !isLive name).names := by
  intro hmem
  have hlive := (Listing.mem_names_keep.1 hmem).2
  rw [isLive_dbBasename] at hlive
  cases hlive

section Dumped

variable {dataDir : Listing String Bytes}

theorem apart_dumped (hdistinct : dataDir.Distinct) (db : Bytes) : Apart (dumped db dataDir) := by
  refine List.pairwise_cons.2 ⟨fun entry hmem => ?_, Listing.apart_leaves hdistinct.keep []⟩
  obtain ⟨name, hname, below, hpath⟩ := Listing.mem_leaves hmem
  have hne : dbBasename ≠ name := fun heq => dbBasename_notMem dataDir (heq ▸ hname)
  rw [hpath]
  exact ⟨@not_prefix_of_ne _ [] _ _ _ _ hne, @not_prefix_of_ne _ [] _ _ _ _ hne.symm⟩

/-- What a dump puts where is what it is meant to keep. -/
theorem imageOf_dumped (hdistinct : dataDir.Distinct) (db : Bytes) :
    imageOf (dumped db dataDir) = image db dataDir := by
  funext path
  rw [dumped, imageOf_cons (apart_dumped hdistinct db)]
  cases path with
  | nil =>
    rw [imageOf_leaves_self, imageOf_singleton]
    cases (dataDir.keep fun name => !isLive name).hasLeaf <;> rfl
  | cons head below =>
    have hkept : (dataDir.keep fun name => !isLive name).Distinct := hdistinct.keep
    have hleaves := imageOf_leaves hkept [] head below
    have hentry := imageOf_entry [] dbBasename head below (.file db)
    simp only [List.nil_append] at hleaves hentry
    rw [hleaves, hentry, image, if_neg (List.cons_ne_nil head below)]
    by_cases hdb : head :: below = [dbBasename]
    · obtain ⟨rfl, rfl⟩ := List.cons.inj hdb
      rw [Listing.image_of_not_mem (dbBasename_notMem dataDir), Option.none_or, if_pos rfl]
    · rw [if_neg hdb, if_neg hdb, Option.or_none]

/-! ## What is restored -/

/-- The entries of an archive that are restored, by where they belong. -/
def placed (archive : Archive String Bytes) : Archive String Bytes :=
  archive.filterMap fun entry => (destOf entry.1).map fun dest => (dest, entry.2)

theorem restoreEntries_iff (errorText : IoError → String) (target : Tree String Bytes)
    (restoredDb : Bool) (archive : Archive String Bytes) :
    (restoreEntries errorText target restoredDb archive).1 =
        (target.unpackAll (placed archive)).1 ∧
      ((restoreEntries errorText target restoredDb archive).2 = .ok () ↔
        (target.unpackAll (placed archive)).2 = none ∧
          (restoredDb = true ∨ [dbBasename] ∈ archive.map Prod.fst)) := by
  induction archive generalizing target restoredDb with
  | nil =>
    simp only [restoreEntries, placed, List.filterMap_nil, Tree.unpackAll]
    cases restoredDb with
    | false => simp
    | true => simp
  | cons entry archive ih =>
    obtain ⟨path, node⟩ := entry
    simp only [restoreEntries, placed, List.filterMap_cons]
    cases hdest : destOf path with
    | none =>
      -- the database is not passed over
      have hdb : [dbBasename] ≠ path := by
        rintro rfl
        simp [destOf] at hdest
      obtain ⟨htree, hend⟩ := ih target restoredDb
      refine ⟨htree, hend.trans ?_⟩
      simp only [List.map_cons, List.mem_cons, hdb, false_or]
      rfl
    | some dest =>
      simp only [Option.map_some, Tree.unpackAll]
      generalize target.unpackEntry dest node = written
      obtain ⟨target₁, failure⟩ := written
      cases failure with
      | some err => simp
      | none =>
        have hrest := ih target₁ (restoredDb || decide (path = [dbBasename]))
        refine ⟨hrest.1, hrest.2.trans ?_⟩
        simp only [Bool.or_eq_true, decide_eq_true_eq, List.map_cons, List.mem_cons, or_assoc,
          eq_comm (a := [dbBasename])]
        rfl

theorem placed_dump (db : Bytes) (dataDir : Listing String Bytes) :
    placed (([dbBasename], .file db) :: (kept dataDir).map inData) =
      ([dbBasename], .file db) :: kept dataDir := by
  have hdata : ∀ rel : List String, destOf ("data" :: rel) = some rel := by
    intro rel
    have hne : "data" :: rel ≠ [dbBasename] := by
      intro heq
      exact absurd (List.cons.inj heq).1 (by decide)
    rw [destOf, if_neg hne, if_pos rfl]
  have hdb : destOf [dbBasename] = some [dbBasename] := by rw [destOf, if_pos rfl]
  simp only [placed, List.filterMap_cons, hdb, Option.map_some, List.filterMap_map]
  congr 1
  refine (List.filterMap_congr fun entry _ => ?_).trans List.filterMap_some
  simp only [Function.comp, inData, hdata, Option.map_some]

/-- What a dump restores. -/
theorem restored_of_dump (display : String) (errorText : IoError → String) (db : Bytes)
    (dataDir : Listing String Bytes) (taken : String → Bool) (now : Int) (out : Option String)
    (hdistinct : dataDir.Distinct)
    (hout : taken (out.getD ("edda-dump-" ++ toString now ++ ".tar.gz")) = false) :
    ∃ archive, dump .sqlite (.ok db) dataDir taken now out = .ok archive ∧
      ∀ target force,
        ((restore display errorText target archive force).2 = .ok () ↔
          (force = true ∨ populated target = false) ∧ Fits target (image db dataDir)) ∧
        ((restore display errorText target archive force).2 = .ok () → ∀ path,
          (restore display errorText target archive force).1.get path =
            (image db dataDir path).or (target.get path)) := by
  refine ⟨_, dump_eq hout, fun target force => ?_⟩
  have hperm : (([dbBasename], .file db) :: kept dataDir).Perm (dumped db dataDir) :=
    (kept_perm dataDir).cons _
  have hapart : Apart (([dbBasename], .file db) :: kept dataDir) :=
    (apart_dumped hdistinct db).perm hperm.symm
  have himage : imageOf (([dbBasename], .file db) :: kept dataDir) = image db dataDir :=
    (imageOf_perm hapart hperm).trans (imageOf_dumped hdistinct db)
  have hpaths : ∀ entry ∈ ([dbBasename], Node.file db) :: kept dataDir, entry.1 ≠ [] := by
    intro entry hmem
    rcases List.mem_cons.1 (hperm.mem_iff.1 hmem) with rfl | hleaf
    · exact List.cons_ne_nil _ _
    · obtain ⟨name, -, below, hpath⟩ := Listing.mem_leaves hleaf
      rw [hpath]
      exact List.cons_ne_nil _ _
  obtain ⟨hok, hget⟩ := unpackAll_iff target _ hapart hpaths
  obtain ⟨htree, hend⟩ := restoreEntries_iff errorText target false
    (([dbBasename], .file db) :: (kept dataDir).map inData)
  rw [placed_dump] at htree hend
  have hfound : [dbBasename] ∈
      (([dbBasename], Node.file db) :: (kept dataDir).map inData).map Prod.fst := List.mem_cons_self
  simp only [restore]
  by_cases hrefused : populated target && !force
  · rw [if_pos hrefused]
    refine ⟨iff_of_false (by simp) ?_, by simp⟩
    rintro ⟨hfree, -⟩
    rcases hfree with hforce | hempty
    · simp [hforce] at hrefused
    · simp [hempty] at hrefused
  · rw [himage] at hok hget
    have hfree : force = true ∨ populated target = false := by
      cases force <;> simp_all
    rw [if_neg hrefused, htree]
    refine ⟨?_, fun h => hget (hend.1 h).1⟩
    rw [hend, hok]
    exact ⟨fun h => ⟨hfree, h.1⟩, fun h => ⟨h.2, Or.inr hfound⟩⟩

/-- The files of a dump are those of the data directory that are not live, and the snapshot. -/
theorem file_mem_dumped (hdistinct : dataDir.Distinct) (db : Bytes) (path : List String)
    (content : Bytes) :
    (path, Node.file content) ∈ dumped db dataDir ↔ image db dataDir path = some (.file content) := by
  rw [← imageOf_dumped hdistinct, imageOf_eq_some_iff (apart_dumped hdistinct db)]
  simp

theorem image_eq_file_iff (hdistinct : dataDir.Distinct) (db : Bytes) (head : String)
    (below : List String) (content : Bytes) :
    image db dataDir (head :: below) = some (.file content) ↔
      head :: below = [dbBasename] ∧ content = db ∨
        isLive head = false ∧ dataDir.tree (head :: below) = some (.file content) := by
  rw [image, if_neg (List.cons_ne_nil head below)]
  by_cases hdb : head :: below = [dbBasename]
  · obtain ⟨rfl, rfl⟩ := List.cons.inj hdb
    simp [isLive_dbBasename, eq_comm]
  · have hkept : (dataDir.keep fun name => !isLive name).Distinct := hdistinct.keep
    rw [if_neg hdb, Listing.image_eq_file_iff hkept, Listing.entry_keep, Listing.tree,
      if_neg (List.cons_ne_nil head below)]
    cases hlive : isLive head <;> simp [hdb]

/-- A directory that holds what was restored gives the same archive again, up to the order, but for
the directories that stand for links. -/
theorem dumped_again {dataDir' : Listing String Bytes} (hdistinct : dataDir.Distinct)
    (hdistinct' : dataDir'.Distinct) (hlinks : dataDir'.withoutLinks = dataDir') (db : Bytes)
    (hrestored : ∀ path, dataDir'.tree path = image db dataDir path) :
    (dumped db dataDir').Perm ((dumped db dataDir).filter fun entry => entry.2.isFile) := by
  have hfiles : ∀ entry ∈ dumped db dataDir', entry.2.isFile = true := by
    intro entry hmem
    rcases List.mem_cons.1 hmem with rfl | hleaf
    · rfl
    · refine @Listing.isFile_of_mem_leaves _ _ dataDir' [] entry ?_
      rw [hlinks]
      exact Listing.leaves_keep_subset _ dataDir' [] hleaf
  refine (List.perm_ext_iff_of_nodup (apart_dumped hdistinct' db).nodup
    ((apart_dumped hdistinct db).nodup.filter _)).2 fun entry => ?_
  obtain ⟨path, node⟩ := entry
  cases node with
  | dir =>
    refine iff_of_false (fun hmem => ?_) (by simp [Node.isFile])
    exact absurd (hfiles _ hmem) (by simp [Node.isFile])
  | file content =>
    rw [List.mem_filter, file_mem_dumped hdistinct', file_mem_dumped hdistinct]
    simp only [Node.isFile, and_true]
    cases path with
    | nil => simp [image]
    | cons head below =>
      rw [image_eq_file_iff hdistinct', hrestored, image_eq_file_iff hdistinct]
      constructor
      · rintro (hdb | ⟨-, hfile⟩)
        · exact Or.inl hdb
        · exact hfile
      · rintro (hdb | ⟨hlive, hfile⟩)
        · exact Or.inl hdb
        · exact Or.inr ⟨hlive, Or.inr ⟨hlive, hfile⟩⟩

theorem get_of_not_populated {target : Tree String Bytes} (h : populated target = false)
    {path : List String} (hpath : path ≠ []) : target.get path = none := by
  obtain ⟨-, hempty⟩ := Bool.or_eq_false_iff.1 h
  rw [Bool.not_eq_false', Tree.isEmpty, List.all_eq_true] at hempty
  have hfind : target.find? (fun entry => entry.1 = path) = none := by
    refine List.find?_eq_none.2 fun entry hmem heq => hpath ?_
    rw [← show entry.1 = path from of_decide_eq_true heq]
    exact of_decide_eq_true (hempty entry hmem)
  simp only [Support.FileTree.Tree.get, hfind, Option.map_none]

/-- A directory without anything in it takes any dump. -/
theorem fits_of_not_populated {target : Tree String Bytes} (h : populated target = false)
    (hdir : ∀ content, target.get [] ≠ some (.file content)) (db : Bytes)
    (dataDir : Listing String Bytes) : Fits target (image db dataDir) := by
  intro path new old hnew hold
  by_cases hpath : path = []
  · subst hpath
    obtain rfl := Option.some.inj hnew
    cases old with
    | dir => rfl
    | file content => exact absurd hold (hdir content)
  · rw [get_of_not_populated h hpath] at hold
    cases hold

end Dumped

/-- A data directory with a file, and what is there after its dump was restored. -/
def oneFile : Listing String Bytes := .file "HEAD" [3] .nil

def oneFileAndDb : Listing String Bytes := .file "HEAD" [3] (.file "edda.db" [9] .nil)

end Edda.Cli.DumpRestore
