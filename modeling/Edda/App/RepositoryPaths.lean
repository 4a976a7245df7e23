import Edda.App.RepositoryRoutes
import Edda.App.SignIn
import Edda.Domain.Identities
import Edda.Support.FileTree
import Edda.Support.Segments

/-!
# Where repositories are kept

The store maps an identity to the directory `{root}/{owner}/{repo}.git`, and lists the identities by
the directories that it finds there. Paths are texts, which are joined and compared by their
components as the standard library does.

`repository_paths_apart` says that the directories of valid identities are apart from each other and
below the root, and that listing them gives the identities back.
-/

set_option autoImplicit false

namespace Edda.App.RepositoryPaths

open Edda.App.RepositoryRoutes (isValidOid isHexDigit)
open Edda.App.SignIn (fromUtf8 fromUtf8_utf8)
open Edda.Domain.Validation Edda.Support.FileTree Edda.Support.RustText Edda.Support.Segments

/-! ## Paths -/

/-- A component of a path (`std::path::Component`). -/
inductive Component where
  | rootDir
  | curDir
  | parentDir
  | normal (name : List Char)
  deriving DecidableEq, Repr

/-- What a piece between two separators stands for. Empty pieces and dots stand for nothing. -/
def component (piece : List Char) : Option Component :=
  if piece = [] ∨ piece = ['.'] then none
  else if piece = ['.', '.'] then some .parentDir
  else some (.normal piece)

/-- What a path begins with beside names. A dot counts only here. -/
def lead (path : List Char) : List Component :=
  if path.head? = some '/' then [.rootDir]
  else if (path.splitOn '/').head? = some ['.'] then [.curDir]
  else []

/-- `Path::components`. -/
def components (path : List Char) : List Component :=
  lead path ++ (path.splitOn '/').filterMap component

/-- `Path::join`. -/
def join (path piece : List Char) : List Char :=
  if piece.head? = some '/' then piece
  else if path = [] ∨ path.getLast? = some '/' then path ++ piece
  else path ++ '/' :: piece

/-- `LocalFsStore::repo_dir`. -/
def repoDir (root : List Char) (name : String) : List Char :=
  match splitOnce '/' name.toList with
  | some (owner, repo) => join (join root owner) (repo ++ ".git".toList)
  | none => join root (name.toList ++ ".git".toList)

/-- `RepoStore::lfs_object_path`. -/
def lfsObjectPath (root : List Char) (name oid : String) : List Char :=
  let base := join (join (repoDir root name) "lfs".toList) "objects".toList
  if 4 ≤ oid.toList.length then
    join (join (join base (oid.toList.take 2)) ((oid.toList.drop 2).take 2)) oid.toList
  else join base oid.toList

/-! ## Listing the store -/

section Listing

variable {γ : Type} (failing : List Bytes → Option IoError)

/-- The directories in a directory, by their names. Links are not followed. -/
def directories : Listing Bytes γ → List (Bytes × Listing Bytes γ)
  | .nil => []
  | .file _ _ rest => directories rest
  | .symlink _ rest => directories rest
  | .dir name entries rest => (name, entries) :: directories rest

/-- The identity of a directory, if its name has the suffix. -/
def identityOf (owner : String) (fileName : Bytes) : Option String := do
  let text ← fromUtf8 fileName
  let repo ← stripSuffix ".git".toList text.toList
  return owner ++ "/" ++ String.ofList repo

/-- The identities in the directories of owners. A directory whose reading fails ends the listing. -/
def listOwners : List (Bytes × Listing Bytes γ) → Except IoError (List String)
  | [] => .ok []
  | (ownerName, entries) :: rest => match fromUtf8 ownerName with
    | none => listOwners rest
    | some owner => match failing [ownerName] with
      | some err => .error err
      | none => (listOwners rest).map fun names =>
        (directories entries).filterMap (fun repo => identityOf owner repo.1) ++ names

/-- `LocalFsStore::list_repo_names`. -/
def listRepoNames (store : Option (Listing Bytes γ)) : Except IoError (List String) :=
  match store with
  | none => .ok []
  | some listing => match failing [] with
    | some err => .error err
    | none => (listOwners failing (directories listing)).map fun names =>
      names.insertionSort (· ≤ ·)

end Listing

/-! ## Joining plain names -/

/-- A name that is one component of a path. -/
def Plain (name : List Char) : Prop :=
  name ≠ [] ∧ name ≠ ['.'] ∧ name ≠ ['.', '.'] ∧ '/' ∉ name

variable {root name : List Char}

theorem Plain.component (h : Plain name) : component name = some (.normal name) := by
  rw [RepositoryPaths.component, if_neg (not_or.2 ⟨h.1, h.2.1⟩), if_neg h.2.2.1]

theorem Plain.head_ne (h : Plain name) : name.head? ≠ some '/' :=
  fun hhead => h.2.2.2 (List.mem_of_mem_head? hhead)

theorem Plain.splitOn (h : Plain name) : name.splitOn '/' = [name] :=
  List.splitOn_eq_singleton h.2.2.2

/-- What a path begins with is seen in front of any separator of it. -/
theorem lead_append_slash (front rest : List Char) :
    lead (front ++ '/' :: rest) = lead (front ++ ['/']) := by
  obtain ⟨first, after, hsplit⟩ := List.exists_cons_of_ne_nil (List.splitOn_ne_nil '/' front)
  simp [lead, List.splitOn_append_cons_self, List.head?_append, hsplit]

theorem lead_concat_slash (hroot : root ≠ []) : lead (root ++ ['/']) = lead root := by
  obtain ⟨c, rest, rfl⟩ := List.exists_cons_of_ne_nil hroot
  obtain ⟨first, after, hsplit⟩ :=
    List.exists_cons_of_ne_nil (List.splitOn_ne_nil '/' (c :: rest))
  rw [lead, lead, List.splitOn_append_cons_self, hsplit]
  rfl

/-- A plain name is one more component. -/
theorem components_join (h : Plain name) :
    components (join root name) = components root ++ [.normal name] := by
  have hname : (name.splitOn '/').filterMap component = [.normal name] := by
    rw [h.splitOn, List.filterMap_cons_some h.component, List.filterMap_nil]
  have hbehind (front : List Char) : components (front ++ '/' :: name) =
      components (front ++ ['/']) ++ [.normal name] := by
    have hempty : (([] : List Char).splitOn '/').filterMap component = [] := rfl
    rw [components, components, lead_append_slash, List.splitOn_append_cons_self,
      List.splitOn_append_cons_self, List.filterMap_append, List.filterMap_append, hname, hempty,
      List.append_nil, List.append_assoc]
  rw [join, if_neg h.head_ne]
  split
  · next hend =>
    rcases hend with rfl | hlast
    · -- a relative path of one component
      have hlead : lead name = [] := by
        rw [lead, if_neg h.head_ne, h.splitOn, List.head?_cons, if_neg]
        exact fun heq => h.2.1 (Option.some.inj heq)
      rw [List.nil_append, components, hname, hlead]
      rfl
    · obtain ⟨front, rfl⟩ := List.getLast?_eq_some_iff.1 hlast
      rw [List.append_assoc, List.singleton_append]
      exact hbehind front
  · next hend =>
    have hempty : (([] : List Char).splitOn '/').filterMap component = [] := rfl
    rw [hbehind root, components, components, lead_concat_slash fun hroot => hend (Or.inl hroot),
      List.splitOn_append_cons_self, List.filterMap_append, hempty, List.append_nil]

/-! ## The directory of an identity -/

section Identity

variable (root) (identity other : RepositoryIdentity)

/-- The name of the directory of a repository below that of its owner. -/
def dirName : List Char := identity.name.toList ++ ".git".toList

theorem plain_owner : Plain identity.owner.toList := by
  have hno (c : Char) (hc : ¬ (isAsciiAlphanumeric c = true ∨ c = '-' ∨ c = '_')) :
      c ∉ identity.owner.toList := fun hmem => hc (identity.owner_chars hmem)
  have hdot := hno '.' (by decide)
  refine ⟨identity.owner_ne_nil, ?_, ?_, identity.slash_notMem_owner⟩
  · intro heq
    exact hdot (heq ▸ List.mem_cons_self)
  · intro heq
    exact hdot (heq ▸ List.mem_cons_self)

theorem plain_dirName : Plain (dirName identity) := by
  have hlong : 4 ≤ (dirName identity).length := by
    rw [dirName, List.length_append]
    exact Nat.le_add_left _ _
  refine ⟨?_, ?_, ?_, ?_⟩
  · intro heq
    exact absurd hlong (by rw [heq]; decide)
  · intro heq
    exact absurd hlong (by rw [heq]; decide)
  · intro heq
    exact absurd hlong (by rw [heq]; decide)
  · rw [dirName, List.mem_append, not_or]
    exact ⟨identity.slash_notMem_name, by decide⟩

/-- The directory lies two components below the root. -/
theorem components_repoDir : components (repoDir root identity.text) =
    components root ++ [.normal identity.owner.toList, .normal (dirName identity)] := by
  rw [repoDir, identity.splitOnce_text]
  show components (join (join root identity.owner.toList) (dirName identity)) = _
  rw [components_join (plain_dirName identity), components_join (plain_owner identity),
    List.append_assoc, List.singleton_append]

/-- Owner and directory name are those of one identity. -/
theorem text_eq_of_dir_eq (howner : identity.owner.toList = other.owner.toList)
    (hname : dirName identity = dirName other) : identity.text = other.text := by
  apply String.toList_inj.1
  rw [identity.toList_text, other.toList_text, howner, List.append_cancel_right hname]

/-- A path below the directories of two identities is below one identity's directory. -/
theorem text_eq_of_shared_root {path : List Component}
    (h : components (repoDir root identity.text) <+: path)
    (h' : components (repoDir root other.text) <+: path) : identity.text = other.text := by
  rw [components_repoDir] at h h'
  obtain ⟨rest, rfl⟩ := h
  obtain ⟨rest', heq⟩ := h'
  rw [List.append_assoc, List.append_assoc] at heq
  have hcomponents := List.append_cancel_left heq
  simp only [List.cons_append, List.nil_append, List.cons.injEq, Component.normal.injEq]
    at hcomponents
  exact text_eq_of_dir_eq identity other hcomponents.1.symm hcomponents.2.1.symm

end Identity

section LfsObjects

/-- A part of an object id is a plain name. -/
theorem plain_of_hex {piece : List Char} (hne : piece ≠ []) (h : ∀ c ∈ piece, isHexDigit c = true) :
    Plain piece := by
  have hdot : '.' ∉ piece := fun hmem => absurd (h '.' hmem) (by decide)
  refine ⟨hne, ?_, ?_, fun hmem => absurd (h '/' hmem) (by decide)⟩
  · intro heq
    exact hdot (heq ▸ List.mem_cons_self)
  · intro heq
    exact hdot (heq ▸ List.mem_cons_self)

/-- An LFS object lies in the directory of its repository. -/
theorem prefix_lfsObjectPath {oid : String} (hoid : isValidOid oid = true) (root : List Char)
    (name : String) : components (repoDir root name) <+: components (lfsObjectPath root name oid) := by
  obtain ⟨hlength, hhex⟩ := Bool.and_eq_true_iff.1 hoid
  have hlength : oid.toList.length = 64 := of_decide_eq_true hlength
  have hhex : ∀ c ∈ oid.toList, isHexDigit c = true := List.all_eq_true.1 hhex
  have hpart (piece : List Char) (hpiece : 0 < piece.length) (hsub : piece ⊆ oid.toList) :
      Plain piece :=
    plain_of_hex (List.length_pos_iff.1 hpiece) fun c hc => hhex c (hsub hc)
  have hfirst : Plain (oid.toList.take 2) :=
    hpart _ (by rw [List.length_take]; omega) (List.take_subset _ _)
  have hsecond : Plain ((oid.toList.drop 2).take 2) :=
    hpart _ (by rw [List.length_take, List.length_drop]; omega)
      fun c hc => List.drop_subset _ _ (List.take_subset _ _ hc)
  have hwhole : Plain oid.toList := hpart _ (by omega) fun _ => id
  have hlfs : Plain "lfs".toList := by simp [Plain]
  have hobjects : Plain "objects".toList := by simp [Plain]
  rw [lfsObjectPath, if_pos (by omega)]
  rw [components_join hwhole, components_join hsecond, components_join hfirst,
    components_join hobjects, components_join hlfs]
  simp only [List.append_assoc]
  exact List.prefix_append _ _

end LfsObjects

/-! ## Reading the directories back -/

section Store

variable {γ : Type} {listing : Listing Bytes γ} {failing : List Bytes → Option IoError}

/-- The directories two levels below the root, by the names on the way. -/
def pairs (listing : Listing Bytes γ) : List (Bytes × Bytes) :=
  (directories listing).flatMap fun owner => (directories owner.2).map fun repo =>
    (owner.1, repo.1)

/-- The two names lead to the directory of an identity. -/
def LeadsTo (root : List Char) (pair : Bytes × Bytes) (name : String) : Prop :=
  ∃ owner repo : String, pair = (utf8 owner, utf8 repo) ∧
    components (repoDir root name) =
      components root ++ [.normal owner.toList, .normal repo.toList]

/-- The directories two levels below the root are those of some identities, and no others. -/
def HoldsExactly (root : List Char) (listing : Listing Bytes γ) (names : Set String) : Prop :=
  ∀ pair, pair ∈ pairs listing ↔ ∃ name ∈ names, LeadsTo root pair name

/-- The identity of a directory, by the names of its owner's directory and its own. -/
def identityOfPair (pair : Bytes × Bytes) : Option String :=
  (fromUtf8 pair.1).bind fun owner => identityOf owner pair.2

theorem names_directories : (directories listing).map Prod.fst ⊆ listing.names ∧
    (listing.Distinct → ((directories listing).map Prod.fst).Nodup) := by
  induction listing with
  | nil => exact ⟨fun _ h => h, fun _ => List.nodup_nil⟩
  | file name content rest ih =>
    exact ⟨fun _ h => List.mem_cons_of_mem _ (ih.1 h), fun h => ih.2 h.2⟩
  | symlink name rest ih =>
    exact ⟨fun _ h => List.mem_cons_of_mem _ (ih.1 h), fun h => ih.2 h.2⟩
  | dir name entries rest _ ih =>
    constructor
    · exact List.cons_subset_cons name ih.1
    · rintro ⟨hname, -, hrest⟩
      exact List.nodup_cons.2 ⟨fun hmem => hname (ih.1 hmem), ih.2 hrest⟩

theorem distinct_of_mem_directories (h : listing.Distinct) {owner : Bytes × Listing Bytes γ}
    (howner : owner ∈ directories listing) : owner.2.Distinct := by
  induction listing with
  | nil => exact absurd howner List.not_mem_nil
  | file name content rest ih => exact ih h.2 howner
  | symlink name rest ih => exact ih h.2 howner
  | dir name entries rest _ ih =>
    rcases List.mem_cons.1 howner with rfl | howner
    · exact h.2.1
    · exact ih h.2.2 howner

/-- No directory is found twice. -/
theorem nodup_pairs (h : listing.Distinct) : (pairs listing).Nodup := by
  rw [pairs, List.nodup_flatMap]
  constructor
  · intro owner howner
    have hnames := names_directories.2 (distinct_of_mem_directories h howner)
    rw [List.nodup_map_iff_inj_on (List.Nodup.of_map _ hnames)]
    intro repo hrepo repo' hrepo' heq
    exact List.inj_on_of_nodup_map hnames hrepo hrepo' (Prod.mk.inj heq).2
  · have hnames := names_directories.2 h
    rw [List.Nodup, List.pairwise_map] at hnames
    refine hnames.imp ?_
    rintro owner owner' hne pair hpair hpair'
    obtain ⟨repo, -, rfl⟩ := List.mem_map.1 hpair
    obtain ⟨repo', -, heq⟩ := List.mem_map.1 hpair'
    exact hne (Prod.mk.inj heq).1.symm

/-- What is listed where every directory can be read. -/
theorem listOwners_eq (hread : ∀ path, failing path = none)
    (owners : List (Bytes × Listing Bytes γ)) : listOwners failing owners =
      .ok ((owners.flatMap fun owner => (directories owner.2).map fun repo =>
        (owner.1, repo.1)).filterMap identityOfPair) := by
  induction owners with
  | nil => rfl
  | cons owner owners ih =>
    obtain ⟨ownerName, entries⟩ := owner
    have hentries : ((directories entries).map fun repo => (ownerName, repo.1)).filterMap
        identityOfPair = (fromUtf8 ownerName).elim [] fun owner =>
          (directories entries).filterMap fun repo => identityOf owner repo.1 := by
      rw [List.filterMap_map]
      cases howner : fromUtf8 ownerName with
      | none =>
        rw [Option.elim_none, List.filterMap_eq_nil_iff]
        intro repo _
        simp [identityOfPair, howner]
      | some owner =>
        rw [Option.elim_some]
        apply List.filterMap_congr
        intro repo _
        simp [identityOfPair, howner]
    rw [List.flatMap_cons, List.filterMap_append, hentries, listOwners]
    cases howner : fromUtf8 ownerName with
    | none => simp only [ih, Option.elim_none, List.nil_append]
    | some owner => simp only [hread, ih, Option.elim_some, Except.map]

theorem leadsTo_text (root : List Char) (identity : RepositoryIdentity) :
    LeadsTo root (utf8 identity.owner, utf8 (String.ofList (dirName identity))) identity.text :=
  ⟨identity.owner, String.ofList (dirName identity), rfl, by
    rw [components_repoDir, String.toList_ofList]⟩

/-- One directory belongs to an identity. -/
theorem LeadsTo.eq {root : List Char} {pair pair' : Bytes × Bytes} {name : String}
    (h : LeadsTo root pair name) (h' : LeadsTo root pair' name) : pair = pair' := by
  obtain ⟨owner, repo, rfl, hcomponents⟩ := h
  obtain ⟨owner', repo', rfl, hcomponents'⟩ := h'
  have heq := List.append_cancel_left (hcomponents.symm.trans hcomponents')
  simp only [List.cons.injEq, Component.normal.injEq, and_true] at heq
  rw [String.toList_inj.1 heq.1, String.toList_inj.1 heq.2]

/-- The directory of an identity is read as this identity. -/
theorem identityOfPair_of_leadsTo {root : List Char} {pair : Bytes × Bytes}
    (identity : RepositoryIdentity) (h : LeadsTo root pair identity.text) :
    identityOfPair pair = some identity.text := by
  obtain ⟨owner, repo, rfl, hcomponents⟩ := h
  rw [components_repoDir] at hcomponents
  have hcomponents := List.append_cancel_left hcomponents
  simp only [List.cons.injEq, Component.normal.injEq, and_true] at hcomponents
  obtain ⟨howner, hrepo⟩ := hcomponents
  have howner : identity.owner = owner := String.toList_inj.1 howner
  simp only [identityOfPair, identityOf, fromUtf8_utf8, Option.bind_some, Option.bind_eq_bind,
    ← hrepo, dirName, stripSuffix_append, String.ofList_toList, Option.pure_def, ← howner,
    RepositoryIdentity.text]

/-- Listing the directories of valid identities gives the identities, each once and in order. -/
theorem listRepoNames_of_holdsExactly {root : List Char} {names : Set String}
    (hread : ∀ path, failing path = none) (hdistinct : listing.Distinct)
    (hvalid : ∀ name ∈ names, isValidRepositoryIdentity name = true)
    (hholds : HoldsExactly root listing names) :
    ∃ listed, listRepoNames failing (some listing) = .ok listed ∧ listed.Nodup ∧
      listed.Pairwise (· ≤ ·) ∧ ∀ name, name ∈ listed ↔ name ∈ names := by
  have hpair {pair : Bytes × Bytes} {name : String} (hname : name ∈ names)
      (hleads : LeadsTo root pair name) : identityOfPair pair = some name := by
    obtain ⟨identity, rfl⟩ := isValidRepositoryIdentity_iff.1 (hvalid name hname)
    exact identityOfPair_of_leadsTo identity hleads
  have hlisted : listRepoNames failing (some listing) =
      .ok (((pairs listing).filterMap identityOfPair).insertionSort (· ≤ ·)) := by
    simp only [listRepoNames, hread, listOwners_eq hread, Except.map, pairs]
  refine ⟨_, hlisted, ?_, List.pairwise_insertionSort _ _, fun name => ?_⟩
  · rw [(List.perm_insertionSort _ _).nodup_iff, List.Nodup, List.pairwise_filterMap]
    refine (nodup_pairs hdistinct).imp_of_mem ?_
    rintro pair pair' hmem hmem' hne name hname name' hname' rfl
    -- both directories would be the one of the same identity
    obtain ⟨other, hother, hleads⟩ := (hholds pair).1 hmem
    obtain ⟨other', hother', hleads'⟩ := (hholds pair').1 hmem'
    obtain rfl : other = name := Option.some.inj ((hpair hother hleads).symm.trans hname)
    obtain rfl : other' = other := Option.some.inj ((hpair hother' hleads').symm.trans hname')
    exact hne (hleads.eq hleads')
  · rw [(List.perm_insertionSort _ _).mem_iff, List.mem_filterMap]
    constructor
    · rintro ⟨pair, hmem, hname⟩
      obtain ⟨other, hother, hleads⟩ := (hholds pair).1 hmem
      rwa [← Option.some.inj ((hpair hother hleads).symm.trans hname)]
    · intro hname
      obtain ⟨identity, rfl⟩ := isValidRepositoryIdentity_iff.1 (hvalid name hname)
      have hleads := leadsTo_text root identity
      exact ⟨_, (hholds _).2 ⟨_, hname, hleads⟩, hpair hname hleads⟩

end Store

/-- The directories of valid identities lie two plain components below the root. They are equal only
for equal identities, and otherwise none is in another or has an LFS object of another. Where a store
has exactly the directories of some valid identities, listing it gives exactly these. -/
theorem repository_paths_apart {γ : Type} (root : List Char) :
    (∀ a, isValidRepositoryIdentity a = true → ∃ owner repo, Plain owner ∧ Plain repo ∧
        components (repoDir root a) = components root ++ [.normal owner, .normal repo]) ∧
      (∀ a b, isValidRepositoryIdentity a = true → isValidRepositoryIdentity b = true →
        (components (repoDir root a) = components (repoDir root b) → a = b) ∧
        (a ≠ b → ¬ components (repoDir root a) <+: components (repoDir root b) ∧
          ∀ oid, isValidOid oid = true →
            ¬ components (repoDir root a) <+: components (lfsObjectPath root b oid))) ∧
      ∀ (names : Set String) (listing : Listing Bytes γ) (failing : List Bytes → Option IoError),
        (∀ name ∈ names, isValidRepositoryIdentity name = true) → listing.Distinct →
        HoldsExactly root listing names → (∀ path, failing path = none) →
        ∃ listed, listRepoNames failing (some listing) = .ok listed ∧ listed.Nodup ∧
          listed.Pairwise (· ≤ ·) ∧ ∀ name, name ∈ listed ↔ name ∈ names := by
  refine ⟨?_, ?_, ?_⟩
  · intro a ha
    obtain ⟨identity, rfl⟩ := isValidRepositoryIdentity_iff.1 ha
    exact ⟨_, _, plain_owner identity, plain_dirName identity, components_repoDir root identity⟩
  · intro a b ha hb
    obtain ⟨identity, rfl⟩ := isValidRepositoryIdentity_iff.1 ha
    obtain ⟨other, rfl⟩ := isValidRepositoryIdentity_iff.1 hb
    refine ⟨?_, fun hne => ⟨?_, ?_⟩⟩
    · intro heq
      exact text_eq_of_shared_root root identity other (List.prefix_refl _) (heq ▸ List.prefix_refl _)
    · intro hprefix
      exact hne (text_eq_of_shared_root root identity other hprefix (List.prefix_refl _))
    · intro oid hoid hprefix
      exact hne (text_eq_of_shared_root root identity other hprefix (prefix_lfsObjectPath hoid root _))
  · intro names listing failing hvalid hdistinct hholds hread
    exact listRepoNames_of_holdsExactly hread hdistinct hvalid hholds

end Edda.App.RepositoryPaths
