import Mathlib

/-!
# Directory trees

A tree is what has been written below one directory, the latest first. `Op` are the two writes of a
recursive copy, `Listing` is what reading a directory gives, and `copy` is the list of the writes
that copy a listing. `runOps_copy` says that copying a listing to where nothing is gives exactly the
tree of the listing.
-/

set_option autoImplicit false

namespace Edda.Support.FileTree

universe u v

inductive Node (γ : Type v) where
  | dir
  | file (content : γ)
  deriving DecidableEq, Repr

/-- The nodes that were written, by their paths. The directory itself has the path `[]`. -/
abbrev Tree (ν : Type u) (γ : Type v) := List (List ν × Node γ)

inductive IoError where
  | notFound
  | notADirectory
  | isADirectory
  | other (text : String)
  deriving DecidableEq, Repr

inductive Op (ν : Type u) (γ : Type v) where
  | createDirAll (path : List ν)
  | copy (path : List ν) (content : γ)
  deriving DecidableEq, Repr

/-- The entries of a directory, in the order in which they are read. -/
inductive Listing (ν : Type u) (γ : Type v) where
  | nil
  | file (name : ν) (content : γ) (rest : Listing ν γ)
  | symlink (name : ν) (rest : Listing ν γ)
  | dir (name : ν) (entries rest : Listing ν γ)
  deriving DecidableEq, Repr

section FileTree

variable {ν : Type u} {γ : Type v} [DecidableEq ν]

/-- What is at a path. -/
def Tree.get (tree : Tree ν γ) (path : List ν) : Option (Node γ) :=
  (tree.find? fun entry => entry.1 = path).map Prod.snd

def Tree.set (tree : Tree ν γ) (path : List ν) (node : Node γ) : Tree ν γ := (path, node) :: tree

/-- The directory is there. -/
def Tree.exists (tree : Tree ν γ) : Bool := (tree.get []).isSome

/-- Nothing is in the directory. -/
def Tree.isEmpty (tree : Tree ν γ) : Bool := tree.all fun entry => entry.1 = []

def Node.isFile : Node γ → Bool
  | .dir => false
  | .file _ => true

/-- A write. A directory comes with those above it; a file replaces the one at its path. -/
def Tree.perform (tree : Tree ν γ) : Op ν γ → Except IoError (Tree ν γ)
  | .createDirAll path =>
    if path.inits.any fun above => ((tree.get above).map Node.isFile).getD false then
      .error .notADirectory
    else .ok (path.inits.map (fun above => (above, .dir)) ++ tree)
  | .copy path content =>
    match tree.get path.dropLast, tree.get path with
    | some .dir, some .dir => .error .isADirectory
    | some .dir, _ => .ok (tree.set path (.file content))
    | some (.file _), _ => .error .notADirectory
    | none, _ => .error .notFound

/-- The writes one after the other, up to the first that fails. -/
def Tree.runOps (tree : Tree ν γ) : List (Op ν γ) → Except IoError (Tree ν γ)
  | [] => .ok tree
  | op :: ops => match tree.perform op with
    | .error err => .error err
    | .ok tree => Tree.runOps tree ops

def Listing.names : Listing ν γ → List ν
  | .nil => []
  | .file name _ rest => name :: rest.names
  | .symlink name rest => name :: rest.names
  | .dir name _ rest => name :: rest.names

/-- No two entries of a directory have the same name. -/
def Listing.Distinct : Listing ν γ → Prop
  | .nil => True
  | .file name _ rest => name ∉ rest.names ∧ rest.Distinct
  | .symlink name rest => name ∉ rest.names ∧ rest.Distinct
  | .dir name entries rest => name ∉ rest.names ∧ entries.Distinct ∧ rest.Distinct

/-- What a listing has at a path below it. Symbolic links count for nothing. -/
def Listing.entry : Listing ν γ → List ν → Option (Node γ)
  | .nil, _ => none
  | .file name content rest, path =>
    if path = [name] then some (.file content) else rest.entry path
  | .symlink _ rest, path => rest.entry path
  | .dir name entries rest, path =>
    match path with
    | [] => none
    | head :: below =>
      if head = name then (if below = [] then some .dir else entries.entry below)
      else rest.entry path

/-- A listing without its symbolic links. -/
def Listing.withoutLinks : Listing ν γ → Listing ν γ
  | .nil => .nil
  | .file name content rest => .file name content rest.withoutLinks
  | .symlink _ rest => rest.withoutLinks
  | .dir name entries rest => .dir name entries.withoutLinks rest.withoutLinks

/-- The tree of a listing. -/
def Listing.tree (listing : Listing ν γ) (path : List ν) : Option (Node γ) :=
  if path = [] then some .dir else listing.entry path

/-- The writes that copy the entries of a listing below a path. -/
def Listing.copyEntries (base : List ν) : Listing ν γ → List (Op ν γ)
  | .nil => []
  | .file name content rest => .copy (base ++ [name]) content :: rest.copyEntries base
  | .symlink _ rest => rest.copyEntries base
  | .dir name entries rest =>
    .createDirAll (base ++ [name]) ::
      (entries.copyEntries (base ++ [name]) ++ rest.copyEntries base)

/-- The writes that copy a directory. -/
def Listing.copy (listing : Listing ν γ) : List (Op ν γ) :=
  .createDirAll [] :: listing.copyEntries []

variable {tree tree' : Tree ν γ} {listing : Listing ν γ} {path base : List ν}

theorem get_set (tree : Tree ν γ) (path other : List ν) (node : Node γ) :
    (tree.set path node).get other = if other = path then some node else tree.get other := by
  simp only [Tree.get, Tree.set, List.find?_cons]
  by_cases h : path = other
  · simp [h]
  · simp [h, Ne.symm h]

theorem get_nil (path : List ν) : Tree.get ([] : Tree ν γ) path = none := rfl

/-- Reading after directories have been written. -/
theorem get_dirs (paths : List (List ν)) (tree : Tree ν γ) (other : List ν) :
    Tree.get (paths.map (fun above => (above, Node.dir)) ++ tree) other =
      if other ∈ paths then some .dir else tree.get other := by
  induction paths with
  | nil => simp
  | cons above paths ih =>
    rw [List.map_cons, List.cons_append]
    refine (get_set _ above other .dir).trans ?_
    rw [ih]
    by_cases h : other = above
    · simp [h]
    · simp [h]

/-- After a write that succeeds the directory is there, if nothing can be below a missing one. -/
theorem exists_of_perform (hbelow : tree.exists = false → ∀ path, tree.get path = none)
    {op : Op ν γ} (h : tree.perform op = .ok tree') : tree'.exists = true := by
  cases op with
  | createDirAll path =>
    simp only [Tree.perform] at h
    split at h
    · cases h
    · obtain rfl := Except.ok.inj h
      simp [Tree.exists, get_dirs]
  | copy path content =>
    have hparent : tree.exists = true := by
      cases hexists : tree.exists with
      | true => rfl
      | false => simp [Tree.perform, hbelow hexists] at h
    have hafter : tree' = tree.set path (.file content) := by
      simp only [Tree.perform] at h
      split at h <;> first | exact (Except.ok.inj h).symm | cases h
    rw [hafter, Tree.exists, get_set]
    split
    · rfl
    · exact hparent

theorem runOps_append (tree : Tree ν γ) (earlier later : List (Op ν γ)) :
    tree.runOps (earlier ++ later) =
      match tree.runOps earlier with
      | .error err => .error err
      | .ok tree => tree.runOps later := by
  induction earlier generalizing tree with
  | nil => rfl
  | cons op earlier ih =>
    simp only [List.cons_append, Tree.runOps]
    cases tree.perform op with
    | error err => rfl
    | ok tree => exact ih tree

theorem Listing.entry_nil_path (listing : Listing ν γ) : listing.entry [] = none := by
  induction listing with
  | nil => rfl
  | file name content rest ih => simpa [Listing.entry] using ih
  | symlink name rest ih => simpa [Listing.entry] using ih
  | dir name entries rest => rfl

omit [DecidableEq ν] in
theorem Listing.names_withoutLinks_subset (listing : Listing ν γ) :
    listing.withoutLinks.names ⊆ listing.names := by
  induction listing with
  | nil => exact List.Subset.refl _
  | file name content rest ih => exact List.cons_subset_cons name ih
  | symlink name rest ih => exact List.Subset.trans ih (List.subset_cons_self name rest.names)
  | dir name entries rest _ ih => exact List.cons_subset_cons name ih

omit [DecidableEq ν] in
theorem Listing.Distinct.withoutLinks (h : listing.Distinct) : listing.withoutLinks.Distinct := by
  induction listing with
  | nil => exact trivial
  | file name content rest ih =>
    exact ⟨fun hmem => h.1 (Listing.names_withoutLinks_subset rest hmem), ih h.2⟩
  | symlink name rest ih => exact ih h.2
  | dir name entries rest ihentries ihrest =>
    exact ⟨fun hmem => h.1 (Listing.names_withoutLinks_subset rest hmem), ihentries h.2.1,
      ihrest h.2.2⟩

/-- Symbolic links are no part of the tree. -/
theorem Listing.tree_withoutLinks (listing : Listing ν γ) :
    listing.withoutLinks.tree = listing.tree := by
  have hentry : ∀ path, listing.withoutLinks.entry path = listing.entry path := by
    induction listing with
    | nil => exact fun path => rfl
    | file name content rest ih => exact fun path => by simp only [withoutLinks, entry, ih]
    | symlink name rest ih => exact ih
    | dir name entries rest ihentries ihrest =>
      intro path
      cases path with
      | nil => rfl
      | cons head below => simp only [withoutLinks, entry, ihentries, ihrest]
  funext path
  rw [tree, tree, hentry]

/-- A name that the listing does not have leads nowhere. -/
theorem Listing.entry_of_not_mem {name : ν} (h : name ∉ listing.names) (below : List ν) :
    listing.entry (name :: below) = none := by
  induction listing with
  | nil => rfl
  | file other content rest ih =>
    simp only [Listing.names, List.mem_cons, not_or] at h
    simp [Listing.entry, h.1, ih h.2]
  | symlink other rest ih =>
    simp only [Listing.names, List.mem_cons, not_or] at h
    exact ih h.2
  | dir other entries rest _ ih =>
    simp only [Listing.names, List.mem_cons, not_or] at h
    simp [Listing.entry, h.1, ih h.2]

/-- What copying the entries of a listing below `base` has changed. -/
structure Copied (listing : Listing ν γ) (base : List ν) (tree tree' : Tree ν γ) : Prop where
  below : ∀ path, tree'.get (base ++ path) = (listing.entry path).or (tree.get (base ++ path))
  elsewhere : ∀ path, ¬ base <+: path → tree'.get path = tree.get path

/-- A write to a free name of a directory. -/
theorem perform_copy {name : ν} (hbase : tree.get base = some .dir)
    (hfree : tree.get (base ++ [name]) = none) (content : γ) :
    ∃ tree', tree.perform (.copy (base ++ [name]) content) = .ok tree' ∧
      ∀ path, tree'.get path =
        if path = base ++ [name] then some (.file content) else tree.get path := by
  refine ⟨tree.set (base ++ [name]) (.file content), ?_, fun path => get_set tree _ path _⟩
  simp only [Tree.perform, List.dropLast_concat, hbase, hfree]

theorem perform_createDirAll {name : ν}
    (habove : ∀ above, above <+: base → tree.get above = some .dir)
    (hfree : tree.get (base ++ [name]) = none) :
    ∃ tree', tree.perform (.createDirAll (base ++ [name])) = .ok tree' ∧
      ∀ path, tree'.get path = if path = base ++ [name] then some .dir else tree.get path := by
  have hinits : ∀ above ∈ (base ++ [name]).inits,
      above = base ++ [name] ∨ tree.get above = some .dir := by
    intro above hmem
    rcases List.prefix_concat_iff.1 ((List.mem_inits _ _).1 hmem) with hlast | hbefore
    · exact Or.inl hlast
    · exact Or.inr (habove above hbefore)
  have hnofile : ((base ++ [name]).inits.any fun above =>
      ((tree.get above).map Node.isFile).getD false) = false := by
    rw [List.any_eq_false]
    intro above hmem
    rcases hinits above hmem with rfl | hdir
    · simp [hfree]
    · simp [hdir, Node.isFile]
  refine ⟨_, by rw [Tree.perform, hnofile]; rfl, ?_⟩
  intro path
  rw [get_dirs]
  by_cases hlast : path = base ++ [name]
  · simp [hlast]
  · rw [if_neg hlast]
    split
    · rename_i hmem
      exact ((hinits path hmem).resolve_left hlast).symm
    · rfl

/-- Copying the entries of a listing into a directory that has none of their names. -/
theorem runOps_copyEntries (base : List ν) (tree : Tree ν γ) (hdistinct : listing.Distinct)
    (habove : ∀ above, above <+: base → tree.get above = some .dir)
    (hfree : ∀ name ∈ listing.names, ∀ path, tree.get (base ++ name :: path) = none) :
    ∃ tree', tree.runOps (listing.copyEntries base) = .ok tree' ∧
      Copied listing base tree tree' := by
  induction listing generalizing base tree with
  | nil => exact ⟨tree, rfl, fun path => by simp [Listing.entry], fun path _ => rfl⟩
  | symlink name rest ih =>
    obtain ⟨tree', hrun, hcopied⟩ :=
      ih base tree hdistinct.2 habove fun other hother => hfree other (List.mem_cons_of_mem name hother)
    exact ⟨tree', hrun, hcopied.below, hcopied.elsewhere⟩
  | file name content rest ih =>
    obtain ⟨hname, hrest⟩ := hdistinct
    have hself := hfree name List.mem_cons_self
    obtain ⟨tree₁, hperform, hget⟩ := perform_copy (habove base (List.prefix_refl base))
      (hself []) content
    -- the file is not above `base`, and no other entry of the listing has its name
    have habove₁ : ∀ above, above <+: base → tree₁.get above = some .dir := by
      intro above hprefix
      rw [hget, if_neg, habove above hprefix]
      rintro rfl
      simpa using hprefix.length_le
    have hfree₁ : ∀ other ∈ rest.names, ∀ path, tree₁.get (base ++ other :: path) = none := by
      intro other hother path
      rw [hget, if_neg, hfree other (List.mem_cons_of_mem name hother)]
      intro heq
      have hsame := List.append_cancel_left heq
      obtain ⟨rfl, -⟩ := List.cons.inj hsame
      exact hname hother
    obtain ⟨tree', hrun, hcopied⟩ := ih base tree₁ hrest habove₁ hfree₁
    refine ⟨tree', by simp only [Listing.copyEntries, Tree.runOps, hperform, hrun], ?_, ?_⟩
    · intro path
      rw [hcopied.below, hget, Listing.entry]
      by_cases hpath : path = [name]
      · subst hpath
        simp [Listing.entry_of_not_mem hname]
      · have hne : base ++ path ≠ base ++ [name] := fun heq => hpath (List.append_cancel_left heq)
        rw [if_neg hne, if_neg hpath]
    · intro path hpath
      rw [hcopied.elsewhere path hpath, hget, if_neg]
      rintro rfl
      exact hpath (List.prefix_append base [name])
  | dir name entries rest ihentries ihrest =>
    obtain ⟨hname, hentries, hrest⟩ := hdistinct
    have hself := hfree name List.mem_cons_self
    obtain ⟨tree₁, hperform, hget⟩ := perform_createDirAll habove (hself [])
    have habove₁ : ∀ above, above <+: base ++ [name] → tree₁.get above = some .dir := by
      intro above hprefix
      rw [hget]
      split
      · rfl
      · rename_i hne
        exact habove above ((List.prefix_concat_iff.1 hprefix).resolve_left hne)
    have hfree₁ : ∀ other ∈ entries.names, ∀ path,
        tree₁.get (base ++ [name] ++ other :: path) = none := by
      intro other _ path
      rw [hget, if_neg (by simp), List.append_assoc]
      exact hself (other :: path)
    obtain ⟨tree₂, hrun₂, hcopied₂⟩ := ihentries (base ++ [name]) tree₁ hentries habove₁ hfree₁
    -- the subdirectory leaves what is above it and the other names of `base`
    have hkeep : ∀ path, ¬ base ++ [name] <+: path → tree₂.get path = tree.get path := by
      intro path hpath
      rw [hcopied₂.elsewhere path hpath, hget, if_neg]
      rintro rfl
      exact hpath (List.prefix_refl _)
    have habove₂ : ∀ above, above <+: base → tree₂.get above = some .dir := by
      intro above hprefix
      rw [hkeep above, habove above hprefix]
      intro hlonger
      simpa using (hlonger.trans hprefix).length_le
    have hother : ∀ other, other ≠ name → ∀ path, ¬ base ++ [name] <+: base ++ other :: path := by
      intro other hne path hprefix
      have hsame := (List.prefix_append_right_inj base).1 hprefix
      exact hne (List.cons_prefix_cons.1 hsame).1.symm
    have hfree₂ : ∀ other ∈ rest.names, ∀ path, tree₂.get (base ++ other :: path) = none := by
      intro other hmem path
      rw [hkeep, hfree other (List.mem_cons_of_mem name hmem)]
      refine hother other ?_ path
      rintro rfl
      exact hname hmem
    obtain ⟨tree', hrun, hcopied⟩ := ihrest base tree₂ hrest habove₂ hfree₂
    refine ⟨tree', ?_, ?_, ?_⟩
    · simp only [Listing.copyEntries, Tree.runOps, hperform, runOps_append, hrun₂, hrun]
    · intro path
      rw [hcopied.below]
      cases path with
      | nil =>
        rw [hkeep, Listing.entry_nil_path, Listing.entry_nil_path]
        intro hlonger
        simpa using hlonger.length_le
      | cons head path =>
        simp only [Listing.entry]
        by_cases hhead : head = name
        · subst hhead
          have hsub := hcopied₂.below path
          rw [List.append_assoc] at hsub
          rw [Listing.entry_of_not_mem hname, Option.none_or, if_pos rfl]
          refine hsub.trans ?_
          rw [hget]
          by_cases hpath : path = []
          · subst hpath
            simp [Listing.entry_nil_path]
          · rw [if_neg (by simpa using hpath), if_neg hpath]
            rfl
        · rw [if_neg hhead, hkeep _ (hother head hhead path)]
    · intro path hpath
      rw [hcopied.elsewhere path hpath, hkeep]
      intro hlonger
      exact hpath ((List.prefix_append base [name]).trans hlonger)

/-- Copying a listing to where nothing is gives exactly its tree. -/
theorem runOps_copy (hdistinct : listing.Distinct) (hfree : ∀ path, tree.get path = none) :
    ∃ tree', tree.runOps listing.copy = .ok tree' ∧ tree'.get = listing.tree := by
  have hperform : tree.perform (.createDirAll []) = .ok (([], .dir) :: tree) := by
    simp [Tree.perform, hfree]
  have hget : ∀ path, Tree.get (([], .dir) :: tree) path = if path = [] then some .dir else none := by
    intro path
    rw [← hfree path]
    exact get_set tree [] path .dir
  obtain ⟨tree', hrun, hcopied⟩ := runOps_copyEntries [] (([], .dir) :: tree) hdistinct
    (fun above habove => by rw [hget, if_pos (List.prefix_nil.1 habove)])
    (fun name _ path => by rw [hget, if_neg (by simp)])
  refine ⟨tree', by simp only [Listing.copy, Tree.runOps, hperform, hrun], ?_⟩
  funext path
  have hbelow := hcopied.below path
  rw [List.nil_append, hget] at hbelow
  rw [hbelow, Listing.tree]
  split
  · rename_i hpath
    subst hpath
    rw [Listing.entry_nil_path, Option.none_or]
  · rw [Option.or_none]

end FileTree

end Edda.Support.FileTree
