import Edda.Support.FileTree

/-!
# Archives of directory trees

An archive is a list of paths with what is there. `walk` lists the leaves of a directory with a
stack of the directories still to be read, and `walk_perm` says that these are the leaves that the
recursion over the tree gives. `unpackAll` writes the entries of an archive one after the other, and
`unpackAll_iff` says when it gets through and what is there afterwards.
-/

set_option autoImplicit false

namespace Edda.Support.FileTree

universe u v

/-- A file with its content, or a directory without its entries. -/
abbrev Archive (ν : Type u) (γ : Type v) := List (List ν × Node γ)

section Leaves

variable {ν : Type u} {γ : Type v}

/-- The entries of a directory that are not directories. A link counts as an empty directory. -/
def Listing.here (base : List ν) : Listing ν γ → Archive ν γ
  | .nil => []
  | .file name content rest => (base ++ [name], .file content) :: rest.here base
  | .symlink name rest => (base ++ [name], .dir) :: rest.here base
  | .dir _ _ rest => rest.here base

/-- The directories of a directory. -/
def Listing.subdirs (base : List ν) : Listing ν γ → List (List ν × Listing ν γ)
  | .nil => []
  | .file _ _ rest => rest.subdirs base
  | .symlink _ rest => rest.subdirs base
  | .dir name entries rest => (base ++ [name], entries) :: rest.subdirs base

/-- All entries below a directory that are not directories. -/
def Listing.leaves (base : List ν) : Listing ν γ → Archive ν γ
  | .nil => []
  | .file name content rest => (base ++ [name], .file content) :: rest.leaves base
  | .symlink name rest => (base ++ [name], .dir) :: rest.leaves base
  | .dir name entries rest => entries.leaves (base ++ [name]) ++ rest.leaves base

/-- How many directories a directory has below it. -/
def Listing.dirCount : Listing ν γ → Nat
  | .nil => 0
  | .file _ _ rest => rest.dirCount
  | .symlink _ rest => rest.dirCount
  | .dir _ entries rest => entries.dirCount + 1 + rest.dirCount

/-- The entries of a directory whose names are kept. -/
def Listing.keep (keeps : ν → Bool) : Listing ν γ → Listing ν γ
  | .nil => .nil
  | .file name content rest =>
    if keeps name then .file name content (rest.keep keeps) else rest.keep keeps
  | .symlink name rest => if keeps name then .symlink name (rest.keep keeps) else rest.keep keeps
  | .dir name entries rest =>
    if keeps name then .dir name entries (rest.keep keeps) else rest.keep keeps

/-- The leaves below the directories of a stack. The directories of the one on top are pushed in
the order in which they are read. -/
def walk : Nat → List (List ν × Listing ν γ) → Archive ν γ
  | 0, _ => []
  | _ + 1, [] => []
  | fuel + 1, (base, entries) :: stack =>
    entries.here base ++ walk fuel ((entries.subdirs base).reverse ++ stack)

/-- How many directories are read from a stack. -/
def toRead (stack : List (List ν × Listing ν γ)) : Nat :=
  (stack.map fun dir => dir.2.dirCount + 1).sum

/-- The leaves of a directory are its own entries and the leaves of its directories. -/
theorem Listing.leaves_perm (base : List ν) (listing : Listing ν γ) :
    (listing.leaves base).Perm (listing.here base ++
      (listing.subdirs base).flatMap fun dir => dir.2.leaves dir.1) := by
  induction listing with
  | nil => exact List.Perm.refl _
  | file name content rest ih => exact ih.cons _
  | symlink name rest ih => exact ih.cons _
  | dir name entries rest _ ih =>
    simp only [leaves, here, subdirs, List.flatMap_cons]
    refine (ih.append_left _).trans ?_
    exact List.perm_append_comm_assoc _ _ _

theorem Listing.mem_names_keep {keeps : ν → Bool} {listing : Listing ν γ} {name : ν} :
    name ∈ (listing.keep keeps).names ↔ name ∈ listing.names ∧ keeps name = true := by
  induction listing with
  | nil => simp [keep, names]
  | file other content rest ih =>
    simp only [keep, names]
    split <;> grind [names]
  | symlink other rest ih =>
    simp only [keep, names]
    split <;> grind [names]
  | dir other entries rest _ ih =>
    simp only [keep, names]
    split <;> grind [names]

theorem Listing.Distinct.keep {keeps : ν → Bool} {listing : Listing ν γ} (h : listing.Distinct) :
    (listing.keep keeps).Distinct := by
  have hname : ∀ {name : ν} {rest : Listing ν γ}, name ∉ rest.names →
      name ∉ (rest.keep keeps).names := fun hnot hmem => hnot (mem_names_keep.1 hmem).1
  induction listing with
  | nil => exact trivial
  | file name content rest ih =>
    rw [Listing.keep]
    split
    · exact ⟨hname h.1, ih h.2⟩
    · exact ih h.2
  | symlink name rest ih =>
    rw [Listing.keep]
    split
    · exact ⟨hname h.1, ih h.2⟩
    · exact ih h.2
  | dir name entries rest _ ih =>
    rw [Listing.keep]
    split
    · exact ⟨hname h.1, h.2.1, ih h.2.2⟩
    · exact ih h.2.2

theorem Listing.dirCount_keep_le (keeps : ν → Bool) (listing : Listing ν γ) :
    (listing.keep keeps).dirCount ≤ listing.dirCount := by
  induction listing with
  | nil => exact le_refl _
  | file name content rest ih => grind [keep, dirCount]
  | symlink name rest ih => grind [keep, dirCount]
  | dir name entries rest _ ih => grind [keep, dirCount]

theorem Listing.toRead_subdirs (base : List ν) (listing : Listing ν γ) :
    toRead (listing.subdirs base) = listing.dirCount := by
  induction listing with
  | nil => rfl
  | file name content rest ih => exact ih
  | symlink name rest ih => exact ih
  | dir name entries rest _ ih =>
    simp only [toRead, subdirs, List.map_cons, List.sum_cons, dirCount] at ih ⊢
    rw [ih]

theorem toRead_append (stack stack' : List (List ν × Listing ν γ)) :
    toRead (stack ++ stack') = toRead stack + toRead stack' := by
  simp only [toRead, List.map_append, List.sum_append]

theorem toRead_reverse (stack : List (List ν × Listing ν γ)) :
    toRead stack.reverse = toRead stack := by
  simp only [toRead, List.map_reverse, List.sum_reverse]

/-- The walk finds the leaves below the directories of its stack, each once. -/
theorem walk_perm (fuel : Nat) (stack : List (List ν × Listing ν γ)) (h : toRead stack ≤ fuel) :
    (walk fuel stack).Perm (stack.flatMap fun dir => dir.2.leaves dir.1) := by
  -- every step takes one directory off those that are to be read
  induction fuel generalizing stack with
  | zero =>
    cases stack with
    | nil => exact List.Perm.refl _
    | cons dir stack => simp [toRead] at h
  | succ fuel ih =>
    cases stack with
    | nil => exact List.Perm.refl _
    | cons dir stack =>
      obtain ⟨base, entries⟩ := dir
      have hcost : toRead ((entries.subdirs base).reverse ++ stack) ≤ fuel := by
        have hhead : toRead ((base, entries) :: stack) = entries.dirCount + 1 + toRead stack := by
          simp only [toRead, List.map_cons, List.sum_cons]
        rw [toRead_append, toRead_reverse, Listing.toRead_subdirs]
        omega
      have hrest := ih _ hcost
      rw [List.flatMap_append] at hrest
      have hsubdirs : ((entries.subdirs base).reverse.flatMap fun dir => dir.2.leaves dir.1).Perm
          ((entries.subdirs base).flatMap fun dir => dir.2.leaves dir.1) :=
        (List.reverse_perm _).flatMap_right _
      have hwalked : (walk fuel ((entries.subdirs base).reverse ++ stack)).Perm
          (((entries.subdirs base).flatMap fun dir => dir.2.leaves dir.1) ++
            stack.flatMap fun dir => dir.2.leaves dir.1) :=
        hrest.trans (hsubdirs.append_right _)
      rw [walk, List.flatMap_cons]
      refine (hwalked.append_left _).trans ?_
      rw [← List.append_assoc]
      exact (entries.leaves_perm base).symm.append_right _

end Leaves

section Unpack

variable {ν : Type u} {γ : Type v} [DecidableEq ν]

/-- What an archive puts at a path: its entry there, or a directory above an entry. -/
def imageOf (archive : Archive ν γ) (path : List ν) : Option (Node γ) :=
  match archive.find? fun entry => entry.1 = path with
  | some entry => some entry.2
  | none => if archive.any fun entry => path.isPrefixOf entry.1 then some .dir else none

/-- The write of an entry. -/
def Node.write (path : List ν) : Node γ → Op ν γ
  | .dir => .createDirAll path
  | .file content => .copy path content

/-- Writes an entry, with the directories above it. -/
def Tree.unpackEntry (tree : Tree ν γ) (path : List ν) (node : Node γ) :
    Tree ν γ × Option IoError :=
  match tree.perform (.createDirAll path.dropLast) with
  | .error err => (tree, some err)
  | .ok tree => match tree.perform (node.write path) with
    | .error err => (tree, some err)
    | .ok tree => (tree, none)

/-- Writes the entries of an archive, up to the first that fails. -/
def Tree.unpackAll : Tree ν γ → Archive ν γ → Tree ν γ × Option IoError
  | tree, [] => (tree, none)
  | tree, (path, node) :: archive => match tree.unpackEntry path node with
    | (tree, some err) => (tree, some err)
    | (tree, none) => Tree.unpackAll tree archive

/-- Where something is to be put on something, both are files or both are directories. -/
def Fits (tree : Tree ν γ) (image : List ν → Option (Node γ)) : Prop :=
  ∀ path new old, image path = some new → tree.get path = some old → new.isFile = old.isFile

/-- No entry of an archive is at or above another. -/
def Apart (archive : Archive ν γ) : Prop :=
  archive.Pairwise fun entry other => ¬ entry.1 <+: other.1 ∧ ¬ other.1 <+: entry.1

variable {tree : Tree ν γ} {base path : List ν} {name : ν} {node : Node γ}
  {archive : Archive ν γ}

theorem imageOf_singleton : imageOf [(path, node)] =
    fun other => if path = other then some node else if other <+: path then some .dir else none := by
  funext other
  simp only [imageOf, List.find?_cons, List.find?_nil, List.any_cons, List.any_nil, Bool.or_false,
    List.isPrefixOf_iff_prefix]
  by_cases h : path = other
  · simp [h]
  · simp [h]

/-- Directories are made where no file is in the way. -/
theorem perform_createDirAll_iff (tree : Tree ν γ) (path : List ν) :
    (∃ tree', tree.perform (.createDirAll path) = .ok tree') ↔
      ∀ above, above <+: path → ∀ content, tree.get above ≠ some (.file content) := by
  simp only [Tree.perform]
  split
  · rename_i hfile
    obtain ⟨above, habove, hfile⟩ := List.any_eq_true.1 hfile
    constructor
    · rintro ⟨tree', h⟩
      cases h
    · intro h
      cases hget : tree.get above with
      | none => simp [hget] at hfile
      | some node =>
        cases node with
        | dir => simp [hget, Node.isFile] at hfile
        | file content => exact absurd hget (h above ((List.mem_inits _ _).1 habove) content)
  · rename_i hfile
    refine ⟨fun _ above habove content hget => hfile ?_, fun _ => ⟨_, rfl⟩⟩
    exact List.any_eq_true.2 ⟨above, (List.mem_inits _ _).2 habove, by simp [hget, Node.isFile]⟩

theorem get_of_createDirAll {tree' : Tree ν γ}
    (h : tree.perform (.createDirAll path) = .ok tree') (other : List ν) :
    tree'.get other = if other <+: path then some .dir else tree.get other := by
  simp only [Tree.perform] at h
  split at h
  · cases h
  · obtain rfl := Except.ok.inj h
    simp only [get_dirs, List.mem_inits]

omit [DecidableEq ν] in
theorem not_concat_leads (base : List ν) (name : ν) : ¬ base ++ [name] <+: base := by
  intro h
  simpa using h.length_le

theorem fits_singleton : Fits tree (imageOf [(base ++ [name], node)]) ↔
    (∀ above, above <+: base → ∀ content, tree.get above ≠ some (.file content)) ∧
      ∀ old, tree.get (base ++ [name]) = some old → node.isFile = old.isFile := by
  rw [imageOf_singleton]
  constructor
  · intro h
    refine ⟨fun above habove content hget => ?_, fun old hold => ?_⟩
    · have hne : base ++ [name] ≠ above := by
        rintro rfl
        exact not_concat_leads base name habove
      have himage : (if base ++ [name] = above then some node else
          if above <+: base ++ [name] then some Node.dir else none) = some .dir := by
        rw [if_neg hne, if_pos (habove.trans (List.prefix_append base [name]))]
      exact absurd (h above .dir _ himage hget) (by simp [Node.isFile])
    · exact h (base ++ [name]) node old (if_pos rfl) hold
  · rintro ⟨habove, hself⟩ other new old hnew hold
    simp only at hnew
    split at hnew
    · rename_i hother
      subst hother
      obtain rfl := Option.some.inj hnew
      exact hself old hold
    · rename_i hother
      split at hnew
      · rename_i hleads
        obtain rfl := Option.some.inj hnew
        have hbase := (List.prefix_concat_iff.1 hleads).resolve_left (Ne.symm hother)
        cases old with
        | dir => rfl
        | file content => exact absurd hold (habove other hbase content)
      · cases hnew

/-- An entry is written where it fits, and nothing but its image changes. -/
theorem unpackEntry_iff (tree : Tree ν γ) (base : List ν) (name : ν) (node : Node γ) :
    ((tree.unpackEntry (base ++ [name]) node).2 = none ↔
      Fits tree (imageOf [(base ++ [name], node)])) ∧
    ((tree.unpackEntry (base ++ [name]) node).2 = none → ∀ path,
      (tree.unpackEntry (base ++ [name]) node).1.get path =
        (imageOf [(base ++ [name], node)] path).or (tree.get path)) := by
  rw [fits_singleton, imageOf_singleton, ← perform_createDirAll_iff tree base]
  simp only [Tree.unpackEntry, List.dropLast_concat]
  cases hdirs : tree.perform (.createDirAll base) with
  | error err => simp
  | ok tree₁ =>
    have hget := get_of_createDirAll hdirs
    have hself : tree₁.get (base ++ [name]) = tree.get (base ++ [name]) := by
      rw [hget, if_neg (not_concat_leads base name)]
    have hbase : tree₁.get base = some .dir := by
      rw [hget, if_pos (List.prefix_refl base)]
    -- what is at the other paths after the entry itself is written
    have hrest : ∀ path, path ≠ base ++ [name] → tree₁.get path =
        (if path <+: base ++ [name] then some Node.dir else none).or (tree.get path) := by
      intro path hpath
      have hleads : path <+: base ++ [name] ↔ path <+: base := by
        rw [List.prefix_concat_iff, or_iff_right hpath]
      rw [hget]
      simp only [hleads]
      split <;> rfl
    simp only [Except.ok.injEq, exists_eq', true_and]
    cases node with
    | file content =>
      simp only [Node.write, Tree.perform, List.dropLast_concat, hbase, hself]
      cases hold : tree.get (base ++ [name]) with
      | some old =>
        cases old with
        | dir => simp [Node.isFile]
        | file other =>
          refine ⟨by simp [Node.isFile], fun _ path => ?_⟩
          rw [get_set]
          by_cases hpath : path = base ++ [name]
          · simp [hpath]
          · rw [if_neg hpath, if_neg (Ne.symm hpath), hrest path hpath]
      | none =>
        refine ⟨by simp, fun _ path => ?_⟩
        rw [get_set]
        by_cases hpath : path = base ++ [name]
        · simp [hpath]
        · rw [if_neg hpath, if_neg (Ne.symm hpath), hrest path hpath]
    | dir =>
      simp only [Node.write]
      cases hdir : tree₁.perform (.createDirAll (base ++ [name])) with
      | error err =>
        refine ⟨iff_of_false (by simp) fun hkind => ?_, by simp⟩
        have hfails : ¬ ∃ tree', tree₁.perform (.createDirAll (base ++ [name])) = .ok tree' := by
          simp [hdir]
        refine hfails ((perform_createDirAll_iff _ _).2 fun above habove content hfile => ?_)
        rcases List.prefix_concat_iff.1 habove with rfl | habove
        · rw [hself] at hfile
          exact absurd (hkind _ hfile) (by simp [Node.isFile])
        · rw [hget, if_pos habove] at hfile
          cases hfile
      | ok tree₂ =>
        have hget₂ := get_of_createDirAll hdir
        refine ⟨iff_of_true rfl fun old hold => ?_, fun _ path => ?_⟩
        · have hno := (perform_createDirAll_iff tree₁ (base ++ [name])).1 ⟨tree₂, hdir⟩
            (base ++ [name]) (List.prefix_refl _)
          cases old with
          | dir => rfl
          | file content => exact absurd (hself.trans hold) (hno content)
        · rw [hget₂]
          by_cases hpath : path = base ++ [name]
          · simp [hpath]
          · rw [if_neg (Ne.symm hpath), hrest path hpath]
            split <;> rfl

/-- Where an entry and the entries behind it both put something, they put a directory. -/
theorem imageOf_both {entry : List ν × Node γ} {new new' : Node γ}
    (hapart : Apart (entry :: archive)) (hentry : imageOf [entry] path = some new)
    (harchive : imageOf archive path = some new') : new = .dir ∧ new' = .dir := by
  obtain ⟨hfirst, -⟩ := List.pairwise_cons.1 hapart
  -- an entry of the archive that has the path, or is below it
  have hbelow : ∃ other ∈ archive, path <+: other.1 ∧ (path = other.1 ∨ new' = .dir) := by
    simp only [imageOf] at harchive
    split at harchive
    · rename_i other hfind
      have hpath : other.1 = path := by simpa using List.find?_some hfind
      exact ⟨other, List.mem_of_find?_eq_some hfind, by rw [hpath], Or.inl hpath.symm⟩
    · split at harchive
      · rename_i hany
        obtain ⟨other, hmem, hleads⟩ := List.any_eq_true.1 hany
        exact ⟨other, hmem, List.isPrefixOf_iff_prefix.1 hleads,
          Or.inr (Option.some.inj harchive).symm⟩
      · cases harchive
  obtain ⟨other, hmem, hleads, hkind⟩ := hbelow
  obtain ⟨hnot, hnot'⟩ := hfirst other hmem
  rw [show entry = (entry.1, entry.2) from rfl, imageOf_singleton] at hentry
  simp only at hentry
  split at hentry
  · rename_i hself
    exact absurd (hself ▸ hleads) hnot
  · split at hentry
    · rename_i hleads'
      refine ⟨(Option.some.inj hentry).symm, hkind.resolve_left ?_⟩
      rintro rfl
      exact hnot' hleads'
    · cases hentry

/-- The image of an archive is that of its first entry and that of the others. -/
theorem imageOf_cons {entry : List ν × Node γ} (hapart : Apart (entry :: archive))
    (path : List ν) :
    imageOf (entry :: archive) path = (imageOf archive path).or (imageOf [entry] path) := by
  obtain ⟨hfirst, -⟩ := List.pairwise_cons.1 hapart
  by_cases hself : entry.1 = path
  · have hother : ∀ other ∈ archive, ¬ path <+: other.1 := fun other hmem hleads =>
      (hfirst other hmem).1 (hself ▸ hleads)
    have hfind : archive.find? (fun entry => entry.1 = path) = none := by
      refine List.find?_eq_none.2 fun other hmem heq => hother other hmem ?_
      rw [show path = other.1 by simpa using (eq_comm.1 (of_decide_eq_true heq))]
    have hany : (archive.any fun entry => path.isPrefixOf entry.1) = false := by
      refine List.any_eq_false.2 fun other hmem hleads => hother other hmem ?_
      exact List.isPrefixOf_iff_prefix.1 hleads
    simp [imageOf, hself, hfind, hany]
  · simp only [imageOf, List.find?_cons, hself, decide_false, List.any_cons, List.find?_nil,
      List.any_nil, Bool.or_false]
    cases archive.find? fun entry => entry.1 = path with
    | some other => rfl
    | none =>
      by_cases hentry : path.isPrefixOf entry.1 = true
      · by_cases harchive : (archive.any fun entry => path.isPrefixOf entry.1) = true
        · simp [hentry, harchive]
        · simp [hentry, harchive]
      · simp only [eq_false_of_ne_true hentry, Bool.false_or, Bool.false_eq_true, if_false,
          Option.or_none]

theorem fits_cons {entry : List ν × Node γ} {tree₁ : Tree ν γ} (hapart : Apart (entry :: archive))
    (hget : ∀ path, tree₁.get path = (imageOf [entry] path).or (tree.get path)) :
    Fits tree (imageOf (entry :: archive)) ↔
      Fits tree (imageOf [entry]) ∧ Fits tree₁ (imageOf archive) := by
  constructor
  · intro h
    refine ⟨fun path new old hnew hold => ?_, fun path new old hnew hold => ?_⟩
    · cases hother : imageOf archive path with
      | none => exact h path new old (by rw [imageOf_cons hapart, hother, hnew, Option.none_or]) hold
      | some new' =>
        obtain ⟨rfl, rfl⟩ := imageOf_both hapart hnew hother
        exact h path .dir old (by rw [imageOf_cons hapart, hother, Option.some_or]) hold
    · have himage : imageOf (entry :: archive) path = some new := by
        rw [imageOf_cons hapart, hnew, Option.some_or]
      rw [hget] at hold
      cases hother : imageOf [entry] path with
      | none => exact h path new old himage (by rw [← hold, hother, Option.none_or])
      | some new' =>
        obtain ⟨rfl, rfl⟩ := imageOf_both hapart hother hnew
        rw [hother, Option.some_or] at hold
        rw [Option.some.inj hold]
  · rintro ⟨hentry, harchive⟩ path new old hnew hold
    rw [imageOf_cons hapart] at hnew
    cases hother : imageOf archive path with
    | none =>
      rw [hother, Option.none_or] at hnew
      exact hentry path new old hnew hold
    | some new' =>
      rw [hother, Option.some_or] at hnew
      obtain rfl := Option.some.inj hnew
      cases hself : imageOf [entry] path with
      | none => exact harchive path new' old hother (by rw [hget, hself, Option.none_or, hold])
      | some above =>
        have habove := harchive path new' above hother (by rw [hget, hself, Option.some_or])
        exact habove.trans (hentry path above old hself hold)

/-- An archive whose entries are apart is written exactly where it fits, and then its image is laid
over what was there. -/
theorem unpackAll_iff (tree : Tree ν γ) (archive : Archive ν γ) (hapart : Apart archive)
    (hpaths : ∀ entry ∈ archive, entry.1 ≠ []) :
    ((tree.unpackAll archive).2 = none ↔ Fits tree (imageOf archive)) ∧
    ((tree.unpackAll archive).2 = none → ∀ path,
      (tree.unpackAll archive).1.get path = (imageOf archive path).or (tree.get path)) := by
  induction archive generalizing tree with
  | nil => exact ⟨iff_of_true rfl fun path new old h => by simp [imageOf] at h, fun _ path => rfl⟩
  | cons entry archive ih =>
    obtain ⟨path, node⟩ := entry
    obtain ⟨base, name, rfl⟩ := (List.eq_nil_or_concat path).resolve_left
      (hpaths (path, node) List.mem_cons_self)
    obtain ⟨hok, hget⟩ := unpackEntry_iff tree base name node
    obtain ⟨-, hrest⟩ := List.pairwise_cons.1 hapart
    simp only [Tree.unpackAll, List.concat_eq_append] at hok hget hapart ⊢
    generalize tree.unpackEntry (base ++ [name]) node = written at hok hget
    obtain ⟨tree₁, failure⟩ := written
    cases failure with
    | some err =>
      refine ⟨iff_of_false (by simp) fun hfits => ?_, by simp⟩
      refine absurd (hok.2 ?_) (by simp)
      -- the image of the first entry is part of the image of all
      intro other new old hnew hold
      cases hother : imageOf archive other with
      | none =>
        exact hfits other new old (by rw [imageOf_cons hapart, hother, hnew, Option.none_or]) hold
      | some new' =>
        obtain ⟨rfl, rfl⟩ := imageOf_both hapart hnew hother
        exact hfits other .dir old (by rw [imageOf_cons hapart, hother, Option.some_or]) hold
    | none =>
      obtain ⟨hokrest, hgetrest⟩ := ih tree₁ hrest fun entry hmem =>
        hpaths entry (List.mem_cons_of_mem _ hmem)
      have hget₁ := hget rfl
      refine ⟨?_, fun h other => ?_⟩
      · rw [fits_cons hapart hget₁, hokrest]
        exact (and_iff_right (hok.1 rfl)).symm
      · rw [hgetrest h, hget₁, imageOf_cons hapart, Option.or_assoc]

theorem imageOf_append {archive' : Archive ν γ} (hapart : Apart (archive ++ archive'))
    (path : List ν) :
    imageOf (archive ++ archive') path = (imageOf archive' path).or (imageOf archive path) := by
  induction archive with
  | nil => exact (Option.or_none).symm
  | cons entry archive ih =>
    rw [List.cons_append] at hapart ⊢
    obtain ⟨hfirst, hrest⟩ := List.pairwise_cons.1 hapart
    have hfront : Apart (entry :: archive) :=
      List.pairwise_cons.2 ⟨fun other hmem => hfirst other (List.mem_append_left _ hmem),
        (List.pairwise_append.1 hrest).1⟩
    rw [imageOf_cons hapart, ih hrest, imageOf_cons hfront, Option.or_assoc]

theorem imageOf_eq_none (h : ∀ entry ∈ archive, ¬ path <+: entry.1) :
    imageOf archive path = none := by
  have hfind : archive.find? (fun entry => entry.1 = path) = none := by
    refine List.find?_eq_none.2 fun entry hmem heq => h entry hmem ?_
    rw [show entry.1 = path from of_decide_eq_true heq]
  have hany : (archive.any fun entry => path.isPrefixOf entry.1) = false :=
    List.any_eq_false.2 fun entry hmem hleads =>
      h entry hmem (List.isPrefixOf_iff_prefix.1 hleads)
  simp only [imageOf, hfind, hany, Bool.false_eq_true, if_false]

omit [DecidableEq ν] in
theorem Apart.perm {archive' : Archive ν γ} (h : Apart archive) (hperm : archive.Perm archive') :
    Apart archive' :=
  hperm.pairwise h fun hab => hab.symm

omit [DecidableEq ν] in
theorem Apart.not_leads {entry other : List ν × Node γ} (h : Apart archive)
    (hentry : entry ∈ archive) (hother : other ∈ archive) (hne : entry ≠ other) :
    ¬ entry.1 <+: other.1 := by
  have hsymm : Std.Symm fun entry other : List ν × Node γ =>
      ¬ entry.1 <+: other.1 ∧ ¬ other.1 <+: entry.1 := ⟨fun _ _ hab => hab.symm⟩
  exact (List.Pairwise.forall h hentry hother hne).1

omit [DecidableEq ν] in
theorem Apart.nodup (h : Apart archive) : archive.Nodup := by
  refine List.Pairwise.imp (fun {entry other} hapart => ?_) h
  rintro rfl
  exact hapart.1 (List.prefix_refl _)

theorem imageOf_eq_some_iff (hapart : Apart archive) : imageOf archive path = some node ↔
    (path, node) ∈ archive ∨
      node = .dir ∧ ∃ entry ∈ archive, path <+: entry.1 ∧ path ≠ entry.1 := by
  simp only [imageOf]
  split
  · rename_i entry hfind
    have hmem := List.mem_of_find?_eq_some hfind
    have hpath : entry.1 = path := by simpa using List.find?_some hfind
    constructor
    · rintro h
      obtain rfl := Option.some.inj h
      exact Or.inl (hpath ▸ hmem)
    · rintro (hsame | ⟨-, other, hother, hleads, hne⟩)
      · by_contra hdiffer
        refine hapart.not_leads hmem hsame ?_ (by rw [hpath])
        rintro rfl
        exact hdiffer rfl
      · refine absurd (hpath ▸ hleads) (hapart.not_leads hmem hother ?_)
        rintro rfl
        exact hne hpath.symm
  · rename_i hfind
    have hnone : ∀ entry ∈ archive, entry.1 ≠ path := by simpa using hfind
    split
    · rename_i hany
      obtain ⟨entry, hmem, hleads⟩ := List.any_eq_true.1 hany
      constructor
      · rintro h
        exact Or.inr ⟨(Option.some.inj h).symm, entry, hmem, List.isPrefixOf_iff_prefix.1 hleads,
          (hnone entry hmem).symm⟩
      · rintro (hmem | ⟨rfl, -⟩)
        · exact absurd rfl (hnone _ hmem)
        · rfl
    · rename_i hany
      refine iff_of_false (by simp) ?_
      rintro (hmem | ⟨-, entry, hmem, hleads, -⟩)
      · exact hnone _ hmem rfl
      · exact hany (List.any_eq_true.2 ⟨entry, hmem, List.isPrefixOf_iff_prefix.2 hleads⟩)

/-- The order of the entries of an archive does not matter. -/
theorem imageOf_perm {archive' : Archive ν γ} (hapart : Apart archive)
    (hperm : archive.Perm archive') : imageOf archive = imageOf archive' := by
  funext path
  refine Option.ext fun node => ?_
  rw [imageOf_eq_some_iff hapart, imageOf_eq_some_iff (hapart.perm hperm)]
  simp only [hperm.mem_iff]

end Unpack

section Image

variable {ν : Type u} {γ : Type v}

/-- The directory has an entry that is not a directory, at any depth. -/
def Listing.hasLeaf : Listing ν γ → Bool
  | .nil => false
  | .file _ _ _ => true
  | .symlink _ _ => true
  | .dir _ entries rest => entries.hasLeaf || rest.hasLeaf

/-- Every leaf has the name of an entry behind the path of its directory. -/
theorem Listing.mem_leaves {listing : Listing ν γ} {base : List ν} {entry : List ν × Node γ}
    (h : entry ∈ listing.leaves base) : ∃ name ∈ listing.names, ∃ below, entry.1 = base ++ name :: below := by
  induction listing generalizing base with
  | nil => cases h
  | file name content rest ih =>
    rcases List.mem_cons.1 h with rfl | h
    · exact ⟨name, List.mem_cons_self, [], rfl⟩
    · obtain ⟨other, hmem, below, hpath⟩ := ih h
      exact ⟨other, List.mem_cons_of_mem name hmem, below, hpath⟩
  | symlink name rest ih =>
    rcases List.mem_cons.1 h with rfl | h
    · exact ⟨name, List.mem_cons_self, [], rfl⟩
    · obtain ⟨other, hmem, below, hpath⟩ := ih h
      exact ⟨other, List.mem_cons_of_mem name hmem, below, hpath⟩
  | dir name entries rest ihentries ihrest =>
    rcases List.mem_append.1 h with h | h
    · obtain ⟨other, -, below, hpath⟩ := ihentries h
      exact ⟨name, List.mem_cons_self, other :: below, by rw [hpath, List.append_assoc]; rfl⟩
    · obtain ⟨other, hmem, below, hpath⟩ := ihrest h
      exact ⟨other, List.mem_cons_of_mem name hmem, below, hpath⟩

theorem Listing.leaves_eq_nil_iff {listing : Listing ν γ} (base : List ν) :
    listing.leaves base = [] ↔ listing.hasLeaf = false := by
  induction listing generalizing base with
  | nil => simp [leaves, hasLeaf]
  | file name content rest ih => simp [leaves, hasLeaf]
  | symlink name rest ih => simp [leaves, hasLeaf]
  | dir name entries rest ihentries ihrest =>
    rw [leaves, List.append_eq_nil_iff, ihentries, ihrest, hasLeaf, Bool.or_eq_false_iff]

theorem not_prefix_of_ne {base below below' : List ν} {name name' : ν} (h : name ≠ name') :
    ¬ base ++ name :: below <+: base ++ name' :: below' := by
  intro hleads
  have hsame := (List.prefix_append_right_inj base).1 hleads
  exact h (List.cons_prefix_cons.1 hsame).1

/-- The leaves of a directory whose entries have names of their own are apart. -/
theorem Listing.apart_leaves {listing : Listing ν γ} (hdistinct : listing.Distinct)
    (base : List ν) : Apart (listing.leaves base) := by
  -- an entry and the leaves of the entries behind it
  have hother : ∀ (name : ν) (rest : Listing ν γ) (base below : List ν), name ∉ rest.names →
      ∀ entry ∈ rest.leaves base, ¬ base ++ name :: below <+: entry.1 ∧
        ¬ entry.1 <+: base ++ name :: below := by
    intro name rest base below hname entry hmem
    obtain ⟨other, hother, below', hpath⟩ := Listing.mem_leaves hmem
    have hne : name ≠ other := fun heq => hname (heq ▸ hother)
    rw [hpath]
    exact ⟨not_prefix_of_ne hne, not_prefix_of_ne hne.symm⟩
  induction listing generalizing base with
  | nil => exact List.Pairwise.nil
  | file name content rest ih =>
    exact List.pairwise_cons.2 ⟨hother name rest base [] hdistinct.1, ih hdistinct.2 base⟩
  | symlink name rest ih =>
    exact List.pairwise_cons.2 ⟨hother name rest base [] hdistinct.1, ih hdistinct.2 base⟩
  | dir name entries rest ihentries ihrest =>
    obtain ⟨hname, hentries, hrest⟩ := hdistinct
    refine List.pairwise_append.2 ⟨ihentries hentries _, ihrest hrest base, ?_⟩
    intro entry hmem other hmem'
    obtain ⟨below, -, below', hpath⟩ := Listing.mem_leaves hmem
    rw [hpath, List.append_assoc]
    exact hother name rest base (below :: below') hname other hmem'

variable [DecidableEq ν]

/-- What is left of a listing when only its leaves are kept, with the directories above them. -/
def Listing.image : Listing ν γ → List ν → Option (Node γ)
  | .nil, _ => none
  | .file name content rest, path =>
    if path = [name] then some (.file content) else rest.image path
  | .symlink name rest, path => if path = [name] then some .dir else rest.image path
  | .dir name entries rest, path =>
    match path with
    | [] => none
    | head :: below =>
      if head = name then
        (if below = [] then (if entries.hasLeaf then some .dir else none) else entries.image below)
      else rest.image path

theorem Listing.image_of_not_mem {listing : Listing ν γ} {name : ν} (h : name ∉ listing.names)
    (below : List ν) : listing.image (name :: below) = none := by
  induction listing with
  | nil => rfl
  | file other content rest ih =>
    simp only [Listing.names, List.mem_cons, not_or] at h
    simp [Listing.image, h.1, ih h.2]
  | symlink other rest ih =>
    simp only [Listing.names, List.mem_cons, not_or] at h
    simp [Listing.image, h.1, ih h.2]
  | dir other entries rest _ ih =>
    simp only [Listing.names, List.mem_cons, not_or] at h
    simp [Listing.image, h.1, ih h.2]

/-- The directory itself is in the image of its leaves if it has any. -/
theorem imageOf_leaves_self (listing : Listing ν γ) (base : List ν) :
    imageOf (listing.leaves base) base = if listing.hasLeaf then some .dir else none := by
  have hfind : (listing.leaves base).find? (fun entry => entry.1 = base) = none := by
    refine List.find?_eq_none.2 fun entry hmem heq => ?_
    obtain ⟨name, -, below, hpath⟩ := Listing.mem_leaves hmem
    rw [hpath] at heq
    exact absurd (of_decide_eq_true heq) (by simp)
  have hany : ((listing.leaves base).any fun entry => base.isPrefixOf entry.1) = listing.hasLeaf := by
    cases hleaf : listing.hasLeaf with
    | false => rw [(Listing.leaves_eq_nil_iff base).2 hleaf, List.any_nil]
    | true =>
      have hne : listing.leaves base ≠ [] := fun hnil =>
        Bool.false_ne_true (((Listing.leaves_eq_nil_iff base).1 hnil).symm.trans hleaf)
      obtain ⟨entry, hmem⟩ := List.exists_mem_of_ne_nil _ hne
      obtain ⟨name, -, below, hpath⟩ := Listing.mem_leaves hmem
      refine List.any_eq_true.2 ⟨entry, hmem, List.isPrefixOf_iff_prefix.2 ?_⟩
      rw [hpath]
      exact List.prefix_append base _
  simp only [imageOf, hfind, hany]

theorem imageOf_entry (base : List ν) (name head : ν) (below : List ν) (node : Node γ) :
    imageOf [(base ++ [name], node)] (base ++ head :: below) =
      if head :: below = [name] then some node else none := by
  rw [imageOf_singleton]
  simp only [List.append_cancel_left_eq, List.prefix_append_right_inj, eq_comm (a := [name])]
  by_cases hself : head :: below = [name]
  · rw [if_pos hself, if_pos hself]
  · rw [if_neg hself, if_neg hself, if_neg]
    intro hleads
    obtain ⟨rfl, hbelow⟩ := List.cons_prefix_cons.1 hleads
    exact hself (by rw [List.prefix_nil.1 hbelow])

/-- An archive of the leaves of a directory puts below it what the image of the directory says. -/
theorem imageOf_leaves {listing : Listing ν γ} (hdistinct : listing.Distinct) (base : List ν)
    (head : ν) (below : List ν) :
    imageOf (listing.leaves base) (base ++ head :: below) = listing.image (head :: below) := by
  induction listing generalizing base head below with
  | nil => rfl
  | file name content rest ih =>
    have hapart : Apart (Listing.leaves base (.file name content rest)) :=
      Listing.apart_leaves hdistinct base
    rw [Listing.leaves, imageOf_cons hapart, ih hdistinct.2, imageOf_entry, Listing.image]
    by_cases hself : head :: below = [name]
    · obtain ⟨rfl, rfl⟩ := List.cons.inj hself
      rw [Listing.image_of_not_mem hdistinct.1, Option.none_or]
    · rw [if_neg hself, if_neg hself, Option.or_none]
  | symlink name rest ih =>
    have hapart : Apart (Listing.leaves base (.symlink name rest)) :=
      Listing.apart_leaves hdistinct base
    rw [Listing.leaves, imageOf_cons hapart, ih hdistinct.2, imageOf_entry, Listing.image]
    by_cases hself : head :: below = [name]
    · obtain ⟨rfl, rfl⟩ := List.cons.inj hself
      rw [Listing.image_of_not_mem hdistinct.1, Option.none_or]
    · rw [if_neg hself, if_neg hself, Option.or_none]
  | dir name entries rest ihentries ihrest =>
    have hapart : Apart (Listing.leaves base (.dir name entries rest)) :=
      Listing.apart_leaves hdistinct base
    obtain ⟨hname, hentries, hrest⟩ := hdistinct
    rw [Listing.leaves, imageOf_append hapart, ihrest hrest, Listing.image]
    by_cases hhead : head = name
    · subst hhead
      rw [Listing.image_of_not_mem hname, Option.none_or, if_pos rfl]
      cases below with
      | nil => exact imageOf_leaves_self entries (base ++ [head])
      | cons next below =>
        have hbelow := ihentries hentries (base ++ [head]) next below
        rw [List.append_assoc] at hbelow
        exact hbelow
    · rw [if_neg hhead, imageOf_eq_none, Option.or_none]
      intro entry hmem
      obtain ⟨next, -, below', hpath⟩ := Listing.mem_leaves hmem
      rw [hpath, List.append_assoc]
      exact not_prefix_of_ne hhead

/-- The files of a directory are in the image of its leaves. -/
theorem Listing.image_eq_file_iff {listing : Listing ν γ} (hdistinct : listing.Distinct)
    {path : List ν} {content : γ} :
    listing.image path = some (.file content) ↔ listing.entry path = some (.file content) := by
  induction listing generalizing path with
  | nil => exact Iff.rfl
  | file name other rest ih =>
    simp only [image, entry]
    split
    · exact Iff.rfl
    · exact ih hdistinct.2
  | symlink name rest ih =>
    simp only [image, entry]
    split
    · rename_i hself
      rw [hself, entry_of_not_mem hdistinct.1]
      simp
    · exact ih hdistinct.2
  | dir name entries rest ihentries ihrest =>
    cases path with
    | nil => exact Iff.rfl
    | cons head below =>
      simp only [image, entry]
      split
      · split
        · cases entries.hasLeaf <;> simp
        · exact ihentries hdistinct.2.1
      · exact ihrest hdistinct.2.2

theorem Listing.entry_keep (keeps : ν → Bool) (listing : Listing ν γ) (head : ν)
    (below : List ν) : (listing.keep keeps).entry (head :: below) =
      if keeps head then listing.entry (head :: below) else none := by
  induction listing with
  | nil => simp [keep, entry]
  | file name content rest ih =>
    simp only [keep]
    split <;> grind [entry]
  | symlink name rest ih =>
    simp only [keep]
    split <;> grind [entry]
  | dir name entries rest _ ih =>
    simp only [keep]
    split <;> grind [entry]

omit [DecidableEq ν] in
theorem Listing.leaves_keep_subset (keeps : ν → Bool) (listing : Listing ν γ) (base : List ν) :
    (listing.keep keeps).leaves base ⊆ listing.leaves base := by
  induction listing with
  | nil => exact List.Subset.refl _
  | file name content rest ih =>
    simp only [keep]
    split
    · exact List.cons_subset_cons _ ih
    · exact List.subset_cons_of_subset _ ih
  | symlink name rest ih =>
    simp only [keep]
    split
    · exact List.cons_subset_cons _ ih
    · exact List.subset_cons_of_subset _ ih
  | dir name entries rest _ ih =>
    simp only [keep]
    split
    · exact List.append_subset.2 ⟨List.subset_append_left _ _,
        List.subset_append_of_subset_right _ ih⟩
    · exact List.subset_append_of_subset_right _ ih

omit [DecidableEq ν] in
theorem Listing.isFile_of_mem_leaves {listing : Listing ν γ} {base : List ν}
    {entry : List ν × Node γ} (h : entry ∈ listing.withoutLinks.leaves base) :
    entry.2.isFile = true := by
  induction listing generalizing base with
  | nil => cases h
  | file name content rest ih =>
    rcases List.mem_cons.1 h with rfl | h
    · rfl
    · exact ih h
  | symlink name rest ih => exact ih h
  | dir name entries rest ihentries ihrest =>
    rcases List.mem_append.1 h with h | h
    · exact ihentries h
    · exact ihrest h

end Image

end Edda.Support.FileTree
