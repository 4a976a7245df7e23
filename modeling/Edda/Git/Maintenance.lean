import Edda.Support.DirTree
import Edda.Support.Runs
import Edda.Support.Tasks

/-!
# Housekeeping beside live work

Pushes, imports and merges write below a repository directory one call at a time: directories, files
in them, renames. The collector walks the same directory without a lock. It removes quarantine
directories by their age, and directories below `objects` and `refs` that are empty when it comes to
remove them. A run is any interleaving of the calls.

`collection_harmless_iff` says in which runs the collector removes nothing that is in use: those in
which no operation in progress made, or is about to write into, what it removes. In these no
operation fails for something that the collector took away.
-/

set_option autoImplicit false

namespace Edda.Git.Maintenance

open Edda.Support Edda.Support.DirTree

abbrev Path := List String

abbrev RepoTree := DirTree.Tree String

/-! ## Operations -/

/-- A call of an operation. `probe` ends a part of it if there is a node at the path. -/
inductive FsCall where
  | probe (path : Path)
  | createDir (path : Path)
  | write (path : Path) (size : Nat)
  | rename (source dest : Path)
  | removeFile (path : Path)
  | removeDirAll (path : Path)
  deriving DecidableEq, Repr

/-- The calls of `create_dir_all` below a directory. -/
def createDirsFrom (base : Path) : List String → List FsCall
  | [] => []
  | name :: names => .createDir (base ++ [name]) :: createDirsFrom (base ++ [name]) names

def createDirAll (path : Path) : List FsCall := createDirsFrom [] path

/-- A part of an operation: an object, the pack of a push, which is promoted or discarded after its
checks, or the update of a ref. -/
inductive Part where
  | looseObject (dirPart filePart : String) (size : Nat)
  | pack (hash : String) (size indexSize : Nat) (promoted : Bool)
  | updateRef (dirs : List String) (name : String)
  | deleteRef (dirs : List String) (name : String)
  deriving DecidableEq, Repr

/-- `write_loose_object`. -/
def writeLooseObject (dirPart filePart : String) (size : Nat) : List FsCall :=
  .probe ["objects", dirPart, filePart] ::
    (createDirAll ["objects", dirPart] ++ [.write ["objects", dirPart, filePart] size])

/-- The quarantine directory of a push. -/
def incomingDir (seq : Nat) : Path := ["objects", "pack", "incoming-" ++ toString seq]

def packName (hash : String) : String := "pack-" ++ hash ++ ".pack"

def indexName (hash : String) : String := "pack-" ++ hash ++ ".idx"

/-- `write_pack`: the pack and its index are written under other names first, and the mark that
keeps them is dropped. -/
def writePack (dir : Path) (hash : String) (size indexSize : Nat) : List FsCall :=
  createDirAll dir ++
    [.write (dir ++ ["tmp_pack"]) size, .write (dir ++ ["tmp_idx"]) indexSize,
      .write (dir ++ ["pack-" ++ hash ++ ".keep"]) 0,
      .rename (dir ++ ["tmp_pack"]) (dir ++ [packName hash]),
      .rename (dir ++ ["tmp_idx"]) (dir ++ [indexName hash]),
      .removeFile (dir ++ ["pack-" ++ hash ++ ".keep"])]

def promote (dir : Path) (hash : String) : List FsCall :=
  [.rename (dir ++ [packName hash]) ["objects", "pack", packName hash],
    .rename (dir ++ [indexName hash]) ["objects", "pack", indexName hash],
    .removeDirAll dir]

def discard (dir : Path) : List FsCall := [.removeDirAll dir]

/-- A ref is written under its lock and renamed. -/
def writeRef (dirs : List String) (name : String) : List FsCall :=
  createDirAll ("refs" :: dirs) ++
    [.write ("refs" :: dirs ++ [name ++ ".lock"]) 41,
      .rename ("refs" :: dirs ++ [name ++ ".lock"]) ("refs" :: dirs ++ [name])]

def Part.calls (seq : Nat) : Part → List FsCall
  | .looseObject dirPart filePart size => writeLooseObject dirPart filePart size
  | .pack hash size indexSize promoted =>
    writePack (incomingDir seq) hash size indexSize ++
      if promoted then promote (incomingDir seq) hash else discard (incomingDir seq)
  | .updateRef dirs name => writeRef dirs name
  | .deleteRef dirs name => [.removeFile ("refs" :: dirs ++ [name])]

/-- How an operation is doing. A failure is blamed on the collector if that removed what is
missing. -/
inductive Status where
  | working
  | done
  | failed (err : CallError String) (blamed : Bool)
  | killed
  deriving DecidableEq, Repr

/-- An operation: the calls left of its part, the parts after it, and the nodes that it made. -/
structure Work where
  calls : List FsCall
  parts : List Part
  created : List Path
  status : Status
  deriving DecidableEq, Repr

/-! ## The collector -/

structure QuarantineSweep where
  directoriesRemoved : Nat
  bytesReclaimed : Nat
  deriving DecidableEq, Repr

structure RepoGcOutcome where
  quarantine : QuarantineSweep
  emptyDirsRemoved : Nat
  deriving DecidableEq, Repr

/-- A directory that `prune_empty_dirs` is in, with the children it has still to visit. -/
structure Frame where
  path : Path
  children : List Path
  hasFile : Bool
  allGone : Bool
  deriving DecidableEq, Repr

inductive Phase where
  | listing
  | sweeping (cutoff : Nat) (dirs : List Path) (swept : QuarantineSweep)
  | removing (cutoff : Nat) (dirs : List Path) (swept : QuarantineSweep) (dir : Path) (bytes : Nat)
  | pruning (stack : List Frame) (roots : List Path) (outcome : RepoGcOutcome)
  | finished (outcome : RepoGcOutcome)
  deriving DecidableEq, Repr

/-- A sweep, and whether it goes on to prune (`repo_gc`). -/
structure Collector where
  maxAgeSecs : Nat
  prunes : Bool
  phase : Phase
  deriving DecidableEq, Repr

def repoGc : Collector := ⟨3600, true, .listing⟩

def sweepQuarantine (maxAgeSecs : Nat) : Collector := ⟨maxAgeSecs, false, .listing⟩

section Collector

variable (tree : RepoTree) (now : Nat) (pick : Path)

/-- The quarantine directories of the listing. -/
def incomingDirs : List Path :=
  (tree.entries ["objects", "pack"]).filter fun path =>
    (path.getLast?.map fun name => "incoming-".toList.isPrefixOf name.toList).getD false

/-- What a directory looks like when it is read. -/
def readFrame (path : Path) : Frame where
  path := path
  children := (tree.entries path).filter fun child => tree.isDir child
  hasFile := (tree.entries path).any fun child => !tree.isDir child
  allGone := true

/-- A file, or a directory without entries. -/
def isLeaf (path : Path) : Bool := (tree.get path).isSome && (!tree.isDir path || tree.isEmptyDir path)

/-- The node that the next call of the collector takes away. A recursive removal takes the picked
entry; `remove_dir` takes the directory if it has no entries now. -/
def Phase.takes : Phase → Option Path
  | .removing _ _ _ dir _ =>
    if dir.isPrefixOf pick && isLeaf tree pick then some pick else none
  | .pruning (top :: _ :: _) _ _ =>
    if top.children.isEmpty && !top.hasFile && top.allGone && tree.isEmptyDir top.path then
      some top.path
    else none
  | _ => none

def QuarantineSweep.add (swept : QuarantineSweep) (bytes : Nat) : QuarantineSweep :=
  ⟨swept.directoriesRemoved + 1, swept.bytesReclaimed + bytes⟩

/-- Behind the sweep. -/
def Collector.swept (gc : Collector) (swept : QuarantineSweep) : Phase :=
  if gc.prunes then .pruning [] [["objects"], ["refs"]] ⟨swept, 0⟩ else .finished ⟨swept, 0⟩

/-- The next phase. Entries are read in any order: `pick` is the entry that comes next. -/
def Collector.next (gc : Collector) : Phase :=
  match gc.phase with
  | .listing =>
    if tree.isDir ["objects", "pack"] then
      .sweeping (now - gc.maxAgeSecs) (incomingDirs tree) ⟨0, 0⟩
    else gc.swept ⟨0, 0⟩
  | .sweeping _ [] swept => gc.swept swept
  | .sweeping cutoff dirs swept =>
    if pick ∈ dirs then
      match tree.get pick with
      | some (.dir modified) =>
        if cutoff < modified then .sweeping cutoff (dirs.erase pick) swept
        else .removing cutoff (dirs.erase pick) swept pick (tree.dirSize pick)
      | _ => .sweeping cutoff (dirs.erase pick) swept
    else .sweeping cutoff dirs swept
  | .removing cutoff dirs swept dir bytes =>
    -- an empty pick is a removal that fails
    if pick = [] ∨ tree.get dir = none then .sweeping cutoff dirs swept
    else if pick = dir ∧ isLeaf tree dir = true then .sweeping cutoff dirs (swept.add bytes)
    else .removing cutoff dirs swept dir bytes
  | .pruning [] [] outcome => .finished outcome
  | .pruning [] (root :: roots) outcome =>
    if tree.isDir root then .pruning [readFrame tree root] roots outcome
    else .pruning [] roots outcome
  | .pruning (top :: below) roots outcome =>
    if pick ∈ top.children then
      let top := { top with children := top.children.erase pick }
      if tree.isDir pick then .pruning (readFrame tree pick :: top :: below) roots outcome
      else .pruning ({ top with allGone := false } :: below) roots outcome
    else if top.children ≠ [] then .pruning (top :: below) roots outcome
    else match below with
      -- the root of a walk stays
      | [] => .pruning [] roots outcome
      | parent :: below =>
        if !top.hasFile && top.allGone && tree.isEmptyDir top.path then
          .pruning (parent :: below) roots
            { outcome with emptyDirsRemoved := outcome.emptyDirsRemoved + 1 }
        else .pruning ({ parent with allGone := false } :: below) roots outcome
  | .finished outcome => .finished outcome

end Collector

/-! ## Runs -/

/-- The repository directory, the time, the number of the next quarantine directory, what is under
way, and what collectors have removed that was not made again. -/
structure State where
  tree : RepoTree
  now : Nat
  seq : Nat
  works : List Work
  collectors : List Collector
  lost : List (Path × Node)
  deriving DecidableEq, Repr

def start (tree : RepoTree) (now : Nat) : State := ⟨tree, now, 0, [], [], []⟩

/-- A step of an operation or of a collector, or time that passes. -/
inductive Step where
  | begin (parts : List Part)
  | work (place : Nat)
  | kill (place : Nat)
  | collect (gc : Collector)
  | collector (place : Nat) (pick : Path)
  | tick (seconds : Nat)
  deriving DecidableEq, Repr

def State.put (s : State) (place : Nat) (work : Work) : State :=
  { s with works := s.works.set place work }

/-- A node was made. -/
def State.made (s : State) (tree : RepoTree) (path : Path) : State :=
  { s with tree, lost := s.lost.filter fun entry => entry.1 ≠ path }

def State.blames (s : State) : CallError String → Bool
  | .notFound path => s.lost.any fun entry => entry.1 = path
  | _ => false

/-- What an operation made after one more node. -/
def noteMade (tree : RepoTree) (path : Path) (created : List Path) : List Path :=
  if (tree.get path).isSome then created else path :: created

/-- One call of an operation, or the start of its next part. One that fails leaves what it has
written. -/
def advance (s : State) (place : Nat) (work : Work) : State :=
  let fail (err : CallError String) : State :=
    s.put place { work with status := .failed err (s.blames err) }
  match work.status, work.calls with
  | .working, [] => match work.parts with
    | [] => s.put place { work with status := .done }
    | part :: parts =>
      { s with seq := s.seq + 1 }.put place { work with calls := part.calls s.seq, parts }
  | .working, .probe path :: calls =>
    s.put place { work with calls := if (s.tree.get path).isSome then [] else calls }
  | .working, .createDir path :: calls => match s.tree.mkdir path s.now with
    | .error err => fail err
    | .ok tree => (s.made tree path).put place
        { work with calls, created := noteMade s.tree path work.created }
  | .working, .write path size :: calls => match s.tree.write path size s.now with
    | .error err => fail err
    | .ok tree => (s.made tree path).put place { work with calls, created := path :: work.created }
  | .working, .rename source dest :: calls => match s.tree.rename source dest s.now with
    | .error err => fail err
    | .ok tree => (s.made tree dest).put place
        { work with calls, created := dest :: work.created.filter (· ≠ source) }
  | .working, .removeFile path :: calls =>
    -- an error is ignored
    let tree := if s.tree.isDir path then s.tree else s.tree.unlink path s.now
    { s with tree }.put place { work with calls, created := work.created.filter (· ≠ path) }
  | .working, .removeDirAll path :: calls =>
    { s with tree := s.tree.removeAll path s.now }.put place
      { work with calls, created := work.created.filter fun other => !path.isPrefixOf other }
  | _, _ => s

/-- What a collector's call takes away. -/
def State.take (s : State) : Option Path → State
  | none => s
  | some path =>
    { s with
      tree := s.tree.unlink path s.now
      lost := (s.tree.get path).toList.map (fun node => (path, node)) ++ s.lost }

def collect (s : State) (place : Nat) (gc : Collector) (pick : Path) : State :=
  { s.take (gc.phase.takes s.tree pick) with
    collectors := s.collectors.set place { gc with phase := gc.next s.tree s.now pick } }

def step (s : State) : Step → State
  | .begin parts => { s with works := s.works ++ [⟨[], parts, [], .working⟩] }
  | .work place => match s.works[place]? with
    | some work => advance s place work
    | none => s
  | .kill place => match s.works[place]? with
    | some work =>
      if work.status = .working then s.put place { work with status := .killed } else s
    | none => s
  | .collect gc => { s with collectors := s.collectors ++ [{ gc with phase := .listing }] }
  | .collector place pick => match s.collectors[place]? with
    | some gc => collect s place gc pick
    | none => s
  | .tick seconds => { s with now := s.now + seconds }

/-! ## What is in use -/

/-- The directory that a call writes into; the repository directory is always there. -/
def above (path : Path) : List Path := if path.dropLast = [] then [] else [path.dropLast]

/-- What has to be there for calls to succeed, and is not made by an earlier one of them. -/
def needs : List FsCall → List Path
  | [] => []
  | .probe _ :: calls => needs calls
  | .createDir path :: calls => above path ++ (needs calls).filter (· ≠ path)
  | .write path _ :: calls => above path ++ (needs calls).filter (· ≠ path)
  | .rename source dest :: calls => source :: (above dest ++ (needs calls).filter (· ≠ dest))
  | .removeFile _ :: calls => needs calls
  | .removeDirAll _ :: calls => needs calls

/-- The operation is in progress, and made the node or is about to write into it. -/
def Work.Uses (work : Work) (path : Path) : Prop :=
  work.status = .working ∧ (path ∈ work.created ∨ path ∈ needs work.calls)

instance (work : Work) (path : Path) : Decidable (work.Uses path) :=
  inferInstanceAs (Decidable (_ ∧ _))

def InUse (s : State) (path : Path) : Prop := ∃ work ∈ s.works, work.Uses path

instance (s : State) (path : Path) : Decidable (InUse s path) :=
  inferInstanceAs (Decidable (∃ work ∈ _, _))

/-- The call takes away nothing that is in use. -/
def TakesUnused (s : State) : Option Path → Prop
  | none => True
  | some path => ¬ InUse s path

instance (s : State) : (taken : Option Path) → Decidable (TakesUnused s taken)
  | none => inferInstanceAs (Decidable True)
  | some _ => inferInstanceAs (Decidable (¬ _))

/-- What the step takes away, if it is one of a collector. -/
def State.takes (s : State) : Step → Option Path
  | .collector place pick => (s.collectors[place]?).bind fun gc => gc.phase.takes s.tree pick
  | _ => none

/-- The collector comes to remove only what nobody uses: a quarantine directory, or an empty
directory, that no operation in progress made or is about to write into. -/
def StepFits (s : State) (a : Step) : Prop := TakesUnused s (s.takes a)

instance (s : State) (a : Step) : Decidable (StepFits s a) :=
  inferInstanceAs (Decidable (TakesUnused _ _))

/-- If the step is one of a collector, what it takes away is not in use. -/
def Harmless (s : State) (a : Step) : Prop :=
  ∀ place pick, a = .collector place pick → ∀ path, (s.tree.get path).isSome = true →
    (step s a).tree.get path = none → ¬ InUse s path

/-! ## The parts need nothing -/

theorem mem_needs_createDirsFrom {base : Path} {names : List String} {calls : List FsCall}
    {path : Path} (h : path ∈ needs (createDirsFrom base names ++ calls)) :
    (path = base ∧ base ≠ []) ∨
      path ∈ needs calls ∧ ∀ made, path ≠ base ++ made ∨ made = [] ∨ ¬ made <+: names := by
  induction names generalizing base with
  | nil =>
    refine Or.inr ⟨h, fun made => ?_⟩
    by_cases hmade : made = []
    · exact Or.inr (Or.inl hmade)
    · exact Or.inr (Or.inr fun hnil => hmade (List.prefix_nil.1 hnil))
  | cons name names ih =>
    rw [createDirsFrom, List.cons_append, needs, List.mem_append, above, List.dropLast_concat] at h
    rcases h with habove | hrest
    · split at habove
      · cases habove
      · next hbase => exact Or.inl ⟨List.mem_singleton.1 habove, hbase⟩
    · obtain ⟨hneeds, hne⟩ := List.mem_filter.1 hrest
      rcases ih hneeds with ⟨heq, -⟩ | ⟨hcalls, hmade⟩
      · simp [heq] at hne
      · refine Or.inr ⟨hcalls, fun made => ?_⟩
        cases made with
        | nil => exact Or.inr (Or.inl rfl)
        | cons head made =>
          by_cases hhead : head = name
          · subst hhead
            cases made with
            | nil => exact Or.inl (by simpa using hne)
            | cons second made =>
              rcases hmade (second :: made) with hother | hnil | hoff
              · exact Or.inl (by simpa using hother)
              · cases hnil
              · exact Or.inr (Or.inr fun hprefix => hoff (List.cons_prefix_cons.1 hprefix).2)
          · exact Or.inr (Or.inr fun hprefix => hhead (List.cons_prefix_cons.1 hprefix).1)

/-- What comes after its directories needs none of these. -/
theorem needs_createDirAll {names : List String} {calls : List FsCall}
    (h : ∀ path ∈ needs calls, path ≠ [] ∧ path <+: names) :
    needs (createDirAll names ++ calls) = [] := by
  refine List.eq_nil_iff_forall_not_mem.2 fun path hpath => ?_
  rcases mem_needs_createDirsFrom hpath with ⟨-, hbase⟩ | ⟨hcalls, hmade⟩
  · exact hbase rfl
  · obtain ⟨hne, hprefix⟩ := h path hcalls
    rcases hmade path with hother | hnil | hoff
    · exact hother rfl
    · exact hne hnil
    · exact hoff hprefix

/-- A part of an operation needs nothing to be there. -/
theorem needs_calls (seq : Nat) (part : Part) : needs (part.calls seq) = [] := by
  cases part with
  | looseObject dirPart filePart size =>
    show needs (createDirAll _ ++ _) = []
    apply needs_createDirAll
    simp [needs, above]
  | pack hash size indexSize promoted =>
    cases promoted with
    | false =>
      show needs (createDirAll _ ++ _ ++ _) = []
      rw [List.append_assoc]
      apply needs_createDirAll
      simp [needs, above, discard, incomingDir]
    | true =>
      show needs (createDirAll _ ++ _ ++ _) = []
      rw [List.append_assoc]
      apply needs_createDirAll
      simp [needs, above, promote, incomingDir]
  | updateRef dirs name =>
    show needs (createDirAll _ ++ _) = []
    apply needs_createDirAll
    have habove (file : String) : above ("refs" :: dirs ++ [file]) = ["refs" :: dirs] := by
      rw [above, List.dropLast_concat]
      rfl
    intro path hpath
    simp only [needs, habove, List.mem_append, List.mem_cons, List.mem_filter, List.not_mem_nil,
      decide_eq_true_eq, or_false, false_and] at hpath
    -- the lock is written before it is renamed
    rcases hpath with rfl | ⟨rfl | rfl, hlock⟩
    · exact ⟨List.cons_ne_nil _ _, List.prefix_refl _⟩
    · exact absurd rfl hlock
    · exact ⟨List.cons_ne_nil _ _, List.prefix_refl _⟩
  | deleteRef dirs name => rfl

/-! ## What a collector's step takes away -/

section Steps

variable {s : State}

theorem present_of_takes {tree : RepoTree} {phase : Phase} {pick path : Path}
    (h : phase.takes tree pick = some path) : (tree.get path).isSome = true := by
  unfold Phase.takes at h
  split at h
  · split at h
    · next hleaf =>
      obtain rfl := Option.some.inj h
      simp only [isLeaf, Bool.and_eq_true] at hleaf
      exact hleaf.2.1
    · cases h
  · split at h
    · next top _ _ _ _ hempty =>
      obtain rfl := Option.some.inj h
      simp only [Tree.isEmptyDir, Bool.and_eq_true] at hempty
      cases hget : tree.get top.path with
      | none => simp [hget] at hempty
      | some node => rfl
    · cases h
  · cases h

theorem harmless_iff (a : Step) : Harmless s a ↔ StepFits s a := by
  cases a with
  | collector place pick =>
    cases hgc : s.collectors[place]? with
    | none =>
      have hstep : step s (.collector place pick) = s := by simp only [step, hgc]
      refine iff_of_true ?_ (by simp [StepFits, State.takes, hgc, TakesUnused])
      intro _ _ _ path hpresent hgone
      rw [hstep] at hgone
      simp [hgone] at hpresent
    | some gc =>
      have hstep : step s (.collector place pick) = collect s place gc pick := by
        simp only [step, hgc]
      have htakes : s.takes (.collector place pick) = gc.phase.takes s.tree pick := by
        simp [State.takes, hgc]
      rw [StepFits, htakes, Harmless, hstep]
      cases htaken : gc.phase.takes s.tree pick with
      | none =>
        have htree : (collect s place gc pick).tree = s.tree := by
          simp only [collect, htaken, State.take]
        refine iff_of_true ?_ trivial
        intro _ _ _ path hpresent hgone
        rw [htree] at hgone
        simp [hgone] at hpresent
      | some taken =>
        have htree : (collect s place gc pick).tree = s.tree.unlink taken s.now := by
          simp only [collect, htaken, State.take]
        rw [htree]
        constructor
        · intro h
          apply h place pick rfl taken (present_of_takes htaken)
          rw [← Option.isNone_iff_eq_none, ← Option.not_isSome, isSome_unlink]
          simp
        · intro h _ _ _ path hpresent hgone
          rw [← Option.isNone_iff_eq_none, ← Option.not_isSome, isSome_unlink, hpresent] at hgone
          obtain rfl : path = taken := by simpa using hgone
          exact h
  | begin parts => exact iff_of_true (by simp [Harmless]) trivial
  | work place => exact iff_of_true (by simp [Harmless]) trivial
  | kill place => exact iff_of_true (by simp [Harmless]) trivial
  | collect gc => exact iff_of_true (by simp [Harmless]) trivial
  | tick seconds => exact iff_of_true (by simp [Harmless]) trivial

/-! ## What is in use is not lost -/

/-- Nothing in use is among what the collectors have removed, and no failure is for that. -/
structure Sound (s : State) : Prop where
  kept : ∀ path, InUse s path → ∀ entry ∈ s.lost, entry.1 ≠ path
  blameless : ∀ work ∈ s.works, ∀ err, work.status ≠ .failed err true

/-- An operation goes on. -/
theorem Sound.put {s' : State} {next : Work} (h : Sound s) (place : Nat) (hworks : s'.works = s.works)
    (hlost : ∀ entry ∈ s'.lost, entry ∈ s.lost)
    (huses : ∀ path, next.Uses path → ∀ entry ∈ s'.lost, entry.1 ≠ path)
    (hstatus : ∀ err, next.status ≠ .failed err true) : Sound (s'.put place next) := by
  constructor
  · rintro path ⟨work, hwork, hpath⟩ entry hentry
    rcases List.mem_or_eq_of_mem_set hwork with hold | rfl
    · rw [hworks] at hold
      exact h.kept path ⟨work, hold, hpath⟩ entry (hlost entry hentry)
    · exact huses path hpath entry hentry
  · refine Tasks.forall_set (fun work : Work => ∀ err, work.status ≠ .failed err true) ?_ hstatus
    rw [hworks]
    exact h.blameless

/-- An operation does not fail for what was removed if it needs what is missing. -/
theorem Sound.fail {work next : Work} {err : CallError String} (h : Sound s) (place : Nat)
    (hwork : work ∈ s.works) (hworking : work.status = .working)
    (hstatus : next.status = .failed err (s.blames err))
    (hneeds : ∀ missing, err = .notFound missing → missing ∈ needs work.calls) :
    Sound (s.put place next) := by
  have hblames : s.blames err = false := by
    cases err with
    | notFound missing =>
      have huses : InUse s missing := ⟨work, hwork, hworking, Or.inr (hneeds missing rfl)⟩
      rw [State.blames, List.any_eq_false]
      intro entry hentry
      simpa using h.kept missing huses entry hentry
    | notADirectory path => rfl
    | isADirectory path => rfl
  refine h.put place rfl (fun _ hentry => hentry) ?_ ?_
  · rintro path ⟨hworking', -⟩
    rw [hstatus] at hworking'
    cases hworking'
  · rw [hstatus, hblames]
    intro err' heq
    cases heq

/-- An operation makes a node and goes on. -/
theorem Sound.make {work next : Work} {made : Path} (h : Sound s) (place : Nat) (hwork : work ∈ s.works)
    (hworking : work.status = .working) (tree : RepoTree) (hstatus : next.status = .working)
    (hcreated : ∀ path ∈ next.created, path = made ∨ path ∈ work.created)
    (hneeds : ∀ path ∈ needs next.calls, path = made ∨ path ∈ needs work.calls) :
    Sound ((s.made tree made).put place next) := by
  refine h.put place rfl (fun _ hentry => List.mem_of_mem_filter hentry) ?_ ?_
  · rintro path ⟨-, hpath⟩ entry hentry
    obtain ⟨hold, hother⟩ := List.mem_filter.1 hentry
    have hmade : path = made ∨ work.Uses path := by
      rcases hpath with hmem | hmem
      · exact (hcreated path hmem).imp_right fun hmem => ⟨hworking, Or.inl hmem⟩
      · exact (hneeds path hmem).imp_right fun hmem => ⟨hworking, Or.inr hmem⟩
    rcases hmade with rfl | huses
    · simpa using hother
    · exact h.kept path ⟨work, hwork, huses⟩ entry hold
  · rw [hstatus]
    intro err heq
    cases heq

/-- An operation goes on with what it uses already. -/
theorem Sound.goOn {s' : State} {work next : Work} (h : Sound s) (place : Nat) (hwork : work ∈ s.works)
    (hworking : work.status = .working) (hworks : s'.works = s.works) (hlost : s'.lost = s.lost)
    (hstatus : next.status = .working) (hcreated : ∀ path ∈ next.created, path ∈ work.created)
    (hneeds : ∀ path ∈ needs next.calls, path ∈ needs work.calls) : Sound (s'.put place next) := by
  refine h.put place hworks (fun _ hentry => hlost ▸ hentry) ?_ ?_
  · rintro path ⟨-, hpath⟩ entry hentry
    rw [hlost] at hentry
    apply h.kept path ⟨work, hwork, hworking, ?_⟩ entry hentry
    exact hpath.imp (hcreated path) (hneeds path)
  · rw [hstatus]
    intro err heq
    cases heq

/-- What a call that makes a node leaves to be needed. -/
theorem mem_needs_of_made {above calls : List Path} {made path : Path} (h : path ∈ calls) :
    path = made ∨ path ∈ above ++ calls.filter (· ≠ made) := by
  by_cases heq : path = made
  · exact Or.inl heq
  · refine Or.inr (List.mem_append_right _ (List.mem_filter.2 ⟨h, ?_⟩))
    simpa using heq

theorem mem_above {path missing : Path} (h : missing = path.dropLast ∧ path.dropLast ≠ []) :
    missing ∈ above path := by
  rw [above, if_neg h.2, h.1]
  exact List.mem_singleton.2 rfl

theorem sound_advance (h : Sound s) (place : Nat) {work : Work} (hwork : work ∈ s.works) :
    Sound (advance s place work) := by
  cases hworking : work.status with
  | done => simpa only [advance, hworking] using h
  | failed err blamed => simpa only [advance, hworking] using h
  | killed => simpa only [advance, hworking] using h
  | working =>
    cases hcalls : work.calls with
    | nil =>
      cases hparts : work.parts with
      | nil =>
        simp only [advance, hworking, hcalls, hparts]
        refine h.put place rfl (fun _ hentry => hentry) ?_ ?_
        · rintro path ⟨hstatus, -⟩
          cases hstatus
        · intro err heq
          cases heq
      | cons part parts =>
        simp only [advance, hworking, hcalls, hparts]
        refine h.goOn place hwork hworking rfl rfl rfl (fun _ hmem => hmem) ?_
        intro path hpath
        rw [needs_calls] at hpath
        cases hpath
    | cons call calls =>
      cases call with
      | probe path =>
        simp only [advance, hworking, hcalls]
        refine h.goOn place hwork hworking rfl rfl rfl (fun _ hmem => hmem) ?_
        intro other hother
        rw [hcalls]
        split at hother
        · cases hother
        · exact hother
      | createDir path =>
        simp only [advance, hworking, hcalls]
        split
        · next err herr =>
          refine h.fail place hwork hworking rfl ?_
          rintro missing rfl
          rw [hcalls]
          exact List.mem_append_left _ (mem_above (notFound_of_mkdir herr))
        · refine h.make place hwork hworking _ rfl ?_ ?_
          · intro other hother
            unfold noteMade at hother
            split at hother
            · exact Or.inr hother
            · exact List.mem_cons.1 hother
          · intro other hother
            rw [hcalls]
            exact mem_needs_of_made hother
      | write path size =>
        simp only [advance, hworking, hcalls]
        split
        · next err herr =>
          refine h.fail place hwork hworking rfl ?_
          rintro missing rfl
          rw [hcalls]
          exact List.mem_append_left _ (mem_above (notFound_of_write herr))
        · refine h.make place hwork hworking _ rfl ?_ ?_
          · exact fun other hother => List.mem_cons.1 hother
          · intro other hother
            rw [hcalls]
            exact mem_needs_of_made hother
      | rename source dest =>
        simp only [advance, hworking, hcalls]
        split
        · next err herr =>
          refine h.fail place hwork hworking rfl ?_
          rintro missing rfl
          rw [hcalls]
          rcases notFound_of_rename herr with rfl | habove
          · exact List.mem_cons_self
          · exact List.mem_cons_of_mem _ (List.mem_append_left _ (mem_above habove))
        · refine h.make place hwork hworking _ rfl ?_ ?_
          · intro other hother
            exact (List.mem_cons.1 hother).imp_right List.mem_of_mem_filter
          · intro other hother
            rw [hcalls]
            exact (mem_needs_of_made hother).imp_right (List.mem_cons_of_mem _)
      | removeFile path =>
        simp only [advance, hworking, hcalls]
        refine h.goOn place hwork hworking rfl rfl rfl ?_ ?_
        · exact fun other hother => List.mem_of_mem_filter hother
        · intro other hother
          rw [hcalls]
          exact hother
      | removeDirAll path =>
        simp only [advance, hworking, hcalls]
        refine h.goOn place hwork hworking rfl rfl rfl ?_ ?_
        · exact fun other hother => List.mem_of_mem_filter hother
        · intro other hother
          rw [hcalls]
          exact hother

/-- What a collector takes away is lost. -/
theorem sound_take (h : Sound s) {taken : Option Path} (hunused : TakesUnused s taken) :
    Sound (s.take taken) := by
  cases taken with
  | none => exact h
  | some path =>
    constructor
    · intro other huse entry hentry
      have huse' : InUse s other := huse
      rcases List.mem_append.1 hentry with hnew | hold
      · obtain ⟨node, -, rfl⟩ := List.mem_map.1 hnew
        rintro rfl
        exact hunused huse'
      · exact h.kept other huse' entry hold
    · exact h.blameless

theorem sound_step (h : Sound s) (a : Step) (hfits : StepFits s a) : Sound (step s a) := by
  cases a with
  | begin parts =>
    constructor
    · rintro path ⟨work, hwork, hpath⟩ entry hentry
      rcases List.mem_append.1 hwork with hold | hnew
      · exact h.kept path ⟨work, hold, hpath⟩ entry hentry
      · obtain rfl := List.mem_singleton.1 hnew
        rcases hpath.2 with hcreated | hneeded
        · cases hcreated
        · cases hneeded
    · refine Tasks.forall_append_one (fun work : Work => ∀ err, work.status ≠ .failed err true)
        h.blameless ?_
      intro err heq
      cases heq
  | work place =>
    simp only [step]
    split
    · next work hwork => exact sound_advance h place (List.mem_of_getElem? hwork)
    · exact h
  | kill place =>
    simp only [step]
    split
    · split
      · refine h.put place rfl (fun _ hentry => hentry) ?_ ?_
        · rintro path ⟨hstatus, -⟩
          cases hstatus
        · intro err heq
          cases heq
      · exact h
    · exact h
  | collect gc => exact ⟨h.kept, h.blameless⟩
  | collector place pick =>
    cases hgc : s.collectors[place]? with
    | none =>
      simp only [step, hgc]
      exact h
    | some gc =>
      simp only [step, hgc]
      have htakes : s.takes (.collector place pick) = gc.phase.takes s.tree pick := by
        simp [State.takes, hgc]
      rw [StepFits, htakes] at hfits
      have hsound := sound_take h hfits
      exact ⟨hsound.kept, hsound.blameless⟩
  | tick seconds => exact ⟨h.kept, h.blameless⟩

/-! ## Which files are lost -/

/-- A quarantine directory. -/
def IsIncoming (path : Path) : Prop :=
  ∃ name : String, "incoming-".toList <+: name.toList ∧ path = ["objects", "pack", name]

/-- The files that a collector removes are in quarantine directories. -/
def FilesQuarantined (lost : List (Path × Node)) : Prop :=
  ∀ entry ∈ lost, entry.2.isDir = false → ∃ dir, IsIncoming dir ∧ dir <+: entry.1

/-- A sweep is at quarantine directories. -/
def Phase.Quarantined : Phase → Prop
  | .sweeping _ dirs _ => ∀ dir ∈ dirs, IsIncoming dir
  | .removing _ dirs _ dir _ => IsIncoming dir ∧ ∀ dir ∈ dirs, IsIncoming dir
  | _ => True

structure Quarantined (s : State) : Prop where
  collectors : ∀ gc ∈ s.collectors, gc.phase.Quarantined
  lost : FilesQuarantined s.lost

theorem isIncoming_of_mem {tree : RepoTree} {path : Path} (h : path ∈ incomingDirs tree) :
    IsIncoming path := by
  obtain ⟨hentry, hname⟩ := List.mem_filter.1 h
  obtain ⟨hne, hdir⟩ := by simpa using (List.mem_filter.1 hentry).2
  have hlast := List.dropLast_append_getLast hne
  rw [hdir] at hlast
  rw [List.getLast?_eq_some_getLast hne] at hname
  exact ⟨path.getLast hne, List.isPrefixOf_iff_prefix.1 (by simpa using hname), hlast.symm⟩

theorem quarantined_next {gc : Collector} (h : gc.phase.Quarantined) (tree : RepoTree) (now : Nat)
    (pick : Path) : (gc.next tree now pick).Quarantined := by
  have hswept (swept : QuarantineSweep) : (gc.swept swept).Quarantined := by
    unfold Collector.swept
    split
    · trivial
    · trivial
  unfold Collector.next
  split
  · split
    · exact fun dir hdir => isIncoming_of_mem hdir
    · exact hswept _
  · exact hswept _
  · next cutoff dirs swept _ hphase =>
    rw [hphase] at h
    have herase : ∀ dir ∈ dirs.erase pick, IsIncoming dir :=
      fun dir hdir => h dir (List.mem_of_mem_erase hdir)
    split
    · next hpick =>
      split
      · split
        · exact herase
        · exact ⟨h pick hpick, herase⟩
      · exact herase
    · exact h
  · next cutoff dirs swept dir bytes hphase =>
    rw [hphase] at h
    split
    · exact h.2
    · split
      · exact h.2
      · exact h
  · trivial
  · split
    · trivial
    · trivial
  · split
    · split
      · trivial
      · trivial
    · split
      · trivial
      · split
        · trivial
        · split
          · trivial
          · trivial
  · trivial

/-- A collector takes a file away only in a sweep. -/
theorem quarantined_take (h : Quarantined s) {gc : Collector} (hgc : gc ∈ s.collectors) (pick : Path) :
    FilesQuarantined (s.take (gc.phase.takes s.tree pick)).lost := by
  cases htaken : gc.phase.takes s.tree pick with
  | none => exact h.lost
  | some path =>
    intro entry hentry hfile
    rcases List.mem_append.1 hentry with hnew | hold
    · obtain ⟨node, hnode, rfl⟩ := List.mem_map.1 hnew
      have hget : s.tree.get path = some node := Option.mem_toList.1 hnode
      have hphase := h.collectors gc hgc
      unfold Phase.takes at htaken
      split at htaken
      · next hremoving =>
        rw [hremoving] at hphase
        split at htaken
        · next hleaf =>
          obtain rfl := Option.some.inj htaken
          simp only [Bool.and_eq_true] at hleaf
          exact ⟨_, hphase.1, List.isPrefixOf_iff_prefix.1 hleaf.1⟩
        · cases htaken
      · split at htaken
        · next hempty =>
          obtain rfl := Option.some.inj htaken
          simp only [Bool.and_eq_true, Tree.isEmptyDir, hget, Option.map_some,
            Option.getD_some] at hempty
          rw [hempty.2.1] at hfile
          cases hfile
        · cases htaken
      · cases htaken
    · exact h.lost entry hold hfile

theorem quarantined_advance (h : Quarantined s) (place : Nat) (work : Work) :
    Quarantined (advance s place work) := by
  have hfilter (path : Path) : FilesQuarantined (s.lost.filter fun entry => entry.1 ≠ path) :=
    fun entry hentry => h.lost entry (List.mem_of_mem_filter hentry)
  unfold advance
  split
  · split
    · exact ⟨h.collectors, h.lost⟩
    · exact ⟨h.collectors, h.lost⟩
  · exact ⟨h.collectors, h.lost⟩
  · split
    · exact ⟨h.collectors, h.lost⟩
    · exact ⟨h.collectors, hfilter _⟩
  · split
    · exact ⟨h.collectors, h.lost⟩
    · exact ⟨h.collectors, hfilter _⟩
  · split
    · exact ⟨h.collectors, h.lost⟩
    · exact ⟨h.collectors, hfilter _⟩
  · exact ⟨h.collectors, h.lost⟩
  · exact ⟨h.collectors, h.lost⟩
  · exact h

theorem quarantined_step (h : Quarantined s) (a : Step) : Quarantined (step s a) := by
  cases a with
  | begin parts => exact ⟨h.collectors, h.lost⟩
  | work place =>
    simp only [step]
    split
    · exact quarantined_advance h place _
    · exact h
  | kill place =>
    simp only [step]
    split
    · split
      · exact ⟨h.collectors, h.lost⟩
      · exact h
    · exact h
  | collect gc =>
    exact ⟨Tasks.forall_append_one (fun gc : Collector => gc.phase.Quarantined) h.collectors trivial,
      h.lost⟩
  | collector place pick =>
    simp only [step]
    split
    · next gc hgc =>
      have hmem := List.mem_of_getElem? hgc
      refine ⟨?_, quarantined_take h hmem pick⟩
      exact Tasks.forall_set (fun gc : Collector => gc.phase.Quarantined) h.collectors
        (quarantined_next (h.collectors gc hmem) s.tree s.now pick)
    · exact h
  | tick seconds => exact ⟨h.collectors, h.lost⟩

end Steps

/-! ## The collector beside any operations -/

/-- The directory of a new object is empty when the collector comes by. -/
def freshFanout : List Step :=
  .begin [.looseObject "ab" "cd" 10] :: List.replicate 4 (.work 0) ++
    [.collect repoGc, .collector 0 [], .collector 0 [], .collector 0 ["objects", "ab"],
      .collector 0 [], .work 0]

/-- A push takes more than an hour in its quarantine, which a collector then sweeps. -/
def slowPush : List Step :=
  .begin [.pack "9c" 120 60 true] :: List.replicate 5 (.work 0) ++
    [.tick 3700, .collect repoGc, .collector 0 []] ++
    List.replicate 2 (.collector 0 (incomingDir 0)) ++ [.collector 0 (incomingDir 0 ++ ["tmp_pack"])]

example : ¬ Runs.Throughout step StepFits (start [] 100) slowPush := by decide +kernel

/-- A push is killed in its quarantine. Two hours later an object is written, and a collector sweeps
the quarantine and prunes the directory that it was in. -/
def agedQuarantine : List Step :=
  .begin [.pack "9c" 120 60 true] :: List.replicate 5 (.work 0) ++
    [.kill 0, .tick 7200, .begin [.looseObject "ab" "cd" 10]] ++ List.replicate 5 (.work 1) ++
    [.collect repoGc, .collector 0 [], .collector 0 (incomingDir 0),
      .collector 0 (incomingDir 0 ++ ["tmp_pack"]), .collector 0 (incomingDir 0),
      .collector 0 [], .collector 0 [], .collector 0 ["objects", "pack"], .collector 0 [],
      .collector 0 ["objects", "ab"], .collector 0 [], .collector 0 [], .collector 0 [],
      .collector 0 []]

end Edda.Git.Maintenance
