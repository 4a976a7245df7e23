import Edda.Git.Connectivity
import Edda.Git.Transfer

/-!
# The closure of an imported tip

An import stops at every object that the destination holds, as git objects are immutable and what
they reach is taken to be stored with them. It writes an object before what the object refers to,
so an import that is interrupted leaves objects of which this is not true, and a later import stops
at them.

`imports_publish_complete_iff` says, for any sequence of imports, exactly when every tip that a ref
is set to is there with all it reaches: when everything below the objects that the walk stops at is
in the destination, or is copied on another way.
-/

set_option autoImplicit false

namespace Edda.Git

open Edda.Support Edda.Support.Worklist

section Graph

variable (content : ObjectId → Object)

/-- The tip leads to `id` through objects that the destination does not hold. -/
def Copied (dst : Store) (tip id : ObjectId) : Prop :=
  tip ∉ dst ∧ Relation.ReflTransGen (fun a b => Refers content a b ∧ b ∉ dst) tip id

/-- The walk from the tip comes to `id`, which the destination holds. -/
def StopsAt (dst : Store) (tip id : ObjectId) : Prop :=
  id ∈ dst ∧ (id = tip ∨ ∃ a, Copied content dst tip a ∧ Refers content a id)

/-- All that is below the objects the walk stops at is in the destination, or is copied. -/
def StopsWhole (dst : Store) (tip : ObjectId) : Prop :=
  ∀ id, StopsAt content dst tip id → ∀ b, Reachable content id b → b ∈ dst ∨ Copied content dst tip b

theorem Copied.reachable {dst : Store} {tip id : ObjectId} (h : Copied content dst tip id) :
    Reachable content tip id := by
  have hpath := h.2
  induction hpath with
  | refl => exact Reachable.refl content tip
  | tail hpath hstep ih => exact (ih ⟨h.1, hpath⟩).tail hstep.1

theorem StopsAt.reachable {dst : Store} {tip id : ObjectId} (h : StopsAt content dst tip id) :
    Reachable content tip id := by
  rcases h.2 with rfl | ⟨a, ha, hid⟩
  · exact Reachable.refl content id
  · exact (ha.reachable content).tail hid

/-- What the tip reaches is copied, or lies below an object that the walk stops at. -/
theorem copied_or_below (dst : Store) {tip b : ObjectId} (h : Reachable content tip b) :
    Copied content dst tip b ∨ ∃ id, StopsAt content dst tip id ∧ Reachable content id b := by
  induction h with
  | refl =>
    by_cases htip : tip ∈ dst
    · exact Or.inr ⟨tip, ⟨htip, Or.inl rfl⟩, Reachable.refl content tip⟩
    · exact Or.inl ⟨htip, .refl⟩
  | @tail x y _ hxy ih =>
    rcases ih with hcopied | ⟨id, hstop, hbelow⟩
    · by_cases hy : y ∈ dst
      · exact Or.inr ⟨y, ⟨hy, Or.inr ⟨x, hcopied, hxy⟩⟩, Reachable.refl content y⟩
      · exact Or.inl ⟨hcopied.1, hcopied.2.tail ⟨hxy, hy⟩⟩
    · exact Or.inr ⟨id, hstop, hbelow.tail hxy⟩

/-- A store that gains what is copied holds all the tip reaches exactly when the walk stops at
objects that are whole. -/
theorem closureStored_iff {dst after : Store} {tip : ObjectId}
    (hafter : ∀ id, id ∈ after ↔ Copied content dst tip id ∨ id ∈ dst) :
    ClosureStored content after tip ↔ StopsWhole content dst tip := by
  constructor
  · intro h id hstop b hb
    exact ((hafter b).1 (h b ((hstop.reachable content).trans hb))).symm
  · intro h b hb
    rw [hafter]
    rcases copied_or_below content dst hb with hcopied | ⟨id, hstop, hbelow⟩
    · exact Or.inl hcopied
    · exact (h id hstop b hbelow).symm

end Graph

section Import

variable (gix : Gix)

/-- One import: from where, to which ref, and the file system failure it meets, if any. -/
structure ImportCall where
  src : Repo
  sourceBranch : String
  destRef : String
  fault : Option ImportFault

def ImportCall.run (call : ImportCall) (dst : Repo) : Repo × Except GitError String :=
  importBranchTip gix call.fault call.src dst call.sourceBranch call.destRef

/-- The destination after some imports. -/
def runImports (dst : Repo) : List ImportCall → Repo
  | [] => dst
  | call :: calls => runImports (call.run gix dst).1 calls

/-- The import sets its ref to the tip: it succeeds, or it fails after the ref has changed. -/
def ImportCall.Sets (call : ImportCall) (dst : Repo) (tip : ObjectId) : Prop :=
  resolveCommitId gix call.src ("refs/heads/" ++ call.sourceBranch) = .ok tip ∧
    ((∃ hex, (call.run gix dst).2 = .ok hex) ∨
      (call.run gix dst).1.refs.lookup call.destRef ≠ dst.refs.lookup call.destRef)

/-! ## What an import adds -/

/-- The walk of an import that does not fail visits what is copied. -/
theorem reaches_copyWalk_iff {fault : Option ImportFault} {src dst : Store} {tip : ObjectId}
    (h : (copyRun gix fault src dst tip).failure = none) (id : ObjectId) :
    Reaches (copyWalk gix fault src dst) [tip] id ↔ Copied gix.content dst tip id := by
  constructor
  · rintro ⟨a, ha, hskip, hpath⟩
    obtain rfl := List.mem_singleton.1 ha
    refine ⟨by simpa [copyWalk] using hskip, ?_⟩
    induction hpath with
    | refl => exact .refl
    | tail _ hedge ih =>
      obtain ⟨children, hexpand, hmem, hskip'⟩ := hedge
      have hrefs := (copyObject_eq_ok gix fault hexpand).2
      exact ih.tail ⟨⟨children, hrefs, hmem⟩, by simpa [copyWalk] using hskip'⟩
  · rintro ⟨htip, hpath⟩
    induction hpath with
    | refl =>
      exact .of_mem _ (List.mem_singleton.2 rfl) (by simpa [copyWalk] using htip)
    | @tail x y _ hxy ih =>
      -- what was visited was expanded, so the walk went on to its references
      have hsound := run_sound (copyWalk gix fault src dst) [tip]
        (fuel src (referenceCount gix.content) [tip])
      obtain ⟨children, hexpand⟩ := hsound.expanded x ((mem_copyRun_iff gix fault h x).2 ih)
      have hrefs := (copyObject_eq_ok gix fault hexpand).2
      obtain ⟨⟨ids, hids, hmem⟩, hy⟩ := hxy
      obtain rfl := Except.ok.inj (hrefs.symm.trans hids)
      exact ih.tail _ ⟨children, hexpand, hmem, by simpa [copyWalk] using hy⟩

/-- What an import that does not fail leaves in the destination. -/
theorem mem_objects_copyClosure {fault : Option ImportFault} {src : Store} {dst disk : Disk}
    {tip : ObjectId} {copied : Nat} (h : copyClosure gix fault src dst tip = (disk, .ok copied))
    (id : ObjectId) :
    id ∈ disk.objects gix ↔ Copied gix.content (dst.objects gix) tip id ∨ id ∈ dst.objects gix := by
  simp only [copyClosure, Prod.mk.injEq] at h
  obtain ⟨rfl, hcopied⟩ := h
  cases hfailure : (copyRun gix fault src (dst.objects gix) tip).failure with
  | some err => simp [hfailure] at hcopied
  | none =>
    rw [← reaches_copyWalk_iff gix hfailure, ← mem_copyRun_iff gix fault hfailure]
    simp only [Disk.mem_objects, List.mem_append, State.order, List.mem_reverse, or_assoc]
    rfl

/-- What an import that fails leaves in the destination. -/
theorem copyClosure_error {fault : Option ImportFault} {src : Store} {dst disk : Disk}
    {tip : ObjectId} {err : GitError} (h : copyClosure gix fault src dst tip = (disk, .error err)) :
    (copyRun gix fault src (dst.objects gix) tip).failure ≠ none ∧
      disk = { dst with
        loose := (copyRun gix fault src (dst.objects gix) tip).order ++ dst.loose } := by
  simp only [copyClosure, Prod.mk.injEq] at h
  obtain ⟨rfl, hfailed⟩ := h
  refine ⟨?_, rfl⟩
  intro hnone
  simp [hnone] at hfailed

/-- An import that sets its ref has copied what the tip reaches outside of the destination. -/
theorem ImportCall.objects_of_sets {call : ImportCall} {dst : Repo} {tip : ObjectId}
    (h : call.Sets gix dst tip) (id : ObjectId) :
    id ∈ (call.run gix dst).1.objects gix ↔
      Copied gix.content (dst.objects gix) tip id ∨ id ∈ dst.objects gix := by
  obtain ⟨hresolve, hset⟩ := h
  simp only [ImportCall.run, importBranchTip, hresolve] at hset ⊢
  rcases hcopy : copyClosure gix call.fault (call.src.objects gix) dst.disk tip with
    ⟨disk, err | copied⟩
  · -- an import that fails while it copies does not come to the ref
    simp [hcopy] at hset
  · simp only
    have hobjects := mem_objects_copyClosure gix hcopy id
    rcases forceSetRef gix (ImportFault.refFault call.fault) dst.refs call.destRef tip with
      ⟨refs, err | _⟩
    · exact hobjects
    · exact hobjects

/-- An import that sets its ref publishes a complete tip exactly when its walk stops at objects
that are whole. -/
theorem ImportCall.complete_iff {call : ImportCall} {dst : Repo} {tip : ObjectId}
    (h : call.Sets gix dst tip) :
    ClosureStored gix.content ((call.run gix dst).1.objects gix) tip ↔
      StopsWhole gix.content (dst.objects gix) tip :=
  closureStored_iff gix.content (call.objects_of_sets gix h)

/-! ## Stores that hold what their objects reach -/

/-- Every object is stored with all it reaches. -/
def WholeStore (store : Store) : Prop := ∀ id ∈ store, ClosureStored gix.content store id

/-- In a whole store every walk stops at objects that are whole. -/
theorem WholeStore.stopsWhole {dst : Store} (h : WholeStore gix dst) (tip : ObjectId) :
    StopsWhole gix.content dst tip := by
  intro id hstop b hb
  exact Or.inl (h id hstop.1 b hb)

/-- An import is clean if its walk does not fail behind a write. -/
def ImportCall.Clean (call : ImportCall) (dst : Repo) : Prop :=
  ∀ tip, resolveCommitId gix call.src ("refs/heads/" ++ call.sourceBranch) = .ok tip →
    (copyRun gix call.fault (call.src.objects gix) (dst.objects gix) tip).failure ≠ none →
    (copyRun gix call.fault (call.src.objects gix) (dst.objects gix) tip).visited = []

/-- A clean import adds what its tip reaches outside of the destination, or nothing. -/
theorem ImportCall.objects_of_clean {call : ImportCall} {dst : Repo} (h : call.Clean gix dst) :
    (∃ tip, ∀ id, id ∈ (call.run gix dst).1.objects gix ↔
        Copied gix.content (dst.objects gix) tip id ∨ id ∈ dst.objects gix) ∨
      (call.run gix dst).1.objects gix = dst.objects gix := by
  cases hresolve : resolveCommitId gix call.src ("refs/heads/" ++ call.sourceBranch) with
  | error err =>
    right
    simp only [ImportCall.run, importBranchTip, hresolve]
  | ok tip =>
    rcases hcopy : copyClosure gix call.fault (call.src.objects gix) dst.disk tip with
      ⟨disk, err | copied⟩
    · right
      obtain ⟨hfailure, rfl⟩ := copyClosure_error gix hcopy
      have hnothing := h tip hresolve hfailure
      have hrun : (call.run gix dst).1.disk = { dst.disk with
          loose := (copyRun gix call.fault (call.src.objects gix) (dst.disk.objects gix)
            tip).order ++ dst.disk.loose } := by
        simp only [ImportCall.run, importBranchTip, hresolve, hcopy]
      have horder : (copyRun gix call.fault (call.src.objects gix) (dst.disk.objects gix)
          tip).order = [] := by
        simp only [State.order, List.reverse_eq_nil_iff]
        exact hnothing
      rw [horder, List.nil_append] at hrun
      simp only [Repo.objects, hrun]
    · left
      refine ⟨tip, ?_⟩
      have hobjects := mem_objects_copyClosure gix hcopy
      simp only [ImportCall.run, importBranchTip, hresolve, hcopy]
      rcases forceSetRef gix (ImportFault.refFault call.fault) dst.refs call.destRef tip with
        ⟨refs, err | _⟩
      · exact hobjects
      · exact hobjects

/-- A clean import keeps a store whole. -/
theorem WholeStore.run {call : ImportCall} {dst : Repo} (h : WholeStore gix (dst.objects gix))
    (hclean : call.Clean gix dst) : WholeStore gix ((call.run gix dst).1.objects gix) := by
  rcases call.objects_of_clean gix hclean with ⟨tip, hobjects⟩ | hsame
  · intro id hid b hb
    rw [hobjects] at hid ⊢
    rcases hid with hcopied | hheld
    · rcases copied_or_below gix.content (dst.objects gix)
        ((hcopied.reachable gix.content).trans hb) with hbelow | ⟨stop, hstop, hbelow⟩
      · exact Or.inl hbelow
      · exact Or.inr (h stop hstop.1 b hbelow)
    · exact Or.inr (h id hheld b hb)
  · rw [hsame]
    exact h

/-- A run of clean imports into a whole store keeps it whole. -/
theorem WholeStore.runImports {dst : Repo} {calls : List ImportCall}
    (h : WholeStore gix (dst.objects gix))
    (hclean : ∀ before call after, calls = before ++ call :: after →
      call.Clean gix (runImports gix dst before)) :
    WholeStore gix ((runImports gix dst calls).objects gix) := by
  induction calls generalizing dst with
  | nil => exact h
  | cons call calls ih =>
    apply ih (h.run gix (hclean [] call calls rfl))
    intro before other after heq
    exact hclean (call :: before) other after (by rw [heq, List.cons_append])

/-! ## Runs of imports -/

/-- In a run of imports, every tip that a ref is set to is in the destination with all it reaches,
exactly when every import that sets a ref stops at objects that are whole where it comes in the
run. -/
theorem imports_publish_complete_iff (dst : Repo) (calls : List ImportCall) :
    (∀ before call after, calls = before ++ call :: after →
        ∀ tip, call.Sets gix (runImports gix dst before) tip →
          ClosureStored gix.content ((call.run gix (runImports gix dst before)).1.objects gix) tip) ↔
      ∀ before call after, calls = before ++ call :: after →
        ∀ tip, call.Sets gix (runImports gix dst before) tip →
          StopsWhole gix.content ((runImports gix dst before).objects gix) tip := by
  constructor
  · intro h before call after heq tip hsets
    exact (call.complete_iff gix hsets).1 (h before call after heq tip hsets)
  · intro h before call after heq tip hsets
    exact (call.complete_iff gix hsets).2 (h before call after heq tip hsets)

end Import

/-! ## An import after one that was interrupted -/

/-- The commit 1 has the empty tree 2. The commit 3 of the fork, on top of it, has the tree 4 with
the file 5. -/
def forkGix : Gix where
  content := fun id =>
    if id = 1 then plainCommit 2 []
    else if id = 3 then plainCommit 4 [1]
    else if id = 4 then .tree (some [⟨.blob, "file", 5⟩])
    else if id = 2 then .tree (some [])
    else .blob []
  packObjects := fun _ => []
  writeToDirectory := fun _ _ => .error "bad header"
  validateRefName := fun _ => none
  debug := fun text => "\"" ++ text ++ "\""
  transactionError := fun _ _ => "the reference has moved"
  ioError := "input/output error"

def forkSource : Repo where
  disk := ⟨[1, 2, 3, 4, 5], [], []⟩
  refs := (∅ : RefStore).insert "refs/heads/main" (.object 3)

def forkTarget : Repo where
  disk := ⟨[1, 2], [], []⟩
  refs := (∅ : RefStore).insert "refs/heads/main" (.object 1)

/-- An import of the fork's branch. -/
def forkImport (fault : Option ImportFault) : ImportCall :=
  ⟨forkSource, "main", "refs/edda/pull-heads/1", fault⟩

theorem connected_forkTarget : Connected forkGix forkTarget := by
  intro name id hlookup
  have hid : id = 1 := by
    by_cases hname : name = "refs/heads/main"
    · subst hname
      simp only [forkTarget, AList.lookup_insert, Option.some.injEq, Target.object.injEq] at hlookup
      exact hlookup.symm
    · rw [forkTarget, AList.lookup_insert_ne hname] at hlookup
      simp at hlookup
  subst hid
  have hone : references (forkGix.content 1) = .ok [2] := rfl
  have htwo : references (forkGix.content 2) = .ok [] := rfl
  have honly : ∀ b, Reachable forkGix.content 1 b → b = 1 ∨ b = 2 := by
    intro b hb
    induction hb with
    | refl => exact Or.inl rfl
    | tail _ hstep ih =>
      obtain ⟨ids, hids, hmem⟩ := hstep
      rcases ih with rfl | rfl
      · rw [hone, Except.ok.injEq] at hids
        rw [← hids] at hmem
        exact Or.inr (List.mem_singleton.1 hmem)
      · rw [htwo, Except.ok.injEq] at hids
        rw [← hids] at hmem
        simp at hmem
  intro b hb
  rcases honly b hb with rfl | rfl <;> decide

theorem forkGix_plain {id : ObjectId} {entries : List TreeEntry}
    (h : forkGix.content id = .tree (some entries)) : ∀ entry ∈ entries, entry.mode ≠ .commit := by
  intro entry hentry
  simp only [forkGix, plainCommit] at h
  repeat' split at h
  · cases h
  · cases h
  · cases h
    rw [List.mem_singleton.1 hentry]
    decide
  · cases h
    simp at hentry
  · cases h

/-- The first import is interrupted at the tree 4, behind the commit 3. The second one stops at the
commit 3, and publishes it without its tree. -/
theorem interrupted_import_is_published :
    Connected forkGix forkTarget ∧
      (∀ id entries, forkGix.content id = .tree (some entries) → ∀ entry ∈ entries,
        entry.mode ≠ .commit) ∧
      ¬ ∀ before call after,
        [forkImport (some (.writeObject 4)), forkImport none] = before ++ call :: after →
        ∀ tip, call.Sets forkGix (runImports forkGix forkTarget before) tip →
          ClosureStored forkGix.content
            ((call.run forkGix (runImports forkGix forkTarget before)).1.objects forkGix) tip := by
  refine ⟨connected_forkTarget, ?_, ?_⟩
  · intro id entries h
    exact forkGix_plain h
  · intro h
    have hset : (forkImport none).Sets forkGix
        (runImports forkGix forkTarget [forkImport (some (.writeObject 4))]) 3 := by
      refine ⟨by decide, Or.inl ⟨(3 : ObjectId).toHex, ?_⟩⟩
      decide +kernel
    have hclosure := h [forkImport (some (.writeObject 4))] (forkImport none) [] rfl 3 hset
    have hreach : Reachable forkGix.content 3 4 :=
      .single ⟨[4, 1], rfl, by simp⟩
    have hmissing : (4 : ObjectId) ∉ ((forkImport none).run forkGix (runImports forkGix forkTarget
        [forkImport (some (.writeObject 4))])).1.objects forkGix := by
      decide +kernel
    exact hmissing (hclosure 4 hreach)

end Edda.Git
