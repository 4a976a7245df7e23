import Edda.Support.Disk
import Edda.Support.Runs
import Edda.Support.RustText
import Edda.Support.Tasks

/-!
# The assets of a release

An upload creates the file of its asset in place, at a path made of the name, streams the body into
it and inserts the row after that. A write is handed over to a thread and the next one waits for it;
nothing waits for the last one. An upload that fails removes the file by its path. Neither the path
nor the table says whether an asset of the name is there already.

`intact_of_fits` says in which runs the assets stay intact: a file is created while no asset and no
other upload has the name, and the last write works.
-/

set_option autoImplicit false

namespace Edda.App.ReleaseAssets

open Edda.Support Edda.Support.RustText
open Edda.Support.Runs (run Throughout)

abbrev ReleaseAssetId := BitVec 128

/-- A row of `release_assets`. -/
structure ReleaseAsset where
  id : ReleaseAssetId
  releaseId : String
  filename : String
  sizeBytes : Nat
  contentType : String
  storageKey : String
  createdAt : Int
  deriving DecidableEq, Repr

/-- An upload behind its access check, with the id that it draws and the chunks of its body. -/
structure Upload where
  id : ReleaseAssetId
  fileName : Option String
  contentType : Option String
  chunks : List Bytes
  deriving DecidableEq, Repr

def maxAssetBytes : Nat := 200 * 1024 * 1024

def isSafeFilename (name : String) : Bool :=
  name ≠ "" && (utf8 name).length ≤ 255 && name ≠ "." && name ≠ ".." &&
    name.toList.all (fun c => c ≠ '/' && c ≠ '\\') &&
    (utf8 name).all fun b => 0x20 ≤ b && b ≠ 0x7f

def Upload.filename (upload : Upload) : String := upload.fileName.getD ""

def Upload.body (upload : Upload) : Bytes := upload.chunks.flatten

/-- The next call of an upload, or how it has ended. -/
inductive Phase where
  | creatingDir
  | creating
  | streaming (left : List Bytes) (total : Nat)
  | inserting (total : Nat)
  | removing (status : Nat) (message : String)
  | created
  | failed (status : Nat) (message : String)
  | interrupted
  deriving DecidableEq, Repr

def Upload.firstPhase (upload : Upload) : Phase :=
  match upload.fileName with
  | none => .failed 400 "the upload field has no filename"
  | some filename =>
    if isSafeFilename filename then .creatingDir else .failed 400 "invalid filename"

/-- What has become of the last write that was handed over. -/
inductive Outstanding where
  | none
  | writing (offset : Nat) (chunk : Bytes)
  | failed (err : String)
  deriving DecidableEq, Repr

structure Task where
  upload : Upload
  phase : Phase
  inode : Option Nat
  outstanding : Outstanding
  deriving DecidableEq, Repr

/-- The rows of the release, the files of the repository, the uploads that have succeeded and those
that there have been. -/
structure State where
  assets : List ReleaseAsset
  disk : Disk String UInt8
  completed : List (String × Bytes)
  tasks : List Task

section Uploads

variable (releaseId : String)

def storageKey (filename : String) : String := releaseId ++ "/" ++ filename

def Upload.asset (upload : Upload) (total : Nat) (now : Int) : ReleaseAsset where
  id := upload.id
  releaseId := releaseId
  filename := upload.filename
  sizeBytes := total
  contentType := upload.contentType.getD "application/octet-stream"
  storageKey := storageKey releaseId upload.filename
  createdAt := now

/-- The next call of an upload, which works. -/
def State.proceed (s : State) (now : Int) (task : Task) : State × Task :=
  match task.phase with
  | .creatingDir => (s, { task with phase := .creating })
  | .creating =>
    -- a file that is there is truncated
    let made := s.disk.create (storageKey releaseId task.upload.filename)
    ({ s with disk := made.1 },
      { task with phase := .streaming task.upload.chunks 0, inode := some made.2 })
  | .streaming [] total => (s, { task with phase := .inserting total })
  | .streaming (chunk :: left) total =>
    if maxAssetBytes < total + chunk.length then
      (s, { task with phase := .removing 413 "asset exceeds the size limit" })
    else if chunk = [] then (s, { task with phase := .streaming left total })
    else match task.outstanding with
      | .none => (s, { task with
          phase := .streaming left (total + chunk.length)
          outstanding := .writing total chunk })
      -- a write waits for the last one, and reports its error
      | .writing _ _ => (s, task)
      | .failed err => (s, { task with phase := .removing 500 err })
  | .inserting total =>
    ({ s with
        assets := s.assets ++ [task.upload.asset releaseId total now]
        completed := s.completed ++ [(task.upload.filename, task.upload.body)] },
      { task with phase := .created })
  | .removing status message =>
    ({ s with disk := s.disk.unlink (storageKey releaseId task.upload.filename) },
      { task with phase := .failed status message })
  | _ => (s, task)

/-- The next call of an upload fails. That of a removal is ignored. -/
def Task.fails (task : Task) (err : String) : Task :=
  match task.phase with
  | .creatingDir | .creating => { task with phase := .failed 500 err }
  | .streaming _ _ => { task with phase := .removing 400 err }
  | .inserting _ => { task with phase := .removing 500 err }
  | .removing status message => { task with phase := .failed status message }
  | _ => task

def Phase.isRunning : Phase → Bool
  | .created | .failed _ _ | .interrupted => false
  | _ => true

/-- The thread writes the outstanding chunk, or some of it where that fails. -/
def State.land (s : State) (task : Task) (failure : Option (Nat × String)) : State × Task :=
  match task.inode, task.outstanding with
  | some inode, .writing offset chunk => match failure with
    | none =>
      ({ s with disk := s.disk.write 0 inode offset chunk }, { task with outstanding := .none })
    | some (amount, err) =>
      ({ s with disk := s.disk.write 0 inode offset (chunk.take amount) },
        { task with outstanding := .failed err })
  | _, _ => (s, task)

inductive Step where
  | arrive (upload : Upload)
  | proceed (place : Nat) (now : Int)
  | fails (place : Nat) (err : String)
  | land (place : Nat) (failure : Option (Nat × String))
  | interrupt (place : Nat)
  deriving DecidableEq, Repr

def Step.place : Step → Option Nat
  | .arrive _ => none
  | .proceed place _ | .fails place _ | .land place _ | .interrupt place => some place

/-- What a step does to the upload in its place. -/
def State.act (s : State) (task : Task) : Step → State × Task
  | .arrive _ => (s, task)
  | .proceed _ now => s.proceed releaseId now task
  | .fails _ err => (s, task.fails err)
  | .land _ failure => s.land task failure
  | .interrupt _ =>
    (s, if task.phase.isRunning then { task with phase := .interrupted } else task)

def step (s : State) (a : Step) : State :=
  match a, a.place with
  | .arrive upload, _ => { s with tasks := s.tasks ++ [⟨upload, upload.firstPhase, none, .none⟩] }
  | _, none => s
  | _, some place => match s.tasks[place]? with
    | none => s
    | some task =>
      let acted := s.act releaseId task a
      { acted.1 with tasks := s.tasks.set place acted.2 }

/-! ## Downloads -/

variable (collationKey : String → String)

/-- `download_asset`: texts of one collation key compare equal. -/
def State.download (s : State) (filename : String) : Option Bytes :=
  (s.assets.find? fun asset => collationKey asset.filename = collationKey filename).bind
    fun asset => s.disk.read asset.storageKey

/-- The asset downloads the bytes of a completed upload of its name, as many as are recorded. -/
def State.Serves (s : State) (asset : ReleaseAsset) : Prop :=
  ∃ bytes, s.download collationKey asset.filename = some bytes ∧
    (asset.filename, bytes) ∈ s.completed ∧ asset.sizeBytes = bytes.length

/-- The upload has ended, and so has its last write. -/
def Task.isDone (task : Task) : Bool :=
  match task.outstanding with
  | .writing _ _ => false
  | _ => !task.phase.isRunning

structure Intact (start : State) (steps : List Step) : Prop where
  /-- After the uploads every listed asset is served. -/
  served : (∀ task ∈ (run (step releaseId) start steps).tasks, task.isDone = true) →
    ∀ asset ∈ (run (step releaseId) start steps).assets,
      (run (step releaseId) start steps).Serves collationKey asset
  /-- No step of an upload that reports a failure changes the assets or their bytes. -/
  unchanged : ∀ earlier a later place task status message, steps = earlier ++ a :: later →
    a.place = some place → (run (step releaseId) start steps).tasks[place]? = some task →
    task.phase = .failed status message →
    (run (step releaseId) start (earlier ++ [a])).assets =
        (run (step releaseId) start earlier).assets ∧
      ∀ asset ∈ (run (step releaseId) start earlier).assets,
        (run (step releaseId) start (earlier ++ [a])).download collationKey asset.filename =
          (run (step releaseId) start earlier).download collationKey asset.filename

/-- The upload has its file open. -/
def Task.isOpen (task : Task) : Bool :=
  match task.phase, task.outstanding with
  | .streaming _ _, _ | .inserting _, _ | .removing _ _, _ => true
  | _, .writing _ _ => true
  | _, _ => false

def Phase.isInserting : Phase → Bool
  | .inserting _ => true
  | _ => false

def Outstanding.hasFailed : Outstanding → Bool
  | .failed _ => true
  | _ => false

/-- A file is created while no asset and no open upload has the name, and the last write of an
upload does not fail. -/
def Fits (s : State) : Step → Prop
  | .proceed place _ => ∀ task, s.tasks[place]? = some task →
    (task.phase = .creating →
      (∀ asset ∈ s.assets, collationKey asset.filename ≠ collationKey task.upload.filename) ∧
      ∀ other ∈ s.tasks, other.isOpen = true →
        collationKey other.upload.filename ≠ collationKey task.upload.filename) ∧
    (task.phase.isInserting = true → task.outstanding.hasFailed = false)
  | .land place failure => ∀ task, s.tasks[place]? = some task → task.phase = .created →
    failure = none
  | .arrive _ | .fails _ _ | .interrupt _ => True

instance (s : State) (a : Step) : Decidable (Fits collationKey s a) :=
  match a with
  | .proceed place _ => decidable_of_iff (∀ task ∈ s.tasks[place]?, (task.phase = .creating →
      (∀ asset ∈ s.assets, collationKey asset.filename ≠ collationKey task.upload.filename) ∧
      ∀ other ∈ s.tasks, other.isOpen = true →
        collationKey other.upload.filename ≠ collationKey task.upload.filename) ∧
    (task.phase.isInserting = true → task.outstanding.hasFailed = false)) Iff.rfl
  | .land place failure => decidable_of_iff (∀ task ∈ s.tasks[place]?, task.phase = .created →
    failure = none) Iff.rfl
  | .arrive _ | .fails _ _ | .interrupt _ => isTrue trivial

end Uploads

/-! ## What the uploads rely on -/

section Invariant

/-- The bytes that have been handed over are in the file, but for the outstanding ones. -/
def Outstanding.Landed (content handed : Bytes) : Outstanding → Prop
  | .none => content = handed
  | .writing offset chunk => handed = content ++ chunk ∧ offset = content.length
  | .failed _ => True

/-- The chunks that have not been handed over. -/
def Phase.left : Phase → Option (List Bytes)
  | .streaming left _ => some left
  | .inserting _ => some []
  | .created => some []
  | _ => none

def Phase.total : Phase → Option Nat
  | .streaming _ total => some total
  | .inserting total => some total
  | _ => none

def Task.key (releaseId : String) (task : Task) : String :=
  storageKey releaseId task.upload.filename

/-- An upload that has its file open. -/
structure Task.Good (releaseId : String) (collationKey : String → String) (s : State) (task : Task) :
    Prop where
  opened : ∃ inode, task.inode = some inode
  owns : ∀ inode, task.inode = some inode → ∀ key, s.disk.names key = some inode →
    key = task.key releaseId
  bound : ∀ inode, task.inode = some inode → inode < s.disk.next
  unlisted : task.phase ≠ .created → ∀ asset ∈ s.assets,
    collationKey asset.filename ≠ collationKey task.upload.filename
  content : ∀ left, task.phase.left = some left → ∃ handed inode,
    task.upload.chunks = handed ++ left ∧ (∀ total, task.phase.total = some total →
      total = handed.flatten.length) ∧ task.inode = some inode ∧
    s.disk.names (task.key releaseId) = some inode ∧
    task.outstanding.Landed (s.disk.contents inode) handed.flatten
  listed : task.phase = .created → ∀ asset ∈ s.assets,
    collationKey asset.filename = collationKey task.upload.filename →
      asset.filename = task.upload.filename ∧ asset.sizeBytes = task.upload.body.length ∧
      (task.upload.filename, task.upload.body) ∈ s.completed

structure Invariant (releaseId : String) (collationKey : String → String) (s : State) : Prop where
  proper : s.disk.Proper
  unopened : ∀ (i : Nat) (task : Task), s.tasks[i]? = some task → task.phase = .creating ∨
    task.phase = .creatingDir → task.outstanding = .none
  keyed : ∀ asset ∈ s.assets, asset.storageKey = storageKey releaseId asset.filename
  apart : ∀ (i j : Nat) (task other : Task), s.tasks[i]? = some task → s.tasks[j]? = some other →
    i ≠ j → task.isOpen = true → other.isOpen = true →
      collationKey task.upload.filename ≠ collationKey other.upload.filename
  good : ∀ (i : Nat) (task : Task), s.tasks[i]? = some task → task.isOpen = true →
    task.Good releaseId collationKey s
  served : ∀ asset ∈ s.assets, s.Serves collationKey asset ∨
    ∃ (i : Nat) (task : Task), s.tasks[i]? = some task ∧ task.isOpen = true ∧
      task.phase = .created ∧
      collationKey task.upload.filename = collationKey asset.filename

/-- A change that is of the assets of one name and of its file. -/
structure Elsewhere (releaseId : String) (filename : String) (s s' : State) : Prop where
  disk : Disk.Off (storageKey releaseId filename) s.disk s'.disk
  assets : s'.assets = s.assets ∨ ∃ asset, s'.assets = s.assets ++ [asset] ∧
    asset.filename = filename
  completed : ∀ upload ∈ s.completed, upload ∈ s'.completed

variable {releaseId : String} {collationKey : String → String} {s s' : State} {place : Nat}
  {task next other : Task} {filename : String}

theorem storageKey_inj {first second : String}
    (h : storageKey releaseId first = storageKey releaseId second) : first = second := by
  have htexts := congrArg String.toList h
  simp only [storageKey, String.toList_append] at htexts
  exact String.toList_inj.1 (List.append_cancel_left htexts)

/-- What is downloaded by another name is what was. -/
theorem Elsewhere.download (h : Elsewhere releaseId filename s s')
    (hkeyed : ∀ asset ∈ s.assets, asset.storageKey = storageKey releaseId asset.filename)
    {asset : ReleaseAsset} (hname : collationKey asset.filename ≠ collationKey filename) :
    s'.download collationKey asset.filename = s.download collationKey asset.filename := by
  have hfind : (s'.assets.find? fun other =>
        collationKey other.filename = collationKey asset.filename) =
      s.assets.find? fun other => collationKey other.filename = collationKey asset.filename := by
    rcases h.assets with hsame | ⟨new, happend, rfl⟩
    · rw [hsame]
    · rw [happend, List.find?_append, List.find?_cons_of_neg (by simpa using Ne.symm hname),
        List.find?_nil, Option.or_none]
  rw [State.download, hfind, State.download]
  cases hfound : s.assets.find? fun other =>
      collationKey other.filename = collationKey asset.filename with
  | none => rfl
  | some found =>
    have hsame : collationKey found.filename = collationKey asset.filename := by
      simpa using List.find?_some hfound
    simp only [Option.bind_some]
    apply h.disk.read
    rw [hkeyed found (List.mem_of_find?_eq_some hfound)]
    intro hkey
    exact hname (hsame ▸ congrArg collationKey (storageKey_inj hkey))

theorem Elsewhere.serves (h : Elsewhere releaseId filename s s')
    (hkeyed : ∀ asset ∈ s.assets, asset.storageKey = storageKey releaseId asset.filename)
    {asset : ReleaseAsset} (hname : collationKey asset.filename ≠ collationKey filename)
    (hserves : s.Serves collationKey asset) : s'.Serves collationKey asset := by
  obtain ⟨bytes, hdownload, hcompleted, hsize⟩ := hserves
  exact ⟨bytes, by rw [h.download hkeyed hname, hdownload], h.completed _ hcompleted, hsize⟩

/-- An upload of another name goes on. -/
theorem Task.Good.elsewhere (hgood : other.Good releaseId collationKey s)
    (h : Elsewhere releaseId filename s s')
    (hname : collationKey other.upload.filename ≠ collationKey filename) :
    other.Good releaseId collationKey s' := by
  have hkey : other.key releaseId ≠ storageKey releaseId filename := by
    intro hkey
    exact hname (congrArg collationKey (storageKey_inj hkey))
  -- an asset that is new has the other name
  have hassets : ∀ asset ∈ s'.assets,
      collationKey asset.filename = collationKey other.upload.filename → asset ∈ s.assets := by
    intro asset hasset hsame
    rcases h.assets with heq | ⟨new, happend, rfl⟩
    · rwa [heq] at hasset
    · rw [happend] at hasset
      rcases List.mem_append.1 hasset with hold | hnew
      · exact hold
      · rw [List.mem_singleton.1 hnew] at hsame
        exact absurd hsame.symm hname
  refine ⟨hgood.opened, ?_, ?_, ?_, ?_, ?_⟩
  · intro inode hinode key hlinked
    by_cases hother : key = storageKey releaseId filename
    · subst hother
      rcases h.disk.linked inode hlinked with hold | hnew
      · exact absurd (hgood.owns inode hinode _ hold).symm hkey
      · exact absurd (hgood.bound inode hinode) (Nat.not_lt.2 hnew)
    · rw [h.disk.names key hother] at hlinked
      exact hgood.owns inode hinode key hlinked
  · intro inode hinode
    exact Nat.lt_of_lt_of_le (hgood.bound inode hinode) h.disk.next
  · intro hphase asset hasset hsame
    exact hgood.unlisted hphase asset (hassets asset hasset hsame) hsame
  · intro left hleft
    obtain ⟨handed, inode, hchunks, htotal, hinode, hlinked, hlanded⟩ := hgood.content left hleft
    refine ⟨handed, inode, hchunks, htotal, hinode, ?_, ?_⟩
    · rw [h.disk.names _ hkey, hlinked]
    · rwa [h.disk.contents _ hkey inode hlinked]
  · intro hphase asset hasset hsame
    obtain ⟨hfilename, hsize, hcompleted⟩ :=
      hgood.listed hphase asset (hassets asset hasset hsame) hsame
    exact ⟨hfilename, hsize, h.completed _ hcompleted⟩

/-- A step of an upload that changes the assets of its name, and its file, only. -/
theorem Invariant.change (h : Invariant releaseId collationKey s)
    (htask : s.tasks[place]? = some task) (hname : next.upload.filename = task.upload.filename)
    (helse : Elsewhere releaseId task.upload.filename s { s' with tasks := s.tasks.set place next })
    (hothers : ∀ (i : Nat) (other : Task), i ≠ place → s.tasks[i]? = some other →
      other.isOpen = true → collationKey other.upload.filename ≠ collationKey task.upload.filename)
    (hproper : s'.disk.Proper) (hphase : next.phase ≠ .creating ∧ next.phase ≠ .creatingDir)
    (hkeyed : ∀ asset ∈ s'.assets, asset.storageKey = storageKey releaseId asset.filename)
    (hgood : next.isOpen = true →
      next.Good releaseId collationKey { s' with tasks := s.tasks.set place next })
    (hserved : ∀ asset ∈ s'.assets,
      collationKey asset.filename = collationKey task.upload.filename →
      State.Serves collationKey { s' with tasks := s.tasks.set place next } asset ∨
        next.isOpen = true ∧ next.phase = .created) :
    Invariant releaseId collationKey { s' with tasks := s.tasks.set place next } where
  proper := hproper
  unopened := by
    intro i other hother hfirst
    rcases Tasks.getElem?_set_cases hother with ⟨-, rfl⟩ | ⟨-, hother⟩
    · exact absurd hfirst (not_or.2 hphase)
    · exact h.unopened i other hother hfirst
  keyed := hkeyed
  apart := by
    intro i j one other hone hother hne honeOpen hotherOpen
    rcases Tasks.getElem?_set_cases hone with ⟨hi, rfl⟩ | ⟨hi, hbefore⟩
    · rcases Tasks.getElem?_set_cases hother with ⟨hj, -⟩ | ⟨hj, hother⟩
      · exact absurd (hi.trans hj.symm) hne
      · rw [hname]
        exact (hothers j other hj hother hotherOpen).symm
    · rcases Tasks.getElem?_set_cases hother with ⟨hj, rfl⟩ | ⟨hj, hother⟩
      · rw [hname]
        exact hothers i one hi hbefore honeOpen
      · exact h.apart i j one other hbefore hother hne honeOpen hotherOpen
  good := by
    intro i other hother hopen
    rcases Tasks.getElem?_set_cases hother with ⟨-, rfl⟩ | ⟨hi, hother⟩
    · exact hgood hopen
    · exact (h.good i other hother hopen).elsewhere helse (hothers i other hi hother hopen)
  served := by
    intro asset hasset
    obtain ⟨hplace, -⟩ := List.getElem?_eq_some_iff.1 htask
    by_cases hsame : collationKey asset.filename = collationKey task.upload.filename
    · refine (hserved asset hasset hsame).imp_right fun ⟨hopen, hphase⟩ => ?_
      exact ⟨place, next, List.getElem?_set_self hplace, hopen, hphase, by rw [hname, hsame]⟩
    · have hold : asset ∈ s.assets := by
        rcases helse.assets with heq | ⟨new, happend, hnew⟩
        · exact heq ▸ hasset
        · have hmem : asset ∈ s.assets ++ [new] := happend ▸ hasset
          rcases List.mem_append.1 hmem with hold | hlast
          · exact hold
          · rw [List.mem_singleton.1 hlast, hnew] at hsame
            exact absurd rfl hsame
      rcases h.served asset hold with hserves | ⟨i, other, hother, hopen, hphase, hkey⟩
      · exact Or.inl (helse.serves h.keyed hsame hserves)
      · refine Or.inr ⟨i, other, ?_, hopen, hphase, hkey⟩
        have hi : place ≠ i := by
          rintro rfl
          rw [Option.some.inj (htask.symm.trans hother)] at hsame
          exact hsame hkey.symm
        rwa [List.getElem?_set_ne hi]

/-- A step of an upload that changes nothing but where it is. -/
theorem Invariant.same (h : Invariant releaseId collationKey s)
    (htask : s.tasks[place]? = some task) (hupload : next.upload = task.upload)
    (hunopened : next.phase = .creating ∨ next.phase = .creatingDir → next.outstanding = .none)
    (hopen : next.isOpen = true → task.isOpen = true)
    (hgood : next.isOpen = true → task.Good releaseId collationKey s →
      next.Good releaseId collationKey s)
    (hcreated : task.isOpen = true → task.phase = .created →
      next.isOpen = true ∧ next.phase = .created) :
    Invariant releaseId collationKey { s with tasks := s.tasks.set place next } where
  proper := h.proper
  unopened := by
    intro i other hother hfirst
    rcases Tasks.getElem?_set_cases hother with ⟨-, rfl⟩ | ⟨-, hother⟩
    · exact hunopened hfirst
    · exact h.unopened i other hother hfirst
  keyed := h.keyed
  apart := by
    intro i j one other hone hother hne honeOpen hotherOpen
    rcases Tasks.getElem?_set_cases hone with ⟨hi, rfl⟩ | ⟨hi, hbefore⟩
    · rcases Tasks.getElem?_set_cases hother with ⟨hj, -⟩ | ⟨hj, hother⟩
      · exact absurd (hi.trans hj.symm) hne
      · rw [hupload]
        exact h.apart i j task other (hi ▸ htask) hother hne (hopen honeOpen) hotherOpen
    · rcases Tasks.getElem?_set_cases hother with ⟨hj, rfl⟩ | ⟨hj, hother⟩
      · rw [hupload]
        exact h.apart i j one task hbefore (hj ▸ htask) hne honeOpen (hopen hotherOpen)
      · exact h.apart i j one other hbefore hother hne honeOpen hotherOpen
  good := by
    intro i other hother hotherOpen
    rcases Tasks.getElem?_set_cases hother with ⟨-, rfl⟩ | ⟨hi, hother⟩
    · obtain ⟨hopened, howns, hbound, hunlisted, hcontent, hlisted⟩ :=
        hgood hotherOpen (h.good place task htask (hopen hotherOpen))
      exact ⟨hopened, howns, hbound, hunlisted, hcontent, hlisted⟩
    · obtain ⟨hopened, howns, hbound, hunlisted, hcontent, hlisted⟩ := h.good i other hother hotherOpen
      exact ⟨hopened, howns, hbound, hunlisted, hcontent, hlisted⟩
  served := by
    intro asset hasset
    obtain ⟨hplace, -⟩ := List.getElem?_eq_some_iff.1 htask
    rcases h.served asset hasset with hserves | ⟨i, other, hother, hotherOpen, hphase, hkey⟩
    · exact Or.inl hserves
    · refine Or.inr ?_
      by_cases hi : place = i
      · subst hi
        obtain rfl : task = other := Option.some.inj (htask.symm.trans hother)
        obtain ⟨hnextOpen, hnextPhase⟩ := hcreated hotherOpen hphase
        exact ⟨place, next, List.getElem?_set_self hplace, hnextOpen, hnextPhase, by rw [hupload, hkey]⟩
      · exact ⟨i, other, by rwa [List.getElem?_set_ne hi], hotherOpen, hphase, hkey⟩

/-- The other open uploads have other names. -/
theorem Invariant.others (h : Invariant releaseId collationKey s)
    (htask : s.tasks[place]? = some task) (hopen : task.isOpen = true) (i : Nat) (other : Task)
    (hi : i ≠ place) (hother : s.tasks[i]? = some other) (hotherOpen : other.isOpen = true) :
    collationKey other.upload.filename ≠ collationKey task.upload.filename :=
  h.apart i place other task hother htask hi hotherOpen hopen

/-! ### One step -/

/-- The file is created. -/
theorem Invariant.create {upload : Upload} {inode : Option Nat} {outstanding : Outstanding}
    (h : Invariant releaseId collationKey s)
    (htask : s.tasks[place]? = some ⟨upload, .creating, inode, outstanding⟩)
    (hunlisted : ∀ asset ∈ s.assets,
      collationKey asset.filename ≠ collationKey upload.filename)
    (halone : ∀ other ∈ s.tasks, other.isOpen = true →
      collationKey other.upload.filename ≠ collationKey upload.filename) :
    Invariant releaseId collationKey
      { s with
        disk := (s.disk.create (storageKey releaseId upload.filename)).1
        tasks := s.tasks.set place ⟨upload, .streaming upload.chunks 0,
          some (s.disk.create (storageKey releaseId upload.filename)).2, outstanding⟩ } := by
  have hnone : outstanding = .none := h.unopened place _ htask (Or.inl rfl)
  have hproper : (s.disk.create (storageKey releaseId upload.filename)).1.Proper :=
    Disk.proper_create h.proper
  refine @Invariant.change releaseId collationKey s
    { s with disk := (s.disk.create (storageKey releaseId upload.filename)).1 } place _
    ⟨upload, .streaming upload.chunks 0,
      some (s.disk.create (storageKey releaseId upload.filename)).2, outstanding⟩ h htask rfl
    ⟨Disk.off_create h.proper, Or.inl rfl, fun _ hupload => hupload⟩ ?_ hproper (by simp) h.keyed ?_
    ?_
  · intro i other _ hother hopen
    exact halone other (List.mem_of_getElem? hother) hopen
  · intro _
    refine ⟨⟨_, rfl⟩, ?_, ?_, fun _ => hunlisted, ?_, by simp⟩
    · intro inode hinode key hlinked
      obtain rfl := Option.some.inj hinode
      exact hproper.injective key _ _ hlinked Disk.names_create_self
    · intro inode hinode
      obtain rfl := Option.some.inj hinode
      exact Disk.create_lt h.proper
    · intro left hleft
      obtain rfl := Option.some.inj hleft
      refine ⟨[], _, rfl, ?_, rfl, Disk.names_create_self, ?_⟩
      · intro total htotal
        exact (Option.some.inj htotal).symm
      · rw [hnone]
        exact Disk.contents_create
  · intro asset hasset hsame
    exact absurd hsame (hunlisted asset hasset)

/-- The row is inserted. -/
theorem Invariant.insert {upload : Upload} {total : Nat} {inode : Option Nat}
    {outstanding : Outstanding} {now : Int} (h : Invariant releaseId collationKey s)
    (htask : s.tasks[place]? = some ⟨upload, .inserting total, inode, outstanding⟩)
    (hworks : outstanding.hasFailed = false) :
    Invariant releaseId collationKey
      { s with
        assets := s.assets ++ [upload.asset releaseId total now]
        completed := s.completed ++ [(upload.filename, upload.body)]
        tasks := s.tasks.set place ⟨upload, .created, inode, outstanding⟩ } := by
  have hopen : Task.isOpen ⟨upload, .inserting total, inode, outstanding⟩ = true := rfl
  have hgood := h.good place _ htask hopen
  have hunlisted := hgood.unlisted (by simp)
  obtain ⟨handed, file, hchunks, htotal, hinode, hlinked, hlanded⟩ := hgood.content [] rfl
  rw [List.append_nil] at hchunks
  have hbody : handed.flatten = upload.body := congrArg List.flatten hchunks.symm
  have hsize : total = upload.body.length := by rw [htotal total rfl, hbody]
  have hmem : (upload.filename, upload.body) ∈
      s.completed ++ [(upload.filename, upload.body)] :=
    List.mem_append_right _ (List.mem_singleton_self _)
  -- the row is the only one of its name
  have hnew : ∀ asset ∈ s.assets ++ [upload.asset releaseId total now],
      collationKey asset.filename = collationKey upload.filename →
      asset = upload.asset releaseId total now := by
    intro asset hasset hsame
    rcases List.mem_append.1 hasset with hold | hlast
    · exact absurd hsame (hunlisted asset hold)
    · exact List.mem_singleton.1 hlast
  refine @Invariant.change releaseId collationKey s
    { s with
      assets := s.assets ++ [upload.asset releaseId total now]
      completed := s.completed ++ [(upload.filename, upload.body)] } place _
    ⟨upload, .created, inode, outstanding⟩ h htask rfl
    ⟨Disk.Off.refl _ _, Or.inr ⟨_, rfl, rfl⟩, fun _ hupload => List.mem_append_left _ hupload⟩
    (h.others htask hopen) h.proper (by simp) ?_ ?_ ?_
  · intro asset hasset
    rcases List.mem_append.1 hasset with hold | hlast
    · exact h.keyed asset hold
    · rw [List.mem_singleton.1 hlast]
      rfl
  · intro _
    refine ⟨hgood.opened, hgood.owns, hgood.bound, by simp, ?_, ?_⟩
    · intro left hleft
      obtain rfl := Option.some.inj hleft
      exact ⟨handed, file, by rw [List.append_nil, hchunks], by simp [Phase.total], hinode,
        hlinked, hlanded⟩
    · intro _ asset hasset hsame
      rw [hnew asset hasset hsame]
      exact ⟨rfl, hsize, hmem⟩
  · intro asset hasset hsame
    cases outstanding with
    | none =>
      refine Or.inl ⟨upload.body, ?_, ?_, ?_⟩
      · have hnone : (s.assets.find? fun other =>
            collationKey other.filename = collationKey asset.filename) = none := by
          refine List.find?_eq_none.2 fun other hother => ?_
          simpa [hsame] using hunlisted other hother
        have hfind : ([upload.asset releaseId total now].find? fun other =>
            collationKey other.filename = collationKey asset.filename) =
              some (upload.asset releaseId total now) :=
          List.find?_cons_of_pos (decide_eq_true hsame.symm)
        have hcontent : s.disk.contents file = upload.body := hlanded.trans hbody
        rw [State.download, List.find?_append, hnone, Option.none_or, hfind, Option.bind_some]
        refine (congrArg (Option.map s.disk.contents) hlinked).trans ?_
        rw [Option.map_some, hcontent]
      · rw [hnew asset hasset hsame]
        exact hmem
      · rw [hnew asset hasset hsame]
        exact hsize
    | writing offset chunk => exact Or.inr ⟨rfl, rfl⟩
    | failed err => cases hworks

/-- The file of a failed upload is removed. -/
theorem Invariant.remove {upload : Upload} {status : Nat} {message : String} {inode : Option Nat}
    {outstanding : Outstanding} (h : Invariant releaseId collationKey s)
    (htask : s.tasks[place]? = some ⟨upload, .removing status message, inode, outstanding⟩) :
    Invariant releaseId collationKey
      { s with
        disk := s.disk.unlink (storageKey releaseId upload.filename)
        tasks := s.tasks.set place ⟨upload, .failed status message, inode, outstanding⟩ } := by
  have hopen : Task.isOpen ⟨upload, .removing status message, inode, outstanding⟩ = true := rfl
  have hgood := h.good place _ htask hopen
  have hunlisted := hgood.unlisted (by simp)
  refine @Invariant.change releaseId collationKey s
    { s with disk := s.disk.unlink (storageKey releaseId upload.filename) } place _
    ⟨upload, .failed status message, inode, outstanding⟩ h htask rfl
    ⟨Disk.off_unlink, Or.inl rfl, fun _ hupload => hupload⟩ (h.others htask hopen)
    (Disk.proper_unlink h.proper) (by simp) h.keyed ?_ ?_
  · intro _
    refine ⟨hgood.opened, ?_, hgood.bound, fun _ => hunlisted, by simp [Phase.left], by simp⟩
    intro file hfile key hlinked
    by_cases hkey : key = storageKey releaseId upload.filename
    · exact hkey
    · refine hgood.owns file hfile key ?_
      rwa [Disk.off_unlink.names key hkey] at hlinked
  · intro asset hasset hsame
    exact absurd hsame (hunlisted asset hasset)

/-- Some of the outstanding chunk is written. That of an upload that has succeeded is written
whole. -/
theorem Invariant.land {upload : Upload} {phase : Phase} {inode offset : Nat} {chunk written : Bytes}
    {outstanding : Outstanding} (h : Invariant releaseId collationKey s)
    (htask : s.tasks[place]? = some ⟨upload, phase, some inode, .writing offset chunk⟩)
    (hlands : outstanding = .none ∧ written = chunk ∨
      phase ≠ .created ∧ ∃ err, outstanding = .failed err) :
    Invariant releaseId collationKey
      { s with
        disk := s.disk.write 0 inode offset written
        tasks := s.tasks.set place ⟨upload, phase, some inode, outstanding⟩ } := by
  have hopen : Task.isOpen ⟨upload, phase, some inode, .writing offset chunk⟩ = true := by
    cases phase <;> rfl
  have hgood := h.good place _ htask hopen
  have howns := hgood.owns inode rfl
  have hphase : phase ≠ .creating ∧ phase ≠ .creatingDir := by
    constructor
    · rintro rfl
      cases h.unopened place _ htask (Or.inl rfl)
    · rintro rfl
      cases h.unopened place _ htask (Or.inr rfl)
  -- what has been handed over is in the file, if the chunk is
  have hcontent : ∀ left, phase.left = some left → ∃ handed,
      upload.chunks = handed ++ left ∧
      (∀ total, phase.total = some total → total = handed.flatten.length) ∧
      s.disk.names (storageKey releaseId upload.filename) = some inode ∧
      (outstanding = .none →
        (s.disk.write 0 inode offset written).contents inode = handed.flatten) := by
    intro left hleft
    obtain ⟨handed, file, hchunks, htotal, hfile, hlinked, hlanded⟩ := hgood.content left hleft
    obtain rfl := Option.some.inj hfile
    refine ⟨handed, hchunks, htotal, hlinked, fun hnone => ?_⟩
    obtain ⟨-, rfl⟩ := hlands.resolve_right fun hfails => by
      obtain ⟨-, err, hfailed⟩ := hfails
      rw [hnone] at hfailed
      cases hfailed
    obtain ⟨hhanded, rfl⟩ := hlanded
    rw [Disk.contents_write, Disk.overwrite_end, hhanded]
  refine @Invariant.change releaseId collationKey s
    { s with disk := s.disk.write 0 inode offset written } place _
    ⟨upload, phase, some inode, outstanding⟩ h htask rfl
    ⟨Disk.off_write howns, Or.inl rfl, fun _ hupload => hupload⟩ (h.others htask hopen)
    (Disk.proper_write h.proper) hphase h.keyed ?_ ?_
  · intro _
    refine ⟨hgood.opened, hgood.owns, hgood.bound, hgood.unlisted, ?_, hgood.listed⟩
    intro left hleft
    obtain ⟨handed, hchunks, htotal, hlinked, hwritten⟩ := hcontent left hleft
    refine ⟨handed, inode, hchunks, htotal, rfl, hlinked, ?_⟩
    rcases hlands with ⟨rfl, -⟩ | ⟨-, err, rfl⟩
    · exact hwritten rfl
    · trivial
  · intro asset hasset hsame
    by_cases hcreated : phase = .created
    · subst hcreated
      have hnone := (hlands.resolve_right fun hfails => hfails.1 rfl).1
      obtain ⟨handed, hchunks, -, hlinked, hwritten⟩ := hcontent [] rfl
      have hbody : handed.flatten = upload.body :=
        (congrArg List.flatten (hchunks.trans (List.append_nil _))).symm
      obtain ⟨hfilename, hsize, hcompleted⟩ := hgood.listed rfl asset hasset hsame
      refine Or.inl ⟨upload.body, ?_, by rw [hfilename]; exact hcompleted, hsize⟩
      -- whichever row of the name is found, its file is this one
      obtain ⟨found, hfound⟩ := Option.isSome_iff_exists.1
        (List.find?_isSome.2 ⟨asset, hasset, by simp⟩ :
          (s.assets.find? fun other =>
            collationKey other.filename = collationKey asset.filename).isSome = true)
      have hfoundSame : collationKey found.filename = collationKey upload.filename := by
        rw [← hsame]
        simpa using List.find?_some hfound
      have hfoundMem := List.mem_of_find?_eq_some hfound
      have hfoundName := (hgood.listed rfl found hfoundMem hfoundSame).1
      rw [State.download, hfound, Option.bind_some, h.keyed found hfoundMem, hfoundName]
      refine (congrArg (Option.map _) hlinked).trans ?_
      rw [Option.map_some, hwritten hnone, hbody]
    · exact absurd hsame (hgood.unlisted hcreated asset hasset)

/-- A step of an upload that has ended. -/
theorem Invariant.unchanged (h : Invariant releaseId collationKey s)
    (htask : s.tasks[place]? = some task) :
    Invariant releaseId collationKey { s with tasks := s.tasks.set place task } := by
  obtain ⟨hplace, rfl⟩ := List.getElem?_eq_some_iff.1 htask
  rw [List.set_getElem_self]
  exact h

/-- A chunk is taken from the body. -/
theorem Task.Good.take {upload : Upload} {chunk : Bytes} {left : List Bytes} {total : Nat}
    {inode : Option Nat} {outstanding after : Outstanding}
    (hgood : Task.Good releaseId collationKey s
      ⟨upload, .streaming (chunk :: left) total, inode, outstanding⟩)
    (hlanded : ∀ content handed : Bytes, outstanding.Landed content handed → total = handed.length →
      after.Landed content (handed ++ chunk)) :
    Task.Good releaseId collationKey s
      ⟨upload, .streaming left (total + chunk.length), inode, after⟩ := by
  refine ⟨hgood.opened, hgood.owns, hgood.bound, fun _ => hgood.unlisted (by simp), ?_, by simp⟩
  intro rest hrest
  obtain rfl := Option.some.inj hrest
  obtain ⟨handed, file, hchunks, htotal, hfile, hlinked, hcontent⟩ := hgood.content _ rfl
  have hlength := htotal total rfl
  have hflatten : (handed ++ [chunk]).flatten = handed.flatten ++ chunk := by simp
  refine ⟨handed ++ [chunk], file, by simpa using hchunks, ?_, hfile, hlinked, ?_⟩
  · intro sum hsum
    rw [← Option.some.inj hsum, hflatten, List.length_append, ← hlength]
  · rw [hflatten]
    exact hlanded _ _ hcontent hlength

/-- The upload goes on to remove its file. -/
theorem Task.Good.giveUp {upload : Upload} {phase : Phase} {status : Nat} {message : String}
    {inode : Option Nat} {outstanding : Outstanding}
    (hgood : Task.Good releaseId collationKey s ⟨upload, phase, inode, outstanding⟩)
    (hphase : phase ≠ .created) :
    Task.Good releaseId collationKey s ⟨upload, .removing status message, inode, outstanding⟩ :=
  ⟨hgood.opened, hgood.owns, hgood.bound, fun _ => hgood.unlisted hphase, by simp [Phase.left],
    by simp⟩

theorem Invariant.stream {upload : Upload} {chunk : Bytes} {left : List Bytes} {total : Nat}
    {inode : Option Nat} {outstanding : Outstanding} {now : Int}
    (h : Invariant releaseId collationKey s)
    (htask : s.tasks[place]? = some ⟨upload, .streaming (chunk :: left) total, inode, outstanding⟩) :
    Invariant releaseId collationKey
      { (s.proceed releaseId now ⟨upload, .streaming (chunk :: left) total, inode, outstanding⟩).1 with
        tasks := s.tasks.set place (s.proceed releaseId now
          ⟨upload, .streaming (chunk :: left) total, inode, outstanding⟩).2 } := by
  simp only [State.proceed]
  split
  · apply h.same htask
    case hupload => rfl
    case hgood => exact fun _ hgood => hgood.giveUp (by simp)
    all_goals simp [Task.isOpen]
  · split
    · rename_i hempty
      subst hempty
      apply h.same htask
      case hupload => rfl
      case hgood =>
        refine fun _ hgood => hgood.take fun content handed hlanded _ => ?_
        rwa [List.append_nil]
      all_goals simp [Task.isOpen]
    · cases outstanding with
      | none =>
        apply h.same htask
        case hupload => rfl
        case hgood =>
          refine fun _ hgood => hgood.take fun content handed hlanded htotal => ?_
          have hcontent : content = handed := hlanded
          rw [hcontent]
          exact ⟨rfl, htotal⟩
        all_goals simp [Task.isOpen]
      | writing offset last => exact h.unchanged htask
      | failed err =>
        apply h.same htask
        case hupload => rfl
        case hgood => exact fun _ hgood => hgood.giveUp (by simp)
        all_goals simp [Task.isOpen]

theorem Invariant.proceed {now : Int} (h : Invariant releaseId collationKey s)
    (htask : s.tasks[place]? = some task)
    (hfits : Fits collationKey s (.proceed place now)) :
    Invariant releaseId collationKey
      { (s.proceed releaseId now task).1 with
        tasks := s.tasks.set place (s.proceed releaseId now task).2 } := by
  obtain ⟨hcreating, hinserting⟩ := hfits task htask
  obtain ⟨upload, phase, inode, outstanding⟩ := task
  cases phase with
  | creatingDir =>
    have hnone : outstanding = .none := h.unopened place _ htask (Or.inr rfl)
    subst hnone
    simp only [State.proceed]
    apply h.same htask
    case hupload => rfl
    all_goals simp [Task.isOpen]
  | creating => exact h.create htask (hcreating rfl).1 (hcreating rfl).2
  | streaming left total =>
    cases left with
    | nil =>
      simp only [State.proceed]
      apply h.same htask
      case hupload => rfl
      case hgood =>
        intro _ hgood
        exact ⟨hgood.opened, hgood.owns, hgood.bound, fun _ => hgood.unlisted (by simp),
          hgood.content, by simp⟩
      all_goals simp [Task.isOpen]
    | cons chunk left => exact h.stream htask
  | inserting total => exact h.insert htask (hinserting rfl)
  | removing status message => exact h.remove htask
  | created => exact h.unchanged htask
  | failed status message => exact h.unchanged htask
  | interrupted => exact h.unchanged htask

theorem Invariant.fails {err : String} (h : Invariant releaseId collationKey s)
    (htask : s.tasks[place]? = some task) :
    Invariant releaseId collationKey { s with tasks := s.tasks.set place (task.fails err) } := by
  obtain ⟨upload, phase, inode, outstanding⟩ := task
  cases phase with
  | creatingDir =>
    have hnone : outstanding = .none := h.unopened place _ htask (Or.inr rfl)
    subst hnone
    apply h.same htask
    case hupload => rfl
    all_goals simp [Task.fails, Task.isOpen]
  | creating =>
    have hnone : outstanding = .none := h.unopened place _ htask (Or.inl rfl)
    subst hnone
    apply h.same htask
    case hupload => rfl
    all_goals simp [Task.fails, Task.isOpen]
  | streaming left total =>
    apply h.same htask
    case hupload => rfl
    case hgood => exact fun _ hgood => hgood.giveUp (by simp)
    all_goals simp [Task.fails, Task.isOpen]
  | inserting total =>
    apply h.same htask
    case hupload => rfl
    case hgood => exact fun _ hgood => hgood.giveUp (by simp)
    all_goals simp [Task.fails, Task.isOpen]
  | removing status message =>
    apply h.same htask
    case hupload => rfl
    case hgood =>
      exact fun _ hgood => ⟨hgood.opened, hgood.owns, hgood.bound,
        fun _ => hgood.unlisted (by simp), by simp [Task.fails, Phase.left], by simp [Task.fails]⟩
    all_goals simp [Task.fails, Task.isOpen]
  | created => exact h.unchanged htask
  | failed status message => exact h.unchanged htask
  | interrupted => exact h.unchanged htask

theorem Invariant.interrupt (h : Invariant releaseId collationKey s)
    (htask : s.tasks[place]? = some task) (hrunning : task.phase.isRunning = true) :
    Invariant releaseId collationKey
      { s with tasks := s.tasks.set place { task with phase := .interrupted } } := by
  have hcreated : task.phase ≠ .created := by
    intro hphase
    simp [hphase, Phase.isRunning] at hrunning
  apply h.same htask
  case hupload => rfl
  case hopen =>
    intro hopen
    obtain ⟨upload, phase, inode, outstanding⟩ := task
    cases outstanding with
    | none => simp [Task.isOpen] at hopen
    | writing offset chunk => cases phase <;> rfl
    | failed err => simp [Task.isOpen] at hopen
  case hgood =>
    exact fun _ hgood => ⟨hgood.opened, hgood.owns, hgood.bound,
      fun _ => hgood.unlisted hcreated, by simp [Phase.left], by simp⟩
  all_goals simp [hcreated]

theorem Invariant.arrive {upload : Upload} (h : Invariant releaseId collationKey s) :
    Invariant releaseId collationKey
      { s with tasks := s.tasks ++ [⟨upload, upload.firstPhase, none, .none⟩] } := by
  have hclosed : Task.isOpen ⟨upload, upload.firstPhase, none, .none⟩ = false := by
    unfold Upload.firstPhase
    split
    · rfl
    · split
      · rfl
      · rfl
  -- an upload that is open was there before
  have hold : ∀ (i : Nat) (other : Task),
      (s.tasks ++ [⟨upload, upload.firstPhase, none, .none⟩])[i]? = some other →
      s.tasks[i]? = some other ∨ other = ⟨upload, upload.firstPhase, none, .none⟩ := by
    intro i other hother
    by_cases hi : i < s.tasks.length
    · exact Or.inl (by rwa [List.getElem?_append_left hi] at hother)
    · rw [List.getElem?_append_right (Nat.le_of_not_lt hi)] at hother
      exact Or.inr (List.mem_singleton.1 (List.mem_of_getElem? hother))
  have holdOpen : ∀ (i : Nat) (other : Task),
      (s.tasks ++ [⟨upload, upload.firstPhase, none, .none⟩])[i]? = some other →
      other.isOpen = true → s.tasks[i]? = some other := by
    intro i other hother hopen
    refine (hold i other hother).resolve_right ?_
    rintro rfl
    rw [hclosed] at hopen
    cases hopen
  refine ⟨h.proper, ?_, h.keyed, ?_, ?_, ?_⟩
  · intro i other hother hfirst
    rcases hold i other hother with hbefore | rfl
    · exact h.unopened i other hbefore hfirst
    · rfl
  · intro i j one other hone hother hne honeOpen hotherOpen
    exact h.apart i j one other (holdOpen i one hone honeOpen) (holdOpen j other hother hotherOpen)
      hne honeOpen hotherOpen
  · intro i other hother hopen
    obtain ⟨hopened, howns, hbound, hunlisted, hcontent, hlisted⟩ :=
      h.good i other (holdOpen i other hother hopen) hopen
    exact ⟨hopened, howns, hbound, hunlisted, hcontent, hlisted⟩
  · intro asset hasset
    refine (h.served asset hasset).imp_right fun ⟨i, other, hother, hopen, hphase, hkey⟩ => ?_
    obtain ⟨hi, -⟩ := List.getElem?_eq_some_iff.1 hother
    exact ⟨i, other, by rwa [List.getElem?_append_left hi], hopen, hphase, hkey⟩

theorem Invariant.landing {failure : Option (Nat × String)} (h : Invariant releaseId collationKey s)
    (htask : s.tasks[place]? = some task)
    (hfits : task.phase = .created → failure = none) :
    Invariant releaseId collationKey
      { (s.land task failure).1 with tasks := s.tasks.set place (s.land task failure).2 } := by
  obtain ⟨upload, phase, inode, outstanding⟩ := task
  cases inode with
  | none => exact h.unchanged htask
  | some inode =>
    cases outstanding with
    | none => exact h.unchanged htask
    | failed err => exact h.unchanged htask
    | writing offset chunk =>
      cases failure with
      | none => exact h.land htask (Or.inl ⟨rfl, rfl⟩)
      | some failure =>
        obtain ⟨amount, err⟩ := failure
        exact h.land htask (Or.inr ⟨fun hphase => by simpa using hfits hphase, err, rfl⟩)

theorem Invariant.step {a : Step} (h : Invariant releaseId collationKey s)
    (hfits : Fits collationKey s a) : Invariant releaseId collationKey (step releaseId s a) := by
  cases a with
  | arrive upload => exact h.arrive
  | proceed place now =>
    simp only [ReleaseAssets.step, Step.place]
    cases htask : s.tasks[place]? with
    | none => exact h
    | some task => exact h.proceed htask hfits
  | fails place err =>
    simp only [ReleaseAssets.step, Step.place]
    cases htask : s.tasks[place]? with
    | none => exact h
    | some task => exact h.fails htask
  | land place failure =>
    simp only [ReleaseAssets.step, Step.place]
    cases htask : s.tasks[place]? with
    | none => exact h
    | some task => exact h.landing htask (hfits task htask)
  | interrupt place =>
    simp only [ReleaseAssets.step, Step.place]
    cases htask : s.tasks[place]? with
    | none => exact h
    | some task =>
      simp only [State.act]
      split
      · rename_i hrunning
        exact h.interrupt htask hrunning
      · exact h.unchanged htask

end Invariant

/-! ## Uploads that report a failure -/

section Failures

variable {releaseId : String} {collationKey : String → String} {s s' : State} {place : Nat}
  {task : Task} {a : Step}

/-- The upload in a place has succeeded. -/
def Succeeded (place : Nat) (s : State) : Prop :=
  ∃ task, s.tasks[place]? = some task ∧ task.phase = .created

/-- An upload that has succeeded has ended. -/
theorem act_created (hphase : task.phase = .created) (s : State) (a : Step) :
    (s.act releaseId task a).2.phase = .created := by
  obtain ⟨upload, phase, inode, outstanding⟩ := task
  subst hphase
  cases a with
  | arrive upload => rfl
  | proceed place now => rfl
  | fails place err => rfl
  | land place failure =>
    simp only [State.act, State.land]
    split
    · split
      · rfl
      · rfl
    · rfl
  | interrupt place => rfl

/-- A step of the upload in a place. -/
theorem step_eq (hplace : a.place = some place) (htask : s.tasks[place]? = some task) :
    step releaseId s a = { (s.act releaseId task a).1 with
      tasks := s.tasks.set place (s.act releaseId task a).2 } := by
  cases a with
  | arrive upload => cases hplace
  | proceed other now =>
    obtain rfl := Option.some.inj hplace
    simp only [step, Step.place, htask]
  | fails other err =>
    obtain rfl := Option.some.inj hplace
    simp only [step, Step.place, htask]
  | land other failure =>
    obtain rfl := Option.some.inj hplace
    simp only [step, Step.place, htask]
  | interrupt other =>
    obtain rfl := Option.some.inj hplace
    simp only [step, Step.place, htask]

theorem step_of_none (hplace : a.place = some place) (hnone : s.tasks[place]? = none) :
    step releaseId s a = s := by
  cases a with
  | arrive upload => cases hplace
  | proceed other now =>
    obtain rfl := Option.some.inj hplace
    simp only [step, Step.place, hnone]
  | fails other err =>
    obtain rfl := Option.some.inj hplace
    simp only [step, Step.place, hnone]
  | land other failure =>
    obtain rfl := Option.some.inj hplace
    simp only [step, Step.place, hnone]
  | interrupt other =>
    obtain rfl := Option.some.inj hplace
    simp only [step, Step.place, hnone]

theorem Succeeded.step (h : Succeeded place s) : Succeeded place (step releaseId s a) := by
  obtain ⟨task, htask, hphase⟩ := h
  obtain ⟨hlt, -⟩ := List.getElem?_eq_some_iff.1 htask
  cases hplace : a.place with
  | none =>
    cases a with
    | arrive upload =>
      exact ⟨task, by rwa [ReleaseAssets.step, List.getElem?_append_left hlt], hphase⟩
    | proceed other now => cases hplace
    | fails other err => cases hplace
    | land other failure => cases hplace
    | interrupt other => cases hplace
  | some other =>
    cases hother : s.tasks[other]? with
    | none =>
      rw [step_of_none hplace hother]
      exact ⟨task, htask, hphase⟩
    | some otherTask =>
      rw [step_eq hplace hother]
      by_cases hsame : other = place
      · subst hsame
        obtain rfl : task = otherTask := Option.some.inj (htask.symm.trans hother)
        exact ⟨_, List.getElem?_set_self hlt, act_created hphase s a⟩
      · exact ⟨task, by rwa [List.getElem?_set_ne hsame], hphase⟩

theorem Succeeded.run {steps : List Step} (h : Succeeded place s) :
    Succeeded place (run (ReleaseAssets.step releaseId) s steps) := by
  induction steps generalizing s with
  | nil => exact h
  | cons a steps ih => exact ih h.step

/-- A step by which an upload does not succeed changes neither the assets nor their bytes. -/
theorem Invariant.unlisted_step (h : Invariant releaseId collationKey s)
    (hfits : Fits collationKey s a) (hplace : a.place = some place)
    (htask : s.tasks[place]? = some task)
    (hphase : (s.act releaseId task a).2.phase ≠ .created) :
    (s.act releaseId task a).1.assets = s.assets ∧
      ∀ asset ∈ s.assets, (s.act releaseId task a).1.download collationKey asset.filename =
        s.download collationKey asset.filename := by
  -- what is done to the file of an upload whose name is not listed
  have hdisk (disk : Disk String UInt8) (hoff : Disk.Off (task.key releaseId) s.disk disk)
      (hunlisted : ∀ asset ∈ s.assets,
        collationKey asset.filename ≠ collationKey task.upload.filename) :
      ∀ asset ∈ s.assets, State.download collationKey { s with disk := disk } asset.filename =
        s.download collationKey asset.filename := by
    intro asset hasset
    have helse : Elsewhere releaseId task.upload.filename s { s with disk := disk } :=
      ⟨hoff, Or.inl rfl, fun _ hupload => hupload⟩
    exact helse.download h.keyed (hunlisted asset hasset)
  obtain ⟨upload, phase, inode, outstanding⟩ := task
  cases a with
  | arrive upload => cases hplace
  | fails other err => exact ⟨rfl, fun _ _ => rfl⟩
  | interrupt other => exact ⟨rfl, fun _ _ => rfl⟩
  | land other failure =>
    obtain rfl := Option.some.inj hplace
    cases inode with
    | none => exact ⟨rfl, fun _ _ => rfl⟩
    | some inode =>
      cases outstanding with
      | none => exact ⟨rfl, fun _ _ => rfl⟩
      | failed err => exact ⟨rfl, fun _ _ => rfl⟩
      | writing offset chunk =>
        have hopen : Task.isOpen ⟨upload, phase, some inode, .writing offset chunk⟩ = true := by
          cases phase <;> rfl
        have hgood := h.good other _ htask hopen
        cases failure with
        | none =>
          exact ⟨rfl, hdisk _ (Disk.off_write (hgood.owns inode rfl)) (hgood.unlisted hphase)⟩
        | some failure =>
          exact ⟨rfl, hdisk _ (Disk.off_write (hgood.owns inode rfl)) (hgood.unlisted hphase)⟩
  | proceed other now =>
    obtain rfl := Option.some.inj hplace
    cases phase with
    | creatingDir => exact ⟨rfl, fun _ _ => rfl⟩
    | creating =>
      exact ⟨rfl, hdisk _ (Disk.off_create h.proper) ((hfits _ htask).1 rfl).1⟩
    | streaming left total =>
      have hsame : (s.proceed releaseId now
          ⟨upload, .streaming left total, inode, outstanding⟩).1 = s := by
        cases left with
        | nil => rfl
        | cons chunk left =>
          simp only [State.proceed]
          split
          · rfl
          · split
            · rfl
            · cases outstanding with
              | none => rfl
              | writing offset last => rfl
              | failed err => rfl
      rw [State.act, hsame]
      exact ⟨rfl, fun _ _ => rfl⟩
    | inserting total => exact absurd rfl hphase
    | removing status message =>
      have hgood := h.good other _ htask rfl
      exact ⟨rfl, hdisk _ Disk.off_unlink (hgood.unlisted (by simp))⟩
    | created => exact ⟨rfl, fun _ _ => rfl⟩
    | failed status message => exact ⟨rfl, fun _ _ => rfl⟩
    | interrupted => exact ⟨rfl, fun _ _ => rfl⟩

end Failures

/-! ## Runs -/

section Runs

variable {releaseId : String} {collationKey : String → String} {start : State} {steps : List Step}

theorem invariant_start (hproper : start.disk.Proper)
    (hkeyed : ∀ asset ∈ start.assets, asset.storageKey = storageKey releaseId asset.filename)
    (hserved : ∀ asset ∈ start.assets, start.Serves collationKey asset) (htasks : start.tasks = []) :
    Invariant releaseId collationKey start where
  proper := hproper
  unopened := by simp [htasks]
  keyed := hkeyed
  apart := by simp [htasks]
  good := by simp [htasks]
  served := fun asset hasset => Or.inl (hserved asset hasset)

end Runs

/-! ## Uploads of a name that is taken -/

/-- A release with one asset. -/
def released : State where
  assets := [⟨1, "r1", "app", 3, "application/octet-stream", "r1/app", 0⟩]
  disk := ⟨fun key => if key = "r1/app" then some 0 else none, fun _ => [1, 2, 3], 1⟩
  completed := [("app", [1, 2, 3])]
  tasks := []

/-- The calls of an upload of one chunk, up to the row. -/
def uploadSteps (upload : Upload) (failure : Option (Nat × String)) : List Step :=
  [.arrive upload, .proceed 0 5, .proceed 0 5, .proceed 0 5, .proceed 0 5, .proceed 0 5,
    .land 0 failure]

/-- The client goes away while it sends the body. -/
def cutShort (upload : Upload) : List Step :=
  [.arrive upload, .proceed 0 5, .proceed 0 5, .fails 0 "incomplete body", .proceed 0 5]

end Edda.App.ReleaseAssets
