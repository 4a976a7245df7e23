import Edda.App.RepositoryRoutes
import Edda.Support.Runs
import Edda.Support.Tasks

/-!
# The store of large files

An upload writes the file of its object in place, at its final path, and lists the object after
that. Its checks come before the first write: the digest is that of the bytes it has received, not
of what is in the file. A download reads the file and looks at nothing else. Each system call and
each statement is a step of its own; an upload can stop at any of them, and the process can crash.

`storeHolds` says in which runs every listed object is in its file.
-/

set_option autoImplicit false

namespace Edda.App.LfsStore

open Edda.App.RepositoryRoutes Edda.Domain Edda.Support Edda.Support.RustText

/-- A request by the call that it makes next. -/
inductive Task where
  | createFile (oid : String) (body : Bytes)
  | write (oid : String) (body : Bytes) (written : Nat)
  | insertObject (oid : String) (body : Bytes)
  | openFile (oid : String)
  | read (oid : String) (buffer : Bytes)
  | finished
  deriving DecidableEq, Repr

/-- The listed objects and the files of a repository, the transfer tokens that have been issued for
it, and what downloads have been answered with. -/
structure State where
  objects : List LfsObject
  files : String → Option Bytes
  issued : List (String × TransferAction)
  tasks : List Task
  served : List (String × Bytes)

def State.set (s : State) (place : Nat) (task : Task) : State :=
  { s with tasks := s.tasks.set place task }

def State.start (s : State) (task : Task) : State := { s with tasks := s.tasks ++ [task] }

def State.issue (s : State) (oid : String) (action : TransferAction) : State :=
  { s with issued := (oid, action) :: s.issued }

def State.setFile (s : State) (oid : String) (bytes : Bytes) : State :=
  { s with files := Function.update s.files oid (some bytes) }

/-- What is in a file that is open. -/
def State.content (s : State) (oid : String) : Bytes := (s.files oid).getD []

/-- A write of some bytes at an offset; a gap before them is filled with zeros. -/
def writeAt (content : Bytes) (offset : Nat) (chunk : Bytes) : Bytes :=
  content.take offset ++ List.replicate (offset - content.length) 0 ++ chunk ++
    content.drop (offset + chunk.length)

/-- The bytes of one call, at least one and at most all that are left. -/
def nextChunk (bytes : Bytes) (offset amount : Nat) : Bytes := (bytes.drop offset).take (amount + 1)

section Steps

variable (sha256Hex : Bytes → String) (maxLfsObjectBytes : Nat) (repository : RepositoryId)

/-- `LfsRepo::find_object`. -/
def findObject (s : State) (oid : String) : Option LfsObject :=
  s.objects.find? fun object => object.repositoryId = repository ∧ object.oid = oid

/-- `write_all` goes on until all is written; then the object is listed. -/
def writeRest (oid : String) (body : Bytes) (written : Nat) : Task :=
  if written < body.length then .write oid body written else .insertObject oid body

/-- The next call of a request, which moves some bytes. -/
def proceed (s : State) (place amount : Nat) : Task → State
  -- an existing file is truncated
  | .createFile oid body => (s.setFile oid []).set place (writeRest oid body 0)
  | .write oid body written =>
    let chunk := nextChunk body written amount
    (s.setFile oid (writeAt (s.content oid) written chunk)).set place
      (writeRest oid body (written + chunk.length))
  | .insertObject oid body =>
    { s with objects := insertLfsObject s.objects ⟨repository, oid, body.length⟩ }.set place
      .finished
  | .openFile oid => match s.files oid with
    | none => s.set place .finished
    | some _ => s.set place (.read oid [])
  | .read oid buffer =>
    let chunk := nextChunk (s.content oid) buffer.length amount
    if chunk = [] then { s with served := (oid, buffer) :: s.served }.set place .finished
    else s.set place (.read oid (buffer ++ chunk))
  | .finished => s

/-- The steps that name a request do so by its place. A batch asks for one object after another. -/
inductive Step where
  | batch (action : TransferAction) (oid : String) (queryFails : Bool)
  | upload (oid : String) (body : Bytes)
  | download (oid : String)
  | proceed (place amount : Nat)
  | fails (place : Nat)
  | crash
  deriving DecidableEq, Repr

/-- The actions of `batch` for one object. A query that fails has found nothing. -/
def batch (s : State) (action : TransferAction) (oid : String) (queryFails : Bool) : State :=
  if isValidOid oid = false then s
  else
    let existing := if queryFails then none else findObject repository s oid
    match action with
    -- what is listed needs no upload
    | .upload => if existing.isSome then s else s.issue oid .upload
    | .download => if existing.isSome then s.issue oid .download else s

def step (s : State) : Step → State
  | .batch action oid queryFails => batch repository s action oid queryFails
  | .upload oid body =>
    if isValidOid oid = false ∨ (oid, .upload) ∉ s.issued then s
    else if maxLfsObjectBytes < body.length ∨ sha256Hex body ≠ oid then s
    else s.start (.createFile oid body)
  -- neither the table nor the digest is looked at
  | .download oid =>
    if isValidOid oid = false ∨ (oid, .download) ∉ s.issued then s else s.start (.openFile oid)
  | .proceed place amount => match s.tasks[place]? with
    | none => s
    | some task => proceed repository s place amount task
  | .fails place => s.set place .finished
  | .crash => { s with tasks := [] }

/-! ## What has to hold -/

/-- The file of every listed object holds the bytes of its digest, as many as are recorded, and so
does what a download is answered with. -/
structure Holds (s : State) : Prop where
  stored : ∀ oid object, findObject repository s oid = some object →
    ∃ bytes, s.files oid = some bytes ∧ sha256Hex bytes = oid ∧ bytes.length = object.sizeBytes
  served : ∀ oid bytes, (oid, bytes) ∈ s.served → sha256Hex bytes = oid

/-- An object is listed while its file holds the uploaded bytes, and no call changes the file of a
listed object. -/
def TaskFits (s : State) (amount : Nat) : Task → Prop
  | .createFile oid _ => (findObject repository s oid).isSome = true → s.files oid = some []
  | .write oid body written => (findObject repository s oid).isSome = true →
    s.files oid = some (writeAt (s.content oid) written (nextChunk body written amount))
  | .insertObject oid body => findObject repository s oid = none → s.files oid = some body
  | _ => True

def StepFits (s : State) : Step → Prop
  | .proceed place amount => ∀ task, s.tasks[place]? = some task →
    TaskFits repository s amount task
  | _ => True

instance decidableTaskFits (s : State) (amount : Nat) :
    (task : Task) → Decidable (TaskFits repository s amount task)
  | .createFile _ _ => inferInstanceAs (Decidable (_ → _))
  | .write _ _ _ => inferInstanceAs (Decidable (_ → _))
  | .insertObject _ _ => inferInstanceAs (Decidable (_ → _))
  | .openFile _ => isTrue trivial
  | .read _ _ => isTrue trivial
  | .finished => isTrue trivial

instance decidableStepFits (s : State) : (a : Step) → Decidable (StepFits repository s a)
  | .proceed place amount =>
    inferInstanceAs (Decidable (∀ task ∈ s.tasks[place]?, TaskFits repository s amount task))
  | .batch _ _ _ => isTrue trivial
  | .upload _ _ => isTrue trivial
  | .download _ => isTrue trivial
  | .fails _ => isTrue trivial
  | .crash => isTrue trivial

/-- Two byte strings of one length with one digest. -/
def Collide (first second : Bytes) : Prop :=
  first ≠ second ∧ first.length = second.length ∧ sha256Hex first = sha256Hex second

/-- The digest does not tell what a call leaves in a file from what has to be there. -/
def Collides (s : State) : Step → Prop
  | .proceed place amount => ∃ task, s.tasks[place]? = some task ∧ match task with
    | .write oid body written =>
      Collide sha256Hex (s.content oid)
        (writeAt (s.content oid) written (nextChunk body written amount))
    | .insertObject oid body => Collide sha256Hex (s.content oid) body
    | _ => False
  | _ => False

end Steps

/-- An empty store. -/
def empty : State := ⟨[], fun _ => none, [], [], []⟩

/-! ## Listed objects -/

section Keeps

variable {sha256Hex : Bytes → String} {maxLfsObjectBytes : Nat} {repository : RepositoryId}
  {s s' : State} {place amount : Nat} {task next : Task} {oid : String} {body : Bytes}

/-- A new row is found where none was. -/
theorem find_insertLfsObject (objects : List LfsObject) (oid other : String) (size : Nat) :
    (insertLfsObject objects ⟨repository, oid, size⟩).find?
        (fun object => object.repositoryId = repository ∧ object.oid = other) =
      (objects.find? fun object => object.repositoryId = repository ∧ object.oid = other).or
        (if other = oid then some ⟨repository, oid, size⟩ else none) := by
  rw [insertLfsObject]
  split
  · rename_i hlisted
    split
    · rename_i hsame
      subst hsame
      obtain ⟨object, hobject, hrow⟩ := List.any_eq_true.1 hlisted
      have hsome : (objects.find? fun object =>
          object.repositoryId = repository ∧ object.oid = other).isSome = true :=
        List.find?_isSome.2 ⟨object, hobject, hrow⟩
      rw [Option.or_of_isSome hsome]
    · rw [Option.or_none]
  · rw [List.find?_append]
    congr 1
    by_cases hsame : other = oid
    · simp [hsame]
    · have hne : ¬ oid = other := fun h => hsame h.symm
      simp [hsame, hne]

/-- Listed objects stay listed as they are, with the files that they have. -/
structure Keeps (repository : RepositoryId) (s s' : State) : Prop where
  objects : ∀ oid object, findObject repository s oid = some object →
    findObject repository s' oid = some object
  files : ∀ oid, (findObject repository s oid).isSome = true → s'.files oid = s.files oid

/-- What a request that is under way relies on. -/
def TaskInv (sha256Hex : Bytes → String) (repository : RepositoryId) (s : State) : Task → Prop
  | .createFile oid body | .write oid body _ | .insertObject oid body => sha256Hex body = oid
  | .openFile oid => (findObject repository s oid).isSome = true
  | .read oid buffer => (findObject repository s oid).isSome = true ∧
    ∃ bytes, s.files oid = some bytes ∧ buffer = bytes.take buffer.length
  | .finished => True

structure Inv (sha256Hex : Bytes → String) (repository : RepositoryId) (s : State) : Prop where
  issued : ∀ oid, (oid, .download) ∈ s.issued → (findObject repository s oid).isSome = true
  tasks : ∀ task ∈ s.tasks, TaskInv sha256Hex repository s task

theorem Keeps.listed (hkeeps : Keeps repository s s')
    (h : (findObject repository s oid).isSome = true) :
    (findObject repository s' oid).isSome = true := by
  obtain ⟨object, hobject⟩ := Option.isSome_iff_exists.1 h
  rw [hkeeps.objects oid object hobject]
  rfl

theorem TaskInv.keeps (hkeeps : Keeps repository s s') (h : TaskInv sha256Hex repository s task) :
    TaskInv sha256Hex repository s' task := by
  cases task with
  | createFile oid body => exact h
  | write oid body written => exact h
  | insertObject oid body => exact h
  | openFile oid => exact hkeeps.listed h
  | read oid buffer =>
    refine ⟨hkeeps.listed h.1, ?_⟩
    rw [hkeeps.files oid h.1]
    exact h.2
  | finished => trivial

theorem Inv.keeps (hinv : Inv sha256Hex repository s) (hkeeps : Keeps repository s s')
    (hissued : s'.issued = s.issued) (htasks : s'.tasks = s.tasks) :
    Inv sha256Hex repository s' := by
  constructor
  · intro oid hmem
    rw [hissued] at hmem
    exact hkeeps.listed (hinv.issued oid hmem)
  · intro task htask
    rw [htasks] at htask
    exact (hinv.tasks task htask).keeps hkeeps

theorem Inv.set (hinv : Inv sha256Hex repository s) (hnext : TaskInv sha256Hex repository s next) :
    Inv sha256Hex repository (s.set place next) :=
  ⟨hinv.issued, Tasks.forall_set (TaskInv sha256Hex repository s) hinv.tasks hnext⟩

theorem Inv.start (hinv : Inv sha256Hex repository s)
    (hnext : TaskInv sha256Hex repository s next) : Inv sha256Hex repository (s.start next) :=
  ⟨hinv.issued, Tasks.forall_append_one (TaskInv sha256Hex repository s) hinv.tasks hnext⟩

theorem taskInv_writeRest (hbody : sha256Hex body = oid) (written : Nat) :
    TaskInv sha256Hex repository s (writeRest oid body written) := by
  rw [writeRest]
  split
  · exact hbody
  · exact hbody

/-- A file that is written while its object is not listed, or that stays as it is. -/
theorem keeps_setFile {bytes : Bytes}
    (h : (findObject repository s oid).isSome = true → s.files oid = some bytes) :
    Keeps repository s (s.setFile oid bytes) := by
  refine ⟨fun _ _ hobject => hobject, fun other hother => ?_⟩
  by_cases hsame : other = oid
  · subst hsame
    rw [h hother]
    exact Function.update_self other (some bytes) s.files
  · exact Function.update_of_ne hsame (some bytes) s.files

theorem keeps_insertObject (s : State) (oid : String) (size : Nat) :
    Keeps repository s
      { s with objects := insertLfsObject s.objects ⟨repository, oid, size⟩ } := by
  refine ⟨fun other object hobject => ?_, fun _ _ => rfl⟩
  rw [findObject] at hobject ⊢
  rw [find_insertLfsObject, hobject]
  rfl

theorem Holds.keeps (hholds : Holds sha256Hex repository s) (hkeeps : Keeps repository s s')
    (hsame : ∀ oid, findObject repository s' oid = findObject repository s oid)
    (hserved : s'.served = s.served) : Holds sha256Hex repository s' := by
  constructor
  · intro oid object hobject
    rw [hsame] at hobject
    rw [hkeeps.files oid (by rw [hobject]; rfl)]
    exact hholds.stored oid object hobject
  · intro oid bytes hmem
    rw [hserved] at hmem
    exact hholds.served oid bytes hmem

/-- An object is listed while its file holds the bytes that have been uploaded. -/
theorem holds_insertObject (hholds : Holds sha256Hex repository s) (hbody : sha256Hex body = oid)
    (hfits : findObject repository s oid = none → s.files oid = some body) :
    Holds sha256Hex repository
      { s with objects := insertLfsObject s.objects ⟨repository, oid, body.length⟩ } := by
  refine ⟨fun other object hobject => ?_, hholds.served⟩
  rw [findObject, find_insertLfsObject] at hobject
  cases hbefore : findObject repository s other with
  | some old =>
    rw [findObject] at hbefore
    rw [hbefore] at hobject
    obtain rfl := Option.some.inj hobject
    exact hholds.stored other old hbefore
  | none =>
    have hnone := hbefore
    rw [findObject] at hbefore
    rw [hbefore, Option.none_or] at hobject
    split at hobject
    · rename_i hsame
      subst hsame
      obtain rfl := Option.some.inj hobject
      exact ⟨body, hfits hnone, hbody, rfl⟩
    · cases hobject

/-- What has been read so far, and the bytes of the next call. -/
theorem take_append_nextChunk {bytes buffer : Bytes} (h : buffer = bytes.take buffer.length)
    (amount : Nat) :
    buffer ++ nextChunk bytes buffer.length amount =
      bytes.take (buffer ++ nextChunk bytes buffer.length amount).length := by
  have htake : buffer ++ nextChunk bytes buffer.length amount =
      bytes.take (buffer.length + (amount + 1)) := by
    rw [List.take_add, ← h, nextChunk]
  rw [htake, List.take_eq_take_iff, List.length_take]
  omega

/-- A download that has come to the end of the file has read all of it. -/
theorem eq_of_nextChunk {bytes buffer : Bytes} (h : buffer = bytes.take buffer.length)
    (hend : nextChunk bytes buffer.length amount = []) : buffer = bytes := by
  rw [nextChunk, List.take_eq_nil_iff] at hend
  rcases hend with hzero | hdrop
  · omega
  · calc
      buffer = bytes.take buffer.length := h
      _ = bytes.take buffer.length ++ bytes.drop buffer.length := by rw [hdrop, List.append_nil]
      _ = bytes := List.take_append_drop buffer.length bytes

/-! ## What every run of fitting steps keeps -/

theorem content_of_files {bytes : Bytes} (h : s.files oid = some bytes) :
    s.content oid = bytes := by
  rw [State.content, h]
  rfl

/-- A call that fits keeps the invariant, and what has to hold. -/
theorem keeps_proceed (hinv : Inv sha256Hex repository s) (hholds : Holds sha256Hex repository s)
    (htask : TaskInv sha256Hex repository s task) (hfits : TaskFits repository s amount task) :
    Inv sha256Hex repository (proceed repository s place amount task) ∧
      Holds sha256Hex repository (proceed repository s place amount task) := by
  cases task with
  | createFile oid body =>
    have hkeeps := keeps_setFile hfits
    have hafter := hinv.keeps hkeeps rfl rfl
    exact ⟨hafter.set (taskInv_writeRest htask 0),
      (hholds.keeps hkeeps (fun _ => rfl) rfl).keeps ⟨fun _ _ h => h, fun _ _ => rfl⟩
        (fun _ => rfl) rfl⟩
  | write oid body written =>
    have hkeeps := keeps_setFile hfits
    have hafter := hinv.keeps hkeeps rfl rfl
    exact ⟨hafter.set (taskInv_writeRest htask _),
      (hholds.keeps hkeeps (fun _ => rfl) rfl).keeps ⟨fun _ _ h => h, fun _ _ => rfl⟩
        (fun _ => rfl) rfl⟩
  | insertObject oid body =>
    have hafter := hinv.keeps (keeps_insertObject s oid body.length) rfl rfl
    exact ⟨hafter.set trivial, (holds_insertObject hholds htask hfits).keeps
      ⟨fun _ _ h => h, fun _ _ => rfl⟩ (fun _ => rfl) rfl⟩
  | openFile oid =>
    simp only [proceed]
    cases hfile : s.files oid with
    | none => exact ⟨hinv.set trivial, ⟨hholds.stored, hholds.served⟩⟩
    | some bytes =>
      exact ⟨hinv.set ⟨htask, bytes, hfile, rfl⟩, ⟨hholds.stored, hholds.served⟩⟩
  | read oid buffer =>
    obtain ⟨hlisted, bytes, hfile, hread⟩ := htask
    simp only [proceed, content_of_files hfile]
    split
    · rename_i hend
      -- all of the file of a listed object has been read
      obtain ⟨object, hobject⟩ := Option.isSome_iff_exists.1 hlisted
      obtain ⟨same, hsame, hdigest, -⟩ := hholds.stored oid object hobject
      obtain rfl : same = bytes := Option.some.inj (hsame.symm.trans hfile)
      have hafter : Inv sha256Hex repository { s with served := (oid, buffer) :: s.served } :=
        hinv.keeps ⟨fun _ _ h => h, fun _ _ => rfl⟩ rfl rfl
      have hdone : TaskInv sha256Hex repository { s with served := (oid, buffer) :: s.served }
          .finished := trivial
      refine ⟨hafter.set hdone, hholds.stored, ?_⟩
      intro other served hmem
      rcases List.mem_cons.1 hmem with heq | hbefore
      · obtain ⟨rfl, rfl⟩ := Prod.mk.inj heq
        rw [eq_of_nextChunk hread hend]
        exact hdigest
      · exact hholds.served other served hbefore
    · exact ⟨hinv.set ⟨hlisted, bytes, hfile, take_append_nextChunk hread amount⟩,
        ⟨hholds.stored, hholds.served⟩⟩
  | finished => exact ⟨hinv, hholds⟩

theorem inv_batch (hinv : Inv sha256Hex repository s) (action : TransferAction) (oid : String)
    (queryFails : Bool) : Inv sha256Hex repository (batch repository s action oid queryFails) := by
  have hissue (hnew : action = .download → (findObject repository s oid).isSome = true) :
      Inv sha256Hex repository (s.issue oid action) := by
    refine ⟨fun other hmem => ?_, hinv.tasks⟩
    rcases List.mem_cons.1 hmem with heq | hbefore
    · obtain ⟨rfl, haction⟩ := Prod.mk.inj heq
      exact hnew haction.symm
    · exact hinv.issued other hbefore
  rw [batch]
  split
  · exact hinv
  generalize hexisting : (if queryFails then none else findObject repository s oid) = existing
  cases action with
  | upload =>
    simp only
    split
    · exact hinv
    · exact hissue nofun
  | download =>
    simp only
    split
    · rename_i hfound
      refine hissue fun _ => ?_
      cases queryFails with
      | true =>
        obtain rfl : none = existing := hexisting
        cases hfound
      | false =>
        obtain rfl : findObject repository s oid = existing := hexisting
        exact hfound
    · exact hinv

/-- A batch changes nothing but the tokens. -/
theorem batch_frame (repository : RepositoryId) (s : State) (action : TransferAction)
    (oid : String) (queryFails : Bool) :
    ∃ issued, batch repository s action oid queryFails = { s with issued := issued } := by
  rw [batch]
  split
  · exact ⟨s.issued, rfl⟩
  generalize (if queryFails then none else findObject repository s oid) = existing
  cases action with
  | upload =>
    simp only
    split
    · exact ⟨s.issued, rfl⟩
    · exact ⟨(oid, .upload) :: s.issued, rfl⟩
  | download =>
    simp only
    split
    · exact ⟨(oid, .download) :: s.issued, rfl⟩
    · exact ⟨s.issued, rfl⟩

/-- A step that fits keeps the invariant, and what has to hold. -/
theorem keeps_step (hinv : Inv sha256Hex repository s) (hholds : Holds sha256Hex repository s)
    {a : Step} (hfits : StepFits repository s a) :
    Inv sha256Hex repository (step sha256Hex maxLfsObjectBytes repository s a) ∧
      Holds sha256Hex repository (step sha256Hex maxLfsObjectBytes repository s a) := by
  cases a with
  | batch action oid queryFails =>
    refine ⟨inv_batch hinv action oid queryFails, ?_⟩
    obtain ⟨issued, hissued⟩ := batch_frame repository s action oid queryFails
    simp only [step, hissued]
    exact ⟨hholds.stored, hholds.served⟩
  | upload oid body =>
    simp only [step]
    split
    · exact ⟨hinv, hholds⟩
    split
    · exact ⟨hinv, hholds⟩
    rename_i hchecked
    -- the digest of what has been received is checked before anything is written
    have hbody : sha256Hex body = oid := by
      by_contra hne
      exact hchecked (.inr hne)
    exact ⟨hinv.start hbody, ⟨hholds.stored, hholds.served⟩⟩
  | download oid =>
    simp only [step]
    split
    · exact ⟨hinv, hholds⟩
    rename_i hallowed
    have hissued : (oid, .download) ∈ s.issued := by
      by_contra hnone
      exact hallowed (.inr hnone)
    exact ⟨hinv.start (hinv.issued oid hissued), ⟨hholds.stored, hholds.served⟩⟩
  | proceed place amount =>
    simp only [step]
    cases htask : s.tasks[place]? with
    | none => exact ⟨hinv, hholds⟩
    | some task =>
      exact keeps_proceed hinv hholds (hinv.tasks task (List.mem_of_getElem? htask))
        (hfits task htask)
  | fails place => exact ⟨hinv.set trivial, ⟨hholds.stored, hholds.served⟩⟩
  | crash =>
    exact ⟨⟨hinv.issued, fun _ htask => absurd htask List.not_mem_nil⟩,
      ⟨hholds.stored, hholds.served⟩⟩

/-! ## Which steps have to fit -/

theorem fits_createFile (hholds : Holds sha256Hex repository s)
    (hafter : Holds sha256Hex repository
      (proceed repository s place amount (.createFile oid body))) :
    TaskFits repository s amount (.createFile oid body) := by
  intro hlisted
  obtain ⟨object, hobject⟩ := Option.isSome_iff_exists.1 hlisted
  obtain ⟨before, hbefore, -, hlength⟩ := hholds.stored oid object hobject
  obtain ⟨after, hnow, -, hshort⟩ := hafter.stored oid object hobject
  have hcut : Function.update s.files oid (some []) oid = some after := hnow
  rw [Function.update_self] at hcut
  obtain rfl := Option.some.inj hcut
  -- nothing was recorded, so there was nothing to cut
  have hempty : before = [] := List.length_eq_zero_iff.1 (hlength.trans hshort.symm)
  rw [hbefore, hempty]

theorem fits_write (hholds : Holds sha256Hex repository s) {written : Nat}
    (hafter : Holds sha256Hex repository
      (proceed repository s place amount (.write oid body written)))
    (hcollide : ¬ Collide sha256Hex (s.content oid)
      (writeAt (s.content oid) written (nextChunk body written amount))) :
    TaskFits repository s amount (.write oid body written) := by
  intro hlisted
  obtain ⟨object, hobject⟩ := Option.isSome_iff_exists.1 hlisted
  obtain ⟨before, hbefore, hdigest, hlength⟩ := hholds.stored oid object hobject
  obtain ⟨after, hnow, hnowDigest, hnowLength⟩ := hafter.stored oid object hobject
  have hwritten : Function.update s.files oid
      (some (writeAt (s.content oid) written (nextChunk body written amount))) oid = some after :=
    hnow
  rw [Function.update_self] at hwritten
  obtain rfl := Option.some.inj hwritten
  rw [content_of_files hbefore] at hcollide hnowDigest hnowLength ⊢
  rw [hbefore]
  by_contra hne
  exact hcollide ⟨fun hsame => hne (congrArg some hsame), hlength.trans hnowLength.symm,
    hdigest.trans hnowDigest.symm⟩

theorem fits_insertObject (hbody : sha256Hex body = oid)
    (hafter : Holds sha256Hex repository
      (proceed repository s place amount (.insertObject oid body)))
    (hcollide : ¬ Collide sha256Hex (s.content oid) body) :
    TaskFits repository s amount (.insertObject oid body) := by
  intro hnone
  have hlisted : findObject repository
      (proceed repository s place amount (.insertObject oid body)) oid =
        some ⟨repository, oid, body.length⟩ := by
    show (insertLfsObject s.objects _).find? _ = _
    rw [find_insertLfsObject]
    rw [findObject] at hnone
    rw [hnone, Option.none_or, if_pos rfl]
  obtain ⟨bytes, hbytes, hdigest, hlength⟩ := hafter.stored oid _ hlisted
  have hfile : s.files oid = some bytes := hbytes
  rw [content_of_files hfile] at hcollide
  rw [hfile]
  by_contra hne
  exact hcollide ⟨fun hsame => hne (congrArg some hsame), hlength, hdigest.trans hbody.symm⟩

/-- Where the digest tells the bytes at hand apart, a step that leaves what has to hold fits. -/
theorem fits_of_holds (hinv : Inv sha256Hex repository s) (hholds : Holds sha256Hex repository s)
    {a : Step}
    (hafter : Holds sha256Hex repository (step sha256Hex maxLfsObjectBytes repository s a))
    (hcollides : ¬ Collides sha256Hex s a) : StepFits repository s a := by
  cases a with
  | proceed place amount =>
    intro task htask
    simp only [step, htask] at hafter
    cases task with
    | createFile oid body => exact fits_createFile hholds hafter
    | write oid body written =>
      exact fits_write hholds hafter fun h => hcollides ⟨_, htask, h⟩
    | insertObject oid body =>
      apply fits_insertObject (hinv.tasks _ (List.mem_of_getElem? htask)) hafter
      exact fun h => hcollides ⟨_, htask, h⟩
    | _ => trivial
  | _ => trivial

/-- What a run that fits is in after each step. -/
structure Good (sha256Hex : Bytes → String) (repository : RepositoryId) (s : State) : Prop where
  inv : Inv sha256Hex repository s
  holds : Holds sha256Hex repository s

theorem Good.step (hgood : Good sha256Hex repository s) {a : Step}
    (hfits : StepFits repository s a) :
    Good sha256Hex repository (step sha256Hex maxLfsObjectBytes repository s a) := by
  obtain ⟨hinv, hholds⟩ := keeps_step hgood.inv hgood.holds hfits
  exact ⟨hinv, hholds⟩

theorem good_empty : Good sha256Hex repository empty where
  inv := ⟨fun _ hmem => absurd hmem List.not_mem_nil, fun _ htask => absurd htask List.not_mem_nil⟩
  holds := ⟨fun _ _ hobject => (Option.some_ne_none _ hobject.symm).elim,
    fun _ _ hmem => absurd hmem List.not_mem_nil⟩

end Keeps

/-- The digest of one object, and another for all else. -/
def toyDigest (bytes : Bytes) : String :=
  String.ofList (List.replicate 64 (if bytes = [1, 2, 3] then 'a' else 'b'))

def photo : String := toyDigest [1, 2, 3]

/-- One upload and one download, one after the other. -/
def uploadOnce : List Step :=
  [.batch .upload photo false, .upload photo [1, 2, 3], .proceed 0 0, .proceed 0 1, .proceed 0 0,
    .proceed 0 0, .batch .download photo false, .download photo, .proceed 1 0, .proceed 1 9,
    .proceed 1 9]

/-- The same bytes come a second time with the token of the first upload, and the file is truncated
under its row. A download that reads it then is answered with nothing. -/
def uploadTwice : List Step :=
  uploadOnce ++ ([.upload photo [1, 2, 3], .download photo, .proceed 2 0, .proceed 3 0,
    .proceed 3 0] : List Step)

/-- Two uploads overlap: the second truncates the file that the first goes on to list. -/
def uploadsOverlap : List Step :=
  [.batch .upload photo false, .upload photo [1, 2, 3], .upload photo [1, 2, 3], .proceed 0 0,
    .proceed 0 9, .proceed 1 0, .proceed 0 0]

end Edda.App.LfsStore
