import Edda.Domain.Access
import Edda.Support.Runs

/-!
# Pushes and merges beside deletions and creations

A push or a merge is authorised against the row that has its name, and changes the directory of the
name later, under the lock of the name. A push opens the directory before it waits for the lock, and
makes it again where it is gone when it unpacks. A deletion removes the directory under the lock and
the row after it; creations and forks make the directory first.

`authorised_of_fits` says in which runs every ref is changed while the row that its request was
authorised against has the name.
-/

set_option autoImplicit false

namespace Edda.App.AuthorisedWrites

open Edda.Domain Edda.Support

/-- What a request that was authorised against a row does. A push has a pack or only deletes. -/
inductive Kind where
  | push (pack : Bool)
  | merge
  | delete
  deriving DecidableEq, Repr

inductive Phase where
  | authorised
  | opened
  | locked
  | writing
  | removed
  | over
  deriving DecidableEq, Repr

inductive MakerPhase where
  | started
  | tested
  | locked
  | making
  | made
  | inserting
  | over
  deriving DecidableEq, Repr

/-- A request with the row that it was authorised against, or a creation or fork to a name. -/
inductive Task where
  | request (kind : Kind) (name : String) (row : RepositoryId) (phase : Phase)
  | create (name : String) (phase : MakerPhase)
  | fork (source name : String) (phase : MakerPhase)
  deriving DecidableEq, Repr

/-- A change of a ref: the row that its request was authorised against, and the row that has the
name. -/
structure RefChange where
  name : String
  authorised : RepositoryId
  owner : Option RepositoryId
  deriving DecidableEq, Repr

structure State where
  rows : String → Option RepositoryId
  dirs : String → Bool
  locks : String → Option Nat
  tasks : List Task
  issued : List RepositoryId
  changes : List RefChange

def State.start : State := ⟨fun _ => none, fun _ => false, fun _ => none, [], [], []⟩

/-- Tasks that start, a step of a task (with the id of a new row), and a task that stops. -/
inductive Step where
  | authorise (kind : Kind) (name : String)
  | create (name : String)
  | fork (source name : String)
  | advance (place : Nat) (newId : RepositoryId)
  | stop (place : Nat)
  deriving DecidableEq, Repr

/-- The lock that a task takes. A fork takes that of its source. -/
def Task.lockName : Task → String
  | .request _ name _ _ => name
  | .create name _ => name
  | .fork source _ _ => source

/-- A task that has ended. -/
def Task.ended : Task → Task
  | .request kind name row _ => .request kind name row .over
  | .create name _ => .create name .over
  | .fork source name _ => .fork source name .over

section Steps

variable (s : State)

def State.setTask (place : Nat) (task : Task) : State := { s with tasks := s.tasks.set place task }

def State.unlock (name : String) : State := { s with locks := Function.update s.locks name none }

/-- A task gets its lock, or waits. -/
def State.lock (place : Nat) (task next : Task) : State :=
  if (s.locks task.lockName).isSome then s
  else { s with locks := Function.update s.locks task.lockName (some place) }.setTask place next

/-- A task ends and gives back its lock, if it holds it. -/
def State.stop (place : Nat) (task : Task) : State :=
  (if s.locks task.lockName = some place then s.unlock task.lockName else s).setTask place task.ended

/-- A ref of the directory is changed. -/
def State.change (name : String) (row : RepositoryId) : State :=
  { s with
    dirs := Function.update s.dirs name true
    changes := s.changes ++ [⟨name, row, s.rows name⟩] }

def State.insertRow (name : String) (id : RepositoryId) : State :=
  { s with rows := Function.update s.rows name (some id), issued := s.issued ++ [id] }

/-- The insert of a row. The name is free, or the insert fails; a new id is one that was never
given. -/
def State.insert (place : Nat) (name : String) (id : RepositoryId) (task : Task) : State :=
  if (s.rows name).isSome ∨ id ∈ s.issued then s.setTask place task.ended
  else (s.insertRow name id).setTask place task.ended

/-- One step of a request. -/
def advanceRequest (place : Nat) (kind : Kind) (name : String) (row : RepositoryId) (phase : Phase) :
    State :=
  let task := Task.request kind name row phase
  match kind, phase with
  | .push _, .authorised =>
    if s.dirs name = true then s.setTask place (.request kind name row .opened)
    else s.stop place task
  | .push _, .opened => s.lock place task (.request kind name row .writing)
  | .push pack, .writing =>
    -- a pack is unpacked into a directory that is made for it, with the path to it
    if s.dirs name = true ∨ pack = true then s.change name row else s.stop place task
  | .merge, .authorised => s.lock place task (.request kind name row .locked)
  -- what a merge writes, its import among it, opens the directory under the lock
  | .merge, .locked => if s.dirs name = true then s.change name row else s.stop place task
  | .delete, .authorised => s.lock place task (.request kind name row .locked)
  | .delete, .locked =>
    if s.dirs name = true then
      ({ s with dirs := Function.update s.dirs name false }.unlock name).setTask place
        (.request kind name row .removed)
    else s.stop place task
  | .delete, .removed =>
    { s with rows := if s.rows name = some row then Function.update s.rows name none else s.rows
      }.setTask place (.request kind name row .over)
  | _, _ => s

/-- One step of a creation. -/
def advanceCreate (place : Nat) (newId : RepositoryId) (name : String) (phase : MakerPhase) :
    State :=
  let task := Task.create name phase
  match phase with
  | .started => s.lock place task (.create name .locked)
  | .locked =>
    if s.dirs name = true then s.stop place task else s.setTask place (.create name .making)
  | .making => { s with dirs := Function.update s.dirs name true }.setTask place (.create name .made)
  | .made => (s.unlock name).setTask place (.create name .inserting)
  | .inserting => s.insert place name newId task
  | _ => s

/-- One step of a fork. The test for the destination comes before any lock. -/
def advanceFork (place : Nat) (newId : RepositoryId) (source name : String) (phase : MakerPhase) :
    State :=
  let task := Task.fork source name phase
  match phase with
  | .started =>
    if s.dirs source = true ∧ s.dirs name = false then
      s.setTask place (.fork source name .tested)
    else s.stop place task
  | .tested => s.lock place task (.fork source name .making)
  | .making =>
    { s with dirs := Function.update s.dirs name true }.setTask place (.fork source name .made)
  | .made => (s.unlock source).setTask place (.fork source name .inserting)
  | .inserting => s.insert place name newId task
  | _ => s

def step : Step → State
  | .authorise kind name => match s.rows name with
    | none => s
    | some row => { s with tasks := s.tasks ++ [.request kind name row .authorised] }
  | .create name => { s with tasks := s.tasks ++ [.create name .started] }
  | .fork source name =>
    if source = name then s else { s with tasks := s.tasks ++ [.fork source name .started] }
  | .advance place newId => match s.tasks[place]? with
    | none => s
    | some (.request kind name row phase) => advanceRequest s place kind name row phase
    | some (.create name phase) => advanceCreate s place newId name phase
    | some (.fork source name phase) => advanceFork s place newId source name phase
  | .stop place => match s.tasks[place]? with
    | none => s
    | some task => s.stop place task

end Steps

/-! ## What is to hold -/

/-- Every ref was changed while the row that its request was authorised against had the name. -/
def Authorised (s : State) : Prop := ∀ change ∈ s.changes, change.owner = some change.authorised

def Task.name : Task → String
  | .request _ name _ _ => name
  | .create name _ => name
  | .fork _ name _ => name

def Task.row : Task → Option RepositoryId
  | .request _ _ row _ => some row
  | _ => none

/-- A push that has opened the directory. -/
def Task.mayWrite : Task → Bool
  | .request (.push _) _ _ .opened => true
  | .request (.push _) _ _ .writing => true
  | _ => false

/-- A push or a merge that has been authorised and is still to open the directory. -/
def Task.mayOpen : Task → Bool
  | .request (.push _) _ _ .authorised => true
  | .request .merge _ _ .authorised => true
  | .request .merge _ _ .locked => true
  | _ => false

/-- The row that a step of a task deletes. -/
def Task.drops : Task → Option (String × RepositoryId)
  | .request .delete name row .removed => some (name, row)
  | _ => none

/-- The name that a step of a task makes a directory for. -/
def Task.makes (s : State) : Task → Option String
  | .create name .making => some name
  | .fork _ name .making => some name
  | .request (.push true) name _ .writing => if s.dirs name = true then none else some name
  | _ => none

/-- A row is not deleted from under a request that has opened its directory, nor, where there is
still or again a directory, from under one that is to open it. And no directory comes under a
request that is to open one and whose row has lost the name. -/
def Fits (s : State) : Step → Prop
  | .advance place _ => ∀ task ∈ s.tasks[place]?,
    (∀ dropped ∈ task.drops, ∀ other ∈ s.tasks, other.name = dropped.1 →
      other.row = some dropped.2 →
        other.mayWrite = false ∧ (other.mayOpen = true → s.dirs dropped.1 = false)) ∧
    ∀ name ∈ task.makes s, ∀ other ∈ s.tasks, other.name = name → other.mayOpen = true →
      s.rows name = other.row
  | _ => True

/-! ## The invariant -/

/-- A request that can change the directory has its row. -/
def Task.Sound (s : State) (task : Task) : Prop :=
  (task.mayWrite = true → s.rows task.name = task.row) ∧
    (task.mayOpen = true → s.dirs task.name = true → s.rows task.name = task.row)

structure Inv (s : State) : Prop where
  sound : ∀ task ∈ s.tasks, task.Sound s
  authorised : Authorised s

section Inv

variable {s s' : State} {place : Nat} {task next : Task}

theorem Task.sound_of_idle (hwrite : task.mayWrite = false) (hopen : task.mayOpen = false) :
    task.Sound s :=
  ⟨fun h => absurd (h.symm.trans hwrite) (by simp), fun h => absurd (h.symm.trans hopen) (by simp)⟩

theorem Task.ended_sound (task : Task) : task.ended.Sound s := by
  cases task with
  | request kind name row phase => cases kind <;> exact sound_of_idle rfl rfl
  | create name phase => exact sound_of_idle rfl rfl
  | fork source name phase => exact sound_of_idle rfl rfl

/-- What a step of a task has to show: of the task, of the others, and of the changes. -/
theorem Inv.set (h : Inv s) (htasks : s'.tasks = s.tasks.set place next) (hnext : next.Sound s')
    (hothers : ∀ other ∈ s.tasks, other.Sound s → other.Sound s')
    (hchanges : s'.changes = s.changes) : Inv s' := by
  refine ⟨?_, ?_⟩
  · intro other hother
    rw [htasks] at hother
    rcases List.mem_or_eq_of_mem_set hother with hold | rfl
    · exact hothers other hold (h.sound other hold)
    · exact hnext
  · intro change hchange
    exact h.authorised change (hchanges ▸ hchange)

theorem Inv.stop (h : Inv s) (place : Nat) (task : Task) : Inv (s.stop place task) := by
  unfold State.stop
  split
  · exact h.set rfl task.ended_sound (fun _ _ hsound => hsound) rfl
  · exact h.set rfl task.ended_sound (fun _ _ hsound => hsound) rfl

theorem Inv.lock (h : Inv s) (place : Nat) (task next : Task) (hnext : next.Sound s) :
    Inv (s.lock place task next) := by
  unfold State.lock
  split
  · exact h
  · exact h.set rfl hnext (fun _ _ hsound => hsound) rfl

/-- A request whose row has the name changes a ref. -/
theorem Inv.change (h : Inv s) {name : String} {row : RepositoryId} (hrow : s.rows name = some row)
    (hopen : s.dirs name = true ∨
      ∀ other ∈ s.tasks, other.name = name → other.mayOpen = true → s.rows name = other.row) :
    Inv (s.change name row) := by
  refine ⟨?_, ?_⟩
  · intro other hother
    refine ⟨(h.sound other hother).1, ?_⟩
    intro hmay hdir
    by_cases hname : other.name = name
    · rcases hopen with hthere | hmade
      · exact (h.sound other hother).2 hmay (hname ▸ hthere)
      · exact hname ▸ hmade other hother hname hmay
    · refine (h.sound other hother).2 hmay ?_
      simpa [State.change, hname] using hdir
  · intro change hchange
    rcases List.mem_append.1 hchange with hold | hnew
    · exact h.authorised change hold
    · rw [List.mem_singleton.1 hnew]
      exact hrow

/-- A directory is made where every request that could open it has the row of the name. -/
theorem Inv.make (h : Inv s) {name : String} (hnext : next.mayWrite = false)
    (hnext' : next.mayOpen = false)
    (hmade : ∀ other ∈ s.tasks, other.name = name → other.mayOpen = true → s.rows name = other.row) :
    Inv ({ s with dirs := Function.update s.dirs name true }.setTask place next) := by
  refine h.set rfl (Task.sound_of_idle hnext hnext') ?_ rfl
  intro other hother hsound
  refine ⟨hsound.1, ?_⟩
  intro hmay hdir
  by_cases hname : other.name = name
  · exact hname ▸ hmade other hother hname hmay
  · refine hsound.2 hmay ?_
    simpa [State.setTask, hname] using hdir

theorem Task.row_isSome_of_mayWrite (h : task.mayWrite = true) : task.row.isSome := by
  cases task with
  | request kind name row phase => rfl
  | create name phase => exact absurd h Bool.false_ne_true
  | fork source name phase => exact absurd h Bool.false_ne_true

theorem Task.row_isSome_of_mayOpen (h : task.mayOpen = true) : task.row.isSome := by
  cases task with
  | request kind name row phase => rfl
  | create name phase => exact absurd h Bool.false_ne_true
  | fork source name phase => exact absurd h Bool.false_ne_true

/-- A name that was free gets a row. -/
theorem Inv.insert (h : Inv s) (name : String) (id : RepositoryId) (task : Task) :
    Inv (s.insert place name id task) := by
  unfold State.insert
  split
  · exact h.set rfl task.ended_sound (fun _ _ hsound => hsound) rfl
  · rename_i hfree
    refine h.set rfl task.ended_sound ?_ rfl
    rw [not_or, Option.not_isSome_iff_eq_none] at hfree
    intro other _ hsound
    -- no request whose row has the name is under way for a name that is free
    have hother : other.row.isSome → s.rows other.name = other.row → other.name ≠ name := by
      intro hsome hrow hname
      rw [hname, hfree.1] at hrow
      rw [← hrow] at hsome
      exact Bool.false_ne_true hsome
    have hkeep : other.name ≠ name →
        ((s.insertRow name id).setTask place task.ended).rows other.name = s.rows other.name :=
      fun hname => Function.update_of_ne hname _ _
    refine ⟨?_, ?_⟩
    · intro hmay
      have hrow := hsound.1 hmay
      rw [hkeep (hother (Task.row_isSome_of_mayWrite hmay) hrow), hrow]
    · intro hmay hdir
      have hrow := hsound.2 hmay hdir
      rw [hkeep (hother (Task.row_isSome_of_mayOpen hmay) hrow), hrow]

theorem inv_advanceRequest (h : Inv s) {kind : Kind} {name : String} {row : RepositoryId}
    {phase : Phase} (htask : s.tasks[place]? = some (.request kind name row phase))
    {newId : RepositoryId} (hfits : Fits s (.advance place newId)) :
    Inv (advanceRequest s place kind name row phase) := by
  have hsound := h.sound _ (List.mem_of_getElem? htask)
  obtain ⟨hdrops, hmakes⟩ := hfits _ htask
  cases kind with
  | push pack =>
    cases phase with
    | authorised =>
      simp only [advanceRequest]
      split
      · rename_i hdir
        have hrow := hsound.2 rfl hdir
        exact h.set rfl ⟨fun _ => hrow, fun hno => absurd hno Bool.false_ne_true⟩
          (fun _ _ hother => hother) rfl
      · exact h.stop place _
    | opened =>
      exact h.lock place _ _ ⟨fun _ => hsound.1 rfl, fun hno => absurd hno Bool.false_ne_true⟩
    | writing =>
      simp only [advanceRequest]
      split
      · rename_i hgoes
        refine h.change (hsound.1 rfl) ?_
        by_cases hdir : s.dirs name = true
        · exact Or.inl hdir
        · obtain rfl : pack = true := hgoes.resolve_left hdir
          refine Or.inr (hmakes name ?_)
          rw [Task.makes, if_neg hdir]
          rfl
      · exact h.stop place _
    | _ => exact h
  | merge =>
    cases phase with
    | authorised =>
      exact h.lock place _ _ ⟨fun hno => absurd hno Bool.false_ne_true, fun _ => hsound.2 rfl⟩
    | locked =>
      simp only [advanceRequest]
      split
      · rename_i hdir
        exact h.change (hsound.2 rfl hdir) (Or.inl hdir)
      · exact h.stop place _
    | _ => exact h
  | delete =>
    cases phase with
    | authorised => exact h.lock place _ _ (Task.sound_of_idle rfl rfl)
    | locked =>
      simp only [advanceRequest]
      split
      · refine h.set rfl (Task.sound_of_idle rfl rfl) ?_ rfl
        intro other _ hother
        refine ⟨hother.1, ?_⟩
        intro hmay hdir
        by_cases hname : other.name = name
        · simp [State.setTask, State.unlock, hname] at hdir
        · refine hother.2 hmay ?_
          simpa [State.setTask, State.unlock, hname] using hdir
      · exact h.stop place _
    | removed =>
      refine h.set rfl (Task.sound_of_idle rfl rfl) ?_ rfl
      intro other hmem hother
      have hkept := hdrops (name, row) rfl other hmem
      have hrows : ∀ value, s.rows other.name = value → value ≠ some row ∨ other.name ≠ name →
          (if s.rows name = some row then Function.update s.rows name none else s.rows)
            other.name = value := by
        intro value hvalue hne
        split
        · rename_i hmine
          rw [Function.update_of_ne ?_, hvalue]
          rintro hname
          rw [hname, hmine] at hvalue
          exact hne.elim (fun hvalue' => hvalue' hvalue.symm) fun hname' => hname' hname
        · exact hvalue
      refine ⟨?_, ?_⟩
      · intro hmay
        refine hrows _ (hother.1 hmay) ?_
        by_contra hboth
        rw [not_or, not_not, not_not] at hboth
        have hno := (hkept hboth.2 hboth.1).1
        rw [hmay] at hno
        cases hno
      · intro hmay hdir
        refine hrows _ (hother.2 hmay hdir) ?_
        by_contra hboth
        rw [not_or, not_not, not_not] at hboth
        have hno := (hkept hboth.2 hboth.1).2 hmay
        have hyes : s.dirs name = true := hboth.2 ▸ hdir
        rw [hyes] at hno
        cases hno
    | _ => exact h

theorem inv_advanceCreate (h : Inv s) {name : String} {phase : MakerPhase}
    (htask : s.tasks[place]? = some (.create name phase)) {newId : RepositoryId}
    (hfits : Fits s (.advance place newId)) : Inv (advanceCreate s place newId name phase) := by
  cases phase with
  | started => exact h.lock place _ _ (Task.sound_of_idle rfl rfl)
  | locked =>
    simp only [advanceCreate]
    split
    · exact h.stop place _
    · exact h.set rfl (Task.sound_of_idle rfl rfl) (fun _ _ hsound => hsound) rfl
  | making => exact h.make rfl rfl ((hfits _ htask).2 name rfl)
  | made => exact h.set rfl (Task.sound_of_idle rfl rfl) (fun _ _ hsound => hsound) rfl
  | inserting => exact h.insert name newId _
  | _ => exact h

theorem inv_advanceFork (h : Inv s) {source name : String} {phase : MakerPhase}
    (htask : s.tasks[place]? = some (.fork source name phase)) {newId : RepositoryId}
    (hfits : Fits s (.advance place newId)) :
    Inv (advanceFork s place newId source name phase) := by
  cases phase with
  | started =>
    simp only [advanceFork]
    split
    · exact h.set rfl (Task.sound_of_idle rfl rfl) (fun _ _ hsound => hsound) rfl
    · exact h.stop place _
  | tested => exact h.lock place _ _ (Task.sound_of_idle rfl rfl)
  | making => exact h.make rfl rfl ((hfits _ htask).2 name rfl)
  | made => exact h.set rfl (Task.sound_of_idle rfl rfl) (fun _ _ hsound => hsound) rfl
  | inserting => exact h.insert name newId _
  | _ => exact h

/-- A task that starts has nothing that it could change without looking for it. -/
theorem Inv.start (h : Inv s) (hnext : next.Sound s) :
    Inv { s with tasks := s.tasks ++ [next] } := by
  refine ⟨?_, h.authorised⟩
  intro other hother
  rcases List.mem_append.1 hother with hold | hnew
  · exact h.sound other hold
  · rw [List.mem_singleton.1 hnew]
    exact hnext

theorem inv_step (h : Inv s) (a : Step) (hfits : Fits s a) : Inv (step s a) := by
  cases a with
  | authorise kind name =>
    simp only [step]
    split
    · exact h
    · rename_i row hrow
      refine h.start ⟨?_, fun _ _ => hrow⟩
      intro hno
      cases kind <;> exact absurd hno Bool.false_ne_true
  | create name => exact h.start (Task.sound_of_idle rfl rfl)
  | fork source name =>
    simp only [step]
    split
    · exact h
    · exact h.start (Task.sound_of_idle rfl rfl)
  | advance place newId =>
    simp only [step]
    split
    · exact h
    · rename_i kind name row phase htask
      exact inv_advanceRequest h htask hfits
    · rename_i name phase htask
      exact inv_advanceCreate h htask hfits
    · rename_i source name phase htask
      exact inv_advanceFork h htask hfits
  | stop place =>
    simp only [step]
    split
    · exact h
    · exact h.stop place _

end Inv

instance (s : State) : (a : Step) → Decidable (Fits s a)
  | .authorise _ _ => isTrue trivial
  | .create _ => isTrue trivial
  | .fork _ _ => isTrue trivial
  | .stop _ => isTrue trivial
  | .advance place _ => inferInstanceAs (Decidable (∀ task ∈ s.tasks[place]?,
      (∀ dropped ∈ task.drops, ∀ other ∈ s.tasks, other.name = dropped.1 →
        other.row = some dropped.2 →
          other.mayWrite = false ∧ (other.mayOpen = true → s.dirs dropped.1 = false)) ∧
      ∀ name ∈ task.makes s, ∀ other ∈ s.tasks, other.name = name → other.mayOpen = true →
        s.rows name = other.row))

/-- Where no row and no directory changes under a push or a merge that is under way, refs are only
changed for the row that the change was authorised against. -/
theorem authorised_of_fits (steps : List Step)
    (hfits : Runs.Throughout step Fits State.start steps) :
    Authorised (Runs.run step State.start steps) := by
  have hstart : Inv State.start := by
    refine ⟨?_, ?_⟩
    · intro task htask
      cases htask
    · intro change hchange
      cases hchange
  exact (Runs.invariant (I := Inv) (fun _ a hinv hfit => inv_step hinv a hfit) hstart
    hfits).authorised

/-- A repository is made, and a push is authorised, runs to its end, and is followed by the deletion
of the repository. -/
theorem authorised_pushRun :
    Authorised (Runs.run step State.start
      ([.create "alice/notes"] ++ List.replicate 5 (.advance 0 1) ++
        [.authorise (.push true) "alice/notes"] ++ List.replicate 3 (.advance 1 2) ++ [.stop 1] ++
        [.authorise .delete "alice/notes"] ++ List.replicate 3 (.advance 2 3))) :=
  authorised_of_fits _ (by decide +kernel)

/-- A push is authorised against row 1. The repository is deleted and made again as row 2, and then
the push opens it and changes its refs. -/
theorem push_changes_another_repository :
    let s := Runs.run step State.start
      ([.create "alice/notes"] ++ List.replicate 5 (.advance 0 1) ++
        [.authorise (.push true) "alice/notes", .authorise .delete "alice/notes"] ++
        List.replicate 3 (.advance 2 3) ++ [.create "alice/notes"] ++
        List.replicate 5 (.advance 3 2) ++ List.replicate 3 (.advance 1 4))
    ¬ Authorised s ∧ s.changes = [⟨"alice/notes", 1, some 2⟩] := by
  intro s
  have hchanges : s.changes = [⟨"alice/notes", 1, some 2⟩] := by decide +kernel
  refine ⟨?_, hchanges⟩
  intro h
  have hsame := h ⟨"alice/notes", 1, some 2⟩ (by rw [hchanges]; exact List.mem_singleton_self _)
  exact absurd hsame (by decide)

end Edda.App.AuthorisedWrites
