import Edda.Domain.Validation
import Edda.Git.Object
import Edda.Support.FileTree
import Edda.Support.Runs

/-!
# Creations and forks to one name

`create_repo` takes the lock of its destination, tests for the directory and initialises it.
`fork_repo` tests for the directory, takes the lock of its source, and copies the source file by
file. Any number of calls run on one destination, each with the insert of its row, and any of their
steps can fail.

`unmixed_of_fits` says in which runs one call at most produces the directory, which keeps exactly
what this call has put there.
-/

set_option autoImplicit false

namespace Edda.Git

open Edda.Domain.Validation Edda.Support Edda.Support.FileTree Edda.Support.RustText

abbrev RepoTree := Tree String Bytes

/-- A directory on disk: its entries have distinct names. -/
structure RepoDir where
  listing : Listing String Bytes
  distinct : listing.Distinct

/-- `validate_name`. -/
def validateName (name : String) : Except GitError Unit :=
  if isValidRepositoryIdentity name then .ok () else .error (.invalidName name)

/-- `gix::init_bare`: the directory that it makes, and how it refuses one that has entries. -/
structure InitBare where
  dir : RepoDir
  notEmpty : String

namespace RepoDirectory

inductive Request where
  | createRepo
  | forkRepo (source : String)
  deriving DecidableEq, Repr

inductive CallError where
  | git (err : GitError)
  | rowAlreadyExists
  | db
  deriving DecidableEq, Repr

/-- What a call does next. From `makeParent` on, a call has what it copies, if that is still there. -/
inductive Phase where
  | validating
  | awaitDest
  | checkDestLocked
  | checkSource
  | checkDest
  | awaitSource
  | makeParent (dir : Option RepoDir)
  | initBare (dir : Option RepoDir)
  | createDest (dir : Option RepoDir)
  | writing (dir : Option RepoDir) (ops : List (Op String Bytes))
  | insertRow
  | returned (result : Except CallError Unit)

structure Call where
  request : Request
  phase : Phase

/-- `disk` is what is below the destination, `sources` what is below every other name, `locks` who
holds the lock of a name, and `row` the call whose row has the name. `produced` are the calls that
have produced the directory, each with what it was to put there. -/
structure State where
  calls : List Call
  disk : RepoTree
  sources : String → Option RepoDir
  locks : String → Option Nat
  row : Option Nat
  produced : List (Nat × Option RepoDir)

def State.start (sources : String → Option RepoDir) : State :=
  ⟨[], [], sources, fun _ => none, none, []⟩

/-- How a step of a call fails. A file that could not be copied to its end can be left cut. -/
structure Fault where
  error : IoError
  cut : Option Bytes
  deriving DecidableEq, Repr

/-- A new call, a step of a call, or a write to a source. -/
inductive Step where
  | call (request : Request)
  | advance (place : Nat) (fault : Option Fault)
  | changeSource (source : String) (content : Option RepoDir)

def ioError : IoError → GitError
  | .notFound => .io "No such file or directory (os error 2)"
  | .notADirectory => .io "Not a directory (os error 20)"
  | .isADirectory => .io "Is a directory (os error 21)"
  | .other text => .io text

/-- What a write that failed leaves. -/
def cutOp (tree : RepoTree) (cut : Option Bytes) : Op String Bytes → RepoTree
  | .createDirAll _ => tree
  | .copy path _ => match cut with
    | none => tree
    | some content => match tree.perform (.copy path content) with
      | .ok tree => tree
      | .error _ => tree

section Steps

variable (dest : String) (bare : InitBare) (s : State)

/-- The lock that a call takes. -/
def lockName : Request → String
  | .createRepo => dest
  | .forkRepo source => source

/-- What a call is to put at its destination: what `gix::init_bare` writes, or its source. -/
def State.expected : Request → Option RepoDir
  | .createRepo => some bare.dir
  | .forkRepo source => s.sources source

def State.setPhase (place : Nat) (request : Request) (phase : Phase) : State :=
  { s with calls := s.calls.set place ⟨request, phase⟩ }

def State.lock (name : String) (place : Nat) : State :=
  { s with locks := Function.update s.locks name (some place) }

def State.unlock (name : String) : State :=
  { s with locks := Function.update s.locks name none }

/-- An error of a call that holds its lock. -/
def State.fail (place : Nat) (request : Request) (err : GitError) : State :=
  (s.unlock (lockName dest request)).setPhase place request (.returned (.error (.git err)))

/-- One step of a call. -/
def advance (place : Nat) (request : Request) (fault : Option Fault) : Phase → State
  | .validating => match request with
    | .createRepo => match validateName dest with
      | .error err => s.setPhase place request (.returned (.error (.git err)))
      | .ok _ => s.setPhase place request .awaitDest
    | .forkRepo source => match validateName source, validateName dest with
      | .error err, _ => s.setPhase place request (.returned (.error (.git err)))
      | .ok _, .error err => s.setPhase place request (.returned (.error (.git err)))
      | .ok _, .ok _ => s.setPhase place request .checkSource
  | .awaitDest =>
    if (s.locks (lockName dest request)).isSome then s
    else (s.lock (lockName dest request) place).setPhase place request .checkDestLocked
  | .checkDestLocked =>
    if s.disk.exists then s.fail dest place request (.alreadyExists dest)
    else s.setPhase place request (.makeParent (s.expected bare request))
  | .checkSource =>
    if (s.expected bare request).isSome then s.setPhase place request .checkDest
    else s.setPhase place request
      (.returned (.error (.git (.notFound (lockName dest request)))))
  | .checkDest =>
    if s.disk.exists then
      s.setPhase place request (.returned (.error (.git (.alreadyExists dest))))
    else s.setPhase place request .awaitSource
  | .awaitSource =>
    if (s.locks (lockName dest request)).isSome then s
    else (s.lock (lockName dest request) place).setPhase place request
      (.makeParent (s.expected bare request))
  | .makeParent dir => match fault, request with
    | some fault, _ => s.fail dest place request (ioError fault.error)
    | none, .createRepo => s.setPhase place request (.initBare dir)
    | none, .forkRepo _ => s.setPhase place request (.createDest dir)
  | .initBare dir => match fault with
    | some fault => s.fail dest place request (ioError fault.error)
    | none =>
      if s.disk.isEmpty then s.setPhase place request (.createDest dir)
      else s.fail dest place request (.git bare.notEmpty)
  | .createDest dir => match fault with
    | some fault => s.fail dest place request (ioError fault.error)
    | none => match s.disk.perform (.createDirAll []) with
      | .error err => s.fail dest place request (ioError err)
      | .ok disk => { s with disk := disk }.setPhase place request
          (.writing dir ((dir.map fun dir : RepoDir => dir.listing.copyEntries []).getD []))
  | .writing dir [] => match dir with
    -- the source went before its lock was taken, and could not be read
    | none => s.fail dest place request (ioError .notFound)
    | some _ =>
      { s with produced := s.produced ++ [(place, s.expected bare request)] }.unlock
        (lockName dest request) |>.setPhase place request .insertRow
  | .writing dir (op :: ops) => match fault with
    | some fault =>
      { s with disk := cutOp s.disk fault.cut op }.fail dest place request
        (ioError fault.error)
    | none => match s.disk.perform op with
      | .error err => s.fail dest place request (ioError err)
      | .ok disk => { s with disk := disk }.setPhase place request (.writing dir ops)
  | .insertRow => match fault, s.row with
    | some _, _ => s.setPhase place request (.returned (.error .db))
    | none, some _ => s.setPhase place request (.returned (.error .rowAlreadyExists))
    | none, none =>
      { s with row := some place }.setPhase place request (.returned (.ok ()))
  | .returned _ => s

def step : Step → State
  | .call request =>
    -- the service refuses to fork a repository to itself
    if request = .forkRepo dest then s
    else { s with calls := s.calls ++ [⟨request, .validating⟩] }
  | .advance place fault => match s.calls[place]? with
    | none => s
    | some call => advance dest bare s place call.request fault call.phase
  | .changeSource source content =>
    if (s.locks source).isSome then s
    else { s with sources := Function.update s.sources source content }

end Steps

/-! ## What is to hold -/

/-- At most one call has produced the directory, which has what this call was to put there, and a
row is the row of this call. -/
structure Unmixed (s : State) : Prop where
  winner : s.produced.length ≤ 1
  content : ∀ place dir, (place, dir) ∈ s.produced →
    ∃ content, dir = some content ∧ s.disk.get = content.listing.tree
  row : ∀ place, s.row = some place → place ∈ s.produced.map Prod.fst

/-- A call that goes on to write, or writes, because it has found no directory under the lock of the
destination, and a fork that has begun to copy. -/
def Call.building : Call → Bool
  | ⟨.createRepo, .makeParent _⟩ => true
  | ⟨.createRepo, .initBare _⟩ => true
  | ⟨.createRepo, .createDest _⟩ => true
  | ⟨_, .writing _ _⟩ => true
  | _ => false

/-- A fork that is about to make the directory. -/
def Call.beginsCopy : Call → Bool
  | ⟨.forkRepo _, .createDest _⟩ => true
  | _ => false

/-- A fork begins to copy where no directory is and no other call is about to make one. -/
def Fits (s : State) : Step → Prop
  | .advance place _ => ∀ call ∈ s.calls[place]?, call.beginsCopy = true →
    s.disk.exists = false ∧ ∀ call ∈ s.calls, call.building = false
  | _ => True

instance (s : State) : (a : Step) → Decidable (Fits s a)
  | .call _ => isTrue trivial
  | .changeSource _ _ => isTrue trivial
  | .advance place _ => inferInstanceAs (Decidable (∀ call ∈ s.calls[place]?,
      call.beginsCopy = true → s.disk.exists = false ∧ ∀ call ∈ s.calls, call.building = false))

/-! ## The invariant -/

/-- What a call copies. -/
def Phase.content : Phase → Option (Option RepoDir)
  | .makeParent dir => some dir
  | .initBare dir => some dir
  | .createDest dir => some dir
  | .writing dir _ => some dir
  | _ => none

def Phase.locked : Phase → Bool
  | .checkDestLocked => true
  | phase => phase.content.isSome

/-- The steps that only a fork takes. -/
def Phase.forking : Phase → Bool
  | .checkSource => true
  | .checkDest => true
  | .awaitSource => true
  | _ => false

/-- How far the directory is while a call makes it: what is left to write completes it. -/
def Progress (disk : RepoTree) : Phase → Prop
  | .writing dir ops => disk.exists = true ∧ ∀ content, dir = some content →
    ∃ disk', disk.runOps ops = .ok disk' ∧ disk'.get = content.listing.tree
  | _ => disk.exists = false

structure Inv (dest : String) (bare : InitBare) (s : State) : Prop where
  /-- Nothing is below a directory that is not there. -/
  below : s.disk.exists = false → ∀ path, s.disk.get path = none
  names : ∀ call ∈ s.calls, call.request ≠ .forkRepo dest
  /-- A call that holds its lock copies what is still there to be copied. -/
  locked : ∀ (place : Nat) (call : Call), s.calls[place]? = some call → call.phase.locked = true →
    s.locks (lockName dest call.request) = some place
  content : ∀ (place : Nat) (call : Call) dir, s.calls[place]? = some call → call.phase.content = some dir →
    dir = s.expected bare call.request
  forking : ∀ call ∈ s.calls, call.phase.forking = true → call.request ≠ .createRepo
  building : ∀ (place : Nat) (call : Call), s.calls[place]? = some call → call.building = true →
    s.produced = [] ∧ Progress s.disk call.phase
  one : ∀ (place other : Nat) (call call' : Call), s.calls[place]? = some call → s.calls[other]? = some call' →
    call.building = true → call'.building = true → place = other
  inserting : ∀ (place : Nat) (call : Call), s.calls[place]? = some call → call.phase = .insertRow →
    place ∈ s.produced.map Prod.fst
  unmixed : Unmixed s

section Inv

variable {dest : String} {bare : InitBare} {s s' : State} {place : Nat} {call : Call}
  {phase : Phase}

theorem Unmixed.congr (h : Unmixed s) (hdisk : s'.disk = s.disk) (hrow : s'.row = s.row)
    (hproduced : s'.produced = s.produced) : Unmixed s' := by
  refine ⟨hproduced ▸ h.winner, ?_, ?_⟩
  · intro place dir hmem
    rw [hdisk]
    exact h.content place dir (hproduced ▸ hmem)
  · intro place hplace
    rw [hproduced]
    exact h.row place (hrow ▸ hplace)

theorem Call.locked_of_building (h : call.building = true) : call.phase.locked = true := by
  obtain ⟨request, phase⟩ := call
  cases request <;> cases phase <;> first | rfl | exact absurd h Bool.false_ne_true

/-- What a step of a call has to show: of the lock, of the call itself, and of the others. -/
theorem Inv.next (h : Inv dest bare s) (hcall : s.calls[place]? = some call) (phase : Phase)
    (hcalls : s'.calls = s.calls.set place ⟨call.request, phase⟩)
    (hsources : s'.sources = s.sources)
    (hlocks : ∀ name, name ≠ lockName dest call.request → s'.locks name = s.locks name)
    (hlock : s'.locks = s.locks ∨ s.locks (lockName dest call.request) = none ∨
      s.locks (lockName dest call.request) = some place)
    (hlocked : phase.locked = true → s'.locks (lockName dest call.request) = some place)
    (hcontent : ∀ dir, phase.content = some dir → dir = s.expected bare call.request)
    (hforking : phase.forking = true → call.request ≠ .createRepo)
    (hbelow : s'.disk.exists = false → ∀ path, s'.disk.get path = none)
    (hself : Call.building ⟨call.request, phase⟩ = true →
      s'.produced = [] ∧ Progress s'.disk phase ∧
        ∀ other call', s.calls[other]? = some call' → call'.building = true → place = other)
    (hothers : ∀ other call', s.calls[other]? = some call' → call'.building = true →
      place ≠ other → s'.produced = [] ∧ Progress s'.disk call'.phase)
    (hproduced : ∀ other ∈ s.produced.map Prod.fst, other ∈ s'.produced.map Prod.fst)
    (hinserting : phase = .insertRow → place ∈ s'.produced.map Prod.fst)
    (hunmixed : Unmixed s') : Inv dest bare s' := by
  have hlt := (List.getElem?_eq_some_iff.1 hcall).1
  -- a call of the new state is the one that has moved, or another one as it was
  have hcases : ∀ other call', s'.calls[other]? = some call' →
      (other = place ∧ call' = ⟨call.request, phase⟩) ∨
        (place ≠ other ∧ s.calls[other]? = some call') := by
    intro other call' hother
    rw [hcalls, List.getElem?_set] at hother
    split at hother
    · rename_i hsame
      exact Or.inl ⟨hsame.symm, (Option.some.inj hother).symm⟩
    · rename_i hne
      exact Or.inr ⟨hne, hother⟩
  have hexpected : ∀ request, s'.expected bare request = s.expected bare request := by
    intro request
    cases request with
    | createRepo => rfl
    | forkRepo source => simp only [State.expected, hsources]
  refine ⟨hbelow, ?_, ?_, ?_, ?_, ?_, ?_, ?_, hunmixed⟩
  · intro call' hmem
    obtain ⟨other, hother⟩ := List.getElem?_of_mem hmem
    rcases hcases other call' hother with ⟨-, rfl⟩ | ⟨-, hold⟩
    · exact h.names call (List.mem_of_getElem? hcall)
    · exact h.names call' (List.mem_of_getElem? hold)
  · intro other call' hother hlocked'
    rcases hcases other call' hother with ⟨rfl, rfl⟩ | ⟨hne, hold⟩
    · exact hlocked hlocked'
    · have hheld := h.locked other call' hold hlocked'
      by_cases hname : lockName dest call'.request = lockName dest call.request
      · rcases hlock with hsame | hfree | hmine
        · rw [hsame, hheld]
        · rw [hname, hfree] at hheld
          exact absurd hheld (by simp)
        · rw [hname, hmine] at hheld
          exact absurd (Option.some.inj hheld) hne
      · rw [hlocks _ hname, hheld]
  · intro other call' dir hother hdir
    rw [hexpected]
    rcases hcases other call' hother with ⟨rfl, rfl⟩ | ⟨-, hold⟩
    · exact hcontent dir hdir
    · exact h.content other call' dir hold hdir
  · intro call' hmem hforking'
    obtain ⟨other, hother⟩ := List.getElem?_of_mem hmem
    rcases hcases other call' hother with ⟨-, rfl⟩ | ⟨-, hold⟩
    · exact hforking hforking'
    · exact h.forking call' (List.mem_of_getElem? hold) hforking'
  · intro other call' hother hbuilding
    rcases hcases other call' hother with ⟨rfl, rfl⟩ | ⟨hne, hold⟩
    · exact ⟨(hself hbuilding).1, (hself hbuilding).2.1⟩
    · exact hothers other call' hold hbuilding hne
  · intro first second call₁ call₂ hfirst hsecond hbuilding₁ hbuilding₂
    rcases hcases first call₁ hfirst with ⟨rfl, rfl⟩ | ⟨hne₁, hold₁⟩ <;>
      rcases hcases second call₂ hsecond with ⟨rfl, rfl⟩ | ⟨hne₂, hold₂⟩
    · rfl
    · exact (hself hbuilding₁).2.2 second call₂ hold₂ hbuilding₂
    · exact ((hself hbuilding₂).2.2 first call₁ hold₁ hbuilding₁).symm
    · exact h.one first second call₁ call₂ hold₁ hold₂ hbuilding₁ hbuilding₂
  · intro other call' hother hinsert
    rcases hcases other call' hother with ⟨rfl, rfl⟩ | ⟨-, hold⟩
    · exact hinserting hinsert
    · exact hproduced other (h.inserting other call' hold hinsert)

/-- A call goes on without its lock and writes nothing. -/
theorem Inv.move (h : Inv dest bare s) (hcall : s.calls[place]? = some call)
    (hphase : phase.locked = false) (hinsert : phase ≠ .insertRow)
    (hforking : phase.forking = true → call.request ≠ .createRepo) :
    Inv dest bare (s.setPhase place call.request phase) := by
  have hnot : Call.building ⟨call.request, phase⟩ ≠ true := by
    intro hbuilding
    have hlocked := Call.locked_of_building hbuilding
    rw [hphase] at hlocked
    exact Bool.false_ne_true hlocked
  refine h.next hcall _ rfl rfl (fun name _ => rfl) (Or.inl rfl) ?_ ?_ hforking h.below
    (fun hbuilding => absurd hbuilding hnot) (fun other call' hother hbuilding _ =>
      h.building other call' hother hbuilding) (fun other hmem => hmem)
    (fun heq => absurd heq hinsert) (h.unmixed.congr rfl rfl rfl)
  · intro hlocked
    rw [hphase] at hlocked
    exact absurd hlocked Bool.false_ne_true
  · intro dir hdir
    have hlocked : phase.locked = true := by
      cases phase <;> first | rfl | exact absurd hdir (by simp [Phase.content])
    rw [hphase] at hlocked
    exact absurd hlocked Bool.false_ne_true

/-- A call gets its lock. -/
theorem Inv.acquire (h : Inv dest bare s) (hcall : s.calls[place]? = some call)
    (hfree : ¬ (s.locks (lockName dest call.request)).isSome)
    (hphase : Call.building ⟨call.request, phase⟩ = false) (hinsert : phase ≠ .insertRow)
    (hcontent : ∀ dir, phase.content = some dir → dir = s.expected bare call.request)
    (hforking : phase.forking = false) :
    Inv dest bare
      ((s.lock (lockName dest call.request) place).setPhase place call.request phase) := by
  refine h.next hcall _ rfl rfl (fun name hname => Function.update_of_ne hname _ _)
    (Or.inr (Or.inl (by simpa using hfree))) (fun _ => Function.update_self _ _ _) hcontent
    (fun hno => absurd hno (by simp [hforking])) h.below
    (fun hbuilding => absurd hbuilding (by simp [hphase])) (fun other call' hother hbuilding _ =>
      h.building other call' hother hbuilding) (fun other hmem => hmem)
    (fun heq => absurd heq hinsert) (h.unmixed.congr rfl rfl rfl)

/-- A call that writes the directory has it for itself. -/
theorem Inv.unmixed_of_building (h : Inv dest bare s) (hcall : s.calls[place]? = some call)
    (hbuilding : call.building = true) (disk : RepoTree) : Unmixed { s with disk := disk } := by
  have hnone := (h.building place call hcall hbuilding).1
  refine ⟨h.unmixed.winner, ?_, h.unmixed.row⟩
  intro other dir hmem
  rw [hnone] at hmem
  cases hmem

/-- A call that holds its lock goes on, and can have written if it makes the directory. -/
theorem Inv.goOn (h : Inv dest bare s) (call : Call) (phase : Phase)
    (hcall : s.calls[place]? = some call)
    (hlocked : call.phase.locked = true) (hinsert : phase ≠ .insertRow)
    (hcontent : ∀ dir, phase.content = some dir → dir = s.expected bare call.request)
    (hforking : phase.forking = false) {disk : RepoTree} (hbelow : disk.exists = false → ∀ path, disk.get path = none)
    (hdisk : disk = s.disk ∨ call.building = true ∨ ∀ call ∈ s.calls, call.building = false)
    (hself : Call.building ⟨call.request, phase⟩ = true →
      s.produced = [] ∧ Progress disk phase ∧
        ∀ other call', s.calls[other]? = some call' → call'.building = true → place = other)
    (hunmixed : Unmixed { s with disk := disk }) :
    Inv dest bare ({ s with disk := disk }.setPhase place call.request phase) := by
  refine h.next hcall _ rfl rfl (fun name _ => rfl) (Or.inl rfl)
    (fun _ => h.locked place call hcall hlocked) hcontent
    (fun hno => absurd hno (by simp [hforking])) hbelow hself ?_ (fun other hmem => hmem)
    (fun heq => absurd heq hinsert) (hunmixed.congr rfl rfl rfl)
  intro other call' hother hbuilding hne
  rcases hdisk with rfl | hmine | hnone
  · exact h.building other call' hother hbuilding
  · exact absurd (h.one place other call call' hcall hother hmine hbuilding) hne
  · exact absurd hbuilding (by simp [hnone call' (List.mem_of_getElem? hother)])

/-- A call that holds its lock fails. -/
theorem Inv.fail (h : Inv dest bare s) (hcall : s.calls[place]? = some call)
    (hlocked : call.phase.locked = true) (err : GitError) {disk : RepoTree}
    (hbelow : disk.exists = false → ∀ path, disk.get path = none)
    (hdisk : disk = s.disk ∨ call.building = true) :
    Inv dest bare (State.fail dest { s with disk := disk } place call.request err) := by
  refine h.next hcall _ rfl rfl (fun name hname => Function.update_of_ne hname _ _)
    (Or.inr (Or.inr (h.locked place call hcall hlocked))) (fun hno => absurd hno (by simp [Phase.locked, Phase.content]))
    (fun dir hno => absurd hno (by simp [Phase.content]))
    (fun hno => absurd hno Bool.false_ne_true) hbelow
    (fun hno => absurd hno ?_) ?_ (fun other hmem => hmem) (fun hno => absurd hno (by simp)) ?_
  · cases call.request <;> exact Bool.false_ne_true
  · intro other call' hother hbuilding hne
    rcases hdisk with rfl | hmine
    · exact h.building other call' hother hbuilding
    · exact absurd (h.one place other call call' hcall hother hmine hbuilding) hne
  · rcases hdisk with rfl | hmine
    · exact h.unmixed.congr rfl rfl rfl
    · exact (h.unmixed_of_building hcall hmine disk).congr rfl rfl rfl

/-- Where no directory is, none has been produced. -/
theorem Inv.produced_of_absent (h : Inv dest bare s) (habsent : s.disk.exists = false) :
    s.produced = [] := by
  apply List.eq_nil_iff_forall_not_mem.2
  rintro ⟨other, dir⟩ hmem
  obtain ⟨content, -, hget⟩ := h.unmixed.content other dir hmem
  have hroot : s.disk.get [] = some .dir := by
    rw [hget, Listing.tree, if_pos rfl]
  rw [Tree.exists, hroot] at habsent
  exact Bool.false_ne_true habsent.symm

/-- Where no directory is, who has the lock of the destination is the only one to make one. -/
theorem Inv.one_of_absent (h : Inv dest bare s) (habsent : s.disk.exists = false)
    (hcall : s.calls[place]? = some ⟨.createRepo, phase⟩) (hlocked : phase.locked = true)
    (other : Nat) (call' : Call) (hother : s.calls[other]? = some call')
    (hbuilding : call'.building = true) : place = other := by
  have hmine := h.locked place _ hcall hlocked
  have htheirs := h.locked other call' hother (Call.locked_of_building hbuilding)
  have hprogress := (h.building other call' hother hbuilding).2
  obtain ⟨request, phase'⟩ := call'
  cases request with
  | createRepo =>
    rw [lockName] at hmine htheirs
    exact Option.some.inj (hmine.symm.trans htheirs)
  | forkRepo source =>
    -- a fork that makes the directory has begun to copy
    cases phase' with
    | writing dir ops =>
      rw [Progress, habsent] at hprogress
      exact absurd hprogress.1 Bool.false_ne_true
    | _ => exact absurd hbuilding Bool.false_ne_true

/-- The directory has been made, and the entries of what is copied follow. -/
theorem progress_writing {disk disk' : RepoTree} (hfree : ∀ path, disk.get path = none)
    (hperform : disk.perform (.createDirAll []) = .ok disk') (dir : Option RepoDir) :
    Progress disk'
      (.writing dir ((dir.map fun dir : RepoDir => dir.listing.copyEntries []).getD [])) := by
  refine ⟨exists_of_perform (fun _ => hfree) hperform, ?_⟩
  rintro content rfl
  obtain ⟨tree, hrun, htree⟩ := runOps_copy content.distinct hfree
  rw [Listing.copy, Tree.runOps, hperform] at hrun
  exact ⟨tree, hrun, htree⟩

theorem Inv.createDest (h : Inv dest bare s) {request : Request} {dir : Option RepoDir}
    (hcall : s.calls[place]? = some ⟨request, .createDest dir⟩) (fault : Option Fault)
    (hfits : Fits s (.advance place fault)) :
    Inv dest bare (advance dest bare s place request fault (.createDest dir)) := by
  have hready : s.disk.exists = false ∧
      (Call.building ⟨request, .createDest dir⟩ = true ∨
        ∀ call ∈ s.calls, call.building = false) := by
    cases request with
    | createRepo => exact ⟨(h.building place _ hcall rfl).2, Or.inl rfl⟩
    | forkRepo source =>
      obtain ⟨habsent, halone⟩ := hfits _ hcall rfl
      exact ⟨habsent, Or.inr halone⟩
  obtain ⟨habsent, halone⟩ := hready
  cases fault with
  | some fault => exact h.fail hcall rfl _ h.below (Or.inl rfl)
  | none =>
    simp only [advance]
    split
    · exact h.fail hcall rfl _ h.below (Or.inl rfl)
    · rename_i disk hperform
      have hexists := exists_of_perform h.below hperform
      refine h.goOn ⟨request, .createDest dir⟩ _ hcall rfl (by simp) ?_ rfl ?_
        (Or.inr halone) ?_ ?_
      · intro content hcontent
        obtain rfl := Option.some.inj hcontent
        exact h.content place _ dir hcall rfl
      · intro hno
        exact absurd (hno.symm.trans hexists) Bool.false_ne_true
      · intro _
        refine ⟨h.produced_of_absent habsent,
          progress_writing (h.below habsent) hperform dir, ?_⟩
        intro other call' hother hbuilding
        rcases halone with hmine | hnone
        · exact h.one place other _ call' hcall hother hmine hbuilding
        · exact absurd hbuilding (by simp [hnone call' (List.mem_of_getElem? hother)])
      · have hnone := h.produced_of_absent habsent
        refine ⟨h.unmixed.winner, ?_, h.unmixed.row⟩
        intro other dir hmem
        rw [hnone] at hmem
        cases hmem

theorem Inv.writing (h : Inv dest bare s) {request : Request} {dir : Option RepoDir}
    {ops : List (Op String Bytes)}
    (hcall : s.calls[place]? = some ⟨request, .writing dir ops⟩) (fault : Option Fault) :
    Inv dest bare (advance dest bare s place request fault (.writing dir ops)) := by
  have hmine : Call.building ⟨request, .writing dir ops⟩ = true := by cases request <;> rfl
  obtain ⟨hnone, hexists, hleft⟩ := h.building place _ hcall hmine
  have hthere : ∀ {disk : RepoTree}, disk.exists = true →
      disk.exists = false → ∀ path, disk.get path = none :=
    fun hyes hno => absurd (hno.symm.trans hyes) Bool.false_ne_true
  cases ops with
  | nil =>
    cases dir with
    | none => exact h.fail hcall rfl _ h.below (Or.inl rfl)
    | some content =>
      obtain ⟨disk, hrun, hget⟩ := hleft content rfl
      obtain rfl := Except.ok.inj hrun
      have hexpected := h.content place _ _ hcall rfl
      refine h.next hcall .insertRow rfl rfl
        (fun name hname => Function.update_of_ne hname _ _)
        (Or.inr (Or.inr (h.locked place _ hcall rfl))) (fun hno => absurd hno Bool.false_ne_true)
        (fun dir hno => absurd hno (by simp [Phase.content]))
        (fun hno => absurd hno Bool.false_ne_true) h.below ?_ ?_ ?_ (fun _ => ?_) ?_
      · cases request <;> exact fun hno => absurd hno Bool.false_ne_true
      · intro other call' hother hbuilding hne
        exact absurd (h.one place other _ call' hcall hother hmine hbuilding) hne
      · intro other hmem
        rw [hnone] at hmem
        cases hmem
      · exact List.mem_map.2 ⟨(place, s.expected bare request), List.mem_concat_self, rfl⟩
      · refine ⟨?_, ?_, ?_⟩
        · show (s.produced ++ [(place, s.expected bare request)]).length ≤ 1
          rw [hnone]
          exact le_refl 1
        · intro other dir hmem
          have hlast : (other, dir) ∈ s.produced ++ [(place, s.expected bare request)] := hmem
          rw [hnone, List.nil_append, List.mem_singleton] at hlast
          obtain ⟨-, rfl⟩ := Prod.mk.inj hlast
          exact ⟨content, hexpected.symm, hget⟩
        · intro other hrow
          have hmem := h.unmixed.row other hrow
          rw [hnone] at hmem
          cases hmem
  | cons op ops =>
    cases fault with
    | some fault =>
      refine h.fail hcall rfl _ (hthere ?_) (Or.inr hmine)
      unfold cutOp
      split
      · exact hexists
      · split
        · exact hexists
        · split
          · rename_i hperform
            exact exists_of_perform h.below hperform
          · exact hexists
    | none =>
      simp only [advance]
      split
      · exact h.fail hcall rfl _ h.below (Or.inl rfl)
      · rename_i disk hperform
        have hafter := exists_of_perform h.below hperform
        refine h.goOn ⟨request, .writing dir (op :: ops)⟩ _ hcall rfl (by simp) ?_ rfl
          (hthere hafter) (Or.inr (Or.inl hmine)) (fun _ => ⟨hnone, ⟨hafter, ?_⟩, ?_⟩)
          (h.unmixed_of_building hcall hmine disk)
        · intro content hcontent
          obtain rfl := Option.some.inj hcontent
          exact h.content place _ dir hcall rfl
        · intro content hdir
          obtain ⟨disk', hrun, hget⟩ := hleft content hdir
          rw [Tree.runOps, hperform] at hrun
          exact ⟨disk', hrun, hget⟩
        · intro other call' hother hbuilding
          exact h.one place other _ call' hcall hother hmine hbuilding

theorem Inv.advance (h : Inv dest bare s) (hcall : s.calls[place]? = some call)
    (fault : Option Fault) (hfits : Fits s (.advance place fault)) :
    Inv dest bare (advance dest bare s place call.request fault call.phase) := by
  obtain ⟨request, phase⟩ := call
  have hfork : phase.forking = true → request ≠ .createRepo :=
    h.forking ⟨request, phase⟩ (List.mem_of_getElem? hcall)
  cases phase with
  | validating =>
    cases request with
    | createRepo =>
      simp only [RepoDirectory.advance]
      split <;> exact h.move hcall rfl (by simp) (fun hno => absurd hno Bool.false_ne_true)
    | forkRepo source =>
      simp only [RepoDirectory.advance]
      split <;> exact h.move hcall rfl (by simp) (fun _ => by simp)
  | awaitDest =>
    simp only [RepoDirectory.advance]
    split
    · exact h
    · rename_i hfree
      refine h.acquire hcall hfree ?_ (by simp) (fun dir hno => absurd hno (by simp [Phase.content]))
        rfl
      cases request <;> rfl
  | checkDestLocked =>
    simp only [RepoDirectory.advance]
    split
    · exact h.fail hcall rfl _ h.below (Or.inl rfl)
    · rename_i habsent
      rw [Bool.not_eq_true] at habsent
      refine h.goOn ⟨request, .checkDestLocked⟩ _ hcall rfl (by simp) ?_ rfl h.below (Or.inl rfl) ?_
        (h.unmixed.congr rfl rfl rfl)
      · intro dir hdir
        exact (Option.some.inj hdir).symm
      · intro hbuilding
        refine ⟨h.produced_of_absent habsent, habsent, ?_⟩
        cases request with
        | createRepo => exact h.one_of_absent habsent hcall rfl
        | forkRepo source => exact absurd hbuilding Bool.false_ne_true
  | checkSource =>
    simp only [RepoDirectory.advance]
    split
    · exact h.move hcall rfl (by simp) (fun _ => hfork rfl)
    · exact h.move hcall rfl (by simp) (fun hno => absurd hno Bool.false_ne_true)
  | checkDest =>
    simp only [RepoDirectory.advance]
    split
    · exact h.move hcall rfl (by simp) (fun hno => absurd hno Bool.false_ne_true)
    · exact h.move hcall rfl (by simp) (fun _ => hfork rfl)
  | awaitSource =>
    simp only [RepoDirectory.advance]
    split
    · exact h
    · rename_i hfree
      refine h.acquire hcall hfree ?_ (by simp) (fun dir hdir => (Option.some.inj hdir).symm) rfl
      cases request with
      | createRepo => exact absurd rfl (hfork rfl)
      | forkRepo source => rfl
  | makeParent dir =>
    have hcontent : ∀ dir', some dir = some dir' → dir' = s.expected bare request := by
      rintro dir' hdir
      rw [← Option.some.inj hdir]
      exact h.content place _ dir hcall rfl
    cases fault with
    | some fault => exact h.fail hcall rfl _ h.below (Or.inl rfl)
    | none =>
      cases request with
      | createRepo =>
        refine h.goOn ⟨.createRepo, .makeParent dir⟩ (.initBare dir) hcall rfl (by simp)
          hcontent rfl h.below (Or.inl rfl) (fun _ => ?_)
          (h.unmixed.congr rfl rfl rfl)
        obtain ⟨hnone, hprogress⟩ := h.building place _ hcall rfl
        exact ⟨hnone, hprogress, fun other call' hother => h.one place other _ call' hcall hother rfl⟩
      | forkRepo source =>
        exact h.goOn ⟨.forkRepo source, .makeParent dir⟩ (.createDest dir) hcall rfl (by simp)
          hcontent rfl h.below (Or.inl rfl)
          (fun hno => absurd hno Bool.false_ne_true) (h.unmixed.congr rfl rfl rfl)
  | initBare dir =>
    have hcontent : ∀ dir', some dir = some dir' → dir' = s.expected bare request := by
      rintro dir' hdir
      rw [← Option.some.inj hdir]
      exact h.content place _ dir hcall rfl
    cases fault with
    | some fault => exact h.fail hcall rfl _ h.below (Or.inl rfl)
    | none =>
      simp only [RepoDirectory.advance]
      split
      · refine h.goOn ⟨request, .initBare dir⟩ (.createDest dir) hcall rfl (by simp)
          hcontent rfl h.below (Or.inl rfl) ?_
          (h.unmixed.congr rfl rfl rfl)
        cases request with
        | createRepo =>
          intro _
          obtain ⟨hnone, hprogress⟩ := h.building place _ hcall rfl
          exact ⟨hnone, hprogress,
            fun other call' hother => h.one place other _ call' hcall hother rfl⟩
        | forkRepo source => exact fun hno => absurd hno Bool.false_ne_true
      · exact h.fail hcall rfl _ h.below (Or.inl rfl)
  | createDest dir => exact h.createDest hcall fault hfits
  | writing dir ops => exact h.writing hcall fault
  | insertRow =>
    simp only [RepoDirectory.advance]
    split
    · exact h.move hcall rfl (by simp) (fun hno => absurd hno Bool.false_ne_true)
    · exact h.move hcall rfl (by simp) (fun hno => absurd hno Bool.false_ne_true)
    · have hproduced := h.inserting place _ hcall rfl
      refine h.next hcall (.returned (.ok ())) rfl rfl (fun name _ => rfl) (Or.inl rfl)
        (fun hno => absurd hno Bool.false_ne_true)
        (fun dir hno => absurd hno (by simp [Phase.content]))
        (fun hno => absurd hno Bool.false_ne_true) h.below ?_
        (fun other call' hother hbuilding _ => h.building other call' hother hbuilding)
        (fun other hmem => hmem) (fun hno => absurd hno (by simp)) ?_
      · cases request <;> exact fun hno => absurd hno Bool.false_ne_true
      · refine ⟨h.unmixed.winner, h.unmixed.content, ?_⟩
        intro other hrow
        obtain rfl := Option.some.inj hrow
        exact hproduced
  | returned result => exact h

theorem inv_step (h : Inv dest bare s) (a : Step) (hfits : Fits s a) :
    Inv dest bare (step dest bare s a) := by
  cases a with
  | call request =>
    simp only [step]
    split
    · exact h
    · rename_i hother
      -- the new call holds nothing and has nothing
      have hcases : ∀ (place : Nat) (call : Call), (s.calls ++ [⟨request, .validating⟩])[place]? = some call →
          s.calls[place]? = some call ∨ call = ⟨request, .validating⟩ := by
        intro place call hcall
        rcases Nat.lt_or_ge place s.calls.length with hlt | hge
        · rw [List.getElem?_append_left hlt] at hcall
          exact Or.inl hcall
        · rw [List.getElem?_append_right hge] at hcall
          have hmem := List.mem_of_getElem? hcall
          exact Or.inr (List.mem_singleton.1 hmem)
      have hnew : Call.building ⟨request, .validating⟩ = false := by cases request <;> rfl
      refine ⟨h.below, ?_, ?_, ?_, ?_, ?_, ?_, ?_, h.unmixed.congr rfl rfl rfl⟩
      · intro call hmem
        rcases List.mem_append.1 hmem with hold | hlast
        · exact h.names call hold
        · rw [List.mem_singleton.1 hlast]
          exact hother
      · intro place call hcall hlocked
        rcases hcases place call hcall with hold | rfl
        · exact h.locked place call hold hlocked
        · exact absurd hlocked Bool.false_ne_true
      · intro place call dir hcall hdir
        rcases hcases place call hcall with hold | rfl
        · exact (h.content place call dir hold hdir).trans (by cases call.request <;> rfl)
        · exact absurd hdir (by simp [Phase.content])
      · intro call hmem hforking
        rcases List.mem_append.1 hmem with hold | hlast
        · exact h.forking call hold hforking
        · rw [List.mem_singleton.1 hlast] at hforking
          exact absurd hforking Bool.false_ne_true
      · intro place call hcall hbuilding
        rcases hcases place call hcall with hold | rfl
        · exact h.building place call hold hbuilding
        · exact absurd (hbuilding.symm.trans hnew) (by simp)
      · intro place other call call' hcall hcall' hbuilding hbuilding'
        rcases hcases place call hcall with hold | rfl
        · rcases hcases other call' hcall' with hold' | rfl
          · exact h.one place other call call' hold hold' hbuilding hbuilding'
          · exact absurd (hbuilding'.symm.trans hnew) (by simp)
        · exact absurd (hbuilding.symm.trans hnew) (by simp)
      · intro place call hcall hinsert
        rcases hcases place call hcall with hold | rfl
        · exact h.inserting place call hold hinsert
        · exact absurd hinsert (by simp)
  | advance place fault =>
    simp only [step]
    split
    · exact h
    · rename_i call hcall
      exact h.advance hcall fault hfits
  | changeSource source content =>
    simp only [step]
    split
    · exact h
    · rename_i hfree
      refine ⟨h.below, h.names, h.locked, ?_, h.forking, h.building, h.one, h.inserting,
        h.unmixed.congr rfl rfl rfl⟩
      intro place call dir hcall hdir
      rw [h.content place call dir hcall hdir]
      cases hrequest : call.request with
      | createRepo => rfl
      | forkRepo other =>
        have hlocked : call.phase.locked = true := by
          cases hphase : call.phase <;> rw [hphase] at hdir <;>
            first | rfl | exact absurd hdir (by simp [Phase.content])
        have hheld := h.locked place call hcall hlocked
        rw [hrequest, lockName] at hheld
        -- the lock of this source is held, so it is not the source that has changed
        have hne : other ≠ source := by
          rintro rfl
          rw [hheld] at hfree
          exact hfree rfl
        exact (Function.update_of_ne hne _ _).symm

theorem inv_start (sources : String → Option RepoDir) : Inv dest bare (State.start sources) := by
  refine ⟨fun _ path => rfl, ?_, ?_, ?_, ?_, ?_, ?_, ?_, ?_⟩
  · intro call hmem
    cases hmem
  · intro place call hcall
    exact absurd hcall (by simp [State.start])
  · intro place call dir hcall
    exact absurd hcall (by simp [State.start])
  · intro call hmem
    cases hmem
  · intro place call hcall
    exact absurd hcall (by simp [State.start])
  · intro place other call call' hcall
    exact absurd hcall (by simp [State.start])
  · intro place call hcall
    exact absurd hcall (by simp [State.start])
  · refine ⟨Nat.zero_le 1, ?_, ?_⟩
    · intro place dir hmem
      cases hmem
    · intro place hrow
      cases hrow

end Inv

/-- Where every fork begins to copy while no directory is there and no other call is about to make
one, creations and forks to one name do not mix. -/
theorem unmixed_of_fits (dest : String) (bare : InitBare) (sources : String → Option RepoDir)
    (steps : List Step)
    (hfits : Runs.Throughout (step dest bare) Fits (State.start sources) steps) :
    Unmixed (Runs.run (step dest bare) (State.start sources) steps) :=
  (Runs.invariant (I := Inv dest bare) (fun _ a hinv hfit => inv_step hinv a hfit)
    (inv_start sources) hfits).unmixed

/-- A directory with one file. -/
def oneFile (name : String) : RepoDir := ⟨.file name [] .nil, by simp [Listing.Distinct, Listing.names]⟩

/-- While a repository is created, a fork to its name has not found it yet. The fork is stopped by
an error once it goes on. -/
theorem unmixed_createRun :
    Unmixed (Runs.run (step "carol/r" ⟨oneFile "HEAD", "not empty"⟩)
      (State.start (Function.update (fun _ => none) "alice/r" (some (oneFile "a"))))
      ([.call .createRepo, .call (.forkRepo "alice/r")] ++
        List.replicate 3 (.advance 1 none) ++ List.replicate 9 (.advance 0 none) ++
        [.advance 1 none, .advance 1 (some ⟨.other "disk full", none⟩)])) :=
  unmixed_of_fits _ _ _ _ (by decide +kernel)

/-- Two forks of different sources both find the name free, and both are then copied to it. -/
theorem forks_mix :
    let s := Runs.run (step "carol/r" ⟨oneFile "HEAD", "not empty"⟩)
      (State.start (Function.update (Function.update (fun _ => none) "alice/r" (some (oneFile "a")))
        "bob/r" (some (oneFile "b"))))
      ([.call (.forkRepo "alice/r"), .call (.forkRepo "bob/r")] ++
        List.replicate 3 (.advance 0 none) ++ List.replicate 3 (.advance 1 none) ++
        List.replicate 6 (.advance 0 none) ++ List.replicate 6 (.advance 1 none))
    ¬ Unmixed s ∧ s.produced.map Prod.fst = [0, 1] ∧
      s.disk.get ["a"] = some (.file []) ∧ s.disk.get ["b"] = some (.file []) := by
  intro s
  have hproduced : s.produced.map Prod.fst = [0, 1] := by decide +kernel
  refine ⟨?_, hproduced, by decide +kernel, by decide +kernel⟩
  intro h
  have hlength := congrArg List.length hproduced
  rw [List.length_map] at hlength
  exact absurd h.winner (by rw [hlength]; decide)

end RepoDirectory

end Edda.Git
