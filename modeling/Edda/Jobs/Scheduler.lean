import Edda.Support.Runs
import Edda.Support.Table
import Edda.Support.Tasks

/-!
# The maintenance scheduler

A scheduler seeds the table of the periodic tasks and then ticks. A tick reads the tasks that are
due, and for each of them enqueues a job and then writes the time of the next run. These are
statements of their own, and no write looks at whether the row is still as it was read. There can be
several schedulers, administrators write to the same rows, and a tick can fail, or its process stop,
between any two statements.

Every write of `next_run_at` begins a new occurrence of its task: the next period, or the run that
an administrator has requested. `enqueuedOnce_iff` says in which runs each occurrence that is due
leads to one job, and `fits_of_quiet` that ticks which are kept apart make such runs.
-/

set_option autoImplicit false

namespace Edda.Jobs.Scheduler

open Edda.Support

def hour : Int := 3600

def day : Int := 86400

def week : Int := 7 * day

def defaultTasks : List (String × Int) :=
  [("prune_quarantine", hour), ("session_gc", hour), ("prune_webhook_deliveries", day),
    ("prune_expired_tokens", day), ("sweep_repo_sizes", day), ("optimize_database", day),
    ("repo_gc_sweep", week)]

/-- A row of `scheduled_jobs`. -/
structure ScheduledJob where
  name : String
  intervalSeconds : Int
  enabled : Bool
  nextRunAt : Int
  lastRunAt : Option Int
  lastStatus : Option String
  lastDetail : Option String
  deriving DecidableEq, Repr

/-! ## The statements -/

section Statements

variable (rows : List ScheduledJob) (name : String)

/-- One insert of `ensure_seeded`: a task that has a row keeps it. -/
def seed (intervalSeconds : Int) : List ScheduledJob :=
  if name ∈ rows.map ScheduledJob.name then rows
  else rows ++ [⟨name, intervalSeconds, true, 0, none, none, none⟩]

def isDue (now : Int) (row : ScheduledJob) : Bool := row.enabled && decide (row.nextRunAt ≤ now)

/-- The enabled tasks whose time has come, in the order of their names. -/
def due (now : Int) : List ScheduledJob :=
  (rows.filter (isDue now)).insertionSort fun a b => a.name ≤ b.name

def markRan (lastRunAt nextRunAt : Int) (status : String) (detail : Option String) :
    List ScheduledJob :=
  Table.update rows (fun row => row.name = name) fun row =>
    { row with
      lastRunAt := some lastRunAt
      nextRunAt := nextRunAt
      lastStatus := some status
      lastDetail := detail }

def runNow : List ScheduledJob :=
  Table.update rows (fun row => row.name = name) fun row => { row with nextRunAt := 0 }

def setEnabled (enabled : Bool) : List ScheduledJob :=
  Table.update rows (fun row => row.name = name) fun row => { row with enabled := enabled }

end Statements

/-- The sum of two 64-bit numbers, or the bound that it is beyond. -/
def saturatingAdd (a b : Int) : Int := max (-2 ^ 63) (min (a + b) (2 ^ 63 - 1))

/-! ## Schedulers -/

/-- What one value of `next_run_at` stands for. -/
structure Occurrence where
  task : String
  number : Nat
  deriving DecidableEq, Repr

/-- A tick goes by the clock as it was at its start. -/
structure Tick where
  now : Int
  startedAt : Nat
  deriving DecidableEq, Repr

/-- A task as a tick has read it. -/
structure Due where
  row : ScheduledJob
  number : Nat
  deriving DecidableEq, Repr

def Due.occurrence (first : Due) : Occurrence := ⟨first.row.name, first.number⟩

/-- A scheduler by the statement that it makes next. -/
inductive Loop where
  | seeding (remaining : List (String × Int))
  | sleeping
  | due (tick : Tick)
  | enqueue (tick : Tick) (first : Due) (rest : List Due)
  | markRan (tick : Tick) (first : Due) (rest : List Due)
  | stopped
  deriving DecidableEq, Repr

/-- A `RunMaintenance` job: the occurrence that the tick had read, when the tick started, and since
when the task has been disabled, if it is. -/
structure Job where
  occurrence : Occurrence
  startedAt : Nat
  offSince : Option Nat
  deriving DecidableEq, Repr

/-- The table, the clock, the jobs that have been enqueued and the schedulers. The other fields
record the run: the number of each task's occurrence, the occurrences that were due when a write
ended them, since when each task has been disabled, and how many ticks and changes of `enabled`
there have been. -/
structure State where
  rows : List ScheduledJob
  clock : Int
  jobs : List Job
  loops : List Loop
  number : String → Nat
  ended : List Occurrence
  offSince : String → Option Nat
  moment : Nat

def State.set (s : State) (place : Nat) (next : Loop) : State :=
  { s with loops := s.loops.set place next }

def State.current (s : State) (name : String) : Occurrence := ⟨name, s.number name⟩

/-- The time of the task has come, whether or not it is enabled. -/
def IsDue (s : State) (name : String) : Prop :=
  ∃ row ∈ s.rows, row.name = name ∧ row.nextRunAt ≤ s.clock

instance (s : State) (name : String) : Decidable (IsDue s name) :=
  inferInstanceAs (Decidable (∃ _ ∈ _, _))

def HasJob (s : State) (occurrence : Occurrence) : Prop :=
  occurrence ∈ s.jobs.map Job.occurrence

instance (s : State) (occurrence : Occurrence) : Decidable (HasJob s occurrence) :=
  inferInstanceAs (Decidable (_ ∈ _))

/-- A write of `next_run_at`, which leaves the rows that it is given. -/
def State.reschedule (s : State) (name : String) (rows : List ScheduledJob) : State :=
  { s with
    rows := rows
    number := Function.update s.number name (s.number name + 1)
    ended := if IsDue s name then s.current name :: s.ended else s.ended }

def nextTask (tick : Tick) : List Due → Loop
  | [] => .sleeping
  | first :: rest => .enqueue tick first rest

def readDue (s : State) (now : Int) : List Due :=
  (due s.rows now).map fun row => ⟨row, s.number row.name⟩

def proceed (s : State) (place : Nat) : Loop → State
  | .seeding [] => s.set place .sleeping
  | .seeding ((name, interval) :: remaining) =>
    { s with rows := seed s.rows name interval }.set place (.seeding remaining)
  -- the interval between two ticks is over
  | .sleeping => { s with moment := s.moment + 1 }.set place (.due ⟨s.clock, s.moment⟩)
  | .due tick => s.set place (nextTask tick (readDue s tick.now))
  | .enqueue tick first rest =>
    let job := ⟨first.occurrence, tick.startedAt, s.offSince first.row.name⟩
    { s with jobs := job :: s.jobs }.set place (.markRan tick first rest)
  | .markRan tick first rest =>
    let next := saturatingAdd tick.now (max first.row.intervalSeconds 60)
    (s.reschedule first.row.name
      (markRan s.rows first.row.name tick.now next "queued" none)).set place (nextTask tick rest)
  | .stopped => s

/-- A scheduler that cannot seed the table ends; a tick that fails is over. -/
def fail : Loop → Loop
  | .seeding _ => .stopped
  | .stopped => .stopped
  | _ => .sleeping

/-- The steps that name a scheduler do so by its place. -/
inductive Step where
  | spawn (tasks : List (String × Int))
  | proceed (place : Nat)
  | fails (place : Nat)
  | stops (place : Nat)
  | runNow (name : String)
  | setEnabled (name : String) (enabled : Bool)
  | wait (seconds : Nat)
  deriving DecidableEq, Repr

/-- A task that is disabled already stays disabled since then. -/
def offSince (s : State) (name : String) (enabled : Bool) : Option Nat :=
  if enabled = true ∨ name ∉ s.rows.map ScheduledJob.name then none
  else (s.offSince name).or (some s.moment)

def step (s : State) : Step → State
  | .spawn tasks => { s with loops := s.loops ++ [.seeding tasks] }
  | .proceed place => match s.loops[place]? with
    | none => s
    | some loop => proceed s place loop
  | .fails place => match s.loops[place]? with
    | none => s
    | some loop => s.set place (fail loop)
  | .stops place => s.set place .stopped
  | .runNow name => s.reschedule name (runNow s.rows name)
  | .setEnabled name enabled =>
    { s with
      rows := setEnabled s.rows name enabled
      offSince := Function.update s.offSince name (offSince s name enabled)
      moment := s.moment + 1 }
  | .wait seconds => { s with clock := s.clock + seconds }

def start (now : Int) : State :=
  ⟨[], now, [], [], fun _ => 0, [], fun _ => none, 0⟩

/-! ## What has to hold -/

/-- No occurrence has two jobs, an occurrence that was due has one when it ends, and the job of a
task that is disabled is from a tick that started before. -/
structure EnqueuedOnce (s : State) : Prop where
  once : (s.jobs.map Job.occurrence).Nodup
  ended : ∀ occurrence ∈ s.ended, HasJob s occurrence
  enabled : ∀ job ∈ s.jobs, ∀ since, job.offSince = some since → job.startedAt < since

/-- The task is due and there is no job for it yet. -/
def Waiting (s : State) (name : String) : Prop := IsDue s name ∧ ¬ HasJob s (s.current name)

instance (s : State) (name : String) : Decidable (Waiting s name) :=
  inferInstanceAs (Decidable (_ ∧ _))

def LoopFits (s : State) : Loop → Prop
  | .enqueue _ first _ => ¬ HasJob s first.occurrence
  | .markRan _ first _ => ¬ Waiting s first.row.name
  | _ => True

/-- What a tick enqueues has no job, and `next_run_at` is not written for a task that waits for
one. -/
def StepFits (s : State) : Step → Prop
  | .proceed place => ∀ loop, s.loops[place]? = some loop → LoopFits s loop
  | .runNow name => ¬ Waiting s name
  | _ => True

instance decidableLoopFits (s : State) : (loop : Loop) → Decidable (LoopFits s loop)
  | .seeding _ => isTrue trivial
  | .sleeping => isTrue trivial
  | .due _ => isTrue trivial
  | .enqueue _ _ _ => inferInstanceAs (Decidable (¬ _))
  | .markRan _ _ _ => inferInstanceAs (Decidable (¬ _))
  | .stopped => isTrue trivial

instance decidableStepFits (s : State) : (a : Step) → Decidable (StepFits s a)
  | .spawn _ => isTrue trivial
  | .proceed place => inferInstanceAs (Decidable (∀ loop ∈ s.loops[place]?, LoopFits s loop))
  | .fails _ => isTrue trivial
  | .stops _ => isTrue trivial
  | .runNow _ => inferInstanceAs (Decidable (¬ _))
  | .setEnabled _ _ => isTrue trivial
  | .wait _ => isTrue trivial

/-! ## What every run keeps -/

section Keeps

variable {s s' : State} {place : Nat} {loop next : Loop} {tick : Tick} {dues : List Due}
  {name : String} {rows : List ScheduledJob}

/-- A tick is under way with some tasks to come. None of them has been disabled since before the
tick started. -/
def TickInv (s : State) (tick : Tick) (dues : List Due) : Prop :=
  tick.startedAt < s.moment ∧
    ∀ first ∈ dues, ∀ since, s.offSince first.row.name = some since → tick.startedAt < since

def LoopInv (s : State) : Loop → Prop
  | .due tick => TickInv s tick []
  | .enqueue tick first rest => TickInv s tick (first :: rest)
  | .markRan tick first rest => TickInv s tick (first :: rest)
  | _ => True

/-- The record of what is disabled is right. -/
structure Inv (s : State) : Prop where
  off : ∀ row ∈ s.rows, ∀ since, s.offSince row.name = some since → row.enabled = false
  known : ∀ name since, s.offSince name = some since → name ∈ s.rows.map ScheduledJob.name
  loops : ∀ loop ∈ s.loops, LoopInv s loop

theorem TickInv.mono (h : TickInv s tick dues) (hoff : s'.offSince = s.offSince)
    (hmoment : s.moment ≤ s'.moment) : TickInv s' tick dues := by
  refine ⟨Nat.lt_of_lt_of_le h.1 hmoment, ?_⟩
  rw [hoff]
  exact h.2

theorem LoopInv.mono (h : LoopInv s loop) (hoff : s'.offSince = s.offSince)
    (hmoment : s.moment ≤ s'.moment) : LoopInv s' loop := by
  cases loop with
  | due tick => exact TickInv.mono h hoff hmoment
  | enqueue tick first rest => exact TickInv.mono h hoff hmoment
  | markRan tick first rest => exact TickInv.mono h hoff hmoment
  | seeding remaining => trivial
  | sleeping => trivial
  | stopped => trivial

theorem Inv.set (hinv : Inv s) (hnext : LoopInv s next) : Inv (s.set place next) where
  off := hinv.off
  known := hinv.known
  loops := by
    intro other hother
    have hkept := Tasks.forall_set (LoopInv s) hinv.loops hnext other hother
    exact hkept.mono rfl (Nat.le_refl s.moment)

theorem TickInv.tail {first : Due} (h : TickInv s tick (first :: dues)) : TickInv s tick dues :=
  ⟨h.1, fun other hother => h.2 other (List.mem_cons_of_mem first hother)⟩

theorem loopInv_nextTask (h : TickInv s tick dues) : LoopInv s (nextTask tick dues) := by
  cases dues with
  | nil => trivial
  | cons first rest => exact h

/-- A statement that changes neither which tasks there are nor which are enabled. -/
theorem Inv.reschedule (hinv : Inv s) (set : ScheduledJob → ScheduledJob)
    (hname : ∀ row, (set row).name = row.name) (henabled : ∀ row, (set row).enabled = row.enabled)
    (selected : ScheduledJob → Bool) (name : String) :
    Inv (s.reschedule name (Table.update s.rows selected set)) where
  off := by
    intro changed hchanged since hsince
    obtain ⟨row, hrow, rfl⟩ := List.mem_map.1 hchanged
    have hkept : (if selected row then set row else row).name = row.name ∧
        (if selected row then set row else row).enabled = row.enabled := by
      split
      · exact ⟨hname row, henabled row⟩
      · exact ⟨rfl, rfl⟩
    rw [hkept.1] at hsince
    rw [hkept.2]
    exact hinv.off row hrow since hsince
  known := by
    intro name since hsince
    show name ∈ (Table.update s.rows selected set).map ScheduledJob.name
    rw [Table.keys_update hname]
    exact hinv.known name since hsince
  loops := fun loop hloop => (hinv.loops loop hloop).mono rfl (Nat.le_refl s.moment)

/-- A new row is of a task that nobody has disabled. -/
theorem Inv.seed (hinv : Inv s) (name : String) (intervalSeconds : Int) :
    Inv { s with rows := seed s.rows name intervalSeconds } := by
  rw [Scheduler.seed]
  split
  · exact hinv
  rename_i hnew
  constructor
  · intro row hrow since hsince
    rcases List.mem_append.1 hrow with hold | hlast
    · exact hinv.off row hold since hsince
    · obtain rfl := List.mem_singleton.1 hlast
      exact absurd (hinv.known name since hsince) hnew
  · intro other since hsince
    rw [List.map_append]
    exact List.mem_append_left _ (hinv.known other since hsince)
  · exact fun loop hloop => (hinv.loops loop hloop).mono rfl (Nat.le_refl s.moment)

theorem offSince_eq_some {enabled : Bool} {since : Nat}
    (h : offSince s name enabled = some since) :
    enabled = false ∧ name ∈ s.rows.map ScheduledJob.name ∧
      (s.offSince name = some since ∨ since = s.moment) := by
  rw [offSince] at h
  split at h
  · cases h
  rename_i hdisabled
  obtain ⟨hoff, hrow⟩ := not_or.1 hdisabled
  refine ⟨Bool.eq_false_iff.2 hoff, not_not.1 hrow, ?_⟩
  cases hbefore : s.offSince name with
  | none =>
    rw [hbefore] at h
    exact .inr (Option.some.inj h).symm
  | some before =>
    rw [hbefore] at h
    exact .inl h

/-- A change of `enabled` comes after every tick that is under way has started. -/
theorem tickInv_setEnabled (h : TickInv s tick dues) (name : String) (enabled : Bool) :
    TickInv (step s (.setEnabled name enabled)) tick dues := by
  refine ⟨Nat.lt_succ_of_lt h.1, fun first hfirst since hsince => ?_⟩
  by_cases hsame : first.row.name = name
  · have hchanged : Function.update s.offSince name (offSince s name enabled) first.row.name =
        some since := hsince
    rw [hsame, Function.update_self] at hchanged
    obtain ⟨-, -, hbefore | hnow⟩ := offSince_eq_some hchanged
    · exact h.2 first hfirst since (hsame ▸ hbefore)
    · rw [hnow]
      exact h.1
  · have hkept : Function.update s.offSince name (offSince s name enabled) first.row.name =
        some since := hsince
    rw [Function.update_of_ne hsame] at hkept
    exact h.2 first hfirst since hkept

theorem inv_setEnabled (hinv : Inv s) (name : String) (enabled : Bool) :
    Inv (step s (.setEnabled name enabled)) where
  off := by
    intro changed hchanged since hsince
    obtain ⟨row, hrow, rfl⟩ := List.mem_map.1 hchanged
    by_cases hsame : row.name = name
    · simp only [step, hsame, decide_true, if_true, Function.update_self] at hsince ⊢
      exact (offSince_eq_some hsince).1
    · simp only [step, hsame, decide_false, Bool.false_eq_true, if_false] at hsince ⊢
      rw [Function.update_of_ne hsame] at hsince
      exact hinv.off row hrow since hsince
  known := by
    intro other since hsince
    have hnames : (setEnabled s.rows name enabled).map ScheduledJob.name =
        s.rows.map ScheduledJob.name := Table.keys_update fun _ => rfl
    show other ∈ (setEnabled s.rows name enabled).map ScheduledJob.name
    rw [hnames]
    by_cases hsame : other = name
    · simp only [step, hsame, Function.update_self] at hsince
      exact hsame ▸ (offSince_eq_some hsince).2.1
    · simp only [step] at hsince
      rw [Function.update_of_ne hsame] at hsince
      exact hinv.known other since hsince
  loops := by
    intro loop hloop
    have hold := hinv.loops loop hloop
    cases loop with
    | due tick => exact tickInv_setEnabled hold name enabled
    | enqueue tick first rest => exact tickInv_setEnabled hold name enabled
    | markRan tick first rest => exact tickInv_setEnabled hold name enabled
    | seeding remaining => trivial
    | sleeping => trivial
    | stopped => trivial

/-- The rows that a tick reads are enabled. -/
theorem tickInv_readDue (hinv : Inv s) (h : tick.startedAt < s.moment) (now : Int) :
    TickInv s tick (readDue s now) := by
  refine ⟨h, fun first hfirst since hsince => ?_⟩
  obtain ⟨row, hread, rfl⟩ := List.mem_map.1 hfirst
  obtain ⟨hrow, hdue⟩ := List.mem_filter.1 ((List.mem_insertionSort _).1 hread)
  have henabled : row.enabled = true := (Bool.and_eq_true_iff.1 hdue).1
  rw [hinv.off row hrow since hsince] at henabled
  cases henabled

theorem inv_proceed (hinv : Inv s) (hloop : LoopInv s loop) : Inv (proceed s place loop) := by
  cases loop with
  | seeding remaining =>
    cases remaining with
    | nil => exact hinv.set trivial
    | cons task remaining => exact (hinv.seed task.1 task.2).set trivial
  | sleeping =>
    have hlater : Inv { s with moment := s.moment + 1 } := by
      refine ⟨hinv.off, hinv.known, fun other hother => ?_⟩
      have hold : LoopInv s other := hinv.loops other hother
      exact hold.mono rfl (Nat.le_succ s.moment)
    apply hlater.set
    exact ⟨Nat.lt_succ_self s.moment, fun _ hnone => absurd hnone List.not_mem_nil⟩
  | due tick =>
    apply hinv.set
    exact loopInv_nextTask (tickInv_readDue hinv hloop.1 tick.now)
  | enqueue tick first rest =>
    have hjob (job : Job) : Inv { s with jobs := job :: s.jobs } :=
      ⟨hinv.off, hinv.known, fun other hother => (hinv.loops other hother).mono rfl (Nat.le_refl _)⟩
    apply (hjob _).set
    exact TickInv.mono hloop rfl (Nat.le_refl s.moment)
  | markRan tick first rest =>
    have hmarked : Inv (s.reschedule first.row.name (markRan s.rows first.row.name tick.now
        (saturatingAdd tick.now (max first.row.intervalSeconds 60)) "queued" none)) := by
      apply hinv.reschedule
      · exact fun _ => rfl
      · exact fun _ => rfl
    apply hmarked.set
    exact loopInv_nextTask ((TickInv.tail hloop).mono rfl (Nat.le_refl s.moment))
  | stopped => exact hinv

theorem loopInv_fail (loop : Loop) : LoopInv s (fail loop) := by
  cases loop <;> trivial

theorem inv_step (hinv : Inv s) (a : Step) : Inv (step s a) := by
  cases a with
  | spawn tasks =>
    refine ⟨hinv.off, hinv.known, ?_⟩
    have hloops := Tasks.forall_append_one (LoopInv s) hinv.loops
      (show LoopInv s (.seeding tasks) from trivial)
    exact fun loop hloop => (hloops loop hloop).mono rfl (Nat.le_refl s.moment)
  | proceed place =>
    simp only [step]
    cases hplace : s.loops[place]? with
    | none => exact hinv
    | some loop => exact inv_proceed hinv (hinv.loops loop (List.mem_of_getElem? hplace))
  | fails place =>
    simp only [step]
    cases hplace : s.loops[place]? with
    | none => exact hinv
    | some loop => exact hinv.set (loopInv_fail loop)
  | stops place => exact hinv.set trivial
  | runNow name =>
    apply hinv.reschedule
    · exact fun _ => rfl
    · exact fun _ => rfl
  | setEnabled name enabled => exact inv_setEnabled hinv name enabled
  | wait seconds =>
    exact ⟨hinv.off, hinv.known,
      fun loop hloop => (hinv.loops loop hloop).mono rfl (Nat.le_refl s.moment)⟩

/-! ## Which steps have to fit -/

/-- What has to hold is about the jobs and the occurrences that have ended. -/
theorem EnqueuedOnce.kept (h : EnqueuedOnce s) (hjobs : s'.jobs = s.jobs)
    (hended : s'.ended = s.ended) : EnqueuedOnce s' := by
  constructor
  · rw [hjobs]
    exact h.once
  · intro occurrence hmem
    rw [hended] at hmem
    rw [HasJob, hjobs]
    exact h.ended occurrence hmem
  · rw [hjobs]
    exact h.enabled

theorem enqueuedOnce_reschedule (hlaw : EnqueuedOnce s) :
    EnqueuedOnce (s.reschedule name rows) ↔ ¬ Waiting s name := by
  constructor
  · rintro hafter ⟨hdue, hnone⟩
    have hended : s.current name ∈ (s.reschedule name rows).ended := by
      rw [State.reschedule]
      simp only [hdue, if_true]
      exact List.mem_cons_self
    exact hnone (hafter.ended (s.current name) hended)
  · intro hfits
    refine ⟨hlaw.once, fun occurrence hended => ?_, hlaw.enabled⟩
    rw [State.reschedule] at hended
    simp only at hended
    split at hended
    · rename_i hdue
      rcases List.mem_cons.1 hended with rfl | hbefore
      · by_contra hnone
        exact hfits ⟨hdue, hnone⟩
      · exact hlaw.ended occurrence hbefore
    · exact hlaw.ended occurrence hended

theorem enqueuedOnce_enqueue (hlaw : EnqueuedOnce s) {first : Due} {rest : List Due}
    (hloop : LoopInv s (.enqueue tick first rest)) :
    EnqueuedOnce (proceed s place (.enqueue tick first rest)) ↔ ¬ HasJob s first.occurrence := by
  constructor
  · rintro hafter hjob
    exact (List.nodup_cons.1 hafter.once).1 hjob
  · intro hnew
    refine ⟨List.nodup_cons.2 ⟨hnew, hlaw.once⟩, fun occurrence hended => ?_,
      fun job hjob since hsince => ?_⟩
    · exact List.mem_cons_of_mem _ (hlaw.ended occurrence hended)
    · rcases List.mem_cons.1 hjob with rfl | hbefore
      · exact hloop.2 first List.mem_cons_self since hsince
      · exact hlaw.enabled job hbefore since hsince

theorem enqueuedOnce_proceed (hlaw : EnqueuedOnce s) (hloop : LoopInv s loop) :
    EnqueuedOnce (proceed s place loop) ↔ LoopFits s loop := by
  cases loop with
  | seeding remaining =>
    cases remaining with
    | nil => exact iff_of_true (hlaw.kept rfl rfl) trivial
    | cons task remaining => exact iff_of_true (hlaw.kept rfl rfl) trivial
  | sleeping => exact iff_of_true (hlaw.kept rfl rfl) trivial
  | due tick => exact iff_of_true (hlaw.kept rfl rfl) trivial
  | enqueue tick first rest => exact enqueuedOnce_enqueue hlaw hloop
  | markRan tick first rest =>
    have hwrite : EnqueuedOnce (s.reschedule first.row.name (markRan s.rows first.row.name tick.now
        (saturatingAdd tick.now (max first.row.intervalSeconds 60)) "queued" none)) ↔
          ¬ Waiting s first.row.name := enqueuedOnce_reschedule hlaw
    exact ⟨fun hafter => hwrite.1 (hafter.kept rfl rfl), fun hfits => (hwrite.2 hfits).kept rfl rfl⟩
  | stopped => exact iff_of_true hlaw trivial

/-- A step leaves what has to hold exactly if it fits. -/
theorem enqueuedOnce_step (hinv : Inv s) (hlaw : EnqueuedOnce s) (a : Step) :
    EnqueuedOnce (step s a) ↔ StepFits s a := by
  cases a with
  | proceed place =>
    simp only [step, StepFits]
    cases hplace : s.loops[place]? with
    | none => exact iff_of_true hlaw fun _ hnone => by cases hnone
    | some loop =>
      have hloop := hinv.loops loop (List.mem_of_getElem? hplace)
      rw [enqueuedOnce_proceed hlaw hloop]
      constructor
      · rintro hfits other hother
        obtain rfl := Option.some.inj hother
        exact hfits
      · exact fun hfits => hfits loop rfl
  | runNow name => exact enqueuedOnce_reschedule hlaw
  | fails place =>
    apply iff_of_true _ trivial
    simp only [step]
    cases s.loops[place]? with
    | none => exact hlaw
    | some loop => exact hlaw.kept rfl rfl
  | spawn tasks => exact iff_of_true (hlaw.kept rfl rfl) trivial
  | stops place => exact iff_of_true (hlaw.kept rfl rfl) trivial
  | setEnabled name enabled => exact iff_of_true (hlaw.kept rfl rfl) trivial
  | wait seconds => exact iff_of_true (hlaw.kept rfl rfl) trivial

/-! ## A tick that is left alone -/

/-- A tick from its start to its end, with nothing in between. -/
def tickAlone (s : State) (place : Nat) : State :=
  Runs.run step s (List.replicate (2 + 2 * (readDue s s.clock).length) (.proceed place))

theorem hasJob_proceed {occurrence : Occurrence} (place : Nat) (h : HasJob s occurrence) :
    HasJob (step s (.proceed place)) occurrence := by
  simp only [step]
  cases s.loops[place]? with
  | none => exact h
  | some loop =>
    cases loop with
    | enqueue tick first rest => exact List.mem_cons_of_mem _ h
    | seeding remaining =>
      cases remaining with
      | nil => exact h
      | cons task remaining => exact h
    | sleeping => exact h
    | due tick => exact h
    | markRan tick first rest => exact h
    | stopped => exact h

theorem hasJob_run {occurrence : Occurrence} (place times : Nat) (h : HasJob s occurrence) :
    HasJob (Runs.run step s (List.replicate times (.proceed place))) occurrence := by
  induction times generalizing s with
  | zero => exact h
  | succ times ih => exact ih (hasJob_proceed place h)

theorem loops_set (h : s.loops[place]? = some loop) (next : Loop) :
    (s.set place next).loops[place]? = some next := by
  obtain ⟨hplace, -⟩ := List.getElem?_eq_some_iff.1 h
  exact List.getElem?_set_self hplace

theorem step_proceed (h : s.loops[place]? = some loop) :
    step s (.proceed place) = proceed s place loop := by
  simp only [step, h]

/-- Two statements for each task that the tick has read. -/
theorem hasJob_of_nextTask (h : s.loops[place]? = some (nextTask tick dues)) :
    ∀ first ∈ dues, HasJob (Runs.run step s
      (List.replicate (2 * dues.length) (.proceed place))) first.occurrence := by
  induction dues generalizing s with
  | nil => exact fun _ hnone => absurd hnone List.not_mem_nil
  | cons head rest ih =>
    have hmarking : (step s (.proceed place)).loops[place]? = some (.markRan tick head rest) := by
      rw [step_proceed h]
      exact loops_set h (.markRan tick head rest)
    have hnext : (step (step s (.proceed place)) (.proceed place)).loops[place]? =
        some (nextTask tick rest) := by
      rw [step_proceed hmarking]
      exact loops_set hmarking (nextTask tick rest)
    have hjob : HasJob (step s (.proceed place)) head.occurrence := by
      rw [step_proceed h]
      exact List.mem_cons_self
    intro first hfirst
    show HasJob (Runs.run step (step (step s (.proceed place)) (.proceed place))
      (List.replicate (2 * rest.length) (.proceed place))) first.occurrence
    rcases List.mem_cons.1 hfirst with rfl | hlater
    · apply hasJob_run
      exact hasJob_proceed place hjob
    · exact ih hnext first hlater

/-- A tick that is left alone enqueues a job for every enabled task that is due. -/
theorem hasJob_tickAlone (h : s.loops[place]? = some .sleeping) {row : ScheduledJob}
    (hrow : row ∈ s.rows) (hdue : isDue s.clock row = true) :
    HasJob (tickAlone s place) (s.current row.name) := by
  have hstarted : (step s (.proceed place)).loops[place]? = some (.due ⟨s.clock, s.moment⟩) := by
    rw [step_proceed h]
    exact loops_set h (.due ⟨s.clock, s.moment⟩)
  have hread : (step (step s (.proceed place)) (.proceed place)).loops[place]? =
      some (nextTask ⟨s.clock, s.moment⟩ (readDue s s.clock)) := by
    rw [step_proceed hstarted, step_proceed h]
    rw [step_proceed h] at hstarted
    exact loops_set hstarted (nextTask ⟨s.clock, s.moment⟩ (readDue s s.clock))
  have hmem : (⟨row, s.number row.name⟩ : Due) ∈ readDue s s.clock := by
    apply List.mem_map_of_mem
    apply (List.mem_insertionSort _).2
    exact List.mem_filter.2 ⟨hrow, hdue⟩
  rw [tickAlone, Nat.add_comm]
  exact hasJob_of_nextTask hread ⟨row, s.number row.name⟩ hmem

theorem inv_start (now : Int) : Inv (start now) where
  off _ hrow := absurd hrow List.not_mem_nil
  known _ _ hsince := (Option.some_ne_none _ hsince.symm).elim
  loops _ hloop := absurd hloop List.not_mem_nil

theorem enqueuedOnce_start (now : Int) : EnqueuedOnce (start now) where
  once := List.nodup_nil
  ended _ hended := absurd hended List.not_mem_nil
  enabled _ hjob := absurd hjob List.not_mem_nil

end Keeps

/-- In a run each occurrence that is due gets one job, and a disabled task none from a tick that
starts later, exactly if every tick enqueues what has no job yet, and no write of `next_run_at`, of
a tick or of an administrator, finds a task that waits for its job. In every state a tick that is
left alone enqueues all enabled tasks that are due. -/
theorem enqueuedOnce_iff (now : Int) (steps : List Step) :
    ((∀ earlier later, steps = earlier ++ later →
        EnqueuedOnce (Runs.run step (start now) earlier)) ↔
      Runs.Throughout step StepFits (start now) steps) ∧
    ∀ place, (Runs.run step (start now) steps).loops[place]? = some .sleeping →
      ∀ row ∈ (Runs.run step (start now) steps).rows,
        isDue (Runs.run step (start now) steps).clock row = true →
          HasJob (tickAlone (Runs.run step (start now) steps) place)
            ((Runs.run step (start now) steps).current row.name) := by
  constructor
  · apply Runs.always_iff_throughout (I := Inv)
    · intro s a hinv _ _
      exact inv_step hinv a
    · intro s a hinv hlaw
      exact enqueuedOnce_step hinv hlaw a
    · exact inv_start now
    · exact enqueuedOnce_start now
  · exact fun place hplace row hrow hdue => hasJob_tickAlone hplace hrow hdue

/-- A scheduler is up and asleep, and its one task is due. -/
def seeded : List Step :=
  [.spawn [("session_gc", hour)], .proceed 0, .proceed 0]

/-- A tick, an hour, an administrator's request and another tick, one after the other. -/
def undisturbed : List Step :=
  seeded ++ ([.proceed 0, .proceed 0, .proceed 0, .proceed 0, .wait 3600, .proceed 0, .proceed 0,
    .proceed 0, .proceed 0, .runNow "session_gc"] : List Step)

/-- Two occurrences have their jobs, and the next tick enqueues the third. -/
theorem enqueuedOnce_undisturbed :
    (∀ earlier later, undisturbed = earlier ++ later →
      EnqueuedOnce (Runs.run step (start 1000) earlier)) ∧
    HasJob (tickAlone (Runs.run step (start 1000) undisturbed) 0) ⟨"session_gc", 3⟩ :=
  ⟨(enqueuedOnce_iff 1000 undisturbed).1.2 (by decide +kernel),
    (enqueuedOnce_iff 1000 undisturbed).2 0 (by decide +kernel)
      ⟨"session_gc", hour, true, 0, some 4600, some "queued", none⟩ (by decide +kernel)
      (by decide +kernel)⟩

/-- The ticks of two schedulers read the same row before either has written it. -/
def ticksOverlap : List Step :=
  seeded ++ ([.spawn [("session_gc", hour)], .proceed 1, .proceed 1, .proceed 0, .proceed 0,
    .proceed 1, .proceed 1, .proceed 0, .proceed 1] : List Step)

/-- A tick fails after it has enqueued the job, and the next one reads the row as it was. -/
def tickFails : List Step :=
  seeded ++ ([.proceed 0, .proceed 0, .proceed 0, .fails 0, .proceed 0, .proceed 0,
    .proceed 0] : List Step)

/-- An administrator's request comes after the job has been enqueued, and the tick overwrites it. -/
def requestOverwritten : List Step :=
  seeded ++ ([.proceed 0, .proceed 0, .proceed 0, .runNow "session_gc", .proceed 0] : List Step)

/-- Two runs that enqueue an occurrence twice, and one in which a request is lost. -/
theorem occurrences_are_repeated_and_lost :
    ¬ (∀ now steps, EnqueuedOnce (Runs.run step (start now) steps)) ∧
    ¬ EnqueuedOnce (Runs.run step (start 1000) tickFails) ∧
    ¬ EnqueuedOnce (Runs.run step (start 1000) requestOverwritten) := by
  refine ⟨fun h => ?_, fun h => ?_, fun h => ?_⟩
  · exact absurd (h 1000 ticksOverlap).once (by decide +kernel)
  · exact absurd h.once (by decide +kernel)
  · exact absurd (h.ended ⟨"session_gc", 1⟩ (by decide +kernel)) (by decide +kernel)

/-! ## Ticks that are kept apart

With one tick at a time, that does not stop between a job and the write of its row, and requests of
administrators between the ticks, every step fits. -/

def Loop.underWay : Loop → Bool
  | .due _ => true
  | .enqueue _ _ _ => true
  | .markRan _ _ _ => true
  | _ => false

def NoneUnderWay (s : State) : Prop := ∀ loop ∈ s.loops, loop.underWay = false

/-- The scheduler in a place has enqueued a job and has not written the row. -/
def Marks (s : State) (place : Nat) (occurrence : Occurrence) : Prop :=
  ∃ tick first rest, s.loops[place]? = some (.markRan tick first rest) ∧
    first.occurrence = occurrence

def Quiet (s : State) : Step → Prop
  | .proceed place => s.loops[place]? = some .sleeping → NoneUnderWay s
  | .fails place => ∀ occurrence, ¬ Marks s place occurrence
  | .stops place => ∀ occurrence, ¬ Marks s place occurrence
  | .runNow name => NoneUnderWay s ∧ ¬ IsDue s name
  | _ => True

section Apart

variable {s s' : State} {place : Nat} {loop next : Loop} {tick : Tick} {first : Due}
  {dues rest : List Due} {name : String} {rows : List ScheduledJob}

/-- The rows that a tick has read are as they were. -/
structure Current (s : State) (dues : List Due) : Prop where
  names : (dues.map fun first => first.row.name).Nodup
  numbers : ∀ first ∈ dues, first.occurrence = s.current first.row.name

def ReadInv (s : State) : Loop → Prop
  | .enqueue _ first rest => Current s (first :: rest)
  | .markRan _ first rest => Current s (first :: rest) ∧ HasJob s first.occurrence
  | _ => True

/-- The occurrences of all jobs are over. -/
def AllPast (s : State) : Prop :=
  ∀ job ∈ s.jobs, job.occurrence.number < s.number job.occurrence.task

/-- One tick at a time is under way, and the jobs are of occurrences that are over, but for the one
that this tick may be about to end. -/
structure Apart (s : State) : Prop where
  keyed : Table.Keyed ScheduledJob.name s.rows
  one : ∀ (i j : Nat) (first second : Loop), s.loops[i]? = some first → s.loops[j]? = some second →
    first.underWay = true → second.underWay = true → i = j
  past : ∀ job ∈ s.jobs, job.occurrence.number < s.number job.occurrence.task ∨
    ∃ place, Marks s place job.occurrence
  read : ∀ loop ∈ s.loops, ReadInv s loop

/-- While no tick is about to end an occurrence, all jobs are of past ones. -/
theorem Apart.allPast (hapart : Apart s) (h : ∀ place occurrence, ¬ Marks s place occurrence) :
    AllPast s := by
  intro job hjob
  rcases hapart.past job hjob with hover | ⟨place, hmarks⟩
  · exact hover
  · exact absurd hmarks (h place job.occurrence)

theorem not_marks_of_none (h : NoneUnderWay s) (place : Nat) (occurrence : Occurrence) :
    ¬ Marks s place occurrence := by
  rintro ⟨tick, first, rest, hplace, -⟩
  cases h (.markRan tick first rest) (List.mem_of_getElem? hplace)

/-- The one tick that is under way is the only one that can be about to end an occurrence. -/
theorem Apart.eq_of_marks (hapart : Apart s) (hplace : s.loops[place]? = some loop)
    (hrunning : loop.underWay = true) {other : Nat} {occurrence : Occurrence}
    (hmarks : Marks s other occurrence) : other = place := by
  obtain ⟨tick, first, rest, hother, -⟩ := hmarks
  exact hapart.one other place (.markRan tick first rest) loop hother hplace rfl hrunning

theorem Apart.one_set (hapart : Apart s)
    (hnext : next.underWay = true → ∀ (j : Nat) (other : Loop), s.loops[j]? = some other →
      other.underWay = true → j = place) :
    ∀ (i j : Nat) (first second : Loop), (s.set place next).loops[i]? = some first →
      (s.set place next).loops[j]? = some second → first.underWay = true →
        second.underWay = true → i = j := by
  intro i j first second hfirst hsecond hfirstRunning hsecondRunning
  simp only [State.set, List.getElem?_set] at hfirst hsecond
  by_cases hi : place = i
  · by_cases hj : place = j
    · exact hi.symm.trans hj
    · rw [if_pos hi] at hfirst
      rw [if_neg hj] at hsecond
      split at hfirst
      · obtain rfl := Option.some.inj hfirst
        exact hi.symm.trans (hnext hfirstRunning j second hsecond hsecondRunning).symm
      · cases hfirst
  · by_cases hj : place = j
    · rw [if_neg hi] at hfirst
      rw [if_pos hj] at hsecond
      split at hsecond
      · obtain rfl := Option.some.inj hsecond
        exact (hnext hsecondRunning i first hfirst hfirstRunning).trans hj
      · cases hsecond
    · rw [if_neg hi] at hfirst
      rw [if_neg hj] at hsecond
      exact hapart.one i j first second hfirst hsecond hfirstRunning hsecondRunning

/-- The one tick goes on to a state of its own. -/
theorem Apart.others (hapart : Apart s) (hplace : s.loops[place]? = some loop)
    (hrunning : loop.underWay = true) (j : Nat) (other : Loop) (hother : s.loops[j]? = some other)
    (hotherRunning : other.underWay = true) : j = place :=
  hapart.one j place other loop hother hplace hotherRunning hrunning

theorem marks_set {other : Nat} {occurrence : Occurrence} (hmarks : Marks s other occurrence)
    (hplace : ¬ Marks s place occurrence) : Marks (s.set place next) other occurrence := by
  have hne : place ≠ other := by
    rintro rfl
    exact hplace hmarks
  obtain ⟨tick, first, rest, hother, hoccurrence⟩ := hmarks
  exact ⟨tick, first, rest, (List.getElem?_set_ne hne).trans hother, hoccurrence⟩

theorem ReadInv.kept (h : ReadInv s loop) (hnumber : s'.number = s.number)
    (hjobs : ∀ occurrence, HasJob s occurrence → HasJob s' occurrence) : ReadInv s' loop := by
  have hcurrent (dues : List Due) (hread : Current s dues) : Current s' dues := by
    refine ⟨hread.names, fun first hfirst => ?_⟩
    rw [State.current, hnumber]
    exact hread.numbers first hfirst
  cases loop with
  | enqueue tick first rest => exact hcurrent _ h
  | markRan tick first rest => exact ⟨hcurrent _ h.1, hjobs _ h.2⟩
  | seeding remaining => trivial
  | sleeping => trivial
  | due tick => trivial
  | stopped => trivial

theorem readInv_of_rest (h : loop.underWay = false) : ReadInv s loop := by
  cases loop with
  | enqueue tick first rest => cases h
  | markRan tick first rest => cases h
  | _ => trivial

theorem readInv_set (hread : ∀ loop ∈ s.loops, ReadInv s loop) (hnext : ReadInv s next) :
    ∀ loop ∈ (s.set place next).loops, ReadInv (s.set place next) loop := by
  intro loop hloop
  have hkept := Tasks.forall_set (ReadInv s) hread hnext loop hloop
  exact hkept.kept rfl fun _ hjob => hjob

/-- A scheduler that is not about to end an occurrence comes to rest. -/
theorem Apart.settle (hapart : Apart s) (hquiet : ∀ occurrence, ¬ Marks s place occurrence)
    (hnext : next.underWay = false) : Apart (s.set place next) where
  keyed := hapart.keyed
  one := hapart.one_set fun hrunning => by
    rw [hnext] at hrunning
    cases hrunning
  past := by
    intro job hjob
    rcases hapart.past job hjob with hover | ⟨other, hmarks⟩
    · exact .inl hover
    · exact .inr ⟨other, marks_set hmarks (hquiet job.occurrence)⟩
  read := readInv_set hapart.read (readInv_of_rest hnext)

/-- The numbers of other tasks stay when one is rescheduled. -/
theorem Current.reschedule (h : Current s (first :: rest)) (rows : List ScheduledJob) :
    Current (s.reschedule first.row.name rows) rest where
  names := (List.nodup_cons.1 h.names).2
  numbers := by
    intro other hother
    have hne : other.row.name ≠ first.row.name := by
      intro hsame
      have hmem : other.row.name ∈ rest.map fun due => due.row.name := List.mem_map_of_mem hother
      rw [hsame] at hmem
      exact (List.nodup_cons.1 h.names).1 hmem
    have hkept : (s.reschedule first.row.name rows).number other.row.name =
        s.number other.row.name := Function.update_of_ne hne _ _
    rw [State.current, hkept]
    exact h.numbers other (List.mem_cons_of_mem first hother)

theorem readInv_nextTask (tick : Tick) (h : Current s dues) : ReadInv s (nextTask tick dues) := by
  cases dues with
  | nil => trivial
  | cons first rest => exact h

/-- The names of the table are different, so those of what a tick reads are. -/
theorem current_readDue (hkeyed : Table.Keyed ScheduledJob.name s.rows) (now : Int) :
    Current s (readDue s now) where
  names := by
    have hperm := List.perm_insertionSort (fun a b : ScheduledJob => a.name ≤ b.name)
      (s.rows.filter (isDue now))
    have hsame : (readDue s now).map (fun first => first.row.name) =
        (due s.rows now).map ScheduledJob.name := by
      rw [readDue, List.map_map]
      rfl
    rw [hsame, due, (hperm.map ScheduledJob.name).nodup_iff]
    exact hkeyed.sublist (List.Sublist.map ScheduledJob.name List.filter_sublist)
  numbers := by
    intro first hfirst
    obtain ⟨row, -, rfl⟩ := List.mem_map.1 hfirst
    rfl

theorem keyed_seed (h : Table.Keyed ScheduledJob.name s.rows) (name : String)
    (intervalSeconds : Int) : Table.Keyed ScheduledJob.name (seed s.rows name intervalSeconds) := by
  rw [Scheduler.seed]
  split
  · exact h
  · rename_i hnew
    exact h.append hnew

/-- A scheduler whose tick has no job without a write goes on with its tick. -/
theorem Apart.goOn (hapart : Apart s) (hplace : s.loops[place]? = some loop)
    (hrunning : loop.underWay = true) (hpast : AllPast s) (hnext : ReadInv s next) :
    Apart (s.set place next) where
  keyed := hapart.keyed
  one := hapart.one_set fun _ => hapart.others hplace hrunning
  past := fun job hjob => .inl (hpast job hjob)
  read := readInv_set hapart.read hnext

/-- A scheduler that is about to enqueue is not about to end an occurrence, and no other is. -/
theorem Apart.allPast_of_place (hapart : Apart s) (hplace : s.loops[place]? = some loop)
    (hrunning : loop.underWay = true) (hquiet : ∀ occurrence, ¬ Marks s place occurrence) :
    AllPast s := by
  apply hapart.allPast
  rintro other occurrence hmarks
  obtain rfl := hapart.eq_of_marks hplace hrunning hmarks
  exact hquiet occurrence hmarks

theorem not_marks (hplace : s.loops[place]? = some loop)
    (h : ∀ tick first rest, loop ≠ .markRan tick first rest) (occurrence : Occurrence) :
    ¬ Marks s place occurrence := by
  rintro ⟨tick, first, rest, hmarking, -⟩
  exact h tick first rest (Option.some.inj (hplace.symm.trans hmarking))

theorem apart_enqueue (hapart : Apart s)
    (hplace : s.loops[place]? = some (.enqueue tick first rest)) :
    Apart (proceed s place (.enqueue tick first rest)) where
  keyed := hapart.keyed
  one := hapart.one_set fun _ => hapart.others hplace rfl
  past := by
    have hpast := hapart.allPast_of_place hplace rfl (not_marks hplace (by simp))
    intro job hjob
    rcases List.mem_cons.1 hjob with rfl | hbefore
    · exact .inr ⟨place, tick, first, rest, loops_set hplace (.markRan tick first rest), rfl⟩
    · exact .inl (hpast job hbefore)
  read := by
    intro other hother
    have hread := hapart.read (.enqueue tick first rest) (List.mem_of_getElem? hplace)
    rcases List.mem_or_eq_of_mem_set hother with hold | rfl
    · exact (hapart.read other hold).kept rfl fun _ hjob => List.mem_cons_of_mem _ hjob
    · exact ⟨⟨hread.names, hread.numbers⟩, List.mem_cons_self⟩

theorem number_reschedule (s : State) (name other : String) (rows : List ScheduledJob) :
    s.number other ≤ (s.reschedule name rows).number other ∧
      s.number name < (s.reschedule name rows).number name := by
  constructor
  · by_cases hsame : other = name
    · rw [hsame]
      exact (Nat.le_succ _).trans_eq (Function.update_self name _ s.number).symm
    · exact (Function.update_of_ne hsame _ s.number).ge
  · exact (Nat.lt_succ_self _).trans_eq (Function.update_self name _ s.number).symm

theorem AllPast.reschedule (h : AllPast s) (name : String) (rows : List ScheduledJob) :
    AllPast (s.reschedule name rows) := fun job hjob =>
  Nat.lt_of_lt_of_le (h job hjob) (number_reschedule s name job.occurrence.task rows).1

/-- The write of the row ends the occurrence of the job that has been enqueued. -/
theorem apart_markRan (hapart : Apart s)
    (hplace : s.loops[place]? = some (.markRan tick first rest)) :
    Apart (proceed s place (.markRan tick first rest)) where
  keyed := hapart.keyed.update fun _ => rfl
  one := hapart.one_set fun _ => hapart.others hplace rfl
  past := by
    intro job hjob
    apply Or.inl
    rcases hapart.past job hjob with hover | ⟨other, hmarks⟩
    · exact Nat.lt_of_lt_of_le hover
        (number_reschedule s first.row.name job.occurrence.task s.rows).1
    · -- the job is of the occurrence that this write ends
      obtain rfl := hapart.eq_of_marks hplace rfl hmarks
      obtain ⟨_, _, _, hmarking, hoccurrence⟩ := hmarks
      obtain ⟨rfl, rfl, rfl⟩ := Loop.markRan.inj (Option.some.inj (hplace.symm.trans hmarking))
      have hread := hapart.read (.markRan tick first rest) (List.mem_of_getElem? hplace)
      rw [← hoccurrence, hread.1.numbers first List.mem_cons_self]
      exact (number_reschedule s first.row.name first.row.name s.rows).2
  read := by
    intro other hother
    obtain ⟨j, hj⟩ := List.mem_iff_getElem?.1 hother
    have hread := hapart.read (.markRan tick first rest) (List.mem_of_getElem? hplace)
    simp only [proceed, State.set, State.reschedule, List.getElem?_set] at hj
    split at hj
    · split at hj
      · obtain rfl := Option.some.inj hj
        have hrest := readInv_nextTask tick (hread.1.reschedule s.rows)
        exact hrest.kept rfl fun _ hjob => hjob
      · cases hj
    · rename_i hne
      apply readInv_of_rest
      by_contra hrunning
      exact hne (hapart.others hplace rfl j other hj (Bool.eq_true_of_not_eq_false hrunning)).symm

theorem apart_proceed (hapart : Apart s) (hplace : s.loops[place]? = some loop)
    (hquiet : s.loops[place]? = some .sleeping → NoneUnderWay s) :
    Apart (proceed s place loop) := by
  cases loop with
  | seeding remaining =>
    have hrest := not_marks hplace (by simp)
    cases remaining with
    | nil => exact hapart.settle hrest rfl
    | cons task remaining =>
      have hseeded : Apart { s with rows := seed s.rows task.1 task.2 } :=
        ⟨keyed_seed hapart.keyed task.1 task.2, hapart.one, hapart.past,
          fun other hother => (hapart.read other hother).kept rfl fun _ hjob => hjob⟩
      exact hseeded.settle hrest rfl
  | sleeping =>
    have hnone := hquiet hplace
    have hlater : Apart { s with moment := s.moment + 1 } :=
      ⟨hapart.keyed, hapart.one, hapart.past,
        fun other hother => (hapart.read other hother).kept rfl fun _ hjob => hjob⟩
    refine ⟨hapart.keyed, hlater.one_set fun _ j other hother hrunning => ?_, ?_, ?_⟩
    · rw [hnone other (List.mem_of_getElem? hother)] at hrunning
      cases hrunning
    · exact fun job hjob => .inl (hapart.allPast (not_marks_of_none hnone) job hjob)
    · exact readInv_set hlater.read trivial
  | due tick =>
    apply hapart.goOn hplace rfl
    · exact hapart.allPast_of_place hplace rfl (not_marks hplace (by simp))
    · exact readInv_nextTask tick (current_readDue hapart.keyed tick.now)
  | enqueue tick first rest => exact apart_enqueue hapart hplace
  | markRan tick first rest => exact apart_markRan hapart hplace
  | stopped => exact hapart

/-- A new scheduler is not under way. -/
theorem apart_spawn (hapart : Apart s) (tasks : List (String × Int)) :
    Apart { s with loops := s.loops ++ [.seeding tasks] } := by
  have hold (i : Nat) (first : Loop) (hfirst : (s.loops ++ [.seeding tasks])[i]? = some first)
      (hrunning : first.underWay = true) : s.loops[i]? = some first := by
    rw [List.getElem?_append] at hfirst
    split at hfirst
    · exact hfirst
    · obtain rfl := List.mem_singleton.1 (List.mem_of_getElem? hfirst)
      cases hrunning
  refine ⟨hapart.keyed, ?_, ?_, ?_⟩
  · intro i j first second hfirst hsecond hfirstRunning hsecondRunning
    apply hapart.one i j first second
    · exact hold i first hfirst hfirstRunning
    · exact hold j second hsecond hsecondRunning
    · exact hfirstRunning
    · exact hsecondRunning
  · intro job hjob
    rcases hapart.past job hjob with hover | ⟨place, tick, first, rest, hplace, hoccurrence⟩
    · exact .inl hover
    · obtain ⟨hbound, -⟩ := List.getElem?_eq_some_iff.1 hplace
      exact .inr ⟨place, tick, first, rest,
        (List.getElem?_append_left hbound).trans hplace, hoccurrence⟩
  · intro other hother
    rcases List.mem_append.1 hother with hbefore | hlast
    · exact (hapart.read other hbefore).kept rfl fun _ hjob => hjob
    · obtain rfl := List.mem_singleton.1 hlast
      trivial

theorem apart_step (hapart : Apart s) {a : Step} (hquiet : Quiet s a) : Apart (step s a) := by
  cases a with
  | spawn tasks => exact apart_spawn hapart tasks
  | proceed place =>
    simp only [step]
    cases hplace : s.loops[place]? with
    | none => exact hapart
    | some loop => exact apart_proceed hapart hplace hquiet
  | fails place =>
    simp only [step]
    cases hplace : s.loops[place]? with
    | none => exact hapart
    | some loop =>
      apply hapart.settle hquiet
      cases loop <;> rfl
  | stops place => exact hapart.settle hquiet rfl
  | runNow name =>
    have hpast := hapart.allPast (not_marks_of_none hquiet.1)
    refine ⟨hapart.keyed.update fun _ => rfl, hapart.one, ?_, ?_⟩
    · exact fun job hjob => .inl (hpast.reschedule name _ job hjob)
    · exact fun other hother => readInv_of_rest (hquiet.1 other hother)
  | setEnabled name enabled =>
    exact ⟨hapart.keyed.update fun _ => rfl, hapart.one, hapart.past,
      fun other hother => (hapart.read other hother).kept rfl fun _ hjob => hjob⟩
  | wait seconds =>
    exact ⟨hapart.keyed, hapart.one, hapart.past,
      fun other hother => (hapart.read other hother).kept rfl fun _ hjob => hjob⟩

/-- What has been read is enqueued for the first time, and the row that is written is the one whose
job has been enqueued. -/
theorem stepFits_of_apart (hapart : Apart s) {a : Step} (hquiet : Quiet s a) : StepFits s a := by
  cases a with
  | proceed place =>
    intro loop hplace
    have hread := hapart.read loop (List.mem_of_getElem? hplace)
    cases loop with
    | enqueue tick first rest =>
      intro hjob
      obtain ⟨job, hmem, hoccurrence⟩ := List.mem_map.1 hjob
      have hpast := hapart.allPast_of_place hplace rfl (not_marks hplace (by simp)) job hmem
      rw [hoccurrence, hread.numbers first List.mem_cons_self] at hpast
      exact absurd hpast (Nat.lt_irrefl _)
    | markRan tick first rest =>
      rintro ⟨-, hnone⟩
      rw [← hread.1.numbers first List.mem_cons_self] at hnone
      exact hnone hread.2
    | seeding remaining => trivial
    | sleeping => trivial
    | due tick => trivial
    | stopped => trivial
  | runNow name => exact fun hwaiting => hquiet.2 hwaiting.1
  | spawn tasks => trivial
  | fails place => trivial
  | stops place => trivial
  | setEnabled name enabled => trivial
  | wait seconds => trivial

end Apart

theorem apart_start (now : Int) : Apart (start now) where
  keyed := List.nodup_nil
  one i j first second hfirst := by simp [start] at hfirst
  past _ hjob := absurd hjob List.not_mem_nil
  read _ hloop := absurd hloop List.not_mem_nil

/-- In a run of quiet steps every step fits. -/
theorem fits_of_quiet (now : Int) (steps : List Step)
    (h : Runs.Throughout step Quiet (start now) steps) :
    Runs.Throughout step StepFits (start now) steps := by
  intro earlier a later hsteps
  have hearlier : Runs.Throughout step Quiet (start now) earlier := by
    rw [hsteps] at h
    exact (Runs.throughout_append.1 h).1
  have hkeep (s : State) (a : Step) (hapart : Apart s) (hquiet : Quiet s a) : Apart (step s a) :=
    apart_step hapart hquiet
  have hapart := Runs.invariant hkeep (apart_start now) hearlier
  exact stepFits_of_apart hapart (h earlier a later hsteps)

end Edda.Jobs.Scheduler
