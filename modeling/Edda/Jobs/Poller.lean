import Edda.Db.JobRepo
import Edda.Support.Runs

/-!
# The job poller

A poller selects the jobs that are due, claims one after the other, and then starts a task for each
job it has claimed. A task runs the handler of the job and closes the job with one more statement.
Any number of pollers run, any statement can fail, and a poller can stop at any point.

`noJobLost_iff` says in which runs every job stays finished, claimable or in the hands of a poller,
and `stuck_forever` that a job that is in nobody's hands stays so.
-/

set_option autoImplicit false

namespace Edda.Jobs.JobPoller

open Edda.Db Edda.Support

variable {π : Type}

/-- What a poller has in hand: the jobs it still goes over to claim them, those it has claimed and
not started yet, and those whose tasks run. -/
structure Poller (π : Type) where
  candidates : List (JobRecord π)
  claimed : List (JobRecord π)
  inFlight : List (JobRecord π)
  draining : Bool

def Poller.start : Poller π := ⟨[], [], [], false⟩

def Poller.held (poller : Poller π) : List (JobRecord π) := poller.claimed ++ poller.inFlight

/-- How the handler of a job ends. An error that leaves attempts comes with the time of the next. -/
inductive Outcome where
  | noHandler
  | ok
  | error (text : String) (retryAt : Int)
  deriving DecidableEq, Repr

/-- The statement that closes a job. -/
def runOne (rows : List (JobRecord π)) (job : JobRecord π) : Outcome → List (JobRecord π)
  | .noHandler => JobRepo.markDead rows job.id job.attempts "no handler registered"
  | .ok => JobRepo.markSucceeded rows job.id
  | .error text retryAt =>
    if job.maxAttempts ≤ job.attempts + 1 then
      JobRepo.markDead rows job.id (job.attempts + 1) text
    else JobRepo.markRetry rows job.id (job.attempts + 1) retryAt text

/-- `enqueued` and `deleted` are the jobs that ever were. -/
structure State (π : Type) where
  rows : List (JobRecord π)
  pollers : List (Poller π)
  enqueued : List JobId
  deleted : List JobId

def State.start : State π := ⟨[], [], [], []⟩

/-- The steps that name a poller do so by its place. -/
inductive Step (π : Type) where
  | enqueue (id : JobId) (payload : π) (runAt : Int) (maxAttempts : Nat) (now : Int)
  | requeue (id : JobId) (now : Int)
  | delete (id : JobId)
  | start
  | select (place : Nat) (now : Int) (limit : Nat)
  | claim (place : Nat)
  | claimFails (place : Nat)
  | spawn (place : Nat)
  | finish (place : Nat) (task : Nat) (outcome : Outcome)
  | loseTask (place : Nat) (task : Nat)
  | shutdown (place : Nat)
  | exit (place : Nat)
  | crash (place : Nat)

def step (s : State π) : Step π → State π
  | .enqueue id payload runAt maxAttempts now =>
    -- a new id was never used before
    if id ∈ s.enqueued then s
    else { s with
      rows := JobRepo.enqueue s.rows id payload runAt maxAttempts now
      enqueued := s.enqueued ++ [id] }
  | .requeue id now => { s with rows := JobRepo.requeue s.rows id now }
  | .delete id =>
    let rows := JobRepo.delete s.rows id
    { s with
      rows := rows
      deleted := if rows.length < s.rows.length then s.deleted ++ [id] else s.deleted }
  | .start => { s with pollers := s.pollers ++ [.start] }
  | .select place now limit => match s.pollers[place]? with
    | some ⟨[], [], inFlight, false⟩ =>
      let candidates := (JobRepo.dueJobs s.rows now).take limit
      { s with pollers := s.pollers.set place ⟨candidates, [], inFlight, false⟩ }
    | _ => s
  | .claim place => match s.pollers[place]? with
    | some ⟨job :: candidates, claimed, inFlight, draining⟩ =>
      match JobRepo.claim s.rows job.id with
      | (rows, 0) =>
        { s with
          rows := rows
          pollers := s.pollers.set place ⟨candidates, claimed, inFlight, draining⟩ }
      | (rows, _ + 1) =>
        let claimed := claimed ++ [{ job with status := .running }]
        { s with
          rows := rows
          pollers := s.pollers.set place ⟨candidates, claimed, inFlight, draining⟩ }
    | _ => s
  -- the error leaves `claim_batch` with what it has claimed so far
  | .claimFails place => match s.pollers[place]? with
    | some ⟨_ :: _, _, inFlight, draining⟩ =>
      { s with pollers := s.pollers.set place ⟨[], [], inFlight, draining⟩ }
    | _ => s
  | .spawn place => match s.pollers[place]? with
    | some ⟨[], job :: claimed, inFlight, draining⟩ =>
      { s with pollers := s.pollers.set place ⟨[], claimed, inFlight ++ [job], draining⟩ }
    | _ => s
  | .finish place task outcome => match s.pollers[place]? with
    | none => s
    | some poller => match poller.inFlight[task]? with
      | none => s
      | some job =>
        let poller := { poller with inFlight := poller.inFlight.eraseIdx task }
        { s with rows := runOne s.rows job outcome, pollers := s.pollers.set place poller }
  -- the error of the statement that closes the job is ignored, or the handler panics
  | .loseTask place task => match s.pollers[place]? with
    | none => s
    | some poller =>
      let poller := { poller with inFlight := poller.inFlight.eraseIdx task }
      { s with pollers := s.pollers.set place poller }
  | .shutdown place => match s.pollers[place]? with
    | some ⟨[], [], inFlight, _⟩ =>
      { s with pollers := s.pollers.set place ⟨[], [], inFlight, true⟩ }
    | _ => s
  -- the tasks are through, or the grace period is
  | .exit place => match s.pollers[place]? with
    | some ⟨_, _, _, true⟩ => { s with pollers := s.pollers.eraseIdx place }
    | _ => s
  | .crash place => { s with pollers := s.pollers.eraseIdx place }

/-! ## What it means to lose a job -/

/-- The jobs in the hands of a live poller. -/
def State.held (s : State π) : List (JobRecord π) := s.pollers.flatMap Poller.held

/-- A job that a poll after its time finds. -/
def Claimable (rows : List (JobRecord π)) (row : JobRecord π) : Prop :=
  ∀ now, row.runAt ≤ now → row ∈ JobRepo.dueJobs rows now

/-- The job is finished, or a poll finds it in time, or a live poller has it in hand. -/
def Safe (s : State π) (row : JobRecord π) : Prop :=
  row.status = .succeeded ∨ row.status = .failed ∨ Claimable s.rows row ∨
    row.status = .running ∧ row.id ∈ s.held.map JobRecord.id

def NoJobLost (s : State π) : Prop :=
  ∀ id ∈ s.enqueued, id ∈ s.deleted ∨ ∃ row ∈ s.rows, row.id = id ∧ Safe s row

/-- No claimed job is let go: a claim that fails is the first of its batch, no task ends without its
closing statement, and a poller that stops has no job in hand. -/
def StepFits (s : State π) : Step π → Prop
  | .claimFails place => ∀ poller, s.pollers[place]? = some poller → poller.candidates ≠ [] →
    poller.claimed = []
  | .loseTask place task => ∀ poller, s.pollers[place]? = some poller →
    poller.inFlight.length ≤ task
  | .exit place => ∀ poller, s.pollers[place]? = some poller → poller.draining = true →
    poller.held = []
  | .crash place => ∀ poller, s.pollers[place]? = some poller → poller.held = []
  | _ => True

/-! ## The jobs that run, and the jobs that are held -/

section Rows

variable {rows : List (JobRecord π)} {id other : JobId}

/-- The row of the job says that it runs. -/
def Running (rows : List (JobRecord π)) (id : JobId) : Prop :=
  ∃ row ∈ rows, row.id = id ∧ row.status = .running

theorem mem_update {selected : JobRecord π → Bool} {set : JobRecord π → JobRecord π}
    {row : JobRecord π} :
    row ∈ Table.update rows selected set ↔
      ∃ old ∈ rows, row = if selected old then set old else old := by
  simp only [Table.update, List.mem_map, eq_comm]

/-- A statement that lets no row run that did not stops the rows it selects. -/
theorem running_update_of_stops {selected : JobRecord π → Bool} {set : JobRecord π → JobRecord π}
    (hset : ∀ row, (set row).status ≠ .running) :
    Running (Table.update rows selected set) other ↔
      ∃ row ∈ rows, row.id = other ∧ row.status = .running ∧ selected row = false := by
  simp only [Running, mem_update]
  constructor
  · rintro ⟨row, ⟨old, hold, rfl⟩, hid, hrunning⟩
    by_cases hselected : selected old = true
    · rw [if_pos hselected] at hrunning
      exact absurd hrunning (hset old)
    · rw [if_neg hselected] at hid hrunning
      exact ⟨old, hold, hid, hrunning, by simpa using hselected⟩
  · rintro ⟨row, hrow, hid, hrunning, hselected⟩
    exact ⟨row, ⟨row, hrow, by rw [hselected]; rfl⟩, hid, hrunning⟩

theorem running_runOne (job : JobRecord π) (outcome : Outcome) :
    Running (runOne rows job outcome) other ↔ Running rows other ∧ other ≠ job.id := by
  have hclosed : ∀ set : JobRecord π → JobRecord π, (∀ row, (set row).status ≠ .running) →
      (Running (Table.update rows (JobRepo.withId job.id fun _ => true) set) other ↔
        Running rows other ∧ other ≠ job.id) := by
    intro set hset
    rw [running_update_of_stops hset]
    constructor
    · rintro ⟨row, hrow, rfl, hrunning, hselected⟩
      refine ⟨⟨row, hrow, rfl, hrunning⟩, ?_⟩
      simpa [JobRepo.withId] using hselected
    · rintro ⟨⟨row, hrow, rfl, hrunning⟩, hne⟩
      exact ⟨row, hrow, rfl, hrunning, by simpa [JobRepo.withId] using hne⟩
  cases outcome with
  | noHandler => exact hclosed _ fun row => by simp
  | ok => exact hclosed _ fun row => by simp
  | error text retryAt =>
    simp only [runOne]
    split
    · exact hclosed _ fun row => by simp
    · exact hclosed _ fun row => by simp

theorem running_requeue (now : Int) :
    Running (JobRepo.requeue rows id now) other ↔ Running rows other := by
  rw [JobRepo.requeue, running_update_of_stops fun row => by simp]
  constructor
  · rintro ⟨row, hrow, hid, hrunning, -⟩
    exact ⟨row, hrow, hid, hrunning⟩
  · rintro ⟨row, hrow, hid, hrunning⟩
    exact ⟨row, hrow, hid, hrunning, by simp [JobRepo.withId, hrunning]⟩

theorem running_delete : Running (JobRepo.delete rows id) other ↔ Running rows other := by
  simp only [Running, JobRepo.delete, List.mem_filter]
  constructor
  · rintro ⟨row, ⟨hrow, -⟩, hid, hrunning⟩
    exact ⟨row, hrow, hid, hrunning⟩
  · rintro ⟨row, hrow, hid, hrunning⟩
    exact ⟨row, ⟨hrow, by simp [JobRepo.withId, hrunning]⟩, hid, hrunning⟩

theorem running_enqueue (payload : π) (runAt : Int) (maxAttempts : Nat) (now : Int) :
    Running (JobRepo.enqueue rows id payload runAt maxAttempts now) other ↔
      Running rows other := by
  simp only [JobRepo.enqueue]
  split
  · exact Iff.rfl
  · simp [Running, List.mem_append]

/-- A claim that affects a row has found the job pending, and lets it run. -/
theorem running_claim (hkeys : Table.Keyed JobRecord.id rows)
    (haffected : 0 < (JobRepo.claim rows id).2) :
    ¬ Running rows id ∧
      ∀ other, Running (JobRepo.claim rows id).1 other ↔ Running rows other ∨ other = id := by
  obtain ⟨row, hrow, hselected⟩ := (Table.affected_pos hkeys (k := id) (by
    simp +contextual [JobRepo.withId])).1 haffected
  obtain ⟨hmem, hid⟩ := Table.mem_of_lookup hrow
  have hpending : row.status = .pending := by
    simpa [JobRepo.withId, hid] using hselected
  refine ⟨?_, ?_⟩
  · rintro ⟨row', hmem', hid', hrunning⟩
    obtain rfl := List.inj_on_of_nodup_map hkeys hmem' hmem (hid'.trans hid.symm)
    rw [hpending] at hrunning
    cases hrunning
  · intro other
    simp only [Running, JobRepo.claim, mem_update]
    constructor
    · rintro ⟨row', ⟨old, hold, rfl⟩, hid', hrunning⟩
      split at hid'
      · rename_i hclaimed
        have hselects : old.id = id ∧ old.status = .pending := by
          simpa [JobRepo.withId] using hclaimed
        exact Or.inr (hid'.symm.trans hselects.1)
      · rename_i hclaimed
        rw [if_neg hclaimed] at hrunning
        exact Or.inl ⟨old, hold, hid', hrunning⟩
    · rintro (⟨old, hold, hid', hrunning⟩ | rfl)
      · refine ⟨old, ⟨old, hold, ?_⟩, hid', hrunning⟩
        rw [if_neg (by simp [JobRepo.withId, hrunning])]
      · exact ⟨{ row with status := .running }, ⟨row, hmem, by rw [if_pos hselected]⟩, hid, rfl⟩

/-- A claim that affects no row changes nothing. -/
theorem claim_of_not_affected (h : (JobRepo.claim rows id).2 = 0) :
    (JobRepo.claim rows id).1 = rows := by
  simp only [JobRepo.claim, Table.affected, List.countP_eq_zero] at h
  simp only [JobRepo.claim, Table.update]
  conv_rhs => rw [← List.map_id rows]
  refine List.map_congr_left fun row hrow => ?_
  rw [if_neg (h row hrow)]
  rfl

end Rows

section Held

variable {s : State π} {a : Step π} {place : Nat}

def State.heldIds (s : State π) : List JobId := s.held.map JobRecord.id

/-- The jobs in the hands of the other pollers. -/
def others (s : State π) (place : Nat) : List JobId :=
  ((s.pollers.eraseIdx place).flatMap Poller.held).map JobRecord.id

/-- A poller and the others hold what is held. -/
theorem heldIds_perm {poller : Poller π} (h : s.pollers[place]? = some poller) :
    s.heldIds.Perm (poller.held.map JobRecord.id ++ others s place) := by
  obtain ⟨hlt, rfl⟩ := List.getElem?_eq_some_iff.1 h
  rw [others, ← List.map_append]
  have hperm := (List.getElem_cons_eraseIdx_perm hlt).symm.flatMap_right Poller.held
  exact hperm.map JobRecord.id

theorem heldIds_set {poller : Poller π} (h : s.pollers[place]? = some poller)
    (rows : List (JobRecord π)) (next : Poller π) :
    { s with rows := rows, pollers := s.pollers.set place next }.heldIds.Perm
      (next.held.map JobRecord.id ++ others s place) := by
  obtain ⟨hlt, rfl⟩ := List.getElem?_eq_some_iff.1 h
  rw [others, ← List.map_append]
  have hperm := (List.set_perm_cons_eraseIdx hlt next).flatMap_right Poller.held
  exact hperm.map JobRecord.id

/-- A poller that comes to hold the jobs it held has let nothing go. -/
theorem heldIds_set_same {poller next : Poller π} (h : s.pollers[place]? = some poller)
    (rows : List (JobRecord π))
    (hheld : (next.held.map JobRecord.id).Perm (poller.held.map JobRecord.id)) :
    s.heldIds.Perm { s with rows := rows, pollers := s.pollers.set place next }.heldIds :=
  (heldIds_perm h).trans ((hheld.append_right _).symm.trans (heldIds_set h rows next).symm)

/-- A step lets jobs go, none if it fits, or claims a job, or finishes one. -/
inductive Effect (s : State π) (a : Step π) : Prop where
  | lets (lost : List JobId) (hfits : StepFits s a ↔ lost = [])
      (hrunning : ∀ id, Running (step s a).rows id ↔ Running s.rows id)
      (hheld : s.heldIds.Perm (lost ++ (step s a).heldIds))
  | claims (id : JobId) (hfits : StepFits s a) (hfree : ¬ Running s.rows id)
      (hrunning : ∀ other, Running (step s a).rows other ↔ Running s.rows other ∨ other = id)
      (hheld : (step s a).heldIds.Perm (id :: s.heldIds))
  | finishes (id : JobId) (hfits : StepFits s a)
      (hrunning : ∀ other, Running (step s a).rows other ↔ Running s.rows other ∧ other ≠ id)
      (hheld : s.heldIds.Perm (id :: (step s a).heldIds))

theorem Effect.keeps (hfits : StepFits s a)
    (hrunning : ∀ id, Running (step s a).rows id ↔ Running s.rows id)
    (hheld : s.heldIds.Perm (step s a).heldIds) : Effect s a :=
  .lets [] ⟨fun _ => rfl, fun _ => hfits⟩ hrunning hheld

theorem effect (hkeys : Table.Keyed JobRecord.id s.rows) (a : Step π) : Effect s a := by
  cases a with
  | enqueue id payload runAt maxAttempts now =>
    refine .keeps trivial (fun other => ?_) ?_
    · simp only [step]
      split
      · exact Iff.rfl
      · exact running_enqueue payload runAt maxAttempts now
    · simp only [step]
      split <;> exact List.Perm.refl _
  | requeue id now => exact .keeps trivial (fun other => running_requeue now) (List.Perm.refl _)
  | delete id => exact .keeps trivial (fun other => running_delete) (List.Perm.refl _)
  | start =>
    refine .keeps trivial (fun other => Iff.rfl) ?_
    simp [step, State.heldIds, State.held, Poller.held, Poller.start]
  | select place now limit =>
    refine .keeps trivial (fun other => ?_) ?_
    · simp only [step]
      split <;> exact Iff.rfl
    · simp only [step]
      split
      · rename_i inFlight hpoller
        exact heldIds_set_same hpoller s.rows (List.Perm.refl _)
      · exact List.Perm.refl _
  | shutdown place =>
    refine .keeps trivial (fun other => ?_) ?_
    · simp only [step]
      split <;> exact Iff.rfl
    · simp only [step]
      split
      · rename_i inFlight draining hpoller
        exact heldIds_set_same hpoller s.rows (List.Perm.refl _)
      · exact List.Perm.refl _
  | spawn place =>
    refine .keeps trivial (fun other => ?_) ?_
    · simp only [step]
      split <;> exact Iff.rfl
    · simp only [step]
      split
      · rename_i job claimed inFlight draining hpoller
        refine heldIds_set_same hpoller s.rows (List.Perm.map _ ?_)
        simp only [Poller.held]
        rw [← List.append_assoc]
        exact (List.perm_append_singleton job _)
      · exact List.Perm.refl _
  | claim place =>
    cases hpoller : s.pollers[place]? with
    | none =>
      have hstep : step s (.claim place) = s := by simp only [step, hpoller]
      exact .keeps trivial (fun other => by rw [hstep]) (by rw [hstep])
    | some poller =>
      obtain ⟨candidates, claimed, inFlight, draining⟩ := poller
      cases candidates with
      | nil =>
        have hstep : step s (.claim place) = s := by simp only [step, hpoller]
        exact .keeps trivial (fun other => by rw [hstep]) (by rw [hstep])
      | cons job candidates =>
        cases hclaim : JobRepo.claim s.rows job.id with
        | mk rows affected =>
          cases affected with
          | zero =>
            have hrows : rows = s.rows := by
              have hsame := claim_of_not_affected (congrArg Prod.snd hclaim)
              rwa [hclaim] at hsame
            refine .keeps trivial (fun other => ?_) ?_
            · simp only [step, hpoller, hclaim, hrows]
            · simp only [step, hpoller, hclaim]
              exact heldIds_set_same hpoller rows (List.Perm.refl _)
          | succ n =>
            have haffected : 0 < (JobRepo.claim s.rows job.id).2 := by
              rw [hclaim]
              exact Nat.succ_pos n
            obtain ⟨hfree, hrunning⟩ := running_claim hkeys haffected
            rw [hclaim] at hrunning
            refine .claims job.id trivial hfree (fun other => ?_) ?_
            · simp only [step, hpoller, hclaim]
              exact hrunning other
            · simp only [step, hpoller, hclaim]
              refine (heldIds_set hpoller rows _).trans ?_
              refine List.Perm.trans ?_ ((heldIds_perm hpoller).symm.cons job.id)
              rw [← List.cons_append]
              refine List.Perm.append_right _ ?_
              simp only [Poller.held, List.map_append, List.map_cons, List.map_nil]
              rw [List.append_assoc]
              exact List.perm_middle
  | finish place task outcome =>
    cases hpoller : s.pollers[place]? with
    | none =>
      have hstep : step s (.finish place task outcome) = s := by simp only [step, hpoller]
      exact .keeps trivial (fun other => by rw [hstep]) (by rw [hstep])
    | some poller =>
      cases htask : poller.inFlight[task]? with
      | none =>
        have hstep : step s (.finish place task outcome) = s := by
          simp only [step, hpoller, htask]
        exact .keeps trivial (fun other => by rw [hstep]) (by rw [hstep])
      | some job =>
        refine .finishes job.id trivial (fun other => ?_) ?_
        · simp only [step, hpoller, htask]
          exact running_runOne job outcome
        · simp only [step, hpoller, htask]
          refine (heldIds_perm hpoller).trans ?_
          refine List.Perm.trans ?_ ((heldIds_set hpoller _ _).symm.cons job.id)
          rw [← List.cons_append]
          refine List.Perm.append_right _ ?_
          obtain ⟨hlt, rfl⟩ := List.getElem?_eq_some_iff.1 htask
          have hperm := (List.getElem_cons_eraseIdx_perm hlt).symm
          simp only [Poller.held]
          exact ((hperm.append_left poller.claimed).trans List.perm_middle).map JobRecord.id
  | claimFails place =>
    cases hpoller : s.pollers[place]? with
    | none =>
      have hstep : step s (.claimFails place) = s := by simp only [step, hpoller]
      refine .keeps ?_ (fun other => by rw [hstep]) (by rw [hstep])
      simp [StepFits, hpoller]
    | some poller =>
      obtain ⟨candidates, claimed, inFlight, draining⟩ := poller
      cases candidates with
      | nil =>
        have hstep : step s (.claimFails place) = s := by simp only [step, hpoller]
        refine .keeps ?_ (fun other => by rw [hstep]) (by rw [hstep])
        simp [StepFits, hpoller]
      | cons job candidates =>
        refine .lets (claimed.map JobRecord.id) ?_ (fun other => ?_) ?_
        · simp [StepFits, hpoller]
        · simp only [step, hpoller]
        · simp only [step, hpoller]
          refine (heldIds_perm hpoller).trans ?_
          refine List.Perm.trans ?_ ((heldIds_set hpoller s.rows _).symm.append_left _)
          simp [Poller.held]
  | loseTask place task =>
    cases hpoller : s.pollers[place]? with
    | none =>
      have hstep : step s (.loseTask place task) = s := by simp only [step, hpoller]
      refine .keeps ?_ (fun other => by rw [hstep]) (by rw [hstep])
      simp [StepFits, hpoller]
    | some poller =>
      refine .lets (poller.inFlight[task]?.toList.map JobRecord.id) ?_ (fun other => ?_) ?_
      · simp [StepFits, hpoller]
      · simp only [step, hpoller]
      · simp only [step, hpoller]
        refine (heldIds_perm hpoller).trans ?_
        refine List.Perm.trans ?_ ((heldIds_set hpoller s.rows _).symm.append_left _)
        rw [← List.append_assoc, ← List.map_append]
        refine (List.Perm.map JobRecord.id ?_).append_right _
        simp only [Poller.held]
        cases htask : poller.inFlight[task]? with
        | none => rw [List.eraseIdx_of_length_le (List.getElem?_eq_none_iff.1 htask)]; rfl
        | some job =>
          obtain ⟨hlt, rfl⟩ := List.getElem?_eq_some_iff.1 htask
          have hperm := (List.getElem_cons_eraseIdx_perm hlt).symm
          exact (hperm.append_left poller.claimed).trans List.perm_middle
  | exit place =>
    cases hpoller : s.pollers[place]? with
    | none =>
      have hstep : step s (.exit place) = s := by simp only [step, hpoller]
      refine .keeps ?_ (fun other => by rw [hstep]) (by rw [hstep])
      simp [StepFits, hpoller]
    | some poller =>
      obtain ⟨candidates, claimed, inFlight, draining⟩ := poller
      cases draining with
      | false =>
        have hstep : step s (.exit place) = s := by simp only [step, hpoller]
        refine .keeps ?_ (fun other => by rw [hstep]) (by rw [hstep])
        simp [StepFits, hpoller]
      | true =>
        refine .lets ((claimed ++ inFlight).map JobRecord.id) ?_ (fun other => ?_) ?_
        · simp [StepFits, hpoller, Poller.held]
        · simp only [step, hpoller]
        · simp only [step, hpoller]
          exact heldIds_perm hpoller
  | crash place =>
    cases hpoller : s.pollers[place]? with
    | none =>
      refine .keeps ?_ (fun other => Iff.rfl) ?_
      · simp [StepFits, hpoller]
      · simp only [step, List.eraseIdx_of_length_le (List.getElem?_eq_none_iff.1 hpoller)]
        exact List.Perm.refl _
    | some poller =>
      refine .lets (poller.held.map JobRecord.id) ?_ (fun other => Iff.rfl) (heldIds_perm hpoller)
      simp [StepFits, hpoller]

end Held

/-! ## What a run keeps -/

section Runs

variable {s : State π} {a : Step π}

/-- Every job that is held runs, and is held once. -/
structure HeldRun (s : State π) : Prop where
  keyed : Table.Keyed JobRecord.id s.rows
  nodup : s.heldIds.Nodup
  running : ∀ id ∈ s.heldIds, Running s.rows id

/-- Every job that runs is held. -/
def RunHeld (s : State π) : Prop := ∀ id, Running s.rows id → id ∈ s.heldIds

/-- Every job that was enqueued has a row, unless it was deleted. -/
structure Accounted (s : State π) : Prop where
  enqueued : ∀ id, id ∈ s.rows.map JobRecord.id → id ∈ s.enqueued
  accounted : ∀ id ∈ s.enqueued, id ∈ s.deleted ∨ id ∈ s.rows.map JobRecord.id
  deleted : ∀ id ∈ s.deleted, id ∈ s.enqueued ∧ id ∉ s.rows.map JobRecord.id

theorem ids_runOne (rows : List (JobRecord π)) (job : JobRecord π) (outcome : Outcome) :
    (runOne rows job outcome).map JobRecord.id = rows.map JobRecord.id := by
  cases outcome with
  | noHandler => exact Table.keys_update fun _ => rfl
  | ok => exact Table.keys_update fun _ => rfl
  | error text retryAt =>
    simp only [runOne]
    split
    · exact Table.keys_update fun _ => rfl
    · exact Table.keys_update fun _ => rfl

/-- A deletion takes the row of a job that does not run, or changes nothing. -/
theorem delete_cases {rows : List (JobRecord π)} (hkeys : Table.Keyed JobRecord.id rows)
    (id : JobId) :
    JobRepo.delete rows id = rows ∨
      id ∈ rows.map JobRecord.id ∧ (JobRepo.delete rows id).length < rows.length ∧
        (JobRepo.delete rows id).map JobRecord.id =
          (rows.map JobRecord.id).filter fun other => other ≠ id := by
  by_cases hfound : ∃ row ∈ rows, row.id = id ∧ row.status ≠ .running
  · obtain ⟨row, hrow, hid, hstopped⟩ := hfound
    refine Or.inr ⟨List.mem_map.2 ⟨row, hrow, hid⟩, ?_, ?_⟩
    · refine List.length_filter_lt_length_iff_exists.2 ⟨row, hrow, ?_⟩
      simp [JobRepo.withId, hid, hstopped]
    · rw [List.filter_map]
      refine congrArg (List.map JobRecord.id) (List.filter_congr fun other hother => ?_)
      simp only [JobRepo.withId, Function.comp, ne_eq]
      by_cases hsame : other.id = id
      · obtain rfl := List.inj_on_of_nodup_map hkeys hother hrow (hsame.trans hid.symm)
        simp [hsame, hstopped]
      · simp [hsame]
  · refine Or.inl (List.filter_eq_self.2 fun row hrow => ?_)
    simp only [not_exists, not_and, ne_eq, not_not] at hfound
    simp only [JobRepo.withId, Bool.not_eq_true', Bool.and_eq_false_imp, decide_eq_true_eq,
      decide_eq_false_iff_not, ne_eq, not_not]
    exact fun hid => hfound row hrow hid

/-- What a step does to the jobs that have a row. -/
theorem ids_step (hkeys : Table.Keyed JobRecord.id s.rows) (h : Accounted s) (a : Step π) :
    ((step s a).rows.map JobRecord.id = s.rows.map JobRecord.id ∧
        (step s a).enqueued = s.enqueued ∧ (step s a).deleted = s.deleted) ∨
      (∃ id, id ∉ s.enqueued ∧ (step s a).rows.map JobRecord.id = s.rows.map JobRecord.id ++ [id] ∧
        (step s a).enqueued = s.enqueued ++ [id] ∧ (step s a).deleted = s.deleted) ∨
      ∃ id, id ∈ s.rows.map JobRecord.id ∧
        (step s a).rows.map JobRecord.id =
          ((s.rows.map JobRecord.id).filter fun other => other ≠ id) ∧
        (step s a).enqueued = s.enqueued ∧ (step s a).deleted = s.deleted ++ [id] := by
  cases a with
  | enqueue id payload runAt maxAttempts now =>
    simp only [step]
    split
    · exact Or.inl ⟨rfl, rfl, rfl⟩
    · rename_i hnew
      have hrow : id ∉ s.rows.map JobRecord.id := fun hmem => hnew (h.enqueued id hmem)
      refine Or.inr (Or.inl ⟨id, hnew, ?_, rfl, rfl⟩)
      rw [JobRepo.enqueue, if_neg hrow, List.map_append]
      rfl
  | delete id =>
    dsimp only [step]
    rcases delete_cases hkeys id with hsame | ⟨hmem, hlt, hids⟩
    · rw [hsame, if_neg (lt_irrefl _)]
      exact Or.inl ⟨rfl, rfl, rfl⟩
    · rw [if_pos hlt]
      exact Or.inr (Or.inr ⟨id, hmem, hids, rfl, rfl⟩)
  | requeue id now => exact Or.inl ⟨Table.keys_update fun _ => rfl, rfl, rfl⟩
  | start | crash place => exact Or.inl ⟨rfl, rfl, rfl⟩
  | select _ _ _ | claimFails _ | spawn _ | loseTask _ _ | shutdown _ | exit _ =>
    simp only [step]
    split <;> exact Or.inl ⟨rfl, rfl, rfl⟩
  | claim place =>
    have hclaim : ∀ id, (JobRepo.claim s.rows id).1.map JobRecord.id = s.rows.map JobRecord.id :=
      fun id => Table.keys_update fun _ => rfl
    simp only [step]
    split
    · split
      · rename_i job _ _ _ _ _ _ rows heq
        exact Or.inl ⟨by rw [← hclaim job.id, heq], rfl, rfl⟩
      · rename_i job _ _ _ _ _ _ rows n heq
        exact Or.inl ⟨by rw [← hclaim job.id, heq], rfl, rfl⟩
    · exact Or.inl ⟨rfl, rfl, rfl⟩
  | finish place task outcome =>
    simp only [step]
    split
    · exact Or.inl ⟨rfl, rfl, rfl⟩
    · split
      · exact Or.inl ⟨rfl, rfl, rfl⟩
      · rename_i job _
        exact Or.inl ⟨ids_runOne s.rows job outcome, rfl, rfl⟩

theorem heldRun_step (h : HeldRun s) (haccounted : Accounted s) : HeldRun (step s a) := by
  have hkeyed : Table.Keyed JobRecord.id (step s a).rows := by
    rw [Table.Keyed]
    rcases ids_step h.keyed haccounted a with ⟨hids, -, -⟩ | ⟨id, hnew, hids, -, -⟩ |
      ⟨id, -, hids, -, -⟩
    · exact hids ▸ h.keyed
    · rw [hids]
      refine List.nodup_append.2 ⟨h.keyed, List.nodup_singleton _, ?_⟩
      rintro other hother new hmem rfl
      rw [List.mem_singleton.1 hmem] at hother
      exact hnew (haccounted.enqueued id hother)
    · rw [hids]
      exact h.keyed.filter _
  rcases effect h.keyed a with ⟨lost, -, hrunning, hheld⟩ | ⟨id, -, hfree, hrunning, hheld⟩ |
    ⟨id, -, hrunning, hheld⟩
  · have hnodup := (List.nodup_append.1 (hheld.nodup_iff.1 h.nodup)).2.1
    refine ⟨hkeyed, hnodup, fun other hother => (hrunning other).2 (h.running other ?_)⟩
    exact hheld.mem_iff.2 (List.mem_append_right _ hother)
  · refine ⟨hkeyed, ?_, fun other hother => (hrunning other).2 ?_⟩
    · rw [hheld.nodup_iff, List.nodup_cons]
      exact ⟨fun hmem => hfree (h.running id hmem), h.nodup⟩
    · rcases List.mem_cons.1 (hheld.mem_iff.1 hother) with rfl | hold
      · exact Or.inr rfl
      · exact Or.inl (h.running other hold)
  · obtain ⟨hgone, hnodup⟩ := List.nodup_cons.1 (hheld.nodup_iff.1 h.nodup)
    refine ⟨hkeyed, hnodup, fun other hother => (hrunning other).2 ⟨?_, ?_⟩⟩
    · exact h.running other (hheld.mem_iff.2 (List.mem_cons_of_mem _ hother))
    · rintro rfl
      exact hgone hother

theorem accounted_step (hkeys : Table.Keyed JobRecord.id s.rows) (h : Accounted s) :
    Accounted (step s a) := by
  rcases ids_step hkeys h a with ⟨hids, henqueued, hdeleted⟩ | ⟨id, hnew, hids, henqueued, hdeleted⟩ |
    ⟨id, hmem, hids, henqueued, hdeleted⟩
  · refine ⟨?_, ?_, ?_⟩
    · rw [hids, henqueued]
      exact h.enqueued
    · rw [hids, henqueued, hdeleted]
      exact h.accounted
    · rw [hids, henqueued, hdeleted]
      exact h.deleted
  · refine ⟨?_, ?_, ?_⟩
    · intro other hother
      rw [hids] at hother
      rw [henqueued]
      rcases List.mem_append.1 hother with hold | hsame
      · exact List.mem_append_left _ (h.enqueued other hold)
      · exact List.mem_append_right _ hsame
    · intro other hother
      rw [henqueued] at hother
      rw [hids, hdeleted]
      rcases List.mem_append.1 hother with hold | hsame
      · exact (h.accounted other hold).imp_right (List.mem_append_left _)
      · exact Or.inr (List.mem_append_right _ hsame)
    · intro other hother
      rw [hdeleted] at hother
      obtain ⟨hold, hgone⟩ := h.deleted other hother
      rw [hids, henqueued]
      refine ⟨List.mem_append_left _ hold, fun hagain => ?_⟩
      rcases List.mem_append.1 hagain with hagain | hsame
      · exact hgone hagain
      · rw [List.mem_singleton.1 hsame] at hold
        exact hnew hold
  · have hafter : ∀ other, other ∈ (step s a).rows.map JobRecord.id ↔
        other ∈ s.rows.map JobRecord.id ∧ other ≠ id := by
      intro other
      rw [hids, List.mem_filter]
      simp
    refine ⟨?_, ?_, ?_⟩
    · intro other hother
      rw [henqueued]
      exact h.enqueued other ((hafter other).1 hother).1
    · intro other hother
      rw [henqueued] at hother
      rw [hdeleted]
      rcases h.accounted other hother with hold | hrow
      · exact Or.inl (List.mem_append_left _ hold)
      · by_cases hsame : other = id
        · exact Or.inl (List.mem_append_right _ (List.mem_singleton.2 hsame))
        · exact Or.inr ((hafter other).2 ⟨hrow, hsame⟩)
    · intro other hother
      rw [hdeleted] at hother
      rw [henqueued, hafter]
      rcases List.mem_append.1 hother with hold | hsame
      · exact ⟨(h.deleted other hold).1, fun hagain => (h.deleted other hold).2 hagain.1⟩
      · rw [List.mem_singleton.1 hsame]
        exact ⟨h.enqueued id hmem, fun hagain => hagain.2 rfl⟩

/-- What runs stays held where the step fits, and only there. -/
theorem runHeld_step_iff (h : HeldRun s) (hruns : RunHeld s) :
    RunHeld (step s a) ↔ StepFits s a := by
  rcases effect h.keyed a with ⟨lost, hfits, hrunning, hheld⟩ | ⟨id, hfits, hfree, hrunning, hheld⟩ |
    ⟨id, hfits, hrunning, hheld⟩
  · rw [hfits]
    constructor
    · intro hkept
      rcases List.eq_nil_or_concat lost with rfl | ⟨lost, id, rfl⟩
      · rfl
      · -- the job is let go, and still runs
        exfalso
        have hid : id ∈ s.heldIds := hheld.mem_iff.2 (by simp)
        have hagain := hkept id ((hrunning id).2 (h.running id hid))
        have hnodup := hheld.nodup_iff.1 h.nodup
        exact (List.nodup_append.1 hnodup).2.2 id (by simp) id hagain rfl
    · rintro rfl id hid
      exact hheld.mem_iff.1 (hruns id ((hrunning id).1 hid))
  · refine ⟨fun _ => hfits, fun _ other hother => hheld.mem_iff.2 ?_⟩
    rcases (hrunning other).1 hother with hold | rfl
    · exact List.mem_cons_of_mem _ (hruns other hold)
    · exact List.mem_cons_self
  · refine ⟨fun _ => hfits, fun _ other hother => ?_⟩
    obtain ⟨hold, hne⟩ := (hrunning other).1 hother
    rcases List.mem_cons.1 (hheld.mem_iff.1 (hruns other hold)) with rfl | hmem
    · exact absurd rfl hne
    · exact hmem

/-- No job is lost exactly where every job that runs is held. -/
theorem noJobLost_iff_runHeld (h : HeldRun s) (haccounted : Accounted s) :
    NoJobLost s ↔ RunHeld s := by
  constructor
  · rintro hsafe id ⟨row, hrow, rfl, hrunning⟩
    have hmem : row.id ∈ s.rows.map JobRecord.id := List.mem_map_of_mem hrow
    rcases hsafe row.id (haccounted.enqueued _ hmem) with hdeleted | ⟨other, hother, hid, hcase⟩
    · exact absurd hmem (haccounted.deleted _ hdeleted).2
    · obtain rfl := List.inj_on_of_nodup_map h.keyed hother hrow hid
      rcases hcase with hdone | hdead | hclaimable | ⟨-, hheld⟩
      · rw [hrunning] at hdone
        cases hdone
      · rw [hrunning] at hdead
        cases hdead
      · have hdue := hclaimable other.runAt (le_refl _)
        simp [JobRepo.dueJobs, JobRepo.isDue, hrunning] at hdue
      · exact hheld
  · intro hruns id hid
    refine (haccounted.accounted id hid).imp_right fun hmem => ?_
    obtain ⟨row, hrow, rfl⟩ := List.mem_map.1 hmem
    refine ⟨row, hrow, rfl, ?_⟩
    cases hstatus : row.status with
    | succeeded => exact Or.inl hstatus
    | failed => exact Or.inr (Or.inl hstatus)
    | pending =>
      refine Or.inr (Or.inr (Or.inl fun now hdue => ?_))
      simp only [JobRepo.dueJobs, List.mem_insertionSort, List.mem_filter, JobRepo.isDue, hstatus,
        hdue, decide_true, Bool.and_self, and_true]
      exact hrow
    | running =>
      exact Or.inr (Or.inr (Or.inr ⟨hstatus, hruns row.id ⟨row, hrow, rfl, hstatus⟩⟩))

/-- A job that runs and is in nobody's hands stays so. -/
theorem stuck_forever (h : HeldRun s) (haccounted : Accounted s) {id : JobId}
    (hrunning : Running s.rows id) (hfree : id ∉ s.heldIds) (steps : List (Step π)) :
    Running (Runs.run step s steps).rows id ∧ id ∉ (Runs.run step s steps).heldIds := by
  induction steps generalizing s with
  | nil => exact ⟨hrunning, hfree⟩
  | cons a steps ih =>
    have hafter : Running (step s a).rows id ∧ id ∉ (step s a).heldIds := by
      rcases effect h.keyed a with ⟨lost, -, hruns, hheld⟩ | ⟨other, -, hother, hruns, hheld⟩ |
        ⟨other, -, hruns, hheld⟩
      · exact ⟨(hruns id).2 hrunning, fun hmem =>
          hfree (hheld.mem_iff.2 (List.mem_append_right _ hmem))⟩
      · refine ⟨(hruns id).2 (Or.inl hrunning), fun hmem => ?_⟩
        rcases List.mem_cons.1 (hheld.mem_iff.1 hmem) with rfl | hold
        · exact hother hrunning
        · exact hfree hold
      · have hmem := fun hagain => hfree (hheld.mem_iff.2 (List.mem_cons_of_mem _ hagain))
        refine ⟨(hruns id).2 ⟨hrunning, ?_⟩, hmem⟩
        rintro rfl
        exact hfree (hheld.mem_iff.2 List.mem_cons_self)
    exact ih (heldRun_step h haccounted) (accounted_step h.keyed haccounted) hafter.1 hafter.2

/-- No job is lost at any time of a run exactly when every step of it fits. -/
theorem noJobLost_iff (steps : List (Step π)) :
    (∀ earlier later, steps = earlier ++ later → NoJobLost (Runs.run step State.start earlier)) ↔
      Runs.Throughout step StepFits State.start steps := by
  have hstart : HeldRun (State.start : State π) ∧ Accounted (State.start : State π) := by
    refine ⟨⟨List.nodup_nil, List.nodup_nil, ?_⟩, ⟨?_, ?_, ?_⟩⟩ <;>
      · intro id hid
        cases hid
  have hruns : RunHeld (State.start : State π) := by
    rintro id ⟨row, hrow, -⟩
    cases hrow
  rw [Runs.always_iff, and_iff_right ((noJobLost_iff_runHeld hstart.1 hstart.2).2 hruns)]
  apply (Runs.throughout_iff
    (I := fun s => HeldRun s ∧ Accounted s ∧ RunHeld s) ?_ ?_ ⟨hstart.1, hstart.2, hruns⟩).symm
  · rintro s a ⟨hheld, haccounted, hruns⟩ hfits
    exact ⟨heldRun_step hheld haccounted, accounted_step hheld.keyed haccounted,
      (runHeld_step_iff hheld hruns).2 hfits⟩
  · rintro s a ⟨hheld, haccounted, hruns⟩
    rw [noJobLost_iff_runHeld (heldRun_step hheld haccounted)
      (accounted_step hheld.keyed haccounted), runHeld_step_iff hheld hruns]

end Runs

/-- Two jobs that are due. The first is claimed when the claim of the second fails. -/
def failedBatch : List (Step Unit) :=
  [.enqueue 1 () 0 5 0, .enqueue 2 () 0 5 0, .start, .select 0 0 20, .claim 0, .claimFails 0]

/-- The first job stays marked as running, and no poller has it. -/
theorem claimed_job_is_lost : ¬ NoJobLost (Runs.run step State.start failedBatch) := by
  intro h
  have hrows : (Runs.run step State.start failedBatch).rows =
      [⟨1, (), .running, 0, 5, 0, none, 0⟩, ⟨2, (), .pending, 0, 5, 0, none, 0⟩] := by
    decide +kernel
  have hheld : (1 : JobId) ∉ (Runs.run step State.start failedBatch).heldIds := by
    decide +kernel
  rcases h 1 (by decide +kernel) with hdeleted | ⟨row, hrow, hid, hsafe⟩
  · exact absurd hdeleted (by decide +kernel)
  · have hrunning : row.status = .running := by
      rw [hrows] at hrow
      rcases List.mem_cons.1 hrow with rfl | hrow
      · rfl
      · obtain rfl := List.mem_singleton.1 hrow
        exact absurd hid (by decide)
    rcases hsafe with hdone | hdead | hclaimable | ⟨-, hmem⟩
    · rw [hrunning] at hdone
      cases hdone
    · rw [hrunning] at hdead
      cases hdead
    · have hdue := hclaimable row.runAt (le_refl _)
      simp [JobRepo.dueJobs, JobRepo.isDue, hrunning] at hdue
    · exact hheld (hid ▸ hmem)

end Edda.Jobs.JobPoller
