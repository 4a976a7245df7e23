import Edda.Jobs.Poller

/-!
# The retry budget of a job

A ledger counts, beside the state of the pollers, how often each job was started since it was last
queued. Where every claim takes a job as the table has it, the attempts of a waiting job are the
number of its starts, no job is started more often than its budget allows, and a job is not given
up before its budget is used up (`booksKept`). A single poller claims jobs in no other way
(`fresh_of_alone`): between the moment it reads a job and the moment it claims it, nobody else
takes the job, fails it and puts it back.
-/

set_option autoImplicit false

namespace Edda.Jobs.JobPoller

open Edda.Db Edda.Support

variable {π : Type}

/-- The job that a step starts. -/
def starts (s : State π) : Step π → Option JobId
  | .spawn place => match s.pollers[place]? with
    | some ⟨[], job :: _, _, _⟩ => some job.id
    | _ => none
  | _ => none

/-- The job that a step queues with its whole budget. -/
def renews (s : State π) : Step π → Option JobId
  | .enqueue id _ _ _ _ => if id ∈ s.enqueued then none else some id
  | .requeue id _ =>
    if s.rows.any (JobRepo.withId id fun status => decide (status = .failed)) then some id else none
  | _ => none

/-- The state, and how often each job was started since it was queued. -/
structure Ledger (π : Type) where
  state : State π
  started : JobId → Nat

def Ledger.start : Ledger π := ⟨.start, fun _ => 0⟩

def Ledger.step (ledger : Ledger π) (a : Step π) : Ledger π where
  state := JobPoller.step ledger.state a
  started := fun id =>
    if renews ledger.state a = some id then 0
    else if starts ledger.state a = some id then ledger.started id + 1
    else ledger.started id

/-- A claim that succeeds takes the job as the table has it. -/
def Fresh (s : State π) : Step π → Prop
  | .claim place => ∀ poller, s.pollers[place]? = some poller →
    ∀ job ∈ poller.candidates.head?, ∀ row ∈ s.rows, row.id = job.id → row.status = .pending →
      row = job
  | _ => True

/-- A poller is only started where none runs. -/
def Alone (s : State π) : Step π → Prop
  | .start => s.pollers = []
  | _ => True

instance (s : State π) : ∀ a : Step π, Decidable (Alone s a)
  | .start => decidable_of_iff (s.pollers.isEmpty = true) List.isEmpty_iff
  | .enqueue .. | .requeue .. | .delete _ | .select .. | .claim _ | .claimFails _ | .spawn _
  | .finish .. | .loseTask .. | .shutdown _ | .exit _ | .crash _ => isTrue trivial

/-- What a job may still cost. A job is started once whatever its budget is. -/
def HasBudget (row : JobRecord π) : Prop := row.attempts = 0 ∨ row.attempts < row.maxAttempts

def noHandler : String := "no handler registered"

/-- The row of a job agrees with the number of its starts. -/
def Entry (started : Nat) (row : JobRecord π) : Prop :=
  match row.status with
  | .pending => started = row.attempts ∧ HasBudget row
  | .running | .succeeded => started ≤ row.attempts + 1 ∧ HasBudget row
  | .failed =>
    (row.lastError = some noHandler ∧ started ≤ row.attempts + 1 ∧ HasBudget row) ∨
      (started = row.attempts ∧ row.maxAttempts ≤ row.attempts ∧
        row.attempts ≤ max 1 row.maxAttempts)

/-- The rows agree with the numbers of starts, and so does what the pollers have in hand. -/
structure Agree (rows : List (JobRecord π)) (pollers : List (Poller π)) (started : JobId → Nat) :
    Prop where
  entries : ∀ row ∈ rows, Entry (started row.id) row
  claimed : ∀ poller ∈ pollers, ∀ job ∈ poller.claimed,
    job ∈ rows ∧ started job.id = job.attempts
  inFlight : ∀ poller ∈ pollers, ∀ job ∈ poller.inFlight,
    job ∈ rows ∧ started job.id = job.attempts + 1

structure Books (ledger : Ledger π) : Prop where
  heldRun : HeldRun ledger.state
  accounted : Accounted ledger.state
  agree : Agree ledger.state.rows ledger.state.pollers ledger.started

theorem Entry.le_max {started : Nat} {row : JobRecord π} (h : Entry started row) :
    started ≤ max 1 row.maxAttempts := by
  have hbudget : HasBudget row → row.attempts + 1 ≤ max 1 row.maxAttempts := by
    rintro (hzero | hlt) <;> omega
  unfold Entry at h
  split at h
  · have := hbudget h.2
    omega
  · have := hbudget h.2
    omega
  · have := hbudget h.2
    omega
  · rcases h with ⟨-, hle, hfits⟩ | ⟨heq, -, hle⟩
    · have := hbudget hfits
      omega
    · omega

section Rows

variable {rows : List (JobRecord π)} {id : JobId} {states : JobStatus → Bool}
  {set : JobRecord π → JobRecord π}

/-- A statement about one job leaves the rows of the others. -/
theorem mem_update_of_ne (hset : ∀ row, (set row).id = row.id) {row : JobRecord π}
    (hne : row.id ≠ id) :
    row ∈ Table.update rows (JobRepo.withId id states) set ↔ row ∈ rows := by
  rw [mem_update]
  constructor
  · rintro ⟨old, hold, rfl⟩
    split
    · rename_i hselected
      rw [if_pos hselected, hset] at hne
      simp [JobRepo.withId, hne] at hselected
    · exact hold
  · intro hrow
    refine ⟨row, hrow, ?_⟩
    rw [if_neg (by simp [JobRepo.withId, hne])]

/-- The row of the job after a statement about it. -/
theorem of_mem_update (hkeys : Table.Keyed JobRecord.id rows) (hset : ∀ row, (set row).id = row.id)
    {job row : JobRecord π} (hjob : job ∈ rows) (hrow : row ∈ Table.update rows
      (JobRepo.withId job.id states) set) (hid : row.id = job.id) :
    row = if states job.status then set job else job := by
  obtain ⟨old, hold, rfl⟩ := mem_update.1 hrow
  have hsame : old.id = job.id := by
    split at hid
    · rwa [hset] at hid
    · exact hid
  obtain rfl := List.inj_on_of_nodup_map hkeys hold hjob hsame
  simp [JobRepo.withId]

theorem mem_update_self (job : JobRecord π) (hjob : job ∈ rows) (hstatus : states job.status = true) :
    set job ∈ Table.update rows (JobRepo.withId job.id states) set :=
  mem_update.2 ⟨job, hjob, by rw [if_pos (by simp [JobRepo.withId, hstatus])]⟩

end Rows

section Held

variable {s : State π} {a : Step π} {place : Nat} {poller : Poller π} {started : JobId → Nat}

theorem mem_set_iff (h : s.pollers[place]? = some poller) {next other : Poller π} :
    other ∈ s.pollers.set place next ↔ other = next ∨ other ∈ s.pollers.eraseIdx place := by
  obtain ⟨hlt, -⟩ := List.getElem?_eq_some_iff.1 h
  rw [(List.set_perm_cons_eraseIdx hlt next).mem_iff, List.mem_cons]

/-- What the other pollers hold are other jobs. -/
theorem id_ne_of_others (hnodup : s.heldIds.Nodup) (h : s.pollers[place]? = some poller)
    {job : JobRecord π} (hjob : job ∈ poller.held) {other : Poller π}
    (hother : other ∈ s.pollers.eraseIdx place) {job' : JobRecord π} (hjob' : job' ∈ other.held) :
    job'.id ≠ job.id := by
  have hparts := (heldIds_perm h).nodup_iff.1 hnodup
  refine Ne.symm ((List.nodup_append.1 hparts).2.2 job.id (List.mem_map_of_mem hjob) job'.id ?_)
  exact List.mem_map_of_mem (List.mem_flatMap.2 ⟨other, hother, hjob'⟩)

theorem nodup_held (hnodup : s.heldIds.Nodup) (h : s.pollers[place]? = some poller) :
    (poller.held.map JobRecord.id).Nodup :=
  (List.nodup_append.1 ((heldIds_perm h).nodup_iff.1 hnodup)).1

/-- The pollers come to hold no other jobs than before. -/
theorem Agree.of_pollers {rows : List (JobRecord π)} {pollers pollers' : List (Poller π)}
    (h : Agree rows pollers started) (hsubset : ∀ poller' ∈ pollers', ∃ poller ∈ pollers,
      poller'.claimed ⊆ poller.claimed ∧ poller'.inFlight ⊆ poller.inFlight) :
    Agree rows pollers' started := by
  refine ⟨h.entries, fun poller' hpoller' job hjob => ?_, fun poller' hpoller' job hjob => ?_⟩
  · obtain ⟨poller, hpoller, hclaimed, -⟩ := hsubset poller' hpoller'
    exact h.claimed poller hpoller job (hclaimed hjob)
  · obtain ⟨poller, hpoller, -, hinFlight⟩ := hsubset poller' hpoller'
    exact h.inFlight poller hpoller job (hinFlight hjob)

/-- A poller lets jobs go. -/
theorem Agree.set {next : Poller π} (h : Agree s.rows s.pollers started)
    (hpoller : s.pollers[place]? = some poller) (hclaimed : next.claimed ⊆ poller.claimed)
    (hinFlight : next.inFlight ⊆ poller.inFlight) :
    Agree s.rows (s.pollers.set place next) started := by
  refine h.of_pollers fun other hother => ?_
  rcases (mem_set_iff hpoller).1 hother with rfl | hother
  · exact ⟨poller, List.mem_of_getElem? hpoller, hclaimed, hinFlight⟩
  · exact ⟨other, List.mem_of_mem_eraseIdx hother, List.Subset.refl _, List.Subset.refl _⟩

theorem Agree.eraseIdx (h : Agree s.rows s.pollers started) (place : Nat) :
    Agree s.rows (s.pollers.eraseIdx place) started :=
  h.of_pollers fun other hother =>
    ⟨other, List.mem_of_mem_eraseIdx hother, List.Subset.refl _, List.Subset.refl _⟩

/-- What a poller holds is marked as running in the table. -/
theorem Books.running {ledger : Ledger π} (h : Books ledger) {poller : Poller π}
    (hpoller : poller ∈ ledger.state.pollers) {job : JobRecord π} (hjob : job ∈ poller.held) :
    job ∈ ledger.state.rows ∧ job.status = .running := by
  have hrow : job ∈ ledger.state.rows := by
    rcases List.mem_append.1 hjob with hclaimed | hinFlight
    · exact (h.agree.claimed poller hpoller job hclaimed).1
    · exact (h.agree.inFlight poller hpoller job hinFlight).1
  have hheld : job.id ∈ ledger.state.heldIds :=
    List.mem_map_of_mem (List.mem_flatMap.2 ⟨poller, hpoller, hjob⟩)
  obtain ⟨row, hmem, hid, hrunning⟩ := h.heldRun.running job.id hheld
  obtain rfl := List.inj_on_of_nodup_map h.heldRun.keyed hmem hrow hid
  exact ⟨hrow, hrunning⟩

/-- A step about one job leaves the rows and the starts of the others. -/
theorem Agree.of_touched {rows rows' : List (JobRecord π)} {pollers pollers' : List (Poller π)}
    {started' : JobId → Nat} {id : JobId} (h : Agree rows pollers started)
    (hrows : ∀ row, row.id ≠ id → (row ∈ rows' ↔ row ∈ rows))
    (hstarted : ∀ other, other ≠ id → started' other = started other)
    (hentry : ∀ row ∈ rows', row.id = id → Entry (started' id) row)
    (hclaimed : ∀ poller ∈ pollers', ∀ job ∈ poller.claimed,
      (job.id ≠ id ∧ ∃ old ∈ pollers, job ∈ old.claimed) ∨
        job.id = id ∧ job ∈ rows' ∧ started' id = job.attempts)
    (hinFlight : ∀ poller ∈ pollers', ∀ job ∈ poller.inFlight,
      (job.id ≠ id ∧ ∃ old ∈ pollers, job ∈ old.inFlight) ∨
        job.id = id ∧ job ∈ rows' ∧ started' id = job.attempts + 1) :
    Agree rows' pollers' started' := by
  refine ⟨fun row hrow => ?_, fun poller hpoller job hjob => ?_, fun poller hpoller job hjob => ?_⟩
  · by_cases hid : row.id = id
    · rw [hid]
      exact hentry row hrow hid
    · rw [hstarted _ hid]
      exact h.entries row ((hrows row hid).1 hrow)
  · rcases hclaimed poller hpoller job hjob with ⟨hne, old, hold, hmem⟩ | ⟨hid, hrow, heq⟩
    · obtain ⟨hrow, heq⟩ := h.claimed old hold job hmem
      exact ⟨(hrows job hne).2 hrow, (hstarted _ hne).trans heq⟩
    · exact ⟨hrow, hid ▸ heq⟩
  · rcases hinFlight poller hpoller job hjob with ⟨hne, old, hold, hmem⟩ | ⟨hid, hrow, heq⟩
    · obtain ⟨hrow, heq⟩ := h.inFlight old hold job hmem
      exact ⟨(hrows job hne).2 hrow, (hstarted _ hne).trans heq⟩
    · exact ⟨hrow, hid ▸ heq⟩

theorem started_of_quiet {ledger : Ledger π} (hrenews : renews ledger.state a = none)
    (hstarts : starts ledger.state a = none) : (ledger.step a).started = ledger.started := by
  funext id
  simp [Ledger.step, hrenews, hstarts]

end Held

section Steps

variable {ledger : Ledger π} {id : JobId} {place : Nat}

/-- A job whose row was not queued yet is in nobody's hands. -/
theorem Books.id_ne_of_held (h : Books ledger) (hfree : ¬ Running ledger.state.rows id)
    {poller : Poller π} (hpoller : poller ∈ ledger.state.pollers) {job : JobRecord π}
    (hjob : job ∈ poller.held) : job.id ≠ id := by
  rintro rfl
  obtain ⟨hrow, hrunning⟩ := h.running hpoller hjob
  exact hfree ⟨job, hrow, rfl, hrunning⟩

/-- The pollers keep what they hold, and none of it is the job that the step is about. -/
theorem Books.of_free (h : Books ledger) (hfree : ¬ Running ledger.state.rows id)
    {rows' : List (JobRecord π)} {started' : JobId → Nat}
    (hrows : ∀ row, row.id ≠ id → (row ∈ rows' ↔ row ∈ ledger.state.rows))
    (hstarted : ∀ other, other ≠ id → started' other = ledger.started other)
    (hentry : ∀ row ∈ rows', row.id = id → Entry (started' id) row) :
    Agree rows' ledger.state.pollers started' := by
  refine h.agree.of_touched hrows hstarted hentry (fun poller hpoller job hjob => ?_)
    fun poller hpoller job hjob => ?_
  · exact Or.inl ⟨h.id_ne_of_held hfree hpoller (List.mem_append_left _ hjob), poller, hpoller, hjob⟩
  · exact Or.inl ⟨h.id_ne_of_held hfree hpoller (List.mem_append_right _ hjob), poller, hpoller, hjob⟩

theorem agree_enqueue (h : Books ledger) (payload : π) (runAt : Int) (maxAttempts : Nat)
    (now : Int) : Agree (ledger.step (.enqueue id payload runAt maxAttempts now)).state.rows
      (ledger.step (.enqueue id payload runAt maxAttempts now)).state.pollers
      (ledger.step (.enqueue id payload runAt maxAttempts now)).started := by
  by_cases hold : id ∈ ledger.state.enqueued
  · rw [started_of_quiet (by simp [renews, hold]) rfl]
    simpa only [Ledger.step, step, if_pos hold] using h.agree
  · have hnew : id ∉ ledger.state.rows.map JobRecord.id := fun hmem =>
      hold (h.accounted.enqueued id hmem)
    have hfree : ¬ Running ledger.state.rows id := by
      rintro ⟨row, hrow, rfl, -⟩
      exact hnew (List.mem_map_of_mem hrow)
    simp only [Ledger.step, step, renews, starts, if_neg hold, JobRepo.enqueue, if_neg hnew]
    refine h.of_free hfree (fun row hne => ?_) (fun other hne => ?_) fun row hrow hid => ?_
    · rw [List.mem_append, List.mem_singleton]
      refine or_iff_left ?_
      rintro rfl
      exact hne rfl
    · simp [Ne.symm hne]
    · rcases List.mem_append.1 hrow with hrow | hrow
      · exact absurd (hid ▸ List.mem_map_of_mem hrow) hnew
      · obtain rfl := List.mem_singleton.1 hrow
        simp [Entry, HasBudget]

theorem agree_requeue (h : Books ledger) (now : Int) :
    Agree (ledger.step (.requeue id now)).state.rows (ledger.step (.requeue id now)).state.pollers
      (ledger.step (.requeue id now)).started := by
  by_cases hany : ledger.state.rows.any
      (JobRepo.withId id fun status => decide (status = .failed)) = true
  · obtain ⟨job, hjob, hselected⟩ := List.any_eq_true.1 hany
    obtain ⟨rfl, hfailed⟩ : job.id = id ∧ job.status = .failed := by
      simpa [JobRepo.withId] using hselected
    have hfree : ¬ Running ledger.state.rows job.id := by
      rintro ⟨row, hrow, hid, hrunning⟩
      obtain rfl := List.inj_on_of_nodup_map h.heldRun.keyed hrow hjob hid
      rw [hfailed] at hrunning
      cases hrunning
    simp only [Ledger.step, step, renews, starts, if_pos hany]
    refine h.of_free hfree (fun row hne => mem_update_of_ne (by intro old; rfl) hne)
      (fun other hne => by simp [Ne.symm hne]) fun row hrow hid => ?_
    have hafter := of_mem_update h.heldRun.keyed (by intro old; rfl) hjob hrow hid
    rw [if_pos (by simp [hfailed])] at hafter
    subst hafter
    simp [Entry, HasBudget]
  · -- there is no dead job to return
    have hsame : JobRepo.requeue ledger.state.rows id now = ledger.state.rows := by
      refine (List.map_congr_left fun row hrow => ?_).trans (List.map_id _)
      have hnot := List.any_eq_false.1 (eq_false_of_ne_true hany) row hrow
      rw [if_neg hnot]
      rfl
    rw [started_of_quiet (by simp only [renews, if_neg hany]) rfl]
    simpa only [Ledger.step, step, hsame] using h.agree

theorem agree_delete (h : Books ledger) :
    Agree (ledger.step (.delete id)).state.rows (ledger.step (.delete id)).state.pollers
      (ledger.step (.delete id)).started := by
  rw [started_of_quiet rfl rfl]
  simp only [Ledger.step, step, JobRepo.delete]
  -- a job in hand runs, and stays
  have hstays : ∀ poller ∈ ledger.state.pollers, ∀ job ∈ poller.held,
      job ∈ ledger.state.rows.filter fun row =>
        !JobRepo.withId id (fun status => decide (status ≠ .running)) row := by
    intro poller hpoller job hjob
    obtain ⟨hrow, hrunning⟩ := h.running hpoller hjob
    exact List.mem_filter.2 ⟨hrow, by simp [JobRepo.withId, hrunning]⟩
  refine ⟨fun row hrow => h.agree.entries row (List.mem_filter.1 hrow).1,
    fun poller hpoller job hjob => ?_, fun poller hpoller job hjob => ?_⟩
  · exact ⟨hstays poller hpoller job (List.mem_append_left _ hjob),
      (h.agree.claimed poller hpoller job hjob).2⟩
  · exact ⟨hstays poller hpoller job (List.mem_append_right _ hjob),
      (h.agree.inFlight poller hpoller job hjob).2⟩

theorem agree_claim (h : Books ledger) (hfresh : Fresh ledger.state (.claim place)) :
    Agree (ledger.step (.claim place)).state.rows (ledger.step (.claim place)).state.pollers
      (ledger.step (.claim place)).started := by
  rw [started_of_quiet rfl rfl]
  simp only [Ledger.step]
  cases hpoller : ledger.state.pollers[place]? with
  | none => simpa only [step, hpoller] using h.agree
  | some poller =>
    obtain ⟨candidates, claimed, inFlight, draining⟩ := poller
    cases candidates with
    | nil => simpa only [step, hpoller] using h.agree
    | cons job candidates =>
      by_cases haffected : (JobRepo.claim ledger.state.rows job.id).2 = 0
      · have hrows := claim_of_not_affected haffected
        have hclaim : JobRepo.claim ledger.state.rows job.id = (ledger.state.rows, 0) :=
          Prod.ext hrows haffected
        simp only [step, hpoller, hclaim]
        exact h.agree.set hpoller (List.Subset.refl _) (List.Subset.refl _)
      · obtain ⟨hfree, -⟩ := running_claim h.heldRun.keyed (Nat.pos_of_ne_zero haffected)
        obtain ⟨n, hn⟩ := Nat.exists_eq_succ_of_ne_zero haffected
        have hclaim : JobRepo.claim ledger.state.rows job.id = (Table.update ledger.state.rows
            (JobRepo.withId job.id fun status => decide (status = .pending))
            fun row => { row with status := .running }, n + 1) := Prod.ext rfl hn
        -- the job is claimed as the table has it
        obtain ⟨row, hrow, hselected⟩ := List.countP_pos_iff.1 (Nat.pos_of_ne_zero haffected)
        obtain ⟨hid, hpending⟩ : row.id = job.id ∧ row.status = .pending := by
          simpa [JobRepo.withId] using hselected
        obtain rfl := hfresh _ hpoller job rfl row hrow hid hpending
        have hentry := h.agree.entries row hrow
        simp only [Entry, hpending] at hentry
        simp only [step, hpoller, hclaim]
        refine h.agree.of_touched (fun other hne => mem_update_of_ne (by intro old; rfl) hne)
          (fun _ _ => rfl) (fun other hother hid' => ?_) (fun next hnext job hjob => ?_)
          fun next hnext job hjob => ?_
        · have hafter := of_mem_update h.heldRun.keyed (by intro old; rfl) hrow hother hid'
          rw [if_pos (by simp [hpending])] at hafter
          subst hafter
          exact ⟨hentry.1.le.trans (Nat.le_succ _), hentry.2⟩
        · rcases (mem_set_iff hpoller).1 hnext with rfl | hother
          · rcases List.mem_append.1 hjob with hold | hnew
            · exact Or.inl ⟨h.id_ne_of_held hfree (List.mem_of_getElem? hpoller)
                (List.mem_append_left _ hold), _, List.mem_of_getElem? hpoller, hold⟩
            · obtain rfl := List.mem_singleton.1 hnew
              exact Or.inr ⟨rfl, mem_update_self row hrow (by simp [hpending]), hentry.1⟩
          · have hmem := List.mem_of_mem_eraseIdx hother
            exact Or.inl ⟨h.id_ne_of_held hfree hmem (List.mem_append_left _ hjob), _, hmem, hjob⟩
        · rcases (mem_set_iff hpoller).1 hnext with rfl | hother
          · have hmem := List.mem_of_getElem? hpoller
            exact Or.inl ⟨h.id_ne_of_held hfree hmem (List.mem_append_right _ hjob), _, hmem, hjob⟩
          · have hmem := List.mem_of_mem_eraseIdx hother
            exact Or.inl ⟨h.id_ne_of_held hfree hmem (List.mem_append_right _ hjob), _, hmem, hjob⟩

theorem agree_spawn (h : Books ledger) :
    Agree (ledger.step (.spawn place)).state.rows (ledger.step (.spawn place)).state.pollers
      (ledger.step (.spawn place)).started := by
  cases hpoller : ledger.state.pollers[place]? with
  | none =>
    rw [started_of_quiet rfl (by simp only [starts, hpoller])]
    simpa only [Ledger.step, step, hpoller] using h.agree
  | some poller =>
    obtain ⟨candidates, claimed, inFlight, draining⟩ := poller
    cases candidates with
    | cons job candidates =>
      rw [started_of_quiet rfl (by simp only [starts, hpoller])]
      simpa only [Ledger.step, step, hpoller] using h.agree
    | nil =>
      cases claimed with
      | nil =>
        rw [started_of_quiet rfl (by simp only [starts, hpoller])]
        simpa only [Ledger.step, step, hpoller] using h.agree
      | cons job claimed =>
        have hmem := List.mem_of_getElem? hpoller
        obtain ⟨hrow, hstarted⟩ := h.agree.claimed _ hmem job List.mem_cons_self
        obtain ⟨-, hrunning⟩ := h.running hmem (List.mem_append_left _ List.mem_cons_self)
        have hentry := h.agree.entries job hrow
        simp only [Entry, hrunning] at hentry
        have hnodup := nodup_held h.heldRun.nodup hpoller
        simp only [Poller.held, List.cons_append, List.map_cons, List.nodup_cons] at hnodup
        have hother : ∀ other ∈ claimed ++ inFlight, other.id ≠ job.id := fun other hother heq =>
          hnodup.1 (heq ▸ List.mem_map_of_mem hother)
        simp only [Ledger.step, step, renews, starts, hpoller]
        refine h.agree.of_touched (fun row (_ : row.id ≠ job.id) => Iff.rfl)
          (fun other hne => by simp [Ne.symm hne])
          (fun row hrow' hid => ?_) (fun next hnext other hjob => ?_)
          fun next hnext other hjob => ?_
        · obtain rfl := List.inj_on_of_nodup_map h.heldRun.keyed hrow' hrow hid
          simp only [Entry, hrunning]
          simpa [hstarted] using hentry.2
        · rcases (mem_set_iff hpoller).1 hnext with rfl | hnext
          · exact Or.inl ⟨hother other (List.mem_append_left _ hjob), _, hmem,
              List.mem_cons_of_mem job hjob⟩
          · have hne := id_ne_of_others h.heldRun.nodup hpoller (List.mem_append_left _
              List.mem_cons_self) hnext (List.mem_append_left _ hjob)
            exact Or.inl ⟨hne, next, List.mem_of_mem_eraseIdx hnext, hjob⟩
        · rcases (mem_set_iff hpoller).1 hnext with rfl | hnext
          · rcases List.mem_append.1 hjob with hold | hnew
            · exact Or.inl ⟨hother other (List.mem_append_right _ hold), _, hmem, hold⟩
            · obtain rfl := List.mem_singleton.1 hnew
              exact Or.inr ⟨rfl, hrow, by simp [hstarted]⟩
          · have hne := id_ne_of_others h.heldRun.nodup hpoller (List.mem_append_left _
              List.mem_cons_self) hnext (List.mem_append_right _ hjob)
            exact Or.inl ⟨hne, next, List.mem_of_mem_eraseIdx hnext, hjob⟩

theorem mem_runOne_of_ne {rows : List (JobRecord π)} {job row : JobRecord π} (outcome : Outcome)
    (hne : row.id ≠ job.id) : row ∈ runOne rows job outcome ↔ row ∈ rows := by
  cases outcome with
  | noHandler => exact mem_update_of_ne (by intro old; rfl) hne
  | ok => exact mem_update_of_ne (by intro old; rfl) hne
  | error text retryAt =>
    simp only [runOne]
    split
    · exact mem_update_of_ne (by intro old; rfl) hne
    · exact mem_update_of_ne (by intro old; rfl) hne

/-- How a started job is put down: done, given up, or waiting for its next attempt. -/
theorem entry_runOne {rows : List (JobRecord π)} (hkeys : Table.Keyed JobRecord.id rows)
    {job row : JobRecord π} (hjob : job ∈ rows) (hbudget : HasBudget job) {outcome : Outcome}
    (hrow : row ∈ runOne rows job outcome) (hid : row.id = job.id) :
    Entry (job.attempts + 1) row := by
  cases outcome with
  | noHandler =>
    have hafter := of_mem_update hkeys (by intro old; rfl) hjob hrow hid
    subst hafter
    exact Or.inl ⟨rfl, le_refl _, hbudget⟩
  | ok =>
    have hafter := of_mem_update hkeys (by intro old; rfl) hjob hrow hid
    subst hafter
    exact ⟨le_refl _, hbudget⟩
  | error text retryAt =>
    simp only [runOne] at hrow
    split at hrow
    · rename_i hspent
      have hafter := of_mem_update hkeys (by intro old; rfl) hjob hrow hid
      subst hafter
      refine Or.inr ⟨rfl, hspent, ?_⟩
      rcases hbudget with hzero | hlt
      · simp [hzero]
      · exact (Nat.succ_le_of_lt hlt).trans (le_max_right _ _)
    · rename_i hleft
      have hafter := of_mem_update hkeys (by intro old; rfl) hjob hrow hid
      subst hafter
      exact ⟨rfl, Or.inr (Nat.lt_of_not_le hleft)⟩

theorem agree_finish (h : Books ledger) (task : Nat) (outcome : Outcome) :
    Agree (ledger.step (.finish place task outcome)).state.rows
      (ledger.step (.finish place task outcome)).state.pollers
      (ledger.step (.finish place task outcome)).started := by
  rw [started_of_quiet rfl rfl]
  simp only [Ledger.step]
  cases hpoller : ledger.state.pollers[place]? with
  | none => simpa only [step, hpoller] using h.agree
  | some poller =>
    cases htask : poller.inFlight[task]? with
    | none => simpa only [step, hpoller, htask] using h.agree
    | some job =>
      have hmem := List.mem_of_getElem? hpoller
      have hjob := List.mem_of_getElem? htask
      obtain ⟨hrow, hstarted⟩ := h.agree.inFlight poller hmem job hjob
      have hheld : job ∈ poller.held := List.mem_append_right _ hjob
      obtain ⟨-, hrunning⟩ := h.running hmem hheld
      have hentry := h.agree.entries job hrow
      simp only [Entry, hrunning] at hentry
      -- the poller has the job once
      have hnodup := nodup_held h.heldRun.nodup hpoller
      obtain ⟨hlt, rfl⟩ := List.getElem?_eq_some_iff.1 htask
      have hperm := (List.getElem_cons_eraseIdx_perm hlt).symm
      have honce := ((hperm.append_left poller.claimed).map JobRecord.id).nodup_iff.1 hnodup
      rw [(List.perm_middle.map JobRecord.id).nodup_iff, List.map_cons, List.nodup_cons] at honce
      have hother : ∀ other ∈ poller.claimed ++ poller.inFlight.eraseIdx task,
          other.id ≠ poller.inFlight[task].id := fun other hother heq =>
        honce.1 (heq ▸ List.mem_map_of_mem hother)
      simp only [step, hpoller, htask]
      refine h.agree.of_touched (fun row hne => mem_runOne_of_ne outcome hne) (fun _ _ => rfl)
        (fun row hrow' hid => ?_) (fun next hnext other hjob' => ?_)
        fun next hnext other hjob' => ?_
      · rw [hstarted]
        exact entry_runOne h.heldRun.keyed hrow hentry.2 hrow' hid
      · rcases (mem_set_iff hpoller).1 hnext with rfl | hnext
        · exact Or.inl ⟨hother other (List.mem_append_left _ hjob'), poller, hmem, hjob'⟩
        · have hne := id_ne_of_others h.heldRun.nodup hpoller hheld hnext
            (List.mem_append_left _ hjob')
          exact Or.inl ⟨hne, next, List.mem_of_mem_eraseIdx hnext, hjob'⟩
      · rcases (mem_set_iff hpoller).1 hnext with rfl | hnext
        · exact Or.inl ⟨hother other (List.mem_append_right _ hjob'), poller, hmem,
            List.mem_of_mem_eraseIdx hjob'⟩
        · have hne := id_ne_of_others h.heldRun.nodup hpoller hheld hnext
            (List.mem_append_right _ hjob')
          exact Or.inl ⟨hne, next, List.mem_of_mem_eraseIdx hnext, hjob'⟩

/-- Every step of a run with fresh claims keeps the books. -/
theorem books_step (h : Books ledger) {a : Step π} (hfresh : Fresh ledger.state a) :
    Books (ledger.step a) := by
  refine ⟨heldRun_step h.heldRun h.accounted, accounted_step h.heldRun.keyed h.accounted, ?_⟩
  cases a with
  | enqueue id payload runAt maxAttempts now => exact agree_enqueue h payload runAt maxAttempts now
  | requeue id now => exact agree_requeue h now
  | delete id => exact agree_delete h
  | claim place => exact agree_claim h hfresh
  | spawn place => exact agree_spawn h
  | finish place task outcome => exact agree_finish h task outcome
  | start =>
    rw [started_of_quiet rfl rfl]
    refine ⟨h.agree.entries, fun poller hpoller job hjob => ?_, fun poller hpoller job hjob => ?_⟩
    · rcases List.mem_append.1 hpoller with hold | hnew
      · exact h.agree.claimed poller hold job hjob
      · obtain rfl := List.mem_singleton.1 hnew
        cases hjob
    · rcases List.mem_append.1 hpoller with hold | hnew
      · exact h.agree.inFlight poller hold job hjob
      · obtain rfl := List.mem_singleton.1 hnew
        cases hjob
  | select place now limit =>
    rw [started_of_quiet rfl rfl]
    simp only [Ledger.step, step]
    split
    · rename_i hpoller
      exact h.agree.set hpoller (List.Subset.refl _) (List.Subset.refl _)
    · exact h.agree
  | claimFails place =>
    rw [started_of_quiet rfl rfl]
    simp only [Ledger.step, step]
    split
    · rename_i hpoller
      exact h.agree.set hpoller (List.nil_subset _) (List.Subset.refl _)
    · exact h.agree
  | loseTask place task =>
    rw [started_of_quiet rfl rfl]
    simp only [Ledger.step, step]
    split
    · exact h.agree
    · rename_i hpoller
      exact h.agree.set hpoller (List.Subset.refl _) (List.eraseIdx_subset)
  | shutdown place =>
    rw [started_of_quiet rfl rfl]
    simp only [Ledger.step, step]
    split
    · rename_i hpoller
      exact h.agree.set hpoller (List.Subset.refl _) (List.Subset.refl _)
    · exact h.agree
  | exit place =>
    rw [started_of_quiet rfl rfl]
    simp only [Ledger.step, step]
    split
    · exact h.agree.eraseIdx place
    · exact h.agree
  | crash place =>
    rw [started_of_quiet rfl rfl]
    exact h.agree.eraseIdx place

end Steps

/-! ## A single poller -/

section Alone

variable {s : State π}

/-- The job is waiting, and the table has it as the poller has read it. -/
def Current (s : State π) (job : JobRecord π) : Prop :=
  job.id ∈ s.enqueued ∧ job.status = .pending ∧ ∀ row ∈ s.rows, row.id = job.id → row = job

/-- There is at most one poller, and what it is about to claim is current. -/
structure Single (s : State π) : Prop where
  one : s.pollers.length ≤ 1
  nodup : ∀ poller ∈ s.pollers, (poller.candidates.map JobRecord.id).Nodup
  current : ∀ poller ∈ s.pollers, ∀ job ∈ poller.candidates, Current s job

theorem Single.fresh (h : Single s) (a : Step π) : Fresh s a := by
  cases a with
  | claim place =>
    intro poller hpoller job hjob row hrow hid _
    have hmem := List.mem_of_mem_head? hjob
    exact (h.current poller (List.mem_of_getElem? hpoller) job hmem).2.2 row hrow hid
  | _ => trivial

/-- A statement that does not select a waiting job leaves it as it is. -/
theorem Current.update {id : JobId} {states : JobStatus → Bool} {set : JobRecord π → JobRecord π}
    {job : JobRecord π} (hset : ∀ row, (set row).id = row.id)
    (hcurrent : ∀ row ∈ s.rows, row.id = job.id → row = job)
    (hselected : JobRepo.withId id states job = false) :
    ∀ row ∈ Table.update s.rows (JobRepo.withId id states) set, row.id = job.id → row = job := by
  intro row hrow hid
  obtain ⟨old, hold, rfl⟩ := mem_update.1 hrow
  have hsame : old.id = job.id := by
    split at hid
    · rwa [hset] at hid
    · exact hid
  obtain rfl := hcurrent old hold hsame
  rw [if_neg (by simp [hselected])]

theorem Current.of_rows {s' : State π} {job : JobRecord π} (h : Current s job)
    (henqueued : s.enqueued ⊆ s'.enqueued)
    (hrows : ∀ row ∈ s'.rows, row.id = job.id → row = job) : Current s' job :=
  ⟨henqueued h.1, h.2.1, hrows⟩

/-- The poller reads nothing more, and the rows of what it has read stay. -/
theorem Single.of_pollers {s' : State π} (h : Single s)
    (hlength : s'.pollers.length ≤ s.pollers.length)
    (hsub : ∀ poller' ∈ s'.pollers, ∃ poller ∈ s.pollers,
      poller'.candidates.Sublist poller.candidates)
    (hcurrent : ∀ poller' ∈ s'.pollers, ∀ job ∈ poller'.candidates, Current s job →
      Current s' job) : Single s' := by
  refine ⟨hlength.trans h.one, fun poller' hpoller' => ?_, fun poller' hpoller' job hjob => ?_⟩
  · obtain ⟨poller, hpoller, hsublist⟩ := hsub poller' hpoller'
    exact (h.nodup poller hpoller).sublist (hsublist.map JobRecord.id)
  · obtain ⟨poller, hpoller, hsublist⟩ := hsub poller' hpoller'
    exact hcurrent poller' hpoller' job hjob (h.current poller hpoller job (hsublist.subset hjob))

/-- A step on one poller that leaves the rows. -/
theorem Single.set {place : Nat} {poller next : Poller π} (h : Single s)
    (hpoller : s.pollers[place]? = some poller)
    (hsublist : next.candidates.Sublist poller.candidates) :
    Single { s with pollers := s.pollers.set place next } := by
  refine h.of_pollers (List.length_set ..).le (fun other hother => ?_) fun _ _ _ _ hjob => hjob
  rcases (mem_set_iff hpoller).1 hother with rfl | hother
  · exact ⟨poller, List.mem_of_getElem? hpoller, hsublist⟩
  · exact ⟨other, List.mem_of_mem_eraseIdx hother, List.Sublist.refl _⟩

theorem Single.eraseIdx (h : Single s) (place : Nat) :
    Single { s with pollers := s.pollers.eraseIdx place } :=
  h.of_pollers (List.length_eraseIdx_le ..) (fun other hother =>
    ⟨other, List.mem_of_mem_eraseIdx hother, List.Sublist.refl _⟩) fun _ _ _ _ hjob => hjob

/-- A step that leaves the poller. -/
theorem Single.of_rows {rows' : List (JobRecord π)} {enqueued' deleted' : List JobId}
    (h : Single s) (henqueued : s.enqueued ⊆ enqueued')
    (hrows : ∀ poller ∈ s.pollers, ∀ job ∈ poller.candidates, Current s job →
      ∀ row ∈ rows', row.id = job.id → row = job) :
    Single { s with rows := rows', enqueued := enqueued', deleted := deleted' } :=
  h.of_pollers (le_refl _) (fun poller hpoller => ⟨poller, hpoller, List.Sublist.refl _⟩)
    fun poller hpoller job hjob hcurrent =>
      hcurrent.of_rows henqueued (hrows poller hpoller job hjob hcurrent)

theorem eraseIdx_eq_nil (h : Single s) {place : Nat} {poller : Poller π}
    (hpoller : s.pollers[place]? = some poller) : s.pollers.eraseIdx place = [] := by
  obtain ⟨hlt, -⟩ := List.getElem?_eq_some_iff.1 hpoller
  have hone := h.one
  refine List.eq_nil_of_length_eq_zero ?_
  rw [List.length_eraseIdx_of_lt hlt]
  omega

theorem single_step (h : Single s) (hheld : HeldRun s) (haccounted : Accounted s) {a : Step π}
    (halone : Alone s a) : Single (step s a) := by
  cases a with
  | enqueue id payload runAt maxAttempts now =>
    by_cases hold : id ∈ s.enqueued
    · simpa only [step, if_pos hold] using h
    · have hnew : id ∉ s.rows.map JobRecord.id := fun hmem => hold (haccounted.enqueued id hmem)
      simp only [step, if_neg hold, JobRepo.enqueue, if_neg hnew]
      refine h.of_rows (List.subset_append_left _ _) fun poller _ job _ hcurrent row hrow hid => ?_
      rcases List.mem_append.1 hrow with hrow | hrow
      · exact hcurrent.2.2 row hrow hid
      · obtain rfl := List.mem_singleton.1 hrow
        have hmem := hcurrent.1
        rw [← hid] at hmem
        exact absurd hmem hold
  | requeue id now =>
    refine h.of_rows (List.Subset.refl _) fun poller _ job _ hcurrent => ?_
    exact Current.update (by intro old; rfl) hcurrent.2.2 (by simp [JobRepo.withId, hcurrent.2.1])
  | delete id =>
    refine h.of_rows (List.Subset.refl _) fun poller _ job _ hcurrent row hrow hid => ?_
    exact hcurrent.2.2 row (List.mem_filter.1 hrow).1 hid
  | start =>
    have hnone : s.pollers = [] := halone
    simp only [step, hnone, List.nil_append]
    refine ⟨le_refl _, fun poller hpoller => ?_, fun poller hpoller job hjob => ?_⟩
    · obtain rfl := List.mem_singleton.1 hpoller
      exact List.nodup_nil
    · obtain rfl := List.mem_singleton.1 hpoller
      cases hjob
  | select place now limit =>
    simp only [step]
    split
    · rename_i inFlight hpoller
      have hdue : ∀ job ∈ (JobRepo.dueJobs s.rows now).take limit,
          job ∈ s.rows ∧ job.status = .pending := by
        intro job hjob
        have hmem := List.mem_of_mem_take hjob
        rw [JobRepo.dueJobs, List.mem_insertionSort, List.mem_filter] at hmem
        have hisDue := hmem.2
        simp only [JobRepo.isDue, Bool.and_eq_true, decide_eq_true_eq] at hisDue
        exact ⟨hmem.1, hisDue.1⟩
      have hids : ((JobRepo.dueJobs s.rows now).map JobRecord.id).Nodup := by
        rw [JobRepo.dueJobs, ((List.perm_insertionSort _ _).map JobRecord.id).nodup_iff]
        exact hheld.keyed.sublist (List.filter_sublist.map JobRecord.id)
      refine ⟨by simpa using h.one, fun other hother => ?_, fun other hother job hjob => ?_⟩
      · rcases (mem_set_iff hpoller).1 hother with rfl | hother
        · exact hids.sublist ((List.take_sublist _ _).map JobRecord.id)
        · exact h.nodup other (List.mem_of_mem_eraseIdx hother)
      · rcases (mem_set_iff hpoller).1 hother with rfl | hother
        · obtain ⟨hrow, hpending⟩ := hdue job hjob
          refine ⟨haccounted.enqueued _ (List.mem_map_of_mem hrow), hpending, ?_⟩
          exact fun row hrow' hid => List.inj_on_of_nodup_map hheld.keyed hrow' hrow hid
        · exact h.current other (List.mem_of_mem_eraseIdx hother) job hjob
    · exact h
  | claim place =>
    cases hpoller : s.pollers[place]? with
    | none => simpa only [step, hpoller] using h
    | some poller =>
      obtain ⟨candidates, claimed, inFlight, draining⟩ := poller
      cases candidates with
      | nil => simpa only [step, hpoller] using h
      | cons job candidates =>
        have hmem := List.mem_of_getElem? hpoller
        obtain ⟨hfirst, hnodup⟩ := List.nodup_cons.1 (h.nodup _ hmem)
        -- the claim is about the first candidate only
        have hrows : ∀ other ∈ candidates, Current s other ∧
            ∀ row ∈ (JobRepo.claim s.rows job.id).1, row.id = other.id → row = other := by
          intro other hother
          have hcurrent := h.current _ hmem other (List.mem_cons_of_mem job hother)
          have hne : other.id ≠ job.id := fun heq => hfirst (heq ▸ List.mem_map_of_mem hother)
          refine ⟨hcurrent, Current.update (by intro old; rfl) hcurrent.2.2 ?_⟩
          simp [JobRepo.withId, hne]
        have hafter : ∀ claimed' : List (JobRecord π), Single { s with
            rows := (JobRepo.claim s.rows job.id).1
            pollers := s.pollers.set place ⟨candidates, claimed', inFlight, draining⟩ } := by
          intro claimed'
          have hothers := eraseIdx_eq_nil h hpoller
          refine ⟨(List.length_set ..).le.trans h.one, fun next hnext => ?_,
            fun next hnext other hother => ?_⟩
          · rcases (mem_set_iff hpoller).1 hnext with rfl | hnext
            · exact hnodup
            · simp [hothers] at hnext
          · rcases (mem_set_iff hpoller).1 hnext with rfl | hnext
            · obtain ⟨hcurrent, hkept⟩ := hrows other hother
              exact ⟨hcurrent.1, hcurrent.2.1, hkept⟩
            · simp [hothers] at hnext
        cases hclaim : JobRepo.claim s.rows job.id with
        | mk rows affected =>
          rw [hclaim] at hafter
          cases affected with
          | zero =>
            simp only [step, hpoller, hclaim]
            exact hafter claimed
          | succ n =>
            simp only [step, hpoller, hclaim]
            exact hafter _
  | claimFails place =>
    simp only [step]
    split
    · rename_i hpoller
      exact h.set hpoller (List.nil_sublist _)
    · exact h
  | spawn place =>
    simp only [step]
    split
    · rename_i hpoller
      exact h.set hpoller (List.Sublist.refl _)
    · exact h
  | finish place task outcome =>
    cases hpoller : s.pollers[place]? with
    | none => simpa only [step, hpoller] using h
    | some poller =>
      cases htask : poller.inFlight[task]? with
      | none => simpa only [step, hpoller, htask] using h
      | some job =>
        have hjob : job ∈ poller.held := List.mem_append_right _ (List.mem_of_getElem? htask)
        have hid : job.id ∈ s.heldIds := List.mem_map_of_mem
          (List.mem_flatMap.2 ⟨poller, List.mem_of_getElem? hpoller, hjob⟩)
        obtain ⟨row, hrow, hid, hrunning⟩ := hheld.running job.id hid
        simp only [step, hpoller, htask]
        have hset : Single { s with
            pollers := s.pollers.set place ⟨poller.candidates, poller.claimed,
              poller.inFlight.eraseIdx task, poller.draining⟩ } :=
          h.set hpoller (List.Sublist.refl _)
        refine hset.of_rows (List.Subset.refl _) ?_
        intro other _ waiting _ hcurrent row' hrow' hid'
        -- a waiting job is not the one that runs
        have hne : row'.id ≠ job.id := by
          intro heq
          have hsame := hcurrent.2.2 row hrow (hid.trans (heq.symm.trans hid'))
          have hpending := hcurrent.2.1
          rw [← hsame, hrunning] at hpending
          cases hpending
        exact hcurrent.2.2 row' ((mem_runOne_of_ne outcome hne).1 hrow') hid'
  | loseTask place task =>
    simp only [step]
    split
    · exact h
    · rename_i hpoller
      exact h.set hpoller (List.Sublist.refl _)
  | shutdown place =>
    simp only [step]
    split
    · rename_i hpoller
      exact h.set hpoller (List.Sublist.refl _)
    · exact h
  | exit place =>
    simp only [step]
    split
    · exact h.eraseIdx place
    · exact h
  | crash place => exact h.eraseIdx place

theorem single_start : Single (State.start : State π) := by
  refine ⟨Nat.zero_le 1, ?_, ?_⟩ <;>
    · intro poller hpoller
      cases hpoller

end Alone

/-! ## Runs -/

section Runs

variable {ledger : Ledger π}

theorem state_run (ledger : Ledger π) (steps : List (Step π)) :
    (Runs.run Ledger.step ledger steps).state = Runs.run step ledger.state steps := by
  induction steps generalizing ledger with
  | nil => rfl
  | cons a steps ih => exact ih (ledger.step a)

theorem books_start : Books (Ledger.start : Ledger π) := by
  refine ⟨⟨List.nodup_nil, List.nodup_nil, ?_⟩, ⟨?_, ?_, ?_⟩, ⟨?_, ?_, ?_⟩⟩ <;>
    · intro x hx
      cases hx

theorem books_run (h : Books ledger) {steps : List (Step π)}
    (hfresh : Runs.Throughout step Fresh ledger.state steps) :
    Books (Runs.run Ledger.step ledger steps) := by
  induction steps generalizing ledger with
  | nil => exact h
  | cons a steps ih =>
    obtain ⟨hhead, htail⟩ := Runs.throughout_cons.1 hfresh
    exact ih (books_step h hhead) htail

/-- Runs that have one poller at a time make fresh claims only. -/
theorem fresh_of_alone {steps : List (Step π)}
    (h : Runs.Throughout step Alone State.start steps) :
    Runs.Throughout step Fresh State.start steps := by
  have hstart : Single (State.start : State π) ∧ HeldRun (State.start : State π) ∧
      Accounted (State.start : State π) :=
    ⟨single_start, books_start.heldRun, books_start.accounted⟩
  intro earlier a later heq
  refine Single.fresh ?_ a
  have hearlier := (Runs.throughout_append.1 (heq ▸ h)).1
  have hkept := Runs.invariant (P := Alone)
    (I := fun s : State π => Single s ∧ HeldRun s ∧ Accounted s) (fun s a hinv halone =>
      ⟨single_step hinv.1 hinv.2.1 hinv.2.2 halone, heldRun_step hinv.2.1 hinv.2.2,
        accounted_step hinv.2.1.keyed hinv.2.2⟩) hstart hearlier
  exact hkept.1

/-- What a ledger shows of the budgets of the jobs. -/
structure BudgetKept (ledger : Ledger π) : Prop where
  bounded : ∀ row ∈ ledger.state.rows, ledger.started row.id ≤ max 1 row.maxAttempts
  waiting : ∀ row ∈ ledger.state.rows, row.status = .pending →
    ledger.started row.id = row.attempts ∧ (row.attempts = 0 ∨ row.attempts < row.maxAttempts)
  givenUp : ∀ row ∈ ledger.state.rows, row.status = .failed →
    row.lastError = some noHandler ∨
      (ledger.started row.id = row.attempts ∧ row.maxAttempts ≤ row.attempts)

/-- In every run with one poller at a time, and in every run in which no claim takes a job that
changed since it was read, no job is started more often than its budget allows since it was queued,
the attempts of a waiting job are the number of its starts, and a job is given up only when its
budget is used up or nothing handles it. -/
theorem budget_kept {steps : List (Step π)}
    (h : Runs.Throughout step Alone State.start steps ∨
      Runs.Throughout step Fresh State.start steps) :
    BudgetKept (Runs.run Ledger.step Ledger.start steps) := by
  have hbooks : Books (Runs.run Ledger.step (Ledger.start : Ledger π) steps) :=
    books_run books_start (h.elim fresh_of_alone id)
  refine ⟨fun row hrow => (hbooks.agree.entries row hrow).le_max, fun row hrow hpending => ?_,
    fun row hrow hfailed => ?_⟩
  · have hentry := hbooks.agree.entries row hrow
    simp only [Entry, hpending] at hentry
    exact hentry
  · have hentry := hbooks.agree.entries row hrow
    simp only [Entry, hfailed] at hentry
    rcases hentry with ⟨hnone, -⟩ | ⟨hstarted, hspent, -⟩
    · exact Or.inl hnone
    · exact Or.inr ⟨hstarted, hspent⟩

/-- A job with two attempts fails twice and is given up. -/
def failsTwice : List (Step Unit) :=
  [.enqueue 1 () 0 2 0, .start, .select 0 0 20, .claim 0, .spawn 0, .finish 0 0 (.error "down" 60),
    .select 0 60 20, .claim 0, .spawn 0, .finish 0 0 (.error "down" 180)]

theorem budget_kept_failsTwice :
    BudgetKept (Runs.run Ledger.step Ledger.start failsTwice) :=
  budget_kept (Or.inl (by decide +kernel))

end Runs

end Edda.Jobs.JobPoller
