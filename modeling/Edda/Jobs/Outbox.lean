import Edda.Db.JobRepo
import Edda.Support.Runs

/-!
# The outbox

Services append events, and dispatchers turn each into jobs. A dispatcher that has read an event
builds the payloads of its jobs, and then claims the event and enqueues the jobs in one transaction.
Any number of dispatchers work on the events, which they may have read at any time before, and each
can fail or stop at any point; what a transaction has not committed is lost. The row that a
transaction has changed is locked until it ends.

`fan_out_exactly_once` says what the transactions that commit have enqueued.
-/

set_option autoImplicit false

namespace Edda.Jobs.Outbox

open Edda.Db Edda.Support

abbrev EventId := BitVec 128

variable {ε δ π : Type}

/-- A row of `events`. -/
structure EventRecord (ε : Type) where
  id : EventId
  event : ε
  processedAt : Option Int
  deriving DecidableEq, Repr

/-- Where a dispatcher is with an event: it has read it, or built the payloads, or it has claimed
the event in a transaction that has enqueued some of the jobs. -/
inductive Phase (π : Type) where
  | fetched
  | built (payloads : List π)
  | claimed (now : Int) (payloads : List π) (remaining : List π) (enqueued : List (JobRecord π))

structure Process (ε π : Type) where
  eventId : EventId
  event : ε
  phase : Phase π

/-- The event that the transaction of a process has claimed. -/
def Process.claim (process : Process ε π) : Option EventId :=
  match process.phase with
  | .claimed _ _ _ _ => some process.eventId
  | _ => none

/-- A transaction that has committed: the payloads that were built for its event, and the jobs that
it has enqueued. -/
structure Committed (π : Type) where
  eventId : EventId
  payloads : List π
  enqueued : List (JobRecord π)

/-- `committed` are the transactions in the order of their commits; no code reads it. -/
structure State (ε π : Type) where
  events : List (EventRecord ε)
  jobs : List (JobRecord π)
  processes : List (Process ε π)
  committed : List (Committed π)

def State.start : State ε π := ⟨[], [], [], []⟩

/-- `fetch` names an event, and the steps after it a process by its place. A fan-out reads what the
database then holds. -/
inductive Step (ε δ : Type) where
  | append (id : EventId) (event : ε)
  | fetch (id : EventId)
  | fanOut (place : Nat) (db : δ)
  | markProcessed (place : Nat) (now : Int)
  | enqueue (place : Nat) (id : JobId) (now : Int)
  | commit (place : Nat)
  | stop (place : Nat)

def defaultMaxAttempts : Nat := 5

/-- The row of the event is locked by the transaction of a process. -/
def State.isLocked (s : State ε π) (id : EventId) : Prop :=
  id ∈ s.processes.filterMap Process.claim

instance (s : State ε π) (id : EventId) : Decidable (s.isLocked id) :=
  inferInstanceAs (Decidable (_ ∈ _))

def isOpen (id : EventId) (record : EventRecord ε) : Bool :=
  decide (record.id = id) && record.processedAt.isNone

/-- `UPDATE … SET processed_at = … WHERE id = … AND processed_at IS NULL`. -/
def markProcessed (events : List (EventRecord ε)) (id : EventId) (now : Int) :
    List (EventRecord ε) × Nat :=
  (Table.update events (isOpen id) fun record => { record with processedAt := some now },
    Table.affected events (isOpen id))

section Step

variable (fanOut : ε → δ → Except DbError (List π))

def step (s : State ε π) : Step ε δ → State ε π
  | .append id event =>
    -- the insert of an id that there is already fails
    if id ∈ s.events.map EventRecord.id then s
    else { s with events := s.events ++ [⟨id, event, none⟩] }
  | .fetch id => match Table.lookup EventRecord.id s.events id with
    | some ⟨_, event, none⟩ => { s with processes := s.processes ++ [⟨id, event, .fetched⟩] }
    | _ => s
  | .fanOut place db => match s.processes[place]? with
    | some ⟨id, event, .fetched⟩ => match fanOut event db with
      | .ok payloads => { s with processes := s.processes.set place ⟨id, event, .built payloads⟩ }
      | .error _ => { s with processes := s.processes.eraseIdx place }
    | _ => s
  | .markProcessed place now => match s.processes[place]? with
    | some ⟨id, event, .built payloads⟩ =>
      -- the update waits for the transaction that has the lock
      if s.isLocked id then s
      else match markProcessed s.events id now with
        -- another dispatcher has handled the event: the transaction is rolled back
        | (_, 0) => { s with processes := s.processes.eraseIdx place }
        | (_, _ + 1) =>
          let claimed := ⟨id, event, .claimed now payloads payloads []⟩
          { s with processes := s.processes.set place claimed }
    | _ => s
  | .enqueue place jobId now => match s.processes[place]? with
    | some ⟨id, event, .claimed at' payloads (payload :: remaining) enqueued⟩ =>
      let job := ⟨jobId, payload, .pending, 0, defaultMaxAttempts, now, none, now⟩
      let claimed := ⟨id, event, .claimed at' payloads remaining (enqueued ++ [job])⟩
      { s with processes := s.processes.set place claimed }
    | _ => s
  | .commit place => match s.processes[place]? with
    | some ⟨id, _, .claimed now payloads [] enqueued⟩ =>
      { s with
        events := (markProcessed s.events id now).1
        jobs := s.jobs ++ enqueued
        processes := s.processes.eraseIdx place
        committed := s.committed ++ [⟨id, payloads, enqueued⟩] }
    | _ => s
  -- a statement fails, or the dispatcher stops: its transaction is rolled back
  | .stop place => { s with processes := s.processes.eraseIdx place }

/-- The jobs of an event are enqueued once, all together, with its mark, and as its fan-out says. -/
structure ExactlyOnce (s : State ε π) : Prop where
  once : (s.committed.map Committed.eventId).Nodup
  processed : ∀ record ∈ s.events,
    record.processedAt ≠ none ↔ record.id ∈ s.committed.map Committed.eventId
  complete : ∀ entry ∈ s.committed, entry.enqueued.map JobRecord.payload = entry.payloads
  derived : ∀ entry ∈ s.committed, ∃ record ∈ s.events, record.id = entry.eventId ∧
    ∃ db, fanOut record.event db = .ok entry.payloads
  jobs : s.jobs = s.committed.flatMap Committed.enqueued

end Step

/-! ## What the processes hold -/

section Processes

variable {fanOut : ε → δ → Except DbError (List π)} {s : State ε π}

/-- The payloads that a process has built are those of its event, and its transaction has enqueued
the first of them. -/
def Phase.Sound (fanOut : ε → δ → Except DbError (List π)) (event : ε) : Phase π → Prop
  | .fetched => True
  | .built payloads => ∃ db, fanOut event db = .ok payloads
  | .claimed _ payloads remaining enqueued => (∃ db, fanOut event db = .ok payloads) ∧
    enqueued.map JobRecord.payload ++ remaining = payloads

/-- A process works on an event of the outbox. -/
structure Process.Sound (fanOut : ε → δ → Except DbError (List π)) (events : List (EventRecord ε))
    (process : Process ε π) : Prop where
  stored : ∃ record ∈ events, record.id = process.eventId ∧ record.event = process.event
  phase : process.phase.Sound fanOut process.event

def State.claims (s : State ε π) : List EventId := s.processes.filterMap Process.claim

/-- No event is claimed twice at a time, and what is claimed is open. -/
structure Inv (fanOut : ε → δ → Except DbError (List π)) (s : State ε π) : Prop where
  keyed : Table.Keyed EventRecord.id s.events
  exactly : ExactlyOnce fanOut s
  claims : s.claims.Nodup
  claimed : ∀ id ∈ s.claims, ∃ record ∈ s.events, record.id = id ∧ record.processedAt = none
  sound : ∀ process ∈ s.processes, process.Sound fanOut s.events

/-- A step that changes the processes alone keeps the rest. -/
theorem Inv.withProcesses (h : Inv fanOut s) {processes : List (Process ε π)}
    (hclaims : (processes.filterMap Process.claim).Nodup)
    (hclaimed : ∀ id ∈ processes.filterMap Process.claim,
      ∃ record ∈ s.events, record.id = id ∧ record.processedAt = none)
    (hsound : ∀ process ∈ processes, process.Sound fanOut s.events) :
    Inv fanOut { s with processes := processes } :=
  ⟨h.keyed, ⟨h.exactly.once, h.exactly.processed, h.exactly.complete, h.exactly.derived,
    h.exactly.jobs⟩, hclaims, hclaimed, hsound⟩

theorem claims_sublist (s : State ε π) (place : Nat) :
    ((s.processes.eraseIdx place).filterMap Process.claim).Sublist s.claims :=
  (List.eraseIdx_sublist s.processes place).filterMap Process.claim

/-- A process that stops leaves nothing behind. -/
theorem Inv.stop (h : Inv fanOut s) (place : Nat) :
    Inv fanOut { s with processes := s.processes.eraseIdx place } := by
  refine h.withProcesses ((claims_sublist s place).nodup h.claims) ?_ ?_
  · intro id hid
    exact h.claimed id ((claims_sublist s place).subset hid)
  · intro process hprocess
    exact h.sound process (List.mem_of_mem_eraseIdx hprocess)

theorem claims_perm {place : Nat} {process : Process ε π}
    (hprocess : s.processes[place]? = some process) :
    s.claims.Perm
      (process.claim.toList ++ (s.processes.eraseIdx place).filterMap Process.claim) := by
  obtain ⟨hlt, rfl⟩ := List.getElem?_eq_some_iff.1 hprocess
  have hperm := (List.getElem_cons_eraseIdx_perm hlt).symm.filterMap Process.claim
  refine hperm.trans (List.Perm.of_eq ?_)
  rw [List.filterMap_cons]
  cases (s.processes[place]).claim <;> rfl

theorem claims_set_perm {place : Nat} {process : Process ε π}
    (hprocess : s.processes[place]? = some process) (next : Process ε π) :
    ((s.processes.set place next).filterMap Process.claim).Perm
      (next.claim.toList ++ (s.processes.eraseIdx place).filterMap Process.claim) := by
  obtain ⟨hlt, rfl⟩ := List.getElem?_eq_some_iff.1 hprocess
  have hperm := (List.set_perm_cons_eraseIdx hlt next).filterMap Process.claim
  refine hperm.trans (List.Perm.of_eq ?_)
  rw [List.filterMap_cons]
  cases next.claim <;> rfl

/-- A process that goes on without a new claim. -/
theorem Inv.goOn (h : Inv fanOut s) {place : Nat} {process next : Process ε π}
    (hprocess : s.processes[place]? = some process) (hclaim : next.claim = process.claim)
    (hsound : next.Sound fanOut s.events) :
    Inv fanOut { s with processes := s.processes.set place next } := by
  have hperm := (claims_set_perm hprocess next).trans
    (hclaim ▸ (claims_perm hprocess).symm)
  refine h.withProcesses (hperm.nodup_iff.2 h.claims) ?_ ?_
  · intro id hid
    exact h.claimed id (hperm.mem_iff.1 hid)
  · intro other hother
    rcases List.mem_or_eq_of_mem_set hother with hold | rfl
    · exact h.sound other hold
    · exact hsound

theorem mem_markProcessed {events : List (EventRecord ε)} {id : EventId} {now : Int}
    {record : EventRecord ε} :
    record ∈ (markProcessed events id now).1 ↔ ∃ old ∈ events,
      record = if isOpen id old then { old with processedAt := some now } else old := by
  simp only [markProcessed, Table.update, List.mem_map, eq_comm]

theorem markProcessed_affected {events : List (EventRecord ε)} {id : EventId} {now : Int} :
    0 < (markProcessed events id now).2 ↔
      ∃ record ∈ events, record.id = id ∧ record.processedAt = none := by
  simp [markProcessed, Table.affected, isOpen]

/-- A process claims an open event that nobody has claimed. -/
theorem Inv.claim (h : Inv fanOut s) {place : Nat} {process next : Process ε π}
    (hprocess : s.processes[place]? = some process) (hnone : process.claim = none) {id : EventId}
    (hclaim : next.claim = some id) (hfree : id ∉ s.claims)
    (hopen : ∃ record ∈ s.events, record.id = id ∧ record.processedAt = none)
    (hsound : next.Sound fanOut s.events) :
    Inv fanOut { s with processes := s.processes.set place next } := by
  have hperm : ((s.processes.set place next).filterMap Process.claim).Perm (id :: s.claims) := by
    have hbefore := claims_perm hprocess
    have hafter := claims_set_perm hprocess next
    rw [hnone] at hbefore
    rw [hclaim] at hafter
    exact hafter.trans (hbefore.symm.cons id)
  refine h.withProcesses ?_ ?_ ?_
  · rw [hperm.nodup_iff, List.nodup_cons]
    exact ⟨hfree, h.claims⟩
  · intro other hother
    rcases List.mem_cons.1 (hperm.mem_iff.1 hother) with rfl | hold
    · exact hopen
    · exact h.claimed other hold
  · intro other hother
    rcases List.mem_or_eq_of_mem_set hother with hold | rfl
    · exact h.sound other hold
    · exact hsound

end Processes

/-! ## What a run keeps -/

section Runs

variable {fanOut : ε → δ → Except DbError (List π)} {s : State ε π}

theorem Inv.append (h : Inv fanOut s) {id : EventId} (event : ε)
    (hnew : id ∉ s.events.map EventRecord.id) :
    Inv fanOut { s with events := s.events ++ [⟨id, event, none⟩] } := by
  refine ⟨h.keyed.append hnew, ⟨h.exactly.once, ?_, h.exactly.complete, ?_, h.exactly.jobs⟩,
    h.claims, ?_, ?_⟩
  · intro record hrecord
    rcases List.mem_append.1 hrecord with hold | hsame
    · exact h.exactly.processed record hold
    · obtain rfl := List.mem_singleton.1 hsame
      refine ⟨fun hmark => absurd rfl hmark, fun hmem => ?_⟩
      obtain ⟨entry, hentry, hid⟩ := List.mem_map.1 hmem
      obtain ⟨record, hrecord, hid', -⟩ := h.exactly.derived entry hentry
      exact absurd (List.mem_map.2 ⟨record, hrecord, hid'.trans hid⟩) hnew
  · intro entry hentry
    obtain ⟨record, hrecord, hderived⟩ := h.exactly.derived entry hentry
    exact ⟨record, List.mem_append_left _ hrecord, hderived⟩
  · intro other hother
    obtain ⟨record, hrecord, hopen⟩ := h.claimed other hother
    exact ⟨record, List.mem_append_left _ hrecord, hopen⟩
  · intro process hprocess
    obtain ⟨⟨record, hrecord, hstored⟩, hphase⟩ := h.sound process hprocess
    exact ⟨⟨record, List.mem_append_left _ hrecord, hstored⟩, hphase⟩

theorem Inv.commit (h : Inv fanOut s) {place : Nat} {id : EventId} {event : ε} {now : Int}
    {payloads : List π} {enqueued : List (JobRecord π)}
    (hprocess : s.processes[place]? = some ⟨id, event, .claimed now payloads [] enqueued⟩) :
    Inv fanOut
      { s with
        events := (markProcessed s.events id now).1
        jobs := s.jobs ++ enqueued
        processes := s.processes.eraseIdx place
        committed := s.committed ++ [⟨id, payloads, enqueued⟩] } := by
  have hperm : s.claims.Perm (id :: (s.processes.eraseIdx place).filterMap Process.claim) :=
    claims_perm hprocess
  obtain ⟨hfree, hclaims⟩ := List.nodup_cons.1 (hperm.nodup_iff.1 h.claims)
  obtain ⟨row, hrow, hid, hopen⟩ := h.claimed id (hperm.mem_iff.2 List.mem_cons_self)
  obtain ⟨⟨record, hrecord, hsame, hevent⟩, hderived, hpayloads⟩ :=
    h.sound _ (List.mem_of_getElem? hprocess)
  have hkept : ∀ old ∈ s.events, ∃ record ∈ (markProcessed s.events id now).1,
      record.id = old.id ∧ record.event = old.event := by
    intro old hold
    refine ⟨_, mem_markProcessed.2 ⟨old, hold, rfl⟩, ?_⟩
    split <;> exact ⟨rfl, rfl⟩
  -- the event was open, so no transaction has enqueued its jobs
  have hnew : id ∉ s.committed.map Committed.eventId := by
    intro hmem
    exact (h.exactly.processed row hrow).2 (hid.symm ▸ hmem) hopen
  refine ⟨h.keyed.update fun _ => rfl, ⟨?_, ?_, ?_, ?_, ?_⟩, hclaims, ?_, ?_⟩
  · rw [List.map_append]
    refine List.nodup_append.2 ⟨h.exactly.once, List.nodup_singleton _, ?_⟩
    rintro other hother new hmem rfl
    rw [List.mem_singleton.1 hmem] at hother
    exact hnew hother
  · intro after hafter
    obtain ⟨old, hold, rfl⟩ := mem_markProcessed.1 hafter
    rw [List.map_append, List.mem_append]
    by_cases hmark : isOpen id old = true
    · have hold' : old.id = id ∧ old.processedAt = none := by simpa [isOpen] using hmark
      simp [if_pos hmark, hold'.1]
    · rw [if_neg hmark, h.exactly.processed old hold]
      refine ⟨Or.inl, fun hmem => hmem.resolve_right fun hthis => ?_⟩
      have hold' : old.id = id := by simpa using hthis
      obtain rfl := List.inj_on_of_nodup_map h.keyed hold hrow (hold'.trans hid.symm)
      exact hmark (by simp [isOpen, hold', hopen])
  · intro entry hentry
    rcases List.mem_append.1 hentry with hold | hsame
    · exact h.exactly.complete entry hold
    · obtain rfl := List.mem_singleton.1 hsame
      simpa using hpayloads
  · intro entry hentry
    rcases List.mem_append.1 hentry with hold | hnew
    · obtain ⟨old, hold, hid, hbuilt⟩ := h.exactly.derived entry hold
      obtain ⟨after, hafter, hid', hevent'⟩ := hkept old hold
      exact ⟨after, hafter, hid'.trans hid, hevent' ▸ hbuilt⟩
    · obtain rfl := List.mem_singleton.1 hnew
      obtain ⟨after, hafter, hid', hevent'⟩ := hkept record hrecord
      refine ⟨after, hafter, hid'.trans hsame, ?_⟩
      rw [hevent', hevent]
      exact hderived
  · rw [List.flatMap_append, ← h.exactly.jobs]
    simp
  · intro other hother
    obtain ⟨old, hold, hid', hopen'⟩ := h.claimed other (hperm.mem_iff.2 (List.mem_cons_of_mem _ hother))
    refine ⟨old, mem_markProcessed.2 ⟨old, hold, ?_⟩, hid', hopen'⟩
    have hne : old.id ≠ id := by
      rintro heq
      rw [← heq, hid'] at hfree
      exact hfree hother
    rw [if_neg (by simp [isOpen, hne])]
  · intro process hprocess
    obtain ⟨⟨old, hold, hid', hevent'⟩, hphase⟩ :=
      h.sound process (List.mem_of_mem_eraseIdx hprocess)
    obtain ⟨after, hafter, hid'', hevent''⟩ := hkept old hold
    exact ⟨⟨after, hafter, hid''.trans hid', hevent''.trans hevent'⟩, hphase⟩

theorem inv_step (h : Inv fanOut s) (a : Step ε δ) : Inv fanOut (step fanOut s a) := by
  cases a with
  | append id event =>
    simp only [step]
    split
    · exact h
    · rename_i hnew
      exact h.append event hnew
  | fetch id =>
    simp only [step]
    split
    · rename_i id' event hlookup
      obtain ⟨hmem, hid⟩ := Table.mem_of_lookup hlookup
      have hclaims :
          (s.processes ++ [(⟨id, event, .fetched⟩ : Process ε π)]).filterMap Process.claim =
            s.claims := by
        rw [List.filterMap_append]
        simp [Process.claim, State.claims]
      refine h.withProcesses (hclaims ▸ h.claims) (fun other hother => h.claimed other
        (hclaims ▸ hother)) ?_
      intro process hprocess
      rcases List.mem_append.1 hprocess with hold | hsame
      · exact h.sound process hold
      · obtain rfl := List.mem_singleton.1 hsame
        exact ⟨⟨_, hmem, hid, rfl⟩, trivial⟩
    · exact h
  | fanOut place db =>
    simp only [step]
    split
    · rename_i id event hprocess
      split
      · rename_i payloads hbuilt
        refine h.goOn hprocess rfl ⟨(h.sound _ (List.mem_of_getElem? hprocess)).stored, ?_⟩
        exact ⟨db, hbuilt⟩
      · exact h.stop place
    · exact h
  | markProcessed place now =>
    simp only [step]
    split
    · rename_i id event payloads hprocess
      split
      · exact h
      · rename_i hlocked
        have hsound := h.sound _ (List.mem_of_getElem? hprocess)
        split
        · exact h.stop place
        · rename_i events n hmark
          have haffected : 0 < (markProcessed s.events id now).2 := by
            rw [hmark]
            exact Nat.succ_pos n
          exact h.claim hprocess rfl rfl hlocked (markProcessed_affected.1 haffected)
            ⟨hsound.stored, hsound.phase, rfl⟩
    · exact h
  | enqueue place jobId now =>
    simp only [step]
    split
    · rename_i id event claimedAt payloads payload remaining enqueued hprocess
      obtain ⟨hstored, hderived, hpayloads⟩ := h.sound _ (List.mem_of_getElem? hprocess)
      refine h.goOn hprocess rfl ⟨hstored, hderived, ?_⟩
      simpa using hpayloads
    · exact h
  | commit place =>
    simp only [step]
    split
    · rename_i id event now payloads enqueued hprocess
      exact h.commit hprocess
    · exact h
  | stop place => exact h.stop place

/-- However the dispatchers interleave and wherever they stop, at most one transaction enqueues the
jobs of an event, it enqueues all of them, and an event is marked as processed exactly if one has. -/
theorem fan_out_exactly_once (fanOut : ε → δ → Except DbError (List π)) (steps : List (Step ε δ)) :
    ExactlyOnce fanOut (Runs.run (step fanOut) State.start steps) := by
  have hstart : Inv fanOut (State.start : State ε π) := by
    refine ⟨List.nodup_nil, ⟨List.nodup_nil, ?_, ?_, ?_, rfl⟩, List.nodup_nil, ?_, ?_⟩ <;>
      · intro _ hmem
        cases hmem
  suffices h : Inv fanOut (Runs.run (step fanOut) State.start steps) from h.exactly
  induction steps using List.reverseRecOn with
  | nil => exact hstart
  | append_singleton steps a ih =>
    rw [Runs.run_concat]
    exact inv_step ih a

end Runs

end Edda.Jobs.Outbox
