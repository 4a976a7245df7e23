import Edda.Db.Database
import Edda.Support.Runs
import Edda.Support.Table

/-!
# The numbers of issues and pull requests

Issues and pull requests of a repository share one sequence of numbers. A call inserts the counter
of the repository where there is none, and then reads the counter and tries to advance it from the
value that it has read, a bounded number of times. Every statement runs by itself: the statements of
any number of calls interleave, and any of them can fail.

`next_number_exact` says what the calls of a run return.
-/

set_option autoImplicit false

namespace Edda.Db.RepoNumber

open Edda.Domain Edda.Support

/-! ## The table -/

/-- A row of `repo_number_counters`, whose key is the repository. -/
structure CounterRow where
  repositoryId : RepositoryId
  nextNumber : Int
  deriving DecidableEq, Repr

section Table

variable (rows : List CounterRow) (repositoryId : RepositoryId)

/-- `INSERT … VALUES (…, 1) ON CONFLICT (repository_id) DO NOTHING`. -/
def ensureCounterRow : List CounterRow :=
  if repositoryId ∈ rows.map CounterRow.repositoryId then rows else rows ++ [⟨repositoryId, 1⟩]

def readCurrent : Option Int :=
  (Table.lookup CounterRow.repositoryId rows repositoryId).map CounterRow.nextNumber

/-- `UPDATE … SET next_number = … WHERE repository_id = … AND next_number = …`, with the number of
rows that it affects. -/
def tryAdvance (expectedCurrent : Int) : List CounterRow × Nat :=
  let selected := fun row : CounterRow =>
    decide (row.repositoryId = repositoryId ∧ row.nextNumber = expectedCurrent)
  (Table.update rows selected fun row => { row with nextNumber := expectedCurrent + 1 },
    Table.affected rows selected)

end Table

/-! ## The calls -/

def maxAttempts : Nat := 10

inductive NextNumberError where
  | contended (attempts : Nat)
  | db (err : DbError)
  | overflow
  deriving DecidableEq, Repr

/-- A call, by the statement that it makes next. The loop has `left` more attempts. -/
inductive Call where
  | ensureCounterRow
  | readCurrent (left : Nat)
  | tryAdvance (left : Nat) (current : Int)
  | returned (result : Except NextNumberError Int)
  deriving DecidableEq, Repr

/-- The next attempt of the loop, if there is one. -/
def attempt : Nat → Call
  | 0 => .returned (.error (.contended maxAttempts))
  | left + 1 => .readCurrent left

def maxNumber : Int := 2 ^ 63 - 1

/-- One statement of a call. -/
def runStatement (rows : List CounterRow) (repositoryId : RepositoryId) :
    Call → List CounterRow × Call
  | .ensureCounterRow => (ensureCounterRow rows repositoryId, attempt maxAttempts)
  | .readCurrent left => match readCurrent rows repositoryId with
    | none => (rows, .returned (.error (.db "no rows returned")))
    | some current => (rows, .tryAdvance left current)
  | .tryAdvance left current =>
    -- a sum that overflows panics
    if current = maxNumber then (rows, .returned (.error .overflow))
    else match tryAdvance rows repositoryId current with
      -- another call has advanced the counter
      | (rows, 0) => (rows, attempt left)
      | (rows, _ + 1) => (rows, .returned (.ok current))
  | .returned result => (rows, .returned result)

/-- The table, and the calls for each repository. -/
structure State where
  rows : List CounterRow
  calls : RepositoryId → List Call

def State.start : State := ⟨[], fun _ => []⟩

/-- A new call for a repository, or a statement of one of its calls, which can fail. -/
inductive Step where
  | call (repositoryId : RepositoryId)
  | statement (repositoryId : RepositoryId) (place : Nat) (fault : Option DbError)
  deriving DecidableEq, Repr

def Step.repositoryId : Step → RepositoryId
  | .call repositoryId => repositoryId
  | .statement repositoryId _ _ => repositoryId

def State.setCalls (s : State) (repositoryId : RepositoryId) (calls : List Call) : State :=
  { s with calls := Function.update s.calls repositoryId calls }

def step (s : State) : Step → State
  | .call repositoryId =>
    s.setCalls repositoryId (s.calls repositoryId ++ [.ensureCounterRow])
  | .statement repositoryId place fault => match (s.calls repositoryId)[place]? with
    | none => s
    | some (.returned _) => s
    | some call => match fault with
      | some err =>
        s.setCalls repositoryId ((s.calls repositoryId).set place (.returned (.error (.db err))))
      | none => match runStatement s.rows repositoryId call with
        | (rows, call) =>
          { s with rows := rows }.setCalls repositoryId ((s.calls repositoryId).set place call)

/-! ## What the calls return -/

def Call.number : Call → Option Int
  | .returned (.ok number) => some number
  | _ => none

/-- The numbers that the successful calls for a repository have returned. -/
def State.returned (s : State) (repositoryId : RepositoryId) : List Int :=
  (s.calls repositoryId).filterMap Call.number

/-- The number that the next call for a repository gets. -/
def State.nextNumber (s : State) (repositoryId : RepositoryId) : Int :=
  (readCurrent s.rows repositoryId).getD 1

/-- The numbers `1, …, n`. -/
def numbersTo (n : Nat) : List Int := (List.range n).map fun k : Nat => (k : Int) + 1

/-- What a repository sees of a state: its counter and its calls. -/
def State.view (s : State) (repositoryId : RepositoryId) : Option Int × List Call :=
  (readCurrent s.rows repositoryId, s.calls repositoryId)

/-- The successful calls have returned the numbers from one on, each once, and the counter is past
these and no others. -/
structure Numbered (s : State) (repositoryId : RepositoryId) : Prop where
  returned : (s.returned repositoryId).Perm (numbersTo (s.returned repositoryId).length)
  nextNumber : s.nextNumber repositoryId = (s.returned repositoryId).length + 1

/-! ## What the statements do -/

section Table

variable {rows : List CounterRow} {repositoryId : RepositoryId}

theorem readCurrent_eq_none :
    readCurrent rows repositoryId = none ↔ repositoryId ∉ rows.map CounterRow.repositoryId := by
  simp only [readCurrent, Option.map_eq_none_iff, Table.lookup_eq_none]

theorem readCurrent_ensureCounterRow (other : RepositoryId) :
    readCurrent (ensureCounterRow rows repositoryId) other =
      if other = repositoryId then some ((readCurrent rows repositoryId).getD 1)
      else readCurrent rows other := by
  simp only [ensureCounterRow]
  by_cases hrow : repositoryId ∈ rows.map CounterRow.repositoryId
  · rw [if_pos hrow]
    by_cases hother : other = repositoryId
    · subst hother
      cases hread : readCurrent rows other with
      | none => exact absurd hrow (readCurrent_eq_none.1 hread)
      | some current => simp
    · rw [if_neg hother]
  · rw [if_neg hrow, readCurrent, Table.lookup_append]
    by_cases hother : other = repositoryId
    · subst hother
      rw [if_pos rfl, readCurrent, Table.lookup_eq_none.2 hrow]
      simp
    · rw [if_neg hother, if_neg (Ne.symm hother)]
      simp [readCurrent]

theorem keyed_ensureCounterRow (hkeys : Table.Keyed CounterRow.repositoryId rows) :
    Table.Keyed CounterRow.repositoryId (ensureCounterRow rows repositoryId) := by
  simp only [ensureCounterRow]
  split
  · exact hkeys
  · rename_i hnew
    exact hkeys.append hnew

/-- The update takes place where the counter is at the expected value. -/
theorem tryAdvance_affected (hkeys : Table.Keyed CounterRow.repositoryId rows) (current : Int) :
    0 < (tryAdvance rows repositoryId current).2 ↔
      readCurrent rows repositoryId = some current := by
  rw [tryAdvance, Table.affected_pos hkeys (k := repositoryId) (by simp +contextual)]
  simp only [readCurrent, Option.map_eq_some_iff, decide_eq_true_eq]
  refine exists_congr fun row => and_congr_right fun hrow => ?_
  rw [(Table.mem_of_lookup hrow).2]
  exact and_iff_right rfl

theorem readCurrent_tryAdvance (current : Int) (other : RepositoryId) :
    readCurrent (tryAdvance rows repositoryId current).1 other =
      if other = repositoryId ∧ readCurrent rows other = some current then some (current + 1)
      else readCurrent rows other := by
  have hafter : readCurrent (tryAdvance rows repositoryId current).1 other =
      (Table.lookup CounterRow.repositoryId rows other).map fun row =>
        if row.repositoryId = repositoryId ∧ row.nextNumber = current then current + 1
        else row.nextNumber := by
    simp only [readCurrent, tryAdvance]
    rw [Table.lookup_update]
    · rw [Option.map_map]
      refine Option.map_congr fun row _ => ?_
      simp only [Function.comp, decide_eq_true_eq]
      split <;> rfl
    · intro row
      rfl
  rw [hafter]
  cases hfind : Table.lookup CounterRow.repositoryId rows other with
  | none =>
    have hread : readCurrent rows other = none := by rw [readCurrent, hfind, Option.map_none]
    simp [hread]
  | some row =>
    have hread : readCurrent rows other = some row.nextNumber := by
      rw [readCurrent, hfind, Option.map_some]
    simp only [Option.map_some, (Table.mem_of_lookup hfind).2, hread, Option.some.injEq]
    split <;> rfl

theorem keyed_tryAdvance (hkeys : Table.Keyed CounterRow.repositoryId rows) (current : Int) :
    Table.Keyed CounterRow.repositoryId (tryAdvance rows repositoryId current).1 :=
  hkeys.update fun _ => rfl

/-- The attempt to advance, by what the counter is at. -/
theorem runStatement_tryAdvance (hkeys : Table.Keyed CounterRow.repositoryId rows) (left : Nat)
    (current : Int) :
    runStatement rows repositoryId (.tryAdvance left current) =
      if current = maxNumber then (rows, .returned (.error .overflow))
      else ((tryAdvance rows repositoryId current).1,
        if readCurrent rows repositoryId = some current then .returned (.ok current)
        else attempt left) := by
  have haffected : 0 < (tryAdvance rows repositoryId current).2 ↔
      readCurrent rows repositoryId = some current := tryAdvance_affected hkeys current
  simp only [runStatement]
  split
  · rfl
  · split
    · rename_i rows' htry
      rw [htry] at haffected ⊢
      rw [if_neg fun hread => absurd (haffected.2 hread) (lt_irrefl 0)]
    · rename_i rows' n htry
      rw [htry] at haffected ⊢
      rw [if_pos (haffected.1 (Nat.succ_pos n))]

theorem keyed_runStatement (hkeys : Table.Keyed CounterRow.repositoryId rows) (call : Call) :
    Table.Keyed CounterRow.repositoryId (runStatement rows repositoryId call).1 := by
  cases call with
  | ensureCounterRow => exact keyed_ensureCounterRow hkeys
  | readCurrent left =>
    simp only [runStatement]
    split <;> exact hkeys
  | tryAdvance left current =>
    rw [runStatement_tryAdvance hkeys]
    split
    · exact hkeys
    · exact keyed_tryAdvance hkeys current
  | returned result => exact hkeys

/-- Either a statement returns no number and leaves the number that comes next, or it returns this
number and goes past it. -/
theorem runStatement_cases (hkeys : Table.Keyed CounterRow.repositoryId rows) (call : Call)
    (hrunning : call.number = none) :
    ((runStatement rows repositoryId call).2.number = none ∧
        (readCurrent (runStatement rows repositoryId call).1 repositoryId).getD 1 =
          (readCurrent rows repositoryId).getD 1) ∨
      ∃ current, readCurrent rows repositoryId = some current ∧
        (runStatement rows repositoryId call).2 = .returned (.ok current) ∧
        readCurrent (runStatement rows repositoryId call).1 repositoryId = some (current + 1) := by
  have hattempt : ∀ left, (attempt left).number = none := by
    intro left
    cases left <;> rfl
  cases call with
  | ensureCounterRow =>
    refine Or.inl ⟨hattempt maxAttempts, ?_⟩
    rw [runStatement, readCurrent_ensureCounterRow, if_pos rfl, Option.getD_some]
  | readCurrent left =>
    simp only [runStatement]
    split <;> exact Or.inl ⟨rfl, rfl⟩
  | tryAdvance left current =>
    rw [runStatement_tryAdvance hkeys]
    split
    · exact Or.inl ⟨rfl, rfl⟩
    · simp only [readCurrent_tryAdvance, true_and]
      by_cases hread : readCurrent rows repositoryId = some current
      · simp only [if_pos hread]
        exact Or.inr ⟨current, hread, rfl, rfl⟩
      · simp only [if_neg hread]
        exact Or.inl ⟨hattempt left, trivial⟩
  | returned result => exact Or.inl ⟨hrunning, rfl⟩

/-- A statement leaves the counters of the other repositories alone. -/
theorem readCurrent_runStatement_of_ne (hkeys : Table.Keyed CounterRow.repositoryId rows)
    {other : RepositoryId} (hother : other ≠ repositoryId) (call : Call) :
    readCurrent (runStatement rows repositoryId call).1 other = readCurrent rows other := by
  cases call with
  | ensureCounterRow => rw [runStatement, readCurrent_ensureCounterRow, if_neg hother]
  | readCurrent left =>
    simp only [runStatement]
    split <;> rfl
  | tryAdvance left current =>
    rw [runStatement_tryAdvance hkeys]
    split
    · rfl
    · rw [readCurrent_tryAdvance, if_neg fun h => hother h.1]
  | returned result => rfl

/-- What a statement does to its call and to its counter depends on this counter alone. -/
theorem runStatement_congr {rows' : List CounterRow}
    (hkeys : Table.Keyed CounterRow.repositoryId rows)
    (hkeys' : Table.Keyed CounterRow.repositoryId rows')
    (hread : readCurrent rows repositoryId = readCurrent rows' repositoryId) (call : Call) :
    (runStatement rows repositoryId call).2 = (runStatement rows' repositoryId call).2 ∧
      readCurrent (runStatement rows repositoryId call).1 repositoryId =
        readCurrent (runStatement rows' repositoryId call).1 repositoryId := by
  cases call with
  | ensureCounterRow =>
    refine ⟨rfl, ?_⟩
    simp only [runStatement, readCurrent_ensureCounterRow, hread]
  | readCurrent left =>
    simp only [runStatement, hread]
    split <;> exact ⟨rfl, hread⟩
  | tryAdvance left current =>
    rw [runStatement_tryAdvance hkeys, runStatement_tryAdvance hkeys', hread]
    split
    · exact ⟨rfl, hread⟩
    · refine ⟨rfl, ?_⟩
      rw [readCurrent_tryAdvance, readCurrent_tryAdvance, hread]
  | returned result => exact ⟨rfl, hread⟩

end Table

/-! ## What the steps of a run do -/

section Runs

variable {s t : State} {a : Step} {repositoryId : RepositoryId}

theorem calls_setCalls (calls : List Call) (other : RepositoryId) :
    (s.setCalls repositoryId calls).calls other =
      if other = repositoryId then calls else s.calls other := by
  simp only [State.setCalls, Function.update_apply]

/-- A statement of a call that has not returned, as it is made. -/
theorem step_statement {place : Nat} {call : Call}
    (hcall : (s.calls repositoryId)[place]? = some call) (hrunning : ∀ result, call ≠ .returned result)
    (fault : Option DbError) :
    step s (.statement repositoryId place fault) = match fault with
      | some err =>
        s.setCalls repositoryId ((s.calls repositoryId).set place (.returned (.error (.db err))))
      | none => { s with rows := (runStatement s.rows repositoryId call).1 }.setCalls repositoryId
          ((s.calls repositoryId).set place (runStatement s.rows repositoryId call).2) := by
  simp only [step, hcall]

/-- A step makes a statement of a call that has not returned, or changes at most the calls. -/
theorem step_cases (s : State) (a : Step) :
    (∃ place call, (s.calls a.repositoryId)[place]? = some call ∧
        (∀ result, call ≠ .returned result) ∧
        step s a = { s with rows := (runStatement s.rows a.repositoryId call).1 }.setCalls
          a.repositoryId
          ((s.calls a.repositoryId).set place (runStatement s.rows a.repositoryId call).2)) ∨
      step s a = s ∨ step s a = s.setCalls a.repositoryId (s.calls a.repositoryId ++ [.ensureCounterRow]) ∨
      ∃ place call err, (s.calls a.repositoryId)[place]? = some call ∧
        (∀ result, call ≠ .returned result) ∧
        step s a = s.setCalls a.repositoryId
          ((s.calls a.repositoryId).set place (.returned (.error (.db err)))) := by
  cases a with
  | call repositoryId => exact Or.inr (Or.inr (Or.inl rfl))
  | statement repositoryId place fault =>
    cases hcall : (s.calls repositoryId)[place]? with
    | none => exact Or.inr (Or.inl (by simp only [step, hcall]))
    | some call =>
      by_cases hrunning : ∀ result, call ≠ .returned result
      · have hstep := step_statement hcall hrunning fault
        cases fault with
        | none => exact Or.inl ⟨place, call, hcall, hrunning, hstep⟩
        | some err => exact Or.inr (Or.inr (Or.inr ⟨place, call, err, hcall, hrunning, hstep⟩))
      · simp only [not_forall, not_not] at hrunning
        obtain ⟨result, rfl⟩ := hrunning
        exact Or.inr (Or.inl (by simp only [step, hcall]))

theorem keyed_step (hkeys : Table.Keyed CounterRow.repositoryId s.rows) :
    Table.Keyed CounterRow.repositoryId (step s a).rows := by
  rcases step_cases s a with ⟨place, call, -, -, heq⟩ | heq | heq | ⟨place, call, err, -, -, heq⟩
  · rw [heq]
    exact keyed_runStatement hkeys call
  · rw [heq]
    exact hkeys
  · rw [heq]
    exact hkeys
  · rw [heq]
    exact hkeys

/-- A step for one repository is not seen by another. -/
theorem view_step_of_ne (hkeys : Table.Keyed CounterRow.repositoryId s.rows)
    (hother : repositoryId ≠ a.repositoryId) :
    (step s a).view repositoryId = s.view repositoryId := by
  rcases step_cases s a with ⟨place, call, -, -, heq⟩ | heq | heq | ⟨place, call, err, -, -, heq⟩
  · rw [heq, State.view, calls_setCalls, if_neg hother]
    exact Prod.ext (readCurrent_runStatement_of_ne hkeys hother call) rfl
  · rw [heq]
  · rw [heq, State.view, calls_setCalls, if_neg hother]
    rfl
  · rw [heq, State.view, calls_setCalls, if_neg hother]
    rfl

/-- What a repository sees after a step for it depends on what it saw before. -/
theorem view_step_congr (hkeys : Table.Keyed CounterRow.repositoryId s.rows)
    (hkeys' : Table.Keyed CounterRow.repositoryId t.rows)
    (hview : s.view a.repositoryId = t.view a.repositoryId) :
    (step s a).view a.repositoryId = (step t a).view a.repositoryId := by
  have hread : readCurrent s.rows a.repositoryId = readCurrent t.rows a.repositoryId :=
    congrArg Prod.fst hview
  have hcalls : s.calls a.repositoryId = t.calls a.repositoryId := congrArg Prod.snd hview
  cases a with
  | call repositoryId =>
    simp only [Step.repositoryId] at hread hcalls ⊢
    simp only [State.view, step, calls_setCalls, if_true, hcalls]
    exact Prod.ext hread rfl
  | statement repositoryId place fault =>
    simp only [Step.repositoryId] at hread hcalls hview ⊢
    cases hcall : (s.calls repositoryId)[place]? with
    | none => simpa only [step, hcall, hcalls ▸ hcall] using hview
    | some call =>
      have hcall' := hcalls ▸ hcall
      by_cases hrunning : ∀ result, call ≠ .returned result
      · rw [step_statement hcall hrunning, step_statement hcall' hrunning]
        obtain ⟨hsame, hcounter⟩ := runStatement_congr hkeys hkeys' hread call
        cases fault with
        | none =>
          simp only [State.view, calls_setCalls, if_true, hcalls, hsame]
          exact Prod.ext hcounter rfl
        | some err =>
          simp only [State.view, calls_setCalls, if_true, hcalls]
          exact Prod.ext hread rfl
      · simp only [not_forall, not_not] at hrunning
        obtain ⟨result, rfl⟩ := hrunning
        simpa only [step, hcall, hcall'] using hview

theorem Numbered.of_view (hview : s.view repositoryId = t.view repositoryId)
    (h : Numbered s repositoryId) : Numbered t repositoryId := by
  have hnext : s.nextNumber repositoryId = t.nextNumber repositoryId :=
    congrArg (fun view => view.1.getD 1) hview
  have hreturned : s.returned repositoryId = t.returned repositoryId :=
    congrArg (fun view => view.2.filterMap Call.number) hview
  exact ⟨hreturned ▸ h.returned, hnext ▸ hreturned ▸ h.nextNumber⟩

theorem number_of_running {call : Call} (hrunning : ∀ result, call ≠ .returned result) :
    call.number = none := by
  cases call with
  | returned result => exact absurd rfl (hrunning result)
  | _ => rfl

/-- The numbers that are returned after a call has moved on. -/
theorem filterMap_set {calls : List Call} {place : Nat} {call : Call}
    (hcall : calls[place]? = some call) (hrunning : call.number = none) (next : Call) :
    ((calls.set place next).filterMap Call.number).Perm
      (next.number.toList ++ calls.filterMap Call.number) := by
  obtain ⟨hlt, rfl⟩ := List.getElem?_eq_some_iff.1 hcall
  obtain ⟨before, after, hcalls, -, hset⟩ := @List.exists_of_set _ place next calls hlt
  rw [hset]
  conv_rhs => rw [hcalls]
  simp only [List.filterMap_append, List.filterMap_cons, hrunning]
  cases next.number with
  | none => exact List.Perm.refl _
  | some number => exact List.perm_middle

theorem numbersTo_succ (n : Nat) : numbersTo (n + 1) = numbersTo n ++ [(n : Int) + 1] := by
  simp only [numbersTo, List.range_succ, List.map_append, List.map_cons, List.map_nil]

theorem numbered_step (hkeys : Table.Keyed CounterRow.repositoryId s.rows)
    (h : Numbered s repositoryId) : Numbered (step s a) repositoryId := by
  by_cases hother : repositoryId = a.repositoryId
  · subst hother
    rcases step_cases s a with ⟨place, call, hcall, hrunning, heq⟩ | heq | heq |
      ⟨place, call, err, hcall, hrunning, heq⟩
    · have hperm := filterMap_set hcall (number_of_running hrunning)
        (runStatement s.rows a.repositoryId call).2
      have hafter : (step s a).returned a.repositoryId =
          ((s.calls a.repositoryId).set place
            (runStatement s.rows a.repositoryId call).2).filterMap Call.number := by
        rw [heq, State.returned, calls_setCalls, if_pos rfl]
      rw [← hafter] at hperm
      have hlength := hperm.length_eq
      have hrows : (step s a).rows = (runStatement s.rows a.repositoryId call).1 := by rw [heq]; rfl
      rcases runStatement_cases hkeys call (number_of_running hrunning) with
        ⟨hnone, hnext⟩ | ⟨current, hread, hreturned, hcounter⟩
      · rw [hnone] at hperm hlength
        refine ⟨?_, ?_⟩
        · rw [hlength]
          exact hperm.trans h.returned
        · rw [State.nextNumber, hrows, hnext, hlength]
          exact h.nextNumber
      · -- the call returns the number after those that were returned
        have hcurrent : current = (s.returned a.repositoryId).length + 1 := by
          rw [← h.nextNumber, State.nextNumber, hread, Option.getD_some]
        simp only [hreturned, Call.number, Option.toList_some, List.length_append,
          List.length_singleton] at hperm hlength
        have hlength' : ((step s a).returned a.repositoryId).length =
            (s.returned a.repositoryId).length + 1 := by
          rw [hlength, Nat.add_comm]
          rfl
        refine ⟨?_, ?_⟩
        · rw [hlength', numbersTo_succ, ← hcurrent]
          exact hperm.trans ((List.Perm.cons current h.returned).trans
            (List.perm_append_singleton current _).symm)
        · rw [State.nextNumber, hrows, hcounter, Option.getD_some, hlength', hcurrent]
          push_cast
          ring
    · rw [heq]
      exact h
    · have hreturned : (step s a).returned a.repositoryId = s.returned a.repositoryId := by
        rw [heq, State.returned, calls_setCalls, if_pos rfl, List.filterMap_append]
        simp [State.returned, Call.number]
      have hnext : (step s a).nextNumber a.repositoryId = s.nextNumber a.repositoryId := by
        rw [heq]
        rfl
      exact ⟨hreturned ▸ h.returned, hnext ▸ hreturned ▸ h.nextNumber⟩
    · have hperm := filterMap_set hcall (number_of_running hrunning)
        (.returned (.error (.db err)))
      have hafter : (step s a).returned a.repositoryId =
          ((s.calls a.repositoryId).set place
            (.returned (.error (.db err)))).filterMap Call.number := by
        rw [heq, State.returned, calls_setCalls, if_pos rfl]
      rw [← hafter] at hperm
      have hnext : (step s a).nextNumber a.repositoryId = s.nextNumber a.repositoryId := by
        rw [heq]
        rfl
      refine ⟨?_, ?_⟩
      · rw [hperm.length_eq]
        exact hperm.trans h.returned
      · rw [hnext, hperm.length_eq]
        exact h.nextNumber
  · exact h.of_view (view_step_of_ne hkeys hother).symm

theorem numbered_run (steps : List Step) (repositoryId : RepositoryId) :
    Table.Keyed CounterRow.repositoryId (Runs.run step State.start steps).rows ∧
      Numbered (Runs.run step State.start steps) repositoryId := by
  induction steps using List.reverseRecOn with
  | nil => exact ⟨List.nodup_nil, List.Perm.refl _, rfl⟩
  | append_singleton steps a ih =>
    rw [Runs.run_concat]
    exact ⟨keyed_step ih.1, numbered_step ih.1 ih.2⟩

/-- A repository sees of a run what it sees of the steps for itself. -/
theorem view_run (steps : List Step) :
    (Runs.run step State.start steps).view repositoryId =
      (Runs.run step State.start
        (steps.filter fun a => a.repositoryId = repositoryId)).view repositoryId := by
  induction steps using List.reverseRecOn with
  | nil => rfl
  | append_singleton steps a ih =>
    have hkeys := (numbered_run steps repositoryId).1
    rw [Runs.run_concat, List.filter_append]
    by_cases hown : a.repositoryId = repositoryId
    · subst hown
      rw [List.filter_cons_of_pos (by simp), List.filter_nil, Runs.run_concat]
      exact view_step_congr hkeys (numbered_run _ a.repositoryId).1 ih
    · rw [view_step_of_ne hkeys (Ne.symm hown), ih]
      simp [hown]

/-- The calls of any run that succeed return the numbers from one on, each of them once, a call that
fails takes no number away, and a repository sees nothing of the calls for the others. -/
theorem next_number_exact (steps : List Step) (repositoryId : RepositoryId) :
    ((Runs.run step State.start steps).returned repositoryId).Nodup ∧
      ((Runs.run step State.start steps).returned repositoryId).Perm
        (numbersTo ((Runs.run step State.start steps).returned repositoryId).length) ∧
      (Runs.run step State.start steps).nextNumber repositoryId =
        ((Runs.run step State.start steps).returned repositoryId).length + 1 ∧
      (Runs.run step State.start steps).view repositoryId =
        (Runs.run step State.start
          (steps.filter fun a => a.repositoryId = repositoryId)).view repositoryId := by
  obtain ⟨hreturned, hnext⟩ := (numbered_run steps repositoryId).2
  refine ⟨?_, hreturned, hnext, view_run steps⟩
  rw [hreturned.nodup_iff]
  apply List.Nodup.map_on _ List.nodup_range
  intro a _ b _ heq
  omega

end Runs

example : (Runs.run step State.start
      ([.call 1, .call 1, .call 2] ++
        ([0, 1, 0, 1, 1, 0, 0, 0].map fun place => .statement 1 place none))).calls 1 =
    [.returned (.ok 2), .returned (.ok 1)] := by decide +kernel

end Edda.Db.RepoNumber
