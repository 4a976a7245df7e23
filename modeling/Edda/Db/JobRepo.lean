import Edda.Db.Database
import Edda.Support.Table

/-!
# The job table

The rows of the table of background jobs, and the statements on them. A statement that claims,
requeues or deletes a job says how many rows it affects, which is one or none.
-/

set_option autoImplicit false

namespace Edda.Db

open Edda.Support

abbrev JobId := BitVec 128

inductive JobStatus where
  | pending
  | running
  | succeeded
  | failed
  deriving DecidableEq, Repr

/-- A row of `jobs`, with a payload of any type. -/
structure JobRecord (π : Type) where
  id : JobId
  payload : π
  status : JobStatus
  attempts : Nat
  maxAttempts : Nat
  runAt : Int
  lastError : Option String
  createdAt : Int
  deriving DecidableEq, Repr

namespace JobRepo

variable {π : Type} (rows : List (JobRecord π)) (id : JobId)

/-- A new row. The insert of an id that there is already fails. -/
def enqueue (payload : π) (runAt : Int) (maxAttempts : Nat) (now : Int) : List (JobRecord π) :=
  if id ∈ rows.map JobRecord.id then rows
  else rows ++ [⟨id, payload, .pending, 0, maxAttempts, runAt, none, now⟩]

def isDue (now : Int) (row : JobRecord π) : Bool :=
  decide (row.status = .pending) && decide (row.runAt ≤ now)

/-- The pending jobs that are due, those that are due longest first. -/
def dueJobs (now : Int) : List (JobRecord π) :=
  (rows.filter (isDue now)).insertionSort fun a b => a.runAt ≤ b.runAt

/-- The rows of an id in one of some states. -/
def withId (states : JobStatus → Bool) (row : JobRecord π) : Bool :=
  decide (row.id = id) && states row.status

def claim : List (JobRecord π) × Nat :=
  (Table.update rows (withId id fun status => decide (status = .pending)) fun row =>
    { row with status := .running },
    Table.affected rows (withId id fun status => decide (status = .pending)))

def markSucceeded : List (JobRecord π) :=
  Table.update rows (withId id fun _ => true) fun row => { row with status := .succeeded }

def markRetry (attempts : Nat) (runAt : Int) (error : String) : List (JobRecord π) :=
  Table.update rows (withId id fun _ => true) fun row =>
    { row with status := .pending, attempts := attempts, runAt := runAt, lastError := some error }

def markDead (attempts : Nat) (error : String) : List (JobRecord π) :=
  Table.update rows (withId id fun _ => true) fun row =>
    { row with status := .failed, attempts := attempts, lastError := some error }

/-- An administrator returns a dead job to the queue. -/
def requeue (now : Int) : List (JobRecord π) :=
  Table.update rows (withId id fun status => decide (status = .failed)) fun row =>
    { row with status := .pending, runAt := now, attempts := 0, lastError := none }

/-- An administrator drops a job that is not running. -/
def delete : List (JobRecord π) :=
  rows.filter fun row => !withId id (fun status => decide (status ≠ .running)) row

end JobRepo

end Edda.Db
