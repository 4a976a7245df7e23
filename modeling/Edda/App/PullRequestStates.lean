import Edda.Db.Database
import Edda.Git.Object
import Edda.Support.Runs

/-!
# The states of pull requests and issues under concurrency

An operation on a pull request or an issue reads its row, decides by the state it read, and writes
the new state later, with a statement that does not look at the old one. A merge holds a lock of the
repository from its git merge to its write, which no other operation takes. So a run is a list of
steps of any number of requests: the reads, the git merges, and the writes, each of which commits
with its events.

`states_iff` says which writes keep the states of all rows on the edges of the state machine, with
one event for each closing and each merge: those that find the row still in a state they may leave.
-/

set_option autoImplicit false

namespace Edda.Domain

def PrState.isClosed : PrState → Bool
  | .closed _ _ => true
  | _ => false

def PrState.isMerged : PrState → Bool
  | .merged _ _ _ => true
  | _ => false

end Edda.Domain

namespace Edda.App

open Edda.Domain Edda.Db Edda.Git Edda.Support

/-- The failures of a service. -/
inductive ServiceError where
  | notFound
  | forbidden
  | conflict (message : String)
  | validation (message : String)
  | unauthorized
  | git (err : GitError)
  | db (err : DbError)
  deriving DecidableEq, Repr

abbrev IssueId := BitVec 128

inductive IssueState where
  | «open»
  | closed (closedAt : Int) (reason : CloseReason)
  deriving DecidableEq, Repr

def IssueState.isOpen : IssueState → Bool
  | .open => true
  | .closed _ _ => false

structure Issue where
  id : IssueId
  repositoryId : RepositoryId
  number : Int
  state : IssueState
  deriving DecidableEq, Repr

/-- The events that are written with a change of state. -/
inductive DomainEvent where
  | pullRequestOpened (id : PullRequestId) (repositoryId : RepositoryId) (openedBy : UserId)
  | pullRequestClosed (id : PullRequestId) (repositoryId : RepositoryId) (closedBy : UserId)
  | pullRequestReopened (id : PullRequestId) (repositoryId : RepositoryId) (reopenedBy : UserId)
  | pullRequestMerged (id : PullRequestId) (repositoryId : RepositoryId)
  | issueOpened (id : IssueId) (repositoryId : RepositoryId) (openedBy : UserId)
  | issueClosed (id : IssueId) (repositoryId : RepositoryId) (closedBy : UserId)
      (viaPullRequest : Option PullRequestId)
  deriving DecidableEq, Repr

/-! ## Rows -/

section Rows

variable {ρ κ τ : Type} [DecidableEq κ] (key : ρ → κ) (get : ρ → τ) (set : ρ → τ → ρ)

/-- The state in the row of an id. -/
def stateOf (rows : List ρ) (id : κ) : Option τ := (rows.find? fun row => key row = id).map get

/-- `UPDATE … SET state = … WHERE id = …`. -/
def updateState (rows : List ρ) (id : κ) (state : τ) : List ρ :=
  rows.map fun row => if key row = id then set row state else row

variable {key get set}

/-- An update writes the row of its id, if there is one, and no other row. -/
theorem stateOf_updateState (hkey : ∀ row state, key (set row state) = key row)
    (hget : ∀ row state, get (set row state) = state) (rows : List ρ) (id other : κ) (state : τ) :
    stateOf key get (updateState key set rows id state) other =
      if other = id then (stateOf key get rows id).map fun _ => state
      else stateOf key get rows other := by
  induction rows with
  | nil => simp [stateOf, updateState]
  | cons row rows ih =>
    simp only [stateOf, updateState, List.map_cons, List.find?_cons] at ih ⊢
    by_cases hrow : key row = id
    · rw [if_pos hrow, hkey]
      by_cases hother : other = id
      · subst hother
        simp [hrow, hget]
      · have hne : key row ≠ other := fun h => hother (h.symm.trans hrow)
        rw [if_neg hother] at ih ⊢
        simpa [hne] using ih
    · rw [if_neg hrow]
      by_cases hother : key row = other
      · have hne : other ≠ id := fun h => hrow (hother.trans h)
        simp [hother, hne]
      · simpa [hother, hrow] using ih

theorem stateOf_concat (rows : List ρ) (row : ρ) (other : κ) :
    stateOf key get (rows ++ [row]) other =
      (stateOf key get rows other).or (if key row = other then some (get row) else none) := by
  simp only [stateOf, List.find?_append]
  cases hfind : rows.find? fun row => key row = other with
  | some found => simp
  | none =>
    by_cases hrow : key row = other
    · simp [hrow]
    · simp [hrow]

end Rows

/-- The tables that the operations write. -/
structure Tables where
  pullRequests : List PullRequest
  issues : List Issue
  events : List DomainEvent
  deriving DecidableEq, Repr

section Tables

variable (tables : Tables)

def Tables.pullState (id : PullRequestId) : Option PrState :=
  stateOf PullRequest.id PullRequest.state tables.pullRequests id

def Tables.issueState (id : IssueId) : Option IssueState :=
  stateOf Issue.id Issue.state tables.issues id

def Tables.findPull (repositoryId : RepositoryId) (number : Int) : Option PullRequest :=
  tables.pullRequests.find? fun row => row.repositoryId = repositoryId ∧ row.number = number

def Tables.findIssue (repositoryId : RepositoryId) (number : Int) : Option Issue :=
  tables.issues.find? fun row => row.repositoryId = repositoryId ∧ row.number = number

/-- `PullRequestRepo::update_state`. -/
def updatePullState (rows : List PullRequest) (id : PullRequestId) (state : PrState) :
    List PullRequest :=
  updateState PullRequest.id (fun row state => { row with state }) rows id state

/-- `IssueRepo::update_state`. -/
def updateIssueState (rows : List Issue) (id : IssueId) (state : IssueState) : List Issue :=
  updateState Issue.id (fun row state => { row with state }) rows id state

end Tables

/-! ## The operations -/

/-- The operations on a pull request but the merge, with what they write. -/
inductive PullOp where
  | markReady
  | convertToDraft
  | close (closedAt : Int) (closedBy : UserId)
  | reopen (reopenedBy : UserId)
  deriving DecidableEq, Repr

/-- The decision of an operation on the state it read. -/
def PullOp.check : PullOp → PrState → Except ServiceError Unit
  | .markReady, state =>
    if state = .draft then .ok () else .error (.conflict "this pull request is not a draft")
  | .convertToDraft, state =>
    if state = .open then .ok ()
    else .error (.conflict "only an open pull request can be converted to a draft")
  | .close _ _, state =>
    if state.isOpen then .ok ()
    else .error (.conflict "this pull request is already merged or closed")
  | .reopen _, state => match state with
    | .closed _ _ => .ok ()
    | _ => .error (.conflict "only a closed pull request can be reopened")

def PullOp.next : PullOp → PrState
  | .markReady => .open
  | .convertToDraft => .draft
  | .close closedAt _ => .closed closedAt .notPlanned
  | .reopen _ => .open

def PullOp.events (pr : PullRequest) : PullOp → List DomainEvent
  | .markReady => []
  | .convertToDraft => []
  | .close _ closedBy => [.pullRequestClosed pr.id pr.repositoryId closedBy]
  | .reopen reopenedBy => [.pullRequestReopened pr.id pr.repositoryId reopenedBy]

/-- The decision of a merge on the state it read. -/
def mergeCheck (state : PrState) : Except ServiceError Unit :=
  if state.isOpen then .ok ()
  else .error (.conflict "this pull request is already merged or closed")

/-- The operations on an issue. -/
inductive IssueOp where
  | close (closedAt : Int) (closedBy : UserId)
  | reopen
  deriving DecidableEq, Repr

def IssueOp.check : IssueOp → IssueState → Except ServiceError Unit
  | .close _ _, state =>
    if state.isOpen then .ok () else .error (.conflict "this issue is already closed")
  | .reopen, _ => .ok ()

def IssueOp.next : IssueOp → IssueState
  | .close closedAt _ => .closed closedAt .completed
  | .reopen => .open

def IssueOp.events (issue : Issue) : IssueOp → List DomainEvent
  | .close _ closedBy => [.issueClosed issue.id issue.repositoryId closedBy none]
  | .reopen => []

/-- The issues that a merge found open, with the times it closes them at. A transaction sees its own
writes, so that no issue is closed by it twice. -/
structure Closing where
  entries : List (IssueId × Int)
  nodup : (entries.map Prod.fst).Nodup
  deriving DecidableEq, Repr

def Closing.none : Closing := ⟨[], List.nodup_nil⟩

def Closing.add (closing : Closing) (id : IssueId) (closedAt : Int) : Closing :=
  if h : id ∈ closing.entries.map Prod.fst then closing
  else ⟨(id, closedAt) :: closing.entries, List.nodup_cons.2 ⟨h, closing.nodup⟩⟩

/-- A git merge that was done, with what its transaction will write. -/
structure Landed where
  pr : PullRequest
  mergedAt : Int
  mergeCommit : String
  strategy : MergeStrategy
  mergedBy : UserId
  closing : Closing
  deriving DecidableEq, Repr

def Landed.state (landed : Landed) : PrState :=
  .merged landed.mergedAt landed.mergeCommit landed.strategy

def Landed.events (landed : Landed) : List DomainEvent :=
  .pullRequestMerged landed.pr.id landed.pr.repositoryId ::
    landed.closing.entries.map fun entry =>
      .issueClosed entry.1 landed.pr.repositoryId landed.mergedBy (some landed.pr.id)

/-- The issues after a merge closed some. -/
def closeIssues (rows : List Issue) : List (IssueId × Int) → List Issue
  | [] => rows
  | entry :: entries =>
    closeIssues (updateIssueState rows entry.1 (.closed entry.2 .completed)) entries

/-- A request between its read and its write. -/
inductive Pending where
  | pull (op : PullOp) (pr : PullRequest)
  | issue (op : IssueOp) (issue : Issue)
  | merging (pr : PullRequest) (strategy : MergeStrategy) (mergedBy : UserId)
  | landing (landed : Landed) (remaining : List Int)
  deriving DecidableEq, Repr

/-- The tables and the requests under way. -/
structure Service where
  tables : Tables
  pending : List Pending
  deriving DecidableEq, Repr

/-- A step of some request. A request whose authorization or gate fails takes no step or is
abandoned. The result of a git merge is whatever the repository makes of it. -/
inductive Step where
  | openPull (pr : PullRequest) (draft : Bool) (openedBy : UserId)
  | openIssue (issue : Issue) (openedBy : UserId)
  | readPull (op : PullOp) (repositoryId : RepositoryId) (number : Int)
  | readIssue (op : IssueOp) (repositoryId : RepositoryId) (number : Int)
  | readMerge (strategy : MergeStrategy) (mergedBy : UserId) (repositoryId : RepositoryId)
      (number : Int)
  | land (request : Nat) (now : Int) (result : Except GitError String)
  | readClosing (request : Nat) (now : Int)
  | commit (request : Nat)
  | abandon (request : Nat)

/-- A merge of the repository holds its lock. -/
def Service.locked (s : Service) (repositoryId : RepositoryId) : Bool :=
  s.pending.any fun request => match request with
    | .landing landed _ => decide (landed.pr.repositoryId = repositoryId)
    | _ => false

def commitPull (tables : Tables) (op : PullOp) (pr : PullRequest) : Tables where
  pullRequests := updatePullState tables.pullRequests pr.id op.next
  issues := tables.issues
  events := tables.events ++ op.events pr

def commitIssue (tables : Tables) (op : IssueOp) (issue : Issue) : Tables where
  pullRequests := tables.pullRequests
  issues := updateIssueState tables.issues issue.id op.next
  events := tables.events ++ op.events issue

def commitLanded (tables : Tables) (landed : Landed) : Tables where
  pullRequests := updatePullState tables.pullRequests landed.pr.id landed.state
  issues := closeIssues tables.issues landed.closing.entries
  events := tables.events ++ landed.events

def insertPull (tables : Tables) (pr : PullRequest) (draft : Bool) (openedBy : UserId) : Tables :=
  if (tables.pullState pr.id).isSome then tables
  else { tables with
    pullRequests := tables.pullRequests ++ [{ pr with state := if draft then .draft else .open }]
    events := tables.events ++ [.pullRequestOpened pr.id pr.repositoryId openedBy] }

def insertIssue (tables : Tables) (issue : Issue) (openedBy : UserId) : Tables :=
  if (tables.issueState issue.id).isSome then tables
  else { tables with
    issues := tables.issues ++ [{ issue with state := .open }]
    events := tables.events ++ [.issueOpened issue.id issue.repositoryId openedBy] }

section Step

-- the numbers of the issues that the title and the body of a pull request close
variable (closingNumbers : PullRequest → List Int)

/-- Notes down the issue of the next closing reference, if it is open. -/
def noteClosing (tables : Tables) (landed : Landed) (number now : Int) : Landed :=
  match tables.findIssue landed.pr.repositoryId number with
  | some issue =>
    if issue.state.isOpen then { landed with closing := landed.closing.add issue.id now }
    else landed
  | none => landed

def Service.step (s : Service) : Step → Service
  | .openPull pr draft openedBy => { s with tables := insertPull s.tables pr draft openedBy }
  | .openIssue issue openedBy => { s with tables := insertIssue s.tables issue openedBy }
  | .readPull op repositoryId number => match s.tables.findPull repositoryId number with
    | none => s
    | some pr => match op.check pr.state with
      | .error _ => s
      | .ok () => { s with pending := s.pending ++ [.pull op pr] }
  | .readIssue op repositoryId number => match s.tables.findIssue repositoryId number with
    | none => s
    | some issue => match op.check issue.state with
      | .error _ => s
      | .ok () => { s with pending := s.pending ++ [.issue op issue] }
  | .readMerge strategy mergedBy repositoryId number =>
    match s.tables.findPull repositoryId number with
    | none => s
    | some pr => match mergeCheck pr.state with
      | .error _ => s
      | .ok () => { s with pending := s.pending ++ [.merging pr strategy mergedBy] }
  | .land request now result => match s.pending[request]? with
    | some (.merging pr strategy mergedBy) =>
      if s.locked pr.repositoryId then s
      else match result with
        | .error _ => { s with pending := s.pending.eraseIdx request }
        | .ok mergeCommit =>
          let landed : Landed := ⟨pr, now, mergeCommit, strategy, mergedBy, .none⟩
          { s with pending := s.pending.set request (.landing landed (closingNumbers pr)) }
    | _ => s
  | .readClosing request now => match s.pending[request]? with
    | some (.landing landed (number :: remaining)) =>
      let landed := noteClosing s.tables landed number now
      { s with pending := s.pending.set request (.landing landed remaining) }
    | _ => s
  | .commit request => match s.pending[request]? with
    | some (.pull op pr) => ⟨commitPull s.tables op pr, s.pending.eraseIdx request⟩
    | some (.issue op issue) => ⟨commitIssue s.tables op issue, s.pending.eraseIdx request⟩
    | some (.landing landed []) => ⟨commitLanded s.tables landed, s.pending.eraseIdx request⟩
    | _ => s
  | .abandon request => { s with pending := s.pending.eraseIdx request }

end Step

/-! ## The state machine -/

/-- The edges of the state machine of pull requests. -/
inductive PrEdge : PrState → PrState → Prop
  | ready : PrEdge .draft .open
  | toDraft : PrEdge .open .draft
  | close (state : PrState) (closedAt : Int) (reason : CloseReason) :
      state.isOpen = true → PrEdge state (.closed closedAt reason)
  | reopen (closedAt : Int) (reason : CloseReason) : PrEdge (.closed closedAt reason) .open
  | merge (state : PrState) (mergedAt : Int) (mergeCommit : String) (strategy : MergeStrategy) :
      state.isOpen = true → PrEdge state (.merged mergedAt mergeCommit strategy)

inductive IssueEdge : IssueState → IssueState → Prop
  | close (closedAt : Int) (reason : CloseReason) : IssueEdge .open (.closed closedAt reason)
  | reopen (closedAt : Int) (reason : CloseReason) : IssueEdge (.closed closedAt reason) .open

/-- A row keeps its state, takes an edge, or is new. -/
inductive PullChange : Option PrState → Option PrState → Prop
  | same (state : Option PrState) : PullChange state state
  | opened (state : PrState) : state.isOpen = true → PullChange none (some state)
  | edge (state state' : PrState) : PrEdge state state' → PullChange (some state) (some state')

inductive IssueChange : Option IssueState → Option IssueState → Prop
  | same (state : Option IssueState) : IssueChange state state
  | opened : IssueChange none (some .open)
  | edge (state state' : IssueState) : IssueEdge state state' →
      IssueChange (some state) (some state')

/-- The change closes an open pull request. -/
def closesPull (before after : Option PrState) : Bool :=
  before.any PrState.isOpen && after.any PrState.isClosed

/-- The change merges an open pull request. -/
def mergesPull (before after : Option PrState) : Bool :=
  before.any PrState.isOpen && after.any PrState.isMerged

/-- The change closes an open issue. -/
def closesIssue (before after : Option IssueState) : Bool :=
  before.any IssueState.isOpen && after.any fun state => !state.isOpen

def DomainEvent.reportsClosed (id : PullRequestId) : DomainEvent → Bool
  | .pullRequestClosed closed _ _ => decide (closed = id)
  | _ => false

def DomainEvent.reportsMerged (id : PullRequestId) : DomainEvent → Bool
  | .pullRequestMerged merged _ => decide (merged = id)
  | _ => false

def DomainEvent.reportsIssueClosed (id : IssueId) : DomainEvent → Bool
  | .issueClosed closed _ _ _ => decide (closed = id)
  | _ => false

/-- One event for each closing and merging change, and none without one. -/
structure Reported (before after : Tables) (events : List DomainEvent) : Prop where
  closed : ∀ id, events.countP (DomainEvent.reportsClosed id) =
    (closesPull (before.pullState id) (after.pullState id)).toNat
  merged : ∀ id, events.countP (DomainEvent.reportsMerged id) =
    (mergesPull (before.pullState id) (after.pullState id)).toNat
  issueClosed : ∀ id, events.countP (DomainEvent.reportsIssueClosed id) =
    (closesIssue (before.issueState id) (after.issueState id)).toNat

/-- The change of the tables is one of the state machine, and is reported. -/
structure Lawful (before after : Tables) : Prop where
  pulls : ∀ id, PullChange (before.pullState id) (after.pullState id)
  issues : ∀ id, IssueChange (before.issueState id) (after.issueState id)
  reported : ∃ events, after.events = before.events ++ events ∧ Reported before after events

/-! ## When a write is lawful -/

/-- The row is in a state that the write may leave. -/
def PullOp.Fits : PullOp → Option PrState → Prop
  | .markReady, state => ∀ s, state = some s → s.isMerged = false
  | .convertToDraft, state => ∀ s, state = some s → s.isOpen = true
  | .close _ _, state => ∃ s, state = some s ∧ s.isOpen = true
  | .reopen _, state => ∀ s, state = some s → s.isMerged = false

def IssueOp.Fits : IssueOp → Option IssueState → Prop
  | .close _ _, state => state = some .open
  | .reopen, _ => True

def Landed.Fits (landed : Landed) (tables : Tables) : Prop :=
  (∃ s, tables.pullState landed.pr.id = some s ∧ s.isOpen = true) ∧
    ∀ entry ∈ landed.closing.entries, tables.issueState entry.1 = some .open

/-- The step writes nothing, or finds the rows that it writes in states that it may leave. -/
def Step.Fits (s : Service) : Step → Prop
  | .commit request => match s.pending[request]? with
    | some (.pull op pr) => op.Fits (s.tables.pullState pr.id)
    | some (.issue op issue) => op.Fits (s.tables.issueState issue.id)
    | some (.landing landed []) => landed.Fits s.tables
    | _ => True
  | _ => True

section Writes

variable (tables : Tables)

theorem pullState_update (rows : List PullRequest) (id other : PullRequestId) (state : PrState) :
    stateOf PullRequest.id PullRequest.state (updatePullState rows id state) other =
      if other = id then (stateOf PullRequest.id PullRequest.state rows id).map fun _ => state
      else stateOf PullRequest.id PullRequest.state rows other :=
  @stateOf_updateState _ _ _ _ PullRequest.id PullRequest.state
    (fun row state => { row with state }) (fun _ _ => rfl) (fun _ _ => rfl) rows id other state

theorem issueState_update (rows : List Issue) (id other : IssueId) (state : IssueState) :
    stateOf Issue.id Issue.state (updateIssueState rows id state) other =
      if other = id then (stateOf Issue.id Issue.state rows id).map fun _ => state
      else stateOf Issue.id Issue.state rows other :=
  @stateOf_updateState _ _ _ _ Issue.id Issue.state
    (fun row state => { row with state }) (fun _ _ => rfl) (fun _ _ => rfl) rows id other state

@[simp] theorem pullState_commitPull (op : PullOp) (pr : PullRequest) (id : PullRequestId) :
    (commitPull tables op pr).pullState id =
      if id = pr.id then (tables.pullState pr.id).map fun _ => op.next else tables.pullState id :=
  pullState_update tables.pullRequests pr.id id op.next

@[simp] theorem issueState_commitPull (op : PullOp) (pr : PullRequest) (id : IssueId) :
    (commitPull tables op pr).issueState id = tables.issueState id := rfl

@[simp] theorem pullState_commitIssue (op : IssueOp) (issue : Issue) (id : PullRequestId) :
    (commitIssue tables op issue).pullState id = tables.pullState id := rfl

@[simp] theorem issueState_commitIssue (op : IssueOp) (issue : Issue) (id : IssueId) :
    (commitIssue tables op issue).issueState id =
      if id = issue.id then (tables.issueState issue.id).map fun _ => op.next
      else tables.issueState id :=
  issueState_update tables.issues issue.id id op.next

@[simp] theorem pullState_commitLanded (landed : Landed) (id : PullRequestId) :
    (commitLanded tables landed).pullState id =
      if id = landed.pr.id then (tables.pullState landed.pr.id).map fun _ => landed.state
      else tables.pullState id :=
  pullState_update tables.pullRequests landed.pr.id id landed.state

/-- A merge closes the issues that it noted, each at its time. -/
theorem issueState_closeIssues (entries : List (IssueId × Int)) (rows : List Issue)
    (hnodup : (entries.map Prod.fst).Nodup) (id : IssueId) :
    stateOf Issue.id Issue.state (closeIssues rows entries) id =
      match entries.find? (fun entry => entry.1 = id) with
      | some entry =>
        (stateOf Issue.id Issue.state rows id).map fun _ => .closed entry.2 .completed
      | none => stateOf Issue.id Issue.state rows id := by
  induction entries generalizing rows with
  | nil => rfl
  | cons entry entries ih =>
    obtain ⟨hnew, hrest⟩ := List.nodup_cons.1 hnodup
    simp only [closeIssues]
    rw [ih _ hrest]
    by_cases hid : entry.1 = id
    · -- no later entry is about the same issue
      have hnone : entries.find? (fun entry => entry.1 = id) = none := by
        rw [List.find?_eq_none]
        intro other hother heq
        exact hnew (List.mem_map.2 ⟨other, hother, (of_decide_eq_true heq).trans hid.symm⟩)
      rw [hnone, List.find?_cons_of_pos (by simpa using hid), issueState_update, if_pos hid.symm, hid]
    · rw [List.find?_cons_of_neg (by simpa using hid), issueState_update,
        if_neg fun h => hid h.symm]

theorem issueState_commitLanded (landed : Landed) (id : IssueId) :
    (commitLanded tables landed).issueState id =
      match landed.closing.entries.find? (fun entry => entry.1 = id) with
      | some entry => (tables.issueState id).map fun _ => .closed entry.2 .completed
      | none => tables.issueState id :=
  issueState_closeIssues _ _ landed.closing.nodup id

end Writes

/-! ## Lawful changes -/

section Lawful

@[simp] theorem closesPull_same (state : Option PrState) : closesPull state state = false := by
  rcases state with _ | (_ | _ | _ | _) <;> rfl

@[simp] theorem mergesPull_same (state : Option PrState) : mergesPull state state = false := by
  rcases state with _ | (_ | _ | _ | _) <;> rfl

@[simp] theorem closesIssue_same (state : Option IssueState) : closesIssue state state = false := by
  rcases state with _ | (_ | _) <;> rfl

theorem Lawful.refl (tables : Tables) : Lawful tables tables where
  pulls := fun id => .same (tables.pullState id)
  issues := fun id => .same (tables.issueState id)
  reported := ⟨[], (List.append_nil _).symm, by constructor <;> simp⟩

/-- A merged pull request stays as it is. -/
theorem PullChange.merged {state : PrState} {after : Option PrState}
    (h : PullChange (some state) after) (hmerged : state.isMerged = true) : after = some state := by
  cases h with
  | same => rfl
  | edge state state' hedge =>
    cases hedge <;> simp_all [PrState.isMerged]
    all_goals cases state <;> simp_all [PrState.isOpen]

theorem pullChange_open_iff (state : PrState) :
    PullChange (some state) (some .open) ↔ state.isMerged = false := by
  constructor
  · intro h
    cases state with
    | merged => exact absurd (h.merged rfl) (by simp)
    | «open» | draft | closed => rfl
  · intro h
    cases state with
    | «open» => exact .same _
    | draft => exact .edge _ _ .ready
    | closed closedAt reason => exact .edge _ _ (.reopen closedAt reason)
    | merged => cases h

theorem pullChange_draft_iff (state : PrState) :
    PullChange (some state) (some .draft) ↔ state.isOpen = true := by
  constructor
  · intro h
    cases h with
    | same => rfl
    | edge _ _ hedge =>
      cases hedge
      rfl
  · intro h
    cases state with
    | «open» => exact .edge _ _ .toDraft
    | draft => exact .same _
    | closed | merged => cases h

theorem pullChange_closed_iff (state : PrState) (closedAt : Int) (reason : CloseReason) :
    PullChange (some state) (some (.closed closedAt reason)) ↔
      state.isOpen = true ∨ state = .closed closedAt reason := by
  constructor
  · intro h
    cases h with
    | same => exact Or.inr rfl
    | edge _ _ hedge =>
      cases hedge with
      | close _ _ _ hopen => exact Or.inl hopen
  · rintro (hopen | rfl)
    · exact .edge _ _ (.close state closedAt reason hopen)
    · exact .same _

theorem pullChange_merged_iff (state : PrState) (mergedAt : Int) (mergeCommit : String)
    (strategy : MergeStrategy) :
    PullChange (some state) (some (.merged mergedAt mergeCommit strategy)) ↔
      state.isOpen = true ∨ state = .merged mergedAt mergeCommit strategy := by
  constructor
  · intro h
    cases h with
    | same => exact Or.inr rfl
    | edge _ _ hedge =>
      cases hedge with
      | merge _ _ _ _ hopen => exact Or.inl hopen
  · rintro (hopen | rfl)
    · exact .edge _ _ (.merge state mergedAt mergeCommit strategy hopen)
    · exact .same _

section Insert

variable (tables : Tables) (pr : PullRequest) (issue : Issue) (draft : Bool) (openedBy : UserId)

theorem insertPull_old (h : tables.pullState pr.id ≠ none) :
    insertPull tables pr draft openedBy = tables :=
  if_pos (Option.isSome_iff_ne_none.2 h)

theorem insertIssue_old (h : tables.issueState issue.id ≠ none) :
    insertIssue tables issue openedBy = tables :=
  if_pos (Option.isSome_iff_ne_none.2 h)

theorem insertPull_new (h : tables.pullState pr.id = none) :
    insertPull tables pr draft openedBy =
      { tables with
        pullRequests := tables.pullRequests ++ [{ pr with state := if draft then .draft else .open }]
        events := tables.events ++ [.pullRequestOpened pr.id pr.repositoryId openedBy] } :=
  if_neg (by simp [h])

theorem insertIssue_new (h : tables.issueState issue.id = none) :
    insertIssue tables issue openedBy =
      { tables with
        issues := tables.issues ++ [{ issue with state := .open }]
        events := tables.events ++ [.issueOpened issue.id issue.repositoryId openedBy] } :=
  if_neg (by simp [h])

variable {tables pr issue}

theorem pullState_insertPull (h : tables.pullState pr.id = none) (id : PullRequestId) :
    (insertPull tables pr draft openedBy).pullState id =
      if id = pr.id then some (if draft then .draft else .open) else tables.pullState id := by
  rw [insertPull_new tables pr draft openedBy h, Tables.pullState, stateOf_concat]
  by_cases hid : id = pr.id
  · subst hid
    rw [show stateOf PullRequest.id PullRequest.state tables.pullRequests pr.id = none from h]
    simp
  · rw [if_neg hid, if_neg fun heq => hid heq.symm, Option.or_none]
    rfl

theorem issueState_insertIssue (h : tables.issueState issue.id = none) (id : IssueId) :
    (insertIssue tables issue openedBy).issueState id =
      if id = issue.id then some .open else tables.issueState id := by
  rw [insertIssue_new tables issue openedBy h, Tables.issueState, stateOf_concat]
  by_cases hid : id = issue.id
  · subst hid
    rw [show stateOf Issue.id Issue.state tables.issues issue.id = none from h]
    simp
  · rw [if_neg hid, if_neg fun heq => hid heq.symm, Option.or_none]
    rfl

end Insert

theorem lawful_insertPull (tables : Tables) (pr : PullRequest) (draft : Bool) (openedBy : UserId) :
    Lawful tables (insertPull tables pr draft openedBy) := by
  by_cases hnew : tables.pullState pr.id = none
  · have hstate := pullState_insertPull draft openedBy hnew
    have hissue : ∀ id, (insertPull tables pr draft openedBy).issueState id =
        tables.issueState id := by
      intro id
      rw [insertPull_new tables pr draft openedBy hnew]
      rfl
    -- the new row goes from none to open, which is neither a closing nor a merge
    have hquiet : ∀ id, closesPull (tables.pullState id)
          ((insertPull tables pr draft openedBy).pullState id) = false ∧
        mergesPull (tables.pullState id)
          ((insertPull tables pr draft openedBy).pullState id) = false := by
      intro id
      rw [hstate]
      by_cases hid : id = pr.id
      · rw [hid, hnew]
        exact ⟨rfl, rfl⟩
      · rw [if_neg hid]
        exact ⟨closesPull_same _, mergesPull_same _⟩
    refine ⟨?_, ?_, ⟨[.pullRequestOpened pr.id pr.repositoryId openedBy], ?_, ?_⟩⟩
    · intro id
      rw [hstate]
      by_cases hid : id = pr.id
      · rw [if_pos hid, hid, hnew]
        exact .opened _ (by cases draft <;> rfl)
      · rw [if_neg hid]
        exact .same _
    · intro id
      rw [hissue]
      exact .same _
    · rw [insertPull_new tables pr draft openedBy hnew]
    · constructor
      · intro id
        rw [(hquiet id).1]
        rfl
      · intro id
        rw [(hquiet id).2]
        rfl
      · intro id
        rw [hissue, closesIssue_same]
        rfl
  · rw [insertPull_old tables pr draft openedBy hnew]
    exact Lawful.refl tables

theorem lawful_insertIssue (tables : Tables) (issue : Issue) (openedBy : UserId) :
    Lawful tables (insertIssue tables issue openedBy) := by
  by_cases hnew : tables.issueState issue.id = none
  · have hstate := issueState_insertIssue openedBy hnew
    have hpull : ∀ id, (insertIssue tables issue openedBy).pullState id =
        tables.pullState id := by
      intro id
      rw [insertIssue_new tables issue openedBy hnew]
      rfl
    refine ⟨?_, ?_, ⟨[.issueOpened issue.id issue.repositoryId openedBy], ?_, ?_⟩⟩
    · intro id
      rw [hpull]
      exact .same _
    · intro id
      rw [hstate]
      by_cases hid : id = issue.id
      · rw [if_pos hid, hid, hnew]
        exact .opened
      · rw [if_neg hid]
        exact .same _
    · rw [insertIssue_new tables issue openedBy hnew]
    · constructor
      · intro id
        rw [hpull, closesPull_same]
        rfl
      · intro id
        rw [hpull, mergesPull_same]
        rfl
      · intro id
        rw [hstate]
        by_cases hid : id = issue.id
        · rw [if_pos hid, hid, hnew]
          rfl
        · rw [if_neg hid, closesIssue_same]
          rfl
  · rw [insertIssue_old tables issue openedBy hnew]
    exact Lawful.refl tables

section Commit

variable (tables : Tables)

/-- An operation changes one row, and its events are about it. -/
theorem lawful_commitPull_iff (op : PullOp) (pr : PullRequest) :
    Lawful tables (commitPull tables op pr) ↔
      PullChange (tables.pullState pr.id) ((tables.pullState pr.id).map fun _ => op.next) ∧
        (op.events pr).countP (DomainEvent.reportsClosed pr.id) =
          (closesPull (tables.pullState pr.id)
            ((tables.pullState pr.id).map fun _ => op.next)).toNat := by
  constructor
  · intro h
    obtain ⟨events, happended, hreported⟩ := h.reported
    have hevents : op.events pr = events := List.append_cancel_left happended
    have hpull := h.pulls pr.id
    have hclosed := hreported.closed pr.id
    rw [pullState_commitPull, if_pos rfl] at hpull hclosed
    rw [hevents]
    exact ⟨hpull, hclosed⟩
  · rintro ⟨hpull, hclosed⟩
    refine ⟨?_, fun id => .same _, ⟨op.events pr, rfl, ?_⟩⟩
    · intro id
      rw [pullState_commitPull]
      by_cases hid : id = pr.id
      · rw [if_pos hid, hid]
        exact hpull
      · rw [if_neg hid]
        exact .same _
    · constructor
      · intro id
        rw [pullState_commitPull]
        by_cases hid : id = pr.id
        · rw [if_pos hid, hid]
          exact hclosed
        · rw [if_neg hid, closesPull_same]
          cases op <;> simp [PullOp.events, DomainEvent.reportsClosed, Ne.symm hid]
      · intro id
        have hquiet : (op.events pr).countP (DomainEvent.reportsMerged id) = 0 := by
          cases op <;> rfl
        rw [hquiet, pullState_commitPull]
        by_cases hid : id = pr.id
        · rw [if_pos hid, hid]
          cases tables.pullState pr.id with
          | none => rfl
          | some state => cases op <;> simp [mergesPull, PullOp.next, PrState.isMerged]
        · rw [if_neg hid, mergesPull_same]
          rfl
      · intro id
        rw [issueState_commitPull, closesIssue_same]
        cases op <;> rfl

/-- Which states the operation may leave, edge by edge. -/
theorem PullOp.fits_iff (op : PullOp) (pr : PullRequest) (before : Option PrState) :
    (PullChange before (before.map fun _ => op.next) ∧
        (op.events pr).countP (DomainEvent.reportsClosed pr.id) =
          (closesPull before (before.map fun _ => op.next)).toNat) ↔
      op.Fits before := by
  cases before with
  | none =>
    cases op with
    | close => simp [PullOp.Fits, PullOp.events, DomainEvent.reportsClosed, closesPull]
    | markReady | convertToDraft | reopen =>
      simp only [PullOp.Fits, reduceCtorEq, false_implies, implies_true, iff_true]
      exact ⟨.same _, rfl⟩
  | some state =>
    simp only [Option.map_some]
    cases op with
    | markReady =>
      simp only [PullOp.next, pullChange_open_iff, PullOp.Fits, Option.some.injEq, forall_eq']
      exact and_iff_left (by simp [PullOp.events, closesPull, PrState.isClosed])
    | convertToDraft =>
      simp only [PullOp.next, pullChange_draft_iff, PullOp.Fits, Option.some.injEq, forall_eq']
      exact and_iff_left (by simp [PullOp.events, closesPull, PrState.isClosed])
    | close closedAt closedBy =>
      -- the event is there in any case, so that closing twice is one event too many
      simp only [PullOp.next, pullChange_closed_iff, PullOp.Fits, Option.some.injEq,
        exists_eq_left']
      cases state <;>
        simp [PullOp.events, DomainEvent.reportsClosed, closesPull, PrState.isOpen,
          PrState.isClosed]
    | reopen reopenedBy =>
      simp only [PullOp.next, pullChange_open_iff, PullOp.Fits, Option.some.injEq, forall_eq']
      exact and_iff_left (by
        simp [PullOp.events, DomainEvent.reportsClosed, closesPull, PrState.isClosed])

/-- An issue may be reopened in any state; it must be open to be closed. -/
theorem lawful_commitIssue_iff (op : IssueOp) (issue : Issue) :
    Lawful tables (commitIssue tables op issue) ↔ op.Fits (tables.issueState issue.id) := by
  cases op with
  | reopen =>
    simp only [IssueOp.Fits, iff_true]
    refine ⟨fun id => .same _, ?_, ⟨[], rfl, ?_⟩⟩
    · intro id
      rw [issueState_commitIssue]
      by_cases hid : id = issue.id
      · rw [if_pos hid, hid]
        cases tables.issueState issue.id with
        | none => exact .same _
        | some state =>
          cases state with
          | «open» => exact .same _
          | closed closedAt reason => exact .edge _ _ (.reopen closedAt reason)
      · rw [if_neg hid]
        exact .same _
    · constructor
      · intro id
        rw [pullState_commitIssue, closesPull_same]
        rfl
      · intro id
        rw [pullState_commitIssue, mergesPull_same]
        rfl
      · intro id
        rw [issueState_commitIssue]
        by_cases hid : id = issue.id
        · rw [if_pos hid, hid]
          cases tables.issueState issue.id <;>
            simp [closesIssue, IssueOp.next, IssueState.isOpen]
        · rw [if_neg hid, closesIssue_same]
          rfl
  | close closedAt closedBy =>
    simp only [IssueOp.Fits]
    constructor
    · intro h
      obtain ⟨events, happended, hreported⟩ := h.reported
      have hevents : IssueOp.events issue (.close closedAt closedBy) = events :=
        List.append_cancel_left happended
      have hcount := hreported.issueClosed issue.id
      rw [← hevents, issueState_commitIssue, if_pos rfl] at hcount
      -- the event of the closing has no closing to report but that of an open issue
      cases hstate : tables.issueState issue.id with
      | none =>
        rw [hstate] at hcount
        simp [IssueOp.events, DomainEvent.reportsIssueClosed, closesIssue] at hcount
      | some state =>
        cases state with
        | «open» => rfl
        | closed =>
          rw [hstate] at hcount
          simp [IssueOp.events, DomainEvent.reportsIssueClosed, closesIssue,
            IssueState.isOpen] at hcount
    · intro hopen
      refine ⟨fun id => .same _, ?_,
        ⟨[.issueClosed issue.id issue.repositoryId closedBy none], rfl, ?_⟩⟩
      · intro id
        rw [issueState_commitIssue]
        by_cases hid : id = issue.id
        · rw [if_pos hid, hid, hopen]
          exact .edge _ _ (.close closedAt .completed)
        · rw [if_neg hid]
          exact .same _
      · constructor
        · intro id
          rw [pullState_commitIssue, closesPull_same]
          rfl
        · intro id
          rw [pullState_commitIssue, mergesPull_same]
          rfl
        · intro id
          rw [issueState_commitIssue]
          by_cases hid : id = issue.id
          · rw [if_pos hid, hid, hopen]
            simp [DomainEvent.reportsIssueClosed, closesIssue, IssueOp.next, IssueState.isOpen]
          · rw [if_neg hid, closesIssue_same]
            simp [DomainEvent.reportsIssueClosed, Ne.symm hid]

/-- A merge reports each issue that it noted once. -/
theorem countP_closing (landed : Landed) (id : IssueId) :
    landed.events.countP (DomainEvent.reportsIssueClosed id) =
      (landed.closing.entries.find? fun entry => entry.1 = id).isSome.toNat := by
  obtain ⟨pr, mergedAt, mergeCommit, strategy, mergedBy, ⟨entries, hnodup⟩⟩ := landed
  simp only [Landed.events, List.countP_cons, DomainEvent.reportsIssueClosed, Bool.false_eq_true,
    if_false, Nat.add_zero, List.countP_map]
  induction entries with
  | nil => rfl
  | cons entry entries ih =>
    obtain ⟨hnew, hrest⟩ := List.nodup_cons.1 hnodup
    specialize ih hrest
    by_cases hid : entry.1 = id
    · have hnone : entries.find? (fun entry => entry.1 = id) = none := by
        rw [List.find?_eq_none]
        intro other hother heq
        exact hnew (List.mem_map.2 ⟨other, hother, (of_decide_eq_true heq).trans hid.symm⟩)
      rw [hnone] at ih
      rw [List.countP_cons, ih, List.find?_cons_of_pos (by simpa using hid)]
      simp [DomainEvent.reportsIssueClosed, hid]
    · rw [List.countP_cons, ih, List.find?_cons_of_neg (by simpa using hid)]
      simp [DomainEvent.reportsIssueClosed, hid]

/-- A merge is lawful when the pull request and every issue that it closes are still open. -/
theorem lawful_commitLanded_iff (landed : Landed) :
    Lawful tables (commitLanded tables landed) ↔ landed.Fits tables := by
  constructor
  · intro h
    obtain ⟨events, happended, hreported⟩ := h.reported
    have hevents : landed.events = events := List.append_cancel_left happended
    constructor
    · have hcount := hreported.merged landed.pr.id
      rw [← hevents, pullState_commitLanded, if_pos rfl] at hcount
      -- the event of the merge reports one, so the row was open
      have hone : landed.events.countP (DomainEvent.reportsMerged landed.pr.id) ≠ 0 := by
        simp [Landed.events, DomainEvent.reportsMerged]
      rw [hcount] at hone
      cases hstate : tables.pullState landed.pr.id with
      | none =>
        rw [hstate] at hone
        exact absurd rfl hone
      | some state =>
        refine ⟨state, rfl, ?_⟩
        by_contra hclosed
        rw [hstate] at hone
        simp [mergesPull, hclosed] at hone
    · intro entry hentry
      have hcount := hreported.issueClosed entry.1
      have hfound : (landed.closing.entries.find? fun other => other.1 = entry.1).isSome = true := by
        rw [List.find?_isSome]
        exact ⟨entry, hentry, by simp⟩
      rw [← hevents, countP_closing, hfound] at hcount
      cases hstate : tables.issueState entry.1 with
      | none =>
        rw [hstate] at hcount
        simp [closesIssue] at hcount
      | some state =>
        cases state with
        | «open» => rfl
        | closed =>
          rw [hstate] at hcount
          simp [closesIssue, IssueState.isOpen] at hcount
  · rintro ⟨⟨state, hstate, hopen⟩, hissues⟩
    refine ⟨?_, ?_, ⟨landed.events, rfl, ?_⟩⟩
    · intro id
      rw [pullState_commitLanded]
      by_cases hid : id = landed.pr.id
      · rw [if_pos hid, hid, hstate]
        exact (pullChange_merged_iff state _ _ _).2 (Or.inl hopen)
      · rw [if_neg hid]
        exact .same _
    · intro id
      rw [issueState_commitLanded]
      split
      · rename_i entry hfind
        have hid : entry.1 = id := by simpa using List.find?_some hfind
        rw [← hid, hissues entry (List.mem_of_find?_eq_some hfind)]
        exact .edge _ _ (.close entry.2 .completed)
      · exact .same _
    · constructor
      · intro id
        have hquiet : landed.events.countP (DomainEvent.reportsClosed id) = 0 := by
          rw [List.countP_eq_zero]
          intro event hevent
          simp only [Landed.events, List.mem_cons, List.mem_map] at hevent
          rcases hevent with rfl | ⟨entry, -, rfl⟩ <;> simp [DomainEvent.reportsClosed]
        rw [hquiet, pullState_commitLanded]
        by_cases hid : id = landed.pr.id
        · rw [if_pos hid, hid, hstate]
          simp [closesPull, Landed.state, PrState.isClosed]
        · rw [if_neg hid, closesPull_same]
          rfl
      · intro id
        have hcount : landed.events.countP (DomainEvent.reportsMerged id) =
            (decide (landed.pr.id = id)).toNat := by
          have hquiet : (landed.closing.entries.map fun entry =>
              DomainEvent.issueClosed entry.1 landed.pr.repositoryId landed.mergedBy
                (some landed.pr.id)).countP (DomainEvent.reportsMerged id) = 0 := by
            rw [List.countP_eq_zero]
            intro event hevent
            obtain ⟨entry, -, rfl⟩ := List.mem_map.1 hevent
            simp [DomainEvent.reportsMerged]
          rw [Landed.events, List.countP_cons, hquiet]
          by_cases hid : landed.pr.id = id <;> simp [DomainEvent.reportsMerged, hid]
        rw [hcount, pullState_commitLanded]
        by_cases hid : id = landed.pr.id
        · rw [if_pos hid, hid, hstate]
          simp [mergesPull, Landed.state, PrState.isMerged, hopen]
        · rw [if_neg hid, mergesPull_same]
          simp [Ne.symm hid]
      · intro id
        rw [countP_closing, issueState_commitLanded]
        split
        · rename_i entry hfind
          have hid : entry.1 = id := by simpa using List.find?_some hfind
          rw [hfind, ← hid, hissues entry (List.mem_of_find?_eq_some hfind)]
          simp [closesIssue, IssueState.isOpen]
        · rename_i hfind
          rw [hfind, closesIssue_same]
          rfl

end Commit

/-- The step changes the tables lawfully exactly when its write fits. -/
theorem lawful_step_iff (closingNumbers : PullRequest → List Int) (s : Service) (step : Step) :
    Lawful s.tables (s.step closingNumbers step).tables ↔ step.Fits s := by
  cases step with
  | openPull pr draft openedBy => exact iff_true_intro (lawful_insertPull s.tables pr draft openedBy)
  | openIssue issue openedBy => exact iff_true_intro (lawful_insertIssue s.tables issue openedBy)
  | readPull | readIssue | readMerge | land | readClosing | abandon =>
    -- nothing is written
    refine iff_true_intro ?_
    simp only [Service.step]
    repeat' split
    all_goals exact Lawful.refl s.tables
  | commit request =>
    simp only [Service.step, Step.Fits]
    split
    · rename_i op pr hpending
      exact (lawful_commitPull_iff s.tables op pr).trans (op.fits_iff pr _)
    · rename_i op issue hpending
      exact lawful_commitIssue_iff s.tables op issue
    · rename_i landed hpending
      exact lawful_commitLanded_iff s.tables landed
    · exact iff_true_intro (Lawful.refl s.tables)

end Lawful

/-! ## Runs -/

/-- The step commits a merge of the pull request. -/
def Step.Merges (s : Service) (id : PullRequestId) : Step → Prop
  | .commit request => ∃ landed, s.pending[request]? = some (.landing landed []) ∧ landed.pr.id = id
  | _ => False

section Runs

variable (closingNumbers : PullRequest → List Int)

/-- In the run all states follow the state machine, with one event for each closing and merge, a
merged state is final, and no pull request is merged twice. -/
structure StatesKept (s : Service) (steps : List Step) : Prop where
  lawful : Runs.Throughout (Service.step closingNumbers)
    (fun s step => Lawful s.tables (s.step closingNumbers step).tables) s steps
  mergedFinal : ∀ earlier later, steps = earlier ++ later → ∀ id state, state.isMerged = true →
    (Runs.run (Service.step closingNumbers) s earlier).tables.pullState id = some state →
    (Runs.run (Service.step closingNumbers) s steps).tables.pullState id = some state
  mergedOnce : ∀ earlier step between step' later,
    steps = earlier ++ step :: (between ++ step' :: later) → ∀ id,
    step.Merges (Runs.run (Service.step closingNumbers) s earlier) id →
    ¬ step'.Merges (Runs.run (Service.step closingNumbers) s (earlier ++ step :: between)) id

variable {closingNumbers}

/-- Lawful steps keep the state of a merged pull request. -/
theorem merged_final {s : Service} {steps : List Step}
    (h : Runs.Throughout (Service.step closingNumbers)
      (fun s step => Lawful s.tables (s.step closingNumbers step).tables) s steps)
    {id : PullRequestId} {state : PrState} (hmerged : state.isMerged = true)
    (hstate : s.tables.pullState id = some state) :
    (Runs.run (Service.step closingNumbers) s steps).tables.pullState id = some state := by
  refine Runs.invariant (I := fun s => s.tables.pullState id = some state) ?_ hstate h
  intro s step hbefore hlawful
  have hchange := hlawful.pulls id
  rw [hbefore] at hchange
  exact hchange.merged hmerged

/-- A merge that fits leaves the pull request merged. -/
theorem merged_of_merges (closingNumbers : PullRequest → List Int) {s : Service}
    {step : Step} {id : PullRequestId} (hfits : step.Fits s) (h : step.Merges s id) :
    ∃ state, state.isMerged = true ∧
      (s.step closingNumbers step).tables.pullState id = some state := by
  cases step with
  | commit request =>
    obtain ⟨landed, hpending, rfl⟩ := h
    simp only [Step.Fits, hpending] at hfits
    obtain ⟨⟨state, hstate, -⟩, -⟩ := hfits
    refine ⟨landed.state, rfl, ?_⟩
    simp only [Service.step, hpending]
    rw [pullState_commitLanded, if_pos rfl, hstate]
    rfl
  | openPull | openIssue | readPull | readIssue | readMerge | land | readClosing | abandon =>
    exact h.elim

/-- A merge that fits finds the pull request not merged. -/
theorem not_merged_of_merges {s : Service} {step : Step} {id : PullRequestId} {state : PrState}
    (hfits : step.Fits s) (h : step.Merges s id) (hstate : s.tables.pullState id = some state) :
    state.isMerged = false := by
  cases step with
  | commit request =>
    obtain ⟨landed, hpending, rfl⟩ := h
    simp only [Step.Fits, hpending] at hfits
    obtain ⟨⟨found, hfound, hopen⟩, -⟩ := hfits
    obtain rfl : found = state := Option.some.inj (hfound.symm.trans hstate)
    cases found with
    | «open» | draft => rfl
    | merged | closed => cases hopen
  | openPull | openIssue | readPull | readIssue | readMerge | land | readClosing | abandon =>
    exact h.elim

end Runs

/-- The states are kept by exactly the runs whose writes find their rows in states that they may
leave. -/
theorem statesKept_iff (closingNumbers : PullRequest → List Int) (s : Service) (steps : List Step) :
    StatesKept closingNumbers s steps ↔
      Runs.Throughout (Service.step closingNumbers) (fun s step => step.Fits s) s steps := by
  have hcongr : Runs.Throughout (Service.step closingNumbers)
      (fun s step => Lawful s.tables (s.step closingNumbers step).tables) s steps ↔
        Runs.Throughout (Service.step closingNumbers) (fun s step => step.Fits s) s steps :=
    Runs.throughout_congr (lawful_step_iff closingNumbers)
  constructor
  · intro h
    exact hcongr.1 h.lawful
  · intro hfits
    have hlawful := hcongr.2 hfits
    refine ⟨hlawful, ?_, ?_⟩
    · rintro earlier later rfl id state hmerged hstate
      rw [Runs.run_append]
      exact merged_final (Runs.throughout_append.1 hlawful).2 hmerged hstate
    · rintro earlier step between step' later rfl id hfirst hsecond
      have hstart := hfits earlier step (between ++ step' :: later) rfl
      obtain ⟨state, hmerged, hstate⟩ := merged_of_merges closingNumbers hstart hfirst
      -- the state stays merged up to the second merge, which does not fit it
      have hrest := Runs.throughout_cons.1 (Runs.throughout_append.1 hlawful).2
      have hbetween := (Runs.throughout_append.1 hrest.2).1
      have hlate := merged_final hbetween hmerged hstate
      have hrun : Runs.run (Service.step closingNumbers) s (earlier ++ step :: between) =
          Runs.run (Service.step closingNumbers)
            ((Runs.run (Service.step closingNumbers) s earlier).step closingNumbers step) between :=
        Runs.run_append _ s earlier (step :: between)
      rw [← hrun] at hlate
      have hend := hfits (earlier ++ step :: between) step' later (by simp)
      rw [not_merged_of_merges hend hsecond hlate] at hmerged
      cases hmerged

def Service.empty : Service := ⟨⟨[], [], []⟩, []⟩

/-- A pull request is opened, a request to close it reads it open, and a merge reads it and lands. -/
def racingSteps : List Step :=
  [.openPull ⟨7, 1, 1, "title", none, ⟨1, "feature"⟩, "main", .open⟩ false 1,
    .readPull (.close 20 2) 1 1, .readMerge .merge 1 1 1, .land 1 10 (.ok "c"), .commit 1]

/-- The write of the request to close overwrites the merge, and its event reports a closing. -/
theorem close_overwrites_merge :
    (Runs.run (Service.step fun _ => []) .empty racingSteps).tables.pullState 7 =
        some (.merged 10 "c" .merge) ∧
      (Runs.run (Service.step fun _ => []) .empty (racingSteps ++ [.commit 0])).tables =
        ⟨[⟨7, 1, 1, "title", none, ⟨1, "feature"⟩, "main", .closed 20 .notPlanned⟩], [],
          [.pullRequestOpened 7 1 1, .pullRequestMerged 7 1, .pullRequestClosed 7 1 2]⟩ ∧
      ¬ StatesKept (fun _ => []) .empty (racingSteps ++ [.commit 0]) := by
  have hmerged : (Runs.run (Service.step fun _ => []) .empty racingSteps).tables.pullState 7 =
      some (.merged 10 "c" .merge) := by decide
  refine ⟨hmerged, by decide, ?_⟩
  intro h
  have hfinal := h.mergedFinal racingSteps [.commit 0] rfl 7 _ rfl hmerged
  exact absurd hfinal (by decide)

end Edda.App
