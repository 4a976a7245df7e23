import Edda.App.PullRequestService
import Edda.Domain.Labels
import Edda.Support.Fallible
import Edda.Support.Runs
import Edda.Support.RustText
import Edda.Support.Table

/-!
# The associations of issues

An operation on an issue takes the id of a label or of a milestone from the client. The foreign keys
say that the row exists, and not whose repository it is of. `apply_label` looks the label up among
those of the issue's repository; `set_milestone` writes the id that it is given.

`associations_stay_inside_iff` says of which calls the associations stay inside the repository, and
that what is shown of an issue does for all calls.
-/

set_option autoImplicit false

namespace Edda.App.IssueAssociations

open Edda.Domain Edda.Db Edda.Auth Edda.Support Edda.Support.RustText Edda.Support.Fallible
open Edda.App (ServiceError IssueState)

/-! ## The tables -/

structure Issue where
  id : IssueId
  repositoryId : RepositoryId
  number : Int
  title : String
  body : Option String
  authorId : UserId
  state : IssueState
  milestoneId : Option MilestoneId
  createdAt : Int
  deriving DecidableEq, Repr

/-- A row of `issue_labels`, whose columns are its key. -/
structure IssueLabel where
  issueId : IssueId
  labelId : LabelId
  deriving DecidableEq, Repr

/-- A row of `issue_assignees`, whose first two columns are its key. -/
structure IssueAssignee where
  issueId : IssueId
  userId : UserId
  assignedById : UserId
  assignedAt : Int
  deriving DecidableEq, Repr

structure Tables where
  issues : List Issue
  labels : List Label
  milestones : List Milestone
  issueLabels : List IssueLabel
  issueAssignees : List IssueAssignee
  events : List Edda.Domain.DomainEvent
  deriving DecidableEq, Repr

def Tables.empty : Tables := ⟨[], [], [], [], [], []⟩

/-- The statements behind the access check. -/
inductive Statement where
  | nextNumber
  | insertIssue
  | findIssue
  | updateState
  | setMilestone
  | insertLabel
  | listLabels
  | listApplied
  | unapplyLabel
  | applyLabel
  | removeLabel
  | insertMilestone
  | findUser
  | assign
  | unassign
  | appendEvent
  | commit
  deriving DecidableEq, Repr

/-- The operations, with what the client asks for. The ids and the numbers of new rows are drawn. -/
inductive Operation where
  | «open» (issueId : IssueId) (nextNumber : Except ServiceError Int) (title : String)
      (body : Option String)
  | close (number : Int)
  | reopen (number : Int)
  | createLabel (id : LabelId) (labelName color : String) (description : Option String)
  | applyLabel (number : Int) (labelId : LabelId)
  | removeLabel (number : Int) (labelId : LabelId)
  | createMilestone (id : MilestoneId) (title : String) (description : Option String)
      (dueOn : Option Int)
  | assign (number : Int) (assigneeUsername : String)
  | unassign (number : Int) (assigneeUsername : String)
  | setMilestone (number : Int) (milestoneId : Option MilestoneId)

/-- A call of the service, with the tables of the access check as they are then and the statements
that fail, with their errors. -/
structure Call where
  actor : ActorContext
  owner : String
  name : String
  operation : Operation
  db : Database
  failing : Statement → Option DbError
  now : Int

/-! ## The operations -/

section Operations

variable (call : Call)

/-- The value of a statement, unless it fails. -/
def Call.ask {α : Type} (statement : Statement) (value : α) : Except ServiceError α :=
  match call.failing statement with
  | some err => .error (.db err)
  | none => .ok value

/-- What every operation begins with. -/
def Call.writeChecked : Except ServiceError (Repository × UserId) :=
  match call.actor.userId with
  | none => .error .unauthorized
  | some userId => match repositoryByName call.db call.owner call.name with
    | .error err => .error (.ofAuthz err)
    | .ok repository => match checkWrite call.db call.actor repository with
      | .error err => .error (.ofAuthz err)
      | .ok () => .ok (repository, userId)

variable (tables : Tables) (repository : Repository) (userId : UserId)

def Tables.findIssue (repositoryId : RepositoryId) (number : Int) : Option Issue :=
  tables.issues.find? fun issue => issue.repositoryId = repositoryId ∧ issue.number = number

/-- `LabelRepo::list_for_repository`. -/
def Tables.listLabels (db : Database) (repositoryId : RepositoryId) : List Label :=
  (tables.labels.filter fun label => label.repositoryId = repositoryId).insertionSort
    fun a b => db.collation a.name b.name

/-- The labels that an issue holds. -/
def Tables.labelsOf (issueId : IssueId) : List Label :=
  tables.labels.filter fun label => ⟨issueId, label.id⟩ ∈ tables.issueLabels

/-- A text with something in it. -/
def blankIsNone (text : Option String) : Option String :=
  text.filter fun text => trim text.toList ≠ []

def Call.loadIssue (repositoryId : RepositoryId) (number : Int) : Except ServiceError Issue := do
  let issue ← call.ask .findIssue (tables.findIssue repositoryId number)
  match issue with
  | none => .error .notFound
  | some issue => return issue

def Call.«open» (issueId : IssueId) (nextNumber : Except ServiceError Int) (title : String)
    (body : Option String) : Except ServiceError Tables := do
  rejectIf (trim title.toList = []) (.validation "an issue needs a title")
  let number ← nextNumber
  call.ask .insertIssue ()
  -- the keys of the table
  rejectIf (∃ issue ∈ tables.issues,
      issue.id = issueId ∨ (issue.repositoryId = repository.id ∧ issue.number = number))
    (.db "unique constraint")
  call.ask .appendEvent ()
  call.ask .commit { tables with
    issues := tables.issues ++ [{
      id := issueId
      repositoryId := repository.id
      number
      title := String.ofList (trim title.toList)
      body := blankIsNone body
      authorId := userId
      state := .open
      milestoneId := none
      createdAt := call.now }]
    events := tables.events ++ [.issueOpened issueId repository.id userId] }

/-- `IssueRepo::update_state`. -/
def Tables.updateState (id : IssueId) (state : IssueState) : Tables :=
  { tables with issues :=
      Table.update tables.issues (fun issue => issue.id = id) fun issue => { issue with state } }

def Call.close (number : Int) : Except ServiceError Tables := do
  let issue ← call.loadIssue tables repository.id number
  rejectIf (issue.state.isOpen = false) (.conflict "this issue is already closed")
  call.ask .updateState ()
  call.ask .appendEvent ()
  call.ask .commit { tables.updateState issue.id (.closed call.now .completed) with
    events := tables.events ++ [.issueClosed issue.id repository.id userId none] }

def Call.reopen (number : Int) : Except ServiceError Tables := do
  let issue ← call.loadIssue tables repository.id number
  call.ask .updateState (tables.updateState issue.id .open)

def Call.createLabel (id : LabelId) (labelName color : String) (description : Option String) :
    Except ServiceError Tables := do
  rejectIf (trim labelName.toList = []) (.validation "a label needs a name")
  let labelName := String.ofList (trim labelName.toList)
  call.ask .insertLabel ()
  rejectIf (∃ label ∈ tables.labels,
      label.id = id ∨ (label.repositoryId = repository.id ∧ label.name = labelName))
    (.conflict "a label with that name already exists")
  return { tables with
    labels := tables.labels ++
      [⟨id, repository.id, labelName, color, blankIsNone description, none⟩] }

/-- `LabelRepo::apply_to_issue`, one transaction. -/
def Call.applyToIssue (issueId : IssueId) (label : Label) : Except ServiceError Tables := do
  let currentlyApplied ← call.ask .listApplied (tables.labelsOf issueId)
  let stale := labelsToUnapplyForScope currentlyApplied label
  (if stale = [] then .ok () else call.ask .unapplyLabel ())
  let kept := tables.issueLabels.filter fun link =>
    ¬ (link.issueId = issueId ∧ ∃ label ∈ stale, label.id = link.labelId)
  call.ask .applyLabel ()
  -- a row that is there is left as it is
  let written := if ⟨issueId, label.id⟩ ∈ kept then kept else kept ++ [⟨issueId, label.id⟩]
  call.ask .commit { tables with issueLabels := written }

def Call.applyLabel (number : Int) (labelId : LabelId) : Except ServiceError Tables := do
  let issue ← call.loadIssue tables repository.id number
  let labels ← call.ask .listLabels (tables.listLabels call.db repository.id)
  match labels.find? fun label => label.id = labelId with
  | none => .error .notFound
  | some label => call.applyToIssue tables issue.id label

def Call.removeLabel (number : Int) (labelId : LabelId) : Except ServiceError Tables := do
  let issue ← call.loadIssue tables repository.id number
  call.ask .removeLabel { tables with
    issueLabels := tables.issueLabels.filter fun link => link ≠ ⟨issue.id, labelId⟩ }

def Call.createMilestone (id : MilestoneId) (title : String) (description : Option String)
    (dueOn : Option Int) : Except ServiceError Tables := do
  rejectIf (trim title.toList = []) (.validation "a milestone needs a title")
  call.ask .insertMilestone ()
  rejectIf (∃ milestone ∈ tables.milestones, milestone.id = id) (.db "unique constraint")
  return { tables with
    milestones := tables.milestones ++ [⟨id, repository.id, String.ofList (trim title.toList),
      blankIsNone description, dueOn, .open⟩] }

/-- The user of a name, or `NotFound`. -/
def Call.findAssignee (assigneeUsername : String) : Except ServiceError User := do
  let found ← call.ask .findUser
    (call.db.users.find? fun user => user.username = assigneeUsername)
  match found with
  | none => .error .notFound
  | some user => return user

def Call.assign (number : Int) (assigneeUsername : String) : Except ServiceError Tables := do
  let issue ← call.loadIssue tables repository.id number
  let assignee ← call.findAssignee assigneeUsername
  call.ask .assign ()
  if ∃ row ∈ tables.issueAssignees, row.issueId = issue.id ∧ row.userId = assignee.id then
    call.ask .commit tables
  else
    call.ask .appendEvent ()
    call.ask .commit { tables with
      issueAssignees := tables.issueAssignees ++ [⟨issue.id, assignee.id, userId, call.now⟩]
      events := tables.events ++ [.issueAssigned issue.id repository.id assignee.id userId] }

def Call.unassign (number : Int) (assigneeUsername : String) : Except ServiceError Tables := do
  let issue ← call.loadIssue tables repository.id number
  let assignee ← call.findAssignee assigneeUsername
  call.ask .unassign { tables with
    issueAssignees := tables.issueAssignees.filter fun row =>
      ¬ (row.issueId = issue.id ∧ row.userId = assignee.id) }

/-- `IssueRepo::set_milestone`, where the foreign key allows it. -/
def Tables.setMilestone (id : IssueId) (milestoneId : Option MilestoneId) : Tables :=
  { tables with issues :=
      Table.update tables.issues (fun issue => issue.id = id) fun issue =>
        { issue with milestoneId } }

def Call.setMilestone (number : Int) (milestoneId : Option MilestoneId) :
    Except ServiceError Tables := do
  let issue ← call.loadIssue tables repository.id number
  call.ask .setMilestone ()
  -- the foreign key
  rejectIf (milestoneId.any fun id => ¬ ∃ milestone ∈ tables.milestones, milestone.id = id)
    (.db "foreign key constraint")
  return tables.setMilestone issue.id milestoneId

/-- Every operation begins with the access check. -/
def Call.perform : Except ServiceError Tables := do
  let (repository, userId) ← call.writeChecked
  match call.operation with
  | .open issueId nextNumber title body =>
    call.open tables repository userId issueId nextNumber title body
  | .close number => call.close tables repository userId number
  | .reopen number => call.reopen tables repository number
  | .createLabel id labelName color description =>
    call.createLabel tables repository id labelName color description
  | .applyLabel number labelId => call.applyLabel tables repository number labelId
  | .removeLabel number labelId => call.removeLabel tables repository number labelId
  | .createMilestone id title description dueOn =>
    call.createMilestone tables repository id title description dueOn
  | .assign number assigneeUsername => call.assign tables repository userId number assigneeUsername
  | .unassign number assigneeUsername => call.unassign tables repository number assigneeUsername
  | .setMilestone number milestoneId => call.setMilestone tables repository number milestoneId

/-- An operation that fails leaves the tables as they are. -/
def step (tables : Tables) (call : Call) : Tables :=
  match call.perform tables with
  | .error _ => tables
  | .ok tables => tables

end Operations

/-! ## What is shown -/

section Shown

variable (tables : Tables)

/-- What has no due day comes last. -/
def dueBefore : Option Int → Option Int → Bool
  | none, none => true
  | none, some _ => false
  | some _, none => true
  | some a, some b => a ≤ b

/-- `MilestoneRepo::list_for_repository`. -/
def Tables.listMilestones (repositoryId : RepositoryId) : List Milestone :=
  (tables.milestones.filter fun milestone =>
    milestone.repositoryId = repositoryId).insertionSort fun a b => dueBefore a.dueOn b.dueOn

/-- The milestone whose title `issue_dto` shows. -/
def Tables.shownMilestone (issue : Issue) : Option Milestone :=
  issue.milestoneId.bind fun id =>
    (tables.listMilestones issue.repositoryId).find? fun milestone => milestone.id = id

/-- `LabelRepo::list_for_issue`. -/
def Tables.shownLabels (db : Database) (issue : Issue) : List Label :=
  (tables.labelsOf issue.id).insertionSort fun a b => db.collation a.name b.name

/-- Nothing of another repository is shown of an issue. -/
def ShowsOwn (tables : Tables) : Prop :=
  ∀ issue ∈ tables.issues,
    (∀ milestone, tables.shownMilestone issue = some milestone →
      milestone.repositoryId = issue.repositoryId) ∧
    ∀ db, ∀ label ∈ tables.shownLabels db issue, label.repositoryId = issue.repositoryId

end Shown

/-! ## Associations inside the repository -/

/-- The milestone that an issue has is one of its repository. -/
def MilestoneInside (tables : Tables) (issue : Issue) : Prop :=
  ∀ id, issue.milestoneId = some id →
    ∃ milestone ∈ tables.milestones,
      milestone.id = id ∧ milestone.repositoryId = issue.repositoryId

/-- The labels that an issue has are of its repository. -/
def LabelsInside (tables : Tables) (issue : Issue) : Prop :=
  ∀ link ∈ tables.issueLabels, link.issueId = issue.id →
    ∃ label ∈ tables.labels, label.id = link.labelId ∧ label.repositoryId = issue.repositoryId

/-- Each issue's milestone and labels belong to the issue's own repository. -/
def Inside (tables : Tables) : Prop :=
  ∀ issue ∈ tables.issues, MilestoneInside tables issue ∧ LabelsInside tables issue

/-- The primary keys, and that a label is on an issue there is. -/
structure Keys (tables : Tables) : Prop where
  issues : Table.Keyed Issue.id tables.issues
  labels : Table.Keyed Label.id tables.labels
  links : ∀ link ∈ tables.issueLabels, ∃ issue ∈ tables.issues, issue.id = link.issueId

/-- A call of `set_milestone` that gets to write a milestone there is. -/
def Call.SetsMilestone (tables : Tables) (call : Call) (issue : Issue) (id : MilestoneId) : Prop :=
  ∃ repository userId number, call.writeChecked = .ok (repository, userId) ∧
    call.operation = .setMilestone number (some id) ∧
    call.loadIssue tables repository.id number = .ok issue ∧ call.failing .setMilestone = none ∧
    ∃ milestone ∈ tables.milestones, milestone.id = id

/-- The milestone that a call sets is one of the issue's repository. -/
def NamesOwnMilestone (tables : Tables) (call : Call) : Prop :=
  ∀ issue id, call.SetsMilestone tables issue id →
    ∃ milestone ∈ tables.milestones,
      milestone.id = id ∧ milestone.repositoryId = issue.repositoryId

/-! ## What a call does -/

/-- A label of an issue there is, and of its repository. -/
def Tables.Own (tables : Tables) (link : IssueLabel) : Prop :=
  ∃ issue ∈ tables.issues, issue.id = link.issueId ∧
    ∃ label ∈ tables.labels, label.id = link.labelId ∧ label.repositoryId = issue.repositoryId

/-- What the associations of an issue depend on. -/
def Issue.association (issue : Issue) : IssueId × RepositoryId × Option MilestoneId :=
  (issue.id, issue.repositoryId, issue.milestoneId)

/-- What a call can do to the tables. -/
inductive Effect (tables : Tables) (call : Call) : Tables → Prop where
  | rewritten (issues : List Issue) (links : List IssueLabel) (assignees : List IssueAssignee)
      (events : List Edda.Domain.DomainEvent)
      (hissues : issues.map Issue.association = tables.issues.map Issue.association)
      (hlinks : ∀ link ∈ links, link ∈ tables.issueLabels ∨ tables.Own link) :
      Effect tables call ⟨issues, tables.labels, tables.milestones, links, assignees, events⟩
  | opened (issue : Issue) (events : List Edda.Domain.DomainEvent)
      (hid : issue.id ∉ tables.issues.map Issue.id) (hnone : issue.milestoneId = none) :
      Effect tables call { tables with issues := tables.issues ++ [issue], events }
  | labelCreated (label : Label) (hid : label.id ∉ tables.labels.map Label.id) :
      Effect tables call { tables with labels := tables.labels ++ [label] }
  | milestoneCreated (milestone : Milestone) :
      Effect tables call { tables with milestones := tables.milestones ++ [milestone] }
  | milestoneSet (issue : Issue) (milestoneId : Option MilestoneId) (hissue : issue ∈ tables.issues)
      (hset : ∀ id, milestoneId = some id → call.SetsMilestone tables issue id) :
      Effect tables call (tables.setMilestone issue.id milestoneId)

section Effect

variable {call : Call} {tables tables' : Tables} {repository : Repository} {userId : UserId}
  {number : Int}

theorem ask_eq_ok {α : Type} {statement : Statement} {value result : α} :
    call.ask statement value = .ok result ↔ call.failing statement = none ∧ value = result := by
  rw [Call.ask]
  cases call.failing statement with
  | none => simp
  | some err => simp

theorem loadIssue_eq_ok {repositoryId : RepositoryId} {issue : Issue}
    (h : call.loadIssue tables repositoryId number = .ok issue) :
    issue ∈ tables.issues ∧ issue.repositoryId = repositoryId := by
  simp only [Call.loadIssue, bind_eq_ok, ask_eq_ok] at h
  obtain ⟨found, ⟨-, rfl⟩, hfound⟩ := h
  cases hfind : tables.findIssue repositoryId number with
  | none => simp [hfind] at hfound
  | some other =>
    rw [hfind] at hfound
    obtain rfl := Except.ok.inj hfound
    have hselected := List.find?_some hfind
    simp only [decide_eq_true_eq] at hselected
    exact ⟨List.mem_of_find?_eq_some hfind, hselected.1⟩

/-- Tables that differ from the old ones in nothing that an association depends on. -/
theorem Effect.same (hissues : tables'.issues.map Issue.association =
      tables.issues.map Issue.association) (hlabels : tables'.labels = tables.labels)
    (hmilestones : tables'.milestones = tables.milestones)
    (hlinks : ∀ link ∈ tables'.issueLabels, link ∈ tables.issueLabels ∨ tables.Own link) :
    Effect tables call tables' := by
  obtain ⟨issues, labels, milestones, links, assignees, events⟩ := tables'
  obtain rfl : labels = tables.labels := hlabels
  obtain rfl : milestones = tables.milestones := hmilestones
  exact .rewritten issues links assignees events hissues hlinks

theorem updateState_association (id : IssueId) (state : IssueState) :
    (tables.updateState id state).issues.map Issue.association =
      tables.issues.map Issue.association := by
  apply Table.keys_update
  intro issue
  rfl

theorem effect_open {issueId : IssueId} {nextNumber : Except ServiceError Int} {title : String}
    {body : Option String}
    (h : call.open tables repository userId issueId nextNumber title body = .ok tables') :
    Effect tables call tables' := by
  simp only [Call.open, bind_eq_ok, rejectIf_eq_ok, ask_eq_ok, exists_const] at h
  obtain ⟨-, drawn, -, -, hfree, -, -, rfl⟩ := h
  refine .opened _ _ ?_ rfl
  intro hmem
  obtain ⟨issue, hissue, hid⟩ := List.mem_map.1 hmem
  exact hfree ⟨issue, hissue, Or.inl hid⟩

theorem effect_close (h : call.close tables repository userId number = .ok tables') :
    Effect tables call tables' := by
  simp only [Call.close, bind_eq_ok, rejectIf_eq_ok, ask_eq_ok, exists_const] at h
  obtain ⟨issue, -, -, -, -, -, rfl⟩ := h
  exact .same (updateState_association _ _) rfl rfl fun link hlink => Or.inl hlink

theorem effect_reopen (h : call.reopen tables repository number = .ok tables') :
    Effect tables call tables' := by
  simp only [Call.reopen, bind_eq_ok, ask_eq_ok] at h
  obtain ⟨issue, -, -, rfl⟩ := h
  exact .same (updateState_association _ _) rfl rfl fun link hlink => Or.inl hlink

theorem effect_createLabel {id : LabelId} {labelName color : String} {description : Option String}
    (h : call.createLabel tables repository id labelName color description = .ok tables') :
    Effect tables call tables' := by
  simp only [Call.createLabel, bind_eq_ok, rejectIf_eq_ok, ask_eq_ok, exists_const] at h
  obtain ⟨-, -, hfree, hreturn⟩ := h
  obtain rfl := Except.ok.inj hreturn
  refine .labelCreated _ ?_
  intro hmem
  obtain ⟨label, hlabel, hid⟩ := List.mem_map.1 hmem
  exact hfree ⟨label, hlabel, Or.inl hid⟩

theorem effect_createMilestone {id : MilestoneId} {title : String} {description : Option String}
    {dueOn : Option Int}
    (h : call.createMilestone tables repository id title description dueOn = .ok tables') :
    Effect tables call tables' := by
  simp only [Call.createMilestone, bind_eq_ok, rejectIf_eq_ok, ask_eq_ok, exists_const] at h
  obtain ⟨-, -, -, hreturn⟩ := h
  obtain rfl := Except.ok.inj hreturn
  exact .milestoneCreated _

theorem effect_applyToIssue {issue : Issue} {label : Label} (hissue : issue ∈ tables.issues)
    (hlabel : label ∈ tables.labels) (hrepository : label.repositoryId = issue.repositoryId)
    (h : call.applyToIssue tables issue.id label = .ok tables') : Effect tables call tables' := by
  simp only [Call.applyToIssue, bind_eq_ok, ask_eq_ok, exists_const] at h
  obtain ⟨applied, -, -, -, -, -, rfl⟩ := h
  refine .same rfl rfl rfl ?_
  intro link hlink
  have hkept : link ∈ tables.issueLabels ∨ link = ⟨issue.id, label.id⟩ := by
    simp only at hlink
    split at hlink
    · exact Or.inl (List.mem_filter.1 hlink).1
    · rcases List.mem_append.1 hlink with hold | hnew
      · exact Or.inl (List.mem_filter.1 hold).1
      · exact Or.inr (List.mem_singleton.1 hnew)
  rcases hkept with hold | rfl
  · exact Or.inl hold
  · exact Or.inr ⟨issue, hissue, rfl, label, hlabel, rfl, hrepository⟩

theorem effect_applyLabel {labelId : LabelId}
    (h : call.applyLabel tables repository number labelId = .ok tables') :
    Effect tables call tables' := by
  simp only [Call.applyLabel, bind_eq_ok, ask_eq_ok] at h
  obtain ⟨issue, hload, labels, ⟨-, rfl⟩, happly⟩ := h
  obtain ⟨hissue, hrepository⟩ := loadIssue_eq_ok hload
  cases hfind : (tables.listLabels call.db repository.id).find? fun label => label.id = labelId with
  | none => simp [hfind] at happly
  | some label =>
    rw [hfind] at happly
    -- the label is one of those that the repository lists
    have hlisted := List.mem_of_find?_eq_some hfind
    rw [Tables.listLabels, List.mem_insertionSort, List.mem_filter] at hlisted
    obtain ⟨hlabel, hown⟩ := hlisted
    simp only [decide_eq_true_eq] at hown
    exact effect_applyToIssue hissue hlabel (hown.trans hrepository.symm) happly

theorem effect_removeLabel {labelId : LabelId}
    (h : call.removeLabel tables repository number labelId = .ok tables') :
    Effect tables call tables' := by
  simp only [Call.removeLabel, bind_eq_ok, ask_eq_ok] at h
  obtain ⟨issue, -, -, rfl⟩ := h
  exact .same rfl rfl rfl fun link hlink => Or.inl (List.mem_filter.1 hlink).1

theorem effect_assign {assigneeUsername : String}
    (h : call.assign tables repository userId number assigneeUsername = .ok tables') :
    Effect tables call tables' := by
  simp only [Call.assign, bind_eq_ok, ask_eq_ok, exists_const] at h
  obtain ⟨issue, -, assignee, -, -, hassign⟩ := h
  split at hassign
  · obtain ⟨-, rfl⟩ := ask_eq_ok.1 hassign
    exact .same rfl rfl rfl fun link hlink => Or.inl hlink
  · simp only [bind_eq_ok, ask_eq_ok, exists_const] at hassign
    obtain ⟨-, -, rfl⟩ := hassign
    exact .same rfl rfl rfl fun link hlink => Or.inl hlink

theorem effect_unassign {assigneeUsername : String}
    (h : call.unassign tables repository number assigneeUsername = .ok tables') :
    Effect tables call tables' := by
  simp only [Call.unassign, bind_eq_ok, ask_eq_ok] at h
  obtain ⟨issue, -, assignee, -, -, rfl⟩ := h
  exact .same rfl rfl rfl fun link hlink => Or.inl hlink

theorem effect_setMilestone {milestoneId : Option MilestoneId}
    (hchecked : call.writeChecked = .ok (repository, userId))
    (hoperation : call.operation = .setMilestone number milestoneId)
    (h : call.setMilestone tables repository number milestoneId = .ok tables') :
    Effect tables call tables' := by
  simp only [Call.setMilestone, bind_eq_ok, rejectIf_eq_ok, ask_eq_ok, exists_const] at h
  obtain ⟨issue, hload, ⟨hworks, -⟩, hforeign, hreturn⟩ := h
  obtain rfl := Except.ok.inj hreturn
  refine .milestoneSet issue milestoneId (loadIssue_eq_ok hload).1 ?_
  rintro id rfl
  refine ⟨repository, userId, number, hchecked, hoperation, hload, hworks, ?_⟩
  by_contra hnone
  exact hforeign (by simpa using hnone)

/-- Everything that a call can do. -/
theorem effect_step (tables : Tables) (call : Call) : Effect tables call (step tables call) := by
  rw [step]
  split
  · exact .same rfl rfl rfl fun link hlink => Or.inl hlink
  · rename_i tables' hperform
    simp only [Call.perform, bind_eq_ok] at hperform
    obtain ⟨⟨repository, userId⟩, hchecked, hrest⟩ := hperform
    cases hoperation : call.operation with
    | «open» issueId nextNumber title body =>
      rw [hoperation] at hrest
      exact effect_open hrest
    | close number =>
      rw [hoperation] at hrest
      exact effect_close hrest
    | reopen number =>
      rw [hoperation] at hrest
      exact effect_reopen hrest
    | createLabel id labelName color description =>
      rw [hoperation] at hrest
      exact effect_createLabel hrest
    | applyLabel number labelId =>
      rw [hoperation] at hrest
      exact effect_applyLabel hrest
    | removeLabel number labelId =>
      rw [hoperation] at hrest
      exact effect_removeLabel hrest
    | createMilestone id title description dueOn =>
      rw [hoperation] at hrest
      exact effect_createMilestone hrest
    | assign number assigneeUsername =>
      rw [hoperation] at hrest
      exact effect_assign hrest
    | unassign number assigneeUsername =>
      rw [hoperation] at hrest
      exact effect_unassign hrest
    | setMilestone number milestoneId =>
      rw [hoperation] at hrest
      exact effect_setMilestone hchecked hoperation hrest

/-- Whose milestone it is, `set_milestone` does not ask. -/
theorem step_setsMilestone {issue : Issue} {id : MilestoneId}
    (h : call.SetsMilestone tables issue id) :
    step tables call = tables.setMilestone issue.id (some id) := by
  obtain ⟨repository, userId, number, hchecked, hoperation, hload, hworks, milestone, hmilestone,
    hid⟩ := h
  have hperform : call.perform tables = .ok (tables.setMilestone issue.id (some id)) := by
    simp only [Call.perform, bind_eq_ok]
    refine ⟨(repository, userId), hchecked, ?_⟩
    simp only [hoperation, Call.setMilestone, bind_eq_ok, rejectIf_eq_ok, ask_eq_ok]
    refine ⟨issue, hload, (), ⟨hworks, trivial⟩, (), ?_, rfl⟩
    rw [Option.any_some, decide_eq_true_eq]
    exact fun hnone => hnone ⟨milestone, hmilestone, hid⟩
  rw [step, hperform]

end Effect

/-! ## What every call keeps -/

/-- The keys, and that every label that an issue has is its own. -/
structure Sound (tables : Tables) : Prop where
  issues : Table.Keyed Issue.id tables.issues
  labels : Table.Keyed Label.id tables.labels
  own : ∀ link ∈ tables.issueLabels, tables.Own link

section Sound

variable {call : Call} {tables tables' : Tables}

theorem Tables.Own.mono {link : IssueLabel} (h : tables.Own link)
    (hissues : ∀ issue ∈ tables.issues, ∃ other ∈ tables'.issues,
      other.id = issue.id ∧ other.repositoryId = issue.repositoryId)
    (hlabels : ∀ label ∈ tables.labels, label ∈ tables'.labels) : tables'.Own link := by
  obtain ⟨issue, hissue, hid, label, hlabel, hlink, hrepository⟩ := h
  obtain ⟨other, hother, hsame, hsameRepository⟩ := hissues issue hissue
  refine ⟨other, hother, hsame.trans hid, label, hlabels label hlabel, hlink, ?_⟩
  exact hrepository.trans hsameRepository.symm

theorem exists_of_association {issues issues' : List Issue}
    (h : issues'.map Issue.association = issues.map Issue.association) {issue : Issue}
    (hissue : issue ∈ issues) : ∃ other ∈ issues', other.association = issue.association := by
  have hmem : issue.association ∈ issues'.map Issue.association := by
    rw [h]
    exact List.mem_map_of_mem hissue
  exact List.mem_map.1 hmem

theorem ids_of_association {issues issues' : List Issue}
    (h : issues'.map Issue.association = issues.map Issue.association) :
    issues'.map Issue.id = issues.map Issue.id := by
  have hfst := congrArg (List.map Prod.fst) h
  rw [List.map_map, List.map_map] at hfst
  exact hfst

theorem Sound.effect (hsound : Sound tables) (heffect : Effect tables call tables') :
    Sound tables' := by
  obtain ⟨hissues, hlabels, hown⟩ := hsound
  cases heffect with
  | rewritten issues links assignees events hsame hlinks =>
    refine ⟨?_, hlabels, ?_⟩
    · rw [Table.Keyed, ids_of_association hsame]
      exact hissues
    · intro link hlink
      have hbefore : tables.Own link := (hlinks link hlink).elim (hown link) id
      refine hbefore.mono (fun issue hissue => ?_) fun label hlabel => hlabel
      obtain ⟨other, hother, hassociation⟩ := exists_of_association hsame hissue
      simp only [Issue.association, Prod.mk.injEq] at hassociation
      exact ⟨other, hother, hassociation.1, hassociation.2.1⟩
  | opened issue events hid hnone =>
    refine ⟨Table.Keyed.append hissues hid, hlabels, fun link hlink => ?_⟩
    exact (hown link hlink).mono
      (fun issue hissue => ⟨issue, List.mem_append_left _ hissue, rfl, rfl⟩) fun label hlabel => hlabel
  | labelCreated label hid =>
    refine ⟨hissues, Table.Keyed.append hlabels hid, fun link hlink => ?_⟩
    exact (hown link hlink).mono (fun issue hissue => ⟨issue, hissue, rfl, rfl⟩)
      fun label hlabel => List.mem_append_left _ hlabel
  | milestoneCreated milestone => exact ⟨hissues, hlabels, hown⟩
  | milestoneSet issue milestoneId hissue hset =>
    refine ⟨Table.Keyed.update (fun _ => rfl) hissues, hlabels, fun link hlink => ?_⟩
    refine (hown link hlink).mono (fun issue hissue => ?_) fun label hlabel => hlabel
    refine ⟨_, List.mem_map_of_mem hissue, ?_⟩
    split
    · exact ⟨rfl, rfl⟩
    · exact ⟨rfl, rfl⟩

theorem Sound.step (hsound : Sound tables) : Sound (step tables call) :=
  hsound.effect (effect_step tables call)

theorem Sound.labelsInside (hsound : Sound tables) {issue : Issue} (hissue : issue ∈ tables.issues) :
    LabelsInside tables issue := by
  intro link hlink hid
  obtain ⟨other, hother, hsame, hlabel⟩ := hsound.own link hlink
  -- the issue of the link is this one
  obtain rfl := List.inj_on_of_nodup_map hsound.issues hother hissue (hsame.trans hid)
  exact hlabel

theorem sound_of_inside (hkeys : Keys tables) (hinside : Inside tables) : Sound tables := by
  refine ⟨hkeys.issues, hkeys.labels, fun link hlink => ?_⟩
  obtain ⟨issue, hissue, hid⟩ := hkeys.links link hlink
  exact ⟨issue, hissue, hid, (hinside issue hissue).2 link hlink hid.symm⟩

theorem Sound.inside_iff (hsound : Sound tables) :
    Inside tables ↔ ∀ issue ∈ tables.issues, MilestoneInside tables issue := by
  constructor
  · intro h issue hissue
    exact (h issue hissue).1
  · intro h issue hissue
    exact ⟨h issue hissue, hsound.labelsInside hissue⟩

theorem Sound.showsOwn (hsound : Sound tables) : ShowsOwn tables := by
  intro issue hissue
  constructor
  · intro milestone hshown
    obtain ⟨id, -, hfind⟩ := Option.bind_eq_some_iff.1 hshown
    have hlisted := List.mem_of_find?_eq_some hfind
    rw [Tables.listMilestones, List.mem_insertionSort, List.mem_filter] at hlisted
    simpa using hlisted.2
  · intro db label hshown
    rw [Tables.shownLabels, List.mem_insertionSort, Tables.labelsOf, List.mem_filter] at hshown
    obtain ⟨hlabel, hlink⟩ := hshown
    simp only [decide_eq_true_eq] at hlink
    obtain ⟨own, hown, hid, hrepository⟩ := hsound.labelsInside hissue _ hlink rfl
    -- the id tells the label
    obtain rfl := List.inj_on_of_nodup_map hsound.labels hown hlabel hid
    exact hrepository

theorem MilestoneInside.mono {issue issue' : Issue} (h : MilestoneInside tables issue)
    (hsame : issue'.association = issue.association)
    (hmilestones : ∀ milestone ∈ tables.milestones, milestone ∈ tables'.milestones) :
    MilestoneInside tables' issue' := by
  simp only [Issue.association, Prod.mk.injEq] at hsame
  obtain ⟨-, hrepository, hmilestone⟩ := hsame
  intro id hid
  obtain ⟨milestone, hmem, hmilestoneId, hown⟩ := h id (hmilestone.symm.trans hid)
  exact ⟨milestone, hmilestones milestone hmem, hmilestoneId, hown.trans hrepository.symm⟩

theorem milestonesInside_effect (hsound : Sound tables)
    (hbefore : ∀ issue ∈ tables.issues, MilestoneInside tables issue)
    (hnames : NamesOwnMilestone tables call) (heffect : Effect tables call tables') :
    ∀ issue ∈ tables'.issues, MilestoneInside tables' issue := by
  cases heffect with
  | rewritten issues links assignees events hsame hlinks =>
    intro issue hissue
    obtain ⟨other, hother, hassociation⟩ := exists_of_association hsame.symm hissue
    exact (hbefore other hother).mono hassociation.symm fun milestone hmem => hmem
  | opened new events hid hnone =>
    intro issue hissue
    rcases List.mem_append.1 hissue with hold | hnew
    · exact (hbefore issue hold).mono rfl fun milestone hmem => hmem
    · obtain rfl := List.mem_singleton.1 hnew
      intro id hsome
      rw [hnone] at hsome
      cases hsome
  | labelCreated label hid =>
    intro issue hissue
    exact (hbefore issue hissue).mono rfl fun milestone hmem => hmem
  | milestoneCreated milestone =>
    intro issue hissue
    exact (hbefore issue hissue).mono rfl fun milestone hmem => List.mem_append_left _ hmem
  | milestoneSet target milestoneId htarget hset =>
    intro issue hissue
    obtain ⟨old, hold, rfl⟩ := List.mem_map.1 hissue
    by_cases hid : old.id = target.id
    · -- the call names a milestone of the repository of the only issue it writes
      obtain rfl := List.inj_on_of_nodup_map hsound.issues hold htarget hid
      intro id hsome
      simp only [decide_true, if_true] at hsome ⊢
      exact hnames old id (hset id hsome)
    · simp only [hid, decide_false, Bool.false_eq_true, if_false]
      exact (hbefore old hold).mono rfl fun milestone hmem => hmem

/-- A call keeps the milestones inside exactly if it names one of the issue's repository. -/
theorem inside_step_iff (hsound : Sound tables) (hinside : Inside tables) :
    Inside (IssueAssociations.step tables call) ↔ NamesOwnMilestone tables call := by
  constructor
  · intro hafter issue id hsets
    have hissue : issue ∈ tables.issues := by
      obtain ⟨repository, userId, number, -, -, hload, -, -⟩ := hsets
      exact (loadIssue_eq_ok hload).1
    rw [step_setsMilestone hsets] at hafter
    have hmem : { issue with milestoneId := some id } ∈
        (tables.setMilestone issue.id (some id)).issues := by
      refine List.mem_map.2 ⟨issue, hissue, ?_⟩
      simp
    exact (hafter _ hmem).1 id rfl
  · intro hnames
    apply hsound.step.inside_iff.2
    exact milestonesInside_effect hsound (hsound.inside_iff.1 hinside) hnames
      (effect_step tables call)

end Sound

/-- The milestones and the labels stay inside the repositories of their issues along exactly those
runs in which every milestone that is set is one of the issue's repository. What is shown of an
issue is of its repository in every run. -/
theorem associations_stay_inside_iff {start : Tables} (hkeys : Keys start) (hinside : Inside start)
    (calls : List Call) :
    ((∀ earlier later, calls = earlier ++ later → Inside (Runs.run step start earlier)) ↔
        Runs.Throughout step NamesOwnMilestone start calls) ∧
      ShowsOwn (Runs.run step start calls) := by
  have hstart : Sound start := sound_of_inside hkeys hinside
  constructor
  · apply Runs.always_iff_throughout (I := Sound)
    · intro tables call hsound _ _
      exact hsound.step
    · intro tables call hsound hinside
      exact inside_step_iff hsound hinside
    · exact hstart
    · exact hinside
  · have hrun : Sound (Runs.run step start calls) := by
      apply Runs.invariant (P := fun _ _ => True)
      · intro tables call hsound _
        exact hsound.step
      · exact hstart
      · intro earlier call later heq
        trivial
    exact hrun.showsOwn

/-! ## A milestone of another repository -/

/-- Two users, each with a private repository that the other has no access to. -/
def twoOwners : Database :=
  { Database.empty with
    users := [⟨1, "alice", "alice@example.com"⟩, ⟨2, "bob", "bob@example.com"⟩]
    repositories := [⟨⟨10, "site", .private⟩, "alice"⟩, ⟨⟨20, "secret", .private⟩, "bob"⟩]
    repoAccess := [⟨10, .user 1, .owner⟩, ⟨20, .user 2, .owner⟩] }

def callOf (user : UserId) (owner name : String) (operation : Operation) : Call where
  actor := .user user
  owner := owner
  name := name
  operation := operation
  db := twoOwners
  failing := fun _ => none
  now := 1700000000

/-- A milestone is created in the one repository, an issue is opened in the other, and its milestone
set. -/
def settingCalls (milestoneId : MilestoneId) : List Call :=
  [callOf 2 "bob" "secret" (.createMilestone 7 "v2" none none),
    callOf 1 "alice" "site" (.createMilestone 6 "v1" none none),
    callOf 1 "alice" "site" (.open 5 (.ok 1) "Broken link" none),
    callOf 1 "alice" "site" (.setMilestone 1 (some milestoneId))]

theorem run_settingCalls :
    (Runs.run step .empty (settingCalls 7)).issues =
        [⟨5, 10, 1, "Broken link", none, 1, .open, some 7, 1700000000⟩] ∧
      (Runs.run step .empty (settingCalls 7)).milestones =
        [⟨7, 20, "v2", none, none, .open⟩, ⟨6, 10, "v1", none, none, .open⟩] := by
  decide +kernel

/-- The user of the one repository gives its issue the milestone of the other. -/
theorem issue_takes_foreign_milestone :
    ¬ Inside (Runs.run step .empty (settingCalls 7)) := by
  intro hinside
  obtain ⟨hissues, hmilestones⟩ := run_settingCalls
  have hmem : (⟨5, 10, 1, "Broken link", none, 1, .open, some 7, 1700000000⟩ : Issue) ∈
      (Runs.run step .empty (settingCalls 7)).issues := by
    rw [hissues]
    exact List.mem_singleton_self _
  obtain ⟨milestone, hmilestone, hid, hown⟩ := (hinside _ hmem).1 7 rfl
  rw [hmilestones] at hmilestone
  -- the only milestone of this id is of the other repository
  simp only [List.mem_cons, List.not_mem_nil, or_false] at hmilestone
  rcases hmilestone with rfl | rfl
  · exact absurd hown (by decide)
  · exact absurd hid (by decide)

theorem empty_inside : Keys .empty ∧ Inside .empty := by
  refine ⟨⟨?_, ?_, ?_⟩, ?_⟩
  · exact List.nodup_nil
  · exact List.nodup_nil
  · intro link hlink
    cases hlink
  · intro issue hissue
    cases hissue

/-- From no rows on. -/
theorem associations_of_own_milestone_stay_inside :
    Keys .empty ∧ Inside .empty ∧
      ((∀ earlier later, settingCalls 6 = earlier ++ later →
          Inside (Runs.run step .empty earlier)) ↔
        Runs.Throughout step NamesOwnMilestone .empty (settingCalls 6)) ∧
      ShowsOwn (Runs.run step .empty (settingCalls 6)) :=
  ⟨empty_inside.1, empty_inside.2,
    associations_stay_inside_iff empty_inside.1 empty_inside.2 (settingCalls 6)⟩

end Edda.App.IssueAssociations
