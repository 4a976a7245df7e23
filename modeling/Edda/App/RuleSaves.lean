import Edda.App.TeamAccess
import Edda.Domain.BranchProtection
import Edda.Support.RustText
import Edda.Support.Tasks

/-!
# Saves of branch-protection rules

A save looks for the rule of its pattern, updates or inserts it, clears its allowlist and inserts the
subjects one by one, each by a statement of its own outside a transaction. A save that fails between
two of them leaves a part of what it was to write, and saves of one rule can run between each
other's.

`whole_of_fits` says in which runs they do neither: a save overwrites the rule while no other one is
between its first and its last write, and none fails there.
-/

set_option autoImplicit false

namespace Edda.App.RuleSaves

open Edda.Domain Edda.Db Edda.Auth Edda.Support Edda.Support.RustText Edda.Support.Fallible
open Edda.App (ServiceError)
open Edda.App.TeamAccess (ofAuthz)
open Edda.Support.Table (lookup update Keyed)
open Edda.Support.Runs (run Throughout)

abbrev BranchProtectionRuleId := BitVec 128

/-! ## The tables -/

structure BranchProtectionSettings where
  requiredApprovals : Int
  requireLinearHistory : Bool
  requireSignedCommits : Bool
  dismissStaleReviews : Bool
  requireUpToDate : Bool
  requiredStatusChecks : List String
  deriving DecidableEq, Repr

/-- A row of `branch_protection_rules`. -/
structure RuleRow where
  id : BranchProtectionRuleId
  repositoryId : RepositoryId
  branch : String
  settings : BranchProtectionSettings
  deriving DecidableEq, Repr

/-- A row of `branch_protection_push_allowlist`. -/
structure AllowlistRow where
  ruleId : BranchProtectionRuleId
  subject : AccessSubject
  deriving DecidableEq, Repr

structure Tables where
  rules : List RuleRow
  allowlist : List AllowlistRow
  deriving DecidableEq, Repr

/-- What differs between the database servers. Texts of one collation key compare equal. -/
structure Server where
  sameName : String → String → Bool
  collationKey : String → String
  uniqueViolation : DbError

/-- A repository, and a pattern as the server compares it. -/
abbrev RuleKey := RepositoryId × String

def RuleRow.key (server : Server) (row : RuleRow) : RuleKey :=
  (row.repositoryId, server.collationKey row.branch)

/-- The unique indexes of the rules. -/
structure Tables.Indexed (server : Server) (tables : Tables) : Prop where
  ids : Keyed RuleRow.id tables.rules
  keys : Keyed (RuleRow.key server) tables.rules

/-! ## A save -/

structure SetBranchProtectionInput where
  pattern : String
  settings : BranchProtectionSettings
  pushAllowlistUsernames : List String
  deriving DecidableEq, Repr

/-- A call of `set`, with the id that it draws and the tables that its checks read. -/
structure Call where
  actor : ActorContext
  owner : String
  name : String
  input : SetBranchProtectionInput
  id : BranchProtectionRuleId
  db : Database

/-- What a call that passed its checks is to write, beside the settings. -/
structure Target where
  repositoryId : RepositoryId
  pattern : String
  subjects : List AccessSubject
  deriving DecidableEq, Repr

inductive Phase where
  | checking
  | finding (target : Target)
  | writing (target : Target) (existing : Option BranchProtectionRuleId)
  | clearing (target : Target) (ruleId : BranchProtectionRuleId)
  | allowing (target : Target) (ruleId : BranchProtectionRuleId) (next : AccessSubject)
      (left : List AccessSubject)
  | saved (target : Target)
  | failed (err : ServiceError)
  deriving DecidableEq

section Save

variable (server : Server)

def Target.key (target : Target) : RuleKey :=
  (target.repositoryId, server.collationKey target.pattern)

def Call.administerChecked (call : Call) : Except ServiceError Repository := do
  let repository ← ofAuthz (repositoryByName call.db call.owner call.name)
  let () ← ofAuthz (checkAdminister call.db call.actor repository)
  return repository

def Call.subject (call : Call) (username : String) : Except ServiceError AccessSubject :=
  match call.db.users.find? fun user => server.sameName user.username username with
  | none => .error (.validation ("no such user: " ++ username))
  | some user => .ok (.user user.id)

def Call.target (call : Call) : Except ServiceError Target := do
  let repository ← call.administerChecked
  let pattern := trim call.input.pattern.toList
  rejectIf (pattern = [] ∨ call.input.settings.requiredApprovals < 0) (.validation
    "a branch pattern and a non-negative required-approvals count are needed")
  let subjects ← call.input.pushAllowlistUsernames.mapM (call.subject server)
  return ⟨repository.id, String.ofList pattern, subjects⟩

variable (tables : Tables)

/-- `SELECT id … WHERE repository_id = … AND branch = …`. -/
def Tables.ruleId (key : RuleKey) : Option BranchProtectionRuleId :=
  (lookup (RuleRow.key server) tables.rules key).map RuleRow.id

def Tables.updateSettings (ruleId : BranchProtectionRuleId) (settings : BranchProtectionSettings) :
    Tables :=
  { tables with
    rules := update tables.rules (fun row => row.id = ruleId) fun row =>
      { row with settings := settings } }

/-- `INSERT INTO branch_protection_rules`, which the unique indexes can refuse. -/
def Tables.insertRule (row : RuleRow) : Option Tables :=
  if row.id ∈ tables.rules.map RuleRow.id ∨ row.key server ∈ tables.rules.map (RuleRow.key server)
  then none
  else some { tables with rules := tables.rules ++ [row] }

def Tables.clearAllowlist (ruleId : BranchProtectionRuleId) : Tables :=
  { tables with allowlist := tables.allowlist.filter fun row => row.ruleId ≠ ruleId }

/-- A subject that is on the list already is passed over. -/
def Tables.allow (ruleId : BranchProtectionRuleId) (subject : AccessSubject) : Tables :=
  if ⟨ruleId, subject⟩ ∈ tables.allowlist then tables
  else { tables with allowlist := tables.allowlist ++ [⟨ruleId, subject⟩] }

/-- A save whose next insert is of the first of some subjects. -/
def Phase.inserting (target : Target) (ruleId : BranchProtectionRuleId) :
    List AccessSubject → Phase
  | [] => .saved target
  | next :: left => .allowing target ruleId next left

/-- The next statement of a call, if it succeeds. -/
def Call.advance (call : Call) : Phase → Tables × Phase
  | .checking => match call.target server with
    | .error err => (tables, .failed err)
    | .ok target => (tables, .finding target)
  | .finding target => (tables, .writing target (tables.ruleId server (target.key server)))
  | .writing target (some existing) =>
    (tables.updateSettings existing call.input.settings, .clearing target existing)
  | .writing target none =>
    match tables.insertRule server
      ⟨call.id, target.repositoryId, target.pattern, call.input.settings⟩ with
    | none => (tables, .failed (.db server.uniqueViolation))
    | some inserted => (inserted, .clearing target call.id)
  | .clearing target ruleId =>
    (tables.clearAllowlist ruleId, .inserting target ruleId target.subjects)
  | .allowing target ruleId next left =>
    (tables.allow ruleId next, .inserting target ruleId left)
  | .saved target => (tables, .saved target)
  | .failed err => (tables, .failed err)

def Phase.isRunning : Phase → Bool
  | .saved _ | .failed _ => false
  | _ => true

end Save

/-! ## Saves that run at once -/

structure Task where
  call : Call
  phase : Phase

structure State where
  tables : Tables
  tasks : List Task

inductive Step where
  | arrive (call : Call)
  | advance (place : Nat)
  | fail (place : Nat) (err : DbError)

/-- The call that a step is of. -/
def Step.place : Step → Option Nat
  | .arrive _ => none
  | .advance place | .fail place _ => some place

def step (server : Server) (s : State) : Step → State
  | .arrive call => { s with tasks := s.tasks ++ [⟨call, .checking⟩] }
  | .advance place => match s.tasks[place]? with
    | none => s
    | some task =>
      let next := task.call.advance server s.tables task.phase
      ⟨next.1, s.tasks.set place { task with phase := next.2 }⟩
  | .fail place err => match s.tasks[place]? with
    | none => s
    | some task =>
      if task.phase.isRunning then
        { s with tasks := s.tasks.set place { task with phase := .failed (.db err) } }
      else s

/-! ## What a save is to be -/

section Intended

variable (server : Server) (key : RuleKey)

def Tables.allowed (tables : Tables) (ruleId : BranchProtectionRuleId) : Finset AccessSubject :=
  ((tables.allowlist.filter fun row => row.ruleId = ruleId).map AllowlistRow.subject).toFinset

/-- The settings and the allowlist of a rule, if there is one. -/
def Tables.found (tables : Tables) : Option (BranchProtectionSettings × Finset AccessSubject) :=
  (lookup (RuleRow.key server) tables.rules key).map fun row =>
    (row.settings, tables.allowed row.id)

/-- The call has saved the rule. -/
def Task.HasSaved (task : Task) : Prop :=
  ∃ target, task.phase = .saved target ∧ target.key server = key

/-- The call has saved the rule, and this is what it was to save. -/
def Task.HasSavedAs (found : Option (BranchProtectionSettings × Finset AccessSubject))
    (task : Task) : Prop :=
  ∃ target, task.phase = .saved target ∧ target.key server = key ∧
    found = some (task.call.input.settings, target.subjects.toFinset)

/-- The target of a call that has written the settings and has statements to go. -/
def Phase.midwayTarget : Phase → Option Target
  | .clearing target _ => some target
  | .allowing target _ _ _ => some target
  | _ => none

/-- The call is between its first and its last write of the rule. -/
def Task.IsMidway (task : Task) : Prop :=
  ∃ target, task.phase.midwayTarget = some target ∧ target.key server = key

/-- The next statement of the call overwrites the settings of the rule. -/
def Task.IsOverwriting (task : Task) : Prop :=
  ∃ target existing, task.phase = .writing target (some existing) ∧ target.key server = key

instance (task : Task) : Decidable (task.IsMidway server key) :=
  decidable_of_iff (∃ target ∈ task.phase.midwayTarget, target.key server = key) Iff.rfl

instance (task : Task) : Decidable (task.IsOverwriting server key) :=
  match hphase : task.phase with
  | .writing target (some existing) => decidable_of_iff (target.key server = key) (by
      simp [Task.IsOverwriting, hphase])
  | .writing _ none | .checking | .finding _ | .clearing _ _ | .allowing _ _ _ _ | .saved _
  | .failed _ => isFalse (by simp [Task.IsOverwriting, hphase])

/-- The settings are overwritten while no call is midway, and no call fails midway. -/
def Fits (s : State) : Step → Prop
  | .arrive _ => True
  | .advance place => ∀ task, s.tasks[place]? = some task → task.IsOverwriting server key →
      ∀ other ∈ s.tasks, ¬ other.IsMidway server key
  | .fail place _ => ∀ task, s.tasks[place]? = some task → ¬ task.IsMidway server key

instance (s : State) (a : Step) : Decidable (Fits server key s a) :=
  match a with
  | .arrive _ => isTrue trivial
  | .advance place => decidable_of_iff (∀ task ∈ s.tasks[place]?, task.IsOverwriting server key →
      ∀ other ∈ s.tasks, ¬ other.IsMidway server key) Iff.rfl
  | .fail place _ =>
    decidable_of_iff (∀ task ∈ s.tasks[place]?, ¬ task.IsMidway server key) Iff.rfl

/-- The calls of a run are all or nothing, and one at a time. -/
structure Whole (start : Tables) (steps : List Step) : Prop where
  /-- There is at most one rule. -/
  atMostOne : ((run (step server) ⟨start, []⟩ steps).tables.rules.filter
    fun row => row.key server = key).length ≤ 1
  /-- No step of a call that reports an error changes what is found. -/
  unchanged : ∀ earlier a later place task err, steps = earlier ++ a :: later →
    a.place = some place →
    (run (step server) ⟨start, []⟩ steps).tasks[place]? = some task → task.phase = .failed err →
    (run (step server) ⟨start, []⟩ (earlier ++ [a])).tables.found server key =
      (run (step server) ⟨start, []⟩ earlier).tables.found server key
  /-- What is found between the calls is what one of them saved, or was there from the start. -/
  ofOne : (∀ task ∈ (run (step server) ⟨start, []⟩ steps).tasks, ¬ task.IsMidway server key) →
    (∃ task ∈ (run (step server) ⟨start, []⟩ steps).tasks, task.HasSavedAs server key
      ((run (step server) ⟨start, []⟩ steps).tables.found server key)) ∨
    (∀ task ∈ (run (step server) ⟨start, []⟩ steps).tasks, ¬ task.HasSaved server key) ∧
      (run (step server) ⟨start, []⟩ steps).tables.found server key = start.found server key

end Intended

/-! ## The statements -/

section Statements

variable {server : Server} {key other : RuleKey} {tables inserted : Tables} {row : RuleRow}
  {ruleId otherId : BranchProtectionRuleId} {settings : BranchProtectionSettings}
  {subject : AccessSubject}

theorem ruleId_eq_some : tables.ruleId server key = some ruleId ↔
    ∃ row, lookup (RuleRow.key server) tables.rules key = some row ∧ row.id = ruleId :=
  Option.map_eq_some_iff

/-- An id is of one rule. -/
theorem key_of_ruleId (hids : Keyed RuleRow.id tables.rules)
    (hkey : tables.ruleId server key = some ruleId)
    (hother : tables.ruleId server other = some ruleId) : key = other := by
  obtain ⟨row, hrow, hid⟩ := ruleId_eq_some.1 hkey
  obtain ⟨otherRow, hotherRow, hotherId⟩ := ruleId_eq_some.1 hother
  obtain ⟨hmem, hrowKey⟩ := Table.mem_of_lookup hrow
  obtain ⟨hotherMem, hotherKey⟩ := Table.mem_of_lookup hotherRow
  have hsame : row = otherRow :=
    List.inj_on_of_nodup_map hids hmem hotherMem (hid.trans hotherId.symm)
  rw [← hrowKey, ← hotherKey, hsame]

/-! ### Settings -/

theorem lookup_updateSettings :
    lookup (RuleRow.key server) (tables.updateSettings ruleId settings).rules key =
      (lookup (RuleRow.key server) tables.rules key).map fun row =>
        if row.id = ruleId then { row with settings := settings } else row := by
  have h := @Table.lookup_update _ _ _ (RuleRow.key server) tables.rules key
    (fun row => row.id = ruleId) (fun row => { row with settings := settings }) fun _ => rfl
  simp only [decide_eq_true_eq] at h
  exact h

@[simp]
theorem ruleId_updateSettings :
    (tables.updateSettings ruleId settings).ruleId server key = tables.ruleId server key := by
  rw [Tables.ruleId, lookup_updateSettings, Option.map_map, Tables.ruleId]
  congr 1
  funext row
  simp only [Function.comp]
  split
  · rfl
  · rfl

theorem found_updateSettings (h : tables.ruleId server key = some ruleId) :
    (tables.updateSettings ruleId settings).found server key =
      some (settings, tables.allowed ruleId) := by
  obtain ⟨row, hrow, hid⟩ := ruleId_eq_some.1 h
  rw [Tables.found, lookup_updateSettings, hrow, Option.map_some, Option.map_some, if_pos hid, ← hid]
  rfl

theorem found_updateSettings_of_ne (h : tables.ruleId server key ≠ some ruleId) :
    (tables.updateSettings ruleId settings).found server key = tables.found server key := by
  rw [Tables.found, lookup_updateSettings, Option.map_map, Tables.found]
  refine Option.map_congr fun row hrow => ?_
  have hid : row.id ≠ ruleId := fun hid => h (ruleId_eq_some.2 ⟨row, hrow, hid⟩)
  rw [Function.comp, if_neg hid]
  rfl

theorem Tables.Indexed.updateSettings (h : tables.Indexed server) :
    (tables.updateSettings ruleId settings).Indexed server where
  ids := h.ids.update fun _ => rfl
  keys := h.keys.update fun _ => rfl

/-! ### New rules -/

theorem insertRule_eq_some : tables.insertRule server row = some inserted ↔
    row.id ∉ tables.rules.map RuleRow.id ∧
      row.key server ∉ tables.rules.map (RuleRow.key server) ∧
      inserted = { tables with rules := tables.rules ++ [row] } := by
  unfold Tables.insertRule
  split
  · rename_i h
    simp only [reduceCtorEq, false_iff]
    rintro ⟨hid, hkey, -⟩
    exact h.elim hid hkey
  · rename_i h
    rw [not_or] at h
    simp only [Option.some.injEq, h.1, h.2, not_false_eq_true, true_and, eq_comm]

theorem Tables.Indexed.insertRule (h : tables.Indexed server)
    (hinsert : tables.insertRule server row = some inserted) : inserted.Indexed server := by
  obtain ⟨hid, hkey, rfl⟩ := insertRule_eq_some.1 hinsert
  exact ⟨h.ids.append hid, h.keys.append hkey⟩

theorem lookup_insertRule (hinsert : tables.insertRule server row = some inserted) :
    lookup (RuleRow.key server) inserted.rules key =
      if row.key server = key then some row
      else lookup (RuleRow.key server) tables.rules key := by
  obtain ⟨-, hkey, rfl⟩ := insertRule_eq_some.1 hinsert
  rw [Table.lookup_append]
  split
  · rename_i hrow
    rw [← hrow, Table.lookup_eq_none.2 hkey]
    rfl
  · rw [Option.or_none]

theorem ruleId_insertRule (hinsert : tables.insertRule server row = some inserted) :
    inserted.ruleId server key =
      if row.key server = key then some row.id else tables.ruleId server key := by
  rw [Tables.ruleId, lookup_insertRule hinsert, apply_ite (Option.map RuleRow.id)]
  rfl

theorem found_insertRule (hinsert : tables.insertRule server row = some inserted) :
    inserted.found server key =
      if row.key server = key then some (row.settings, tables.allowed row.id)
      else tables.found server key := by
  have hallowlist : inserted.allowlist = tables.allowlist := by
    rw [(insertRule_eq_some.1 hinsert).2.2]
  rw [Tables.found, lookup_insertRule hinsert]
  simp only [Tables.allowed, hallowlist]
  split
  · rfl
  · rfl

/-- The rule that is inserted was not there. -/
theorem ruleId_of_insertRule (hinsert : tables.insertRule server row = some inserted) :
    tables.ruleId server (row.key server) = none := by
  rw [Tables.ruleId, Table.lookup_eq_none.2 (insertRule_eq_some.1 hinsert).2.1]
  rfl

/-! ### Allowlists -/

theorem allowed_clearAllowlist :
    (tables.clearAllowlist ruleId).allowed otherId =
      if otherId = ruleId then ∅ else tables.allowed otherId := by
  simp only [Tables.allowed, Tables.clearAllowlist, List.filter_filter]
  split
  · rename_i h
    simp [h]
  · rename_i h
    congr 3
    funext row
    by_cases hrow : row.ruleId = otherId
    · simp [hrow, h]
    · simp [hrow]

theorem allowed_allow : (tables.allow ruleId subject).allowed otherId =
    if otherId = ruleId then insert subject (tables.allowed otherId)
    else tables.allowed otherId := by
  unfold Tables.allow
  split
  · rename_i hmem
    split
    · rename_i h
      subst h
      -- the subject is on the list already
      refine (Finset.insert_eq_self.2 ?_).symm
      simp only [Tables.allowed, List.mem_toFinset, List.mem_map, List.mem_filter]
      exact ⟨_, ⟨hmem, by simp⟩, rfl⟩
    · rfl
  · simp only [Tables.allowed, List.filter_append, List.map_append]
    split
    · rename_i h
      ext other
      simp [h]
    · rename_i h
      simp [Ne.symm h]

/-- A statement on the allowlist of a rule changes what is found of it, and of no other rule. -/
theorem found_of_allowed {changed : Tables} (hrules : changed.rules = tables.rules)
    (change : Finset AccessSubject → Finset AccessSubject)
    (hallowed : ∀ otherId, changed.allowed otherId =
      if otherId = ruleId then change (tables.allowed otherId) else tables.allowed otherId) :
    (tables.ruleId server key = some ruleId → changed.found server key =
      (tables.found server key).map fun found => (found.1, change found.2)) ∧
    (tables.ruleId server key ≠ some ruleId →
      changed.found server key = tables.found server key) := by
  simp only [Tables.found, hrules]
  constructor
  · intro h
    obtain ⟨row, hrow, hid⟩ := ruleId_eq_some.1 h
    rw [hrow, Option.map_some, Option.map_some, Option.map_some, hallowed, if_pos hid]
  · intro h
    refine Option.map_congr fun row hrow => ?_
    rw [hallowed, if_neg fun hid => h (ruleId_eq_some.2 ⟨row, hrow, hid⟩)]

theorem rules_clearAllowlist : (tables.clearAllowlist ruleId).rules = tables.rules := rfl

theorem rules_allow : (tables.allow ruleId subject).rules = tables.rules := by
  unfold Tables.allow
  split
  · rfl
  · rfl

@[simp]
theorem ruleId_allow :
    (tables.allow ruleId subject).ruleId server key = tables.ruleId server key := by
  rw [Tables.ruleId, rules_allow, Tables.ruleId]

@[simp]
theorem ruleId_clearAllowlist :
    (tables.clearAllowlist ruleId).ruleId server key = tables.ruleId server key := rfl

theorem found_clearAllowlist (h : tables.ruleId server key = some ruleId) :
    (tables.clearAllowlist ruleId).found server key =
      (tables.found server key).map fun found => (found.1, ∅) :=
  (found_of_allowed rules_clearAllowlist (fun _ => ∅) fun _ => allowed_clearAllowlist).1 h

theorem found_clearAllowlist_of_ne (h : tables.ruleId server key ≠ some ruleId) :
    (tables.clearAllowlist ruleId).found server key = tables.found server key :=
  (found_of_allowed rules_clearAllowlist (fun _ => ∅) fun _ => allowed_clearAllowlist).2 h

theorem found_allow (h : tables.ruleId server key = some ruleId) :
    (tables.allow ruleId subject).found server key =
      (tables.found server key).map fun found => (found.1, insert subject found.2) :=
  (found_of_allowed rules_allow (insert subject) fun _ => allowed_allow).1 h

theorem found_allow_of_ne (h : tables.ruleId server key ≠ some ruleId) :
    (tables.allow ruleId subject).found server key = tables.found server key :=
  (found_of_allowed rules_allow (insert subject) fun _ => allowed_allow).2 h

end Statements

/-! ## What a run keeps -/

section Invariant

/-- The rule that the next statement of a call names by its id. -/
def Phase.rule : Phase → Option (Target × BranchProtectionRuleId)
  | .writing target (some ruleId) => some (target, ruleId)
  | .clearing target ruleId => some (target, ruleId)
  | .allowing target ruleId _ _ => some (target, ruleId)
  | _ => none

/-- What is found is what a call that is midway has written so far. -/
def Task.HasWritten (found : Option (BranchProtectionSettings × Finset AccessSubject))
    (task : Task) : Prop :=
  (∀ target ruleId, task.phase = .clearing target ruleId →
    ∃ allowed, found = some (task.call.input.settings, allowed)) ∧
  ∀ target ruleId next left, task.phase = .allowing target ruleId next left →
    ∃ allowed, target.subjects = allowed ++ next :: left ∧
      found = some (task.call.input.settings, allowed.toFinset)

structure Invariant (server : Server) (key : RuleKey) (start : Tables) (s : State) : Prop where
  indexed : s.tables.Indexed server
  refers : ∀ (i : Nat) (task : Task), s.tasks[i]? = some task → ∀ target ruleId,
    task.phase.rule = some (target, ruleId) →
      s.tables.ruleId server (target.key server) = some ruleId
  alone : ∀ (i j : Nat) (task other : Task), s.tasks[i]? = some task → s.tasks[j]? = some other →
    task.IsMidway server key → other.IsMidway server key → i = j
  written : ∀ (i : Nat) (task : Task), s.tasks[i]? = some task → task.IsMidway server key →
    task.HasWritten (s.tables.found server key)
  ofOne : (∀ task ∈ s.tasks, ¬ task.IsMidway server key) →
    (∃ task ∈ s.tasks, task.HasSavedAs server key (s.tables.found server key)) ∨
    (∀ task ∈ s.tasks, ¬ task.HasSaved server key) ∧
      s.tables.found server key = start.found server key

/-- The tables after a statement have the rules that the calls name by their ids. -/
structure Keeps (server : Server) (s : State) (tables : Tables) (next : Task) : Prop where
  indexed : tables.Indexed server
  ids : ∀ other ruleId, s.tables.ruleId server other = some ruleId →
    tables.ruleId server other = some ruleId
  refers : ∀ target ruleId, next.phase.rule = some (target, ruleId) →
    tables.ruleId server (target.key server) = some ruleId

variable {server : Server} {key : RuleKey} {start tables : Tables} {s : State} {place : Nat}
  {task next : Task}

theorem Task.HasSavedAs.hasSaved
    {found : Option (BranchProtectionSettings × Finset AccessSubject)}
    (h : task.HasSavedAs server key found) : task.HasSaved server key := by
  obtain ⟨target, hphase, hkey, -⟩ := h
  exact ⟨target, hphase, hkey⟩

/-- A call that is midway has written the rule that its next statement names. -/
theorem Task.IsMidway.rule (h : task.IsMidway server key) :
    ∃ target ruleId, task.phase.rule = some (target, ruleId) ∧ target.key server = key := by
  obtain ⟨target, hphase, hkey⟩ := h
  cases hcase : task.phase with
  | clearing other ruleId =>
    rw [hcase] at hphase
    exact ⟨target, ruleId, by rw [← Option.some.inj hphase]; rfl, hkey⟩
  | allowing other ruleId next left =>
    rw [hcase] at hphase
    exact ⟨target, ruleId, by rw [← Option.some.inj hphase]; rfl, hkey⟩
  | checking => simp [hcase, Phase.midwayTarget] at hphase
  | finding other => simp [hcase, Phase.midwayTarget] at hphase
  | writing other existing => simp [hcase, Phase.midwayTarget] at hphase
  | saved other => simp [hcase, Phase.midwayTarget] at hphase
  | failed err => simp [hcase, Phase.midwayTarget] at hphase

theorem Invariant.refers_set (h : Invariant server key start s) (hkeeps : Keeps server s tables next)
    (i : Nat) (other : Task) (hother : (s.tasks.set place next)[i]? = some other) (target : Target)
    (ruleId : BranchProtectionRuleId) (hrule : other.phase.rule = some (target, ruleId)) :
    tables.ruleId server (target.key server) = some ruleId := by
  rcases Tasks.getElem?_set_cases hother with ⟨-, rfl⟩ | ⟨-, hold⟩
  · exact hkeeps.refers target ruleId hrule
  · exact hkeeps.ids _ _ (h.refers i other hold target ruleId hrule)

/-- A step that neither begins nor ends a save of the rule, and leaves it as it is. -/
theorem Invariant.of_elsewhere (h : Invariant server key start s)
    (htask : s.tasks[place]? = some task) (hkeeps : Keeps server s tables next)
    (hfound : tables.found server key = s.tables.found server key)
    (hmidway : ¬ task.IsMidway server key) (hsaved : ¬ task.HasSaved server key)
    (hnextMidway : ¬ next.IsMidway server key) (hnextSaved : ¬ next.HasSaved server key) :
    Invariant server key start ⟨tables, s.tasks.set place next⟩ where
  indexed := hkeeps.indexed
  refers := h.refers_set hkeeps
  alone := by
    intro i j one other hone hother honeMidway hotherMidway
    rcases Tasks.getElem?_set_cases hone with ⟨-, rfl⟩ | ⟨-, hone⟩
    · exact absurd honeMidway hnextMidway
    · rcases Tasks.getElem?_set_cases hother with ⟨-, rfl⟩ | ⟨-, hother⟩
      · exact absurd hotherMidway hnextMidway
      · exact h.alone i j one other hone hother honeMidway hotherMidway
  written := by
    intro i other hother hotherMidway
    rw [hfound]
    rcases Tasks.getElem?_set_cases hother with ⟨-, rfl⟩ | ⟨-, hother⟩
    · exact absurd hotherMidway hnextMidway
    · exact h.written i other hother hotherMidway
  ofOne := by
    intro hquiet
    have hbefore : ∀ other ∈ s.tasks, ¬ other.IsMidway server key := by
      intro other hother hotherMidway
      have helsewhere := ((Tasks.exists_mem_iff (fun other => other.IsMidway server key) htask).1
        ⟨other, hother, hotherMidway⟩).resolve_left hmidway
      obtain ⟨found, hmem, hfoundMidway⟩ :
          ∃ found ∈ s.tasks.set place next, found.IsMidway server key :=
        (Tasks.exists_set _ htask).2 (Or.inr helsewhere)
      exact hquiet found hmem hfoundMidway
    rcases h.ofOne hbefore with hone | ⟨hnone, hsame⟩
    · refine Or.inl ?_
      rw [hfound, Tasks.exists_set_congr next _ htask]
      · exact hone
      · exact iff_of_false (fun has => hnextSaved has.hasSaved) fun has => hsaved has.hasSaved
    · exact Or.inr ⟨Tasks.forall_set _ hnone hnextSaved, hfound.trans hsame⟩

/-- A step after which the call in its place is the only one that is midway. -/
theorem Invariant.of_midway (h : Invariant server key start s)
    (hkeeps : Keeps server s tables next)
    (hothers : ∀ (i : Nat) (other : Task), i ≠ place → s.tasks[i]? = some other →
      ¬ other.IsMidway server key)
    (htask : s.tasks[place]? = some task) (hmidway : next.IsMidway server key)
    (hwritten : next.HasWritten (tables.found server key)) :
    Invariant server key start ⟨tables, s.tasks.set place next⟩ where
  indexed := hkeeps.indexed
  refers := h.refers_set hkeeps
  alone := by
    intro i j one other hone hother honeMidway hotherMidway
    rcases Tasks.getElem?_set_cases hone with ⟨hi, -⟩ | ⟨hi, hone⟩
    · rcases Tasks.getElem?_set_cases hother with ⟨hj, -⟩ | ⟨hj, hother⟩
      · exact hi.trans hj.symm
      · exact absurd hotherMidway (hothers j other hj hother)
    · exact absurd honeMidway (hothers i one hi hone)
  written := by
    intro i other hother hotherMidway
    rcases Tasks.getElem?_set_cases hother with ⟨-, rfl⟩ | ⟨hi, hother⟩
    · exact hwritten
    · exact absurd hotherMidway (hothers i other hi hother)
  ofOne := by
    intro hquiet
    obtain ⟨hplace, -⟩ := List.getElem?_eq_some_iff.1 htask
    exact absurd hmidway (hquiet next (List.mem_set hplace next))

/-- A step by which the only call that is midway saves the rule. -/
theorem Invariant.of_saved (h : Invariant server key start s)
    (hkeeps : Keeps server s tables next)
    (hothers : ∀ (i : Nat) (other : Task), i ≠ place → s.tasks[i]? = some other →
      ¬ other.IsMidway server key)
    (htask : s.tasks[place]? = some task)
    (hsaved : next.HasSavedAs server key (tables.found server key)) :
    Invariant server key start ⟨tables, s.tasks.set place next⟩ := by
  have hnext : ¬ next.IsMidway server key := by
    obtain ⟨target, hphase, -⟩ := hsaved
    rintro ⟨other, hother, -⟩
    simp [hphase, Phase.midwayTarget] at hother
  have hnone : ∀ (i : Nat) (other : Task), (s.tasks.set place next)[i]? = some other →
      ¬ other.IsMidway server key := by
    intro i other hother
    rcases Tasks.getElem?_set_cases hother with ⟨-, rfl⟩ | ⟨hi, hother⟩
    · exact hnext
    · exact hothers i other hi hother
  exact {
    indexed := hkeeps.indexed
    refers := h.refers_set hkeeps
    alone := fun i _ one _ hone _ honeMidway => absurd honeMidway (hnone i one hone)
    written := fun i other hother hmidway => absurd hmidway (hnone i other hother)
    ofOne := by
      intro _
      obtain ⟨hplace, -⟩ := List.getElem?_eq_some_iff.1 htask
      exact Or.inl ⟨next, List.mem_set hplace next, hsaved⟩ }

/-! ### One step -/

theorem Invariant.ids (h : Invariant server key start s) {target : Target}
    {ruleId : BranchProtectionRuleId} (htask : s.tasks[place]? = some task)
    (hrule : task.phase.rule = some (target, ruleId)) (hkey : target.key server ≠ key) :
    s.tables.ruleId server key ≠ some ruleId := by
  intro hsame
  exact hkey (key_of_ruleId h.indexed.ids (h.refers place task htask target ruleId hrule) hsame)

/-- What a call inserts next is none of the rule, if the call is of another one. -/
theorem elsewhere_inserting {target : Target} {ruleId : BranchProtectionRuleId}
    {left : List AccessSubject} (hphase : next.phase = .inserting target ruleId left)
    (hkey : target.key server ≠ key) :
    ¬ next.IsMidway server key ∧ ¬ next.HasSaved server key := by
  constructor
  · rintro ⟨other, hother, hsame⟩
    cases left with
    | nil => simp [hphase, Phase.inserting, Phase.midwayTarget] at hother
    | cons subject left =>
      simp only [hphase, Phase.inserting, Phase.midwayTarget, Option.some.injEq] at hother
      exact hkey (hother ▸ hsame)
  · rintro ⟨other, hother, hsame⟩
    cases left with
    | nil =>
      simp only [hphase, Phase.inserting, Phase.saved.injEq] at hother
      exact hkey (hother ▸ hsame)
    | cons subject left => simp [hphase, Phase.inserting] at hother

/-- The call that is midway clears the allowlist or inserts a subject. -/
theorem Invariant.of_inserting (h : Invariant server key start s)
    (htask : s.tasks[place]? = some task) (hmidway : task.IsMidway server key)
    (hkeeps : Keeps server s tables next) {target : Target} {ruleId : BranchProtectionRuleId}
    {allowed left : List AccessSubject} (hphase : next.phase = .inserting target ruleId left)
    (hkey : target.key server = key) (hsubjects : target.subjects = allowed ++ left)
    (hfound : tables.found server key = some (next.call.input.settings, allowed.toFinset)) :
    Invariant server key start ⟨tables, s.tasks.set place next⟩ := by
  have hothers : ∀ (i : Nat) (other : Task), i ≠ place → s.tasks[i]? = some other →
      ¬ other.IsMidway server key := by
    intro i other hi hother hotherMidway
    exact hi (h.alone i place other task hother htask hotherMidway hmidway)
  cases left with
  | nil =>
    rw [List.append_nil] at hsubjects
    exact h.of_saved hkeeps hothers htask ⟨target, hphase, hkey, by rw [hfound, hsubjects]⟩
  | cons subject left =>
    refine h.of_midway hkeeps hothers htask ⟨target, by rw [hphase]; rfl, hkey⟩ ⟨?_, ?_⟩
    · intro other otherId hother
      simp [hphase, Phase.inserting] at hother
    · intro other otherId otherNext otherLeft hother
      simp only [hphase, Phase.inserting, Phase.allowing.injEq] at hother
      obtain ⟨rfl, -, rfl, rfl⟩ := hother
      exact ⟨allowed, hsubjects, hfound⟩

/-- A step that changes no table, of a call that is not midway, and after which it is not either. -/
theorem Invariant.of_reading (h : Invariant server key start s)
    (htask : s.tasks[place]? = some task) (hmidway : ¬ task.IsMidway server key)
    (hsaved : ¬ task.HasSaved server key) (hnextMidway : ¬ next.IsMidway server key)
    (hnextSaved : ¬ next.HasSaved server key)
    (hrefers : ∀ target ruleId, next.phase.rule = some (target, ruleId) →
      s.tables.ruleId server (target.key server) = some ruleId) :
    Invariant server key start ⟨s.tables, s.tasks.set place next⟩ :=
  h.of_elsewhere htask ⟨h.indexed, fun _ _ hid => hid, hrefers⟩ rfl hmidway hsaved hnextMidway
    hnextSaved

/-- The settings of a rule are overwritten. -/
theorem Invariant.overwrite {call : Call} {target : Target} {existing : BranchProtectionRuleId}
    (h : Invariant server key start s)
    (htask : s.tasks[place]? = some ⟨call, .writing target (some existing)⟩)
    (hquiet : target.key server = key → ∀ other ∈ s.tasks, ¬ other.IsMidway server key) :
    Invariant server key start ⟨s.tables.updateSettings existing call.input.settings,
      s.tasks.set place ⟨call, .clearing target existing⟩⟩ := by
  have hrefers := h.refers place _ htask target existing rfl
  have hkeeps : Keeps server s (s.tables.updateSettings existing call.input.settings)
      ⟨call, .clearing target existing⟩ := by
    refine ⟨h.indexed.updateSettings, fun _ _ hid => by rwa [ruleId_updateSettings], ?_⟩
    intro other ruleId hrule
    obtain ⟨rfl, rfl⟩ := Prod.mk.inj (Option.some.inj hrule)
    rwa [ruleId_updateSettings]
  by_cases hkey : target.key server = key
  · apply h.of_midway hkeeps _ htask ⟨target, rfl, hkey⟩
    · refine ⟨?_, by simp⟩
      intro other ruleId _
      exact ⟨_, found_updateSettings (hkey ▸ hrefers)⟩
    · intro i other _ hother
      exact hquiet hkey other (List.mem_of_getElem? hother)
  · apply h.of_elsewhere htask hkeeps
    case hfound => exact found_updateSettings_of_ne (h.ids htask rfl hkey)
    all_goals simp [Task.IsMidway, Task.HasSaved, Phase.midwayTarget, hkey]

/-- A rule is inserted. No call of it is midway, since such a call has its rule in the table. -/
theorem Invariant.insert {call : Call} {target : Target} {inserted : Tables}
    (h : Invariant server key start s)
    (htask : s.tasks[place]? = some ⟨call, .writing target none⟩)
    (hinsert : s.tables.insertRule server
      ⟨call.id, target.repositoryId, target.pattern, call.input.settings⟩ = some inserted) :
    Invariant server key start ⟨inserted, s.tasks.set place ⟨call, .clearing target call.id⟩⟩ := by
  have hfresh := ruleId_of_insertRule hinsert
  have hkeeps : Keeps server s inserted ⟨call, .clearing target call.id⟩ := by
    refine ⟨h.indexed.insertRule hinsert, ?_, ?_⟩
    · intro other ruleId hid
      rw [ruleId_insertRule hinsert, if_neg]
      · exact hid
      · rintro rfl
        rw [hfresh] at hid
        cases hid
    · intro other ruleId hrule
      obtain ⟨rfl, rfl⟩ := Prod.mk.inj (Option.some.inj hrule)
      rw [ruleId_insertRule hinsert]
      exact if_pos rfl
  by_cases hkey : target.key server = key
  · apply h.of_midway hkeeps _ htask ⟨target, rfl, hkey⟩
    · refine ⟨?_, by simp⟩
      intro other ruleId _
      exact ⟨_, (found_insertRule hinsert).trans (if_pos hkey)⟩
    · intro i other _ hother hmidway
      obtain ⟨otherTarget, ruleId, hrule, hotherKey⟩ := hmidway.rule
      have hthere := h.refers i other hother otherTarget ruleId hrule
      rw [hotherKey, ← hkey] at hthere
      exact absurd (hfresh.symm.trans hthere) (by simp)
  · apply h.of_elsewhere htask hkeeps
    case hfound => exact (found_insertRule hinsert).trans (if_neg hkey)
    all_goals simp [Task.IsMidway, Task.HasSaved, Phase.midwayTarget, hkey]

theorem refers_inserting {target other : Target} {ruleId otherId : BranchProtectionRuleId}
    {left : List AccessSubject} (hrefers : tables.ruleId server (target.key server) = some ruleId)
    (hrule : (Phase.inserting target ruleId left).rule = some (other, otherId)) :
    tables.ruleId server (other.key server) = some otherId := by
  cases left with
  | nil => simp [Phase.inserting, Phase.rule] at hrule
  | cons subject left =>
    simp only [Phase.inserting, Phase.rule, Option.some.injEq, Prod.mk.injEq] at hrule
    obtain ⟨rfl, rfl⟩ := hrule
    exact hrefers

/-- An allowlist is cleared. -/
theorem Invariant.clear {call : Call} {target : Target} {ruleId : BranchProtectionRuleId}
    (h : Invariant server key start s)
    (htask : s.tasks[place]? = some ⟨call, .clearing target ruleId⟩) :
    Invariant server key start ⟨s.tables.clearAllowlist ruleId,
      s.tasks.set place ⟨call, .inserting target ruleId target.subjects⟩⟩ := by
  have hrefers := h.refers place _ htask target ruleId rfl
  have hkeeps : Keeps server s (s.tables.clearAllowlist ruleId)
      ⟨call, .inserting target ruleId target.subjects⟩ :=
    ⟨⟨h.indexed.ids, h.indexed.keys⟩, fun _ _ hid => hid, fun _ _ => refers_inserting hrefers⟩
  by_cases hkey : target.key server = key
  · have hmidway : Task.IsMidway server key ⟨call, .clearing target ruleId⟩ :=
      ⟨target, rfl, hkey⟩
    obtain ⟨allowed, hfound⟩ := (h.written place _ htask hmidway).1 target ruleId rfl
    refine h.of_inserting htask hmidway hkeeps rfl hkey (List.nil_append _).symm ?_
    exact (found_clearAllowlist (hkey ▸ hrefers)).trans (by rw [hfound]; rfl)
  · obtain ⟨hnextMidway, hnextSaved⟩ := @elsewhere_inserting server key
      ⟨call, .inserting target ruleId target.subjects⟩ target ruleId _ rfl hkey
    refine h.of_elsewhere htask hkeeps (found_clearAllowlist_of_ne (h.ids htask rfl hkey)) ?_ ?_
      hnextMidway hnextSaved
    · simp [Task.IsMidway, Phase.midwayTarget, hkey]
    · simp [Task.HasSaved]

/-- A subject is inserted. -/
theorem Invariant.allow {call : Call} {target : Target} {ruleId : BranchProtectionRuleId}
    {subject : AccessSubject} {left : List AccessSubject} (h : Invariant server key start s)
    (htask : s.tasks[place]? = some ⟨call, .allowing target ruleId subject left⟩) :
    Invariant server key start ⟨s.tables.allow ruleId subject,
      s.tasks.set place ⟨call, .inserting target ruleId left⟩⟩ := by
  have hrefers := h.refers place _ htask target ruleId rfl
  have hindexed : (s.tables.allow ruleId subject).Indexed server := by
    constructor
    · rw [rules_allow]
      exact h.indexed.ids
    · rw [rules_allow]
      exact h.indexed.keys
  have hkeeps : Keeps server s (s.tables.allow ruleId subject)
      ⟨call, .inserting target ruleId left⟩ := by
    refine ⟨hindexed, fun _ _ hid => by rwa [ruleId_allow], fun _ _ => refers_inserting ?_⟩
    rwa [ruleId_allow]
  by_cases hkey : target.key server = key
  · have hmidway : Task.IsMidway server key ⟨call, .allowing target ruleId subject left⟩ :=
      ⟨target, rfl, hkey⟩
    obtain ⟨allowed, hsubjects, hfound⟩ :=
      (h.written place _ htask hmidway).2 target ruleId subject left rfl
    have hsplit : target.subjects = (allowed ++ [subject]) ++ left := by
      rw [hsubjects, List.append_assoc]
      rfl
    refine h.of_inserting htask hmidway hkeeps rfl hkey hsplit ?_
    refine (found_allow (hkey ▸ hrefers)).trans ?_
    rw [hfound, List.toFinset_append, Finset.union_comm]
    rfl
  · obtain ⟨hnextMidway, hnextSaved⟩ := @elsewhere_inserting server key
      ⟨call, .inserting target ruleId left⟩ target ruleId _ rfl hkey
    refine h.of_elsewhere htask hkeeps (found_allow_of_ne (h.ids htask rfl hkey)) ?_ ?_
      hnextMidway hnextSaved
    · simp [Task.IsMidway, Phase.midwayTarget, hkey]
    · simp [Task.HasSaved]

theorem Invariant.advance (h : Invariant server key start s)
    (htask : s.tasks[place]? = some task)
    (hfits : task.IsOverwriting server key → ∀ other ∈ s.tasks, ¬ other.IsMidway server key) :
    Invariant server key start
      ⟨(task.call.advance server s.tables task.phase).1,
        s.tasks.set place ⟨task.call, (task.call.advance server s.tables task.phase).2⟩⟩ := by
  obtain ⟨call, phase⟩ := task
  cases phase with
  | checking =>
    simp only [Call.advance]
    cases call.target server with
    | error err =>
      apply h.of_reading htask
      all_goals simp [Task.IsMidway, Task.HasSaved, Phase.midwayTarget, Phase.rule]
    | ok target =>
      apply h.of_reading htask
      all_goals simp [Task.IsMidway, Task.HasSaved, Phase.midwayTarget, Phase.rule]
  | finding target =>
    apply h.of_reading htask
    case hrefers =>
      intro other ruleId hrule
      simp only [Call.advance] at hrule
      cases hid : s.tables.ruleId server (target.key server) with
      | none => simp [hid, Phase.rule] at hrule
      | some existing =>
        simp only [hid, Phase.rule, Option.some.injEq, Prod.mk.injEq] at hrule
        obtain ⟨rfl, rfl⟩ := hrule
        exact hid
    all_goals simp [Call.advance, Task.IsMidway, Task.HasSaved, Phase.midwayTarget]
  | writing target existing =>
    cases existing with
    | some existing => exact h.overwrite htask fun hkey => hfits ⟨target, existing, rfl, hkey⟩
    | none =>
      simp only [Call.advance]
      cases hinsert : s.tables.insertRule server
          ⟨call.id, target.repositoryId, target.pattern, call.input.settings⟩ with
      | none =>
        apply h.of_reading htask
        all_goals simp [Task.IsMidway, Task.HasSaved, Phase.midwayTarget, Phase.rule]
      | some inserted => exact h.insert htask hinsert
  | clearing target ruleId => exact h.clear htask
  | allowing target ruleId subject left => exact h.allow htask
  | saved target =>
    -- a call that is done stays as it is
    obtain ⟨hplace, htaskEq⟩ := List.getElem?_eq_some_iff.1 htask
    rw [show (⟨call, (call.advance server s.tables (.saved target)).2⟩ : Task) = s.tasks[place] from
      htaskEq.symm, List.set_getElem_self]
    exact h
  | failed err =>
    obtain ⟨hplace, htaskEq⟩ := List.getElem?_eq_some_iff.1 htask
    rw [show (⟨call, (call.advance server s.tables (.failed err)).2⟩ : Task) = s.tasks[place] from
      htaskEq.symm, List.set_getElem_self]
    exact h

theorem Invariant.fail {err : DbError} (h : Invariant server key start s)
    (htask : s.tasks[place]? = some task) (hrunning : task.phase.isRunning = true)
    (hmidway : ¬ task.IsMidway server key) :
    Invariant server key start ⟨s.tables, s.tasks.set place ⟨task.call, .failed (.db err)⟩⟩ := by
  refine h.of_reading htask hmidway ?_ ?_ ?_ ?_
  · rintro ⟨target, hphase, -⟩
    simp [hphase, Phase.isRunning] at hrunning
  · simp [Task.IsMidway, Phase.midwayTarget]
  · simp [Task.HasSaved]
  · simp [Phase.rule]

theorem Invariant.arrive {call : Call} (h : Invariant server key start s) :
    Invariant server key start ⟨s.tables, s.tasks ++ [⟨call, .checking⟩]⟩ := by
  -- a call that is in some place and names a rule or is midway was there before
  have hold : ∀ (i : Nat) (other : Task), (s.tasks ++ [⟨call, .checking⟩])[i]? = some other →
      other.phase ≠ .checking → s.tasks[i]? = some other := by
    intro i other hother hphase
    by_cases hi : i < s.tasks.length
    · rwa [List.getElem?_append_left hi] at hother
    · rw [List.getElem?_append_right (Nat.le_of_not_lt hi)] at hother
      have hmem := List.mem_of_getElem? hother
      rw [List.mem_singleton.1 hmem] at hphase
      exact absurd rfl hphase
  have hmidway : ∀ other : Task, other.IsMidway server key → other.phase ≠ .checking := by
    rintro other ⟨target, htarget, -⟩ hphase
    simp [hphase, Phase.midwayTarget] at htarget
  exact {
    indexed := h.indexed
    refers := by
      intro i other hother target ruleId hrule
      refine h.refers i other (hold i other hother ?_) target ruleId hrule
      intro hphase
      simp [hphase, Phase.rule] at hrule
    alone := fun i j one other hone hother honeMidway hotherMidway =>
      h.alone i j one other (hold i one hone (hmidway one honeMidway))
        (hold j other hother (hmidway other hotherMidway)) honeMidway hotherMidway
    written := fun i other hother hotherMidway =>
      h.written i other (hold i other hother (hmidway other hotherMidway)) hotherMidway
    ofOne := by
      intro hquiet
      have hbefore : ∀ other ∈ s.tasks, ¬ other.IsMidway server key :=
        fun other hother => hquiet other (List.mem_append_left _ hother)
      rcases h.ofOne hbefore with ⟨other, hother, hsaved⟩ | ⟨hnone, hsame⟩
      · exact Or.inl ⟨other, List.mem_append_left _ hother, hsaved⟩
      · refine Or.inr ⟨Tasks.forall_append_one _ hnone ?_, hsame⟩
        simp [Task.HasSaved] }

theorem Invariant.step {a : Step} (h : Invariant server key start s) (hfits : Fits server key s a) :
    Invariant server key start (step server s a) := by
  cases a with
  | arrive call => exact h.arrive
  | advance place =>
    cases htask : s.tasks[place]? with
    | none => simpa only [RuleSaves.step, htask] using h
    | some task =>
      simp only [RuleSaves.step, htask]
      exact h.advance htask (hfits task htask)
  | fail place err =>
    cases htask : s.tasks[place]? with
    | none => simpa only [RuleSaves.step, htask] using h
    | some task =>
      simp only [RuleSaves.step, htask]
      split
      · rename_i hrunning
        exact h.fail htask hrunning (hfits task htask)
      · exact h

theorem invariant_start (hindexed : start.Indexed server) :
    Invariant server key start ⟨start, []⟩ where
  indexed := hindexed
  refers := by simp
  alone := by simp
  written := by simp
  ofOne := fun _ => Or.inr ⟨by simp, rfl⟩

theorem Invariant.run {steps : List Step} (h : Invariant server key start s)
    (hfits : Throughout (RuleSaves.step server) (Fits server key) s steps) :
    Invariant server key start (run (RuleSaves.step server) s steps) :=
  Runs.invariant (fun _ _ hs hfit => Invariant.step hs hfit) h hfits

end Invariant

/-! ## Calls that report an error -/

section Errors

variable {server : Server} {key : RuleKey} {start : Tables} {s : State} {place : Nat} {task : Task}

/-- The call in a place has written the rule, and not failed. -/
def Holds (server : Server) (key : RuleKey) (place : Nat) (s : State) : Prop :=
  ∃ task, s.tasks[place]? = some task ∧ (task.IsMidway server key ∨ task.HasSaved server key)

theorem holds_inserting {target : Target} {ruleId : BranchProtectionRuleId}
    {left : List AccessSubject} {next : Task} (hphase : next.phase = .inserting target ruleId left)
    (hkey : target.key server = key) : next.IsMidway server key ∨ next.HasSaved server key := by
  cases left with
  | nil => exact Or.inr ⟨target, hphase, hkey⟩
  | cons subject left => exact Or.inl ⟨target, by rw [hphase]; rfl, hkey⟩

/-- A statement of a call that has written the rule is followed by another one, or was the last. -/
theorem advance_holds (htask : task.IsMidway server key ∨ task.HasSaved server key)
    (tables : Tables) :
    Task.IsMidway server key ⟨task.call, (task.call.advance server tables task.phase).2⟩ ∨
      Task.HasSaved server key ⟨task.call, (task.call.advance server tables task.phase).2⟩ := by
  rcases htask with ⟨target, hphase, hkey⟩ | ⟨target, hphase, hkey⟩
  · obtain ⟨call, phase⟩ := task
    cases phase with
    | clearing other ruleId =>
      exact holds_inserting rfl ((Option.some.inj hphase).symm ▸ hkey)
    | allowing other ruleId next left =>
      exact holds_inserting rfl ((Option.some.inj hphase).symm ▸ hkey)
    | checking => simp [Phase.midwayTarget] at hphase
    | finding other => simp [Phase.midwayTarget] at hphase
    | writing other existing => simp [Phase.midwayTarget] at hphase
    | saved other => simp [Phase.midwayTarget] at hphase
    | failed err => simp [Phase.midwayTarget] at hphase
  · rw [hphase]
    exact Or.inr ⟨target, rfl, hkey⟩

theorem Holds.step {a : Step} (h : Holds server key place s) (hfits : Fits server key s a) :
    Holds server key place (step server s a) := by
  obtain ⟨task, htask, hholds⟩ := h
  obtain ⟨hplace, -⟩ := List.getElem?_eq_some_iff.1 htask
  cases a with
  | arrive call => exact ⟨task, by rwa [RuleSaves.step, List.getElem?_append_left hplace], hholds⟩
  | advance other =>
    by_cases hother : other = place
    · subst hother
      simp only [RuleSaves.step, htask]
      exact ⟨_, List.getElem?_set_self hplace, advance_holds hholds s.tables⟩
    · simp only [RuleSaves.step]
      split
      · exact ⟨task, htask, hholds⟩
      · exact ⟨task, by rwa [List.getElem?_set_ne hother], hholds⟩
  | fail other err =>
    by_cases hother : other = place
    · subst hother
      simp only [RuleSaves.step, htask]
      -- a call that is midway does not fail, and one that has saved is not running
      rcases hholds with hmidway | ⟨target, hphase, hkey⟩
      · exact absurd hmidway (hfits task htask)
      · simp only [hphase, Phase.isRunning, Bool.false_eq_true, if_false]
        exact ⟨task, htask, Or.inr ⟨target, hphase, hkey⟩⟩
    · simp only [RuleSaves.step]
      split
      · exact ⟨task, htask, hholds⟩
      · split
        · exact ⟨task, by rwa [List.getElem?_set_ne hother], hholds⟩
        · exact ⟨task, htask, hholds⟩

theorem Holds.run {steps : List Step} (h : Holds server key place s)
    (hfits : Throughout (RuleSaves.step server) (Fits server key) s steps) :
    Holds server key place (run (RuleSaves.step server) s steps) :=
  Runs.invariant (fun _ _ hs hfit => Holds.step hs hfit) h hfits

/-- A step changes what is found of the rule only by a call that has written it then. -/
theorem Invariant.found_step {a : Step} (h : Invariant server key start s)
    (hplace : a.place = some place) : Holds server key place (RuleSaves.step server s a) ∨
      (RuleSaves.step server s a).tables.found server key = s.tables.found server key := by
  cases a with
  | arrive call => cases hplace
  | fail other err =>
    refine Or.inr ?_
    simp only [RuleSaves.step]
    split
    · rfl
    · split
      · rfl
      · rfl
  | advance other =>
    obtain rfl := Option.some.inj hplace
    cases htask : s.tasks[other]? with
    | none => exact Or.inr (by simp only [RuleSaves.step, htask])
    | some task =>
      obtain ⟨hlt, -⟩ := List.getElem?_eq_some_iff.1 htask
      simp only [RuleSaves.step, htask]
      by_cases hholds : Task.IsMidway server key
          ⟨task.call, (task.call.advance server s.tables task.phase).2⟩ ∨
        Task.HasSaved server key ⟨task.call, (task.call.advance server s.tables task.phase).2⟩
      · exact Or.inl ⟨_, List.getElem?_set_self hlt, hholds⟩
      refine Or.inr ?_
      obtain ⟨call, phase⟩ := task
      have helse (target : Target) (ruleId : BranchProtectionRuleId)
          (hrule : phase.rule = some (target, ruleId))
          (hnext : target.key server = key → Task.IsMidway server key
              ⟨call, (call.advance server s.tables phase).2⟩ ∨
            Task.HasSaved server key ⟨call, (call.advance server s.tables phase).2⟩) :
          s.tables.ruleId server key ≠ some ruleId :=
        h.ids htask hrule fun hkey => hholds (hnext hkey)
      cases phase with
      | checking =>
        simp only [Call.advance]
        cases call.target server with
        | error err => rfl
        | ok target => rfl
      | finding target => rfl
      | writing target existing =>
        cases existing with
        | some existing =>
          exact found_updateSettings_of_ne
            (helse target existing rfl fun hkey => Or.inl ⟨target, rfl, hkey⟩)
        | none =>
          simp only [Call.advance] at hholds ⊢
          cases hinsert : s.tables.insertRule server
              ⟨call.id, target.repositoryId, target.pattern, call.input.settings⟩ with
          | none => rfl
          | some inserted =>
            rw [hinsert] at hholds
            refine (found_insertRule hinsert).trans (if_neg fun hkey => hholds ?_)
            exact Or.inl ⟨target, rfl, hkey⟩
      | clearing target ruleId =>
        exact found_clearAllowlist_of_ne (helse target ruleId rfl (holds_inserting rfl))
      | allowing target ruleId next left =>
        exact found_allow_of_ne (helse target ruleId rfl (holds_inserting rfl))
      | saved target => rfl
      | failed err => rfl

end Errors

/-! ## Runs -/

section Runs

variable {server : Server} {key : RuleKey} {start : Tables} {steps : List Step}

/-- Where settings are overwritten while no call is midway and no call fails midway, the calls are
all or nothing, and one at a time. -/
theorem whole_of_fits (hindexed : start.Indexed server)
    (hfits : Throughout (step server) (Fits server key) ⟨start, []⟩ steps) :
    Whole server key start steps := by
  have hrun := (invariant_start hindexed).run hfits
  refine ⟨?_, ?_, hrun.ofOne⟩
  · rw [Table.filter_eq_lookup hrun.indexed.keys]
    exact Option.length_toList_le
  · intro earlier a later place task err hsteps hplace htask hfailed
    rw [hsteps, List.append_cons] at hfits htask
    obtain ⟨hearlier, hlater⟩ := Runs.throughout_append.1 hfits
    have hbefore := (invariant_start hindexed).run (Runs.throughout_append.1 hearlier).1
    rw [Runs.run_concat]
    refine (hbefore.found_step hplace).resolve_left fun hholds => ?_
    rw [Runs.run_append] at htask
    rw [← Runs.run_concat (step server)] at hholds
    obtain ⟨other, hother, hwritten⟩ := hholds.run hlater
    obtain rfl : other = task := Option.some.inj (hother.symm.trans htask)
    rcases hwritten with ⟨target, hphase, -⟩ | ⟨target, hphase, -⟩
    · simp [hfailed, Phase.midwayTarget] at hphase
    · simp [hfailed] at hphase

end Runs

/-! ## Saves that are interrupted -/

def postgres : Server where
  sameName a b := decide (a = b)
  collationKey text := text
  uniqueViolation := "unique violation"

def approvals (count : Int) : BranchProtectionSettings := ⟨count, false, false, false, false, []⟩

/-- The rule of `main`, with one user on its allowlist. -/
def protectedMain : Tables where
  rules := [⟨60, 10, "main", approvals 2⟩]
  allowlist := [⟨60, .user 2⟩]

/-- A save by the owner of the repository. -/
def saveMain (count : Int) (usernames : List String) : Call where
  actor := .user 1
  owner := "ada"
  name := "site"
  input := ⟨" main ", approvals count, usernames⟩
  id := 61
  db := { Database.empty with
    users := [⟨1, "ada", "ada@example.org"⟩, ⟨2, "olga", "olga@example.org"⟩,
      ⟨3, "dev", "dev@example.org"⟩]
    repositories := [⟨⟨10, "site", .private⟩, "ada"⟩]
    repoAccess := [⟨10, .user 1, .owner⟩] }

/-- The insert of the only subject fails. -/
def failedInsert : List Step :=
  [.arrive (saveMain 1 ["olga"]), .advance 0, .advance 0, .advance 0, .advance 0,
    .fail 0 "connection closed"]

/-- Both calls clear the allowlist before one of them inserts. -/
def overlapping : List Step :=
  [.arrive (saveMain 1 ["olga"]), .arrive (saveMain 3 ["dev"]), .advance 0, .advance 0,
    .advance 1, .advance 1, .advance 0, .advance 1, .advance 0, .advance 1, .advance 0, .advance 1]

/-- A save that reports an error leaves an empty allowlist, and two that succeed leave the members
of both. -/
theorem interrupted_saves_are_not_whole :
    ¬ Whole postgres (10, "main") protectedMain failedInsert ∧
      ¬ Whole postgres (10, "main") protectedMain overlapping := by
  constructor
  · intro h
    have hfailed : (run (step postgres) ⟨protectedMain, []⟩ failedInsert).tasks[0]?.map Task.phase =
        some (.failed (.db "connection closed")) := by decide +kernel
    obtain ⟨task, htask, hphase⟩ := Option.map_eq_some_iff.1 hfailed
    -- the statement that clears the allowlist
    have hsame := h.unchanged (failedInsert.take 4) (.advance 0) (failedInsert.drop 5) 0 task _ rfl
      rfl htask hphase
    revert hsame
    decide +kernel
  · intro h
    have hphases : (run (step postgres) ⟨protectedMain, []⟩ overlapping).tasks.map Task.phase =
        [.saved ⟨10, "main", [.user 2]⟩, .saved ⟨10, "main", [.user 3]⟩] := by decide +kernel
    have hfound : (run (step postgres) ⟨protectedMain, []⟩ overlapping).tables.found postgres
        (10, "main") = some (approvals 3, {.user 2, .user 3}) := by decide +kernel
    have hphase (task : Task)
        (htask : task ∈ (run (step postgres) ⟨protectedMain, []⟩ overlapping).tasks) :
        task.phase = .saved ⟨10, "main", [.user 2]⟩ ∨
          task.phase = .saved ⟨10, "main", [.user 3]⟩ := by
      have hmem := List.mem_map_of_mem (f := Task.phase) htask
      rw [hphases] at hmem
      simpa using hmem
    have hquiet : ∀ task ∈ (run (step postgres) ⟨protectedMain, []⟩ overlapping).tasks,
        ¬ task.IsMidway postgres (10, "main") := by
      rintro task htask ⟨target, hmidway, -⟩
      rcases hphase task htask with hcase | hcase
      · simp [hcase, Phase.midwayTarget] at hmidway
      · simp [hcase, Phase.midwayTarget] at hmidway
    rcases h.ofOne hquiet with ⟨task, htask, target, hsaved, -, hone⟩ | ⟨hnone, -⟩
    · rw [hfound] at hone
      have hsubjects := (Prod.mk.inj (Option.some.inj hone)).2
      rcases hphase task htask with hcase | hcase
      · obtain rfl := Phase.saved.inj (hsaved.symm.trans hcase)
        revert hsubjects
        decide
      · obtain rfl := Phase.saved.inj (hsaved.symm.trans hcase)
        revert hsubjects
        decide
    · obtain ⟨task, htask⟩ : ∃ task, task ∈
          (run (step postgres) ⟨protectedMain, []⟩ overlapping).tasks := by
        refine List.exists_mem_of_ne_nil _ fun hnil => ?_
        rw [hnil] at hphases
        cases hphases
      rcases hphase task htask with hcase | hcase
      · exact hnone task htask ⟨_, hcase, rfl⟩
      · exact hnone task htask ⟨_, hcase, rfl⟩

/-- One call after the other. -/
theorem whole_of_calls_in_turn :
    protectedMain.Indexed postgres ∧ Whole postgres (10, "main") protectedMain
      [.arrive (saveMain 1 ["olga"]), .advance 0, .advance 0, .fail 0 "connection closed",
        .arrive (saveMain 3 ["dev"]), .advance 1, .advance 1, .advance 1, .advance 1, .advance 1] := by
  have hindexed : protectedMain.Indexed postgres := ⟨by decide, by decide⟩
  exact ⟨hindexed, whole_of_fits hindexed (by decide +kernel)⟩

end Edda.App.RuleSaves
