import Edda.Domain.Labels
import Edda.Support.Runs
import Edda.Support.Tasks

/-!
# The labels of an issue

Applying a label reads the labels of the issue, deletes those of the label's scope and inserts the
label, in one transaction. At read committed a statement sees what is committed when it runs, and
waits for the transactions that have written its row. Two applications of different labels of one
scope write different rows, so each can miss the other.

`one_per_scope_of_fits` says in which runs there is one label per scope all the same: transactions
that conflict do not overlap.
-/

set_option autoImplicit false

namespace Edda.Db.IssueLabels

open Edda.Domain Edda.Support
open Edda.Support.Runs (run Throughout)

/-- The servers whose transactions run at once. -/
inductive Backend where
  | postgres
  | mySql
  deriving DecidableEq, Repr

section Transactions

variable (labels : List Label)

/-- `apply_to_issue` with a label that its caller has read from the table, and `remove_from_issue`. -/
inductive Transaction where
  | apply (label : { label // label ∈ labels })
  | remove (labelId : LabelId)
  deriving DecidableEq

/-- The rows of a transaction that others do not see yet: those that it deleted, those that it
inserted, and those that its insert found there. -/
structure Writes where
  deleted : List LabelId
  inserted : List LabelId
  kept : List LabelId
  deriving DecidableEq, Repr

inductive Phase where
  | reading
  | removing
  | unapplying (deleted : List LabelId) (next : LabelId) (left : List LabelId)
  | applying (deleted : List LabelId)
  | committing (writes : Writes)
  | committed
  | rolledBack
  deriving DecidableEq, Repr

structure Task where
  transaction : Transaction labels
  phase : Phase
  deriving DecidableEq

/-- The committed rows of the issue, the committed transactions and the ones under way. -/
structure State where
  committed : Finset LabelId
  log : List (Transaction labels)
  tasks : List (Task labels)
  deriving DecidableEq

end Transactions

variable {labels : List Label}

def Phase.writes : Phase → Writes
  | .unapplying deleted _ _ => ⟨deleted, [], []⟩
  | .applying deleted => ⟨deleted, [], []⟩
  | .committing writes => writes
  | _ => ⟨[], [], []⟩

/-- A transaction that goes on to unapply some labels. -/
def Phase.unapply (deleted : List LabelId) : List LabelId → Phase
  | [] => .applying deleted
  | next :: left => .unapplying deleted next left

def Transaction.firstPhase : Transaction labels → Phase
  | .apply _ => .reading
  | .remove _ => .removing

/-- A delete waits for the others that have deleted the row. At `mySql` it also waits for those that
have inserted it or found it there; at `postgres` it does not see the one and the other has no
lock. -/
def Writes.blocksDelete (backend : Backend) (writes : Writes) (labelId : LabelId) : Bool :=
  labelId ∈ writes.deleted ||
    (backend = .mySql && (labelId ∈ writes.inserted || labelId ∈ writes.kept))

def Writes.blocksInsert (writes : Writes) (labelId : LabelId) : Bool :=
  labelId ∈ writes.deleted || labelId ∈ writes.inserted

/-- The labels that the issue holds. -/
def currentlyApplied (labels : List Label) (committed : Finset LabelId) : List Label :=
  labels.filter fun label => label.id ∈ committed

/-- The next statement waits for one of the other transactions. -/
def Task.waits (backend : Backend) (others : List (Task labels)) (task : Task labels) : Bool :=
  match task.transaction, task.phase with
  | .apply _, .unapplying _ next _ =>
    others.any fun other => other.phase.writes.blocksDelete backend next
  | .apply label, .applying _ =>
    others.any fun other => other.phase.writes.blocksInsert label.val.id
  | .remove labelId, .removing =>
    others.any fun other => other.phase.writes.blocksDelete backend labelId
  | _, _ => false

/-- The phase after the next statement. -/
def Task.next (committed : Finset LabelId) (task : Task labels) : Phase :=
  match task.transaction, task.phase with
  | .apply label, .reading => .unapply []
      ((labelsToUnapplyForScope (currentlyApplied labels committed) label).map Label.id)
  | .apply _, .unapplying deleted next left =>
    .unapply (if next ∈ committed then next :: deleted else deleted) left
  | .apply label, .applying deleted =>
    .committing (if label.val.id ∈ committed then ⟨deleted, [], [label.val.id]⟩
      else ⟨deleted, [label.val.id], []⟩)
  | .remove labelId, .removing =>
    .committing ⟨if labelId ∈ committed then [labelId] else [], [], []⟩
  | _, phase => phase

inductive Step (labels : List Label) where
  | arrive (transaction : Transaction labels)
  | advance (place : Nat)
  | rollBack (place : Nat)
  deriving DecidableEq

def Phase.isOpen : Phase → Bool
  | .committed | .rolledBack => false
  | _ => true

def commit (s : State labels) (place : Nat) (task : Task labels) (writes : Writes) :
    State labels where
  committed := (s.committed \ writes.deleted.toFinset) ∪ writes.inserted.toFinset
  log := s.log ++ [task.transaction]
  tasks := s.tasks.set place { task with phase := .committed }

def step (backend : Backend) (s : State labels) : Step labels → State labels
  | .arrive transaction => { s with tasks := s.tasks ++ [⟨transaction, transaction.firstPhase⟩] }
  | .advance place => match s.tasks[place]? with
    | none => s
    | some task => match task.phase with
      | .committing writes => commit s place task writes
      | _ =>
        if task.waits backend (s.tasks.eraseIdx place) then s
        else { s with tasks := s.tasks.set place { task with phase := task.next s.committed } }
  | .rollBack place => match s.tasks[place]? with
    | none => s
    | some task =>
      if task.phase.isOpen then
        { s with tasks := s.tasks.set place { task with phase := .rolledBack } }
      else s

/-! ## One label per scope -/

/-- The labels have a scope, and it is the same. -/
def SameScope (a b : Label) : Prop := (scopeOf a.name).isSome ∧ scopeOf a.name = scopeOf b.name

instance (a b : Label) : Decidable (SameScope a b) := inferInstanceAs (Decidable (_ ∧ _))

def OnePerScope (labels : List Label) (committed : Finset LabelId) : Prop :=
  ∀ a ∈ labels, ∀ b ∈ labels, a.id ∈ committed → b.id ∈ committed → SameScope a b → a = b

/-- The transaction takes the place of a label in its scope, or removes the label. -/
def Transaction.Supersedes (label : Label) : Transaction labels → Prop
  | .apply other => SameScope label other
  | .remove labelId => labelId = label.id

/-- The last application in the scope of a label is of this label, and it was not removed later. A
label that was there at the start counts as applied then. -/
def LastApplied (start : Finset LabelId) (log : List (Transaction labels))
    (label : { label // label ∈ labels }) : Prop :=
  (∃ earlier later, log = earlier ++ .apply label :: later ∧
    ∀ transaction ∈ later, ¬ transaction.Supersedes label.val) ∨
  label.val.id ∈ start ∧ ∀ transaction ∈ log, ¬ transaction.Supersedes label.val

/-- No two labels share a scope, and when all transactions are done each scope holds the label that
was applied last and not removed later. -/
structure Exclusive (start : Finset LabelId) (s : State labels) : Prop where
  one : OnePerScope labels s.committed
  last : (∀ task ∈ s.tasks, task.phase.isOpen = false) →
    ∀ label : { label // label ∈ labels }, (scopeOf label.val.name).isSome →
      (label.val.id ∈ s.committed ↔ LastApplied start s.log label)

/-- Applications of different labels of a scope, and an application and a removal of one label. -/
def Conflict : Transaction labels → Transaction labels → Prop
  | .apply a, .apply b => a ≠ b ∧ SameScope a b
  | .apply a, .remove labelId => (scopeOf a.val.name).isSome ∧ a.val.id = labelId
  | .remove labelId, .apply a => (scopeOf a.val.name).isSome ∧ a.val.id = labelId
  | .remove _, .remove _ => False

instance (a b : Transaction labels) : Decidable (Conflict a b) :=
  match a, b with
  | .apply _, .apply _ | .apply _, .remove _ | .remove _, .apply _ =>
    inferInstanceAs (Decidable (_ ∧ _))
  | .remove _, .remove _ => isFalse id

/-- The transaction is at its first statement. -/
def Phase.isFirst : Phase → Bool
  | .reading | .removing => true
  | _ => false

/-- The transaction has had its first statement, and is not done. -/
def Phase.isUnderWay : Phase → Bool
  | .unapplying _ _ _ | .applying _ | .committing _ => true
  | _ => false

/-- The first statement of a transaction goes through while none is under way that conflicts with
it. -/
def Fits (backend : Backend) (s : State labels) : Step labels → Prop
  | .advance place => ∀ task, s.tasks[place]? = some task → task.phase.isFirst = true →
      task.waits backend (s.tasks.eraseIdx place) = false →
      ∀ other ∈ s.tasks, other.phase.isUnderWay = true →
        ¬ Conflict task.transaction other.transaction
  | .arrive _ | .rollBack _ => True

instance (backend : Backend) (s : State labels) (a : Step labels) : Decidable (Fits backend s a) :=
  match a with
  | .advance place => decidable_of_iff (∀ task ∈ s.tasks[place]?, task.phase.isFirst = true →
      task.waits backend (s.tasks.eraseIdx place) = false →
      ∀ other ∈ s.tasks, other.phase.isUnderWay = true →
        ¬ Conflict task.transaction other.transaction) Iff.rfl
  | .arrive _ | .rollBack _ => isTrue trivial

/-! ## What the transactions under way have done -/

section Progress

/-- The labels that a transaction has yet to unapply. -/
def Phase.left : Phase → List LabelId
  | .unapplying _ next left => next :: left
  | _ => []

/-- An application under way unapplies all other labels of its scope, and no other label. Where it is
about to commit, its label is inserted or there. -/
structure Applies (committed : Finset LabelId) (label : { label // label ∈ labels })
    (phase : Phase) : Prop where
  deletes : ∀ labelId ∈ phase.writes.deleted ++ phase.left,
    ∃ other ∈ labels, other.id = labelId ∧ other ≠ label.val ∧ SameScope other label
  inserts : ∀ labelId ∈ phase.writes.inserted, labelId = label.val.id
  covers : ∀ other ∈ labels, other.id ∈ committed → other ≠ label.val → SameScope other label →
    other.id ∈ phase.writes.deleted ++ phase.left
  lands : ∀ writes, phase = .committing writes → (scopeOf label.val.name).isSome →
    label.val.id ∈ writes.inserted ∨ label.val.id ∈ committed

/-- A removal under way deletes its label, and no other one. -/
structure Removes (labels : List Label) (committed : Finset LabelId) (labelId : LabelId)
    (phase : Phase) : Prop where
  deletes : ∀ other ∈ phase.writes.deleted, other = labelId
  inserts : phase.writes.inserted = []
  covers : ∀ label ∈ labels, label.id = labelId → (scopeOf label.name).isSome →
    labelId ∈ committed → labelId ∈ phase.writes.deleted

/-- What a transaction under way has done. -/
def Task.Progresses (committed : Finset LabelId) (task : Task labels) : Prop :=
  task.phase.isUnderWay = true →
    (∀ label, task.transaction = .apply label → Applies committed label task.phase) ∧
    ∀ labelId, task.transaction = .remove labelId → Removes labels committed labelId task.phase

structure Invariant (start : Finset LabelId) (s : State labels) : Prop where
  last : ∀ label : { label // label ∈ labels }, (scopeOf label.val.name).isSome →
    (label.val.id ∈ s.committed ↔ LastApplied start s.log label)
  apart : ∀ (i j : Nat) (task other : Task labels), s.tasks[i]? = some task →
    s.tasks[j]? = some other → i ≠ j → task.phase.isUnderWay = true →
    other.phase.isUnderWay = true → ¬ Conflict task.transaction other.transaction
  progress : ∀ (i : Nat) (task : Task labels), s.tasks[i]? = some task →
    task.Progresses s.committed

variable {committed : Finset LabelId} {label : { label // label ∈ labels }} {phase : Phase}

theorem SameScope.symm {a b : Label} (h : SameScope a b) : SameScope b a :=
  ⟨h.2 ▸ h.1, h.2.symm⟩

theorem SameScope.trans {a b c : Label} (h : SameScope a b) (h' : SameScope b c) : SameScope a c :=
  ⟨h.1, h.2.trans h'.2⟩

theorem Conflict.symm {a b : Transaction labels} (h : Conflict a b) : Conflict b a := by
  cases a with
  | apply a =>
    cases b with
    | apply b => exact ⟨h.1.symm, h.2.symm⟩
    | remove labelId => exact h
  | remove labelId =>
    cases b with
    | apply b => exact h
    | remove labelId => exact h

/-- The row of a label is of no other one. -/
theorem eq_of_id (hids : (labels.map Label.id).Nodup) {a b : Label} (ha : a ∈ labels)
    (hb : b ∈ labels) (h : a.id = b.id) : a = b := List.inj_on_of_nodup_map hids ha hb h

theorem Applies.transfer {after : Finset LabelId} (h : Applies committed label phase)
    (hcovers : ∀ other ∈ labels, other.id ∈ after → other ≠ label.val → SameScope other label →
      other.id ∈ committed)
    (hlands : (scopeOf label.val.name).isSome → label.val.id ∈ committed → label.val.id ∈ after) :
    Applies after label phase where
  deletes := h.deletes
  inserts := h.inserts
  covers other hother hafter hne hscope :=
    h.covers other hother (hcovers other hother hafter hne hscope) hne hscope
  lands writes hphase hscope := (h.lands writes hphase hscope).imp_right (hlands hscope)

theorem Removes.transfer {after : Finset LabelId} {labelId : LabelId}
    (h : Removes labels committed labelId phase)
    (hcovers : ∀ label ∈ labels, label.id = labelId → (scopeOf label.name).isSome →
      labelId ∈ after → labelId ∈ committed) :
    Removes labels after labelId phase where
  deletes := h.deletes
  inserts := h.inserts
  covers label hlabel hid hscope hafter :=
    h.covers label hlabel hid hscope (hcovers label hlabel hid hscope hafter)

end Progress

/-! ## The last application -/

section LastApplied

variable {start : Finset LabelId} {log : List (Transaction labels)}
  {transaction : Transaction labels} {label other : { label // label ∈ labels }}

theorem lastApplied_nil : LastApplied start ([] : List (Transaction labels)) label ↔
    label.val.id ∈ start := by
  simp [LastApplied]

theorem lastApplied_concat : LastApplied start (log ++ [transaction]) label ↔
    transaction = .apply label ∨
      LastApplied start log label ∧ ¬ transaction.Supersedes label.val := by
  constructor
  · rintro (⟨earlier, later, heq, hlater⟩ | ⟨hstart, hlog⟩)
    · rcases List.eq_nil_or_concat later with rfl | ⟨later, newest, rfl⟩
      · obtain ⟨-, hnewest⟩ := List.append_inj' heq rfl
        exact Or.inl (List.cons.inj hnewest).1
      · rw [List.concat_eq_append] at heq hlater
        rw [← List.cons_append, ← List.append_assoc] at heq
        obtain ⟨rfl, hnewest⟩ := List.append_inj' heq rfl
        obtain rfl := (List.cons.inj hnewest).1
        rw [List.forall_mem_append] at hlater
        exact Or.inr ⟨Or.inl ⟨earlier, later, rfl, hlater.1⟩, hlater.2 _ (List.mem_singleton_self _)⟩
    · rw [List.forall_mem_append] at hlog
      exact Or.inr ⟨Or.inr ⟨hstart, hlog.1⟩, hlog.2 _ (List.mem_singleton_self _)⟩
  · rintro (rfl | ⟨⟨earlier, later, rfl, hlater⟩ | ⟨hstart, hlog⟩, hnewest⟩)
    · exact Or.inl ⟨log, [], rfl, by simp⟩
    · refine Or.inl ⟨earlier, later ++ [transaction], by simp, ?_⟩
      simpa [or_imp, forall_and] using ⟨hlater, hnewest⟩
    · refine Or.inr ⟨hstart, ?_⟩
      simpa [or_imp, forall_and] using ⟨hlog, hnewest⟩

/-- A scope has one last application. -/
theorem lastApplied_unique (hstart : OnePerScope labels start) (hlabel : LastApplied start log label)
    (hother : LastApplied start log other) (hscope : SameScope label.val other.val) :
    label = other := by
  induction log using List.reverseRecOn with
  | nil =>
    rw [lastApplied_nil] at hlabel hother
    exact Subtype.ext (hstart _ label.property _ other.property hlabel hother hscope)
  | append_singleton log transaction ih =>
    rcases lastApplied_concat.1 hlabel with rfl | ⟨hlabel, hkeeps⟩
    · rcases lastApplied_concat.1 hother with heq | ⟨-, hkeeps⟩
      · exact Transaction.apply.inj heq
      · exact absurd hscope.symm hkeeps
    · rcases lastApplied_concat.1 hother with rfl | ⟨hother, -⟩
      · exact absurd hscope hkeeps
      · exact ih hlabel hother

end LastApplied

/-! ## Commits -/

section Commits

variable {start : Finset LabelId} {s : State labels} {place : Nat} {task : Task labels}
  {writes : Writes} {committed : Finset LabelId} {label : { label // label ∈ labels }}
  {labelId : LabelId}

theorem mem_commit : labelId ∈ (commit s place task writes).committed ↔
    labelId ∈ s.committed ∧ labelId ∉ writes.deleted ∨ labelId ∈ writes.inserted := by
  simp [commit]

/-- What an application about to commit does to its own label. -/
theorem Applies.self_mem (hids : (labels.map Label.id).Nodup)
    (h : Applies s.committed label (.committing writes)) (hscope : (scopeOf label.val.name).isSome) :
    label.val.id ∈ (commit s place task writes).committed := by
  rw [mem_commit]
  refine (h.lands writes rfl hscope).symm.imp_left fun hmem => ⟨hmem, fun hdeleted => ?_⟩
  obtain ⟨other, hother, hid, hne, -⟩ := h.deletes _ (List.mem_append_left _ hdeleted)
  exact hne (eq_of_id hids hother label.property hid)

/-- To the others of its scope. -/
theorem Applies.notMem (hids : (labels.map Label.id).Nodup)
    (h : Applies s.committed label (.committing writes)) {other : Label} (hother : other ∈ labels)
    (hne : other ≠ label.val) (hscope : SameScope other label) :
    other.id ∉ (commit s place task writes).committed := by
  rw [mem_commit]
  rintro (⟨hmem, hkept⟩ | hinserted)
  · have hcovers : other.id ∈ writes.deleted ++ [] := h.covers other hother hmem hne hscope
    rw [List.append_nil] at hcovers
    exact hkept hcovers
  · exact hne (eq_of_id hids hother label.property (h.inserts _ hinserted))

/-- And to all other labels. -/
theorem Applies.mem_iff (hids : (labels.map Label.id).Nodup)
    (h : Applies s.committed label (.committing writes)) {other : Label} (hother : other ∈ labels)
    (hne : other ≠ label.val) (hscope : ¬ SameScope other label) :
    other.id ∈ (commit s place task writes).committed ↔ other.id ∈ s.committed := by
  rw [mem_commit]
  constructor
  · rintro (⟨hmem, -⟩ | hinserted)
    · exact hmem
    · exact absurd (eq_of_id hids hother label.property (h.inserts _ hinserted)) hne
  · intro hmem
    refine Or.inl ⟨hmem, fun hdeleted => ?_⟩
    obtain ⟨found, hfound, hid, -, hsame⟩ := h.deletes _ (List.mem_append_left _ hdeleted)
    exact hscope (eq_of_id hids hfound hother hid ▸ hsame)

theorem Removes.notMem {removed : Label} (hremoved : removed ∈ labels)
    (hscope : (scopeOf removed.name).isSome)
    (h : Removes labels s.committed removed.id (.committing writes)) :
    removed.id ∉ (commit s place task writes).committed := by
  have hinserted : writes.inserted = [] := h.inserts
  rw [mem_commit, hinserted]
  rintro (⟨hmem, hkept⟩ | hnil)
  · exact hkept (h.covers removed hremoved rfl hscope hmem)
  · cases hnil

theorem Removes.mem_iff (h : Removes labels s.committed labelId (.committing writes))
    {other : LabelId} (hne : other ≠ labelId) :
    other ∈ (commit s place task writes).committed ↔ other ∈ s.committed := by
  have hinserted : writes.inserted = [] := h.inserts
  rw [mem_commit, hinserted]
  constructor
  · rintro (⟨hmem, -⟩ | hnil)
    · exact hmem
    · cases hnil
  · exact fun hmem => Or.inl ⟨hmem, fun hdeleted => hne (h.deletes _ hdeleted)⟩

theorem Removes.mem_of_mem (h : Removes labels s.committed labelId (.committing writes))
    {other : LabelId} (hmem : other ∈ (commit s place task writes).committed) :
    other ∈ s.committed := by
  have hinserted : writes.inserted = [] := h.inserts
  rw [mem_commit, hinserted] at hmem
  exact hmem.elim And.left fun hnil => absurd hnil List.not_mem_nil

/-- A commit of an application keeps what is done by the transactions under way that do not conflict
with it. -/
theorem Applies.progresses (hids : (labels.map Label.id).Nodup)
    (h : Applies s.committed label (.committing writes)) {other : Task labels}
    (hother : other.Progresses s.committed)
    (hapart : other.phase.isUnderWay = true → ¬ Conflict (.apply label) other.transaction) :
    other.Progresses (commit s place task writes).committed := by
  intro hunderWay
  obtain ⟨happlies, hremoves⟩ := hother hunderWay
  have hfree := hapart hunderWay
  constructor
  · intro second hsecond
    rw [hsecond] at hfree
    refine (happlies second hsecond).transfer ?_ ?_
    · intro found hfound hmem hne hscope
      by_cases hlabel : found = label.val
      · -- the label that is committed is another one of the scope
        subst hlabel
        exact absurd ⟨fun heq => hne (congrArg Subtype.val heq), hscope⟩ hfree
      · by_cases hsame : SameScope found label
        · exact absurd hmem (h.notMem hids hfound hlabel hsame)
        · exact (h.mem_iff hids hfound hlabel hsame).1 hmem
    · intro hscope hmem
      by_cases hlabel : second = label
      · subst hlabel
        exact h.self_mem hids hscope
      · have hne : second.val ≠ label.val := fun heq => hlabel (Subtype.ext heq)
        refine (h.mem_iff hids second.property hne fun hsame => ?_).2 hmem
        exact hfree ⟨Ne.symm hlabel, hsame.symm⟩
  · intro removedId hremoved
    rw [hremoved] at hfree
    refine (hremoves removedId hremoved).transfer ?_
    rintro found hfound rfl hscope hmem
    have hne : found ≠ label.val := by
      rintro rfl
      exact hfree ⟨hscope, rfl⟩
    by_cases hsame : SameScope found label
    · exact absurd hmem (h.notMem hids hfound hne hsame)
    · exact (h.mem_iff hids hfound hne hsame).1 hmem

theorem Removes.progresses (h : Removes labels s.committed labelId (.committing writes))
    {other : Task labels} (hother : other.Progresses s.committed)
    (hapart : other.phase.isUnderWay = true → ¬ Conflict (.remove labelId) other.transaction) :
    other.Progresses (commit s place task writes).committed := by
  intro hunderWay
  obtain ⟨happlies, hremoves⟩ := hother hunderWay
  have hfree := hapart hunderWay
  constructor
  · intro second hsecond
    rw [hsecond] at hfree
    refine (happlies second hsecond).transfer (fun _ _ hmem _ _ => h.mem_of_mem hmem) ?_
    intro hscope hmem
    refine (h.mem_iff fun hid => ?_).2 hmem
    exact hfree ⟨hscope, hid⟩
  · intro removedId hremoved
    exact (hremoves removedId hremoved).transfer fun _ _ _ _ hmem => h.mem_of_mem hmem

end Commits

/-! ## Statements -/

section Statements

variable {committed : Finset LabelId} {label : { label // label ∈ labels }}
  {deleted left : List LabelId} {next labelId : LabelId}

@[simp]
theorem writes_unapply : (Phase.unapply deleted left).writes = ⟨deleted, [], []⟩ := by
  cases left with
  | nil => rfl
  | cons next left => rfl

@[simp]
theorem left_unapply : (Phase.unapply deleted left).left = left := by
  cases left with
  | nil => rfl
  | cons next left => rfl

theorem unapply_ne_committing {writes : Writes} :
    Phase.unapply deleted left ≠ .committing writes := by
  cases left with
  | nil => simp [Phase.unapply]
  | cons next left => simp [Phase.unapply]

theorem applies_read (hids : (labels.map Label.id).Nodup) : Applies committed label (.unapply []
    ((labelsToUnapplyForScope (currentlyApplied labels committed) label).map Label.id)) where
  deletes := by
    intro labelId hid
    rw [writes_unapply, left_unapply, List.nil_append] at hid
    obtain ⟨other, hother, rfl⟩ := List.mem_map.1 hid
    obtain ⟨hmem, hne, hscope, hsame⟩ := mem_labelsToUnapplyForScope.1 hother
    refine ⟨other, (List.mem_filter.1 hmem).1, rfl, ?_, hsame ▸ hscope, hsame⟩
    rintro rfl
    exact hne rfl
  inserts := by simp
  covers := by
    intro other hother hmem hne hscope
    rw [writes_unapply, left_unapply, List.nil_append]
    refine List.mem_map.2 ⟨other, mem_labelsToUnapplyForScope.2 ⟨?_, ?_, ?_, ?_⟩, rfl⟩
    · exact List.mem_filter.2 ⟨hother, by simpa using hmem⟩
    · exact fun hid => hne (eq_of_id hids hother label.property hid)
    · exact hscope.symm.1
    · exact hscope.2
  lands := fun _ hphase => absurd hphase unapply_ne_committing

theorem Applies.unapply (h : Applies committed label (.unapplying deleted next left)) :
    Applies committed label
      (.unapply (if next ∈ committed then next :: deleted else deleted) left) where
  deletes := by
    intro labelId hid
    rw [writes_unapply, left_unapply] at hid
    refine h.deletes labelId ?_
    simp only [Phase.writes, Phase.left, List.mem_append, List.mem_cons] at hid ⊢
    rcases hid with hdeleted | hleft
    · split at hdeleted
      · exact (List.mem_cons.1 hdeleted).elim (fun heq => Or.inr (Or.inl heq)) Or.inl
      · exact Or.inl hdeleted
    · exact Or.inr (Or.inr hleft)
  inserts := by simp
  covers := by
    intro other hother hmem hne hscope
    have hcovers := h.covers other hother hmem hne hscope
    rw [writes_unapply, left_unapply]
    simp only [Phase.writes, Phase.left, List.mem_append, List.mem_cons] at hcovers ⊢
    rcases hcovers with hdeleted | rfl | hleft
    · refine Or.inl ?_
      split
      · exact List.mem_cons_of_mem _ hdeleted
      · exact hdeleted
    · rw [if_pos hmem]
      exact Or.inl List.mem_cons_self
    · exact Or.inr hleft
  lands := fun _ hphase => absurd hphase unapply_ne_committing

theorem Applies.apply (h : Applies committed label (.applying deleted)) :
    Applies committed label (.committing (if label.val.id ∈ committed
      then ⟨deleted, [], [label.val.id]⟩ else ⟨deleted, [label.val.id], []⟩)) := by
  split
  · rename_i hmem
    exact {
      deletes := h.deletes
      inserts := by simp [Phase.writes]
      covers := h.covers
      lands := fun _ _ _ => Or.inr hmem }
  · exact {
      deletes := h.deletes
      inserts := by simp [Phase.writes]
      covers := h.covers
      lands := by
        intro writes hphase _
        rw [← Phase.committing.inj hphase]
        exact Or.inl (List.mem_singleton_self _) }

theorem removes_remove : Removes labels committed labelId
    (.committing ⟨if labelId ∈ committed then [labelId] else [], [], []⟩) where
  deletes := by
    intro other hother
    simp only [Phase.writes] at hother
    split at hother
    · exact List.mem_singleton.1 hother
    · cases hother
  inserts := rfl
  covers := by
    intro label _ _ _ hmem
    simp only [Phase.writes, if_pos hmem, List.mem_singleton]

end Statements

/-! ## Runs -/

section Runs

variable {backend : Backend} {start : Finset LabelId} {s : State labels} {place : Nat}
  {task : Task labels} {phase : Phase}

/-- A step of a transaction that does not commit. -/
theorem Invariant.set (h : Invariant start s) (htask : s.tasks[place]? = some task)
    (hapart : phase.isUnderWay = true → ∀ (i : Nat) (other : Task labels), i ≠ place →
      s.tasks[i]? = some other → other.phase.isUnderWay = true →
      ¬ Conflict task.transaction other.transaction)
    (hprogress : Task.Progresses s.committed ⟨task.transaction, phase⟩) :
    Invariant start { s with tasks := s.tasks.set place { task with phase := phase } } where
  last := h.last
  apart := by
    intro i j one other hone hother hne honeUnder hotherUnder
    rcases Tasks.getElem?_set_cases hone with ⟨rfl, rfl⟩ | ⟨hi, hbefore⟩
    · rcases Tasks.getElem?_set_cases hother with ⟨rfl, -⟩ | ⟨hj, hother⟩
      · exact absurd rfl hne
      · exact hapart honeUnder j other hj hother hotherUnder
    · rcases Tasks.getElem?_set_cases hother with ⟨rfl, rfl⟩ | ⟨hj, hother⟩
      · exact fun hconflict => hapart hotherUnder i one hi hbefore honeUnder hconflict.symm
      · exact h.apart i j one other hbefore hother hne honeUnder hotherUnder
  progress := by
    intro i other hother
    rcases Tasks.getElem?_set_cases hother with ⟨-, rfl⟩ | ⟨-, hother⟩
    · exact hprogress
    · exact h.progress i other hother

theorem next_progresses (hids : (labels.map Label.id).Nodup) {committed : Finset LabelId}
    (h : task.Progresses committed) :
    Task.Progresses committed ⟨task.transaction, task.next committed⟩ := by
  obtain ⟨transaction, phase⟩ := task
  intro hunderWay
  cases transaction with
  | apply label =>
    refine ⟨fun second hsecond => ?_, fun _ hremove => by cases hremove⟩
    obtain rfl := Transaction.apply.inj hsecond
    cases phase with
    | reading => exact applies_read hids
    | removing => cases hunderWay
    | unapplying deleted next left => exact ((h rfl).1 _ rfl).unapply
    | applying deleted => exact ((h rfl).1 _ rfl).apply
    | committing writes => exact (h rfl).1 _ rfl
    | committed => cases hunderWay
    | rolledBack => cases hunderWay
  | remove labelId =>
    refine ⟨fun _ happly => (by cases happly), fun second hsecond => ?_⟩
    obtain rfl := Transaction.remove.inj hsecond
    cases phase with
    | reading => cases hunderWay
    | removing => exact removes_remove
    | unapplying deleted next left => exact (h rfl).2 _ rfl
    | applying deleted => exact (h rfl).2 _ rfl
    | committing writes => exact (h rfl).2 _ rfl
    | committed => cases hunderWay
    | rolledBack => cases hunderWay

/-- A transaction comes under way by its first statement. -/
theorem isUnderWay_next {committed : Finset LabelId}
    (h : (task.next committed).isUnderWay = true) :
    task.phase.isUnderWay = true ∨ task.phase.isFirst = true := by
  obtain ⟨transaction, phase⟩ := task
  cases phase with
  | reading => exact Or.inr rfl
  | removing => exact Or.inr rfl
  | unapplying deleted next left => exact Or.inl rfl
  | applying deleted => exact Or.inl rfl
  | committing writes => exact Or.inl rfl
  | committed =>
    cases transaction with
    | apply label => cases h
    | remove labelId => cases h
  | rolledBack =>
    cases transaction with
    | apply label => cases h
    | remove labelId => cases h

theorem Invariant.commit {writes : Writes} (hids : (labels.map Label.id).Nodup)
    (h : Invariant start s) (htask : s.tasks[place]? = some task)
    (hphase : task.phase = .committing writes) :
    Invariant start (commit s place task writes) := by
  have hunderWay : task.phase.isUnderWay = true := by rw [hphase]; rfl
  obtain ⟨happlies, hremoves⟩ := h.progress place task htask hunderWay
  rw [hphase] at happlies hremoves
  refine ⟨?_, ?_, ?_⟩
  · intro label hscope
    rw [show (IssueLabels.commit s place task writes).log = s.log ++ [task.transaction] from rfl,
      lastApplied_concat]
    cases htransaction : task.transaction with
    | apply applied =>
      have hdone := happlies applied htransaction
      by_cases hlabel : label = applied
      · subst hlabel
        exact iff_of_true (hdone.self_mem hids hscope) (Or.inl rfl)
      have hne : label.val ≠ applied.val := fun heq => hlabel (Subtype.ext heq)
      by_cases hsame : SameScope label applied
      · refine iff_of_false (hdone.notMem hids label.property hne hsame) ?_
        rintro (heq | ⟨-, hkeeps⟩)
        · exact hlabel (Transaction.apply.inj heq).symm
        · exact hkeeps hsame
      · rw [hdone.mem_iff hids label.property hne hsame, h.last label hscope]
        constructor
        · exact fun hlast => Or.inr ⟨hlast, hsame⟩
        · rintro (heq | ⟨hlast, -⟩)
          · exact absurd (Transaction.apply.inj heq).symm hlabel
          · exact hlast
    | remove labelId =>
      have hdone := hremoves labelId htransaction
      by_cases hid : label.val.id = labelId
      · subst hid
        refine iff_of_false (hdone.notMem label.property hscope) ?_
        rintro (heq | ⟨-, hkeeps⟩)
        · cases heq
        · exact hkeeps rfl
      · rw [hdone.mem_iff hid, h.last label hscope]
        constructor
        · exact fun hlast => Or.inr ⟨hlast, fun heq => hid heq.symm⟩
        · rintro (heq | ⟨hlast, -⟩)
          · cases heq
          · exact hlast
  · intro i j one other hone hother hne honeUnder hotherUnder
    rcases Tasks.getElem?_set_cases hone with ⟨-, rfl⟩ | ⟨hi, hone⟩
    · cases honeUnder
    · rcases Tasks.getElem?_set_cases hother with ⟨-, rfl⟩ | ⟨hj, hother⟩
      · cases hotherUnder
      · exact h.apart i j one other hone hother hne honeUnder hotherUnder
  · intro i other hother
    rcases Tasks.getElem?_set_cases hother with ⟨-, rfl⟩ | ⟨hi, hother⟩
    · exact fun hcommitted => absurd hcommitted (by simp [Phase.isUnderWay])
    · have hapart : other.phase.isUnderWay = true →
          ¬ Conflict task.transaction other.transaction :=
        h.apart place i task other htask hother (Ne.symm hi) hunderWay
      cases htransaction : task.transaction with
      | apply applied =>
        rw [htransaction] at hapart
        exact (happlies applied htransaction).progresses hids (h.progress i other hother) hapart
      | remove labelId =>
        rw [htransaction] at hapart
        exact (hremoves labelId htransaction).progresses (h.progress i other hother) hapart

theorem Invariant.arrive (h : Invariant start s) (transaction : Transaction labels) :
    Invariant start { s with tasks := s.tasks ++ [⟨transaction, transaction.firstPhase⟩] } := by
  have hfirst : transaction.firstPhase.isUnderWay = false := by
    cases transaction with
    | apply label => rfl
    | remove labelId => rfl
  -- a transaction that is under way was there before
  have hold : ∀ (i : Nat) (other : Task labels),
      (s.tasks ++ [⟨transaction, transaction.firstPhase⟩])[i]? = some other →
      other.phase.isUnderWay = true → s.tasks[i]? = some other := by
    intro i other hother hunderWay
    by_cases hi : i < s.tasks.length
    · rwa [List.getElem?_append_left hi] at hother
    · rw [List.getElem?_append_right (Nat.le_of_not_lt hi)] at hother
      have hmem := List.mem_of_getElem? hother
      rw [List.mem_singleton.1 hmem, hfirst] at hunderWay
      cases hunderWay
  refine ⟨h.last, ?_, ?_⟩
  · intro i j one other hone hother hne honeUnder hotherUnder
    exact h.apart i j one other (hold i one hone honeUnder) (hold j other hother hotherUnder) hne
      honeUnder hotherUnder
  · intro i other hother hunderWay
    exact h.progress i other (hold i other hother hunderWay) hunderWay

theorem Invariant.advance (hids : (labels.map Label.id).Nodup) (h : Invariant start s)
    (htask : s.tasks[place]? = some task)
    (hfits : task.phase.isFirst = true → ∀ other ∈ s.tasks, other.phase.isUnderWay = true →
      ¬ Conflict task.transaction other.transaction) :
    Invariant start
      { s with tasks := s.tasks.set place { task with phase := task.next s.committed } } := by
  refine h.set htask ?_ (next_progresses hids (h.progress place task htask))
  intro hnext i other hi hother hotherUnder
  rcases isUnderWay_next hnext with hunderWay | hfirst
  · exact h.apart place i task other htask hother (Ne.symm hi) hunderWay hotherUnder
  · exact hfits hfirst other (List.mem_of_getElem? hother) hotherUnder

theorem Invariant.step {a : Step labels} (hids : (labels.map Label.id).Nodup)
    (h : Invariant start s) (hfits : Fits backend s a) : Invariant start (step backend s a) := by
  cases a with
  | arrive transaction => exact h.arrive transaction
  | rollBack place =>
    simp only [IssueLabels.step]
    split
    · exact h
    · rename_i task htask
      split
      · exact h.set htask (fun hunderWay => by cases hunderWay) fun hunderWay => by cases hunderWay
      · exact h
  | advance place =>
    simp only [IssueLabels.step]
    split
    · exact h
    · rename_i task htask
      split
      · rename_i writes hphase
        exact h.commit hids htask hphase
      · split
        · exact h
        · rename_i hwaits
          exact h.advance hids htask fun hfirst =>
            hfits task htask hfirst (Bool.eq_false_of_not_eq_true hwaits)

/-- Where no transaction begins while one is under way that conflicts with it, no two labels of the
issue share a scope, and each scope holds the label that was applied last and not removed later. -/
theorem one_per_scope_of_fits (hids : (labels.map Label.id).Nodup)
    (hstart : OnePerScope labels start) {steps : List (Step labels)}
    (hfits : Throughout (step backend) (Fits backend) ⟨start, [], []⟩ steps) :
    Exclusive start (run (step backend) ⟨start, [], []⟩ steps) := by
  have hinitial : Invariant start (⟨start, [], []⟩ : State labels) := by
    refine ⟨fun label _ => lastApplied_nil.symm, ?_, ?_⟩
    · intro i j task other htask
      simp at htask
    · intro i task htask
      simp at htask
  have hrun := Runs.invariant (fun _ _ h hfit => Invariant.step hids h hfit) hinitial hfits
  refine ⟨?_, fun _ => hrun.last⟩
  intro a ha b hb hamem hbmem hscope
  have hbscope : (scopeOf b.name).isSome := hscope.symm.1
  have hlastA := (hrun.last ⟨a, ha⟩ hscope.1).1 hamem
  have hlastB := (hrun.last ⟨b, hb⟩ hbscope).1 hbmem
  exact congrArg Subtype.val (lastApplied_unique hstart hlastA hlastB hscope)

end Runs

/-! ## Two priorities -/

/-- Labels of a repository, of one scope. -/
def priorities : List Label :=
  [⟨1, 10, "priority/low", "cccccc", none, none⟩, ⟨2, 10, "priority/high", "ff0000", none, none⟩]

def low : { label // label ∈ priorities } := ⟨_, List.mem_cons_self⟩

def high : { label // label ∈ priorities } := ⟨_, List.mem_cons_of_mem _ List.mem_cons_self⟩

/-- Both applications read before one of them commits. -/
def readTogether : List (Step priorities) :=
  [.arrive (.apply low), .arrive (.apply high), .advance 0, .advance 1, .advance 0, .advance 0,
    .advance 1, .advance 1]

/-- Applications that read the labels together leave the issue with two priorities. -/
theorem both_priorities_are_applied :
    ¬ Exclusive ∅ (run (step .postgres) ⟨∅, [], []⟩ readTogether) ∧
      ¬ Exclusive ∅ (run (step .mySql) ⟨∅, [], []⟩ readTogether) := by
  constructor
  · intro h
    have hone := h.one low.val low.property high.val high.property
    revert hone
    decide +kernel
  · intro h
    have hone := h.one low.val low.property high.val high.property
    revert hone
    decide +kernel

/-- One application after the other, with a removal that waits for it. -/
def inTurn : List (Step priorities) :=
  [.arrive (.apply low), .advance 0, .advance 0, .advance 0, .arrive (.apply high),
    .arrive (.remove 1), .advance 1, .advance 1, .advance 2, .advance 1, .advance 1, .advance 2,
    .advance 2]

theorem exclusive_of_transactions_in_turn :
    Exclusive ∅ (run (step .postgres) ⟨∅, [], []⟩ inTurn) :=
  one_per_scope_of_fits (by decide) (by simp [OnePerScope]) (by decide +kernel)

end Edda.Db.IssueLabels
