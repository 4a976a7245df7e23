import Edda.Domain.Access
import Edda.Domain.Validation
import Edda.Support.Runs
import Edda.Support.RustText
import Edda.Support.Table
import Edda.Support.Tasks

/-!
# The names of owners

Users and organizations share one namespace. Each table has an index of its own that keeps its names
apart; that no user is named like an organization is looked up before an insert, in a statement of
its own, and not at all for an account that an external provider creates.

`ownersDistinct_iff` says in which runs every name has at most one owner.
-/

set_option autoImplicit false

namespace Edda.Auth.OwnerNames

open Edda.Domain Edda.Domain.Validation Edda.Support Edda.Support.RustText

abbrev OrganizationId := BitVec 128

structure User where
  id : UserId
  username : String
  deriving DecidableEq, Repr

structure Organization where
  id : OrganizationId
  name : String
  deriving DecidableEq, Repr

inductive Owner where
  | user (id : UserId)
  | organization (id : OrganizationId)
  deriving DecidableEq, Repr

/-- A sign-up or the creation of an organization, by the statement it makes next. -/
inductive Task where
  | findOrganization (username : String)
  | insertUser (username : String)
  | findUser (name : String)
  | insertOrganization (name : String)
  | finished
  deriving DecidableEq, Repr

structure State where
  users : List User
  organizations : List Organization
  tasks : List Task

def State.set (s : State) (place : Nat) (task : Task) : State :=
  { s with tasks := s.tasks.set place task }

/-- `derive_username_from_email`; the suffix is drawn. -/
def deriveUsername (email suffix : String) : String :=
  let localPart := email.toList.takeWhile (· ≠ '@')
  String.ofList (localPart.map fun c => if isAsciiAlphanumeric c then c else '_') ++ "_" ++ suffix

section Steps

-- how the database folds a name before it compares it
variable (fold : String → String)

def findUser (s : State) (name : String) : Option User :=
  s.users.find? fun user => fold user.username = fold name

def findOrganization (s : State) (name : String) : Option Organization :=
  s.organizations.find? fun organization => fold organization.name = fold name

/-- `RepositoryRepo::resolve_owner`. -/
def resolveOwner (s : State) (name : String) : Option Owner :=
  match findUser fold s name with
  | some user => some (.user user.id)
  | none => (findOrganization fold s name).map fun organization => .organization organization.id

/-- The index of `users` refuses a name that it has. -/
def insertUser (s : State) (id : UserId) (username : String) : State :=
  if (findUser fold s username).isSome then s else { s with users := s.users ++ [⟨id, username⟩] }

def insertOrganization (s : State) (id : OrganizationId) (name : String) : State :=
  if (findOrganization fold s name).isSome then s
  else { s with organizations := s.organizations ++ [⟨id, name⟩] }

/-- The next statement of a task; an id is drawn for it. -/
def proceed (s : State) (place : Nat) (drawn : BitVec 128) : Task → State
  | .findOrganization username => match findOrganization fold s username with
    | some _ => s.set place .finished
    | none => s.set place (.insertUser username)
  | .insertUser username => (insertUser fold s drawn username).set place .finished
  | .findUser name => match findUser fold s name with
    | some _ => s.set place .finished
    | none => s.set place (.insertOrganization name)
  | .insertOrganization name => (insertOrganization fold s drawn name).set place .finished
  | .finished => s

/-- The steps that name a task do so by its place. -/
inductive Step where
  | signup (username : String)
  | completeOAuth (email suffix : String)
  | createOrganization (name : String)
  | proceed (place : Nat) (drawn : BitVec 128)
  | fails (place : Nat)
  deriving DecidableEq, Repr

def State.start (s : State) (task : Task) : State := { s with tasks := s.tasks ++ [task] }

def step (s : State) : Step → State
  | .signup username =>
    let username := String.ofList (trim username.toList)
    if isValidUsername username then s.start (.findOrganization username) else s
  -- the organizations are not looked at
  | .completeOAuth email suffix => s.start (.insertUser (deriveUsername email suffix))
  | .createOrganization name =>
    let name := String.ofList (trim name.toList)
    if isValidUsername name then s.start (.findUser name) else s
  | .proceed place drawn => match s.tasks[place]? with
    | none => s
    | some task => proceed fold s place drawn task
  | .fails place => s.set place .finished

/-! ## What has to hold -/

/-- The names that are taken, as the database compares them. -/
def State.names (s : State) : List String :=
  s.users.map (fun user => fold user.username) ++
    s.organizations.map fun organization => fold organization.name

/-- Everybody who goes by a name. -/
def State.owners (s : State) (name : String) : List Owner :=
  (s.users.filter fun user => fold user.username = fold name).map (fun user => .user user.id) ++
    (s.organizations.filter fun organization => fold organization.name = fold name).map
      fun organization => .organization organization.id

/-- No two names are the same, and a name resolves to the one owner that it has. -/
structure OwnersDistinct (s : State) : Prop where
  names : (s.names fold).Nodup
  owners : ∀ name, s.owners fold name = (resolveOwner fold s name).toList

/-- A name that is inserted into one table, and that the table does not have, is not in the other
one either. -/
def TaskFits (s : State) : Task → Prop
  | .insertUser username => (findUser fold s username).isSome = true ∨
    (findOrganization fold s username).isSome = false
  | .insertOrganization name => (findOrganization fold s name).isSome = true ∨
    (findUser fold s name).isSome = false
  | _ => True

def StepFits (s : State) : Step → Prop
  | .proceed place _ => ∀ task, s.tasks[place]? = some task → TaskFits fold s task
  | _ => True

instance decidableTaskFits (s : State) : (task : Task) → Decidable (TaskFits fold s task)
  | .insertUser _ => inferInstanceAs (Decidable (_ ∨ _))
  | .insertOrganization _ => inferInstanceAs (Decidable (_ ∨ _))
  | .findOrganization _ => isTrue trivial
  | .findUser _ => isTrue trivial
  | .finished => isTrue trivial

instance decidableStepFits (s : State) : (a : Step) → Decidable (StepFits fold s a)
  | .proceed place _ =>
    inferInstanceAs (Decidable (∀ task ∈ s.tasks[place]?, TaskFits fold s task))
  | .signup _ => isTrue trivial
  | .completeOAuth _ _ => isTrue trivial
  | .createOrganization _ => isTrue trivial
  | .fails _ => isTrue trivial

end Steps

/-! ## Names and owners -/

section Names

variable {fold : String → String} {s : State} {name : String}

theorem findUser_eq_none : (findUser fold s name).isSome = false ↔
    fold name ∉ s.users.map fun user => fold user.username := by
  simp [findUser]

theorem findOrganization_eq_none : (findOrganization fold s name).isSome = false ↔
    fold name ∉ s.organizations.map fun organization => fold organization.name := by
  simp [findOrganization]

/-- Where all names differ, a name resolves to whoever goes by it. -/
theorem ownersDistinct_iff_names : OwnersDistinct fold s ↔ (s.names fold).Nodup := by
  refine ⟨OwnersDistinct.names, fun hnames => ⟨hnames, fun name => ?_⟩⟩
  obtain ⟨husers, horganizations, happart⟩ := List.nodup_append.1 hnames
  have huser : s.users.filter (fun user => fold user.username = fold name) =
      (findUser fold s name).toList := Table.filter_eq_lookup husers (fold name)
  have horganization : s.organizations.filter
        (fun organization => fold organization.name = fold name) =
      (findOrganization fold s name).toList := Table.filter_eq_lookup horganizations (fold name)
  rw [State.owners, huser, horganization, resolveOwner]
  cases hfound : findUser fold s name with
  | none => cases findOrganization fold s name <;> rfl
  | some user =>
    -- an organization of the name would share it with the user
    have hnone : findOrganization fold s name = none := by
      rw [← Option.not_isSome_iff_eq_none, Bool.not_eq_true, findOrganization_eq_none]
      intro hmem
      have hname : fold user.username = fold name := by simpa using List.find?_some hfound
      exact happart _ (List.mem_map_of_mem (List.mem_of_find?_eq_some hfound)) _ hmem hname
    rw [hnone]
    rfl

/-- One more name among names that differ. -/
theorem nodup_insert {names others : List String} {new : String} (h : (names ++ others).Nodup) :
    (names ++ new :: others).Nodup ↔ new ∉ names ∧ new ∉ others := by
  rw [List.nodup_middle, List.nodup_cons, List.mem_append, not_or]
  exact and_iff_left h

/-- An insert into one table keeps all names apart where the name is not in the other one. -/
theorem names_insertUser (hnames : (s.names fold).Nodup) (id : UserId) :
    ((insertUser fold s id name).names fold).Nodup ↔ TaskFits fold s (.insertUser name) := by
  simp only [insertUser, TaskFits]
  cases hfound : (findUser fold s name).isSome with
  | true => simpa using hnames
  | false =>
    have hfree := findUser_eq_none.1 hfound
    rw [findOrganization_eq_none]
    simp only [Bool.false_eq_true, if_false, false_or, State.names, List.map_append, List.map_cons,
      List.map_nil, List.append_assoc, List.singleton_append]
    exact (nodup_insert hnames).trans (and_iff_right hfree)

theorem names_insertOrganization (hnames : (s.names fold).Nodup) (id : OrganizationId) :
    ((insertOrganization fold s id name).names fold).Nodup ↔
      TaskFits fold s (.insertOrganization name) := by
  simp only [insertOrganization, TaskFits]
  cases hfound : (findOrganization fold s name).isSome with
  | true => simpa using hnames
  | false =>
    have hfree := findOrganization_eq_none.1 hfound
    rw [findUser_eq_none]
    simp only [Bool.false_eq_true, if_false, false_or, State.names, List.map_append, List.map_cons,
      List.map_nil]
    -- the tables are listed the other way round
    rw [List.nodup_append_comm, List.append_assoc, List.singleton_append]
    have hturned := List.nodup_append_comm.1 hnames
    exact (nodup_insert hturned).trans (and_iff_right hfree)

/-- A step keeps all names apart exactly when it fits. -/
theorem names_step (hnames : (s.names fold).Nodup) (a : Step) :
    ((step fold s a).names fold).Nodup ↔ StepFits fold s a := by
  cases a with
  | signup username =>
    simp only [step]
    split
    · exact iff_of_true hnames trivial
    · exact iff_of_true hnames trivial
  | completeOAuth email suffix => exact iff_of_true hnames trivial
  | createOrganization name =>
    simp only [step]
    split
    · exact iff_of_true hnames trivial
    · exact iff_of_true hnames trivial
  | fails place => exact iff_of_true hnames trivial
  | proceed place drawn =>
    simp only [step, StepFits]
    cases htask : s.tasks[place]? with
    | none => simpa using hnames
    | some task =>
      simp only [Option.some.injEq, forall_eq']
      cases task with
      | findOrganization username =>
        simp only [proceed]
        split
        · exact iff_of_true hnames trivial
        · exact iff_of_true hnames trivial
      | findUser name =>
        simp only [proceed]
        split
        · exact iff_of_true hnames trivial
        · exact iff_of_true hnames trivial
      | insertUser username => exact names_insertUser hnames drawn
      | insertOrganization name => exact names_insertOrganization hnames drawn
      | finished => exact iff_of_true hnames trivial

end Names

/-- In a run that starts with distinct names, they stay distinct, and every name resolves to the one
owner it has, exactly when every insert finds its name free in the other table. -/
theorem ownersDistinct_iff (fold : String → String) (start : State) (steps : List Step)
    (hstart : OwnersDistinct fold start) :
    (∀ earlier later, steps = earlier ++ later →
        OwnersDistinct fold (Runs.run (step fold) start earlier)) ↔
      Runs.Throughout (step fold) (StepFits fold) start steps := by
  have hnames := ownersDistinct_iff_names.1 hstart
  simp only [ownersDistinct_iff_names]
  apply Runs.always_iff_throughout (I := fun _ : State => True)
    (J := fun s : State => (s.names fold).Nodup)
  · exact fun _ _ _ _ _ => trivial
  · intro s a _ hbefore
    exact names_step hbefore a
  · trivial
  · exact hnames

/-! ### A name with two owners -/

/-- `COLLATE NOCASE` folds the letters of ASCII. -/
def noCase (name : String) : String := String.ofList (name.toList.map Char.toLower)

def nobody : State := ⟨[], [], []⟩

/-- A sign-up and the creation of an organization look the name up before either inserts it. -/
def acmeTwice : List Step :=
  [.signup "acme", .createOrganization "ACME", .proceed 0 0, .proceed 1 0, .proceed 0 1,
    .proceed 1 2]

/-- An organization has the name that an external login derives. -/
def derivedName : List Step :=
  [.createOrganization "bob_1a2b3c4d", .proceed 0 0, .proceed 0 1,
    .completeOAuth "bob@edda.dev" "1a2b3c4d", .proceed 1 2]

theorem names_collide :
    ¬ OwnersDistinct noCase (Runs.run (step noCase) nobody acmeTwice) ∧
      ¬ OwnersDistinct noCase (Runs.run (step noCase) nobody derivedName) := by
  have hacme : ¬ ((Runs.run (step noCase) nobody acmeTwice).names noCase).Nodup := by
    decide +kernel
  have hbob : ¬ ((Runs.run (step noCase) nobody derivedName).names noCase).Nodup := by
    decide +kernel
  exact ⟨fun h => hacme h.names, fun h => hbob h.names⟩

/-- A sign-up after the organization is there, and the other way round. -/
def acmeOnce : List Step :=
  [.createOrganization "ACME", .proceed 0 0, .proceed 0 1, .signup "acme", .proceed 1 0,
    .signup "ada", .proceed 2 0, .proceed 2 2, .createOrganization "Ada", .proceed 3 0]

theorem ownersDistinct_acmeOnce :
    resolveOwner noCase (Runs.run (step noCase) nobody acmeOnce) "Acme" =
        some (.organization 1) ∧
      ∀ earlier later, acmeOnce = earlier ++ later →
        OwnersDistinct noCase (Runs.run (step noCase) nobody earlier) :=
  ⟨by decide +kernel,
    (ownersDistinct_iff noCase nobody acmeOnce
      (ownersDistinct_iff_names.2 (by decide))).2 (by decide +kernel)⟩

end Edda.Auth.OwnerNames
