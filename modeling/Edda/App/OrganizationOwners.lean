import Edda.Domain.Access
import Edda.Domain.Validation
import Edda.Support.Runs
import Edda.Support.RustText
import Edda.Support.Table

/-!
# The owners of an organization

An organization is inserted together with its Owners team and a first member, in one transaction.
Who may change the members of its teams is looked up before the change, and the change itself
removes a row whoever else is in the team; the deletion of an account removes its memberships.

`ownersRemain_iff` says in which runs every Owners team has a member.
-/

set_option autoImplicit false

namespace Edda.App.OrganizationOwners

open Edda.Domain Edda.Domain.Validation Edda.Support Edda.Support.RustText

abbrev OrganizationId := BitVec 128

abbrev TeamId := BitVec 128

structure User where
  id : UserId
  username : String
  deriving DecidableEq, Repr

structure Organization where
  id : OrganizationId
  name : String
  deriving DecidableEq, Repr

structure Team where
  id : TeamId
  organizationId : OrganizationId
  name : String
  deriving DecidableEq, Repr

/-- A row of `team_members`. -/
structure Member where
  teamId : TeamId
  userId : UserId
  deriving DecidableEq, Repr

inductive Change where
  | add
  | remove
  deriving DecidableEq, Repr

/-- `TeamService::add_member` and `TeamService::remove_member`. -/
structure MemberRequest where
  orgName : String
  teamName : String
  username : String
  change : Change
  deriving DecidableEq, Repr

inductive Request where
  | createTeam (orgName teamName : String)
  | member (request : MemberRequest)
  deriving DecidableEq, Repr

def Request.orgName : Request → String
  | .createTeam orgName _ => orgName
  | .member request => request.orgName

/-- A request by the statement that it makes next. -/
inductive Task where
  | organizationByName (actor : ActorContext) (request : Request)
  | checkAdministerOrganization (actor : ActorContext) (request : Request)
      (organizationId : OrganizationId)
  | insertTeam (organizationId : OrganizationId) (name : String)
  | findTeamOrganization (request : MemberRequest)
  | findTeam (request : MemberRequest) (organizationId : OrganizationId)
  | findMember (request : MemberRequest) (teamId : TeamId)
  | addMember (member : Member)
  | removeMember (member : Member)
  | findUsername (name : String) (creatingUserId : UserId)
  | insertOrganization (name : String) (creatingUserId : UserId)
  | countOwned (id : UserId)
  | deleteUser (id : UserId)
  | finished
  deriving DecidableEq, Repr

structure State where
  users : List User
  organizations : List Organization
  teams : List Team
  members : List Member
  tasks : List Task

def State.set (s : State) (place : Nat) (task : Task) : State :=
  { s with tasks := s.tasks.set place task }

def State.start (s : State) (task : Task) : State := { s with tasks := s.tasks ++ [task] }

/-- What a statement brings from outside: new ids, and how many repositories an account owns. -/
structure Drawn where
  id : BitVec 128
  teamId : TeamId
  owned : Nat
  deriving DecidableEq, Repr

section Steps

-- how the database folds a name of a user or an organization before it compares it
variable (fold : String → String)

def findUser (s : State) (username : String) : Option User :=
  s.users.find? fun user => fold user.username = fold username

def findOrganization (s : State) (name : String) : Option Organization :=
  s.organizations.find? fun organization => fold organization.name = fold name

def findByOrgAndName (s : State) (organizationId : OrganizationId) (name : String) : Option Team :=
  s.teams.find? fun team => team.organizationId = organizationId ∧ team.name = name

def teamsForUserInOrganization (s : State) (organizationId : OrganizationId) (userId : UserId) :
    List Team :=
  s.teams.filter fun team => team.organizationId = organizationId ∧ ⟨team.id, userId⟩ ∈ s.members

/-- `AuthorizationService::check_administer_organization`. -/
def checkAdministerOrganization (s : State) (actor : ActorContext)
    (organizationId : OrganizationId) : Except AuthzError Unit :=
  match actor.userId with
  | none => .error .notFound
  | some userId =>
    if (teamsForUserInOrganization s organizationId userId).any (·.name = "Owners") then .ok ()
    else .error .forbidden

/-- The primary key and the index of `teams` refuse a team. -/
def State.TeamTaken (s : State) (id : TeamId) (organizationId : OrganizationId) (name : String) :
    Prop :=
  ∃ team ∈ s.teams, team.id = id ∨ (team.organizationId = organizationId ∧ team.name = name)

instance (s : State) (id : TeamId) (organizationId : OrganizationId) (name : String) :
    Decidable (s.TeamTaken id organizationId name) :=
  inferInstanceAs (Decidable (∃ _ ∈ _, _))

def insertUser (s : State) (id : UserId) (username : String) : State :=
  if (findUser fold s username).isSome ∨ id ∈ s.users.map User.id then s
  else { s with users := s.users ++ [⟨id, username⟩] }

def insertTeam (s : State) (id : TeamId) (organizationId : OrganizationId) (name : String) :
    State :=
  if s.TeamTaken id organizationId name ∨ organizationId ∉ s.organizations.map Organization.id then
    s
  else { s with teams := s.teams ++ [⟨id, organizationId, name⟩] }

/-- `OrganizationRepo::insert`: the organization, its Owners team and the first member, or none of
them. -/
def insertOrganization (s : State) (id : OrganizationId) (ownersTeamId : TeamId) (name : String)
    (creatingUserId : UserId) : State :=
  if (findOrganization fold s name).isSome ∨ id ∈ s.organizations.map Organization.id ∨
      s.TeamTaken ownersTeamId id "Owners" ∨ creatingUserId ∉ s.users.map User.id then s
  else { s with
    organizations := s.organizations ++ [⟨id, name⟩]
    teams := s.teams ++ [⟨ownersTeamId, id, "Owners"⟩]
    members := s.members ++ [⟨ownersTeamId, creatingUserId⟩] }

/-- `TeamMemberRepo::add`. -/
def addMember (s : State) (member : Member) : State :=
  if member ∈ s.members ∨ member.teamId ∉ s.teams.map Team.id ∨
      member.userId ∉ s.users.map User.id then s
  else { s with members := s.members ++ [member] }

def State.keepMembers (s : State) (keep : Member → Bool) : State :=
  { s with members := s.members.filter keep }

/-- `TeamMemberRepo::remove`. -/
def removeMember (s : State) (member : Member) : State := s.keepMembers fun other => other ≠ member

/-- The deletion of an account cascades to its memberships. -/
def deleteUser (s : State) (id : UserId) : State :=
  { s.keepMembers (fun member => member.userId ≠ id) with
    users := s.users.filter fun user => user.id ≠ id }

/-- The next statement of a request. -/
def proceed (s : State) (place : Nat) (drawn : Drawn) : Task → State
  | .organizationByName actor request => match findOrganization fold s request.orgName with
    | none => s.set place .finished
    | some organization => s.set place (.checkAdministerOrganization actor request organization.id)
  | .checkAdministerOrganization actor request organizationId =>
    match checkAdministerOrganization s actor organizationId with
    | .error _ => s.set place .finished
    | .ok () => match request with
      | .createTeam _ teamName => s.set place (.insertTeam organizationId teamName)
      -- the organization is looked up once more to find the team
      | .member request => s.set place (.findTeamOrganization request)
  | .insertTeam organizationId name =>
    (insertTeam s drawn.teamId organizationId name).set place .finished
  | .findTeamOrganization request => match findOrganization fold s request.orgName with
    | none => s.set place .finished
    | some organization => s.set place (.findTeam request organization.id)
  | .findTeam request organizationId => match findByOrgAndName s organizationId request.teamName with
    | none => s.set place .finished
    | some team => s.set place (.findMember request team.id)
  | .findMember request teamId => match findUser fold s request.username with
    | none => s.set place .finished
    | some user => match request.change with
      | .add => s.set place (.addMember ⟨teamId, user.id⟩)
      | .remove => s.set place (.removeMember ⟨teamId, user.id⟩)
  | .addMember member => (addMember s member).set place .finished
  | .removeMember member => (removeMember s member).set place .finished
  | .findUsername name creatingUserId => match findUser fold s name with
    | some _ => s.set place .finished
    | none => s.set place (.insertOrganization name creatingUserId)
  | .insertOrganization name creatingUserId =>
    (insertOrganization fold s drawn.id drawn.teamId name creatingUserId).set place .finished
  | .countOwned id =>
    if 0 < drawn.owned then s.set place .finished else s.set place (.deleteUser id)
  | .deleteUser id => (deleteUser s id).set place .finished
  | .finished => s

/-- The steps that name a task do so by its place. -/
inductive Step where
  | signup (id : UserId) (username : String)
  | createOrganization (actor : ActorContext) (name : String)
  | request (actor : ActorContext) (request : Request)
  | deleteUser (id : UserId)
  | proceed (place : Nat) (drawn : Drawn)
  | fails (place : Nat)
  deriving DecidableEq, Repr

def step (s : State) : Step → State
  | .signup id username => insertUser fold s id username
  | .createOrganization actor name => match actor.userId with
    | none => s
    | some userId =>
      let name := String.ofList (trim name.toList)
      if isValidUsername name then s.start (.findUsername name userId) else s
  | .request actor request => s.start (.organizationByName actor request)
  -- an administrator asks for it
  | .deleteUser id => s.start (.countOwned id)
  | .proceed place drawn => match s.tasks[place]? with
    | none => s
    | some task => proceed fold s place drawn task
  | .fails place => s.set place .finished

/-! ## What has to hold -/

/-- The Owners team of an organization. -/
def State.OwnersTeam (s : State) (organizationId : OrganizationId) (teamId : TeamId) : Prop :=
  ⟨teamId, organizationId, "Owners"⟩ ∈ s.teams

instance (s : State) (organizationId : OrganizationId) (teamId : TeamId) :
    Decidable (s.OwnersTeam organizationId teamId) :=
  inferInstanceAs (Decidable (_ ∈ _))

/-- The Owners team of each organization has a member. -/
def OwnersRemain (s : State) : Prop :=
  ∀ organization ∈ s.organizations,
    ∃ member ∈ s.members, s.OwnersTeam organization.id member.teamId

instance (s : State) : Decidable (OwnersRemain s) :=
  inferInstanceAs (Decidable (∀ _ ∈ _, ∃ _ ∈ _, _))

/-- The index of `teams`. -/
def State.TeamNames (s : State) : Prop :=
  Table.Keyed (fun team : Team => (team.organizationId, team.name)) s.teams

instance (s : State) : Decidable s.TeamNames := inferInstanceAs (Decidable (Table.Keyed _ _))

/-- The team has a member other than the account. -/
def State.HasOther (s : State) (teamId : TeamId) (userId : UserId) : Prop :=
  ∃ member ∈ s.members, member.teamId = teamId ∧ member.userId ≠ userId

instance (s : State) (teamId : TeamId) (userId : UserId) : Decidable (s.HasOther teamId userId) :=
  inferInstanceAs (Decidable (∃ _ ∈ _, _))

/-- Whoever is removed from an Owners team, or deleted, is not its only member. -/
def TaskFits (s : State) : Task → Prop
  | .removeMember member => ∀ organization ∈ s.organizations,
    s.OwnersTeam organization.id member.teamId → s.HasOther member.teamId member.userId
  | .deleteUser id => ∀ organization ∈ s.organizations, ∀ team ∈ s.teams,
    s.OwnersTeam organization.id team.id → s.HasOther team.id id
  | _ => True

def StepFits (s : State) : Step → Prop
  | .proceed place _ => ∀ task, s.tasks[place]? = some task → TaskFits s task
  | _ => True

instance decidableTaskFits (s : State) : (task : Task) → Decidable (TaskFits s task)
  | .removeMember _ => inferInstanceAs (Decidable (∀ _ ∈ _, _))
  | .deleteUser _ => inferInstanceAs (Decidable (∀ _ ∈ _, ∀ _ ∈ _, _))
  | .organizationByName _ _ => isTrue trivial
  | .checkAdministerOrganization _ _ _ => isTrue trivial
  | .insertTeam _ _ => isTrue trivial
  | .findTeamOrganization _ => isTrue trivial
  | .findTeam _ _ => isTrue trivial
  | .findMember _ _ => isTrue trivial
  | .addMember _ => isTrue trivial
  | .findUsername _ _ => isTrue trivial
  | .insertOrganization _ _ => isTrue trivial
  | .countOwned _ => isTrue trivial
  | .finished => isTrue trivial

instance decidableStepFits (s : State) : (a : Step) → Decidable (StepFits s a)
  | .proceed place _ => inferInstanceAs (Decidable (∀ task ∈ s.tasks[place]?, TaskFits s task))
  | .signup _ _ => isTrue trivial
  | .createOrganization _ _ => isTrue trivial
  | .request _ _ => isTrue trivial
  | .deleteUser _ => isTrue trivial
  | .fails _ => isTrue trivial

end Steps

/-! ## What the statements keep -/

section Statements

variable {fold : String → String} {s : State}

/-- An organization has one Owners team. -/
theorem State.TeamNames.unique (hnames : s.TeamNames) {organizationId : OrganizationId}
    {teamId otherId : TeamId} (hteam : s.OwnersTeam organizationId teamId)
    (hother : s.OwnersTeam organizationId otherId) : teamId = otherId :=
  congrArg Team.id (List.inj_on_of_nodup_map hnames hteam hother rfl)

/-- What has more teams and members has an owner wherever there was one. -/
theorem OwnersRemain.mono {s' : State} (hteams : ∀ team ∈ s.teams, team ∈ s'.teams)
    (hmembers : ∀ member ∈ s.members, member ∈ s'.members) {organization : Organization}
    (h : ∃ member ∈ s.members, s.OwnersTeam organization.id member.teamId) :
    ∃ member ∈ s'.members, s'.OwnersTeam organization.id member.teamId := by
  obtain ⟨member, hmember, hteam⟩ := h
  exact ⟨member, hmembers member hmember, hteams _ hteam⟩

/-- Removing members leaves an owner everywhere exactly when it leaves each Owners team a member. -/
theorem ownersRemain_keepMembers (hnames : s.TeamNames) (hremain : OwnersRemain s)
    (keep : Member → Bool) :
    OwnersRemain (s.keepMembers keep) ↔
      ∀ organization ∈ s.organizations, ∀ teamId, s.OwnersTeam organization.id teamId →
        ∃ member ∈ s.members, member.teamId = teamId ∧ keep member = true := by
  constructor
  · intro hafter organization horganization teamId hteam
    obtain ⟨member, hmember, hother⟩ := hafter organization horganization
    obtain ⟨hmember, hkeep⟩ := List.mem_filter.1 hmember
    exact ⟨member, hmember, hnames.unique hother hteam, hkeep⟩
  · intro h organization horganization
    obtain ⟨owner, _, hteam⟩ := hremain organization horganization
    obtain ⟨member, hmember, hsame, hkeep⟩ := h organization horganization owner.teamId hteam
    exact ⟨member, List.mem_filter.2 ⟨hmember, hkeep⟩, hsame ▸ hteam⟩

theorem ownersRemain_removeMember (hnames : s.TeamNames) (hremain : OwnersRemain s)
    (member : Member) : OwnersRemain (removeMember s member) ↔ TaskFits s (.removeMember member) := by
  rw [removeMember, ownersRemain_keepMembers hnames hremain]
  simp only [decide_eq_true_eq, TaskFits, State.HasOther]
  constructor
  · intro h organization horganization hteam
    obtain ⟨other, hother, hsame, hne⟩ := h organization horganization member.teamId hteam
    refine ⟨other, hother, hsame, fun huser => hne ?_⟩
    cases other
    cases member
    simp_all
  · intro h organization horganization teamId hteam
    by_cases hhere : teamId = member.teamId
    · subst hhere
      obtain ⟨other, hother, hsame, hne⟩ := h organization horganization hteam
      exact ⟨other, hother, hsame, fun heq => hne (congrArg Member.userId heq)⟩
    · -- another team keeps the member it had
      obtain ⟨owner, howner, hother⟩ := hremain organization horganization
      have hsame := hnames.unique hother hteam
      exact ⟨owner, howner, hsame, fun heq => hhere (hsame ▸ congrArg Member.teamId heq)⟩

theorem ownersRemain_deleteUser (hnames : s.TeamNames) (hremain : OwnersRemain s) (id : UserId) :
    OwnersRemain (deleteUser s id) ↔ TaskFits s (.deleteUser id) := by
  have hkeep : OwnersRemain (deleteUser s id) ↔
      OwnersRemain (s.keepMembers fun member => member.userId ≠ id) := Iff.rfl
  rw [hkeep, ownersRemain_keepMembers hnames hremain]
  simp only [decide_eq_true_eq, TaskFits, State.HasOther]
  constructor
  · intro h organization horganization team _ hteam
    exact h organization horganization team.id hteam
  · intro h organization horganization teamId hteam
    exact h organization horganization _ hteam hteam

theorem ownersRemain_insertTeam (hremain : OwnersRemain s) (id : TeamId)
    (organizationId : OrganizationId) (name : String) :
    OwnersRemain (insertTeam s id organizationId name) := by
  rw [insertTeam]
  split
  · exact hremain
  · intro organization horganization
    apply OwnersRemain.mono (s := s)
    · exact fun _ => List.mem_append_left _
    · exact fun _ hmember => hmember
    · exact hremain organization horganization

theorem ownersRemain_addMember (hremain : OwnersRemain s) (member : Member) :
    OwnersRemain (addMember s member) := by
  rw [addMember]
  split
  · exact hremain
  · intro organization horganization
    apply OwnersRemain.mono (s := s)
    · exact fun _ hteam => hteam
    · exact fun _ => List.mem_append_left _
    · exact hremain organization horganization

/-- A new organization has its creator for an owner. -/
theorem ownersRemain_insertOrganization (hremain : OwnersRemain s) (id : OrganizationId)
    (ownersTeamId : TeamId) (name : String) (creatingUserId : UserId) :
    OwnersRemain (insertOrganization fold s id ownersTeamId name creatingUserId) := by
  rw [insertOrganization]
  split
  · exact hremain
  · intro organization horganization
    rcases List.mem_append.1 horganization with hold | hnew
    · apply OwnersRemain.mono (s := s)
      · exact fun _ => List.mem_append_left _
      · exact fun _ => List.mem_append_left _
      · exact hremain organization hold
    · obtain rfl := List.mem_singleton.1 hnew
      exact ⟨⟨ownersTeamId, creatingUserId⟩, List.mem_append_right _ (List.mem_singleton.2 rfl),
        List.mem_append_right _ (List.mem_singleton.2 rfl)⟩

/-- A team that the table does not refuse has a new name in its organization. -/
theorem teamNames_append (hnames : s.TeamNames) {id : TeamId} {organizationId : OrganizationId}
    {name : String} (hfree : ¬ s.TeamTaken id organizationId name) :
    Table.Keyed (fun team : Team => (team.organizationId, team.name))
      (s.teams ++ [⟨id, organizationId, name⟩]) := by
  apply Table.Keyed.append hnames
  intro hmem
  obtain ⟨team, hteam, hsame⟩ := List.mem_map.1 hmem
  exact hfree ⟨team, hteam, .inr (Prod.mk.inj hsame)⟩

/-- The statements that look something up. -/
def Task.Reads : Task → Prop
  | .insertTeam _ _ | .insertOrganization _ _ | .addMember _ | .removeMember _ | .deleteUser _ =>
    False
  | _ => True

/-- A statement that looks something up leaves the tables as they are. -/
theorem proceed_reads (place : Nat) (drawn : Drawn) {task : Task} (hreads : task.Reads) :
    ∃ tasks, proceed fold s place drawn task = { s with tasks := tasks } := by
  cases task with
  | insertTeam organizationId name => exact hreads.elim
  | insertOrganization name creatingUserId => exact hreads.elim
  | addMember member => exact hreads.elim
  | removeMember member => exact hreads.elim
  | deleteUser id => exact hreads.elim
  | finished => exact ⟨s.tasks, rfl⟩
  | organizationByName actor request =>
    simp only [proceed]
    split <;> exact ⟨_, rfl⟩
  | checkAdministerOrganization actor request organizationId =>
    simp only [proceed]
    split
    · exact ⟨_, rfl⟩
    · cases request <;> exact ⟨_, rfl⟩
  | findTeamOrganization request =>
    simp only [proceed]
    split <;> exact ⟨_, rfl⟩
  | findTeam request organizationId =>
    simp only [proceed]
    split <;> exact ⟨_, rfl⟩
  | findMember request teamId =>
    simp only [proceed]
    split
    · exact ⟨_, rfl⟩
    · split <;> exact ⟨_, rfl⟩
  | findUsername name creatingUserId =>
    simp only [proceed]
    split <;> exact ⟨_, rfl⟩
  | countOwned id =>
    simp only [proceed]
    split <;> exact ⟨_, rfl⟩

/-- A statement changes no other team names than those it inserts. -/
theorem teamNames_proceed (hnames : s.TeamNames) (place : Nat) (drawn : Drawn) (task : Task) :
    (proceed fold s place drawn task).TeamNames := by
  have hreads (hreads : task.Reads) : (proceed fold s place drawn task).TeamNames := by
    obtain ⟨tasks, htasks⟩ := proceed_reads place drawn hreads
    rw [htasks]
    exact hnames
  cases task with
  | insertTeam organizationId name =>
    simp only [proceed, insertTeam]
    split
    · exact hnames
    · rename_i hfree
      exact teamNames_append hnames fun htaken => hfree (.inl htaken)
  | insertOrganization name creatingUserId =>
    simp only [proceed, insertOrganization]
    split
    · exact hnames
    · rename_i hfree
      exact teamNames_append hnames fun htaken => hfree (.inr (.inr (.inl htaken)))
  | addMember member =>
    simp only [proceed, addMember]
    split <;> exact hnames
  | removeMember member => exact hnames
  | deleteUser id => exact hnames
  | _ => exact hreads trivial

/-- A statement leaves an owner everywhere exactly when it fits. -/
theorem ownersRemain_proceed (hnames : s.TeamNames) (hremain : OwnersRemain s) (place : Nat)
    (drawn : Drawn) (task : Task) :
    OwnersRemain (proceed fold s place drawn task) ↔ TaskFits s task := by
  have hreads (hreads : task.Reads) : OwnersRemain (proceed fold s place drawn task) := by
    obtain ⟨tasks, htasks⟩ := proceed_reads place drawn hreads
    rw [htasks]
    exact hremain
  cases task with
  | removeMember member => exact ownersRemain_removeMember hnames hremain member
  | deleteUser id => exact ownersRemain_deleteUser hnames hremain id
  | insertTeam organizationId name =>
    exact iff_of_true (ownersRemain_insertTeam hremain _ _ _) trivial
  | insertOrganization name creatingUserId =>
    exact iff_of_true (ownersRemain_insertOrganization hremain _ _ _ _) trivial
  | addMember member => exact iff_of_true (ownersRemain_addMember hremain member) trivial
  | _ => exact iff_of_true (hreads trivial) trivial

theorem teamNames_step (hnames : s.TeamNames) (a : Step) : (step fold s a).TeamNames := by
  cases a with
  | signup id username =>
    simp only [step, insertUser]
    split <;> exact hnames
  | createOrganization actor name =>
    simp only [step]
    split
    · exact hnames
    · split <;> exact hnames
  | proceed place drawn =>
    simp only [step]
    split
    · exact hnames
    · exact teamNames_proceed hnames place drawn _
  | request actor request => exact hnames
  | deleteUser id => exact hnames
  | fails place => exact hnames

/-- So does a step. -/
theorem ownersRemain_step (hnames : s.TeamNames) (hremain : OwnersRemain s) (a : Step) :
    OwnersRemain (step fold s a) ↔ StepFits s a := by
  cases a with
  | signup id username =>
    refine iff_of_true ?_ trivial
    simp only [step, insertUser]
    split <;> exact hremain
  | createOrganization actor name =>
    refine iff_of_true ?_ trivial
    simp only [step]
    split
    · exact hremain
    · split <;> exact hremain
  | proceed place drawn =>
    simp only [step, StepFits]
    cases htask : s.tasks[place]? with
    | none => exact iff_of_true hremain nofun
    | some task =>
      simp only [Option.some.injEq, forall_eq']
      exact ownersRemain_proceed hnames hremain place drawn task
  | request actor request => exact iff_of_true hremain trivial
  | deleteUser id => exact iff_of_true hremain trivial
  | fails place => exact iff_of_true hremain trivial

end Statements

/-- In a run that starts with an owner in every organization, every organization keeps one exactly
when nobody is removed from an Owners team, or deleted, as its only member. -/
theorem ownersRemain_iff (fold : String → String) (start : State) (steps : List Step)
    (hnames : start.TeamNames) (hstart : OwnersRemain start) :
    (∀ earlier later, steps = earlier ++ later →
        OwnersRemain (Runs.run (step fold) start earlier)) ↔
      Runs.Throughout (step fold) StepFits start steps := by
  apply Runs.always_iff_throughout (I := State.TeamNames)
  · intro s a hnames _ _
    exact teamNames_step hnames a
  · intro s a hnames hbefore
    exact ownersRemain_step hnames hbefore a
  · exact hnames
  · exact hstart

/-! ### An organization without an owner -/

/-- Ada and Bob, and nothing else. -/
def adaAndBob : State := ⟨[⟨1, "ada"⟩, ⟨2, "bob"⟩], [], [], [], []⟩

def proceedTimes (place times : Nat) : List Step := List.replicate times (.proceed place ⟨7, 8, 0⟩)

def changeOwner (username : String) (change : Change) : Request :=
  .member ⟨"acme", "Owners", username, change⟩

/-- Ada creates an organization. -/
def createAcme : List Step := .createOrganization (.user 1) "acme" :: proceedTimes 0 2

/-- Ada removes herself. -/
def adaLeaves : List Step :=
  createAcme ++ .request (.user 1) (changeOwner "ada" .remove) :: proceedTimes 1 6

/-- Bob is made an owner. -/
def bobJoins : List Step :=
  createAcme ++ .request (.user 1) (changeOwner "bob" .add) :: proceedTimes 1 6

/-- Each of the two is allowed to remove the other one before either has done so. -/
def eachRemovesTheOther : List Step :=
  bobJoins ++ [.request (.user 1) (changeOwner "bob" .remove),
    .request (.user 2) (changeOwner "ada" .remove)] ++
    proceedTimes 2 5 ++ proceedTimes 3 5 ++ proceedTimes 2 1 ++ proceedTimes 3 1

/-- An administrator deletes the account of the only owner. -/
def adaIsDeleted : List Step := createAcme ++ .deleteUser 1 :: proceedTimes 1 2

theorem owners_are_lost :
    OwnersRemain (Runs.run (step id) adaAndBob bobJoins) ∧
      ¬ OwnersRemain (Runs.run (step id) adaAndBob adaLeaves) ∧
      ¬ OwnersRemain (Runs.run (step id) adaAndBob eachRemovesTheOther) ∧
      ¬ OwnersRemain (Runs.run (step id) adaAndBob adaIsDeleted) := by
  refine ⟨?_, ?_, ?_, ?_⟩ <;> decide +kernel

/-- Ada leaves once Bob is an owner too. -/
def adaHandsOver : List Step :=
  bobJoins ++ .request (.user 1) (changeOwner "ada" .remove) :: proceedTimes 2 6

theorem ownersRemain_adaHandsOver :
    (Runs.run (step id) adaAndBob adaHandsOver).members = [⟨8, 2⟩] ∧
      ∀ earlier later, adaHandsOver = earlier ++ later →
        OwnersRemain (Runs.run (step id) adaAndBob earlier) :=
  ⟨by decide +kernel,
    (ownersRemain_iff id adaAndBob adaHandsOver (by decide) (by decide)).2 (by decide +kernel)⟩

end Edda.App.OrganizationOwners
