import Edda.App.PullRequestService
import Edda.Support.Fallible
import Edda.Support.Runs
import Edda.Support.Table

/-!
# The access of teams

Attaching a team to a repository grants it the role that its permission for code resolves to then.
The grant is inserted unless there is one, so attaching a team again leaves the grant of the first
time, and a permission that has been lowered or raised since is not picked up.

`team_access_follows_iff` says in which runs the grants are those of the last attachments, and that
access is then what these and the user's own grant say.
-/

set_option autoImplicit false

namespace Edda.App.TeamAccess

open Edda.Domain Edda.Db Edda.Auth Edda.Support Edda.Support.Fallible
open Edda.App (ServiceError)

abbrev OrganizationId := BitVec 128

inductive TeamPermission where
  | none
  | read
  | write
  | admin
  deriving DecidableEq, Repr

def TeamPermission.fromDbStr (value : String) : Option TeamPermission :=
  if value = "none" then some .none
  else if value = "read" then some .read
  else if value = "write" then some .write
  else if value = "admin" then some .admin
  else Option.none

/-- A team is never the owner of a repository that it is attached to. -/
def TeamPermission.asRepoRole : TeamPermission → Option RepoRole
  | .none => Option.none
  | .read => some .read
  | .write => some .write
  | .admin => some .admin

structure Organization where
  id : OrganizationId
  name : String
  deriving DecidableEq, Repr

structure Team where
  id : TeamId
  organizationId : OrganizationId
  name : String
  permission : TeamPermission
  deriving DecidableEq, Repr

/-- The role on a repository that the team is attached to. -/
def Team.codeRole (team : Team) (codeUnitOverride : Option TeamPermission) : Option RepoRole :=
  (codeUnitOverride.getD team.permission).asRepoRole

/-- The tables, with the last attachments. `unitPermissions` has the rows of the unit for code. -/
structure State where
  db : Database
  organizations : List Organization
  teams : List Team
  unitPermissions : List (TeamId × TeamPermission)
  attached : RepositoryId → TeamId → Option RepoRole

inductive Statement where
  | findOrganization
  | teamsForUser
  | findTeamOrganization
  | findTeam
  | findUser
  | findUnitPermission
  | deletePermission
  | insertPermission
  | addMember
  | removeMember
  | grant
  deriving DecidableEq, Repr

inductive Operation where
  | attachToRepo (repoOwner repoName teamOrg teamName : String)
  | setCodePermission (orgName teamName permission : String)
  | addMember (orgName teamName username : String)
  | removeMember (orgName teamName username : String)
  deriving DecidableEq, Repr

/-- A call, with the queries and the statements that fail, with their errors. -/
structure Call where
  actor : ActorContext
  operation : Operation
  failingQuery : Query → Option DbError
  failing : Statement → Option DbError

/-! ## The operations -/

section Operations

variable (sameName : String → String → Bool) (call : Call) (s : State)

/-- The result of a statement, unless it fails. -/
def Call.ask {α : Type} (statement : Statement) (value : α) : Except ServiceError α :=
  match call.failing statement with
  | some err => .error (.db err)
  | none => .ok value

/-- The same for a read of the authorization, which takes a failure for nothing found. -/
def Call.askAuthz {α : Type} (statement : Statement) (value : α) : Except ServiceError α :=
  match call.failing statement with
  | some _ => .error .notFound
  | none => .ok value

def orNotFound {α : Type} : Option α → Except ServiceError α
  | none => .error .notFound
  | some value => .ok value

def ofAuthz {α : Type} : Except AuthzError α → Except ServiceError α
  | .error err => .error (.ofAuthz err)
  | .ok value => .ok value

/-- The database as an authorization reads it. -/
def Call.reads : Database := { s.db with failing := call.failingQuery }

def Call.organizationByName (statement : Statement) (name : String) :
    Except ServiceError Organization := do
  let found ← call.askAuthz statement
    (s.organizations.find? fun organization => sameName organization.name name)
  orNotFound found

/-- The teams of an organization that a user is in. -/
def State.teamsForUser (organizationId : OrganizationId) (userId : UserId) : List Team :=
  s.teams.filter fun team =>
    team.organizationId = organizationId ∧ (team.id, userId) ∈ s.db.teamMembers

def Call.orgAdminChecked (orgName : String) : Except ServiceError Organization := do
  let organization ← call.organizationByName sameName s .findOrganization orgName
  let userId ← orNotFound call.actor.userId
  let teams ← call.askAuthz .teamsForUser (s.teamsForUser organization.id userId)
  rejectIf (∀ team ∈ teams, team.name ≠ "Owners") .forbidden
  return organization

def Call.findTeam (orgName teamName : String) : Except ServiceError Team := do
  let organization ← call.organizationByName sameName s .findTeamOrganization orgName
  let found ← call.ask .findTeam (s.teams.find? fun team =>
    team.organizationId = organization.id ∧ team.name = teamName)
  orNotFound found

def parsePermission (value : String) : Except ServiceError TeamPermission :=
  match TeamPermission.fromDbStr value with
  | none => .error (.validation ("unrecognized permission " ++ reprStr value))
  | some permission => .ok permission

/-- The repository, the team and the role of an attachment that is allowed. -/
def Call.attachment (repoOwner repoName teamOrg teamName : String) :
    Except ServiceError (Repository × Team × RepoRole) := do
  let repository ← ofAuthz (repositoryByName (call.reads s) repoOwner repoName)
  let () ← ofAuthz (checkDangerZone (call.reads s) call.actor repository)
  let team ← call.findTeam sameName s teamOrg teamName
  let codeOverride ← call.ask .findUnitPermission
    ((s.unitPermissions.find? fun row => row.1 = team.id).map Prod.snd)
  match team.codeRole codeOverride with
  | none => .error (.conflict ("this team has no Code-unit access configured — " ++
      "set a permission before attaching it"))
  | some role => call.ask .grant (repository, team, role)

/-- `RepoAccessRepo::grant`. A grant that is there is left as it is. -/
def grant (rows : List RepoAccess) (repositoryId : RepositoryId) (subject : AccessSubject)
    (role : RepoRole) : List RepoAccess :=
  if ∃ row ∈ rows, row.repositoryId = repositoryId ∧ row.subject = subject then rows
  else rows ++ [⟨repositoryId, subject, role⟩]

def Call.attachToRepo (repoOwner repoName teamOrg teamName : String) :
    State × Except ServiceError Unit :=
  match call.attachment sameName s repoOwner repoName teamOrg teamName with
  | .error err => (s, .error err)
  | .ok (repository, team, role) =>
    ({ s with
      db := { s.db with repoAccess := grant s.db.repoAccess repository.id (.team team.id) role }
      attached := fun repositoryId teamId =>
        if repositoryId = repository.id ∧ teamId = team.id then some role
        else s.attached repositoryId teamId }, .ok ())

/-- The team and the permission of a change that is allowed. -/
def Call.permissionChange (orgName teamName permission : String) :
    Except ServiceError (Team × TeamPermission) := do
  let _ ← call.orgAdminChecked sameName s orgName
  let team ← call.findTeam sameName s orgName teamName
  let permission ← parsePermission permission
  call.ask .deletePermission (team, permission)

/-- The override is deleted and inserted, by two statements. -/
def Call.setCodePermission (orgName teamName permission : String) :
    State × Except ServiceError Unit :=
  match call.permissionChange sameName s orgName teamName permission with
  | .error err => (s, .error err)
  | .ok (team, permission) =>
    let deleted := s.unitPermissions.filter fun row => row.1 ≠ team.id
    match call.failing .insertPermission with
    | some err => ({ s with unitPermissions := deleted }, .error (.db err))
    | none => ({ s with unitPermissions := deleted ++ [(team.id, permission)] }, .ok ())

/-- The team and the user of a change of members that is allowed. -/
def Call.memberChange (statement : Statement) (orgName teamName username : String) :
    Except ServiceError (TeamId × UserId) := do
  let _ ← call.orgAdminChecked sameName s orgName
  let team ← call.findTeam sameName s orgName teamName
  let found ← call.ask .findUser (s.db.users.find? fun user => sameName user.username username)
  let user ← orNotFound found
  call.ask statement (team.id, user.id)

def Call.addMember (orgName teamName username : String) : State × Except ServiceError Unit :=
  match call.memberChange sameName s .addMember orgName teamName username with
  | .error err => (s, .error err)
  | .ok member =>
    let members := if member ∈ s.db.teamMembers then s.db.teamMembers
      else s.db.teamMembers ++ [member]
    ({ s with db := { s.db with teamMembers := members } }, .ok ())

def Call.removeMember (orgName teamName username : String) : State × Except ServiceError Unit :=
  match call.memberChange sameName s .removeMember orgName teamName username with
  | .error err => (s, .error err)
  | .ok member =>
    if member ∈ s.db.teamMembers then
      ({ s with db := { s.db with
        teamMembers := s.db.teamMembers.filter fun row => row ≠ member } }, .ok ())
    else (s, .error .notFound)

def Call.perform : State × Except ServiceError Unit :=
  match call.operation with
  | .attachToRepo repoOwner repoName teamOrg teamName =>
    call.attachToRepo sameName s repoOwner repoName teamOrg teamName
  | .setCodePermission orgName teamName permission =>
    call.setCodePermission sameName s orgName teamName permission
  | .addMember orgName teamName username => call.addMember sameName s orgName teamName username
  | .removeMember orgName teamName username =>
    call.removeMember sameName s orgName teamName username

def step (s : State) (call : Call) : State := (call.perform sameName s).1

end Operations

/-! ## What access is to be -/

section Intended

variable (s : State) (repository : Repository) (userId : UserId)

/-- The user's own grant, and the roles of the last attachments of the teams the user is in. -/
def grantedRoles : Set RepoRole :=
  { role | (s.db.repoAccess.find? fun access =>
        access.repositoryId = repository.id ∧ access.subject = .user userId).map RepoAccess.role =
      some role } ∪
  { role | ∃ teamId, (teamId, userId) ∈ s.db.teamMembers ∧
      s.attached repository.id teamId = some role }

/-- The access of every actor is the highest role that its user is granted. -/
def AccessFollows : Prop :=
  ∀ (actor : ActorContext) (userId : UserId), actor.userId = some userId →
    ∃ access, accessFor { s.db with failing := fun _ => none } actor repository = .ok access ∧
      ∀ role, access.map RepoAccess.role = some role ↔
        IsGreatest (grantedRoles s repository userId) role

/-- The roles that are granted to a subject on a repository. -/
def rolesOf (rows : List RepoAccess) (repositoryId : RepositoryId) (subject : AccessSubject) :
    List RepoRole :=
  (rows.filter fun access => access.repositoryId = repositoryId ∧ access.subject = subject).map
    RepoAccess.role

/-- Each team has the grant of its last attachment, and no other. -/
def GrantsFollow : Prop :=
  ∀ teamId, rolesOf s.db.repoAccess repository.id (.team teamId) =
    (s.attached repository.id teamId).toList

/-- A call that attaches a team once more attaches it at the role of its last attachment. -/
def KeepsRole (sameName : String → String → Bool) (s : State) (call : Call) : Prop :=
  ∀ repoOwner repoName teamOrg teamName attachedTo team role last,
    call.operation = .attachToRepo repoOwner repoName teamOrg teamName →
    call.attachment sameName s repoOwner repoName teamOrg teamName =
      .ok (attachedTo, team, role) →
    attachedTo.id = repository.id → s.attached repository.id team.id = some last → role = last

end Intended

/-! ## Roles -/

section Roles

theorem rank_inj {a b : RepoRole} (h : a.rank = b.rank) : a = b := by
  cases a <;> cases b <;> simp [RepoRole.rank] at h ⊢

instance : Std.IsLinearOrder RepoRole where
  le_refl role := Nat.le_refl role.rank
  le_trans _ _ _ := Nat.le_trans
  le_antisymm _ _ hab hba := rank_inj (Nat.le_antisymm hab hba)
  le_total a b := Nat.le_total a.rank b.rank

instance : Std.LawfulOrderMax RepoRole where
  max_eq_or a b := by
    simp only [max]
    split
    · exact Or.inr rfl
    · exact Or.inl rfl
  max_le_iff a b c := by
    simp only [max]
    split
    · rename_i hab
      exact ⟨fun hb => ⟨Nat.le_trans hab hb, hb⟩, fun h => h.2⟩
    · rename_i hba
      exact ⟨fun ha => ⟨ha, Nat.le_trans (Nat.le_of_not_le hba) ha⟩, fun h => h.1⟩

/-- The effective role is the highest one that is granted. -/
theorem effectiveRepoRole_eq_some_iff {direct : Option RepoRole} {teamGrants : List RepoRole}
    {role : RepoRole} : effectiveRepoRole direct teamGrants = some role ↔
      IsGreatest ({ role | direct = some role } ∪ { role | role ∈ teamGrants }) role := by
  rw [effectiveRepoRole, List.max?_eq_some_iff, IsGreatest, upperBounds]
  simp only [List.mem_append, Option.mem_toList, Set.mem_union, Set.mem_ofPred_eq, or_comm]

end Roles

section Grants

variable {s : State} {repository : Repository}

theorem mem_rolesOf {rows : List RepoAccess} {repositoryId : RepositoryId}
    {subject : AccessSubject} {role : RepoRole} : role ∈ rolesOf rows repositoryId subject ↔
      ∃ access ∈ rows, access.repositoryId = repositoryId ∧ access.subject = subject ∧
        access.role = role := by
  simp only [rolesOf, List.mem_map, List.mem_filter, decide_eq_true_eq, and_assoc]

/-- What the grants say, the access says. -/
theorem accessFollows_of_grantsFollow (h : GrantsFollow s repository) :
    AccessFollows s repository := by
  intro actor userId huser
  simp only [accessFor, huser, Database.findAccess, Database.teamRolesForUser, Database.read]
  refine ⟨_, rfl, fun role => ?_⟩
  rw [Option.map_map]
  have hrole : (RepoAccess.role ∘ fun role => (⟨repository.id, .user userId, role⟩ : RepoAccess)) =
      id := rfl
  rw [hrole, Option.map_id_fun, id_eq, effectiveRepoRole_eq_some_iff]
  have hteams : { role | role ∈ (s.db.repoAccess.filter fun access =>
        access.repositoryId = repository.id ∧ ∃ member ∈ s.db.teamMembers,
          access.subject = .team member.1 ∧ member.2 = userId).map RepoAccess.role } =
      { role | ∃ teamId, (teamId, userId) ∈ s.db.teamMembers ∧
        s.attached repository.id teamId = some role } := by
    ext other
    simp only [Set.mem_ofPred_eq, List.mem_map, List.mem_filter, decide_eq_true_eq]
    constructor
    · rintro ⟨access, ⟨haccess, hrepository, member, hmember, hsubject, rfl⟩, rfl⟩
      refine ⟨member.1, hmember, ?_⟩
      have hgranted := mem_rolesOf.2 ⟨access, haccess, hrepository, hsubject, rfl⟩
      rw [h member.1] at hgranted
      exact Option.mem_toList.1 hgranted
    · rintro ⟨teamId, hmember, hattached⟩
      have hgranted : other ∈ rolesOf s.db.repoAccess repository.id (.team teamId) := by
        rw [h teamId]
        exact Option.mem_toList.2 hattached
      obtain ⟨access, haccess, hrepository, hsubject, hsame⟩ := mem_rolesOf.1 hgranted
      exact ⟨access, ⟨haccess, hrepository, (teamId, userId), hmember, hsubject, rfl⟩, hsame⟩
  rw [hteams, grantedRoles]

/-- A grant is inserted where there is none. -/
theorem rolesOf_grant (rows : List RepoAccess) (repositoryId other : RepositoryId)
    (subject subject' : AccessSubject) (role : RepoRole) :
    rolesOf (grant rows repositoryId subject role) other subject' =
      if other = repositoryId ∧ subject' = subject ∧ rolesOf rows repositoryId subject = [] then
        [role]
      else rolesOf rows other subject' := by
  have hempty : rolesOf rows repositoryId subject = [] ↔
      ¬ ∃ row ∈ rows, row.repositoryId = repositoryId ∧ row.subject = subject := by
    simp [rolesOf]
  rw [grant]
  by_cases hthere : ∃ row ∈ rows, row.repositoryId = repositoryId ∧ row.subject = subject
  · rw [if_pos hthere, if_neg fun h => hempty.1 h.2.2 hthere]
  · rw [if_neg hthere]
    by_cases hsame : other = repositoryId ∧ subject' = subject
    · obtain ⟨rfl, rfl⟩ := hsame
      rw [if_pos ⟨rfl, rfl, hempty.2 hthere⟩]
      have hnone : rolesOf rows other subject' = [] := hempty.2 hthere
      rw [rolesOf] at hnone ⊢
      rw [List.filter_append, List.map_append, hnone]
      simp
    · rw [if_neg fun h => hsame ⟨h.1, h.2.1⟩, rolesOf, List.filter_append]
      have hnew : [(⟨repositoryId, subject, role⟩ : RepoAccess)].filter (fun access =>
          access.repositoryId = other ∧ access.subject = subject') = [] := by
        rw [List.filter_singleton]
        have hno : ¬ (repositoryId = other ∧ subject = subject') :=
          fun h => hsame ⟨h.1.symm, h.2.symm⟩
        simp [hno]
      rw [hnew, List.append_nil, rolesOf]

end Grants

section Steps

variable {sameName : String → String → Bool} {s : State} {repository : Repository} {call : Call}

/-- An attachment keeps the grants in step exactly if the team is attached for the first time or at
the role of the last time. -/
theorem grantsFollow_attach (h : GrantsFollow s repository) {attachedTo : Repository} {team : Team}
    {role : RepoRole} :
    GrantsFollow
      { s with
        db := { s.db with repoAccess := grant s.db.repoAccess attachedTo.id (.team team.id) role }
        attached := fun repositoryId teamId =>
          if repositoryId = attachedTo.id ∧ teamId = team.id then some role
          else s.attached repositoryId teamId } repository ↔
      ∀ last, attachedTo.id = repository.id → s.attached repository.id team.id = some last →
        role = last := by
  by_cases hrepository : attachedTo.id = repository.id
  · simp only [GrantsFollow, rolesOf_grant, hrepository, true_and, true_implies,
      AccessSubject.team.injEq]
    rw [h team.id]
    constructor
    · intro hafter last hlast
      have hteam := hafter team.id
      rw [hlast] at hteam
      simp only [Option.toList_some, List.cons_ne_nil, and_false, if_false, if_true] at hteam
      rw [h team.id, hlast] at hteam
      simpa using hteam.symm
    · intro hkeeps teamId
      by_cases hteam : teamId = team.id
      · subst hteam
        cases hlast : s.attached repository.id team.id with
        | none => simp
        | some last =>
          rw [hkeeps last hlast]
          simp [h team.id, hlast]
      · simp only [hteam, false_and, if_false]
        exact h teamId
  · refine iff_of_true (fun teamId => ?_) fun last hsame => absurd hsame hrepository
    simp only [rolesOf_grant, Ne.symm hrepository, false_and, if_false]
    exact h teamId

/-- The other operations write no grant. -/
theorem step_of_not_attach (hother : ∀ repoOwner repoName teamOrg teamName,
      call.operation ≠ .attachToRepo repoOwner repoName teamOrg teamName) :
    (step sameName s call).db.repoAccess = s.db.repoAccess ∧
      (step sameName s call).attached = s.attached := by
  cases hoperation : call.operation with
  | attachToRepo repoOwner repoName teamOrg teamName => exact absurd hoperation (hother _ _ _ _)
  | setCodePermission orgName teamName permission =>
    simp only [step, Call.perform, hoperation, Call.setCodePermission]
    cases call.permissionChange sameName s orgName teamName permission with
    | error err => exact ⟨rfl, rfl⟩
    | ok change => cases call.failing .insertPermission with
      | some err => exact ⟨rfl, rfl⟩
      | none => exact ⟨rfl, rfl⟩
  | addMember orgName teamName username =>
    simp only [step, Call.perform, hoperation, Call.addMember]
    cases call.memberChange sameName s .addMember orgName teamName username with
    | error err => exact ⟨rfl, rfl⟩
    | ok member => exact ⟨rfl, rfl⟩
  | removeMember orgName teamName username =>
    simp only [step, Call.perform, hoperation, Call.removeMember]
    cases call.memberChange sameName s .removeMember orgName teamName username with
    | error err => exact ⟨rfl, rfl⟩
    | ok member =>
      simp only
      split
      · exact ⟨rfl, rfl⟩
      · exact ⟨rfl, rfl⟩

theorem grantsFollow_step_iff (h : GrantsFollow s repository) :
    GrantsFollow (step sameName s call) repository ↔ KeepsRole repository sameName s call := by
  by_cases hattach : ∃ repoOwner repoName teamOrg teamName,
      call.operation = .attachToRepo repoOwner repoName teamOrg teamName
  · obtain ⟨repoOwner, repoName, teamOrg, teamName, hoperation⟩ := hattach
    simp only [step, Call.perform, hoperation, Call.attachToRepo]
    cases hattachment : call.attachment sameName s repoOwner repoName teamOrg teamName with
    | error err =>
      refine iff_of_true h ?_
      intro owner name org team attachedTo found role last hop hok
      obtain ⟨rfl, rfl, rfl, rfl⟩ := Operation.attachToRepo.inj (hoperation.symm.trans hop)
      rw [hattachment] at hok
      cases hok
    | ok found =>
      obtain ⟨attachedTo, team, role⟩ := found
      rw [grantsFollow_attach h]
      constructor
      · intro hkeeps owner name org teamName' attachedTo' team' role' last hop hok hsame hlast
        obtain ⟨rfl, rfl, rfl, rfl⟩ := Operation.attachToRepo.inj (hoperation.symm.trans hop)
        rw [hattachment] at hok
        obtain ⟨rfl, rfl, rfl⟩ : attachedTo = attachedTo' ∧ team = team' ∧ role = role' := by
          simpa using hok
        exact hkeeps last hsame hlast
      · intro hkeeps last hsame hlast
        exact hkeeps _ _ _ _ _ _ _ last hoperation hattachment hsame hlast
  · push Not at hattach
    obtain ⟨hrows, hattached⟩ := @step_of_not_attach sameName s call hattach
    refine iff_of_true ?_ ?_
    · intro teamId
      rw [hrows, hattached]
      exact h teamId
    · intro owner name org teamName attachedTo team role last hop
      exact absurd hop (hattach _ _ _ _)

end Steps

/-- The grants of teams are those of their last attachments along exactly the runs in which every
team that is attached once more is attached at the role of the last time. Where they are, everybody
has the highest role that they are granted. -/
theorem team_access_follows_iff (sameName : String → String → Bool) {repository : Repository}
    {start : State} (hstart : GrantsFollow start repository) (calls : List Call) :
    ((∀ earlier later, calls = earlier ++ later →
        GrantsFollow (Runs.run (step sameName) start earlier) repository) ↔
      Runs.Throughout (step sameName) (KeepsRole repository sameName) start calls) ∧
    (Runs.Throughout (step sameName) (KeepsRole repository sameName) start calls →
      ∀ earlier later, calls = earlier ++ later →
        AccessFollows (Runs.run (step sameName) start earlier) repository) := by
  have hiff : (∀ earlier later, calls = earlier ++ later →
        GrantsFollow (Runs.run (step sameName) start earlier) repository) ↔
      Runs.Throughout (step sameName) (KeepsRole repository sameName) start calls := by
    apply Runs.always_iff_throughout (I := fun _ : State => True)
      (J := fun s : State => GrantsFollow s repository)
    · intro s call _ _ _
      trivial
    · intro s call _ h
      exact grantsFollow_step_iff h
    · trivial
    · exact hstart
  refine ⟨hiff, fun hkeeps earlier later heq => ?_⟩
  exact accessFollows_of_grantsFollow (hiff.2 hkeeps earlier later heq)

/-! ## A team that is attached again -/

/-- A repository of `ada`, and the teams of an organization: its owners and `devs`. -/
def acme : State where
  db := { Database.empty with
    users := [⟨1, "ada", "ada@example.org"⟩, ⟨2, "olga", "olga@example.org"⟩,
      ⟨3, "dev", "dev@example.org"⟩]
    repositories := [⟨⟨10, "site", .private⟩, "ada"⟩]
    repoAccess := [⟨10, .user 1, .owner⟩]
    teamMembers := [(100, 2), (101, 3)] }
  organizations := [⟨50, "acme"⟩]
  teams := [⟨100, 50, "Owners", .admin⟩, ⟨101, 50, "devs", .write⟩]
  unitPermissions := []
  attached _ _ := none

/-- A call in which every statement works. -/
def callBy (userId : UserId) (operation : Operation) : Call where
  actor := .user userId
  operation := operation
  failingQuery _ := none
  failing _ := none

/-- The team is attached, its permission is changed, and it is attached again. -/
def attachedTwice (permission : String) : List Call :=
  [callBy 1 (.attachToRepo "ada" "site" "acme" "devs"),
    callBy 2 (.setCodePermission "acme" "devs" permission),
    callBy 1 (.attachToRepo "ada" "site" "acme" "devs")]

theorem grantsFollow_acme : GrantsFollow acme ⟨10, "site", .private⟩ := by
  intro teamId
  simp [rolesOf, acme]

/-- The member of a team that is attached at `read` can still write. -/
theorem lowered_team_keeps_role :
    ¬ AccessFollows (Runs.run (step (· = ·)) acme (attachedTwice "read")) ⟨10, "site", .private⟩ := by
  intro h
  obtain ⟨access, haccess, hroles⟩ := h (.user 3) 3 rfl
  have hwrite : accessFor { (Runs.run (step (· = ·)) acme (attachedTwice "read")).db with
      failing := fun _ => none } (.user 3) ⟨10, "site", .private⟩ = .ok (some ⟨10, .user 3, .write⟩) := by
    decide +kernel
  obtain rfl := Except.ok.inj (hwrite.symm.trans haccess)
  -- nothing that the user is granted is this role
  rcases ((hroles .write).1 rfl).1 with hown | ⟨teamId, hmember, hattached⟩
  · revert hown
    decide +kernel
  · have hmembers : (Runs.run (step (· = ·)) acme (attachedTwice "read")).db.teamMembers =
        [(100, 2), (101, 3)] := by decide +kernel
    rw [hmembers] at hmember
    simp only [List.mem_cons, Prod.mk.injEq, List.not_mem_nil, or_false] at hmember
    rcases hmember with ⟨-, hid⟩ | ⟨rfl, -⟩
    · exact absurd hid (by decide)
    · revert hattached
      decide +kernel

/-- With the permission that it has. -/
theorem access_follows_same_permission :
    GrantsFollow acme ⟨10, "site", .private⟩ ∧
      ((∀ earlier later, attachedTwice "write" = earlier ++ later →
          GrantsFollow (Runs.run (step (· = ·)) acme earlier) ⟨10, "site", .private⟩) ↔
        Runs.Throughout (step (· = ·)) (KeepsRole ⟨10, "site", .private⟩ (· = ·)) acme
          (attachedTwice "write")) ∧
      (Runs.Throughout (step (· = ·)) (KeepsRole ⟨10, "site", .private⟩ (· = ·)) acme
          (attachedTwice "write") →
        ∀ earlier later, attachedTwice "write" = earlier ++ later →
          AccessFollows (Runs.run (step (· = ·)) acme earlier) ⟨10, "site", .private⟩) :=
  ⟨grantsFollow_acme, team_access_follows_iff (· = ·) grantsFollow_acme (attachedTwice "write")⟩

end Edda.App.TeamAccess
