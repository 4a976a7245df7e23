import Edda.App.SignIn

/-!
# The account status at every entry

The requests that establish a session or act as a user, with SSH connections among them, compared
with the status that the account has when they arrive. A disabled account is turned away everywhere;
the approval of an administrator is asked for by the password login alone, where the status can be
read.

`gatesStatus_iff` says exactly which arrivals are turned away for an account that may not
authenticate.
-/

set_option autoImplicit false

namespace Edda.App.AccountStatusGate

open Edda.Domain Edda.Db Edda.Auth Edda.App.SignIn Edda.Support

/-! ## SSH keys -/

structure SshKey where
  fingerprint : String
  userId : UserId
  deriving DecidableEq, Repr

structure DeployKey where
  fingerprint : String
  repositoryId : RepositoryId
  readOnly : Bool
  deriving DecidableEq, Repr

/-- The two key tables, and the errors of their queries. -/
structure SshKeys where
  sshKeys : List SshKey
  deployKeys : List DeployKey
  sshKeyError : Option DbError
  deployKeyError : Option DbError
  deriving DecidableEq, Repr

section Keys

variable (db : Accounts) (keys : SshKeys)

/-- `ssh::authenticate`. -/
def authenticateSshKey (fingerprint : String) : Option Account :=
  match keys.sshKeyError with
  | some _ => none
  | none => match keys.sshKeys.find? fun key => key.fingerprint = fingerprint with
    | none => none
    | some key => match db.findById key.userId with
      | none => none
      | some account => if requireEnabled account then some account else none

/-- `deploy_keys::authenticate`. -/
def authenticateDeployKey (fingerprint : String) : Option DeployKey :=
  match keys.deployKeyError with
  | some _ => none
  | none => keys.deployKeys.find? fun key => key.fingerprint = fingerprint

/-- The actor of a connection, unless its key is rejected. A key of a user comes first. -/
def authPublickey (fingerprint : String) : Option ActorContext :=
  match authenticateSshKey db keys fingerprint with
  | some account => some (.user account.id)
  | none => match authenticateDeployKey keys fingerprint with
    | some key => some (.deployKey key.repositoryId key.readOnly)
    | none => none

end Keys

/-! ## Arrivals and the status of the account -/

inductive Arrival where
  | web (request : Request)
  | ssh (fingerprint : String)

section Gate

variable (out : Outside) (config : Config) (db : Accounts) (keys : SshKeys)

/-- The arrival establishes a session of the user, or is served as the user. -/
def Serves (userId : UserId) : Arrival → Prop
  | .web request => ActsAs (serve out config db request) userId
  | .ssh fingerprint =>
    (authPublickey db keys fingerprint).bind ActorContext.userId = some userId

/-- The account is disabled or awaits approval. -/
def Barred (userId : UserId) : Prop :=
  ∃ account ∈ db.users, account.id = userId ∧ requireCanAuthenticate account.status ≠ .ok ()

/-- The arrival comes with a session of the user that was established before. -/
def HasSession (userId : UserId) : Arrival → Prop
  | .web (.callback pending _ _ _) => ∃ flow, pending = .ok (some flow) ∧
    flow.linkUserId = some userId
  | .web (.git session _) => HasFreshSession out config db session userId
  | .web (.api session _) => HasFreshSession out config db session userId
  | .web (.account session) => ∃ account, sessionUser db session = .ok (some account) ∧
    account.id = userId
  | _ => False

/-- Nobody who may not authenticate is served, unless by a session from before. -/
def GatesStatus (arrival : Arrival) : Prop :=
  ∀ userId, Barred db userId → Serves out config db keys userId arrival →
    HasSession out config db userId arrival

/-! ### When the gate holds -/

/-- The account that the fields of a Basic header lead to. -/
def basicAccount (identity secret : String) : Option Account :=
  match authenticateToken out db secret with
  | some found => some found.1
  | none => match authenticateToken out db identity with
    | some found => some found.1
    | none => match authenticate out db identity secret with
      | .ok found => found
      | .error _ => none

def Approved (account : Account) : Prop := account.status.approvedAt.isSome = true

instance (account : Account) : Decidable (Approved account) :=
  inferInstanceAs (Decidable (_ = true))

/-- The session of an account that is read once more can be started. -/
def SessionStarts : Prop := db.failing .getUser = none ∧ db.failing .sessionStore = none

/-- The account that gets in is approved, or the status is read, or something else stops it. -/
def Fits : Arrival → Prop
  | .web (.login email password clientIp) => ∀ account, out.throttle email clientIp = .ok () →
    authenticate out db email password = .ok (some account) →
      Approved account ∨ db.failing .accountStatus = none ∨ SecondFactorFound db account.id ∨
        db.failing .sessionStore ≠ none
  | .web (.loginTotp pendingLoginToken code) => ∀ account,
    pendingAccount out db pendingLoginToken = .ok account →
      (verifyTotp out db account.id account.email code).2 = .ok true →
        Approved account ∨ ¬ SessionStarts db
  | .web (.loginVerify pendingLoginToken stateToken credential) => ∀ account,
    pendingAccount out db pendingLoginToken = .ok account → config.webauthn = true →
      (finishAuthentication out db stateToken account.id credential).2 = .ok () →
        Approved account ∨ ¬ SessionStarts db
  | .web (.callback pending state answer _) => ∀ account,
    LinkedLogin config db pending state answer account → Approved account
  | .web (.git session authorization) => ∀ user identity secret account,
    sessionUser db session = .ok user → freshUser out config db session user = none →
      basicCredentials out authorization = some (identity, secret) →
        basicAccount out db identity secret = some account → Approved account
  | .web (.api session authorization) => ∀ user token found,
    sessionUser db session = .ok user → freshUser out config db session user = none →
      bearerToken authorization = some token → authenticateToken out db token = some found →
        Approved found.1
  | .ssh fingerprint => ∀ account,
    authenticateSshKey db keys fingerprint = some account → Approved account
  | _ => True

end Gate

/-! ## Whom the credentials lead to -/

section Credentials

variable {out : Outside} {config : Config} {db : Accounts} {keys : SshKeys} {account : Account}
  {userId : UserId}

/-- Of the accounts that are enabled, those not approved are barred. -/
theorem barred_iff (hids : Table.Keyed Account.id db.users) (hmem : account ∈ db.users)
    (henabled : requireEnabled account = true) : Barred db account.id ↔ ¬ Approved account := by
  have hdisabled : account.status.disabledAt = none := by simpa [requireEnabled] using henabled
  have hgate : requireCanAuthenticate account.status ≠ .ok () ↔ ¬ Approved account := by
    rw [requireCanAuthenticate, hdisabled, Approved]
    cases account.status.approvedAt with
    | none => simp
    | some approvedAt => simp
  rw [← hgate]
  constructor
  · rintro ⟨other, hother, hid, hbarred⟩
    rwa [List.inj_on_of_nodup_map hids hother hmem hid] at hbarred
  · intro hbarred
    exact ⟨account, hmem, rfl, hbarred⟩

theorem mem_of_authenticate {email password : String}
    (h : authenticate out db email password = .ok (some account)) :
    account ∈ db.users ∧ requireEnabled account = true := by
  simp only [authenticate] at h
  split at h
  · cases h
  · cases h
  · rename_i found hfind
    obtain ⟨-, hfound⟩ := Accounts.ask_eq_ok.1 hfind
    split at h
    · cases h
    · rename_i henabled
      split at h
      · obtain rfl := Option.some.inj (Except.ok.inj h)
        exact ⟨List.mem_of_find?_eq_some hfound, by simpa using henabled⟩
      · cases h

theorem mem_of_authenticateToken {rawToken : String} {found : Account × AccessToken}
    (h : authenticateToken out db rawToken = some found) :
    found.1 ∈ db.users ∧ requireEnabled found.1 = true := by
  simp only [authenticateToken] at h
  split at h
  · cases h
  · split at h
    · split at h
      · rename_i holder hfind
        split at h
        · rename_i henabled
          obtain rfl := Option.some.inj h
          exact ⟨List.mem_of_find?_eq_some hfind, henabled⟩
        · cases h
      · cases h
    · cases h

theorem mem_of_basicAccount {identity secret : String}
    (h : basicAccount out db identity secret = some account) :
    account ∈ db.users ∧ requireEnabled account = true := by
  simp only [basicAccount] at h
  split at h
  · rename_i found hsecret
    obtain rfl := Option.some.inj h
    exact mem_of_authenticateToken hsecret
  · split at h
    · rename_i found hidentity
      obtain rfl := Option.some.inj h
      exact mem_of_authenticateToken hidentity
    · split at h
      · rename_i found hauth
        subst h
        exact mem_of_authenticate hauth
      · cases h

theorem mem_of_authenticateSshKey {fingerprint : String}
    (h : authenticateSshKey db keys fingerprint = some account) :
    account ∈ db.users ∧ requireEnabled account = true := by
  simp only [authenticateSshKey] at h
  split at h
  · cases h
  · split at h
    · cases h
    · split at h
      · cases h
      · rename_i holder hfind
        split at h
        · rename_i henabled
          obtain rfl := Option.some.inj h
          exact ⟨List.mem_of_find?_eq_some hfind, henabled⟩
        · cases h

theorem mem_of_pendingAccount {pendingLoginToken : String}
    (h : pendingAccount out db pendingLoginToken = .ok account) :
    account ∈ db.users ∧ requireEnabled account = true := by
  simp only [pendingAccount] at h
  split at h
  · cases h
  · split at h
    · cases h
    · cases h
    · rename_i holder hfind
      obtain ⟨-, hfound⟩ := Accounts.ask_eq_ok.1 hfind
      split at h
      · rename_i henabled
        obtain rfl := Except.ok.inj h
        exact ⟨List.mem_of_find?_eq_some hfound, henabled⟩
      · cases h

/-- Whom a request with Basic credentials acts as. -/
theorem resolveActor_userId (session : Option Session) (user : Option Account)
    (authorization : Option String) :
    (resolveActor out config db session user authorization).userId =
      match freshUser out config db session user with
      | some account => some account.id
      | none => (basicCredentials out authorization).bind fun pair =>
        (basicAccount out db pair.1 pair.2).map Account.id := by
  simp only [resolveActor]
  cases freshUser out config db session user with
  | some account => rfl
  | none =>
    cases basicCredentials out authorization with
    | none => rfl
    | some pair =>
      obtain ⟨identity, secret⟩ := pair
      simp only [basicAccount, Option.bind_some]
      cases authenticateToken out db secret with
      | some found => rfl
      | none =>
        cases authenticateToken out db identity with
        | some found => rfl
        | none =>
          cases authenticate out db identity secret with
          | error err => rfl
          | ok found => cases found <;> rfl

theorem apiActor_userId (session : Option Session) (user : Option Account)
    (authorization : Option String) :
    (apiActor out config db session user authorization).userId =
      match freshUser out config db session user with
      | some account => some account.id
      | none => (bearerToken authorization).bind fun token =>
        (authenticateToken out db token).map fun found => found.1.id := by
  simp only [apiActor]
  cases freshUser out config db session user with
  | some account => rfl
  | none =>
    cases bearerToken authorization with
    | none => rfl
    | some token =>
      simp only [Option.bind_some]
      cases authenticateToken out db token <;> rfl

/-- Of the accounts that are enabled, those that are approved pass the status, and so do all where
it cannot be read. -/
theorem statusAdmits_iff (henabled : requireEnabled account = true) :
    statusAdmits db account = .ok () ↔ Approved account ∨ db.failing .accountStatus ≠ none := by
  have hdisabled : account.status.disabledAt = none := by simpa [requireEnabled] using henabled
  rw [statusAdmits, Accounts.ask]
  cases hread : db.failing .accountStatus with
  | some err => simp
  | none =>
    simp only [requireCanAuthenticate, hdisabled, Approved]
    cases account.status.approvedAt with
    | none => simp
    | some approvedAt => simp

/-- Checking a code changes neither the accounts nor what fails. -/
theorem frame_verifyTotp (accountName submitted : String) :
    (verifyTotp out db userId accountName submitted).1.users = db.users ∧
      (verifyTotp out db userId accountName submitted).1.failing = db.failing := by
  simp only [verifyTotp]
  split
  · exact ⟨rfl, rfl⟩
  · exact ⟨rfl, rfl⟩
  · split
    · exact ⟨rfl, rfl⟩
    · split
      · exact ⟨rfl, rfl⟩
      · exact ⟨rfl, rfl⟩
      · split
        · exact ⟨rfl, rfl⟩
        · exact ⟨rfl, rfl⟩

theorem frame_finishAuthentication (stateToken : String) (credential : Assertion) :
    (finishAuthentication out db stateToken userId credential).1.users = db.users ∧
      (finishAuthentication out db stateToken userId credential).1.failing = db.failing := by
  simp only [finishAuthentication]
  split
  · exact ⟨rfl, rfl⟩
  · split
    · exact ⟨rfl, rfl⟩
    · exact ⟨rfl, rfl⟩
    · split
      · exact ⟨rfl, rfl⟩
      · split
        · exact ⟨rfl, rfl⟩
        · split
          · exact ⟨rfl, rfl⟩
          · split
            · exact ⟨rfl, rfl⟩
            · exact ⟨rfl, rfl⟩

/-- A session that is started after a second step: nothing that matters has changed since. -/
theorem actsAs_secondStep (out : Outside) {after : Accounts} (userId : UserId) (missing : String)
    (reply : Reply) (hframe : after.users = db.users ∧ after.failing = db.failing)
    (hmem : account ∈ db.users) :
    ActsAs (establishById out after account.id missing reply) userId ↔
      SessionStarts db ∧ account.id = userId := by
  have hfound : (after.findById account.id).isSome := by
    rw [Accounts.findById, hframe.1, List.find?_isSome]
    exact ⟨account, hmem, by simp⟩
  rw [actsAs_establishById, hframe.2, SessionStarts]
  simp only [hfound, true_and]

theorem actsAs_loginTotp_iff {pendingLoginToken code : String} :
    ActsAs (loginTotp out db pendingLoginToken code) userId ↔
      ∃ account, pendingAccount out db pendingLoginToken = .ok account ∧
        (verifyTotp out db account.id account.email code).2 = .ok true ∧ SessionStarts db ∧
          account.id = userId := by
  simp only [loginTotp]
  cases hpending : pendingAccount out db pendingLoginToken with
  | error served => simp [not_actsAs_of_pendingAccount hpending]
  | ok account =>
    have hframe : (verifyTotp out db account.id account.email code).1.users = db.users ∧
        (verifyTotp out db account.id account.email code).1.failing = db.failing :=
      frame_verifyTotp account.email code
    cases hverify : verifyTotp out db account.id account.email code with
    | mk after result =>
      rw [hverify] at hframe
      cases result with
      | error err => simp [hverify, not_actsAs_text]
      | ok accepted =>
        cases accepted with
        | false => simp [hverify, not_actsAs_text]
        | true =>
          have hsession := actsAs_secondStep out userId "could not resolve the session identity"
            (.currentUser account.id) hframe (mem_of_pendingAccount hpending).1
          simpa [hverify] using hsession

theorem actsAs_loginVerify_iff {pendingLoginToken stateToken : String} {credential : Assertion} :
    ActsAs (loginVerify out config db pendingLoginToken stateToken credential) userId ↔
      ∃ account, pendingAccount out db pendingLoginToken = .ok account ∧ config.webauthn = true ∧
        (finishAuthentication out db stateToken account.id credential).2 = .ok () ∧
          SessionStarts db ∧ account.id = userId := by
  simp only [loginVerify]
  cases hpending : pendingAccount out db pendingLoginToken with
  | error served => simp [not_actsAs_of_pendingAccount hpending]
  | ok account =>
    cases hconfigured : config.webauthn with
    | false => simp [not_actsAs_text]
    | true =>
      have hframe :
          (finishAuthentication out db stateToken account.id credential).1.users = db.users ∧
            (finishAuthentication out db stateToken account.id credential).1.failing = db.failing :=
        frame_finishAuthentication stateToken credential
      cases hfinish : finishAuthentication out db stateToken account.id credential with
      | mk after result =>
        rw [hfinish] at hframe
        cases result with
        | error err => simp [hfinish, not_actsAs_text]
        | ok accepted =>
          have hsession := actsAs_secondStep out userId "could not resolve the session identity"
            (.currentUser account.id) hframe (mem_of_pendingAccount hpending).1
          simpa [hfinish] using hsession

theorem serves_ssh {fingerprint : String} :
    Serves out config db keys userId (.ssh fingerprint) ↔
      ∃ account, authenticateSshKey db keys fingerprint = some account ∧ account.id = userId := by
  simp only [Serves, authPublickey]
  cases authenticateSshKey db keys fingerprint with
  | some account => simp [ActorContext.userId]
  | none =>
    cases authenticateDeployKey keys fingerprint with
    | none => simp
    | some key => simp [ActorContext.userId]

end Credentials

/-! ## Which arrivals are gated -/

section Arrivals

variable {out : Outside} {config : Config} {db : Accounts} {keys : SshKeys}

theorem gates_login (hids : Table.Keyed Account.id db.users) (email password clientIp : String) :
    GatesStatus out config db keys (.web (.login email password clientIp)) ↔
      Fits out config db keys (.web (.login email password clientIp)) := by
  constructor
  · intro h account hthrottle hauth
    obtain ⟨hmem, henabled⟩ := mem_of_authenticate hauth
    by_contra hopen
    simp only [not_or, not_not] at hopen
    obtain ⟨hunapproved, hread, hfactor, hstore⟩ := hopen
    have hverified : PasswordVerified out db email password clientIp account :=
      ⟨hthrottle, hauth, (statusAdmits_iff henabled).2 (.inr hread)⟩
    exact h account.id ((barred_iff hids hmem henabled).2 hunapproved)
      (actsAs_login.2 ⟨account, hverified, hfactor, hstore, rfl⟩)
  · intro h userId hbarred hserves
    obtain ⟨account, hverified, hfactor, hstore, rfl⟩ := actsAs_login.1 hserves
    obtain ⟨hmem, henabled⟩ := mem_of_authenticate hverified.password
    have hunapproved := (barred_iff hids hmem henabled).1 hbarred
    rcases h account hverified.throttle hverified.password with happroved | hread | hfound | hfails
    · exact absurd happroved hunapproved
    · rcases (statusAdmits_iff henabled).1 hverified.status with happroved | hunread
      · exact absurd happroved hunapproved
      · exact absurd hread hunread
    · exact absurd hfound hfactor
    · exact absurd hstore hfails

theorem gates_loginTotp (hids : Table.Keyed Account.id db.users) (pendingLoginToken code : String) :
    GatesStatus out config db keys (.web (.loginTotp pendingLoginToken code)) ↔
      Fits out config db keys (.web (.loginTotp pendingLoginToken code)) := by
  constructor
  · intro h account hpending hverify
    obtain ⟨hmem, henabled⟩ := mem_of_pendingAccount hpending
    by_contra hopen
    simp only [not_or, not_not] at hopen
    exact h account.id ((barred_iff hids hmem henabled).2 hopen.1)
      (actsAs_loginTotp_iff.2 ⟨account, hpending, hverify, hopen.2, rfl⟩)
  · intro h userId hbarred hserves
    obtain ⟨account, hpending, hverify, hstarts, rfl⟩ := actsAs_loginTotp_iff.1 hserves
    obtain ⟨hmem, henabled⟩ := mem_of_pendingAccount hpending
    rcases h account hpending hverify with happroved | hstops
    · exact absurd happroved ((barred_iff hids hmem henabled).1 hbarred)
    · exact absurd hstarts hstops

theorem gates_loginVerify (hids : Table.Keyed Account.id db.users)
    (pendingLoginToken stateToken : String) (credential : Assertion) :
    GatesStatus out config db keys (.web (.loginVerify pendingLoginToken stateToken credential)) ↔
      Fits out config db keys (.web (.loginVerify pendingLoginToken stateToken credential)) := by
  constructor
  · intro h account hpending hconfigured hfinish
    obtain ⟨hmem, henabled⟩ := mem_of_pendingAccount hpending
    by_contra hopen
    simp only [not_or, not_not] at hopen
    exact h account.id ((barred_iff hids hmem henabled).2 hopen.1)
      (actsAs_loginVerify_iff.2 ⟨account, hpending, hconfigured, hfinish, hopen.2, rfl⟩)
  · intro h userId hbarred hserves
    obtain ⟨account, hpending, hconfigured, hfinish, hstarts, rfl⟩ :=
      actsAs_loginVerify_iff.1 hserves
    obtain ⟨hmem, henabled⟩ := mem_of_pendingAccount hpending
    rcases h account hpending hconfigured hfinish with happroved | hstops
    · exact absurd happroved ((barred_iff hids hmem henabled).1 hbarred)
    · exact absurd hstarts hstops

/-- A callback signs in the account of a linked identity, or one that is new. -/
theorem gates_callback (hids : Table.Keyed Account.id db.users)
    (pending : Except String (Option PendingOAuth)) (state : String)
    (answer : Except String Claims) (drawn : Drawn) :
    GatesStatus out config db keys (.web (.callback pending state answer drawn)) ↔
      Fits out config db keys (.web (.callback pending state answer drawn)) := by
  have hknown {account : Account} (hlinked : LinkedLogin config db pending state answer account) :
      account ∈ db.users ∧ requireEnabled account = true := by
    obtain ⟨_, _, _, _, _, -, -, -, -, -, -, hfind, henabled, -⟩ := hlinked
    exact ⟨List.mem_of_find?_eq_some hfind, henabled⟩
  constructor
  · intro h account hlinked
    obtain ⟨hmem, henabled⟩ := hknown hlinked
    by_contra hunapproved
    obtain ⟨flow, hflow, hlink⟩ := h account.id ((barred_iff hids hmem henabled).2 hunapproved)
      (actsAs_callback_of_linked hlinked)
    -- a flow that signs in links nothing
    obtain ⟨other, -, -, -, -, hother, -, -, hnone, -⟩ := hlinked
    obtain rfl := Option.some.inj (Except.ok.inj (hflow.symm.trans hother))
    rw [hnone] at hlink
    cases hlink
  · intro h userId hbarred hserves
    rcases linked_of_actsAs_callback hserves with hshown | ⟨account, hlinked, rfl⟩ | hnew
    · exact hshown
    · obtain ⟨hmem, henabled⟩ := hknown hlinked
      exact absurd (h account hlinked) ((barred_iff hids hmem henabled).1 hbarred)
    · obtain ⟨account, hmem, rfl, -⟩ := hbarred
      exact absurd (List.mem_map_of_mem hmem) hnew

theorem gates_git (hids : Table.Keyed Account.id db.users) (session : Option Session)
    (authorization : Option String) :
    GatesStatus out config db keys (.web (.git session authorization)) ↔
      Fits out config db keys (.web (.git session authorization)) := by
  constructor
  · intro h user identity secret account hsession hfresh hbasic haccount
    obtain ⟨hmem, henabled⟩ := mem_of_basicAccount haccount
    by_contra hunapproved
    have hserves : Serves out config db keys account.id (.web (.git session authorization)) := by
      apply actsAs_behindSession.2
      refine ⟨user, hsession, ?_⟩
      rw [resolveActor_userId, hfresh, hbasic]
      simp [haccount]
    obtain ⟨other, hother, hotherFresh, -⟩ :=
      h account.id ((barred_iff hids hmem henabled).2 hunapproved) hserves
    obtain rfl := Except.ok.inj (hsession.symm.trans hother)
    rw [hfresh] at hotherFresh
    cases hotherFresh
  · intro h userId hbarred hserves
    obtain ⟨user, hsession, hactor⟩ := actsAs_behindSession.1 hserves
    rw [resolveActor_userId] at hactor
    cases hfresh : freshUser out config db session user with
    | some account =>
      rw [hfresh] at hactor
      obtain ⟨rfl, hsome⟩ := freshUser_eq_some hfresh
      exact ⟨account, hsession, hsome, Option.some.inj hactor⟩
    | none =>
      rw [hfresh] at hactor
      obtain ⟨⟨identity, secret⟩, hbasic, hfound⟩ := Option.bind_eq_some_iff.1 hactor
      obtain ⟨account, haccount, rfl⟩ := Option.map_eq_some_iff.1 hfound
      obtain ⟨hmem, henabled⟩ := mem_of_basicAccount haccount
      exact absurd (h user identity secret account hsession hfresh hbasic haccount)
        ((barred_iff hids hmem henabled).1 hbarred)

theorem gates_api (hids : Table.Keyed Account.id db.users) (session : Option Session)
    (authorization : Option String) :
    GatesStatus out config db keys (.web (.api session authorization)) ↔
      Fits out config db keys (.web (.api session authorization)) := by
  constructor
  · intro h user token found hsession hfresh hbearer htoken
    obtain ⟨hmem, henabled⟩ := mem_of_authenticateToken htoken
    by_contra hunapproved
    have hserves : Serves out config db keys found.1.id (.web (.api session authorization)) := by
      apply actsAs_behindSession.2
      refine ⟨user, hsession, ?_⟩
      rw [apiActor_userId, hfresh, hbearer]
      simp [htoken]
    obtain ⟨other, hother, hotherFresh, -⟩ :=
      h found.1.id ((barred_iff hids hmem henabled).2 hunapproved) hserves
    obtain rfl := Except.ok.inj (hsession.symm.trans hother)
    rw [hfresh] at hotherFresh
    cases hotherFresh
  · intro h userId hbarred hserves
    obtain ⟨user, hsession, hactor⟩ := actsAs_behindSession.1 hserves
    rw [apiActor_userId] at hactor
    cases hfresh : freshUser out config db session user with
    | some account =>
      rw [hfresh] at hactor
      obtain ⟨rfl, hsome⟩ := freshUser_eq_some hfresh
      exact ⟨account, hsession, hsome, Option.some.inj hactor⟩
    | none =>
      rw [hfresh] at hactor
      obtain ⟨token, hbearer, hfound⟩ := Option.bind_eq_some_iff.1 hactor
      obtain ⟨found, htoken, rfl⟩ := Option.map_eq_some_iff.1 hfound
      obtain ⟨hmem, henabled⟩ := mem_of_authenticateToken htoken
      exact absurd (h user token found hsession hfresh hbearer htoken)
        ((barred_iff hids hmem henabled).1 hbarred)

theorem gates_ssh (hids : Table.Keyed Account.id db.users) (fingerprint : String) :
    GatesStatus out config db keys (.ssh fingerprint) ↔
      Fits out config db keys (.ssh fingerprint) := by
  constructor
  · intro h account haccount
    obtain ⟨hmem, henabled⟩ := mem_of_authenticateSshKey haccount
    by_contra hunapproved
    exact h account.id ((barred_iff hids hmem henabled).2 hunapproved)
      (serves_ssh.2 ⟨account, haccount, rfl⟩)
  · intro h userId hbarred hserves
    obtain ⟨account, haccount, rfl⟩ := serves_ssh.1 hserves
    obtain ⟨hmem, henabled⟩ := mem_of_authenticateSshKey haccount
    exact absurd (h account haccount) ((barred_iff hids hmem henabled).1 hbarred)

end Arrivals

/-- Which arrivals are turned away for an account that is disabled or awaits approval, whatever
statement fails on the way: those that lead to no account that is not approved, and a password login
whose status can be read. -/
theorem gatesStatus_iff (out : Outside) (config : Config) (db : Accounts) (keys : SshKeys)
    (hids : Table.Keyed Account.id db.users) (arrival : Arrival) :
    GatesStatus out config db keys arrival ↔ Fits out config db keys arrival := by
  cases arrival with
  | ssh fingerprint => exact gates_ssh hids fingerprint
  | web request =>
    cases request with
    | login email password clientIp => exact gates_login hids email password clientIp
    | loginTotp pendingLoginToken code => exact gates_loginTotp hids pendingLoginToken code
    | loginVerify pendingLoginToken stateToken credential =>
      exact gates_loginVerify hids pendingLoginToken stateToken credential
    | callback pending state answer drawn => exact gates_callback hids pending state answer drawn
    | git session authorization => exact gates_git hids session authorization
    | api session authorization => exact gates_api hids session authorization
    | signup id drawn username email password =>
      refine iff_of_true (fun userId hbarred hserves => ?_) trivial
      -- the account of a sign-up is new
      obtain ⟨account, hmem, rfl, -⟩ := hbarred
      exact absurd (List.mem_map_of_mem hmem) (new_of_actsAs_signup hserves)
    | requestPasswordReset email drawn =>
      exact iff_of_true (fun _ _ hserves => absurd hserves not_actsAs_requestPasswordReset) trivial
    | consumePasswordReset token newPassword =>
      exact iff_of_true (fun _ _ hserves => absurd hserves not_actsAs_consumePasswordReset) trivial
    | verifyEmail token =>
      exact iff_of_true (fun _ _ hserves => absurd hserves not_actsAs_verifyEmail) trivial
    | account session =>
      exact iff_of_true (fun _ _ hserves => showsMore_of_actsAs_account hserves) trivial

/-! ### An account that awaits approval -/

/-- Grace signed up and was not approved yet. She has a linked identity, a token and an SSH key. -/
def gracesAccount : Account :=
  ⟨2, "grace", "grace@edda.dev", "hash of tulip", ⟨none, some 10, none⟩⟩

def gracesAccounts (failing : Statement → Option DbError) : Accounts where
  users := [gracesAccount]
  organizations := []
  totpSecrets := []
  recoveryCodes := []
  passkeys := []
  identities := [⟨2, "idp", "subject"⟩]
  accessTokens := [⟨"edda_pat_1", 2, .all, .repoWrite⟩]
  resetTokens := []
  verificationTokens := []
  failing := failing

def gracesKeys : SshKeys := ⟨[⟨"SHA256:grace", 2⟩], [], none, none⟩

def brokenStatusRead : Statement → Option DbError
  | .accountStatus => some "connection reset"
  | _ => none

theorem grace_barred (failing : Statement → Option DbError) :
    Barred (gracesAccounts failing) 2 :=
  ⟨gracesAccount, List.mem_singleton.2 rfl, rfl, by decide⟩

/-- The password signs in while the status cannot be read; the external identity, a token and an
SSH key let her in as well. -/
theorem unapproved_account_is_served :
    ¬ GatesStatus adasOutside adasConfig (gracesAccounts brokenStatusRead) gracesKeys
        (.web (.login "grace@edda.dev" "tulip" "127.0.0.1")) ∧
      ¬ GatesStatus adasOutside adasConfig (gracesAccounts fun _ => none) gracesKeys
        (.web adasCallback) ∧
      ¬ GatesStatus adasOutside adasConfig (gracesAccounts fun _ => none) gracesKeys
        (.web (.api none (some "Bearer edda_pat_1"))) ∧
      ¬ GatesStatus adasOutside adasConfig (gracesAccounts fun _ => none) gracesKeys
        (.ssh "SHA256:grace") := by
  refine ⟨fun h => ?_, fun h => ?_, fun h => ?_, fun h => ?_⟩
  · exact h 2 (grace_barred _) (.inl (by decide +kernel))
  · obtain ⟨flow, hflow, hlink⟩ := h 2 (grace_barred _) (.inl (by decide +kernel))
    obtain rfl := Option.some.inj (Except.ok.inj hflow)
    cases hlink
  · obtain ⟨account, hsession, -⟩ := h 2 (grace_barred _) (.inr (by decide +kernel))
    cases hsession
  · exact h 2 (grace_barred _) (by simp only [Serves]; decide +kernel)

/-- The login that can read the status turns her away. -/
theorem unapproved_login_is_refused :
    Barred (gracesAccounts fun _ => none) 2 ∧
      GatesStatus adasOutside adasConfig (gracesAccounts fun _ => none) gracesKeys
        (.web (.login "grace@edda.dev" "tulip" "127.0.0.1")) := by
  refine ⟨grace_barred _, (gatesStatus_iff adasOutside adasConfig _ gracesKeys (by decide) _).2 ?_⟩
  intro account hthrottle hauth
  exact .inr (.inl rfl)

end Edda.App.AccountStatusGate
