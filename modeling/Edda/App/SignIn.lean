import Edda.Auth.Accounts

/-!
# Signing in

The requests that establish a session or that act as a user: signing up, the password login and its
second step with a code or a passkey, the login through an external provider, the links of a
password reset and of an email verification, and the routes that take a session, a bearer token or
Basic credentials. The second factor is asked for by the password login alone.

`secondFactor_iff` says exactly which requests keep to the second factor.
-/

set_option autoImplicit false

namespace Edda.App.SignIn

open Edda.Domain Edda.Db Edda.Auth Edda.Support.RustText

/-- What the session middleware keeps of a login. -/
structure Session where
  userId : UserId
  authHash : String
  loginAt : Option Int
  deriving DecidableEq, Repr

structure Config where
  registration : Domain.RegistrationPolicy
  absoluteTtlSecs : Int
  webauthn : Bool
  providers : List ProviderConfig
  deriving DecidableEq, Repr

inductive Reply where
  | currentUser (id : UserId)
  | needsTotp (pendingLoginToken : String)
  | signupPending
  | redirect (location : String)
  | ok
  | text (status : Nat) (message : String)
  deriving DecidableEq, Repr

/-- What a request leads to: the tables after it, the reply, the session that it establishes, and
who it acts as. -/
structure Served where
  db : Accounts
  reply : Reply
  established : Option Session
  actor : ActorContext

/-! ## The login routes -/

section Routes

variable (out : Outside) (config : Config) (db : Accounts)

def text (status : Nat) (message : String) : Served :=
  ⟨db, .text status message, none, .anonymous⟩

/-- `auth.login`, and the stamp of its time; a stamp that cannot be written is left out. -/
def establish (account : Account) (reply : Reply) : Served :=
  match db.ask .sessionStore () with
  | .error err => text db 500 err
  | .ok () =>
    let loginAt := match db.ask .sessionStamp () with
      | .ok () => some out.now
      | .error _ => none
    ⟨db, reply, some ⟨account.id, account.passwordHash, loginAt⟩, .anonymous⟩

/-- Establishes a session for an id whose row is read once more. -/
def establishById (userId : UserId) (missing : String) (reply : Reply) : Served :=
  match db.ask .getUser (db.findById userId) with
  | .ok (some account) => establish out db account reply
  | _ => text db 500 missing

def signup (id : UserId) (drawn : DrawnToken) (username email password : String) : Served :=
  match Auth.signup out db config.registration id drawn username email password with
  | (db, .error err) =>
    let status := match err with
      | .registrationClosed => 403
      | .emailDomainNotAllowed => 403
      | _ => 400
    text db status err.message
  | (db, .ok outcome) =>
    if outcome.pendingApproval then ⟨db, .signupPending, none, .anonymous⟩
    else establishById out db outcome.user.id "account created but could not start a session"
      (.currentUser outcome.user.id)

/-- The status of the account, where it can be read, lets it sign in. -/
def statusAdmits (account : Account) : Except AccountStatusError Unit :=
  match db.ask .accountStatus account.status with
  | .ok status => requireCanAuthenticate status
  | .error _ => .ok ()

/-- Whether the login asks for a second factor. A read that fails counts as no second factor. -/
def asksSecondFactor (userId : UserId) : Bool :=
  let hasTotp := match isActivated db userId with
    | .ok activated => activated
    | .error _ => false
  let hasWebauthn := match listPasskeys db userId with
    | .ok passkeys => !passkeys.isEmpty
    | .error _ => false
  hasTotp || hasWebauthn

def login (email password clientIp : String) : Served :=
  match out.throttle email clientIp with
  | .error (.lockedOut _) =>
    text db 429 "too many failed sign-in attempts — try again later"
  | .error (.db err) => text db 500 err
  | .ok () => match authenticate out db email password with
    | .error err => text db 500 err
    | .ok none => text db 401 "that email or password isn't right"
    | .ok (some account) => match statusAdmits db account with
      | .error err => text db 403 err.message
      | .ok () =>
        if asksSecondFactor db account.id then
          ⟨db, .needsTotp (out.pendingToken account.id), none, .anonymous⟩
        else establish out db account (.currentUser account.id)

/-- The account whose password a pending login has verified. -/
def pendingAccount (pendingLoginToken : String) : Except Served Account :=
  match out.pendingUser pendingLoginToken with
  | none => .error (text db 401 "that login attempt has expired")
  | some userId => match db.ask .pendingUser (db.findById userId) with
    | .error err => .error (text db 500 err)
    | .ok none => .error (text db 401 "that login attempt has expired")
    | .ok (some account) =>
      if requireEnabled account then .ok account
      else .error (text db 401 "that login attempt has expired")

def totpErrorMessage : TotpError → String
  | .notEnrolled => "TOTP is not enrolled for this account"
  | .secretBox err => err
  | .db err => err

def loginTotp (pendingLoginToken code : String) : Served :=
  match pendingAccount out db pendingLoginToken with
  | .error served => served
  | .ok account => match verifyTotp out db account.id account.email code with
    | (db, .error err) => text db 400 (totpErrorMessage err)
    | (db, .ok false) => text db 401 "that code was incorrect"
    | (db, .ok true) => establishById out db account.id
        "could not resolve the session identity" (.currentUser account.id)

def webauthnErrorResponse : WebauthnError → Nat × String
  | .ceremonyExpired => (401, "that registration/authentication attempt has expired — start again")
  | .noCredentials => (404, "no passkey is registered for this account")
  | .invalidResponse => (400, "that passkey response was not valid")
  | .db err => (500, err)

def loginVerify (pendingLoginToken stateToken : String) (credential : Assertion) : Served :=
  match pendingAccount out db pendingLoginToken with
  | .error served => served
  | .ok account =>
    if config.webauthn = false then text db 404 "WebAuthn is not configured for this instance"
    else match finishAuthentication out db stateToken account.id credential with
      | (db, .error err) =>
        text db (webauthnErrorResponse err).1 (webauthnErrorResponse err).2
      | (db, .ok ()) => establishById out db account.id
          "could not resolve the session identity" (.currentUser account.id)

/-- What a redirect to a provider leaves in the session. -/
structure PendingOAuth where
  providerName : String
  csrfToken : String
  linkUserId : Option UserId
  deriving DecidableEq, Repr

def oauthErrorMessage : OAuthError → String
  | .verification err => "the identity provider's response could not be verified: " ++ err
  | .noEmail => "that provider did not return an email address"
  | .db err => err

/-- `oauth::link`, for the user whose session has asked for it. -/
def link (provider : ProviderConfig) (userId : UserId) (answer : Except String Claims) : Served :=
  match answer with
  | .error err => text db 400 (oauthErrorMessage (.verification err))
  | .ok claims => match db.ask .insertIdentity () with
    | .error err => text db 400 err
    | .ok () =>
      let linked : OAuthIdentity := ⟨userId, provider.name, claims.subject⟩
      ⟨{ db with identities := db.identities ++ [linked] }, .redirect "/settings", none,
        .user userId⟩

/-- The session of an account that a provider vouches for. -/
def oauthLogin (account : Account) : Served :=
  if requireEnabled account then
    establishById out db account.id "could not resolve the session identity" (.redirect "/")
  else text db 401 "this account has been disabled"

/-- The callback of a provider. `answer` is what the exchange of the code has given. -/
def callback (pending : Except String (Option PendingOAuth)) (state : String)
    (answer : Except String Claims) (drawn : Drawn) : Served :=
  match pending with
  | .error err => text db 500 err
  | .ok none => text db 400 "no OAuth login is pending for this session"
  | .ok (some pending) =>
    match config.providers.find? fun provider => provider.name = pending.providerName with
    | none =>
      text db 404 (if config.providers = [] then
        "OAuth login is not configured for this instance" else "no such OIDC provider")
    | some provider =>
      if state ≠ pending.csrfToken then text db 400 "OAuth state parameter did not match"
      else match pending.linkUserId with
        | some userId => link db provider userId answer
        | none => match complete out db provider answer drawn with
          | (db, .error err) => text db 502 (oauthErrorMessage err)
          | (db, .ok (.loggedIn account)) => oauthLogin out db account
          | (db, .ok (.newAccountCreated account)) => oauthLogin out db account
          | (db, .ok (.newAccountPendingApproval _)) => text db 202
              "your account was created and is awaiting administrator approval"
          | (db, .ok .emailBelongsToExistingAccount) => text db 409
              ("an account with that email already exists — log in with your password, then " ++
                "link this provider from settings")
          | (db, .ok .provisioningNotAllowed) => text db 403
              ("this provider does not create new accounts — ask an administrator for one, then " ++
                "link the provider from settings")
          | (db, .ok .emailDomainNotAllowed) => text db 403
              "your email domain is not permitted for this sign-in provider"

def consumeErrorMessage (kind : String) : ConsumeError → String
  | .invalidOrExpired => "this " ++ kind ++ " link is invalid or has expired"
  | .emptyPassword => "password can't be empty"
  | .hash err => err
  | .db err => err

def requestPasswordReset (email : String) (drawn : DrawnToken) : Served :=
  match requestReset out db email drawn with
  | (db, .error err) => text db 500 err
  -- the reply does not tell whether there is such an account
  | (db, .ok _) => ⟨db, .ok, none, .anonymous⟩

def consumePasswordReset (token newPassword : String) : Served :=
  match consumeReset out db token newPassword with
  | (db, .error err) => text db 400 (consumeErrorMessage "reset" err)
  | (db, .ok _) => ⟨db, .ok, none, .anonymous⟩

def verifyEmail (token : String) : Served :=
  match consumeVerification out db token with
  | (db, .error err) => text db 400 (consumeErrorMessage "verification" err)
  | (db, .ok _) => ⟨db, .ok, none, .anonymous⟩

/-! ## Whom a request acts as -/

/-- The user of a session, as the middleware resolves it: the password may not have changed. -/
def sessionUser (session : Option Session) : Except DbError (Option Account) :=
  match session with
  | none => .ok none
  | some session => match db.ask .sessionUser (db.findById session.userId) with
    | .error err => .error err
    | .ok found => .ok (found.filter fun account => account.passwordHash = session.authHash)

def sessionLoginExpired (loginAt : Option Int) : Bool :=
  loginAt.any fun at' => decide (config.absoluteTtlSecs < out.now - at')

/-- When the session was established. A stamp that cannot be read counts as none. -/
def sessionLoginAt (session : Option Session) : Option Int :=
  match db.ask .sessionLoginAt (session.bind Session.loginAt) with
  | .ok loginAt => loginAt
  | .error _ => none

/-- The user of a session that has not passed its absolute lifetime. -/
def freshUser (session : Option Session) (user : Option Account) : Option Account :=
  if sessionLoginExpired out config (sessionLoginAt db session) then none else user

/-- `String::from_utf8`. -/
def fromUtf8 (bytes : Bytes) : Option String :=
  let text := String.ofList (fromUtf8Lossy bytes)
  if utf8 text = bytes then some text else none

theorem fromUtf8_utf8 (text : String) : fromUtf8 (utf8 text) = some text := by
  have hdecode : fromUtf8Lossy (utf8 text) = text.toList := by
    have h := decodeLossy_utf8 text []
    rwa [List.append_nil, decodeLossy, List.append_nil] at h
  simp only [fromUtf8, hdecode, String.ofList_toList, if_true]

/-- The two fields of a Basic header. -/
def basicCredentials (authorization : Option String) : Option (String × String) := do
  let value ← authorization
  let encoded ← stripPrefix "Basic ".toList value.toList
  let decoded ← out.decodeBase64 (String.ofList encoded)
  let text ← fromUtf8 decoded
  let (identity, secret) ← splitOnce ':' text.toList
  return (String.ofList identity, String.ofList secret)

def tokenActor (found : Account × AccessToken) : ActorContext :=
  .token found.1.id found.2.repositoryScope found.2.tokenScope

/-- Whom the git and LFS routes act as: a session, a token in either field of a Basic header, or
else an account password. -/
def resolveActor (session : Option Session) (user : Option Account)
    (authorization : Option String) : ActorContext :=
  match freshUser out config db session user with
  | some account => .user account.id
  | none => match basicCredentials out authorization with
    | none => .anonymous
    | some (identity, secret) => match authenticateToken out db secret with
      | some found => tokenActor found
      | none => match authenticateToken out db identity with
        | some found => tokenActor found
        | none => match authenticate out db identity secret with
          | .ok (some account) => .user account.id
          | _ => .anonymous

def bearerToken (authorization : Option String) : Option String := do
  let value ← authorization
  let token ← stripPrefix "Bearer ".toList value.toList
  return String.ofList token

/-- Whom the API acts as: a session or a bearer token. -/
def apiActor (session : Option Session) (user : Option Account) (authorization : Option String) :
    ActorContext :=
  match freshUser out config db session user with
  | some account => .user account.id
  | none => match bearerToken authorization with
    | none => .anonymous
    | some token => match authenticateToken out db token with
      | some found => tokenActor found
      | none => .anonymous

/-- The routes that take the user of the session as it is. -/
def sessionActor (user : Option Account) : ActorContext :=
  match user with
  | some account => .user account.id
  | none => .anonymous

/-- A request behind the session middleware. -/
def behindSession (session : Option Session) (actor : Option Account → ActorContext) : Served :=
  match sessionUser db session with
  | .error err => text db 500 err
  | .ok user => ⟨db, .ok, none, actor user⟩

end Routes

inductive Request where
  | signup (id : UserId) (drawn : DrawnToken) (username email password : String)
  | login (email password clientIp : String)
  | loginTotp (pendingLoginToken code : String)
  | loginVerify (pendingLoginToken stateToken : String) (credential : Assertion)
  | callback (pending : Except String (Option PendingOAuth)) (state : String)
      (answer : Except String Claims) (drawn : Drawn)
  | requestPasswordReset (email : String) (drawn : DrawnToken)
  | consumePasswordReset (token newPassword : String)
  | verifyEmail (token : String)
  | git (session : Option Session) (authorization : Option String)
  | api (session : Option Session) (authorization : Option String)
  | account (session : Option Session)

def serve (out : Outside) (config : Config) (db : Accounts) : Request → Served
  | .signup id drawn username email password => signup out config db id drawn username email password
  | .login email password clientIp => login out db email password clientIp
  | .loginTotp pendingLoginToken code => loginTotp out db pendingLoginToken code
  | .loginVerify pendingLoginToken stateToken credential =>
    loginVerify out config db pendingLoginToken stateToken credential
  | .callback pending state answer drawn => callback out config db pending state answer drawn
  | .requestPasswordReset email drawn => requestPasswordReset out db email drawn
  | .consumePasswordReset token newPassword => consumePasswordReset out db token newPassword
  | .verifyEmail token => verifyEmail out db token
  | .git session authorization => behindSession db session fun user =>
    resolveActor out config db session user authorization
  | .api session authorization => behindSession db session fun user =>
    apiActor out config db session user authorization
  | .account session => behindSession db session sessionActor

/-! ## The second factor -/

section SecondFactor

variable (out : Outside) (config : Config) (db : Accounts)

/-- The request establishes a session of the user, or acts as the user. -/
def ActsAs (served : Served) (userId : UserId) : Prop :=
  served.established.map Session.userId = some userId ∨ served.actor.userId = some userId

/-- The request comes with a session of the user, established before and not expired. -/
def HasFreshSession (session : Option Session) (userId : UserId) : Prop :=
  ∃ account, sessionUser db session = .ok (some account) ∧
    freshUser out config db session (some account) = some account ∧ account.id = userId

def HasToken (rawToken : String) (userId : UserId) : Prop :=
  ∃ found, authenticateToken out db rawToken = some found ∧ found.1.id = userId

/-- The request shows more than an account password or an external identity: a code or a passkey of
the user, a session or a personal access token. A link that is pending is kept in the session of the
user who has asked for it. -/
def ShowsMore (userId : UserId) : Request → Prop
  | .loginTotp pendingLoginToken code => ∃ account,
    pendingAccount out db pendingLoginToken = .ok account ∧ account.id = userId ∧
      (verifyTotp out db account.id account.email code).2 = .ok true
  | .loginVerify pendingLoginToken stateToken credential => ∃ account,
    pendingAccount out db pendingLoginToken = .ok account ∧ account.id = userId ∧
      (finishAuthentication out db stateToken account.id credential).2 = .ok ()
  | .callback pending _ _ _ => ∃ flow, pending = .ok (some flow) ∧ flow.linkUserId = some userId
  | .git session authorization => HasFreshSession out config db session userId ∨
    ∃ identity secret, basicCredentials out authorization = some (identity, secret) ∧
      (HasToken out db secret userId ∨ HasToken out db identity userId)
  | .api session authorization => HasFreshSession out config db session userId ∨
    ∃ token, bearerToken authorization = some token ∧ HasToken out db token userId
  | .account session => ∃ account, sessionUser db session = .ok (some account) ∧
    account.id = userId
  | _ => False

/-- Nobody who has a second factor is signed in or acted as without showing more. -/
def KeepsSecondFactor (request : Request) : Prop :=
  ∀ userId, ActsAs (serve out config db request) userId → db.HasSecondFactor userId →
    ShowsMore out config db userId request

/-- The password login gets as far as the second factor. -/
structure PasswordVerified (email password clientIp : String) (account : Account) : Prop where
  throttle : out.throttle email clientIp = .ok ()
  password : authenticate out db email password = .ok (some account)
  status : statusAdmits db account = .ok ()

/-- The reads of the login find a second factor of the account. -/
def SecondFactorFound (userId : UserId) : Prop :=
  (db.totpActive userId = true ∧ db.failing .totpActivated = none) ∨
    (db.passkeysOf userId ≠ [] ∧ db.failing .passkeys = none)

/-- The callback signs in the account that the external identity is linked to. -/
def LinkedLogin (pending : Except String (Option PendingOAuth)) (state : String)
    (answer : Except String Claims) (account : Account) : Prop :=
  ∃ flow provider subject email identity, pending = .ok (some flow) ∧
    (config.providers.find? fun provider => provider.name = flow.providerName) = some provider ∧
    state = flow.csrfToken ∧ flow.linkUserId = none ∧ answer = .ok ⟨subject, some email⟩ ∧
    db.findIdentity provider.name subject = some identity ∧
    db.findById identity.userId = some account ∧ requireEnabled account = true ∧
    (∀ statement ∈ [Statement.findIdentity, .identityUser, .getUser, .sessionStore],
      db.failing statement = none)

/-- The git and LFS routes fall back to the account password. -/
def PasswordActor (session : Option Session) (authorization : Option String) (account : Account) :
    Prop :=
  ∃ user identity secret, sessionUser db session = .ok user ∧
    freshUser out config db session user = none ∧
    basicCredentials out authorization = some (identity, secret) ∧
    authenticateToken out db secret = none ∧ authenticateToken out db identity = none ∧
    authenticate out db identity secret = .ok (some account)

/-- When the second factor is kept to: a password login of an account that has one finds it, no
account that has one is linked to the external identity that signs in, and none is named by the
password that the git and LFS routes fall back to. -/
def Fits : Request → Prop
  | .login email password clientIp => ∀ account,
    PasswordVerified out db email password clientIp account → db.failing .sessionStore = none →
      db.HasSecondFactor account.id → SecondFactorFound db account.id
  | .callback pending state answer _ => ∀ account,
    LinkedLogin config db pending state answer account → ¬ db.HasSecondFactor account.id
  | .git session authorization => ∀ account,
    PasswordActor out config db session authorization account → ¬ db.HasSecondFactor account.id
  | _ => True

end SecondFactor

/-! ## What each request establishes -/

section Establishes

variable {out : Outside} {config : Config} {db : Accounts} {userId : UserId}

theorem not_actsAs_text {status : Nat} {message : String} :
    ¬ ActsAs (text db status message) userId := by
  rintro (h | h) <;> cases h

theorem actsAs_establish {account : Account} {reply : Reply} :
    ActsAs (establish out db account reply) userId ↔
      db.failing .sessionStore = none ∧ account.id = userId := by
  rw [establish, Accounts.ask]
  cases hstore : db.failing .sessionStore with
  | some err =>
    simp only [reduceCtorEq, false_and, iff_false]
    exact not_actsAs_text
  | none => simp [ActsAs, ActorContext.userId]

theorem actsAs_establishById {id : UserId} {missing : String} {reply : Reply} :
    ActsAs (establishById out db id missing reply) userId ↔
      (db.failing .getUser = none ∧ (db.findById id).isSome ∧ db.failing .sessionStore = none) ∧
        id = userId := by
  rw [establishById, Accounts.ask]
  cases hread : db.failing .getUser with
  | some err =>
    simp only [reduceCtorEq, false_and, iff_false]
    exact not_actsAs_text
  | none =>
    cases hfind : db.findById id with
    | none =>
      simp only [Option.isSome_none, Bool.false_eq_true, false_and, and_false, iff_false]
      exact not_actsAs_text
    | some account =>
      have hid : account.id = id := by simpa using List.find?_some hfind
      simp only [Option.isSome_some, true_and]
      rw [actsAs_establish, hid]

theorem asksSecondFactor_iff : asksSecondFactor db userId = true ↔ SecondFactorFound db userId := by
  simp only [asksSecondFactor, SecondFactorFound, isActivated, listPasskeys, Accounts.ask,
    Bool.or_eq_true]
  cases db.failing .totpActivated <;> cases db.failing .passkeys <;> simp

theorem actsAs_login {email password clientIp : String} :
    ActsAs (login out db email password clientIp) userId ↔
      ∃ account, PasswordVerified out db email password clientIp account ∧
        ¬ SecondFactorFound db account.id ∧ db.failing .sessionStore = none ∧
          account.id = userId := by
  simp only [login]
  cases hthrottle : out.throttle email clientIp with
  | error err =>
    have hnone : ∀ account, ¬ PasswordVerified out db email password clientIp account := by
      rintro account ⟨h, -, -⟩
      rw [hthrottle] at h
      cases h
    simp only [hnone, false_and, exists_false, iff_false]
    cases err <;> exact not_actsAs_text
  | ok _ =>
    cases hauth : authenticate out db email password with
    | error err =>
      simp only [not_actsAs_text, false_iff, not_exists, not_and]
      rintro account ⟨-, h, -⟩
      rw [hauth] at h
      cases h
    | ok found =>
      cases found with
      | none =>
        simp only [not_actsAs_text, false_iff, not_exists, not_and]
        rintro account ⟨-, h, -⟩
        rw [hauth] at h
        cases h
      | some account =>
        have honly : ∀ other, PasswordVerified out db email password clientIp other →
            other = account := by
          rintro other ⟨-, h, -⟩
          rw [hauth] at h
          exact (Option.some.inj (Except.ok.inj h)).symm
        dsimp only
        cases hstatus : statusAdmits db account with
        | error err =>
          simp only [not_actsAs_text, false_iff, not_exists, not_and]
          intro other hother
          obtain rfl := honly other hother
          rw [hother.status] at hstatus
          cases hstatus
        | ok _ =>
          have hverified : PasswordVerified out db email password clientIp account :=
            ⟨hthrottle, hauth, hstatus⟩
          by_cases hasks : asksSecondFactor db account.id = true
          · simp only [hasks, if_true]
            constructor
            · rintro (h | h) <;> cases h
            · rintro ⟨other, hother, hfound, -⟩
              obtain rfl := honly other hother
              exact absurd (asksSecondFactor_iff.1 hasks) hfound
          · simp only [hasks, Bool.false_eq_true, if_false]
            rw [actsAs_establish]
            rw [asksSecondFactor_iff] at hasks
            constructor
            · rintro ⟨hstore, hid⟩
              exact ⟨account, hverified, hasks, hstore, hid⟩
            · rintro ⟨other, hother, -, hstore, hid⟩
              obtain rfl := honly other hother
              exact ⟨hstore, hid⟩

theorem not_actsAs_of_pendingAccount {pendingLoginToken : String} {served : Served}
    (h : pendingAccount out db pendingLoginToken = .error served) : ¬ ActsAs served userId := by
  simp only [pendingAccount] at h
  split at h
  · obtain rfl := Except.error.inj h
    exact not_actsAs_text
  · split at h
    · obtain rfl := Except.error.inj h
      exact not_actsAs_text
    · obtain rfl := Except.error.inj h
      exact not_actsAs_text
    · split at h
      · cases h
      · obtain rfl := Except.error.inj h
        exact not_actsAs_text

/-- A sign-up signs in the new account alone, whose id was free. -/
theorem new_of_actsAs_signup {id : UserId} {drawn : DrawnToken} {username email password : String}
    (h : ActsAs (signup out config db id drawn username email password) userId) :
    userId ∉ db.users.map Account.id := by
  simp only [signup] at h
  split at h
  · exact absurd h not_actsAs_text
  · rename_i after outcome hsignup
    split at h
    · rcases h with h | h <;> cases h
    · obtain ⟨-, rfl⟩ := actsAs_establishById.1 h
      exact Auth.new_of_signup hsignup

/-- Who completes a login that is pending is the account of the token. -/
theorem actsAs_loginTotp {pendingLoginToken code : String}
    (h : ActsAs (loginTotp out db pendingLoginToken code) userId) :
    ShowsMore out config db userId (.loginTotp pendingLoginToken code) := by
  simp only [loginTotp] at h
  split at h
  · rename_i served hpending
    exact absurd h (not_actsAs_of_pendingAccount hpending)
  · rename_i account hpending
    split at h
    · exact absurd h not_actsAs_text
    · exact absurd h not_actsAs_text
    · rename_i after hverify
      obtain ⟨-, hid⟩ := actsAs_establishById.1 h
      exact ⟨account, hpending, hid, by rw [hverify]⟩

theorem actsAs_loginVerify {pendingLoginToken stateToken : String} {credential : Assertion}
    (h : ActsAs (loginVerify out config db pendingLoginToken stateToken credential) userId) :
    ShowsMore out config db userId (.loginVerify pendingLoginToken stateToken credential) := by
  simp only [loginVerify] at h
  split at h
  · rename_i served hpending
    exact absurd h (not_actsAs_of_pendingAccount hpending)
  · rename_i account hpending
    split at h
    · exact absurd h not_actsAs_text
    · split at h
      · exact absurd h not_actsAs_text
      · rename_i after hfinish
        obtain ⟨-, hid⟩ := actsAs_establishById.1 h
        exact ⟨account, hpending, hid, by rw [hfinish]⟩

theorem actsAs_oauthLogin {account : Account} :
    ActsAs (oauthLogin out db account) userId ↔ requireEnabled account = true ∧
      (db.failing .getUser = none ∧ (db.findById account.id).isSome ∧
        db.failing .sessionStore = none) ∧ account.id = userId := by
  rw [oauthLogin]
  by_cases henabled : requireEnabled account = true
  · rw [if_pos henabled, actsAs_establishById]
    simp [henabled]
  · rw [if_neg henabled]
    simp [henabled, not_actsAs_text]

theorem eq_of_actsAs_link {provider : ProviderConfig} {linkUserId : UserId}
    {answer : Except String Claims} (h : ActsAs (link db provider linkUserId answer) userId) :
    linkUserId = userId := by
  cases answer with
  | error err => exact absurd h not_actsAs_text
  | ok claims =>
    simp only [link] at h
    cases hinsert : db.ask .insertIdentity () with
    | error err =>
      rw [hinsert] at h
      exact absurd h not_actsAs_text
    | ok _ =>
      rw [hinsert] at h
      rcases h with h | h
      · cases h
      · exact Option.some.inj h

/-- A callback links an identity for the user who has asked for it, or signs in the account of a
linked identity or a new account. -/
theorem linked_of_actsAs_callback {pending : Except String (Option PendingOAuth)} {state : String}
    {answer : Except String Claims} {drawn : Drawn}
    (h : ActsAs (callback out config db pending state answer drawn) userId) :
    ShowsMore out config db userId (.callback pending state answer drawn) ∨ (∃ account, LinkedLogin config db pending state answer account ∧
      account.id = userId) ∨ userId ∉ db.users.map Account.id := by
  simp only [callback] at h
  split at h
  · exact absurd h not_actsAs_text
  · exact absurd h not_actsAs_text
  · rename_i flow
    split at h
    · exact absurd h not_actsAs_text
    · rename_i provider hprovider
      split at h
      · exact absurd h not_actsAs_text
      · rename_i hstate
        split at h
        · rename_i linkUserId hlink
          exact .inl ⟨flow, rfl, hlink.trans (congrArg some (eq_of_actsAs_link h))⟩
        · rename_i hlink
          split at h
          · exact absurd h not_actsAs_text
          · rename_i after account hcomplete
            obtain ⟨rfl, subject, email, identity, hanswer, hread, hidentity, hreadUser, huser⟩ :=
              complete_eq_loggedIn.1 hcomplete
            obtain ⟨henabled, ⟨hget, -, hstore⟩, hid⟩ := actsAs_oauthLogin.1 h
            refine .inr (.inl ⟨account, ⟨flow, provider, subject, email, identity, rfl, hprovider,
              not_not.1 hstate, hlink, hanswer, hidentity, huser, henabled, ?_⟩, hid⟩)
            simp [hread, hreadUser, hget, hstore]
          · rename_i after account hcomplete
            obtain ⟨-, -, rfl⟩ := actsAs_oauthLogin.1 h
            exact .inr (.inr (new_of_complete hcomplete))
          · exact absurd h not_actsAs_text
          · exact absurd h not_actsAs_text
          · exact absurd h not_actsAs_text
          · exact absurd h not_actsAs_text

theorem actsAs_callback_of_linked {pending : Except String (Option PendingOAuth)} {state : String}
    {answer : Except String Claims} {drawn : Drawn} {account : Account}
    (h : LinkedLogin config db pending state answer account) :
    ActsAs (callback out config db pending state answer drawn) account.id := by
  obtain ⟨flow, provider, subject, email, identity, rfl, hprovider, rfl, hlink, rfl, hidentity,
    huser, henabled, hreads⟩ := h
  have hid : account.id = identity.userId := by simpa using List.find?_some huser
  have hcomplete : complete out db provider (.ok ⟨subject, some email⟩) drawn =
      (db, .ok (.loggedIn account)) :=
    complete_eq_loggedIn.2 ⟨rfl, subject, email, identity, rfl, hreads _ (by simp), hidentity,
      hreads _ (by simp), huser⟩
  simp only [callback, hprovider, ne_eq, not_true_eq_false, if_false, hlink, hcomplete]
  rw [actsAs_oauthLogin, hid, huser]
  exact ⟨henabled, ⟨hreads _ (by simp), rfl, hreads _ (by simp)⟩, rfl⟩

theorem actsAs_behindSession {session : Option Session} {actor : Option Account → ActorContext} :
    ActsAs (behindSession db session actor) userId ↔
      ∃ user, sessionUser db session = .ok user ∧ (actor user).userId = some userId := by
  rw [behindSession]
  cases hsession : sessionUser db session with
  | error err => simp [not_actsAs_text]
  | ok user => simp [ActsAs]

/-- A session that has not expired is the session's user. -/
theorem freshUser_eq_some {session : Option Session} {user : Option Account} {account : Account}
    (h : freshUser out config db session user = some account) :
    user = some account ∧ freshUser out config db session (some account) = some account := by
  rw [freshUser] at h ⊢
  split at h
  · cases h
  · rename_i hfresh
    rw [if_neg hfresh]
    exact ⟨h, rfl⟩

/-- The git and LFS routes act as the user of a session or a token, or by the account password. -/
theorem shown_or_password_of_actsAs_git {session : Option Session} {authorization : Option String}
    (h : ActsAs (serve out config db (.git session authorization)) userId) :
    ShowsMore out config db userId (.git session authorization) ∨
      ∃ account, PasswordActor out config db session authorization account ∧
        account.id = userId := by
  obtain ⟨user, hsession, hactor⟩ := actsAs_behindSession.1 h
  simp only [resolveActor] at hactor
  split at hactor
  · rename_i account hfresh
    obtain ⟨rfl, hsome⟩ := freshUser_eq_some hfresh
    exact .inl (.inl ⟨account, hsession, hsome, Option.some.inj hactor⟩)
  · rename_i hfresh
    split at hactor
    · cases hactor
    · rename_i identity secret hbasic
      split at hactor
      · rename_i found hsecret
        exact .inl (.inr ⟨identity, secret, hbasic, .inl ⟨found, hsecret, Option.some.inj hactor⟩⟩)
      · rename_i hsecret
        split at hactor
        · rename_i found hidentity
          exact .inl (.inr ⟨identity, secret, hbasic,
            .inr ⟨found, hidentity, Option.some.inj hactor⟩⟩)
        · rename_i hidentity
          split at hactor
          · rename_i account hauth
            exact .inr ⟨account, ⟨user, identity, secret, hsession, hfresh, hbasic, hsecret,
              hidentity, hauth⟩, Option.some.inj hactor⟩
          · cases hactor

theorem actsAs_git_of_password {session : Option Session} {authorization : Option String}
    {account : Account} (h : PasswordActor out config db session authorization account) :
    ActsAs (serve out config db (.git session authorization)) account.id := by
  obtain ⟨user, identity, secret, hsession, hfresh, hbasic, hsecret, hidentity, hauth⟩ := h
  refine actsAs_behindSession.2 ⟨user, hsession, ?_⟩
  simp [resolveActor, hfresh, hbasic, hsecret, hidentity, hauth, ActorContext.userId]

/-- A request that acts by the account password has nothing more to show. -/
theorem not_showsMore_of_password {session : Option Session} {authorization : Option String}
    {account : Account} (h : PasswordActor out config db session authorization account) :
    ¬ ShowsMore out config db userId (.git session authorization) := by
  obtain ⟨user, identity, secret, hsession, hfresh, hbasic, hsecret, hidentity, -⟩ := h
  rintro (⟨other, hother, hotherFresh, -⟩ | ⟨first, second, hpair, htoken⟩)
  · rw [hsession] at hother
    obtain rfl := Except.ok.inj hother
    rw [hfresh] at hotherFresh
    cases hotherFresh
  · rw [hbasic] at hpair
    obtain ⟨rfl, rfl⟩ := Prod.mk.inj (Option.some.inj hpair)
    rcases htoken with ⟨found, hfound, -⟩ | ⟨found, hfound, -⟩
    · rw [hsecret] at hfound
      cases hfound
    · rw [hidentity] at hfound
      cases hfound

theorem showsMore_of_actsAs_api {session : Option Session} {authorization : Option String}
    (h : ActsAs (serve out config db (.api session authorization)) userId) :
    ShowsMore out config db userId (.api session authorization) := by
  obtain ⟨user, hsession, hactor⟩ := actsAs_behindSession.1 h
  simp only [apiActor] at hactor
  split at hactor
  · rename_i account hfresh
    obtain ⟨rfl, hsome⟩ := freshUser_eq_some hfresh
    exact .inl ⟨account, hsession, hsome, Option.some.inj hactor⟩
  · split at hactor
    · cases hactor
    · rename_i token hbearer
      split at hactor
      · rename_i found htoken
        exact .inr ⟨token, hbearer, found, htoken, Option.some.inj hactor⟩
      · cases hactor

theorem showsMore_of_actsAs_account {session : Option Session}
    (h : ActsAs (serve out config db (.account session)) userId) :
    ShowsMore out config db userId (.account session) := by
  obtain ⟨user, hsession, hactor⟩ := actsAs_behindSession.1 h
  cases user with
  | none => cases hactor
  | some account => exact ⟨account, hsession, Option.some.inj hactor⟩

theorem not_actsAs_requestPasswordReset {email : String} {drawn : DrawnToken} :
    ¬ ActsAs (requestPasswordReset out db email drawn) userId := by
  rw [requestPasswordReset]
  split <;> rintro (h | h) <;> cases h

theorem not_actsAs_consumePasswordReset {token newPassword : String} :
    ¬ ActsAs (consumePasswordReset out db token newPassword) userId := by
  rw [consumePasswordReset]
  split <;> rintro (h | h) <;> cases h

theorem not_actsAs_verifyEmail {token : String} : ¬ ActsAs (verifyEmail out db token) userId := by
  rw [verifyEmail]
  split <;> rintro (h | h) <;> cases h

end Establishes

/-- Which requests keep to the second factor, whatever statement fails on the way: a password login
that reads the factor it has to ask for, a callback for an account without one, and git and LFS
requests that are not served by the password of an account with one; all the others do. -/
theorem secondFactor_iff (out : Outside) (config : Config) (db : Accounts) (hkeys : db.ForeignKeys)
    (request : Request) :
    KeepsSecondFactor out config db request ↔ Fits out config db request := by
  cases request with
  | login email password clientIp =>
    constructor
    · intro h account hverified hstore hfactor
      by_contra hmissed
      exact h account.id (actsAs_login.2 ⟨account, hverified, hmissed, hstore, rfl⟩) hfactor
    · rintro h userId hacts hfactor
      obtain ⟨account, hverified, hmissed, hstore, rfl⟩ := actsAs_login.1 hacts
      exact absurd (h account hverified hstore hfactor) hmissed
  | callback pending state answer drawn =>
    constructor
    · intro h account hlinked hfactor
      obtain ⟨flow, hflow, hshown⟩ := h account.id (actsAs_callback_of_linked hlinked) hfactor
      obtain ⟨other, -, -, -, -, hother, -, -, hnone, -⟩ := hlinked
      obtain rfl := Option.some.inj (Except.ok.inj (hflow.symm.trans hother))
      rw [hnone] at hshown
      cases hshown
    · intro h userId hacts hfactor
      rcases linked_of_actsAs_callback hacts with hshown | ⟨account, hlinked, rfl⟩ | hnew
      · exact hshown
      · exact absurd hfactor (h account hlinked)
      · exact absurd (hkeys.known hfactor) hnew
  | git session authorization =>
    constructor
    · intro h account hpassword hfactor
      exact not_showsMore_of_password hpassword
        (h account.id (actsAs_git_of_password hpassword) hfactor)
    · intro h userId hacts hfactor
      rcases shown_or_password_of_actsAs_git hacts with hshown | ⟨account, hpassword, rfl⟩
      · exact hshown
      · exact absurd hfactor (h account hpassword)
  | signup id drawn username email password =>
    refine iff_of_true (fun userId hacts hfactor => ?_) trivial
    exact absurd (hkeys.known hfactor) (new_of_actsAs_signup hacts)
  | loginTotp pendingLoginToken code =>
    exact iff_of_true (fun userId hacts _ => actsAs_loginTotp hacts) trivial
  | loginVerify pendingLoginToken stateToken credential =>
    exact iff_of_true (fun userId hacts _ => actsAs_loginVerify hacts) trivial
  | requestPasswordReset email drawn =>
    exact iff_of_true (fun userId hacts _ => absurd hacts not_actsAs_requestPasswordReset) trivial
  | consumePasswordReset token newPassword =>
    exact iff_of_true (fun userId hacts _ => absurd hacts not_actsAs_consumePasswordReset) trivial
  | verifyEmail token =>
    exact iff_of_true (fun userId hacts _ => absurd hacts not_actsAs_verifyEmail) trivial
  | api session authorization =>
    exact iff_of_true (fun userId hacts _ => showsMore_of_actsAs_api hacts) trivial
  | account session =>
    exact iff_of_true (fun userId hacts _ => showsMore_of_actsAs_account hacts) trivial

/-! ### An account that is asked for a code -/

/-- Ada has a password, an activated TOTP credential and a linked identity. -/
def adasAccount : Account :=
  ⟨1, "ada", "ada@edda.dev", "hash of tulip", ⟨none, some 10, some 10⟩⟩

def adasAccounts (failing : Statement → Option DbError) : Accounts where
  users := [adasAccount]
  organizations := []
  totpSecrets := [⟨1, [1, 2, 3], some 20⟩]
  recoveryCodes := []
  passkeys := []
  identities := [⟨1, "idp", "subject"⟩]
  accessTokens := []
  resetTokens := []
  verificationTokens := []
  failing := failing

def adasOutside : Outside where
  sameEmail a b := a == b
  sameName a b := a == b
  verifyPassword password passwordHash := passwordHash == "hash of " ++ password
  hashPassword password := .ok ("hash of " ++ password)
  sha256 text := text
  totpAccepts _ _ code := .ok (code == "123456")
  pendingToken _ := "pending"
  pendingUser token := if token = "pending" then some 1 else none
  ceremonyChallenge _ _ := none
  checkAssertion _ _ _ := none
  decodeBase64 text :=
    if text = "YWRhQGVkZGEuZGV2OnR1bGlw" then some (utf8 "ada@edda.dev:tulip") else none
  throttle _ _ := .ok ()
  now := 100

def adasConfig : Config := ⟨⟨.open, [], false⟩, 3600, false, [⟨"idp", [], .auto⟩]⟩

def brokenTotpRead : Statement → Option DbError
  | .totpActivated => some "connection reset"
  | _ => none

/-- A Basic header with the account password. -/
def adasPush : Request := .git none (some "Basic YWRhQGVkZGEuZGV2OnR1bGlw")

def adasCallback : Request :=
  .callback (.ok (some ⟨"idp", "csrf", none⟩)) "csrf" (.ok ⟨"subject", some "ada@edda.dev"⟩)
    ⟨2, "ada-2", "hash"⟩

theorem adasAccounts_foreignKeys (failing : Statement → Option DbError) :
    (adasAccounts failing).ForeignKeys where
  totpSecrets := by simp [adasAccounts, adasAccount]
  passkeys := by simp [adasAccounts]

theorem adasPush_passwordActor : PasswordActor adasOutside adasConfig (adasAccounts fun _ => none)
    none (some "Basic YWRhQGVkZGEuZGV2OnR1bGlw") adasAccount := by
  refine ⟨none, "ada@edda.dev", "tulip", ?_, ?_, ?_, ?_, ?_, ?_⟩ <;> decide +kernel

/-- The password alone pushes, and signs in while the TOTP credential cannot be read; the external
identity alone signs in. -/
theorem second_factor_is_bypassed :
    ¬ KeepsSecondFactor adasOutside adasConfig (adasAccounts fun _ => none) adasPush ∧
      ¬ KeepsSecondFactor adasOutside adasConfig (adasAccounts brokenTotpRead)
        (.login "ada@edda.dev" "tulip" "127.0.0.1") ∧
      ¬ KeepsSecondFactor adasOutside adasConfig (adasAccounts fun _ => none) adasCallback := by
  have hfactor (failing) : (adasAccounts failing).HasSecondFactor 1 := .inl rfl
  refine ⟨fun h => ?_, fun h => ?_, fun h => ?_⟩
  · exact not_showsMore_of_password adasPush_passwordActor
      (h 1 (actsAs_git_of_password adasPush_passwordActor) (hfactor _))
  · exact h 1 (.inl (by decide +kernel)) (hfactor _)
  · obtain ⟨flow, hflow, hlink⟩ := h 1 (.inl (by decide +kernel)) (hfactor _)
    obtain rfl := Option.some.inj (Except.ok.inj hflow)
    cases hlink

/-- The login that can read the TOTP credential asks for a code. -/
theorem secondFactor_asked :
    (adasAccounts fun _ => none).HasSecondFactor 1 ∧
      KeepsSecondFactor adasOutside adasConfig (adasAccounts fun _ => none)
        (.login "ada@edda.dev" "tulip" "127.0.0.1") := by
  refine ⟨.inl rfl, (secondFactor_iff adasOutside adasConfig _ (adasAccounts_foreignKeys _) _).2 ?_⟩
  rintro account - - (hfactor | hpasskey)
  · exact .inl ⟨hfactor, rfl⟩
  · exact absurd rfl hpasskey

end Edda.App.SignIn
