import Edda.Db.Database
import Edda.Domain.Registration
import Edda.Domain.Validation
import Edda.Support.RustText
import Edda.Support.Table

/-!
# Accounts and credentials

The tables of accounts and of what they authenticate with, and the checks of each kind of
credential: the password, a personal access token, a TOTP or recovery code, a passkey and an
external identity. Any query can fail. What lies outside (password hashing, the cipher and the clock
of TOTP, signatures, the signed tokens between two requests) is a parameter.
-/

set_option autoImplicit false

namespace Edda.Auth

open Edda.Domain Edda.Domain.Validation Edda.Db Edda.Support Edda.Support.RustText

/-! ## The tables -/

/-- A row of `users`. -/
structure Account where
  id : UserId
  username : String
  email : String
  passwordHash : String
  status : AccountStatus
  deriving DecidableEq, Repr

structure TotpSecret where
  userId : UserId
  ciphertext : Bytes
  activatedAt : Option Int
  deriving DecidableEq, Repr

structure RecoveryCode where
  userId : UserId
  codeHash : String
  usedAt : Option Int
  deriving DecidableEq, Repr

structure StoredCredential where
  credentialId : String
  publicKey : String
  alg : Int
  signCount : Nat
  deriving DecidableEq, Repr

/-- A row of `webauthn_credentials`. The stored credential is none where its JSON does not parse. -/
structure Passkey where
  id : BitVec 128
  userId : UserId
  stored : Option StoredCredential
  deriving DecidableEq, Repr

structure OAuthIdentity where
  userId : UserId
  provider : String
  subject : String
  deriving DecidableEq, Repr

structure AccessToken where
  tokenHash : String
  userId : UserId
  repositoryScope : RepositoryScope
  tokenScope : TokenScope
  deriving DecidableEq, Repr

/-- A row of `password_reset_tokens` or of `email_verification_tokens`. -/
structure SingleUseToken where
  id : BitVec 128
  userId : UserId
  tokenHash : String
  expiresAt : Int
  usedAt : Option Int
  deriving DecidableEq, Repr

/-- The statements, one for each place that makes one. -/
inductive Statement where
  | findByEmail
  | getUser
  | sessionUser
  | pendingUser
  | tokenByHash
  | accountStatus
  | totpActivated
  | passkeys
  | totpSecret
  | consumeRecoveryCode
  | assertionPasskeys
  | updatePasskey
  | findIdentity
  | identityUser
  | claimedEmail
  | findOrganization
  | insertUser
  | stampSignupStatus
  | insertIdentity
  | createdUser
  | verificationUser
  | verificationStatus
  | invalidateVerifications
  | insertVerification
  | findVerification
  | markEmailVerified
  | markVerificationUsed
  | resetUser
  | invalidateResets
  | insertReset
  | findReset
  | updatePassword
  | markResetUsed
  | sessionStore
  | sessionStamp
  | sessionLoginAt
  deriving DecidableEq, Repr

/-- `failing` are the statements that fail. -/
structure Accounts where
  users : List Account
  organizations : List String
  totpSecrets : List TotpSecret
  recoveryCodes : List RecoveryCode
  passkeys : List Passkey
  identities : List OAuthIdentity
  accessTokens : List AccessToken
  resetTokens : List SingleUseToken
  verificationTokens : List SingleUseToken
  failing : Statement → Option DbError

inductive WebauthnError where
  | ceremonyExpired
  | noCredentials
  | invalidResponse
  | db (err : DbError)
  deriving DecidableEq, Repr

/-- The answer of an authenticator. -/
structure Assertion where
  rawId : String
  response : Bytes
  deriving DecidableEq, Repr

inductive ThrottleError where
  | lockedOut (retryAfterSeconds : Int)
  | db (err : DbError)
  deriving DecidableEq, Repr

/-- What lies outside. `sameEmail` and `sameName` are how the database compares, `totpAccepts` opens
a stored secret and checks a code against it, `pendingUser` and `ceremonyChallenge` read back what
`pendingToken` and the options of a ceremony have signed, and `checkAssertion` verifies an answer
against a challenge and a credential, and gives its counter. -/
structure Outside where
  sameEmail : String → String → Bool
  sameName : String → String → Bool
  verifyPassword : String → String → Bool
  hashPassword : String → Except String String
  sha256 : String → String
  totpAccepts : Bytes → String → String → Except String Bool
  pendingToken : UserId → String
  pendingUser : String → Option UserId
  ceremonyChallenge : String → UserId → Option Bytes
  checkAssertion : Bytes → StoredCredential → Assertion → Option Nat
  decodeBase64 : String → Option Bytes
  throttle : String → String → Except ThrottleError Unit
  now : Int

section Queries

variable (db : Accounts)

/-- The result of a statement, unless it fails. -/
def Accounts.ask {α : Type} (statement : Statement) (value : α) : Except DbError α :=
  match db.failing statement with
  | some err => .error err
  | none => .ok value

def Accounts.findById (id : UserId) : Option Account := db.users.find? fun user => user.id = id

def Accounts.findByEmail (out : Outside) (email : String) : Option Account :=
  db.users.find? fun user => out.sameEmail user.email email

def Accounts.totpSecret (userId : UserId) : Option TotpSecret :=
  db.totpSecrets.find? fun secret => secret.userId = userId

def Accounts.passkeysOf (userId : UserId) : List Passkey :=
  db.passkeys.filter fun passkey => passkey.userId = userId

/-- An activated TOTP credential. -/
def Accounts.totpActive (userId : UserId) : Bool :=
  (db.totpSecret userId).any fun secret => secret.activatedAt.isSome

/-- An activated TOTP credential or a passkey. -/
def Accounts.HasSecondFactor (userId : UserId) : Prop :=
  db.totpActive userId = true ∨ db.passkeysOf userId ≠ []

instance (userId : UserId) : Decidable (db.HasSecondFactor userId) :=
  inferInstanceAs (Decidable (_ ∨ _))

/-- The foreign keys from the second factors to the accounts. -/
structure Accounts.ForeignKeys : Prop where
  totpSecrets : ∀ secret ∈ db.totpSecrets, secret.userId ∈ db.users.map Account.id
  passkeys : ∀ passkey ∈ db.passkeys, passkey.userId ∈ db.users.map Account.id

end Queries

/-! ## The credentials -/

def requireEnabled (account : Account) : Bool := account.status.disabledAt.isNone

section Credentials

variable (out : Outside) (db : Accounts)

/-- `Backend::authenticate`. A disabled account fails as a wrong password does. -/
def authenticate (email password : String) : Except DbError (Option Account) :=
  match db.ask .findByEmail (db.findByEmail out email) with
  | .error err => .error err
  | .ok none => .ok none
  | .ok (some account) =>
    if requireEnabled account = false then .ok none
    else if out.verifyPassword password account.passwordHash then .ok (some account)
    else .ok none

/-- `tokens::authenticate`. -/
def authenticateToken (rawToken : String) : Option (Account × AccessToken) :=
  if (stripPrefix "edda_pat_".toList rawToken.toList).isNone then none
  else match db.ask .tokenByHash (db.accessTokens.find? fun token =>
      token.tokenHash = out.sha256 rawToken) with
    | .ok (some token) => match db.findById token.userId with
      | some account => if requireEnabled account then some (account, token) else none
      | none => none
    | _ => none

/-- `totp::is_activated`. -/
def isActivated (userId : UserId) : Except DbError Bool :=
  db.ask .totpActivated (db.totpActive userId)

/-- `webauthn::list`. -/
def listPasskeys (userId : UserId) : Except DbError (List Passkey) :=
  db.ask .passkeys (db.passkeysOf userId)

inductive TotpError where
  | notEnrolled
  | secretBox (err : String)
  | db (err : DbError)
  deriving DecidableEq, Repr

def isSpendable (userId : UserId) (codeHash : String) (code : RecoveryCode) : Bool :=
  decide (code.userId = userId) && decide (code.codeHash = codeHash) && code.usedAt.isNone

/-- `totp::verify`. A recovery code is spent when it is accepted. -/
def verifyTotp (userId : UserId) (accountName submitted : String) :
    Accounts × Except TotpError Bool :=
  match db.ask .totpSecret (db.totpSecret userId) with
  | .error err => (db, .error (.db err))
  | .ok none => (db, .error .notEnrolled)
  | .ok (some secret) =>
    if secret.activatedAt.isNone then (db, .error .notEnrolled)
    else
      let selected := isSpendable userId (out.sha256 submitted)
      match db.ask .consumeRecoveryCode (Table.affected db.recoveryCodes selected) with
      | .error err => (db, .error (.db err))
      | .ok (_ + 1) =>
        let spent := Table.update db.recoveryCodes selected fun code =>
          { code with usedAt := some out.now }
        ({ db with recoveryCodes := spent }, .ok true)
      | .ok 0 => match out.totpAccepts secret.ciphertext accountName submitted with
        | .error err => (db, .error (.secretBox err))
        | .ok accepted => (db, .ok accepted)

/-- The row that an answer names. A row before it that does not parse ends the search. -/
def matchPasskey (rawId : String) :
    List Passkey → Except WebauthnError (BitVec 128 × StoredCredential)
  | [] => .error .invalidResponse
  | passkey :: rest => match passkey.stored with
    | none => .error .invalidResponse
    | some stored =>
      if stored.credentialId = rawId then .ok (passkey.id, stored) else matchPasskey rawId rest

/-- A counter that is in use has to grow. -/
def counterRegressed (stored new : Nat) : Bool :=
  decide (stored ≠ 0 ∨ new ≠ 0) && decide (new ≤ stored)

/-- `webauthn::finish_authentication`. -/
def finishAuthentication (stateToken : String) (userId : UserId) (credential : Assertion) :
    Accounts × Except WebauthnError Unit :=
  match out.ceremonyChallenge stateToken userId with
  | none => (db, .error .ceremonyExpired)
  | some challenge => match db.ask .assertionPasskeys (db.passkeysOf userId) with
    | .error err => (db, .error (.db err))
    | .ok [] => (db, .error .noCredentials)
    | .ok (first :: rest) => match matchPasskey credential.rawId (first :: rest) with
      | .error err => (db, .error err)
      | .ok (rowId, stored) => match out.checkAssertion challenge stored credential with
        | none => (db, .error .invalidResponse)
        | some counter =>
          if counterRegressed stored.signCount counter then (db, .error .invalidResponse)
          else match db.ask .updatePasskey () with
            | .error err => (db, .error (.db err))
            | .ok () =>
              let passkeys := Table.update db.passkeys (fun passkey => passkey.id = rowId)
                fun passkey => { passkey with stored := some { stored with signCount := counter } }
              ({ db with passkeys := passkeys }, .ok ())

/-! ## Tokens in links -/

/-- What is drawn for a token. -/
structure DrawnToken where
  id : BitVec 128
  raw : String
  deriving DecidableEq, Repr

/-- Marks every token of a user that is not used yet. -/
def invalidateAll (userId : UserId) (tokens : List SingleUseToken) : List SingleUseToken :=
  Table.update tokens (fun token => decide (token.userId = userId) && token.usedAt.isNone)
    fun token => { token with usedAt := some out.now }

def issueToken (userId : UserId) (drawn : DrawnToken) (ttl : Int) : SingleUseToken :=
  ⟨drawn.id, userId, out.sha256 drawn.raw, out.now + ttl, none⟩

/-- A token that is not used and has not expired. -/
def findValid (rawToken : String) (tokens : List SingleUseToken) : Option SingleUseToken :=
  tokens.find? fun token => token.tokenHash = out.sha256 rawToken ∧ token.usedAt = none ∧
    out.now < token.expiresAt

def markUsed (id : BitVec 128) (tokens : List SingleUseToken) : List SingleUseToken :=
  Table.update tokens (fun token => decide (token.id = id) && token.usedAt.isNone)
    fun token => { token with usedAt := some out.now }

/-- `email_verification::request`. -/
def requestVerification (userId : UserId) (drawn : DrawnToken) :
    Accounts × Except DbError (Option (Account × String)) :=
  match db.ask .verificationUser (db.findById userId) with
  | .error err => (db, .error err)
  | .ok none => (db, .ok none)
  | .ok (some account) =>
    if requireEnabled account = false then (db, .ok none)
    else match db.ask .verificationStatus account.status.emailVerifiedAt with
      | .error err => (db, .error err)
      | .ok (some _) => (db, .ok none)
      | .ok none => match db.ask .invalidateVerifications () with
        | .error err => (db, .error err)
        | .ok () =>
          let invalidated := invalidateAll out userId db.verificationTokens
          match db.ask .insertVerification () with
          | .error err => ({ db with verificationTokens := invalidated }, .error err)
          | .ok () =>
            let issued := issueToken out userId drawn (24 * 3600)
            ({ db with verificationTokens := invalidated ++ [issued] },
              .ok (some (account, drawn.raw)))

inductive ConsumeError where
  | invalidOrExpired
  | emptyPassword
  | hash (err : String)
  | db (err : DbError)
  deriving DecidableEq, Repr

/-- `email_verification::consume`. -/
def consumeVerification (rawToken : String) : Accounts × Except ConsumeError UserId :=
  match db.ask .findVerification (findValid out rawToken db.verificationTokens) with
  | .error err => (db, .error (.db err))
  | .ok none => (db, .error .invalidOrExpired)
  | .ok (some token) => match db.ask .markEmailVerified () with
    | .error err => (db, .error (.db err))
    | .ok () =>
      let users := Table.update db.users (fun user => user.id = token.userId) fun user =>
        { user with status := { user.status with emailVerifiedAt := some out.now } }
      match db.ask .markVerificationUsed () with
      | .error err => ({ db with users := users }, .error (.db err))
      | .ok () =>
        let used := markUsed out token.id db.verificationTokens
        ({ db with users := users, verificationTokens := used }, .ok token.userId)

/-! ## New accounts -/

inductive InsertUserError where
  | usernameTaken
  | emailTaken
  | db (err : DbError)
  deriving DecidableEq, Repr

/-- `UserRepo::insert` and `stamp_signup_status`; a row without a stamp has the defaults of the
schema. The statements are not one transaction. -/
def insertUser (account : Account) : Accounts × Except InsertUserError Unit :=
  match db.ask .insertUser () with
  | .error err => (db, .error (.db err))
  | .ok () =>
    if db.users.any fun user => out.sameName user.username account.username then
      (db, .error .usernameTaken)
    else if db.users.any fun user =>
        out.sameEmail user.email account.email || decide (user.id = account.id) then
      (db, .error .emailTaken)
    else
      let unstamped :=
        { account with
          status := { disabledAt := none, emailVerifiedAt := some out.now, approvedAt := some out.now } }
      match db.ask .stampSignupStatus () with
      | .error err => ({ db with users := db.users ++ [unstamped] }, .error (.db err))
      | .ok () => ({ db with users := db.users ++ [account] }, .ok ())

inductive SignupError where
  | emailTaken
  | usernameTaken
  | invalidUsername
  | empty
  | registrationClosed
  | emailDomainNotAllowed
  | db (err : DbError)
  | hash (err : String)
  deriving DecidableEq, Repr

def SignupError.ofInsert : InsertUserError → SignupError
  | .usernameTaken => .usernameTaken
  | .emailTaken => .emailTaken
  | .db err => .db err

structure SignupOutcome where
  user : Account
  pendingApproval : Bool
  deriving DecidableEq, Repr

def SignupError.message : SignupError → String
  | .emailTaken => "that email is already registered"
  | .usernameTaken => "that username is already taken"
  | .invalidUsername => "username must be 1-39 characters, start and end with a letter or digit, " ++
      "and contain only letters, digits, '-' or '_'"
  | .empty => "username, email and password can't be empty"
  | .registrationClosed => "registration is closed on this instance"
  | .emailDomainNotAllowed =>
    "this instance only accepts registrations from an approved email domain"
  | .db err => err
  | .hash err => err

/-- `signup`. The id of the account and the token of its verification are drawn. -/
def signup (policy : RegistrationPolicy) (id : UserId) (drawn : DrawnToken)
    (username email password : String) : Accounts × Except SignupError SignupOutcome :=
  let username := String.ofList (trim username.toList)
  let email := String.ofList (trim email.toList)
  if username = "" ∨ email = "" ∨ password = "" then (db, .error .empty)
  else if policy.permitsSignup = false then (db, .error .registrationClosed)
  else if policy.emailDomainAllowed email = false then (db, .error .emailDomainNotAllowed)
  else if isValidUsername username = false then (db, .error .invalidUsername)
  else match db.ask .findOrganization (db.organizations.any (out.sameName username)) with
    | .error err => (db, .error (.db err))
    | .ok true => (db, .error .usernameTaken)
    | .ok false => match out.hashPassword password with
      | .error err => (db, .error (.hash err))
      | .ok passwordHash =>
        let stamp (holds : Bool) := if holds then some out.now else none
        let account := ⟨id, username, email, passwordHash,
          ⟨none, stamp (!policy.requireEmailVerification), stamp policy.autoApproves⟩⟩
        match insertUser out db account with
        | (db, .error err) => (db, .error (.ofInsert err))
        | (db, .ok ()) =>
          let outcome := ⟨account, !policy.autoApproves⟩
          if policy.requireEmailVerification then
            match requestVerification out db id drawn with
            | (db, .error err) => (db, .error (.db err))
            | (db, .ok _) => (db, .ok outcome)
          else (db, .ok outcome)

/-! ## External identities -/

inductive Provisioning where
  | auto
  | linkOnly
  | approval
  deriving DecidableEq, Repr

structure ProviderConfig where
  name : String
  allowedEmailDomains : List String
  provisioning : Provisioning
  deriving DecidableEq, Repr

inductive OAuthError where
  | verification (err : String)
  | noEmail
  | db (err : DbError)
  deriving DecidableEq, Repr

inductive LoginOutcome where
  | loggedIn (user : Account)
  | newAccountCreated (user : Account)
  | newAccountPendingApproval (user : Account)
  | emailBelongsToExistingAccount
  | provisioningNotAllowed
  | emailDomainNotAllowed
  deriving DecidableEq, Repr

/-- What a provider says of who signs in, once its answer is verified. -/
structure Claims where
  subject : String
  email : Option String
  deriving DecidableEq, Repr

/-- What is drawn for a new account: its id, a name derived from the address, and the hash of a
password that nobody knows. -/
structure Drawn where
  id : UserId
  username : String
  passwordHash : String
  deriving DecidableEq, Repr

def InsertUserError.asOAuth : InsertUserError → OAuthError
  | .usernameTaken => .verification "that username is already taken"
  | .emailTaken => .verification "that email is already registered"
  | .db err => .db err

def Accounts.findIdentity (provider subject : String) : Option OAuthIdentity :=
  db.identities.find? fun identity =>
    identity.provider = provider ∧ identity.subject = subject

/-- Creates the account of a new address. -/
def provision (provider : ProviderConfig) (subject email : String) (drawn : Drawn)
    (approvedAt : Option Int) : Accounts × Except OAuthError LoginOutcome :=
  let account : Account :=
    ⟨drawn.id, drawn.username, email, drawn.passwordHash, ⟨none, some out.now, approvedAt⟩⟩
  match insertUser out db account with
  | (db, .error err) => (db, .error err.asOAuth)
  | (db, .ok ()) => match db.ask .insertIdentity () with
    | .error err => (db, .error (.db err))
    | .ok () =>
      let linked : OAuthIdentity := ⟨drawn.id, provider.name, subject⟩
      let db := { db with identities := db.identities ++ [linked] }
      match db.ask .createdUser (), provider.provisioning with
      | .error err, _ => (db, .error (.db err))
      | .ok (), .approval => (db, .ok (.newAccountPendingApproval account))
      | .ok (), _ => (db, .ok (.newAccountCreated account))

/-- `oauth::complete`, from what the provider has answered. A linked identity without its account
would be a panic. -/
def complete (provider : ProviderConfig) (answer : Except String Claims) (drawn : Drawn) :
    Accounts × Except OAuthError LoginOutcome :=
  match answer with
  | .error err => (db, .error (.verification err))
  | .ok ⟨_, none⟩ => (db, .error .noEmail)
  | .ok ⟨subject, some email⟩ =>
    match db.ask .findIdentity (db.findIdentity provider.name subject) with
    | .error err => (db, .error (.db err))
    | .ok (some identity) => match db.ask .identityUser (db.findById identity.userId) with
      | .error err => (db, .error (.db err))
      | .ok none => (db, .error (.db "a linked identity always points at an existing user"))
      | .ok (some account) => (db, .ok (.loggedIn account))
    | .ok none =>
      if emailDomainAllowed provider.allowedEmailDomains email = false then
        (db, .ok .emailDomainNotAllowed)
      else match db.ask .claimedEmail (db.findByEmail out email) with
        | .error err => (db, .error (.db err))
        | .ok (some _) => (db, .ok .emailBelongsToExistingAccount)
        | .ok none => match provider.provisioning with
          | .linkOnly => (db, .ok .provisioningNotAllowed)
          | .auto => provision out db provider subject email drawn (some out.now)
          | .approval => provision out db provider subject email drawn none

/-! ## Password resets -/

/-- `password_reset::request`. -/
def requestReset (email : String) (drawn : DrawnToken) :
    Accounts × Except DbError (Option (Account × String)) :=
  match db.ask .resetUser (db.findByEmail out email) with
  | .error err => (db, .error err)
  | .ok none => (db, .ok none)
  | .ok (some account) =>
    if requireEnabled account = false then (db, .ok none)
    else match db.ask .invalidateResets () with
      | .error err => (db, .error err)
      | .ok () =>
        let invalidated := invalidateAll out account.id db.resetTokens
        match db.ask .insertReset () with
        | .error err => ({ db with resetTokens := invalidated }, .error err)
        | .ok () =>
          let issued := issueToken out account.id drawn 3600
          ({ db with resetTokens := invalidated ++ [issued] }, .ok (some (account, drawn.raw)))

/-- `password_reset::consume`. -/
def consumeReset (rawToken newPassword : String) : Accounts × Except ConsumeError UserId :=
  if newPassword = "" then (db, .error .emptyPassword)
  else match db.ask .findReset (findValid out rawToken db.resetTokens) with
    | .error err => (db, .error (.db err))
    | .ok none => (db, .error .invalidOrExpired)
    | .ok (some token) => match out.hashPassword newPassword with
      | .error err => (db, .error (.hash err))
      | .ok passwordHash => match db.ask .updatePassword () with
        | .error err => (db, .error (.db err))
        | .ok () =>
          let users := Table.update db.users (fun user => user.id = token.userId)
            fun user => { user with passwordHash := passwordHash }
          match db.ask .markResetUsed () with
          | .error err => ({ db with users := users }, .error (.db err))
          | .ok () =>
            let used := markUsed out token.id db.resetTokens
            ({ db with users := users, resetTokens := used }, .ok token.userId)

end Credentials

/-! ## What the checks establish -/

section Facts

variable {out : Outside} {db : Accounts}

theorem Accounts.ask_eq_ok {α : Type} {statement : Statement} {value found : α} :
    db.ask statement value = .ok found ↔ db.failing statement = none ∧ value = found := by
  rw [Accounts.ask]
  cases db.failing statement with
  | none => simp
  | some err => simp

/-- Whoever has a second factor has an account. -/
theorem Accounts.ForeignKeys.known (hkeys : db.ForeignKeys) {userId : UserId}
    (h : db.HasSecondFactor userId) : userId ∈ db.users.map Account.id := by
  rcases h with htotp | hpasskey
  · obtain ⟨secret, hfind, -⟩ := (Option.any_eq_true _ _).1 htotp
    have hid : secret.userId = userId := by simpa using List.find?_some hfind
    exact hid ▸ hkeys.totpSecrets secret (List.mem_of_find?_eq_some hfind)
  · obtain ⟨passkey, hmem⟩ := List.exists_mem_of_ne_nil _ hpasskey
    obtain ⟨hrow, hid⟩ := List.mem_filter.1 hmem
    exact of_decide_eq_true hid ▸ hkeys.passkeys passkey hrow

/-- The id of an account that was inserted was free. -/
theorem insertUser_ok {account : Account} (h : (insertUser out db account).2 = .ok ()) :
    account.id ∉ db.users.map Account.id := by
  intro hmem
  obtain ⟨user, huser, hid⟩ := List.mem_map.1 hmem
  simp only [insertUser] at h
  split at h
  · cases h
  · split at h
    · cases h
    · split at h
      · cases h
      · rename_i hfree
        refine hfree (List.any_eq_true.2 ⟨user, huser, ?_⟩)
        simp [hid]

/-- The id of an account that signed up was free. -/
theorem new_of_signup {policy : RegistrationPolicy} {id : UserId} {drawn : DrawnToken}
    {username email password : String} {after : Accounts} {outcome : SignupOutcome}
    (h : signup out db policy id drawn username email password = (after, .ok outcome)) :
    outcome.user.id ∉ db.users.map Account.id := by
  simp only [signup] at h
  split at h
  · cases h
  split at h
  · cases h
  split at h
  · cases h
  split at h
  · cases h
  split at h
  · cases h
  · cases h
  · split at h
    · cases h
    · split at h
      · cases h
      · rename_i inserted hinsert
        have hnew := insertUser_ok (by rw [hinsert])
        split at h
        · split at h
          · cases h
          · obtain ⟨-, houtcome⟩ := Prod.mk.inj h
            obtain rfl := Except.ok.inj houtcome
            exact hnew
        · obtain ⟨-, houtcome⟩ := Prod.mk.inj h
          obtain rfl := Except.ok.inj houtcome
          exact hnew

theorem new_of_provision {provider : ProviderConfig} {subject email : String} {drawn : Drawn}
    {approvedAt : Option Int} {after : Accounts} {account : Account}
    (h : provision out db provider subject email drawn approvedAt =
      (after, .ok (.newAccountCreated account))) :
    account.id ∉ db.users.map Account.id := by
  simp only [provision] at h
  split at h
  · cases h
  · rename_i inserted hinsert
    have hnew := insertUser_ok (by rw [hinsert])
    split at h
    · cases h
    · split at h
      · cases h
      · cases h
      · obtain ⟨-, houtcome⟩ := Prod.mk.inj h
        obtain rfl := LoginOutcome.newAccountCreated.inj (Except.ok.inj houtcome)
        exact hnew

/-- A new account is never a returning identity. -/
theorem provision_ne_loggedIn {provider : ProviderConfig} {subject email : String} {drawn : Drawn}
    {approvedAt : Option Int} {after : Accounts} {account : Account} :
    provision out db provider subject email drawn approvedAt ≠ (after, .ok (.loggedIn account)) := by
  intro h
  simp only [provision] at h
  split at h
  · cases h
  · split at h
    · cases h
    · split at h <;> cases h

/-- A provider signs in an account that was there when an identity of it is linked. -/
theorem complete_eq_loggedIn {provider : ProviderConfig} {answer : Except String Claims}
    {drawn : Drawn} {after : Accounts} {account : Account} :
    complete out db provider answer drawn = (after, .ok (.loggedIn account)) ↔
      after = db ∧ ∃ subject email identity, answer = .ok ⟨subject, some email⟩ ∧
        db.failing .findIdentity = none ∧ db.findIdentity provider.name subject = some identity ∧
        db.failing .identityUser = none ∧ db.findById identity.userId = some account := by
  constructor
  · intro h
    simp only [complete] at h
    split at h
    · cases h
    · cases h
    · rename_i subject email
      split at h
      · cases h
      · rename_i identity hfind
        obtain ⟨hread, hidentity⟩ := Accounts.ask_eq_ok.1 hfind
        split at h
        · cases h
        · cases h
        · rename_i found hfound
          obtain ⟨hreadUser, huser⟩ := Accounts.ask_eq_ok.1 hfound
          obtain ⟨rfl, houtcome⟩ := Prod.mk.inj h
          obtain rfl := LoginOutcome.loggedIn.inj (Except.ok.inj houtcome)
          exact ⟨rfl, subject, email, identity, rfl, hread, hidentity, hreadUser, huser⟩
      · split at h
        · cases h
        · split at h
          · cases h
          · cases h
          · split at h
            · cases h
            · exact absurd h provision_ne_loggedIn
            · exact absurd h provision_ne_loggedIn
  · rintro ⟨rfl, subject, email, identity, rfl, hread, hidentity, hreadUser, huser⟩
    simp [complete, Accounts.ask, hread, hidentity, hreadUser, huser]

/-- A provider creates accounts whose id was free. -/
theorem new_of_complete {provider : ProviderConfig} {answer : Except String Claims}
    {drawn : Drawn} {after : Accounts} {account : Account}
    (h : complete out db provider answer drawn = (after, .ok (.newAccountCreated account))) :
    account.id ∉ db.users.map Account.id := by
  simp only [complete] at h
  split at h
  · cases h
  · cases h
  · split at h
    · cases h
    · split at h <;> cases h
    · split at h
      · cases h
      · split at h
        · cases h
        · cases h
        · split at h
          · cases h
          · exact new_of_provision h
          · exact new_of_provision h

end Facts

end Edda.Auth
