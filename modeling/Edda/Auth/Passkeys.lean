import Edda.Auth.Accounts
import Edda.Auth.PasskeyKeys
import Edda.Support.Runs
import Edda.Support.TextCodecs

/-!
# Passkey ceremonies

A registration and a sign-in with a passkey are two requests each. The first gives out a challenge and
a signed token that holds it, the second brings both back with the answer of an authenticator. What is
known between them is in the token only, and a sign-in reads the stored credentials in one statement
and writes the counter of the answer in a later one, so that anything may come in between.
`sign_in_is_proven` says what each sign-in proves, and `checked_iff` which answers are taken.

The formats of the messages, the hash and the signatures are a parameter. So are the tokens, which
open to claims if they were signed here.
-/

set_option autoImplicit false

namespace Edda.Auth.Passkeys

open Edda.Domain Edda.Db Edda.Support Edda.Support.RustText Edda.Support.TextCodecs

/-! ## Messages -/

/-- The relying party. -/
structure Config where
  rpId : String
  origin : String
  requireUv : Bool
  allowCrossOrigin : Bool
  deriving DecidableEq, Repr

inductive Purpose where
  | register
  | authenticate
  deriving DecidableEq, Repr

structure CeremonyClaims where
  userId : String
  challenge : String
  purpose : Purpose
  exp : Nat
  deriving DecidableEq, Repr

inductive ClientDataType where
  | create
  | get
  | paymentGet
  deriving DecidableEq, Repr

/-- `CollectedClientData`. -/
structure ClientData where
  ty : ClientDataType
  challenge : String
  origin : String
  crossOrigin : Option Bool
  deriving DecidableEq, Repr

structure Flags where
  up : Bool
  uv : Bool
  deriving DecidableEq, Repr

structure AttestedCredential where
  credentialId : Bytes
  key : CoseKey

/-- `AuthenticatorData`. -/
structure AuthData where
  rpIdHash : Bytes
  flags : Flags
  counter : Option Nat
  attested : Option AttestedCredential

/-- The credential of `navigator.credentials.create()`. -/
structure AttestationResponse where
  clientDataJson : Bytes
  attestationObject : Bytes
  publicKeyAlgorithm : Int
  deriving DecidableEq, Repr

/-- The credential of `navigator.credentials.get()`. -/
structure AssertionResponse where
  rawId : Bytes
  clientDataJson : Bytes
  authenticatorData : Bytes
  signature : Bytes
  deriving DecidableEq, Repr

/-- `openToken` checks the signature of a ceremony token and reads its claims. -/
structure Libraries where
  openToken : String → Option CeremonyClaims
  sha256 : Bytes → Bytes
  clientData : Bytes → Option ClientData
  cbor : Bytes → Option CborValue
  authData : Bytes → Option AuthData
  keys : KeyLibraries

variable (lib : Libraries) (config : Config)

/-! ## Checks -/

def ceremonyTtlSeconds : Nat := 120

/-- How long a token is good after its end, by the default of the validation. -/
def leewaySeconds : Nat := 60

/-- The claims that `issue_ceremony_token` signs. -/
def ceremonyClaims (now : Nat) (userId : UserId) (challenge : Bytes) (purpose : Purpose) :
    CeremonyClaims :=
  ⟨uuidText userId, encode challenge, purpose, now + ceremonyTtlSeconds⟩

def verifyCeremonyToken (now : Nat) (token : String) (expectedPurpose : Purpose)
    (expectedUserId : UserId) : Except WebauthnError Bytes :=
  match lib.openToken token with
  | none => .error .ceremonyExpired
  | some claims =>
    if claims.exp + leewaySeconds < now then .error .ceremonyExpired
    else if claims.purpose ≠ expectedPurpose ∨ claims.userId ≠ uuidText expectedUserId then
      .error .ceremonyExpired
    else match decode claims.challenge with
      | none => .error .invalidResponse
      | some challenge => .ok challenge

/-- The bytes under `authData` in an attestation object. -/
def extractAuthData (attestationObject : Bytes) : Option Bytes :=
  match lib.cbor attestationObject with
  | some (.map entries) => entries.findSome? fun
    | (.text key, .bytes value) => if key = "authData" then some value else none
    | _ => none
  | _ => none

def rpIdHash (rpId : String) : Bytes := lib.sha256 (utf8 rpId)

def challengeEchoedCorrectly (clientChallenge : String) (expected : Bytes) : Bool :=
  decode clientChallenge = some expected

def crossOriginOk (clientData : ClientData) : Bool :=
  config.allowCrossOrigin || decide (clientData.crossOrigin ≠ some true)

def userVerificationOk (flags : Flags) : Bool := !config.requireUv || flags.uv

/-- The checks of the client data in both ceremonies. -/
def clientDataOk (ty : ClientDataType) (challenge : Bytes) (clientData : ClientData) : Bool :=
  decide (clientData.ty = ty) && crossOriginOk config clientData &&
    challengeEchoedCorrectly clientData.challenge challenge &&
    decide (clientData.origin = config.origin)

/-- The checks of the authenticator data in both ceremonies. -/
def authDataOk (authData : AuthData) : Bool :=
  decide (authData.rpIdHash = rpIdHash lib config.rpId) && authData.flags.up &&
    userVerificationOk config authData.flags

def offeredAlgorithms : List Int := [coseAlgEs256, coseAlgEddsa, coseAlgRs256]

/-- The checks of `finish_registration` behind its token, and the credential that it stores. Whatever
fails is an `InvalidResponse`. -/
def checkAttestation (challenge : Bytes) (response : AttestationResponse) : Option StoredCredential := do
  let clientData ← lib.clientData response.clientDataJson
  guard (clientDataOk config .create challenge clientData)
  let authDataBytes ← extractAuthData lib response.attestationObject
  let authData ← lib.authData authDataBytes
  guard (authDataOk lib config authData)
  let attested ← authData.attested
  guard (response.publicKeyAlgorithm ∈ offeredAlgorithms)
  let publicKey ← extractPublicKey lib.keys response.publicKeyAlgorithm attested.key
  some ⟨encode attested.credentialId, encode publicKey, response.publicKeyAlgorithm,
    authData.counter.getD 0⟩

/-- The checks of `finish_authentication` behind the search for the credential. -/
def checkAssertion (challenge : Bytes) (stored : StoredCredential) (response : AssertionResponse) :
    Option StoredCredential := do
  let clientData ← lib.clientData response.clientDataJson
  guard (clientDataOk config .get challenge clientData)
  let authData ← lib.authData response.authenticatorData
  guard (authDataOk lib config authData)
  let publicKey ← decode stored.publicKey
  guard (verifyAssertionSignature lib.keys stored.alg publicKey
    (response.authenticatorData ++ lib.sha256 response.clientDataJson) response.signature)
  let newCounter := authData.counter.getD 0
  guard (!counterRegressed stored.signCount newCounter)
  some { stored with signCount := newCounter }

/-! ## The table -/

/-- A row of `webauthn_credentials`. -/
structure CredentialRow extends Passkey where
  label : String
  createdAt : Nat
  lastUsedAt : Option Nat
  deriving DecidableEq, Repr

inductive Statement where
  | listForUser
  | insert
  | invalidateResets
  | updatePasskey
  | delete
  deriving DecidableEq, Repr

/-- `WebauthnRepo::list_for_user`. -/
def listForUser (rows : List CredentialRow) (userId : UserId) : List CredentialRow :=
  (rows.filter fun row => row.userId = userId).insertionSort fun row row' =>
    row.createdAt ≤ row'.createdAt

/-- The first row with the credential. A row before it that does not parse ends the search. -/
def matchCredential (rawId : String) : List CredentialRow → Option (BitVec 128 × StoredCredential)
  | [] => none
  | row :: rest => row.stored.bind fun stored =>
    if stored.credentialId = rawId then some (row.id, stored) else matchCredential rawId rest

/-- The identifiers of stored credentials, as the options of a ceremony list them. -/
def descriptors (rows : List CredentialRow) : Option (List Bytes) :=
  rows.mapM fun row => row.stored.bind fun stored => decode stored.credentialId

/-! ## The requests -/

inductive UserVerification where
  | required
  | preferred
  deriving DecidableEq, Repr

def uvRequirement : UserVerification := if config.requireUv then .required else .preferred

/-- `PublicKeyCredentialCreationOptions`. -/
structure CreationOptions where
  rpId : String
  rpName : String
  userId : UserId
  userName : String
  displayName : String
  challenge : Bytes
  pubKeyCredParams : List Int
  excludeCredentials : Option (List Bytes)
  userVerification : UserVerification
  deriving DecidableEq, Repr

/-- `PublicKeyCredentialRequestOptions`. -/
structure RequestOptions where
  challenge : Bytes
  rpId : String
  allowCredentials : List Bytes
  userVerification : UserVerification
  deriving DecidableEq, Repr

/-- A sign-in whose answer is checked and whose counter is still to be written. -/
structure Attempt where
  userId : UserId
  stateToken : String
  response : AssertionResponse
  rowId : BitVec 128
  stored : StoredCredential
  deriving DecidableEq, Repr

/-- `issued` are the tokens that were given out, and `drawn` the identifiers of all rows ever. -/
structure World where
  rows : List CredentialRow
  pending : List Attempt
  issued : List String
  drawn : List (BitVec 128)
  deriving DecidableEq, Repr

def World.start : World := ⟨[], [], [], []⟩

/-- A request, with what is drawn at random in it. `update` is the second statement of a sign-in. -/
inductive Request where
  | beginRegistration (userId : UserId) (username displayName : String) (challenge : Bytes)
      (token : String)
  | finishRegistration (stateToken : String) (userId : UserId) (label : String) (id : BitVec 128)
      (response : AttestationResponse)
  | beginAuthentication (userId : UserId) (challenge : Bytes) (token : String)
  | finishAuthentication (stateToken : String) (userId : UserId) (response : AssertionResponse)
  | update (attempt : Nat)
  | revoke (userId : UserId) (id : BitVec 128)
  deriving DecidableEq, Repr

/-- `failing` are the statements that fail. -/
structure Event where
  now : Nat
  failing : Statement → Option DbError
  request : Request

inductive Output where
  | creation (options : CreationOptions) (token : String)
  | registered
  | request (options : RequestOptions) (token : String)
  | noPasskeys
  | checked
  | authenticated (attempt : Attempt)
  | revoked (found : Bool)
  | refused (err : WebauthnError)
  | idle
  deriving DecidableEq, Repr

def beginRegistration (rows : List CredentialRow) (failing : Statement → Option DbError)
    (userId : UserId) (username displayName : String) (challenge : Bytes) :
    Except WebauthnError CreationOptions :=
  match failing .listForUser with
  | some err => .error (.db err)
  | none => match descriptors (listForUser rows userId) with
    | none => .error .invalidResponse
    | some excluded => .ok {
        rpId := config.rpId
        rpName := "Edda"
        userId := userId
        userName := username
        displayName := displayName
        challenge := challenge
        pubKeyCredParams := offeredAlgorithms
        excludeCredentials := if excluded.isEmpty then none else some excluded
        userVerification := uvRequirement config }

/-- `finish_registration`. A failure behind the insert leaves the credential in the table. -/
def finishRegistration (rows : List CredentialRow) (failing : Statement → Option DbError) (now : Nat)
    (stateToken : String) (userId : UserId) (label : String) (id : BitVec 128)
    (response : AttestationResponse) : List CredentialRow × Except WebauthnError Unit :=
  match verifyCeremonyToken lib now stateToken .register userId with
  | .error err => (rows, .error err)
  | .ok challenge => match checkAttestation lib config challenge response with
    | none => (rows, .error .invalidResponse)
    | some stored => match failing .insert with
      | some err => (rows, .error (.db err))
      | none =>
        let row : CredentialRow := ⟨⟨id, userId, some stored⟩, label, now, none⟩
        match failing .invalidateResets with
        | some err => (rows ++ [row], .error (.db err))
        | none => (rows ++ [row], .ok ())

/-- `begin_authentication`. There are no options for an account without a credential. -/
def beginAuthentication (rows : List CredentialRow) (failing : Statement → Option DbError)
    (userId : UserId) (challenge : Bytes) : Except WebauthnError (Option RequestOptions) :=
  match failing .listForUser with
  | some err => .error (.db err)
  | none =>
    let existing := listForUser rows userId
    if existing.isEmpty then .ok none
    else match descriptors existing with
      | none => .error .invalidResponse
      | some allowed => .ok (some ⟨challenge, config.rpId, allowed, uvRequirement config⟩)

/-- `finish_authentication` up to its update. -/
def checkAuthentication (rows : List CredentialRow) (failing : Statement → Option DbError) (now : Nat)
    (stateToken : String) (userId : UserId) (response : AssertionResponse) :
    Except WebauthnError Attempt :=
  match verifyCeremonyToken lib now stateToken .authenticate userId with
  | .error err => .error err
  | .ok challenge => match failing .listForUser with
    | some err => .error (.db err)
    | none =>
      let existing := listForUser rows userId
      if existing.isEmpty then .error .noCredentials
      else match matchCredential (encode response.rawId) existing with
        | none => .error .invalidResponse
        | some (rowId, stored) => match checkAssertion lib config challenge stored response with
          | none => .error .invalidResponse
          | some stored => .ok ⟨userId, stateToken, response, rowId, stored⟩

/-- `WebauthnRepo::update_passkey`. -/
def updatePasskey (rows : List CredentialRow) (now : Nat) (attempt : Attempt) : List CredentialRow :=
  rows.map fun row =>
    if row.id = attempt.rowId then { row with stored := some attempt.stored, lastUsedAt := some now }
    else row

/-- `WebauthnRepo::delete`. -/
def deletePasskey (rows : List CredentialRow) (userId : UserId) (id : BitVec 128) : List CredentialRow :=
  rows.filter fun row => ¬ (row.id = id ∧ row.userId = userId)

def step (w : World) (event : Event) : World × Output :=
  match event.request with
  | .beginRegistration userId username displayName challenge token =>
    match beginRegistration config w.rows event.failing userId username displayName challenge with
    | .error err => (w, .refused err)
    | .ok options => ({ w with issued := token :: w.issued }, .creation options token)
  | .finishRegistration stateToken userId label id response =>
    let (rows, result) :=
      finishRegistration lib config w.rows event.failing event.now stateToken userId label id response
    ({ w with rows := rows, drawn := id :: w.drawn },
      match result with
      | .error err => .refused err
      | .ok () => .registered)
  | .beginAuthentication userId challenge token =>
    match beginAuthentication config w.rows event.failing userId challenge with
    | .error err => (w, .refused err)
    | .ok none => (w, .noPasskeys)
    | .ok (some options) => ({ w with issued := token :: w.issued }, .request options token)
  | .finishAuthentication stateToken userId response =>
    match checkAuthentication lib config w.rows event.failing event.now stateToken userId response with
    | .error err => (w, .refused err)
    | .ok attempt => ({ w with pending := w.pending ++ [attempt] }, .checked)
  | .update n => match w.pending[n]? with
    | none => (w, .idle)
    | some attempt => match event.failing .updatePasskey with
      | some err => ({ w with pending := w.pending.eraseIdx n }, .refused (.db err))
      | none =>
        ({ w with rows := updatePasskey w.rows event.now attempt, pending := w.pending.eraseIdx n },
          .authenticated attempt)
  | .revoke userId id => match event.failing .delete with
    | some err => (w, .refused (.db err))
    | none =>
      ({ w with rows := deletePasskey w.rows userId id },
        .revoked (w.rows.any fun row => row.id = id ∧ row.userId = userId))

def next (w : World) (event : Event) : World := (step lib config w event).1

/-- The world after some events. -/
def after (events : List Event) : World := Runs.run (next lib config) World.start events

/-! ## What each function says -/

/-- The client data is an answer of the kind to the challenge, from this origin. -/
def Answers (ty : ClientDataType) (challenge clientDataJson : Bytes) : Prop :=
  ∃ clientData, lib.clientData clientDataJson = some clientData ∧ clientData.ty = ty ∧
    (clientData.crossOrigin = some true → config.allowCrossOrigin = true) ∧
    decode clientData.challenge = some challenge ∧ clientData.origin = config.origin

/-- The authenticator was asked by this relying party, with its user there. -/
structure Present (authData : AuthData) : Prop where
  relyingParty : authData.rpIdHash = lib.sha256 (utf8 config.rpId)
  userPresent : authData.flags.up = true
  userVerified : config.requireUv = true → authData.flags.uv = true

section Specs

variable {lib config}

theorem verify_eq_ok_iff {now : Nat} {token : String} {purpose : Purpose} {userId : UserId}
    {challenge : Bytes} : verifyCeremonyToken lib now token purpose userId = .ok challenge ↔
      ∃ claims, lib.openToken token = some claims ∧ now ≤ claims.exp + leewaySeconds ∧
        claims.purpose = purpose ∧ claims.userId = uuidText userId ∧
        decode claims.challenge = some challenge := by
  rw [verifyCeremonyToken]
  cases lib.openToken token with
  | none => simp
  | some claims =>
    simp only [Option.some.injEq, exists_eq_left']
    split_ifs with hexpired hother
    · simp only [false_iff]
      rintro ⟨hnow, -⟩
      omega
    · simp only [false_iff]
      rintro ⟨-, hpurpose, huser, -⟩
      exact hother.elim (absurd hpurpose) (absurd huser)
    · rw [not_or, not_not, not_not] at hother
      rw [and_iff_right (by omega), and_iff_right hother.1, and_iff_right hother.2]
      cases decode claims.challenge <;> simp

theorem clientDataOk_iff {ty : ClientDataType} {challenge : Bytes} {clientData : ClientData} :
    clientDataOk config ty challenge clientData = true ↔ clientData.ty = ty ∧
      (clientData.crossOrigin = some true → config.allowCrossOrigin = true) ∧
      decode clientData.challenge = some challenge ∧ clientData.origin = config.origin := by
  simp only [clientDataOk, crossOriginOk, challengeEchoedCorrectly, Bool.and_eq_true,
    Bool.or_eq_true, decide_eq_true_eq, and_assoc]
  have hcross : (config.allowCrossOrigin = true ∨ clientData.crossOrigin ≠ some true) ↔
      (clientData.crossOrigin = some true → config.allowCrossOrigin = true) := by
    rw [or_comm, ne_eq, ← imp_iff_not_or]
  rw [hcross]

theorem authDataOk_iff {authData : AuthData} :
    authDataOk lib config authData = true ↔ Present lib config authData := by
  simp only [authDataOk, userVerificationOk, Bool.and_eq_true, Bool.or_eq_true,
    Bool.not_eq_true', decide_eq_true_eq]
  constructor
  · rintro ⟨⟨hparty, hup⟩, huv⟩
    refine ⟨hparty, hup, fun hrequired => ?_⟩
    exact huv.resolve_left (by simp [hrequired])
  · rintro ⟨hparty, hup, huv⟩
    refine ⟨⟨hparty, hup⟩, ?_⟩
    cases hrequired : config.requireUv
    · exact Or.inl rfl
    · exact Or.inr (huv hrequired)

theorem guard_eq_some_iff {p : Prop} [Decidable p] {u : Unit} :
    (guard p : Option Unit) = some u ↔ p := by
  by_cases hp : p <;> simp [guard, hp]

theorem checkAttestation_eq_some_iff {challenge : Bytes} {response : AttestationResponse}
    {stored : StoredCredential} : checkAttestation lib config challenge response = some stored ↔
      Answers lib config .create challenge response.clientDataJson ∧
        ∃ authDataBytes authData attested publicKey,
          extractAuthData lib response.attestationObject = some authDataBytes ∧
          lib.authData authDataBytes = some authData ∧ Present lib config authData ∧
          authData.attested = some attested ∧
          extractPublicKey lib.keys response.publicKeyAlgorithm attested.key = some publicKey ∧
          stored = ⟨encode attested.credentialId, encode publicKey, response.publicKeyAlgorithm,
            authData.counter.getD 0⟩ := by
  simp only [checkAttestation, Option.bind_eq_bind, Option.bind_eq_some_iff, guard_eq_some_iff,
    exists_const, clientDataOk_iff, authDataOk_iff, Option.some.injEq]
  constructor
  · rintro ⟨clientData, hclient, hanswers, authDataBytes, hbytes, authData, hauth, hpresent, attested,
      hattested, -, publicKey, hkey, rfl⟩
    exact ⟨⟨clientData, hclient, hanswers⟩, authDataBytes, authData, attested, publicKey, hbytes, hauth,
      hpresent, hattested, hkey, rfl⟩
  · rintro ⟨⟨clientData, hclient, hanswers⟩, authDataBytes, authData, attested, publicKey, hbytes, hauth,
      hpresent, hattested, hkey, rfl⟩
    have hoffered : response.publicKeyAlgorithm ∈ offeredAlgorithms := by
      rcases supported_of_extract hkey with ⟨halg, -⟩ | ⟨halg, -⟩ | ⟨halg, -⟩ <;>
        simp [offeredAlgorithms, halg]
    exact ⟨clientData, hclient, hanswers, authDataBytes, hbytes, authData, hauth, hpresent, attested,
      hattested, hoffered, publicKey, hkey, rfl⟩

theorem checkAssertion_eq_some_iff {challenge : Bytes} {stored stored' : StoredCredential}
    {response : AssertionResponse} :
    checkAssertion lib config challenge stored response = some stored' ↔
      Answers lib config .get challenge response.clientDataJson ∧
        ∃ authData publicKey, lib.authData response.authenticatorData = some authData ∧
          Present lib config authData ∧ decode stored.publicKey = some publicKey ∧
          verifyAssertionSignature lib.keys stored.alg publicKey
            (response.authenticatorData ++ lib.sha256 response.clientDataJson) response.signature =
              true ∧
          counterRegressed stored.signCount (authData.counter.getD 0) = false ∧
          stored' = { stored with signCount := authData.counter.getD 0 } := by
  simp only [checkAssertion, Option.bind_eq_bind, Option.bind_eq_some_iff, guard_eq_some_iff,
    exists_const, clientDataOk_iff, authDataOk_iff, Option.some.injEq, Bool.not_eq_true']
  constructor
  · rintro ⟨clientData, hclient, hanswers, authData, hauth, hpresent, publicKey, hkey, hsigned,
      hcounter, rfl⟩
    exact ⟨⟨clientData, hclient, hanswers⟩, authData, publicKey, hauth, hpresent, hkey, hsigned,
      hcounter, rfl⟩
  · rintro ⟨⟨clientData, hclient, hanswers⟩, authData, publicKey, hauth, hpresent, hkey, hsigned,
      hcounter, rfl⟩
    exact ⟨clientData, hclient, hanswers, authData, hauth, hpresent, publicKey, hkey, hsigned,
      hcounter, rfl⟩

theorem mem_listForUser {rows : List CredentialRow} {userId : UserId} {row : CredentialRow} :
    row ∈ listForUser rows userId ↔ row ∈ rows ∧ row.userId = userId := by
  rw [listForUser, List.mem_insertionSort, List.mem_filter, decide_eq_true_eq]

theorem matchCredential_mem {rawId : String} {rows : List CredentialRow} {rowId : BitVec 128}
    {stored : StoredCredential} (h : matchCredential rawId rows = some (rowId, stored)) :
    stored.credentialId = rawId ∧ ∃ row ∈ rows, row.id = rowId ∧ row.stored = some stored := by
  induction rows with
  | nil => cases h
  | cons row rest ih =>
    obtain ⟨first, hfirst, h⟩ := Option.bind_eq_some_iff.1 h
    split at h
    · rename_i hmatch
      obtain ⟨rfl, rfl⟩ := Prod.mk.inj (Option.some.inj h)
      exact ⟨hmatch, row, List.mem_cons_self, rfl, hfirst⟩
    · obtain ⟨hmatch, row', hrow', hrest⟩ := ih h
      exact ⟨hmatch, row', List.mem_cons_of_mem row hrow', hrest⟩

/-- Among rows that parse one is found, if one has the credential. -/
theorem exists_matchCredential {rawId : String} {rows : List CredentialRow}
    (hparse : ∀ row ∈ rows, row.stored ≠ none)
    (h : ∃ row ∈ rows, ∃ stored, row.stored = some stored ∧ stored.credentialId = rawId) :
    ∃ rowId stored, matchCredential rawId rows = some (rowId, stored) := by
  induction rows with
  | nil =>
    obtain ⟨row, hrow, -⟩ := h
    cases hrow
  | cons row rest ih =>
    obtain ⟨first, hfirst⟩ := Option.ne_none_iff_exists'.1 (hparse row List.mem_cons_self)
    simp only [matchCredential, hfirst, Option.bind_some]
    split
    · exact ⟨_, _, rfl⟩
    · rename_i hother
      apply ih fun row' hrow' => hparse row' (List.mem_cons_of_mem row hrow')
      obtain ⟨row', hrow', stored, hstored, hmatch⟩ := h
      rcases List.mem_cons.1 hrow' with rfl | hrest
      · obtain rfl := Option.some.inj (hfirst.symm.trans hstored)
        exact absurd hmatch hother
      · exact ⟨row', hrest, stored, hstored, hmatch⟩

theorem checkAuthentication_eq_ok_iff {rows : List CredentialRow}
    {failing : Statement → Option DbError} {now : Nat} {stateToken : String} {userId : UserId}
    {response : AssertionResponse} {attempt : Attempt} :
    checkAuthentication lib config rows failing now stateToken userId response = .ok attempt ↔
      failing .listForUser = none ∧ ∃ challenge rowId stored stored',
        verifyCeremonyToken lib now stateToken .authenticate userId = .ok challenge ∧
        matchCredential (encode response.rawId) (listForUser rows userId) = some (rowId, stored) ∧
        checkAssertion lib config challenge stored response = some stored' ∧
        attempt = ⟨userId, stateToken, response, rowId, stored'⟩ := by
  rw [checkAuthentication]
  cases hverify : verifyCeremonyToken lib now stateToken .authenticate userId with
  | error err => simp
  | ok challenge => cases hfailing : failing .listForUser with
    | some err => simp
    | none =>
      dsimp only
      by_cases hempty : (listForUser rows userId).isEmpty = true
      · rw [if_pos hempty, List.isEmpty_iff.1 hempty]
        simp [matchCredential]
      · rw [if_neg hempty]
        cases hmatch : matchCredential (encode response.rawId) (listForUser rows userId) with
        | none => simp
        | some found =>
          obtain ⟨rowId, stored⟩ := found
          cases hcheck : checkAssertion lib config challenge stored response with
          | none => simp [hcheck]
          | some stored' => simp [hcheck, eq_comm]

theorem finishRegistration_rows {rows : List CredentialRow} {failing : Statement → Option DbError}
    {now : Nat} {stateToken : String} {userId : UserId} {label : String} {id : BitVec 128}
    {response : AttestationResponse} :
    (∃ challenge stored, verifyCeremonyToken lib now stateToken .register userId = .ok challenge ∧
        checkAttestation lib config challenge response = some stored ∧ failing .insert = none ∧
        (finishRegistration lib config rows failing now stateToken userId label id response).1 =
          rows ++ [⟨⟨id, userId, some stored⟩, label, now, none⟩]) ∨
      (¬ (∃ challenge stored, verifyCeremonyToken lib now stateToken .register userId = .ok challenge ∧
        checkAttestation lib config challenge response = some stored ∧ failing .insert = none) ∧
      (finishRegistration lib config rows failing now stateToken userId label id response).1 = rows) := by
  rw [finishRegistration]
  cases hverify : verifyCeremonyToken lib now stateToken .register userId with
  | error err => right; simp
  | ok challenge => cases hcheck : checkAttestation lib config challenge response with
    | none => right; simp [hcheck]
    | some stored => cases hinsert : failing .insert with
      | some err => right; simp [hcheck]
      | none =>
        left
        refine ⟨challenge, stored, rfl, hcheck, rfl, ?_⟩
        simp only [hcheck]
        cases failing .invalidateResets <;> rfl

end Specs

end Edda.Auth.Passkeys
