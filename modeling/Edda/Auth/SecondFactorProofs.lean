import Edda.Auth.Accounts
import Edda.Support.Runs

/-!
# Second-factor proofs

`totp::verify` and `webauthn::finish_authentication`, one statement at a time. Any number of
verifications are under way, and any statement can fail. The state keeps, beside the tables, the
proofs that were accepted and what each accepted assertion did to the counter of its passkey.

`spentOnce_of_fits` says in which runs no proof is accepted twice and the counters grow.
-/

set_option autoImplicit false

namespace Edda.Auth.SecondFactorProofs

open Edda.Auth Edda.Domain Edda.Support Edda.Support.RustText

/-- What a ceremony token has signed. -/
structure Ceremony where
  userId : UserId
  challenge : Bytes
  expiresAt : Int
  deriving DecidableEq, Repr

/-- What lies outside. `ceremony` reads back a token that was issued for an authentication, and
`assertionCounter` checks an answer against a challenge, an algorithm and a public key, and gives
the counter that the answer carries. -/
structure Verifiers where
  sha256 : String → String
  decrypt : Bytes → Except String Bytes
  totpCode : Bytes → Int → String
  ceremony : String → Option Ceremony
  assertionCounter : Bytes → Int → String → Assertion → Option Nat

/-- `check_current`: the time step whose code was submitted, with a skew of one. -/
def checkCurrent (code : Int → String) (now : Int) (submitted : String) : Option Int :=
  [now / 30 - 1, now / 30, now / 30 + 1].find? fun timeStep => code timeStep = submitted

/-- `verify_ceremony_token`. An expired token is read for another minute. -/
def verifyCeremonyToken (v : Verifiers) (stateToken : String) (userId : UserId) (now : Int) :
    Option Bytes :=
  match v.ceremony stateToken with
  | none => none
  | some ceremony =>
    if ceremony.userId = userId ∧ now ≤ ceremony.expiresAt + 60 then some ceremony.challenge
    else none

inductive FactorProof where
  | recoveryCode (userId : UserId) (codeHash : String)
  | totpCode (userId : UserId) (timeStep : Int)
  | assertion (stateToken : String) (credential : Assertion)
  deriving DecidableEq, Repr

/-- A verification, by the statement it makes next. -/
inductive Request where
  | totpSecret (userId : UserId) (submitted : String)
  | recoveryCode (userId : UserId) (ciphertext : Bytes) (submitted : String)
  | totpCode (userId : UserId) (ciphertext : Bytes) (submitted : String)
  | passkeys (stateToken : String) (userId : UserId) (challenge : Bytes) (credential : Assertion)
  | updatePasskey (stateToken : String) (credential : Assertion) (rowId : BitVec 128)
    (stored : StoredCredential)
  | accepted
  | refused
  deriving DecidableEq, Repr

/-- `accepted` are the proofs that were accepted, and `counters` the counters before and after each
accepted assertion. -/
structure State where
  db : Accounts
  now : Int
  requests : List Request
  accepted : List FactorProof
  counters : List (Option Nat × Nat)

def State.start (db : Accounts) (now : Int) : State := ⟨db, now, [], [], []⟩

def State.set (s : State) (place : Nat) (request : Request) : State :=
  { s with requests := s.requests.set place request }

/-- The counter that is stored of a passkey. -/
def signCount (passkeys : List Passkey) (rowId : BitVec 128) : Option Nat :=
  (Table.lookup Passkey.id passkeys rowId).bind fun passkey =>
    passkey.stored.map StoredCredential.signCount

/-- `WebauthnRepo::update_passkey`. -/
def updatePasskey (passkeys : List Passkey) (rowId : BitVec 128) (stored : StoredCredential) :
    List Passkey :=
  Table.update passkeys (fun passkey => passkey.id = rowId)
    fun passkey => { passkey with stored := some stored }

section Steps

variable (v : Verifiers)

/-- The row an answer is for, with the counter that the answer carries, and the counter stored. -/
def checkedCredential (passkeys : List Passkey) (challenge : Bytes) (credential : Assertion) :
    Option (BitVec 128 × StoredCredential × Nat) :=
  match matchPasskey credential.rawId passkeys with
  | .error _ => none
  | .ok (rowId, stored) =>
    match v.assertionCounter challenge stored.alg stored.publicKey credential with
    | none => none
    | some counter => some (rowId, { stored with signCount := counter }, stored.signCount)

/-- The next statement of a verification. -/
def proceed (s : State) (place : Nat) : Request → State
  | .totpSecret userId submitted => match s.db.totpSecret userId with
    | some ⟨_, ciphertext, some _⟩ => s.set place (.recoveryCode userId ciphertext submitted)
    | _ => s.set place .refused
  | .recoveryCode userId ciphertext submitted =>
    let codeHash := v.sha256 submitted
    let selected := isSpendable userId codeHash
    if Table.affected s.db.recoveryCodes selected = 0 then
      s.set place (.totpCode userId ciphertext submitted)
    else
      let spent := Table.update s.db.recoveryCodes selected fun code =>
        { code with usedAt := some s.now }
      { s with
        db := { s.db with recoveryCodes := spent }
        requests := s.requests.set place .accepted
        accepted := s.accepted ++ [.recoveryCode userId codeHash] }
  | .totpCode userId ciphertext submitted => match v.decrypt ciphertext with
    | .error _ => s.set place .refused
    | .ok secret => match checkCurrent (v.totpCode secret) s.now submitted with
      | none => s.set place .refused
      -- nothing keeps the time step
      | some timeStep =>
        { s with
          requests := s.requests.set place .accepted
          accepted := s.accepted ++ [.totpCode userId timeStep] }
  | .passkeys stateToken userId challenge credential =>
    match checkedCredential v (s.db.passkeysOf userId) challenge credential with
    | none => s.set place .refused
    | some (rowId, stored, before) =>
      if counterRegressed before stored.signCount then s.set place .refused
      else s.set place (.updatePasskey stateToken credential rowId stored)
  -- the counter was compared with the one that was read, not with the one that is stored now
  | .updatePasskey stateToken credential rowId stored =>
    { s with
      db := { s.db with passkeys := updatePasskey s.db.passkeys rowId stored }
      requests := s.requests.set place .accepted
      accepted := s.accepted ++ [.assertion stateToken credential]
      counters := s.counters ++ [(signCount s.db.passkeys rowId, stored.signCount)] }
  | .accepted => s
  | .refused => s

/-- The steps that name a verification do so by its place. -/
inductive Step where
  | tick (seconds : Nat)
  | verify (userId : UserId) (submitted : String)
  | finishAuthentication (stateToken : String) (userId : UserId) (credential : Assertion)
  | proceed (place : Nat)
  | fails (place : Nat)

def step (s : State) : Step → State
  | .tick seconds => { s with now := s.now + seconds }
  | .verify userId submitted =>
    { s with requests := s.requests ++ [.totpSecret userId submitted] }
  | .finishAuthentication stateToken userId credential =>
    match verifyCeremonyToken v stateToken userId s.now with
    | none => { s with requests := s.requests ++ [.refused] }
    | some challenge =>
      { s with requests := s.requests ++ [.passkeys stateToken userId challenge credential] }
  | .proceed place => match s.requests[place]? with
    | none => s
    | some request => proceed v s place request
  | .fails place => s.set place .refused

/-! ## What has to hold -/

/-- No proof was accepted twice, and every accepted assertion that carries a counter has raised the
one that was stored. -/
structure SpentOnce (s : State) : Prop where
  nodup : s.accepted.Nodup
  grows : ∀ change ∈ s.counters, change.2 ≠ 0 → ∃ before, change.1 = some before ∧ before < change.2

/-- A code is of a time step that was not accepted for the account. An assertion carries a counter
greater than the one stored when it is written, or, where neither carries any, was not accepted. -/
def RequestFits (s : State) : Request → Prop
  | .totpCode userId ciphertext submitted => match v.decrypt ciphertext with
    | .error _ => True
    | .ok secret => match checkCurrent (v.totpCode secret) s.now submitted with
      | none => True
      | some timeStep => .totpCode userId timeStep ∉ s.accepted
  | .updatePasskey stateToken credential rowId stored =>
    match signCount s.db.passkeys rowId with
    | none => True
    | some before =>
      before < stored.signCount ∨
        before = 0 ∧ stored.signCount = 0 ∧ .assertion stateToken credential ∉ s.accepted
  | _ => True

def StepFits (s : State) : Step → Prop
  | .proceed place => match s.requests[place]? with
    | none => True
    | some request => RequestFits v s request
  | _ => True

instance decidableRequestFits (s : State) : (request : Request) → Decidable (RequestFits v s request)
  | .totpCode userId ciphertext submitted => match hdecrypt : v.decrypt ciphertext with
    | .error _ => isTrue (by simp [RequestFits, hdecrypt])
    | .ok secret => match hcode : checkCurrent (v.totpCode secret) s.now submitted with
      | none => isTrue (by simp [RequestFits, hdecrypt, hcode])
      | some timeStep => decidable_of_iff (.totpCode userId timeStep ∉ s.accepted)
        (by simp [RequestFits, hdecrypt, hcode])
  | .updatePasskey stateToken credential rowId stored =>
    match hrow : signCount s.db.passkeys rowId with
    | none => isTrue (by simp [RequestFits, hrow])
    | some before => decidable_of_iff
      (before < stored.signCount ∨
        before = 0 ∧ stored.signCount = 0 ∧ .assertion stateToken credential ∉ s.accepted)
      (by simp [RequestFits, hrow])
  | .totpSecret _ _ => isTrue trivial
  | .recoveryCode _ _ _ => isTrue trivial
  | .passkeys _ _ _ _ => isTrue trivial
  | .accepted => isTrue trivial
  | .refused => isTrue trivial

instance decidableStepFits (s : State) : (a : Step) → Decidable (StepFits v s a)
  | .proceed place => match hrequest : s.requests[place]? with
    | none => isTrue (by simp [StepFits, hrequest])
    | some request => decidable_of_iff (RequestFits v s request) (by simp [StepFits, hrequest])
  | .tick _ => isTrue trivial
  | .verify _ _ => isTrue trivial
  | .finishAuthentication _ _ _ => isTrue trivial
  | .fails _ => isTrue trivial

end Steps

/-! ## The row an answer is for -/

section Passkeys

variable {v : Verifiers} {rows : List Passkey} {rowId : BitVec 128} {stored : StoredCredential}

/-- The row a token and an answer lead to, with the counter of the answer. -/
def target (v : Verifiers) (passkeys : List Passkey) (stateToken : String)
    (credential : Assertion) : Option (BitVec 128 × StoredCredential) :=
  match v.ceremony stateToken with
  | none => none
  | some ceremony =>
    (checkedCredential v (passkeys.filter fun passkey => passkey.userId = ceremony.userId)
      ceremony.challenge credential).map fun found => (found.1, found.2.1)

/-- Every row with this id has the credential, up to its counter. -/
def SameCredential (rows : List Passkey) (rowId : BitVec 128) (stored : StoredCredential) : Prop :=
  ∀ passkey ∈ rows, passkey.id = rowId → ∃ old, passkey.stored = some old ∧
    stored = { old with signCount := stored.signCount }

theorem matchPasskey_ok {rawId : String} (h : matchPasskey rawId rows = .ok (rowId, stored)) :
    ∃ passkey ∈ rows, passkey.id = rowId ∧ passkey.stored = some stored := by
  induction rows with
  | nil => cases h
  | cons passkey rest ih =>
    simp only [matchPasskey] at h
    cases hstored : passkey.stored with
    | none => simp [hstored] at h
    | some found =>
      simp only [hstored] at h
      split at h
      · obtain ⟨rfl, rfl⟩ := Prod.mk.inj (Except.ok.inj h)
        exact ⟨passkey, List.mem_cons_self, rfl, hstored⟩
      · obtain ⟨row, hrow, hid, hfound⟩ := ih h
        exact ⟨row, List.mem_cons_of_mem _ hrow, hid, hfound⟩

/-- A new counter changes nothing else of the row that is found. -/
theorem matchPasskey_update {rawId : String} (hsame : SameCredential rows rowId stored) :
    matchPasskey rawId (updatePasskey rows rowId stored) =
      (matchPasskey rawId rows).map fun found =>
        (found.1, if found.1 = rowId then stored else found.2) := by
  induction rows with
  | nil => rfl
  | cons passkey rest ih =>
    have hrest : SameCredential rest rowId stored := fun row hrow =>
      hsame row (List.mem_cons_of_mem _ hrow)
    have ih := ih hrest
    simp only [updatePasskey, Table.update, List.map_cons] at ih ⊢
    by_cases hid : passkey.id = rowId
    · -- the row that is updated has the credential id it had
      obtain ⟨old, hold, heq⟩ := hsame passkey List.mem_cons_self hid
      have hcredential : stored.credentialId = old.credentialId := by rw [heq]
      simp only [hid, decide_true, if_true, matchPasskey, hold, hcredential]
      split
      · simp [Except.map]
      · exact ih
    · simp only [hid, decide_false, Bool.false_eq_true, if_false, matchPasskey]
      cases hold : passkey.stored with
      | none => rfl
      | some old =>
        simp only
        split
        · simp [Except.map, hid]
        · exact ih

theorem checkedCredential_update {challenge : Bytes} {credential : Assertion}
    (hsame : SameCredential rows rowId stored) :
    ((checkedCredential v (updatePasskey rows rowId stored) challenge credential).map
        fun found => (found.1, found.2.1)) =
      (checkedCredential v rows challenge credential).map fun found => (found.1, found.2.1) := by
  simp only [checkedCredential, matchPasskey_update hsame]
  cases hmatch : matchPasskey credential.rawId rows with
  | error err => rfl
  | ok found =>
    obtain ⟨id, old⟩ := found
    simp only [Except.map]
    by_cases hid : id = rowId
    · obtain ⟨passkey, hrow, hpasskey, hold⟩ := matchPasskey_ok hmatch
      obtain ⟨old', hold', heq⟩ := hsame passkey hrow (hpasskey.trans hid)
      obtain rfl : old = old' := Option.some.inj (hold.symm.trans hold')
      rw [if_pos hid, heq]
      simp only
      cases v.assertionCounter challenge old.alg old.publicKey credential with
      | none => rfl
      | some counter => rfl
    · rw [if_neg hid]

/-- Where a token and an answer lead does not depend on the counters. -/
theorem target_update (hsame : SameCredential rows rowId stored) (stateToken : String)
    (credential : Assertion) :
    target v (updatePasskey rows rowId stored) stateToken credential =
      target v rows stateToken credential := by
  simp only [target]
  cases v.ceremony stateToken with
  | none => rfl
  | some ceremony =>
    -- an update keeps the account of every row
    have hfilter : (updatePasskey rows rowId stored).filter
          (fun passkey => passkey.userId = ceremony.userId) =
        updatePasskey (rows.filter fun passkey => passkey.userId = ceremony.userId) rowId
          stored := by
      simp only [updatePasskey, Table.update, List.filter_map]
      congr 1
      refine List.filter_congr fun passkey _ => ?_
      simp only [Function.comp]
      split
      · rfl
      · rfl
    simp only [hfilter]
    apply checkedCredential_update
    intro passkey hrow
    exact hsame passkey (List.mem_filter.1 hrow).1

theorem signCount_of_mem {passkey : Passkey} (hkeys : Table.Keyed Passkey.id rows)
    (hrow : passkey ∈ rows) :
    signCount rows passkey.id = passkey.stored.map StoredCredential.signCount := by
  rw [signCount, Table.lookup_of_mem hkeys hrow]
  rfl

/-- A token and an answer lead to a row that is there. -/
theorem row_of_target {stateToken : String} {credential : Assertion}
    (hkeys : Table.Keyed Passkey.id rows)
    (h : target v rows stateToken credential = some (rowId, stored)) :
    SameCredential rows rowId stored ∧ ∃ before, signCount rows rowId = some before := by
  simp only [target] at h
  cases hceremony : v.ceremony stateToken with
  | none => simp [hceremony] at h
  | some ceremony =>
    simp only [hceremony, checkedCredential] at h
    cases hmatch : matchPasskey credential.rawId
        (rows.filter fun passkey => passkey.userId = ceremony.userId) with
    | error err => simp [hmatch] at h
    | ok found =>
      obtain ⟨id, old⟩ := found
      simp only [hmatch] at h
      cases hcounter : v.assertionCounter ceremony.challenge old.alg old.publicKey credential with
      | none => simp [hcounter] at h
      | some counter =>
        simp only [hcounter, Option.map_some] at h
        obtain ⟨rfl, rfl⟩ := Prod.mk.inj (Option.some.inj h)
        obtain ⟨passkey, hmem, rfl, hstored⟩ := matchPasskey_ok hmatch
        have hrow : passkey ∈ rows := (List.mem_filter.1 hmem).1
        constructor
        · intro other hother hid
          obtain rfl := List.inj_on_of_nodup_map hkeys hother hrow hid
          exact ⟨old, hstored, rfl⟩
        · exact ⟨old.signCount, by rw [signCount_of_mem hkeys hrow, hstored]; rfl⟩

theorem signCount_update {before : Nat} (hrow : signCount rows rowId = some before)
    (other : BitVec 128) :
    signCount (updatePasskey rows rowId stored) other =
      if other = rowId then some stored.signCount else signCount rows other := by
  have hlookup : Table.lookup Passkey.id (updatePasskey rows rowId stored) other =
      (Table.lookup Passkey.id rows other).map fun passkey =>
        if decide (passkey.id = rowId) then { passkey with stored := some stored } else passkey :=
    Table.lookup_update fun _ => rfl
  rw [signCount, hlookup]
  by_cases hid : other = rowId
  · subst hid
    cases hfind : Table.lookup Passkey.id rows other with
    | none => simp [signCount, hfind] at hrow
    | some passkey => simp [(Table.mem_of_lookup hfind).2]
  · rw [if_neg hid, signCount]
    cases hfind : Table.lookup Passkey.id rows other with
    | none => rfl
    | some passkey =>
      have hne : passkey.id ≠ rowId := fun h => hid ((Table.mem_of_lookup hfind).2.symm.trans h)
      simp [hne]

end Passkeys

/-! ## What every step keeps -/

section Invariant

variable {v : Verifiers} {s : State}

/-- What is known of a verification: the ceremony of an answer, and the row it leads to. -/
def Request.Holds (v : Verifiers) (passkeys : List Passkey) : Request → Prop
  | .passkeys stateToken userId challenge _ =>
    ∃ expiresAt, v.ceremony stateToken = some ⟨userId, challenge, expiresAt⟩
  | .updatePasskey stateToken credential rowId stored =>
    target v passkeys stateToken credential = some (rowId, stored)
  | _ => True

/-- The counter that is stored is at least the one of every assertion that was accepted. -/
def Counted (v : Verifiers) (s : State) : Prop :=
  ∀ stateToken credential, .assertion stateToken credential ∈ s.accepted →
    ∃ rowId stored before, target v s.db.passkeys stateToken credential = some (rowId, stored) ∧
      signCount s.db.passkeys rowId = some before ∧ stored.signCount ≤ before

structure Inv (v : Verifiers) (s : State) : Prop where
  keys : Table.Keyed Passkey.id s.db.passkeys
  spentOnce : SpentOnce s
  requests : ∀ request ∈ s.requests, request.Holds v s.db.passkeys
  codes : ∀ userId codeHash, .recoveryCode userId codeHash ∈ s.accepted →
    ∀ code ∈ s.db.recoveryCodes, isSpendable userId codeHash code = false
  counted : Counted v s

theorem inv_start {db : Accounts} (hkeys : Table.Keyed Passkey.id db.passkeys) (now : Int) :
    Inv v (.start db now) where
  keys := hkeys
  spentOnce := ⟨List.nodup_nil, nofun⟩
  requests := nofun
  codes := nofun
  counted := nofun

/-- Another verification, or the next statement of one, about which what has to be known is. -/
theorem Inv.requested (h : Inv v s) {requests : List Request} {request : Request}
    (hmem : ∀ other ∈ requests, other ∈ s.requests ∨ other = request)
    (hholds : request.Holds v s.db.passkeys) : Inv v { s with requests := requests } where
  keys := h.keys
  spentOnce := ⟨h.spentOnce.nodup, h.spentOnce.grows⟩
  requests := by
    intro other hother
    rcases hmem other hother with hold | rfl
    · exact h.requests other hold
    · exact hholds
  codes := h.codes
  counted := h.counted

theorem Inv.set (h : Inv v s) (place : Nat) {request : Request}
    (hholds : request.Holds v s.db.passkeys) : Inv v (s.set place request) :=
  h.requested (fun _ hother => List.mem_or_eq_of_mem_set hother) hholds

theorem Inv.append (h : Inv v s) {request : Request} (hholds : request.Holds v s.db.passkeys) :
    Inv v { s with requests := s.requests ++ [request] } := by
  refine h.requested (fun other hother => ?_) hholds
  rcases List.mem_append.1 hother with hold | hnew
  · exact .inl hold
  · exact .inr (List.mem_singleton.1 hnew)

theorem nodup_accepted {proof : FactorProof} (h : SpentOnce s) (hnew : proof ∉ s.accepted) :
    (s.accepted ++ [proof]).Nodup := by
  rw [← List.concat_eq_append]
  exact h.nodup.concat hnew

/-- A recovery code that is accepted has no unspent row left, and had one. -/
theorem inv_recoveryCode (h : Inv v s) (place : Nat) (userId : UserId) (ciphertext : Bytes)
    (submitted : String) :
    Inv v (proceed v s place (.recoveryCode userId ciphertext submitted)) := by
  simp only [proceed]
  split
  · exact h.set place trivial
  · rename_i haffected
    -- a row is spendable now, so the code was not accepted before
    have hnew : FactorProof.recoveryCode userId (v.sha256 submitted) ∉ s.accepted := by
      intro hmem
      apply haffected
      apply List.countP_eq_zero.2
      intro code hcode
      rw [h.codes userId _ hmem code hcode]
      exact Bool.false_ne_true
    have hrequested : Inv v (s.set place .accepted) := h.set place trivial
    refine ⟨h.keys, ⟨?_, h.spentOnce.grows⟩, hrequested.requests, ?_, ?_⟩
    · exact nodup_accepted h.spentOnce hnew
    · intro user codeHash hmem code hcode
      obtain ⟨old, hold, rfl⟩ := List.mem_map.1 hcode
      split
      · simp [isSpendable]
      · rename_i hkept
        rcases List.mem_append.1 hmem with hearlier | hlast
        · exact h.codes user codeHash hearlier old hold
        · obtain ⟨rfl, rfl⟩ := FactorProof.recoveryCode.inj (List.mem_singleton.1 hlast)
          simpa using hkept
    · intro stateToken credential hmem
      rcases List.mem_append.1 hmem with hearlier | hlast
      · exact h.counted stateToken credential hearlier
      · cases List.mem_singleton.1 hlast

theorem inv_totpCode (h : Inv v s) (place : Nat) {userId : UserId} {ciphertext : Bytes}
    {submitted : String} (hfits : RequestFits v s (.totpCode userId ciphertext submitted)) :
    Inv v (proceed v s place (.totpCode userId ciphertext submitted)) := by
  simp only [proceed]
  simp only [RequestFits] at hfits
  cases hdecrypt : v.decrypt ciphertext with
  | error err => exact h.set place trivial
  | ok secret =>
    simp only [hdecrypt] at hfits ⊢
    cases hcode : checkCurrent (v.totpCode secret) s.now submitted with
    | none => exact h.set place trivial
    | some timeStep =>
      simp only [hcode] at hfits
      have hrequested : Inv v (s.set place .accepted) := h.set place trivial
      refine ⟨h.keys, ⟨?_, h.spentOnce.grows⟩, hrequested.requests, ?_, ?_⟩
      · exact nodup_accepted h.spentOnce hfits
      · intro user codeHash hmem
        rcases List.mem_append.1 hmem with hearlier | hlast
        · exact h.codes user codeHash hearlier
        · cases List.mem_singleton.1 hlast
      · intro stateToken credential hmem
        rcases List.mem_append.1 hmem with hearlier | hlast
        · exact h.counted stateToken credential hearlier
        · cases List.mem_singleton.1 hlast

/-- The answer that is checked leads to the row that is found. -/
theorem inv_passkeys (h : Inv v s) (place : Nat) {stateToken : String} {userId : UserId}
    {challenge : Bytes} {credential : Assertion}
    (hholds : (Request.passkeys stateToken userId challenge credential).Holds v s.db.passkeys) :
    Inv v (proceed v s place (.passkeys stateToken userId challenge credential)) := by
  obtain ⟨expiresAt, hceremony⟩ := hholds
  simp only [proceed]
  cases hchecked : checkedCredential v (s.db.passkeysOf userId) challenge credential with
  | none => exact h.set place trivial
  | some found =>
    obtain ⟨rowId, stored, before⟩ := found
    simp only
    split
    · exact h.set place trivial
    · apply h.set place
      rw [Accounts.passkeysOf] at hchecked
      simp only [Request.Holds, target, hceremony, hchecked, Option.map_some]

/-- The write of a counter that fits raises the one that is stored, or leaves it zero. -/
theorem inv_updatePasskey (h : Inv v s) (place : Nat) {stateToken : String}
    {credential : Assertion} {rowId : BitVec 128} {stored : StoredCredential}
    (hholds : (Request.updatePasskey stateToken credential rowId stored).Holds v s.db.passkeys)
    (hfits : RequestFits v s (.updatePasskey stateToken credential rowId stored)) :
    Inv v (proceed v s place (.updatePasskey stateToken credential rowId stored)) := by
  simp only [Request.Holds] at hholds
  obtain ⟨hsame, before, hbefore⟩ := row_of_target h.keys hholds
  simp only [RequestFits, hbefore] at hfits
  have hnew : FactorProof.assertion stateToken credential ∉ s.accepted := by
    intro hmem
    obtain ⟨rowId', stored', before', htarget, hbefore', hle⟩ := h.counted _ _ hmem
    obtain ⟨rfl, rfl⟩ := Prod.mk.inj (Option.some.inj (hholds.symm.trans htarget))
    obtain rfl := Option.some.inj (hbefore.symm.trans hbefore')
    rcases hfits with hlt | ⟨-, -, hnot⟩
    · omega
    · exact hnot hmem
  have htarget := target_update (v := v) hsame
  constructor
  · exact h.keys.update fun _ => rfl
  · constructor
    · exact nodup_accepted h.spentOnce hnew
    · intro change hchange hcounter
      rcases List.mem_append.1 hchange with hearlier | hlast
      · exact h.spentOnce.grows change hearlier hcounter
      · obtain rfl := List.mem_singleton.1 hlast
        refine ⟨before, hbefore, ?_⟩
        rcases hfits with hlt | ⟨-, hzero, -⟩
        · exact hlt
        · exact absurd hzero hcounter
  · intro request hrequest
    have hkept : request.Holds v s.db.passkeys := by
      rcases List.mem_or_eq_of_mem_set hrequest with hold | rfl
      · exact h.requests request hold
      · trivial
    cases request with
    | updatePasskey token answer id credential => exact (htarget token answer).trans hkept
    | _ => exact hkept
  · intro user codeHash hmem
    rcases List.mem_append.1 hmem with hearlier | hlast
    · exact h.codes user codeHash hearlier
    · cases List.mem_singleton.1 hlast
  · intro token answer hmem
    simp only [proceed]
    rw [htarget token answer]
    rcases List.mem_append.1 hmem with hearlier | hlast
    · obtain ⟨id, credential, counter, hid, hcounter, hle⟩ := h.counted token answer hearlier
      by_cases hrow : id = rowId
      · subst hrow
        obtain rfl := Option.some.inj (hbefore.symm.trans hcounter)
        refine ⟨id, credential, stored.signCount, hid, ?_, by omega⟩
        rw [signCount_update hbefore, if_pos rfl]
      · refine ⟨id, credential, counter, hid, ?_, hle⟩
        rw [signCount_update hbefore, if_neg hrow, hcounter]
    · obtain ⟨rfl, rfl⟩ := FactorProof.assertion.inj (List.mem_singleton.1 hlast)
      exact ⟨rowId, stored, stored.signCount, hholds, by rw [signCount_update hbefore, if_pos rfl],
        Nat.le_refl _⟩

theorem inv_step (a : Step) (h : Inv v s) (hfits : StepFits v s a) : Inv v (step v s a) := by
  cases a with
  | tick seconds => exact ⟨h.keys, ⟨h.spentOnce.nodup, h.spentOnce.grows⟩, h.requests, h.codes,
      h.counted⟩
  | verify userId submitted => exact h.append trivial
  | finishAuthentication stateToken userId credential =>
    simp only [step, verifyCeremonyToken]
    cases hceremony : v.ceremony stateToken with
    | none => exact h.append trivial
    | some ceremony =>
      obtain ⟨owner, challenge, expiresAt⟩ := ceremony
      simp only
      by_cases hvalid : owner = userId ∧ s.now ≤ expiresAt + 60
      · rw [if_pos hvalid]
        obtain ⟨rfl, -⟩ := hvalid
        exact h.append ⟨expiresAt, hceremony⟩
      · rw [if_neg hvalid]
        exact h.append trivial
  | proceed place =>
    simp only [step]
    simp only [StepFits] at hfits
    cases hrequest : s.requests[place]? with
    | none => exact h
    | some request =>
      simp only [hrequest] at hfits ⊢
      have hholds := h.requests request (List.mem_of_getElem? hrequest)
      cases request with
      | totpSecret userId submitted =>
        simp only [proceed]
        split
        · exact h.set place trivial
        · exact h.set place trivial
      | recoveryCode userId ciphertext submitted =>
        exact inv_recoveryCode h place userId ciphertext submitted
      | totpCode userId ciphertext submitted => exact inv_totpCode h place hfits
      | passkeys stateToken userId challenge credential => exact inv_passkeys h place hholds
      | updatePasskey stateToken credential rowId stored =>
        exact inv_updatePasskey h place hholds hfits
      | accepted => exact h
      | refused => exact h
  | fails place => exact h.set place trivial

end Invariant

/-! ## No proof is accepted twice -/

/-- In every run whose steps fit, no proof is accepted twice and the counters grow. -/
theorem spentOnce_of_fits (v : Verifiers) (db : Accounts) (now : Int) (steps : List Step)
    (hkeys : Table.Keyed Passkey.id db.passkeys)
    (hfits : Runs.Throughout (step v) (StepFits v) (.start db now) steps) :
    ∀ earlier later, steps = earlier ++ later →
      SpentOnce (Runs.run (step v) (.start db now) earlier) := by
  rintro earlier later rfl
  have hearlier := (Runs.throughout_append.1 hfits).1
  have hinv : Inv v (Runs.run (step v) (.start db now) earlier) :=
    Runs.invariant (fun _ a hinv hfit => inv_step a hinv hfit) (inv_start hkeys now) hearlier
  exact hinv.spentOnce

/-- Codes that show their time step, and one ceremony of account 7, answered with counter 6. -/
def plainVerifiers : Verifiers where
  sha256 := id
  decrypt := .ok
  totpCode _ timeStep := toString (100000 + timeStep.toNat)
  ceremony stateToken := if stateToken = "ceremony" then some ⟨7, [1], 400⟩ else none
  assertionCounter challenge _ _ credential :=
    if credential.response = challenge then some 6 else none

/-- Account 7 has a TOTP secret, a recovery code, and a passkey with counter 5. -/
def enrolledAccount : Accounts where
  users := []
  organizations := []
  totpSecrets := [⟨7, [1, 2], some 0⟩]
  recoveryCodes := [⟨7, "rescue", none⟩]
  passkeys := [⟨1, 7, some ⟨"key", "public", -7, 5⟩⟩]
  identities := []
  accessTokens := []
  resetTokens := []
  verificationTokens := []
  failing _ := none

def answer : Assertion := ⟨"key", [1]⟩

/-- One verification with each kind of proof. -/
def eachOnce : List Step :=
  [.verify 7 "100003", .proceed 0, .proceed 0, .proceed 0, .verify 7 "rescue", .proceed 1,
    .proceed 1, .finishAuthentication "ceremony" 7 answer, .proceed 2, .proceed 2]

theorem spentOnce_eachOnce :
    (Runs.run (step plainVerifiers) (.start enrolledAccount 90) eachOnce).accepted.length = 3 ∧
      ∀ earlier later, eachOnce = earlier ++ later →
        SpentOnce (Runs.run (step plainVerifiers) (.start enrolledAccount 90) earlier) :=
  ⟨by decide +kernel,
    spentOnce_of_fits plainVerifiers enrolledAccount 90 eachOnce (by decide) (by decide +kernel)⟩

/-- One code is accepted by two verifications, one after the other. -/
def codeTwice : List Step :=
  [.verify 7 "100003", .proceed 0, .proceed 0, .proceed 0, .tick 20,
    .verify 7 "100003", .proceed 1, .proceed 1, .proceed 1]

/-- Two verifications of one answer read the passkey before either writes it. -/
def answerTwice : List Step :=
  [.finishAuthentication "ceremony" 7 answer, .finishAuthentication "ceremony" 7 answer,
    .proceed 0, .proceed 1, .proceed 0, .proceed 1]

theorem proofs_are_accepted_twice :
    ¬ SpentOnce (Runs.run (step plainVerifiers) (.start enrolledAccount 90) codeTwice) ∧
      ¬ SpentOnce (Runs.run (step plainVerifiers) (.start enrolledAccount 90) answerTwice) := by
  constructor
  · intro h
    exact absurd h.nodup (by decide +kernel)
  · intro h
    exact absurd h.nodup (by decide +kernel)

end Edda.Auth.SecondFactorProofs
