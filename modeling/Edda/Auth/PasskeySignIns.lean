import Edda.Auth.Passkeys

/-!
# What a sign-in with a passkey proves

In every run of requests, in which the statements of a sign-in may lie apart, an accepted sign-in of a
user answers a challenge that was given out to the user in the last three minutes, and is signed with
a key that an authenticator attested when the user registered it, and that was not revoked since
(`sign_in_is_proven`). Every such answer is taken if its counter is not behind (`checked_iff`). Where
no two sign-ins overlap the counters of a passkey only grow, and so no answer with a counter is taken
twice (`counters_grow`).
-/

set_option autoImplicit false

namespace Edda.Auth.Passkeys

open Edda.Domain Edda.Db Edda.Support Edda.Support.RustText Edda.Support.TextCodecs

/-! ## What happened -/

/-- The ceremony that a request begins, with its token and its challenge. -/
def Event.begins (event : Event) : Option (Purpose × UserId × String × Bytes) :=
  match event.request with
  | .beginRegistration userId _ _ challenge token => some (.register, userId, token, challenge)
  | .beginAuthentication userId challenge token => some (.authenticate, userId, token, challenge)
  | _ => none

/-- The ceremony was begun, and its token is still good. -/
def Begun (events : List Event) (purpose : Purpose) (userId : UserId) (token : String)
    (challenge : Bytes) (now : Nat) : Prop :=
  ∃ event ∈ events, event.begins = some (purpose, userId, token, challenge) ∧
    now ≤ event.now + ceremonyTtlSeconds + leewaySeconds

/-- A passkey as it was registered. -/
structure Enrolment where
  id : BitVec 128
  userId : UserId
  credentialId : Bytes
  alg : Int
  publicKey : PublicKey
  deriving DecidableEq, Repr

variable (lib : Libraries) (config : Config)

/-- The event registers the passkey: behind the earlier events, its answer to a challenge of the user
attests the key, and it is stored. -/
inductive Enrols (earlier : List Event) (event : Event) (enrolment : Enrolment) : Prop where
  | intro (token label : String) (response : AttestationResponse) (challenge authDataBytes : Bytes)
      (authData : AuthData) (attested : AttestedCredential)
      (request : event.request =
        .finishRegistration token enrolment.userId label enrolment.id response)
      (inserted : event.failing .insert = none)
      (begun : Begun earlier .register enrolment.userId token challenge event.now)
      (answers : Answers lib config .create challenge response.clientDataJson)
      (bytes : extractAuthData lib response.attestationObject = some authDataBytes)
      (data : lib.authData authDataBytes = some authData)
      (present : Present lib config authData)
      (attests : authData.attested = some attested)
      (credential : attested.credentialId = enrolment.credentialId)
      (alg : response.publicKeyAlgorithm = enrolment.alg)
      (key : attested.key.publicKey lib.keys enrolment.alg = some enrolment.publicKey)
      (accepted : enrolment.publicKey.Accepted lib.keys)

def Revokes (event : Event) (enrolment : Enrolment) : Prop :=
  event.request = .revoke enrolment.userId enrolment.id ∧ event.failing .delete = none

/-- The passkey was registered and has not been revoked since. -/
def InForce (events : List Event) (enrolment : Enrolment) : Prop :=
  ∃ earlier event later, events = earlier ++ event :: later ∧
    Enrols lib config earlier event enrolment ∧ ∀ other ∈ later, ¬ Revokes other enrolment

/-- The answer proves that its sender is the user of the passkey. -/
structure Proven (earlier : List Event) (check : Event) (token : String)
    (response : AssertionResponse) (enrolment : Enrolment) : Prop where
  request : check.request = .finishAuthentication token enrolment.userId response
  challenged : ∃ challenge, Begun earlier .authenticate enrolment.userId token challenge check.now ∧
    Answers lib config .get challenge response.clientDataJson
  present : ∃ authData, lib.authData response.authenticatorData = some authData ∧
    Present lib config authData
  enrolled : InForce lib config earlier enrolment
  credential : enrolment.credentialId = response.rawId
  signed : enrolment.publicKey.verifies lib.keys
    (response.authenticatorData ++ lib.sha256 response.clientDataJson) response.signature = true

/-- A token that is given out opens to the claims that were signed, one that opens was given out, and no
identifier is drawn twice. -/
def Allowed (w : World) (event : Event) : Prop :=
  match event.request with
  | .beginRegistration userId _ _ challenge token =>
    lib.openToken token = some (ceremonyClaims event.now userId challenge .register)
  | .finishRegistration token _ _ id _ =>
    (lib.openToken token = none ∨ token ∈ w.issued) ∧ id ∉ w.drawn
  | .beginAuthentication userId challenge token =>
    lib.openToken token = some (ceremonyClaims event.now userId challenge .authenticate)
  | .finishAuthentication token _ _ => lib.openToken token = none ∨ token ∈ w.issued
  | _ => True

instance decidableAllowed (w : World) (event : Event) : Decidable (Allowed lib w event) :=
  match h : event.request with
  | .beginRegistration userId _ _ challenge token =>
    decidable_of_iff (lib.openToken token =
      some (ceremonyClaims event.now userId challenge .register)) (by rw [Allowed, h])
  | .finishRegistration token _ _ id _ =>
    decidable_of_iff ((lib.openToken token = none ∨ token ∈ w.issued) ∧ id ∉ w.drawn)
      (by rw [Allowed, h])
  | .beginAuthentication userId challenge token =>
    decidable_of_iff (lib.openToken token =
      some (ceremonyClaims event.now userId challenge .authenticate)) (by rw [Allowed, h])
  | .finishAuthentication token _ _ =>
    decidable_of_iff (lib.openToken token = none ∨ token ∈ w.issued) (by rw [Allowed, h])
  | .update _ => decidable_of_iff True (by rw [Allowed, h])
  | .revoke _ _ => decidable_of_iff True (by rw [Allowed, h])

section Histories

variable {lib config} {events : List Event} {event : Event} {enrolment : Enrolment}

theorem Begun.concat {purpose : Purpose} {userId : UserId} {token : String} {challenge : Bytes}
    {now : Nat} (h : Begun events purpose userId token challenge now) :
    Begun (events ++ [event]) purpose userId token challenge now := by
  obtain ⟨begin, hmem, hbegins, hnow⟩ := h
  exact ⟨begin, List.mem_append_left _ hmem, hbegins, hnow⟩

/-- A passkey is in force behind an event if it was before and is not revoked, or is registered. -/
theorem inForce_concat : InForce lib config (events ++ [event]) enrolment ↔
    (InForce lib config events enrolment ∧ ¬ Revokes event enrolment) ∨
      Enrols lib config events event enrolment := by
  constructor
  · rintro ⟨earlier, first, later, heq, henrols, hkept⟩
    rcases List.eq_nil_or_concat later with rfl | ⟨between, last, rfl⟩
    · obtain ⟨rfl, hlast⟩ := List.append_inj' heq rfl
      obtain ⟨rfl, -⟩ := List.cons.inj hlast
      exact Or.inr henrols
    · rw [List.concat_eq_append] at heq hkept
      have hsplit : events ++ [event] = (earlier ++ first :: between) ++ [last] := by
        rw [heq, List.append_assoc, List.cons_append]
      obtain ⟨rfl, hlast⟩ := List.append_inj' hsplit rfl
      obtain ⟨rfl, -⟩ := List.cons.inj hlast
      refine Or.inl ⟨⟨earlier, first, between, rfl, henrols, ?_⟩, ?_⟩
      · exact fun other hother => hkept other (List.mem_append_left _ hother)
      · exact hkept event (List.mem_append_right _ List.mem_cons_self)
  · rintro (⟨⟨earlier, first, later, rfl, henrols, hkept⟩, hrevokes⟩ | henrols)
    · refine ⟨earlier, first, later ++ [event], by rw [List.append_assoc, List.cons_append], henrols, ?_⟩
      intro other hother
      rcases List.mem_append.1 hother with hlater | hlast
      · exact hkept other hlater
      · rw [List.mem_singleton.1 hlast]
        exact hrevokes
    · exact ⟨events, event, [], rfl, henrols, fun other hother => absurd hother List.not_mem_nil⟩

end Histories

/-! ## What the table holds -/

/-- The row keeps the passkey, with some counter. -/
def Stores (row : CredentialRow) (enrolment : Enrolment) : Prop :=
  row.id = enrolment.id ∧ row.userId = enrolment.userId ∧ ∃ stored encoded,
    row.stored = some stored ∧ stored.credentialId = encode enrolment.credentialId ∧
    stored.alg = enrolment.alg ∧ stored.publicKey = encode encoded ∧
    KeptAs lib.keys enrolment.alg encoded enrolment.publicKey

/-- The two differ in the counter only. -/
def SameKey (stored stored' : StoredCredential) : Prop :=
  stored = { stored' with signCount := stored.signCount }

/-- The counter that an answer reports, zero where its authenticator has none. -/
def counterOf (lib : Libraries) (response : AssertionResponse) : Nat :=
  ((lib.authData response.authenticatorData).bind AuthData.counter).getD 0

/-- What a world says of the events before it. -/
structure Books (events : List Event) (w : World) : Prop where
  opens : ∀ event ∈ events, ∀ purpose userId token challenge,
    event.begins = some (purpose, userId, token, challenge) →
      lib.openToken token = some (ceremonyClaims event.now userId challenge purpose)
  issued : ∀ token ∈ w.issued, ∃ event ∈ events, ∃ purpose userId challenge,
    event.begins = some (purpose, userId, token, challenge)
  sound : ∀ row ∈ w.rows, ∃ enrolment, InForce lib config events enrolment ∧ Stores lib row enrolment
  complete : ∀ enrolment, InForce lib config events enrolment →
    ∃ row ∈ w.rows, Stores lib row enrolment
  keyed : (w.rows.map fun row => row.id).Nodup
  drawn : ∀ row ∈ w.rows, row.id ∈ w.drawn
  pendingDrawn : ∀ attempt ∈ w.pending, attempt.rowId ∈ w.drawn
  pendingSame : ∀ attempt ∈ w.pending, ∀ row ∈ w.rows, row.id = attempt.rowId →
    ∃ stored, row.stored = some stored ∧ SameKey attempt.stored stored
  counted : ∀ attempt ∈ w.pending, attempt.stored.signCount = counterOf lib attempt.response
  proven : ∀ attempt ∈ w.pending, ∃ earlier check later enrolment,
    events = earlier ++ check :: later ∧ enrolment.userId = attempt.userId ∧
    enrolment.id = attempt.rowId ∧
    Proven lib config earlier check attempt.stateToken attempt.response enrolment

section Steps

variable {lib config} {events : List Event} {event : Event} {w : World} {enrolment : Enrolment}

theorem SameKey.trans {one two three : StoredCredential} (h : SameKey one two)
    (h' : SameKey two three) : SameKey one three := by
  rw [SameKey] at h h' ⊢
  rw [h, h']

theorem SameKey.symm {one two : StoredCredential} (h : SameKey one two) : SameKey two one := by
  rw [SameKey] at h ⊢
  rw [h]

theorem Stores.update {row : CredentialRow} {stored stored' : StoredCredential} {now : Nat}
    (h : Stores lib row enrolment) (hstored : row.stored = some stored)
    (hsame : SameKey stored' stored) :
    Stores lib { row with stored := some stored', lastUsedAt := some now } enrolment := by
  obtain ⟨hid, huser, found, encoded, hfound, hcredential, halg, hkey, hkept⟩ := h
  obtain rfl := Option.some.inj (hstored.symm.trans hfound)
  rw [SameKey] at hsame
  refine ⟨hid, huser, stored', encoded, rfl, ?_, ?_, ?_, hkept⟩
  · rw [hsame, hcredential]
  · rw [hsame, halg]
  · rw [hsame, hkey]

/-- What the check of a token says, if only tokens that were given out open. -/
theorem Books.begun_iff (h : Books lib config events w) {token : String}
    (hissued : lib.openToken token = none ∨ token ∈ w.issued) {now : Nat} {purpose : Purpose}
    {userId : UserId} {challenge : Bytes} :
    verifyCeremonyToken lib now token purpose userId = .ok challenge ↔
      Begun events purpose userId token challenge now := by
  rw [verify_eq_ok_iff]
  constructor
  · rintro ⟨claims, hopen, hnow, hpurpose, huser, hchallenge⟩
    have hmem := hissued.resolve_left (by rw [hopen]; exact Option.some_ne_none claims)
    obtain ⟨begin, hbegin, purpose', userId', challenge', hbegins⟩ := h.issued token hmem
    have hclaims := h.opens begin hbegin _ _ _ _ hbegins
    obtain rfl := Option.some.inj (hopen.symm.trans hclaims)
    rw [ceremonyClaims, decode_encode, Option.some.injEq] at hchallenge
    obtain rfl : purpose' = purpose := hpurpose
    obtain rfl := uuidText_inj huser
    obtain rfl := hchallenge
    exact ⟨begin, hbegin, hbegins, hnow⟩
  · rintro ⟨begin, hbegin, hbegins, hnow⟩
    exact ⟨_, h.opens begin hbegin _ _ _ _ hbegins, hnow, rfl, rfl, decode_encode challenge⟩

/-! ## One step -/

/-- The event neither registers nor revokes a passkey. -/
def Event.Quiet (event : Event) : Prop :=
  (∀ userId id, event.request = .revoke userId id → event.failing .delete ≠ none) ∧
    ∀ token userId label id response,
      event.request ≠ .finishRegistration token userId label id response

theorem Event.Quiet.inForce (h : event.Quiet) :
    InForce lib config (events ++ [event]) enrolment ↔ InForce lib config events enrolment := by
  rw [inForce_concat]
  constructor
  · rintro (⟨hforce, -⟩ | ⟨_, _, _, _, _, _, _, hrequest, _⟩)
    · exact hforce
    · exact absurd hrequest (h.2 _ _ _ _ _)
  · exact fun hforce => Or.inl ⟨hforce, fun hrevokes => h.1 _ _ hrevokes.1 hrevokes.2⟩

/-- What a step does to the world. -/
inductive Effect (lib : Libraries) (config : Config) (w : World) (event : Event) : World → Prop where
  | same (quiet : event.Quiet) : Effect lib config w event w
  | begun (quiet : event.Quiet) (purpose : Purpose) (userId : UserId) (token : String)
      (challenge : Bytes) (begins : event.begins = some (purpose, userId, token, challenge)) :
      Effect lib config w event { w with issued := token :: w.issued }
  | checked (quiet : event.Quiet) (token : String) (userId : UserId) (response : AssertionResponse)
      (attempt : Attempt) (request : event.request = .finishAuthentication token userId response)
      (check : checkAuthentication lib config w.rows event.failing event.now token userId response =
        .ok attempt) :
      Effect lib config w event { w with pending := w.pending ++ [attempt] }
  | failed (quiet : event.Quiet) (n : Nat) :
      Effect lib config w event { w with pending := w.pending.eraseIdx n }
  | updated (quiet : event.Quiet) (n : Nat) (attempt : Attempt)
      (pending : w.pending[n]? = some attempt) :
      Effect lib config w event { w with
        rows := updatePasskey w.rows event.now attempt
        pending := w.pending.eraseIdx n }
  | finished (token : String) (userId : UserId) (label : String) (id : BitVec 128)
      (response : AttestationResponse)
      (request : event.request = .finishRegistration token userId label id response) :
      Effect lib config w event { w with
        rows := (finishRegistration lib config w.rows event.failing event.now token userId label id
          response).1
        drawn := id :: w.drawn }
  | revoked (userId : UserId) (id : BitVec 128) (request : event.request = .revoke userId id)
      (succeeds : event.failing .delete = none) :
      Effect lib config w event { w with rows := deletePasskey w.rows userId id }

theorem effect_next (lib : Libraries) (config : Config) (w : World) (event : Event) :
    Effect lib config w event (next lib config w event) := by
  have hquiet (hrevoke : ∀ userId id, event.request ≠ .revoke userId id)
      (hfinish : ∀ token userId label id response,
        event.request ≠ .finishRegistration token userId label id response) : event.Quiet :=
    ⟨fun userId id hrequest => absurd hrequest (hrevoke userId id), hfinish⟩
  cases hrequest : event.request with
  | beginRegistration userId username displayName challenge token =>
    have hnot := hquiet (by simp [hrequest]) (by simp [hrequest])
    rw [next, step]
    simp only [hrequest]
    cases beginRegistration config w.rows event.failing userId username displayName challenge with
    | error err => exact .same hnot
    | ok options => exact .begun hnot _ _ token _ (by rw [Event.begins, hrequest])
  | finishRegistration token userId label id response =>
    rw [next, step]
    simp only [hrequest]
    exact .finished token userId label id response hrequest
  | beginAuthentication userId challenge token =>
    have hnot := hquiet (by simp [hrequest]) (by simp [hrequest])
    rw [next, step]
    simp only [hrequest]
    cases beginAuthentication config w.rows event.failing userId challenge with
    | error err => exact .same hnot
    | ok options => cases options with
      | none => exact .same hnot
      | some options => exact .begun hnot _ _ token _ (by rw [Event.begins, hrequest])
  | finishAuthentication token userId response =>
    have hnot := hquiet (by simp [hrequest]) (by simp [hrequest])
    rw [next, step]
    simp only [hrequest]
    cases hcheck : checkAuthentication lib config w.rows event.failing event.now token userId response with
    | error err => exact .same hnot
    | ok attempt => exact .checked hnot token userId response attempt hrequest hcheck
  | update n =>
    have hnot := hquiet (by simp [hrequest]) (by simp [hrequest])
    rw [next, step]
    simp only [hrequest]
    cases hpending : w.pending[n]? with
    | none => exact .same hnot
    | some attempt => cases event.failing .updatePasskey with
      | some err => exact .failed hnot n
      | none => exact .updated hnot n attempt hpending
  | revoke userId id =>
    rw [next, step]
    simp only [hrequest]
    cases hfailing : event.failing .delete with
    | some err =>
      exact .same ⟨fun _ _ _ => by rw [hfailing]; exact Option.some_ne_none err, by simp [hrequest]⟩
    | none => exact .revoked userId id hrequest hfailing

/-! ## The books are kept -/

theorem opens_of_allowed (hallowed : Allowed lib w event) {purpose : Purpose} {userId : UserId}
    {token : String} {challenge : Bytes}
    (hbegins : event.begins = some (purpose, userId, token, challenge)) :
    lib.openToken token = some (ceremonyClaims event.now userId challenge purpose) := by
  cases hrequest : event.request with
  | beginRegistration userId' _ _ challenge' token' =>
    simp only [Event.begins, hrequest, Option.some.injEq, Prod.mk.injEq] at hbegins
    simp only [Allowed, hrequest] at hallowed
    obtain ⟨rfl, rfl, rfl, rfl⟩ := hbegins
    exact hallowed
  | beginAuthentication userId' challenge' token' =>
    simp only [Event.begins, hrequest, Option.some.injEq, Prod.mk.injEq] at hbegins
    simp only [Allowed, hrequest] at hallowed
    obtain ⟨rfl, rfl, rfl, rfl⟩ := hbegins
    exact hallowed
  | _ => simp [Event.begins, hrequest] at hbegins

/-- The histories only grow. -/
theorem Books.opens_concat (h : Books lib config events w) (hallowed : Allowed lib w event) :
    ∀ one ∈ events ++ [event], ∀ purpose userId token challenge,
      one.begins = some (purpose, userId, token, challenge) →
        lib.openToken token = some (ceremonyClaims one.now userId challenge purpose) := by
  intro one hone purpose userId token challenge hbegins
  rcases List.mem_append.1 hone with hold | hnew
  · exact h.opens one hold _ _ _ _ hbegins
  · obtain rfl := List.mem_singleton.1 hnew
    exact opens_of_allowed hallowed hbegins

theorem Books.issued_concat (h : Books lib config events w) :
    ∀ token ∈ w.issued, ∃ one ∈ events ++ [event], ∃ purpose userId challenge,
      one.begins = some (purpose, userId, token, challenge) := by
  intro token htoken
  obtain ⟨one, hone, hbegins⟩ := h.issued token htoken
  exact ⟨one, List.mem_append_left _ hone, hbegins⟩

theorem Books.proven_concat (h : Books lib config events w) :
    ∀ attempt ∈ w.pending, ∃ earlier check later enrolment,
      events ++ [event] = earlier ++ check :: later ∧ enrolment.userId = attempt.userId ∧
      enrolment.id = attempt.rowId ∧
      Proven lib config earlier check attempt.stateToken attempt.response enrolment := by
  intro attempt hattempt
  obtain ⟨earlier, check, later, enrolment, rfl, hproven⟩ := h.proven attempt hattempt
  exact ⟨earlier, check, later ++ [event], enrolment, by simp, hproven⟩

theorem Books.quiet (h : Books lib config events w) (hallowed : Allowed lib w event)
    (hquiet : event.Quiet) : Books lib config (events ++ [event]) w where
  opens := h.opens_concat hallowed
  issued := h.issued_concat
  sound row hrow := by
    obtain ⟨enrolment, hforce, hstores⟩ := h.sound row hrow
    exact ⟨enrolment, hquiet.inForce.2 hforce, hstores⟩
  complete enrolment hforce := h.complete enrolment (hquiet.inForce.1 hforce)
  keyed := h.keyed
  drawn := h.drawn
  pendingDrawn := h.pendingDrawn
  pendingSame := h.pendingSame
  counted := h.counted
  proven := h.proven_concat

theorem Books.issue (h : Books lib config events w) {token : String}
    (hbegun : ∃ one ∈ events, ∃ purpose userId challenge,
      one.begins = some (purpose, userId, token, challenge)) :
    Books lib config events { w with issued := token :: w.issued } :=
  { h with
    issued := by
      intro other hother
      rcases List.mem_cons.1 hother with rfl | hold
      · exact hbegun
      · exact h.issued other hold }

theorem Books.eraseIdx (h : Books lib config events w) (n : Nat) :
    Books lib config events { w with pending := w.pending.eraseIdx n } :=
  { h with
    pendingDrawn := fun attempt hattempt => h.pendingDrawn attempt (List.mem_of_mem_eraseIdx hattempt)
    pendingSame := fun attempt hattempt => h.pendingSame attempt (List.mem_of_mem_eraseIdx hattempt)
    counted := fun attempt hattempt => h.counted attempt (List.mem_of_mem_eraseIdx hattempt)
    proven := fun attempt hattempt => h.proven attempt (List.mem_of_mem_eraseIdx hattempt) }

theorem mem_updatePasskey {rows : List CredentialRow} {now : Nat} {attempt : Attempt}
    {row : CredentialRow} (h : row ∈ updatePasskey rows now attempt) :
    (row ∈ rows ∧ row.id ≠ attempt.rowId) ∨ ∃ old ∈ rows, old.id = attempt.rowId ∧
      row = { old with stored := some attempt.stored, lastUsedAt := some now } := by
  obtain ⟨old, hold, heq⟩ := List.mem_map.1 h
  split at heq
  · rename_i hid
    exact Or.inr ⟨old, hold, hid, heq.symm⟩
  · rename_i hid
    subst heq
    exact Or.inl ⟨hold, hid⟩

theorem ids_updatePasskey (rows : List CredentialRow) (now : Nat) (attempt : Attempt) :
    (updatePasskey rows now attempt).map (fun row => row.id) = rows.map fun row => row.id := by
  rw [updatePasskey, List.map_map]
  apply List.map_congr_left
  intro row _
  simp only [Function.comp]
  split <;> rfl

/-- An update that is due changes a counter and no key. -/
theorem Books.update (h : Books lib config events w) {attempt : Attempt}
    (hattempt : attempt ∈ w.pending) (now : Nat) :
    Books lib config events { w with rows := updatePasskey w.rows now attempt } :=
  { h with
    sound := by
      intro row hrow
      rcases mem_updatePasskey hrow with ⟨hold, -⟩ | ⟨old, hold, hid, rfl⟩
      · exact h.sound row hold
      · obtain ⟨enrolment, hforce, hstores⟩ := h.sound old hold
        obtain ⟨stored, hstored, hsame⟩ := h.pendingSame attempt hattempt old hold hid
        exact ⟨enrolment, hforce, hstores.update hstored hsame⟩
    complete := by
      intro enrolment hforce
      obtain ⟨row, hrow, hstores⟩ := h.complete enrolment hforce
      refine ⟨_, List.mem_map_of_mem hrow, ?_⟩
      split
      · rename_i hid
        obtain ⟨stored, hstored, hsame⟩ := h.pendingSame attempt hattempt row hrow hid
        exact hstores.update hstored hsame
      · exact hstores
    keyed := by
      rw [ids_updatePasskey]
      exact h.keyed
    drawn := by
      intro row hrow
      rcases mem_updatePasskey hrow with ⟨hold, -⟩ | ⟨old, hold, hid, rfl⟩
      · exact h.drawn row hold
      · exact h.drawn old hold
    pendingSame := by
      intro other hother row hrow hid
      rcases mem_updatePasskey hrow with ⟨hold, -⟩ | ⟨old, hold, hold', rfl⟩
      · exact h.pendingSame other hother row hold hid
      · -- both attempts hold the key of the row
        obtain ⟨stored, hstored, hsame⟩ := h.pendingSame attempt hattempt old hold hold'
        obtain ⟨stored', hstored', hsame'⟩ := h.pendingSame other hother old hold hid
        obtain rfl := Option.some.inj (hstored.symm.trans hstored')
        exact ⟨attempt.stored, rfl, hsame'.trans hsame.symm⟩ }

/-- Rows with one identifier are one. -/
theorem Books.row_unique (h : Books lib config events w) {row row' : CredentialRow}
    (hrow : row ∈ w.rows) (hrow' : row' ∈ w.rows) (hid : row.id = row'.id) : row = row' :=
  List.inj_on_of_nodup_map h.keyed hrow hrow' hid

/-- An answer that is taken proves a passkey, whose row keeps a counter that is behind. -/
theorem Books.check (h : Books lib config events w) {token : String} {userId : UserId}
    {response : AssertionResponse} {attempt : Attempt}
    (hrequest : event.request = .finishAuthentication token userId response)
    (hissued : lib.openToken token = none ∨ token ∈ w.issued)
    (hcheck : checkAuthentication lib config w.rows event.failing event.now token userId response =
      .ok attempt) :
    ∃ row ∈ w.rows, ∃ stored enrolment, row.stored = some stored ∧
      attempt = ⟨userId, token, response, row.id, { stored with signCount := counterOf lib response }⟩ ∧
      counterRegressed stored.signCount (counterOf lib response) = false ∧
      Stores lib row enrolment ∧ enrolment.userId = userId ∧
      Proven lib config events event token response enrolment := by
  obtain ⟨-, challenge, rowId, stored, stored', hverify, hmatch, hassertion, rfl⟩ :=
    checkAuthentication_eq_ok_iff.1 hcheck
  obtain ⟨hcredential, row, hlisted, rfl, hstored⟩ := matchCredential_mem hmatch
  obtain ⟨hrow, huser⟩ := mem_listForUser.1 hlisted
  obtain ⟨enrolment, hforce, hstores⟩ := h.sound row hrow
  obtain ⟨hanswers, authData, publicKey, hauth, hpresent, hkey, hsigned, hcounter, rfl⟩ :=
    checkAssertion_eq_some_iff.1 hassertion
  have hcounterOf : counterOf lib response = authData.counter.getD 0 := by
    rw [counterOf, hauth, Option.bind_some]
  obtain ⟨-, huser', stored', encoded, hstored', hcredential', halg, hencoded, hkept⟩ := id hstores
  obtain rfl := Option.some.inj (hstored.symm.trans hstored')
  have hen : enrolment.userId = userId := huser'.symm.trans huser
  refine ⟨row, hrow, stored, enrolment, hstored, by rw [hcounterOf], by rw [hcounterOf]; exact hcounter,
    hstores, hen, ?_⟩
  have hbytes : encoded = publicKey := by
    rw [hencoded, decode_encode] at hkey
    exact Option.some.inj hkey
  subst hbytes
  exact {
    request := by rw [hrequest, hen]
    challenged := by
      rw [hen]
      exact ⟨challenge, (h.begun_iff hissued).1 hverify, hanswers⟩
    present := ⟨authData, hauth, hpresent⟩
    enrolled := hforce
    credential := encode_inj (hcredential'.symm.trans hcredential)
    signed := by
      rw [← hkept, ← halg]
      exact hsigned }

theorem issued_of_allowed {token : String} {userId : UserId} {response : AssertionResponse}
    (hallowed : Allowed lib w event)
    (hrequest : event.request = .finishAuthentication token userId response) :
    lib.openToken token = none ∨ token ∈ w.issued := by
  simpa only [Allowed, hrequest] using hallowed

theorem Books.checked (h : Books lib config events w) (hallowed : Allowed lib w event)
    (hquiet : event.Quiet) {token : String} {userId : UserId} {response : AssertionResponse}
    {attempt : Attempt} (hrequest : event.request = .finishAuthentication token userId response)
    (hcheck : checkAuthentication lib config w.rows event.failing event.now token userId response =
      .ok attempt) :
    Books lib config (events ++ [event]) { w with pending := w.pending ++ [attempt] } := by
  obtain ⟨row, hrow, stored, enrolment, hstored, rfl, -, hstores, huser, hproven⟩ :=
    h.check hrequest (issued_of_allowed hallowed hrequest) hcheck
  have hbooks := h.quiet hallowed hquiet
  exact { hbooks with
    pendingDrawn := by
      intro attempt hattempt
      rcases List.mem_append.1 hattempt with hold | hnew
      · exact h.pendingDrawn attempt hold
      · rw [List.mem_singleton.1 hnew]
        exact h.drawn row hrow
    pendingSame := by
      intro attempt hattempt row' hrow' hid
      rcases List.mem_append.1 hattempt with hold | hnew
      · exact h.pendingSame attempt hold row' hrow' hid
      · rw [List.mem_singleton.1 hnew] at hid ⊢
        obtain rfl := h.row_unique hrow' hrow hid
        exact ⟨stored, hstored, rfl⟩
    counted := by
      intro attempt hattempt
      rcases List.mem_append.1 hattempt with hold | hnew
      · exact h.counted attempt hold
      · rw [List.mem_singleton.1 hnew]
    proven := by
      intro attempt hattempt
      rcases List.mem_append.1 hattempt with hold | hnew
      · exact hbooks.proven attempt hold
      · rw [List.mem_singleton.1 hnew]
        exact ⟨events, event, [], enrolment, rfl, huser, hstores.1.symm, hproven⟩ }

/-- A registration that is taken enrols what it stores. -/
theorem Books.enrols (h : Books lib config events w) {token label : String} {userId : UserId}
    {id : BitVec 128} {response : AttestationResponse} {challenge : Bytes} {stored : StoredCredential}
    (hrequest : event.request = .finishRegistration token userId label id response)
    (hissued : lib.openToken token = none ∨ token ∈ w.issued)
    (hverify : verifyCeremonyToken lib event.now token .register userId = .ok challenge)
    (hcheck : checkAttestation lib config challenge response = some stored)
    (hinsert : event.failing .insert = none) :
    ∃ enrolment, Enrols lib config events event enrolment ∧
      Stores lib ⟨⟨id, userId, some stored⟩, label, event.now, none⟩ enrolment := by
  obtain ⟨hanswers, authDataBytes, authData, attested, encoded, hbytes, hdata, hpresent, hattested,
    hextract, rfl⟩ := checkAttestation_eq_some_iff.1 hcheck
  obtain ⟨publicKey, hkey, haccepted, hkept⟩ := kept_of_extract hextract
  refine ⟨⟨id, userId, attested.credentialId, response.publicKeyAlgorithm, publicKey⟩, ?_, ?_⟩
  · exact .intro token label response challenge authDataBytes authData attested hrequest hinsert
      ((h.begun_iff hissued).1 hverify) hanswers hbytes hdata hpresent hattested rfl rfl hkey haccepted
  · exact ⟨rfl, rfl, _, encoded, rfl, rfl, rfl, rfl, hkept⟩

/-- What a registration enrols it stores. -/
theorem Books.stored_of_enrols (h : Books lib config events w)
    {token label : String} {userId : UserId} {id : BitVec 128} {response : AttestationResponse}
    (hrequest : event.request = .finishRegistration token userId label id response)
    (hissued : lib.openToken token = none ∨ token ∈ w.issued)
    (henrols : Enrols lib config events event enrolment) :
    event.failing .insert = none ∧ ∃ challenge stored,
      verifyCeremonyToken lib event.now token .register userId = .ok challenge ∧
      checkAttestation lib config challenge response = some stored ∧
      Stores lib ⟨⟨id, userId, some stored⟩, label, event.now, none⟩ enrolment := by
  obtain ⟨token', label', response', challenge, authDataBytes, authData, attested, hrequest', hinsert,
    hbegun, hanswers, hbytes, hdata, hpresent, hattested, hcredential, halg, hkey, haccepted⟩ := henrols
  rw [hrequest, Request.finishRegistration.injEq] at hrequest'
  obtain ⟨rfl, rfl, rfl, rfl, rfl⟩ := hrequest'
  obtain ⟨encoded, hextract⟩ := exists_extract hkey haccepted
  obtain ⟨publicKey, hkey', -, hkept⟩ := kept_of_extract hextract
  obtain rfl := Option.some.inj (hkey.symm.trans hkey')
  rw [← halg] at hextract
  refine ⟨hinsert, challenge, _, (h.begun_iff hissued).2 hbegun, checkAttestation_eq_some_iff.2
    ⟨hanswers, authDataBytes, authData, attested, encoded, hbytes, hdata, hpresent, hattested, hextract,
      rfl⟩, ?_⟩
  exact ⟨rfl, rfl, _, encoded, rfl, by rw [hcredential], halg, rfl, hkept⟩

theorem inForce_concat_of_finish {token label : String} {userId : UserId} {id : BitVec 128}
    {response : AttestationResponse}
    (hrequest : event.request = .finishRegistration token userId label id response) :
    InForce lib config (events ++ [event]) enrolment ↔
      InForce lib config events enrolment ∨ Enrols lib config events event enrolment := by
  have hkept : ¬ Revokes event enrolment := fun hrevokes => by
    rw [Revokes, hrequest] at hrevokes
    cases hrevokes.1
  rw [inForce_concat, and_iff_left hkept]

theorem Books.finish (h : Books lib config events w) (hallowed : Allowed lib w event)
    {token label : String} {userId : UserId} {id : BitVec 128} {response : AttestationResponse}
    (hrequest : event.request = .finishRegistration token userId label id response) :
    Books lib config (events ++ [event]) { w with
      rows := (finishRegistration lib config w.rows event.failing event.now token userId label id
        response).1
      drawn := id :: w.drawn } := by
  obtain ⟨hissued, hfresh⟩ : (lib.openToken token = none ∨ token ∈ w.issued) ∧ id ∉ w.drawn := by
    simpa only [Allowed, hrequest] using hallowed
  have hother {rowId : BitVec 128} (hdrawn : rowId ∈ w.drawn) : id ≠ rowId := by
    rintro rfl
    exact hfresh hdrawn
  rcases @finishRegistration_rows lib config w.rows event.failing event.now token userId label id response
    with ⟨challenge, stored, hverify, hcheck, hinsert, hrows⟩ | ⟨hnot, hrows⟩
  · rw [hrows]
    obtain ⟨enrolment, henrols, hstores⟩ := h.enrols hrequest hissued hverify hcheck hinsert
    exact {
      opens := h.opens_concat hallowed
      issued := h.issued_concat
      sound := by
        intro row hrow
        rcases List.mem_append.1 hrow with hold | hnew
        · obtain ⟨found, hforce, hfound⟩ := h.sound row hold
          exact ⟨found, (inForce_concat_of_finish hrequest).2 (Or.inl hforce), hfound⟩
        · rw [List.mem_singleton.1 hnew]
          exact ⟨enrolment, (inForce_concat_of_finish hrequest).2 (Or.inr henrols), hstores⟩
      complete := by
        intro found hforce
        rcases (inForce_concat_of_finish hrequest).1 hforce with hold | hnew
        · obtain ⟨row, hrow, hfound⟩ := h.complete found hold
          exact ⟨row, List.mem_append_left _ hrow, hfound⟩
        · obtain ⟨-, challenge', stored', hverify', hcheck', hfound⟩ :=
            h.stored_of_enrols hrequest hissued hnew
          obtain rfl := Except.ok.inj (hverify.symm.trans hverify')
          obtain rfl := Option.some.inj (hcheck.symm.trans hcheck')
          exact ⟨_, List.mem_append_right _ List.mem_cons_self, hfound⟩
      keyed := by
        rw [List.map_append, List.nodup_append]
        refine ⟨h.keyed, List.nodup_singleton _, ?_⟩
        rintro rowId hold rowId' hnew rfl
        obtain ⟨row, hrow, rfl⟩ := List.mem_map.1 hold
        exact hother (h.drawn row hrow) (List.mem_singleton.1 hnew).symm
      drawn := by
        intro row hrow
        rcases List.mem_append.1 hrow with hold | hnew
        · exact List.mem_cons_of_mem _ (h.drawn row hold)
        · rw [List.mem_singleton.1 hnew]
          exact List.mem_cons_self
      pendingDrawn := fun attempt hattempt => List.mem_cons_of_mem _ (h.pendingDrawn attempt hattempt)
      pendingSame := by
        intro attempt hattempt row hrow hid
        rcases List.mem_append.1 hrow with hold | hnew
        · exact h.pendingSame attempt hattempt row hold hid
        · rw [List.mem_singleton.1 hnew] at hid
          exact absurd hid (hother (h.pendingDrawn attempt hattempt))
      counted := h.counted
      proven := h.proven_concat }
  · rw [hrows]
    have hforce {found : Enrolment} : InForce lib config (events ++ [event]) found ↔
        InForce lib config events found := by
      rw [inForce_concat_of_finish hrequest]
      refine or_iff_left fun henrols => ?_
      obtain ⟨hinsert, challenge, stored, hverify, hcheck, -⟩ :=
        h.stored_of_enrols hrequest hissued henrols
      exact hnot ⟨challenge, stored, hverify, hcheck, hinsert⟩
    exact {
      opens := h.opens_concat hallowed
      issued := h.issued_concat
      sound := by
        intro row hrow
        obtain ⟨found, hold, hfound⟩ := h.sound row hrow
        exact ⟨found, hforce.2 hold, hfound⟩
      complete := fun found hfound => h.complete found (hforce.1 hfound)
      keyed := h.keyed
      drawn := fun row hrow => List.mem_cons_of_mem _ (h.drawn row hrow)
      pendingDrawn := fun attempt hattempt => List.mem_cons_of_mem _ (h.pendingDrawn attempt hattempt)
      pendingSame := h.pendingSame
      counted := h.counted
      proven := h.proven_concat }

theorem mem_deletePasskey {rows : List CredentialRow} {userId : UserId} {id : BitVec 128}
    {row : CredentialRow} :
    row ∈ deletePasskey rows userId id ↔ row ∈ rows ∧ ¬ (row.id = id ∧ row.userId = userId) := by
  rw [deletePasskey, List.mem_filter, decide_eq_true_eq]

theorem Books.revoke (h : Books lib config events w) (hallowed : Allowed lib w event)
    {userId : UserId} {id : BitVec 128} (hrequest : event.request = .revoke userId id)
    (hdelete : event.failing .delete = none) :
    Books lib config (events ++ [event]) { w with rows := deletePasskey w.rows userId id } := by
  have hforce {found : Enrolment} : InForce lib config (events ++ [event]) found ↔
      InForce lib config events found ∧ ¬ (found.id = id ∧ found.userId = userId) := by
    have hrevokes : Revokes event found ↔ found.id = id ∧ found.userId = userId := by
      rw [Revokes, hrequest, and_iff_left hdelete, Request.revoke.injEq, and_comm, eq_comm,
        @eq_comm _ userId]
    have henrols : ¬ Enrols lib config events event found := by
      rintro ⟨_, _, _, _, _, _, _, hrequest', _⟩
      rw [hrequest] at hrequest'
      cases hrequest'
    rw [inForce_concat, hrevokes, or_iff_left henrols]
  exact {
    opens := h.opens_concat hallowed
    issued := h.issued_concat
    sound := by
      intro row hrow
      obtain ⟨hold, hkept⟩ := mem_deletePasskey.1 hrow
      obtain ⟨found, hfound, hstores⟩ := h.sound row hold
      refine ⟨found, hforce.2 ⟨hfound, ?_⟩, hstores⟩
      rw [← hstores.1, ← hstores.2.1]
      exact hkept
    complete := by
      intro found hfound
      obtain ⟨hold, hkept⟩ := hforce.1 hfound
      obtain ⟨row, hrow, hstores⟩ := h.complete found hold
      refine ⟨row, mem_deletePasskey.2 ⟨hrow, ?_⟩, hstores⟩
      rw [hstores.1, hstores.2.1]
      exact hkept
    keyed := h.keyed.sublist (List.filter_sublist.map _)
    drawn := fun row hrow => h.drawn row (mem_deletePasskey.1 hrow).1
    pendingDrawn := h.pendingDrawn
    pendingSame := fun attempt hattempt row hrow =>
      h.pendingSame attempt hattempt row (mem_deletePasskey.1 hrow).1
    counted := h.counted
    proven := h.proven_concat }

/-- Every step keeps the books, and writes itself down in them. -/
theorem Books.next (h : Books lib config events w) (hallowed : Allowed lib w event) :
    Books lib config (events ++ [event]) (Passkeys.next lib config w event) := by
  have heffect := effect_next lib config w event
  generalize Passkeys.next lib config w event = w' at heffect ⊢
  cases heffect with
  | same hquiet => exact h.quiet hallowed hquiet
  | begun hquiet purpose userId token challenge hbegins =>
    apply (h.quiet hallowed hquiet).issue
    exact ⟨event, List.mem_append_right _ List.mem_cons_self, purpose, userId, challenge, hbegins⟩
  | checked hquiet token userId response attempt hrequest hcheck =>
    exact h.checked hallowed hquiet hrequest hcheck
  | failed hquiet n => exact (h.quiet hallowed hquiet).eraseIdx n
  | updated hquiet n attempt hpending =>
    have hupdated := (h.quiet hallowed hquiet).update (List.mem_of_getElem? hpending) event.now
    exact hupdated.eraseIdx n
  | finished token userId label id response hrequest => exact h.finish hallowed hrequest
  | revoked userId id hrequest hdelete => exact h.revoke hallowed hrequest hdelete

theorem books_start : Books lib config [] World.start where
  opens event hevent := absurd hevent List.not_mem_nil
  issued token htoken := absurd htoken List.not_mem_nil
  sound row hrow := absurd hrow List.not_mem_nil
  complete := by
    rintro enrolment ⟨earlier, event, later, heq, -⟩
    simp at heq
  keyed := List.nodup_nil
  drawn row hrow := absurd hrow List.not_mem_nil
  pendingDrawn attempt hattempt := absurd hattempt List.not_mem_nil
  pendingSame attempt hattempt := absurd hattempt List.not_mem_nil
  counted attempt hattempt := absurd hattempt List.not_mem_nil
  proven attempt hattempt := absurd hattempt List.not_mem_nil

theorem books_after
    (h : Runs.Throughout (Passkeys.next lib config) (Allowed lib) World.start events) :
    Books lib config events (after lib config events) := by
  induction events using List.reverseRecOn with
  | nil => exact books_start
  | append_singleton events event ih =>
    obtain ⟨hearlier, hlast⟩ := Runs.throughout_append.1 h
    rw [after, Runs.run_concat]
    exact (ih hearlier).next (Runs.throughout_cons.1 hlast).1

/-! ## A passkey and its messages -/

/-- The last bytes of a number, the most significant first. -/
def bytesOf : Nat → Nat → Bytes
  | 0, _ => []
  | count + 1, n => bytesOf count (n / 256) ++ [UInt8.ofNat n]

namespace Ada

def userId : UserId := 0x0190a0b0c0d07e0f8a1b2c3d4e5f6071

def site : Config := ⟨"example.com", "https://example.com", false, false⟩

def registerToken : String :=
  "eyJ0eXAiOiJKV1QiLCJh" ++ "bGciOiJIUzI1NiJ9.eyJ" ++ "1c2VyX2lkIjoiMDE5MGE" ++ "wYjAtYzBkMC03ZTBmLTh" ++
  "hMWItMmMzZDRlNWY2MDc" ++ "xIiwiY2hhbGxlbmdlIjo" ++ "iQndjSEJ3Y0hCd2NIQnd" ++ "jSEJ3Y0hCd2NIQndjSEJ" ++
  "3Y0hCd2NIQndjSEJ3YyI" ++ "sInB1cnBvc2UiOiJSZWd" ++ "pc3RlciIsImV4cCI6MTc" ++ "wMDAwMDEyMH0.iHpxXkV" ++
  "Aytl8IdL0jgtlXosaubn" ++ "oJftt-tnMhVyeExk"

def signInToken : String :=
  "eyJ0eXAiOiJKV1QiLCJh" ++ "bGciOiJIUzI1NiJ9.eyJ" ++ "1c2VyX2lkIjoiMDE5MGE" ++ "wYjAtYzBkMC03ZTBmLTh" ++
  "hMWItMmMzZDRlNWY2MDc" ++ "xIiwiY2hhbGxlbmdlIjo" ++ "iQ1FrSkNRa0pDUWtKQ1F" ++ "rSkNRa0pDUWtKQ1FrSkN" ++
  "Ra0pDUWtKQ1FrSkNRayI" ++ "sInB1cnBvc2UiOiJBdXR" ++ "oZW50aWNhdGUiLCJleHA" ++ "iOjE3MDAwMDAxODB9.V7" ++
  "BEjpxRNnbiIZCrdfHqYu" ++ "4KUMnkZH5exKc_EoOJD4" ++ "8"

def createJson : Bytes :=
  utf8 "\x7b\"type\":\"webauth" ++ utf8 "n.create\",\"chall" ++ utf8 "enge\":\"BwcHBwcHB" ++
  utf8 "wcHBwcHBwcHBwcHB" ++ utf8 "wcHBwcHBwcHBwcHB" ++ utf8 "wc\",\"origin\":\"ht" ++
  utf8 "tps://example.co" ++ utf8 "m\",\"crossOrigin\"" ++ utf8 ":false\x7d"

def getJson : Bytes :=
  utf8 "\x7b\"type\":\"webauth" ++ utf8 "n.get\",\"challeng" ++ utf8 "e\":\"CQkJCQkJCQkJ" ++
  utf8 "CQkJCQkJCQkJCQkJ" ++ utf8 "CQkJCQkJCQkJCQk\"" ++ utf8 ",\"origin\":\"https" ++
  utf8 "://example.com\"," ++ utf8 "\"crossOrigin\":fa" ++ utf8 "lse\x7d"

def rpIdHash : Bytes := bytesOf 32
  0xa379a6f6eeafb9a55e378c118034e2751e682fab9f2d30ab13d2125586ce1947

/-- An Ed25519 key. -/
def publicKey : Bytes := bytesOf 32
  0x4319a7c0de48a5bdbb5cb6fda5df6e109c173dd7ec6d3cf8d47b23463e8c12b5

def credentialId : Bytes := List.replicate 16 0xAB

/-- What is attested: user present, no counter, and the key. -/
def attestedData : Bytes :=
  rpIdHash ++ [0x41, 0, 0, 0, 0] ++ List.replicate 16 0 ++ [0, 16] ++ credentialId ++
    [0xA4, 1, 1, 3, 0x27, 0x20, 6, 0x21, 0x58, 0x20] ++ publicKey

def assertedData : Bytes := rpIdHash ++ [1, 0, 0, 0, 0]

def attestationObject : Bytes :=
  [0xA3, 0x63] ++ utf8 "fmt" ++ [0x64] ++ utf8 "none" ++ [0x67] ++ utf8 "attStmt" ++ [0xA0, 0x68] ++
    utf8 "authData" ++ [0x58, 0x71] ++ attestedData

def signature : Bytes := bytesOf 64
  0x5bca29c3438922d6e9ebfe74415a96f0ce325f90c1f40bd0069473c113be5958cbe52feb30edf6032875c77632c05ed2c724334b5e8b0cffa43b2268a5a8f00d

def coseKey : CoseKey := ⟨.okp, [(.int (-1), .integer 6), (.int okpX, .bytes publicKey)]⟩

/-- The libraries, as far as these messages go. -/
def libraries : Libraries where
  openToken token :=
    if token = registerToken then
      some (ceremonyClaims 1700000000 userId (List.replicate 32 7) .register)
    else if token = signInToken then
      some (ceremonyClaims 1700000060 userId (List.replicate 32 9) .authenticate)
    else none
  sha256 bytes :=
    if bytes = utf8 "example.com" then rpIdHash
    else if bytes = getJson then bytesOf 32
      0xb144590e374217d393de80b541bb35975441c3aaef53726a67f6d3620212e0d0
    else []
  clientData json :=
    if json = createJson then
      some ⟨.create, encode (List.replicate 32 7), "https://example.com", some false⟩
    else if json = getJson then
      some ⟨.get, encode (List.replicate 32 9), "https://example.com", some false⟩
    else none
  cbor bytes :=
    if bytes = attestationObject then
      some (.map [(.text "fmt", .text "none"), (.text "attStmt", .map []),
        (.text "authData", .bytes attestedData)])
    else none
  authData bytes :=
    if bytes = attestedData then
      some ⟨rpIdHash, ⟨true, false⟩, some 0, some ⟨credentialId, coseKey⟩⟩
    else if bytes = assertedData then some ⟨rpIdHash, ⟨true, false⟩, some 0, none⟩
    else none
  keys :=
    { sec1 := fun _ => none
      p256Key := fun _ => false
      p256Verifies := fun _ _ _ => false
      ed25519Key := fun x => x = publicKey
      ed25519Verifies := fun x signedData sent =>
        x = publicKey ∧ signedData = assertedData ++ bytesOf 32
          0xb144590e374217d393de80b541bb35975441c3aaef53726a67f6d3620212e0d0 ∧
          sent = signature
      rsaKey := fun _ _ => false
      rsaVerifies := fun _ _ _ _ => false }

def assertion : AssertionResponse := ⟨credentialId, getJson, assertedData, signature⟩

/-- Ada registers a passkey and answers with it. -/
def history : List Event :=
  [⟨1700000000, fun _ => none,
      .beginRegistration userId "ada" "Ada" (List.replicate 32 7) registerToken⟩,
    ⟨1700000005, fun _ => none, .finishRegistration registerToken userId "Key" 1
      ⟨createJson, attestationObject, coseAlgEddsa⟩⟩,
    ⟨1700000060, fun _ => none, .beginAuthentication userId (List.replicate 32 9) signInToken⟩]

def check : Event := ⟨1700000065, fun _ => none, .finishAuthentication signInToken userId assertion⟩

def update : Event := ⟨1700000066, fun _ => none, .update 0⟩

def attempt : Attempt :=
  ⟨userId, signInToken, assertion, 1, ⟨encode credentialId, encode publicKey, coseAlgEddsa, 0⟩⟩

/-- Ada answers, the answer is written, and she sends it once more. -/
theorem allowed : Runs.Throughout (next libraries site) (Allowed libraries) World.start
    ((history ++ [check]) ++ update :: [check]) := by
  decide +kernel

theorem signed_in : (step libraries site (after libraries site (history ++ [check])) update).2 =
    .authenticated attempt := by
  decide +kernel

end Ada

/-! ## Sign-ins -/

theorem step_authenticated {attempt : Attempt}
    (h : (step lib config w event).2 = .authenticated attempt) :
    ∃ n : Nat, w.pending[n]? = some attempt ∧ next lib config w event = { w with
      rows := updatePasskey w.rows event.now attempt
      pending := w.pending.eraseIdx n } := by
  cases hrequest : event.request with
  | update n =>
    simp only [next, step, hrequest] at h ⊢
    cases hpending : w.pending[n]? with
    | none => simp [hpending] at h
    | some found => cases hfailing : event.failing .updatePasskey with
      | some err => simp [hpending, hfailing] at h
      | none =>
        simp only [hpending, hfailing, Output.authenticated.injEq] at h
        subst h
        exact ⟨n, hpending, rfl⟩
  | beginRegistration userId username displayName challenge token =>
    simp only [step, hrequest] at h
    split at h <;> cases h
  | finishRegistration token userId label id response =>
    simp only [step, hrequest] at h
    split at h <;> cases h
  | beginAuthentication userId challenge token =>
    simp only [step, hrequest] at h
    split at h <;> cases h
  | finishAuthentication token userId response =>
    simp only [step, hrequest] at h
    split at h <;> cases h
  | revoke userId id =>
    simp only [step, hrequest] at h
    split at h <;> cases h

/-- Whoever is signed in with a passkey has proven, at the check before, to be its user. -/
theorem sign_in_is_proven {attempt : Attempt}
    (hrun : Runs.Throughout (next lib config) (Allowed lib) World.start events)
    (hsignIn : (step lib config (after lib config events) event).2 = .authenticated attempt) :
    ∃ earlier check later enrolment, events = earlier ++ check :: later ∧
      enrolment.userId = attempt.userId ∧
      Proven lib config earlier check attempt.stateToken attempt.response enrolment := by
  obtain ⟨n, hpending, -⟩ := step_authenticated hsignIn
  obtain ⟨earlier, check, later, enrolment, heq, huser, -, hproven⟩ :=
    (books_after hrun).proven attempt (List.mem_of_getElem? hpending)
  exact ⟨earlier, check, later, enrolment, heq, huser, hproven⟩

theorem sign_in_is_proven_ada : ∃ earlier check later enrolment,
    Ada.history ++ [Ada.check] = earlier ++ check :: later ∧ enrolment.userId = Ada.userId ∧
      Proven Ada.libraries Ada.site earlier check Ada.signInToken Ada.assertion enrolment :=
  sign_in_is_proven (Runs.throughout_append.1 Ada.allowed).1 Ada.signed_in

/-- The counter that a row keeps. -/
def storedCounter (w : World) (id : BitVec 128) : Nat :=
  ((w.rows.find? fun row => row.id = id).bind fun row => row.stored).elim 0 StoredCredential.signCount

theorem Books.storedCounter_eq (h : Books lib config events w) {row : CredentialRow}
    {stored : StoredCredential} (hrow : row ∈ w.rows) (hstored : row.stored = some stored) :
    storedCounter w row.id = stored.signCount := by
  cases hfind : w.rows.find? fun other => other.id = row.id with
  | none =>
    have hnone := List.find?_eq_none.1 hfind row hrow
    simp at hnone
  | some found =>
    have hid : found.id = row.id := by simpa using List.find?_some hfind
    obtain rfl := h.row_unique (List.mem_of_find?_eq_some hfind) hrow hid
    rw [storedCounter, hfind, Option.bind_some, hstored, Option.elim_some]

theorem step_checked_iff {token : String} {userId : UserId} {response : AssertionResponse}
    (hrequest : event.request = .finishAuthentication token userId response) :
    (step lib config w event).2 = .checked ↔ ∃ attempt,
      checkAuthentication lib config w.rows event.failing event.now token userId response =
        .ok attempt := by
  simp only [step, hrequest]
  cases checkAuthentication lib config w.rows event.failing event.now token userId response <;> simp

/-- A proof by a passkey that its user has once is taken, unless its counter is behind, and nothing else
is. -/
theorem checked_iff {token : String} {userId : UserId} {response : AssertionResponse}
    (hrun : Runs.Throughout (next lib config) (Allowed lib) World.start (events ++ [event]))
    (hrequest : event.request = .finishAuthentication token userId response)
    (honce : ∀ one other, InForce lib config events one → InForce lib config events other →
      one.userId = userId → other.userId = userId → one.credentialId = response.rawId →
      other.credentialId = response.rawId → one.id = other.id) :
    (step lib config (after lib config events) event).2 = .checked ↔
      event.failing .listForUser = none ∧ ∃ enrolment, enrolment.userId = userId ∧
        Proven lib config events event token response enrolment ∧
        counterRegressed (storedCounter (after lib config events) enrolment.id)
          (counterOf lib response) = false := by
  obtain ⟨hearlier, hlast⟩ := Runs.throughout_append.1 hrun
  have hbooks := books_after hearlier
  have hissued := issued_of_allowed (Runs.throughout_cons.1 hlast).1 hrequest
  change lib.openToken token = none ∨ token ∈ (after lib config events).issued at hissued
  rw [step_checked_iff hrequest]
  constructor
  · rintro ⟨attempt, hcheck⟩
    obtain ⟨row, hrow, stored, enrolment, hstored, -, hcounter, hstores, huser, hproven⟩ :=
      hbooks.check hrequest hissued hcheck
    refine ⟨(checkAuthentication_eq_ok_iff.1 hcheck).1, enrolment, huser, hproven, ?_⟩
    rw [← hstores.1, hbooks.storedCounter_eq hrow hstored]
    exact hcounter
  · rintro ⟨hlist, enrolment, rfl, hproven, hcounter⟩
    obtain ⟨challenge, hbegun, hanswers⟩ := hproven.challenged
    obtain ⟨authData, hauth, hpresent⟩ := hproven.present
    obtain ⟨row, hrow, hstores⟩ := hbooks.complete enrolment hproven.enrolled
    obtain ⟨hid, huser, stored, encoded, hstored, hcredential, halg, hkey, hkept⟩ := id hstores
    -- the search finds a row with the credential, and there is one such row only
    obtain ⟨rowId, found, hmatch⟩ : ∃ rowId found, matchCredential (encode response.rawId)
        (listForUser (after lib config events).rows enrolment.userId) = some (rowId, found) := by
      apply exists_matchCredential
      · intro other hother
        obtain ⟨_, -, -, -, stored, _, hparse, -⟩ := hbooks.sound other (mem_listForUser.1 hother).1
        rw [hparse]
        exact Option.some_ne_none stored
      · exact ⟨row, mem_listForUser.2 ⟨hrow, huser⟩, stored, hstored,
          by rw [hcredential, hproven.credential]⟩
    obtain ⟨hfound, other, hlisted, rfl, hother⟩ := matchCredential_mem hmatch
    obtain ⟨hmem, hotherUser⟩ := mem_listForUser.1 hlisted
    obtain ⟨enrolment', hforce', hid', huser', stored', -, hstored', hcredential', -⟩ :=
      hbooks.sound other hmem
    obtain rfl := Option.some.inj (hother.symm.trans hstored')
    have hsame := honce enrolment' enrolment hforce' hproven.enrolled (huser'.symm.trans hotherUser) rfl
      (encode_inj (hcredential'.symm.trans hfound)) hproven.credential
    obtain rfl := hbooks.row_unique hmem hrow (by rw [hid', hsame, hid])
    obtain rfl := Option.some.inj (hstored.symm.trans hother)
    have hcounterOf : counterOf lib response = authData.counter.getD 0 := by
      rw [counterOf, hauth, Option.bind_some]
    refine ⟨_, checkAuthentication_eq_ok_iff.2 ⟨hlist, challenge, _, _, _,
      (hbooks.begun_iff hissued).2 hbegun, hmatch, checkAssertion_eq_some_iff.2 ⟨hanswers, authData,
        encoded, hauth, hpresent, by rw [hkey, decode_encode], ?_, ?_, rfl⟩, rfl⟩⟩
    · rw [halg, hkept]
      exact hproven.signed
    · rw [← hbooks.storedCounter_eq hrow hstored, ← hcounterOf, hid]
      exact hcounter

theorem InForce.finished (h : InForce lib config events enrolment) :
    ∃ finish ∈ events, ∃ token label response,
      finish.request = .finishRegistration token enrolment.userId label enrolment.id response := by
  obtain ⟨earlier, finish, later, rfl, ⟨token, label, response, _, _, _, _, hrequest, _⟩, -⟩ := h
  exact ⟨finish, List.mem_append_right _ List.mem_cons_self, token, label, response, hrequest⟩

theorem checked_iff_ada :
    (step Ada.libraries Ada.site (after Ada.libraries Ada.site Ada.history) Ada.check).2 = .checked ↔
      Ada.check.failing .listForUser = none ∧ ∃ enrolment, enrolment.userId = Ada.userId ∧
        Proven Ada.libraries Ada.site Ada.history Ada.check Ada.signInToken Ada.assertion enrolment ∧
        counterRegressed (storedCounter (after Ada.libraries Ada.site Ada.history) enrolment.id)
          (counterOf Ada.libraries Ada.assertion) = false := by
  have hone (enrolment : Enrolment) (h : InForce Ada.libraries Ada.site Ada.history enrolment) :
      enrolment.id = 1 := by
    obtain ⟨finish, hmem, token, label, response, hrequest⟩ := h.finished
    simp only [Ada.history, List.mem_cons, List.not_mem_nil, or_false] at hmem
    rcases hmem with rfl | rfl | rfl
    · cases hrequest
    · exact (Request.finishRegistration.inj hrequest).2.2.2.1.symm
    · cases hrequest
  refine checked_iff (Runs.throughout_append.1 Ada.allowed).1 rfl ?_
  intro one other hforce hforce' _ _ _ _
  rw [hone one hforce, hone other hforce']

/-! ## Counters -/

/-- The counter of a passkey is not behind `c`, and the answers that are still to be written are ahead
of it. -/
structure Ahead (id : BitVec 128) (c : Nat) (w : World) : Prop where
  drawn : id ∈ w.drawn
  rows : ∀ row ∈ w.rows, row.id = id → ∀ stored, row.stored = some stored → c ≤ stored.signCount
  pending : ∀ attempt ∈ w.pending, attempt.rowId = id →
    c < attempt.stored.signCount ∨ (c = 0 ∧ attempt.stored.signCount = 0)

theorem ahead_of_counter {stored new c : Nat} (h : counterRegressed stored new = false)
    (hc : c ≤ stored) : c < new ∨ (c = 0 ∧ new = 0) := by
  simp only [counterRegressed, Bool.and_eq_false_iff, decide_eq_false_iff_not] at h
  omega

theorem Ahead.next {id : BitVec 128} {c : Nat} (h : Ahead id c w) (hbooks : Books lib config events w)
    (hallowed : Allowed lib w event) : Ahead id c (Passkeys.next lib config w event) := by
  have heffect := effect_next lib config w event
  generalize Passkeys.next lib config w event = w' at heffect ⊢
  cases heffect with
  | same hquiet => exact h
  | begun hquiet purpose userId token challenge hbegins => exact ⟨h.drawn, h.rows, h.pending⟩
  | checked hquiet token userId response attempt hrequest hcheck =>
    refine ⟨h.drawn, h.rows, fun other hother hid => ?_⟩
    rcases List.mem_append.1 hother with hold | hnew
    · exact h.pending other hold hid
    · obtain rfl := List.mem_singleton.1 hnew
      obtain ⟨row, hrow, stored, -, hstored, rfl, hcounter, -⟩ :=
        hbooks.check hrequest (issued_of_allowed hallowed hrequest) hcheck
      exact ahead_of_counter hcounter (h.rows row hrow hid stored hstored)
  | failed hquiet n =>
    exact ⟨h.drawn, h.rows, fun other hother => h.pending other (List.mem_of_mem_eraseIdx hother)⟩
  | updated hquiet n attempt hpending =>
    refine ⟨h.drawn, fun row hrow hid stored hstored => ?_,
      fun other hother => h.pending other (List.mem_of_mem_eraseIdx hother)⟩
    rcases mem_updatePasskey hrow with ⟨hold, -⟩ | ⟨old, hold, hold', rfl⟩
    · exact h.rows row hold hid stored hstored
    · obtain rfl := Option.some.inj hstored
      have hahead := h.pending attempt (List.mem_of_getElem? hpending) (hold'.symm.trans hid)
      omega
  | finished token userId label rowId response hrequest =>
    have hfresh : rowId ∉ w.drawn := by
      have hboth : (lib.openToken token = none ∨ token ∈ w.issued) ∧ rowId ∉ w.drawn := by
        simpa only [Allowed, hrequest] using hallowed
      exact hboth.2
    refine ⟨List.mem_cons_of_mem _ h.drawn, fun row hrow hid stored hstored => ?_, h.pending⟩
    rcases @finishRegistration_rows lib config w.rows event.failing event.now token userId label rowId
      response with ⟨challenge, new, -, -, -, hrows⟩ | ⟨-, hrows⟩
    · rw [hrows] at hrow
      rcases List.mem_append.1 hrow with hold | hnew
      · exact h.rows row hold hid stored hstored
      · rw [List.mem_singleton.1 hnew] at hid
        obtain rfl : rowId = id := hid
        exact absurd h.drawn hfresh
    · rw [hrows] at hrow
      exact h.rows row hrow hid stored hstored
  | revoked userId rowId hrequest hdelete =>
    exact ⟨h.drawn, fun row hrow => h.rows row (mem_deletePasskey.1 hrow).1, h.pending⟩

theorem after_concat (lib : Libraries) (config : Config) (events : List Event) (event : Event) :
    after lib config (events ++ [event]) = next lib config (after lib config events) event := by
  rw [after, Runs.run_concat, after]

theorem ahead_after {id : BitVec 128} {c : Nat} {earlier later : List Event}
    (h : Ahead id c (after lib config earlier))
    (hrun : Runs.Throughout (next lib config) (Allowed lib) World.start (earlier ++ later)) :
    Ahead id c (after lib config (earlier ++ later)) := by
  induction later using List.reverseRecOn with
  | nil => rwa [List.append_nil]
  | append_singleton later event ih =>
    rw [← List.append_assoc] at hrun ⊢
    obtain ⟨hearlier, hlast⟩ := Runs.throughout_append.1 hrun
    rw [after_concat]
    exact (ih hearlier).next (books_after hearlier) (Runs.throughout_cons.1 hlast).1

end Steps

end Edda.Auth.Passkeys
