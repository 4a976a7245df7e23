import Edda.Auth.SecondFactorProofs

/-!
# Enrolment of a TOTP credential

`enroll` stores a new secret for an account, and `activate` confirms it with a code and replaces the
recovery codes. An account has one row for its secret, so a new one takes the place of the one that
is in use, and the login asks for no second factor until it is confirmed.

`login_kept_iff` says in which runs an enrolment that is not confirmed leaves the login as it is.
-/

set_option autoImplicit false

namespace Edda.Auth.TotpEnrolment

open Edda.Auth Edda.Auth.SecondFactorProofs Edda.Db Edda.Domain Edda.Support Edda.Support.RustText

/-- What lies outside: the secret box, with the nonce that it draws, the hash, and the code of a
secret for a time step. -/
structure Crypto where
  encrypt : Bytes → Bytes → Except String Bytes
  decrypt : Bytes → Except String Bytes
  sha256 : String → String
  code : Bytes → Int → String

inductive TotpError where
  | invalidCode
  | notEnrolled
  | secretBox (err : String)
  | db (err : DbError)
  deriving DecidableEq, Repr

inductive Statement where
  | upsertSecret
  | findByUser
  | activate
  | invalidateResets
  | deleteCodes
  | insertCode (place : Nat)
  deriving DecidableEq, Repr

def recoveryCodeCount : Nat := 8

/-- The secret, the nonce and the recovery codes are drawn. -/
inductive Operation where
  | enroll (secret nonce : Bytes)
  | activate (submittedCode : String) (drawn : Fin recoveryCodeCount → String)

/-- A call, with the statements that fail, with their errors. -/
structure Call where
  userId : UserId
  operation : Operation
  failing : Statement → Option DbError
  now : Int

/-! ## The operations -/

section Operations

variable (c : Crypto) (call : Call) (db : Accounts)

/-- `TotpRepo::upsert_secret`. What the row says of an activation is lost. -/
def upsertSecret (ciphertext : Bytes) : List TotpSecret :=
  if call.userId ∈ db.totpSecrets.map TotpSecret.userId then
    Table.update db.totpSecrets (fun row => row.userId = call.userId) fun row =>
      { row with ciphertext, activatedAt := none }
  else db.totpSecrets ++ [⟨call.userId, ciphertext, none⟩]

/-- The secret that is given to the user. -/
def enroll (secret nonce : Bytes) : Accounts × Except TotpError Bytes :=
  match c.encrypt secret nonce with
  | .error err => (db, .error (.secretBox err))
  | .ok ciphertext => match call.failing .upsertSecret with
    | some err => (db, .error (.db err))
    | none => ({ db with totpSecrets := upsertSecret call db ciphertext }, .ok secret)

/-- Inserts the recovery codes one after another. The hash of a code is a key of the table. -/
def insertCodes : Nat → List String → List RecoveryCode → List RecoveryCode × Except TotpError Unit
  | _, [], rows => (rows, .ok ())
  | place, codeHash :: rest, rows => match call.failing (.insertCode place) with
    | some err => (rows, .error (.db err))
    | none =>
      if codeHash ∈ rows.map RecoveryCode.codeHash then (rows, .error (.db "unique constraint"))
      else insertCodes (place + 1) rest (rows ++ [⟨call.userId, codeHash, none⟩])

/-- `TotpRepo::activate`. -/
def activateSecret : List TotpSecret :=
  Table.update db.totpSecrets (fun row => row.userId = call.userId) fun row =>
    { row with activatedAt := some call.now }

/-- `PasswordResetTokenRepo::invalidate_all_for_user`. -/
def invalidateResets : List SingleUseToken :=
  Table.update db.resetTokens
    (fun token => decide (token.userId = call.userId) && token.usedAt.isNone)
    fun token => { token with usedAt := some call.now }

def otherCodes : List RecoveryCode := db.recoveryCodes.filter fun row => row.userId ≠ call.userId

/-- What `activate` does once the code is right. Each statement takes effect by itself. -/
def confirm (rawCodes : List String) : Accounts × Except TotpError (List String) :=
  match call.failing .activate with
  | some err => (db, .error (.db err))
  | none =>
    let activated := { db with totpSecrets := activateSecret call db }
    match call.failing .invalidateResets with
    | some err => (activated, .error (.db err))
    | none =>
      let invalidated := { activated with resetTokens := invalidateResets call db }
      match call.failing .deleteCodes with
      | some err => (invalidated, .error (.db err))
      | none =>
        match insertCodes call 0 (rawCodes.map c.sha256) (otherCodes call db) with
        | (rows, .error err) => ({ invalidated with recoveryCodes := rows }, .error err)
        | (rows, .ok ()) => ({ invalidated with recoveryCodes := rows }, .ok rawCodes)

/-- Whether a code is one of a stored secret's at a time. -/
def checkStored (ciphertext : Bytes) (now : Int) (submitted : String) : Except String Bool :=
  match c.decrypt ciphertext with
  | .error err => .error err
  | .ok secret => .ok (checkCurrent (c.code secret) now submitted).isSome

/-- The recovery codes that are given to the user. -/
def activate (submittedCode : String) (drawn : Fin recoveryCodeCount → String) :
    Accounts × Except TotpError (List String) :=
  match call.failing .findByUser with
  | some err => (db, .error (.db err))
  | none => match db.totpSecret call.userId with
    | none => (db, .error .notEnrolled)
    | some row => match checkStored c row.ciphertext call.now submittedCode with
      | .error err => (db, .error (.secretBox err))
      | .ok false => (db, .error .invalidCode)
      | .ok true => confirm c call db (List.ofFn drawn)

/-- The tables after a call, with the recovery codes where it has confirmed the credential. -/
def perform : Accounts × Option (List String) :=
  match call.operation with
  | .enroll secret nonce => ((enroll c call db secret nonce).1, none)
  | .activate submittedCode drawn =>
    let (after, result) := activate c call db submittedCode drawn
    (after, result.toOption)

end Operations

/-! ## What the login asks -/

section Login

variable (c : Crypto) (db db' : Accounts) (userId : UserId)

/-- A code that `verify` accepts at a time. -/
def acceptsCode (now : Int) (submitted : String) : Bool :=
  (db.totpSecret userId).any fun row =>
    row.activatedAt.isSome && decide (checkStored c row.ciphertext now submitted = .ok true)

/-- Whether a recovery code is there and not spent. -/
def hasCode (codeHash : String) : Bool := db.recoveryCodes.any (isSpendable userId codeHash)

/-- A recovery code that `verify` accepts. -/
def acceptsRecoveryCode (submitted : String) : Bool :=
  db.totpActive userId && hasCode db userId (c.sha256 submitted)

/-- The login asks for a second factor, and accepts the same codes and the same recovery codes. -/
structure SameLogin : Prop where
  active : db'.totpActive userId = db.totpActive userId
  codes : ∀ now submitted, acceptsCode c db' userId now submitted =
    acceptsCode c db userId now submitted
  recoveryCodes : ∀ submitted, acceptsRecoveryCode c db' userId submitted =
    acceptsRecoveryCode c db userId submitted

end Login

/-! ## Runs -/

/-- `confirmed` are the tables when the credential was confirmed last. -/
structure State where
  db : Accounts
  confirmed : Accounts

def State.start (db : Accounts) : State := ⟨db, db⟩

section Runs

variable (c : Crypto) (userId : UserId)

def step (s : State) (call : Call) : State :=
  match perform c call s.db with
  | (db, none) => ⟨db, s.confirmed⟩
  | (db, some _) => if call.userId = userId then ⟨db, db⟩ else ⟨db, s.confirmed⟩

/-- The hashes that get into the table. -/
def written (failing : Statement → Option DbError) : Nat → List String → List String → List String
  | _, [], _ => []
  | place, codeHash :: rest, there =>
    if failing (.insertCode place) = none ∧ codeHash ∉ there then
      codeHash :: written failing (place + 1) rest (there ++ [codeHash])
    else []

/-- The recovery codes of a call that get into the table. -/
def Call.written (call : Call) (db : Accounts) (drawn : Fin recoveryCodeCount → String) :
    List String :=
  TotpEnrolment.written call.failing 0 ((List.ofFn drawn).map c.sha256)
    ((otherCodes call db).map RecoveryCode.codeHash)

/-- The code is right, and the recovery codes are deleted. -/
def DeletesCodes (call : Call) (db : Accounts) (submittedCode : String) : Prop :=
  (∃ row, db.totpSecret call.userId = some row ∧
      checkStored c row.ciphertext call.now submittedCode = .ok true) ∧
    ∀ statement ∈ [Statement.findByUser, .activate, .invalidateResets, .deleteCodes],
      call.failing statement = none

/-- A call of `enroll` that stores no new secret. -/
def NotStored (call : Call) (secret nonce : Bytes) : Prop :=
  (∃ err, c.encrypt secret nonce = .error err) ∨ call.failing .upsertSecret ≠ none

/-- No new secret is stored, and a call that deletes the recovery codes either gets to the end or
leaves as many behind as the account had. -/
def Fits (s : State) (call : Call) : Prop :=
  call.userId = userId → match call.operation with
    | .enroll secret nonce => NotStored c call secret nonce
    | .activate submittedCode drawn => DeletesCodes c call s.db submittedCode →
      call.written c s.db drawn = (List.ofFn drawn).map c.sha256 ∨
        ∀ submitted, c.sha256 submitted ∈ call.written c s.db drawn ↔
          hasCode s.db userId (c.sha256 submitted) = true

end Runs

section Login

variable {c : Crypto} {db db' : Accounts} {userId : UserId}

/-- `verify` accepts these codes and recovery codes and no other text. -/
theorem verifyTotp_accepts_iff {out : Outside} {accountName submitted : String}
    (hworks : ∀ statement, db.failing statement = none) (hsha256 : out.sha256 = c.sha256)
    (htotp : ∀ ciphertext name text, out.totpAccepts ciphertext name text =
      checkStored c ciphertext out.now text) :
    (verifyTotp out db userId accountName submitted).2 = .ok true ↔
      acceptsCode c db userId out.now submitted = true ∨
        acceptsRecoveryCode c db userId submitted = true := by
  simp only [verifyTotp, Accounts.ask, hworks, acceptsCode, acceptsRecoveryCode, Accounts.totpActive,
    hsha256, htotp]
  cases db.totpSecret userId with
  | none => simp
  | some row =>
    cases hactivated : row.activatedAt with
    | none => simp [hactivated]
    | some activatedAt =>
      simp only [hactivated, Option.isNone_some, Bool.false_eq_true, if_false, Option.any_some,
        Option.isSome_some, Bool.true_and, decide_eq_true_eq]
      cases hcount : Table.affected db.recoveryCodes (isSpendable userId (c.sha256 submitted)) with
      | zero =>
        have hnone : hasCode db userId (c.sha256 submitted) = false := by
          rw [hasCode, List.any_eq_false]
          exact List.countP_eq_zero.1 hcount
        cases hcheck : checkStored c row.ciphertext out.now submitted with
        | error err => simp [hnone]
        | ok accepted => simp [hnone]
      | succ n =>
        have hsome : hasCode db userId (c.sha256 submitted) = true := by
          rw [hasCode, List.any_eq_true]
          exact List.countP_pos_iff.1 (by rw [← Table.affected, hcount]; omega)
        simp [hsome]

/-- What the login goes by: the secret, whether it is activated, and the codes that are not spent. -/
theorem sameLogin_of
    (hsecret : (db'.totpSecret userId).map (fun row => (row.ciphertext, row.activatedAt.isSome)) =
      (db.totpSecret userId).map fun row => (row.ciphertext, row.activatedAt.isSome))
    (hcodes : ∀ codeHash, hasCode db' userId codeHash = hasCode db userId codeHash) :
    SameLogin c db db' userId := by
  have hactive : db'.totpActive userId = db.totpActive userId := by
    have h := congrArg (fun found => found.any Prod.snd) hsecret
    simpa only [Option.any_map, Accounts.totpActive, Function.comp_def] using h
  refine ⟨hactive, fun now submitted => ?_, fun submitted => ?_⟩
  · have h := congrArg (fun found => found.any fun pair : Bytes × Bool =>
      pair.2 && decide (checkStored c pair.1 now submitted = .ok true)) hsecret
    simpa only [acceptsCode, Option.any_map, Function.comp_def] using h
  · rw [acceptsRecoveryCode, acceptsRecoveryCode, hactive, hcodes]

theorem SameLogin.trans {db'' : Accounts} (h : SameLogin c db db' userId)
    (h' : SameLogin c db' db'' userId) : SameLogin c db db'' userId where
  active := h'.active.trans h.active
  codes now submitted := (h'.codes now submitted).trans (h.codes now submitted)
  recoveryCodes submitted := (h'.recoveryCodes submitted).trans (h.recoveryCodes submitted)

theorem SameLogin.symm (h : SameLogin c db db' userId) : SameLogin c db' db userId where
  active := h.active.symm
  codes now submitted := (h.codes now submitted).symm
  recoveryCodes submitted := (h.recoveryCodes submitted).symm

end Login

/-! ## What a call does -/

section Calls

variable {c : Crypto} {call : Call} {db after : Accounts} {userId : UserId}

theorem totpSecret_upsert {ciphertext : Bytes}
    (h : after.totpSecrets = upsertSecret call db ciphertext) (other : UserId) :
    (other = call.userId → after.totpActive other = false) ∧
      (other ≠ call.userId → after.totpSecret other = db.totpSecret other) := by
  have hfind : after.totpSecret other = Table.lookup TotpSecret.userId after.totpSecrets other := rfl
  have hbefore : db.totpSecret other = Table.lookup TotpSecret.userId db.totpSecrets other := rfl
  rw [Accounts.totpActive, hfind, hbefore, h, upsertSecret]
  split
  · rw [Table.lookup_update (by intro row; rfl)]
    cases hrow : Table.lookup TotpSecret.userId db.totpSecrets other with
    | none => simp
    | some row =>
      obtain ⟨-, hid⟩ := Table.mem_of_lookup hrow
      subst hid
      constructor
      · intro hsame
        simp [hsame]
      · intro hother
        simp [hother]
  · rename_i hnew
    rw [Table.lookup_append]
    constructor
    · rintro rfl
      simp [Table.lookup_eq_none.2 hnew]
    · intro hother
      simp [Ne.symm hother]

theorem totpSecret_activate (h : after.totpSecrets = activateSecret call db) (other : UserId) :
    after.totpSecret other = (db.totpSecret other).map fun row =>
      if other = call.userId then { row with activatedAt := some call.now } else row := by
  have hfind : after.totpSecret other = Table.lookup TotpSecret.userId after.totpSecrets other := rfl
  have hbefore : db.totpSecret other = Table.lookup TotpSecret.userId db.totpSecrets other := rfl
  rw [hfind, hbefore, h, activateSecret, Table.lookup_update (by intro row; rfl)]
  cases hrow : Table.lookup TotpSecret.userId db.totpSecrets other with
  | none => rfl
  | some row =>
    obtain ⟨-, hid⟩ := Table.mem_of_lookup hrow
    simp [hid]

theorem hasCode_congr (h : after.recoveryCodes = db.recoveryCodes) (codeHash : String) :
    hasCode after userId codeHash = hasCode db userId codeHash := by
  rw [hasCode, h, hasCode]

theorem insertCodes_eq (codeHashes : List String) (place : Nat) (rows : List RecoveryCode) :
    (insertCodes call place codeHashes rows).1 = rows ++
        (written call.failing place codeHashes (rows.map RecoveryCode.codeHash)).map
          (fun codeHash => ⟨call.userId, codeHash, none⟩) ∧
      ((insertCodes call place codeHashes rows).2 = .ok () ↔
        written call.failing place codeHashes (rows.map RecoveryCode.codeHash) = codeHashes) := by
  induction codeHashes generalizing place rows with
  | nil => simp [insertCodes, written]
  | cons codeHash rest ih =>
    cases hfailing : call.failing (.insertCode place) with
    | some err => simp [insertCodes, written, hfailing]
    | none =>
      by_cases hthere : codeHash ∈ rows.map RecoveryCode.codeHash
      · simp only [insertCodes, written, hfailing, hthere, if_true, not_true, and_false, if_false]
        simp
      · obtain ⟨hrows, hresult⟩ := ih (place + 1) (rows ++ [⟨call.userId, codeHash, none⟩])
        simp only [insertCodes, written, hfailing, hthere, if_false, not_false_eq_true, and_self,
          if_true, List.map_cons, List.cons.injEq, true_and]
        rw [List.map_append] at hrows hresult
        exact ⟨by rw [hrows]; simp, hresult⟩

/-- After the recovery codes of an account are replaced it has those that got into the table. -/
theorem hasCode_replaced {hashes : List String}
    (h : after.recoveryCodes = otherCodes call db ++
      hashes.map fun codeHash => ⟨call.userId, codeHash, none⟩) (codeHash : String) :
    (userId = call.userId → (hasCode after userId codeHash = true ↔ codeHash ∈ hashes)) ∧
      (userId ≠ call.userId → hasCode after userId codeHash = hasCode db userId codeHash) := by
  rw [hasCode, h, List.any_append]
  constructor
  · rintro rfl
    have hothers : (otherCodes call db).any (isSpendable call.userId codeHash) = false := by
      rw [List.any_eq_false]
      intro row hrow
      have hother := (List.mem_filter.1 hrow).2
      simp only [decide_eq_true_eq] at hother
      simp [isSpendable, hother]
    rw [hothers, Bool.false_or, List.any_eq_true]
    constructor
    · rintro ⟨row, hrow, hspendable⟩
      obtain ⟨hash, hhash, rfl⟩ := List.mem_map.1 hrow
      have hsame : hash = codeHash := by simpa [isSpendable] using hspendable
      exact hsame ▸ hhash
    · intro hhash
      exact ⟨_, List.mem_map_of_mem hhash, by simp [isSpendable]⟩
  · intro hother
    have hnone : (hashes.map fun codeHash => (⟨call.userId, codeHash, none⟩ : RecoveryCode)).any
        (isSpendable userId codeHash) = false := by
      rw [List.any_eq_false]
      intro row hrow
      obtain ⟨hash, -, rfl⟩ := List.mem_map.1 hrow
      simp [isSpendable, Ne.symm hother]
    rw [hnone, Bool.or_false, hasCode, otherCodes, List.any_filter]
    congr 1
    funext row
    by_cases hrow : row.userId = userId
    · simp [hrow, hother]
    · simp [isSpendable, hrow]

/-- The rows that the login goes by, where no recovery code is deleted. -/
structure Marked (call : Call) (db after : Accounts) : Prop where
  secrets : after.totpSecrets = db.totpSecrets ∨ after.totpSecrets = activateSecret call db
  codes : after.recoveryCodes = db.recoveryCodes

/-- The rows that the login goes by, where the recovery codes are replaced by others. -/
structure Replaced (call : Call) (db after : Accounts) (hashes : List String) : Prop where
  secrets : after.totpSecrets = activateSecret call db
  codes : after.recoveryCodes = otherCodes call db ++
    hashes.map fun codeHash => ⟨call.userId, codeHash, none⟩

theorem confirm_cases (drawn : Fin recoveryCodeCount → String) :
    ((¬ ∀ statement ∈ [Statement.activate, .invalidateResets, .deleteCodes],
        call.failing statement = none) ∧
      (confirm c call db (List.ofFn drawn)).2.toOption = none ∧
      Marked call db (confirm c call db (List.ofFn drawn)).1) ∨
    ((∀ statement ∈ [Statement.activate, .invalidateResets, .deleteCodes],
        call.failing statement = none) ∧
      Replaced call db (confirm c call db (List.ofFn drawn)).1 (call.written c db drawn) ∧
      (confirm c call db (List.ofFn drawn)).2.toOption =
        if call.written c db drawn = (List.ofFn drawn).map c.sha256 then some (List.ofFn drawn)
        else none) := by
  simp only [confirm, List.forall_mem_cons, List.not_mem_nil, false_implies, implies_true, and_true]
  cases hactivate : call.failing .activate with
  | some err => exact Or.inl ⟨by simp, rfl, Or.inl rfl, rfl⟩
  | none => cases hinvalidate : call.failing .invalidateResets with
    | some err => exact Or.inl ⟨by simp, rfl, Or.inr rfl, rfl⟩
    | none => cases hdelete : call.failing .deleteCodes with
      | some err => exact Or.inl ⟨by simp, rfl, Or.inr rfl, rfl⟩
      | none =>
        obtain ⟨hrows, hresult⟩ := @insertCodes_eq call ((List.ofFn drawn).map c.sha256) 0
          (otherCodes call db)
        have hwritten : call.written c db drawn = written call.failing 0
            ((List.ofFn drawn).map c.sha256) ((otherCodes call db).map RecoveryCode.codeHash) := rfl
        rw [← hwritten] at hrows hresult
        refine Or.inr ⟨⟨rfl, rfl, rfl⟩, ?_⟩
        cases hinsert : insertCodes call 0 ((List.ofFn drawn).map c.sha256) (otherCodes call db) with
        | mk rows result =>
          rw [hinsert] at hrows hresult
          cases result with
          | error err =>
            refine ⟨⟨rfl, hrows⟩, ?_⟩
            rw [if_neg fun h => by simpa using hresult.2 h]
            rfl
          | ok value =>
            refine ⟨⟨rfl, hrows⟩, ?_⟩
            rw [if_pos (hresult.1 rfl)]
            rfl

/-- A call of `activate` deletes the recovery codes or it leaves them. -/
theorem activate_cases {submittedCode : String} {drawn : Fin recoveryCodeCount → String}
    (hoperation : call.operation = .activate submittedCode drawn) :
    (¬ DeletesCodes c call db submittedCode ∧ (perform c call db).2 = none ∧
      Marked call db (perform c call db).1) ∨
    (DeletesCodes c call db submittedCode ∧
      Replaced call db (perform c call db).1 (call.written c db drawn) ∧
      (perform c call db).2 =
        if call.written c db drawn = (List.ofFn drawn).map c.sha256 then some (List.ofFn drawn)
        else none) := by
  have hunchanged : Marked call db db := ⟨Or.inl rfl, rfl⟩
  simp only [perform, hoperation, activate]
  cases hfind : call.failing .findByUser with
  | some err =>
    refine Or.inl ⟨fun h => ?_, rfl, hunchanged⟩
    have hworks := h.2 .findByUser List.mem_cons_self
    rw [hfind] at hworks
    cases hworks
  | none => cases hrow : db.totpSecret call.userId with
    | none =>
      refine Or.inl ⟨fun h => ?_, rfl, hunchanged⟩
      obtain ⟨⟨row, hfound, -⟩, -⟩ := h
      rw [hrow] at hfound
      cases hfound
    | some row => cases hcheck : checkStored c row.ciphertext call.now submittedCode with
      | error err =>
        refine Or.inl ⟨fun h => ?_, by simp only [hcheck]; rfl, by simpa only [hcheck]⟩
        obtain ⟨⟨found, hfound, hright⟩, -⟩ := h
        obtain rfl := Option.some.inj (hrow.symm.trans hfound)
        rw [hcheck] at hright
        cases hright
      | ok accepted => cases accepted with
        | false =>
          refine Or.inl ⟨fun h => ?_, by simp only [hcheck]; rfl, by simpa only [hcheck]⟩
          obtain ⟨⟨found, hfound, hright⟩, -⟩ := h
          obtain rfl := Option.some.inj (hrow.symm.trans hfound)
          rw [hcheck] at hright
          cases hright
        | true =>
          simp only [hcheck]
          rcases @confirm_cases c call db drawn with ⟨hfails, hresult, hmarked⟩ |
            ⟨hworks, hreplaced, hresult⟩
          · refine Or.inl ⟨fun h => hfails fun statement hstatement => ?_, hresult, hmarked⟩
            exact h.2 statement (List.mem_cons_of_mem _ hstatement)
          · refine Or.inr ⟨⟨⟨row, hrow, hcheck⟩, ?_⟩, hreplaced, hresult⟩
            exact List.forall_mem_cons.2 ⟨hfind, hworks⟩

theorem enroll_cases {secret nonce : Bytes} (hoperation : call.operation = .enroll secret nonce) :
    (perform c call db).2 = none ∧
      (perform c call db).1.recoveryCodes = db.recoveryCodes ∧
      (NotStored c call secret nonce ∧ (perform c call db).1.totpSecrets = db.totpSecrets ∨
        ¬ NotStored c call secret nonce ∧
          ∃ ciphertext, (perform c call db).1.totpSecrets = upsertSecret call db ciphertext) := by
  simp only [perform, hoperation, enroll, NotStored]
  cases hencrypt : c.encrypt secret nonce with
  | error err => exact ⟨trivial, rfl, Or.inl ⟨Or.inl ⟨err, rfl⟩, rfl⟩⟩
  | ok ciphertext => cases hfailing : call.failing .upsertSecret with
    | some err => exact ⟨trivial, rfl, Or.inl ⟨Or.inr (by simp), rfl⟩⟩
    | none => exact ⟨trivial, rfl, Or.inr ⟨by simp, ciphertext, rfl⟩⟩

theorem Marked.sameLogin (h : Marked call db after) (hactive : db.totpActive call.userId = true) :
    SameLogin c db after userId := by
  refine sameLogin_of ?_ (hasCode_congr h.codes)
  rcases h.secrets with hsame | hactivated
  · rw [Accounts.totpSecret, hsame, Accounts.totpSecret]
  · rw [totpSecret_activate hactivated, Option.map_map]
    by_cases hid : userId = call.userId
    · -- what is activated stays so
      subst hid
      rw [Accounts.totpActive, Option.any_eq_true] at hactive
      obtain ⟨row, hrow, hsome⟩ := hactive
      simp [hrow, hsome]
    · simp [hid, Function.comp_def]

theorem Replaced.active {hashes : List String} (h : Replaced call db after hashes)
    (hfound : ∃ row, db.totpSecret call.userId = some row) :
    after.totpActive call.userId = true := by
  obtain ⟨row, hrow⟩ := hfound
  rw [Accounts.totpActive, totpSecret_activate h.secrets, hrow]
  simp

/-- Other accounts do not notice. -/
theorem Replaced.sameLogin_other {hashes : List String} (h : Replaced call db after hashes)
    (hother : userId ≠ call.userId) : SameLogin c db after userId := by
  refine sameLogin_of ?_ fun codeHash => (hasCode_replaced h.codes codeHash).2 hother
  rw [totpSecret_activate h.secrets, Option.map_map]
  simp [hother, Function.comp_def]

/-- The login keeps its recovery codes exactly if as many are left behind as there were. -/
theorem Replaced.sameLogin_iff {hashes : List String} (h : Replaced call db after hashes)
    (hactive : db.totpActive call.userId = true) :
    SameLogin c db after call.userId ↔ ∀ submitted, c.sha256 submitted ∈ hashes ↔
      hasCode db call.userId (c.sha256 submitted) = true := by
  have hhas (codeHash : String) := (@hasCode_replaced call db after call.userId hashes h.codes
    codeHash).1 rfl
  obtain ⟨row, hrow, hsome⟩ := (Option.any_eq_true _ _).1 hactive
  have hafter : after.totpActive call.userId = true := h.active ⟨row, hrow⟩
  constructor
  · intro hsame submitted
    have hcodes := hsame.recoveryCodes submitted
    rw [acceptsRecoveryCode, acceptsRecoveryCode, hactive, hafter, Bool.true_and, Bool.true_and]
      at hcodes
    rw [← hhas, hcodes]
  · intro hcodes
    refine ⟨hafter.trans hactive.symm, fun now submitted => ?_, fun submitted => ?_⟩
    · simp [acceptsCode, totpSecret_activate h.secrets, hrow, hsome]
    · rw [acceptsRecoveryCode, acceptsRecoveryCode, hactive, hafter, Bool.true_and, Bool.true_and,
        Bool.eq_iff_iff, hhas, hcodes]

/-- A call leaves the login of every other account as it is. -/
theorem sameLogin_other (hother : userId ≠ call.userId) :
    SameLogin c db (perform c call db).1 userId := by
  cases hoperation : call.operation with
  | enroll secret nonce =>
    obtain ⟨-, hcodes, ⟨-, hsame⟩ | ⟨-, ciphertext, hstored⟩⟩ :=
      @enroll_cases c call db secret nonce hoperation
    · exact sameLogin_of (by rw [Accounts.totpSecret, hsame, Accounts.totpSecret])
        (hasCode_congr hcodes)
    · exact sameLogin_of (by rw [(totpSecret_upsert hstored userId).2 hother])
        (hasCode_congr hcodes)
  | activate submittedCode drawn =>
    rcases @activate_cases c call db submittedCode drawn hoperation with ⟨-, -, hmarked⟩ |
      ⟨-, hreplaced, -⟩
    · refine sameLogin_of ?_ (hasCode_congr hmarked.codes)
      rcases hmarked.secrets with hsame | hactivated
      · rw [Accounts.totpSecret, hsame, Accounts.totpSecret]
      · rw [totpSecret_activate hactivated]
        simp [hother]
    · exact hreplaced.sameLogin_other hother

/-- A call that confirms the credential puts the stored secret and the codes that it gives out into
effect, and nothing else. -/
theorem confirmed_takes_effect {rawCodes : List String}
    (h : (perform c call db).2 = some rawCodes) :
    (perform c call db).1.totpActive call.userId = true ∧
      (∀ now submitted, acceptsCode c (perform c call db).1 call.userId now submitted = true ↔
        ∃ row, db.totpSecret call.userId = some row ∧
          checkStored c row.ciphertext now submitted = .ok true) ∧
      ∀ submitted, acceptsRecoveryCode c (perform c call db).1 call.userId submitted = true ↔
        c.sha256 submitted ∈ rawCodes.map c.sha256 := by
  cases hoperation : call.operation with
  | enroll secret nonce =>
    rw [(@enroll_cases c call db secret nonce hoperation).1] at h
    cases h
  | activate submittedCode drawn =>
    rcases @activate_cases c call db submittedCode drawn hoperation with ⟨-, hnone, -⟩ |
      ⟨⟨⟨row, hrow, -⟩, -⟩, hreplaced, hresult⟩
    · rw [hnone] at h
      cases h
    · rw [h] at hresult
      split at hresult
      · rename_i hall
        obtain rfl := Option.some.inj hresult
        rw [hall] at hreplaced
        have hactive := hreplaced.active ⟨row, hrow⟩
        refine ⟨hactive, fun now submitted => ?_, fun submitted => ?_⟩
        · rw [acceptsCode, totpSecret_activate hreplaced.secrets, hrow]
          simp
        · rw [acceptsRecoveryCode, hactive, Bool.true_and]
          exact (hasCode_replaced hreplaced.codes _).1 rfl
      · cases hresult

end Calls

/-! ## Runs -/

section Runs

variable {c : Crypto} {userId : UserId} {s : State} {call : Call}

theorem step_confirmed {rawCodes : List String} (hresult : (perform c call s.db).2 = some rawCodes)
    (hid : call.userId = userId) :
    step c userId s call = ⟨(perform c call s.db).1, (perform c call s.db).1⟩ := by
  rw [step]
  generalize perform c call s.db = result at hresult ⊢
  obtain ⟨after, codes⟩ := result
  obtain rfl : codes = some rawCodes := hresult
  simp [hid]

theorem step_unconfirmed (h : (perform c call s.db).2 = none ∨ call.userId ≠ userId) :
    step c userId s call = ⟨(perform c call s.db).1, s.confirmed⟩ := by
  rw [step]
  generalize perform c call s.db = result at h ⊢
  obtain ⟨after, codes⟩ := result
  cases codes with
  | none => rfl
  | some rawCodes =>
    have hother : call.userId ≠ userId := h.resolve_left (by simp)
    simp [hother]

/-- The credential stays one that has been confirmed. -/
theorem confirmed_step (hconfirmed : s.confirmed.totpActive userId = true) :
    (step c userId s call).confirmed.totpActive userId = true := by
  by_cases hid : call.userId = userId
  · cases hresult : (perform c call s.db).2 with
    | none =>
      rw [step_unconfirmed (Or.inl hresult)]
      exact hconfirmed
    | some rawCodes =>
      rw [step_confirmed hresult hid]
      exact hid ▸ (confirmed_takes_effect hresult).1
  · rw [step_unconfirmed (Or.inr hid)]
    exact hconfirmed

/-- A call keeps the login that was confirmed exactly if it fits. -/
theorem sameLogin_step_iff (hconfirmed : s.confirmed.totpActive userId = true)
    (hsame : SameLogin c s.confirmed s.db userId) :
    SameLogin c (step c userId s call).confirmed (step c userId s call).db userId ↔
      Fits c userId s call := by
  by_cases hid : call.userId = userId
  · subst hid
    have hactive : s.db.totpActive call.userId = true := hsame.active.trans hconfirmed
    -- what is compared with the confirmed login can be compared with the one before the call
    have hcompare (after : Accounts) : SameLogin c s.confirmed after call.userId ↔
        SameLogin c s.db after call.userId := ⟨hsame.symm.trans, hsame.trans⟩
    cases hoperation : call.operation with
    | enroll secret nonce =>
      simp only [Fits, hoperation, true_implies]
      obtain ⟨hnone, hcodes, hcases⟩ := @enroll_cases c call s.db secret nonce hoperation
      rw [step_unconfirmed (Or.inl hnone), hcompare]
      rcases hcases with ⟨hfails, hunchanged⟩ | ⟨hstores, ciphertext, hstored⟩
      · refine iff_of_true (sameLogin_of ?_ (hasCode_congr hcodes)) hfails
        rw [Accounts.totpSecret, hunchanged, Accounts.totpSecret]
      · refine iff_of_false (fun h => ?_) hstores
        have hinactive := (totpSecret_upsert hstored call.userId).1 rfl
        rw [h.active, hactive] at hinactive
        cases hinactive
    | activate submittedCode drawn =>
      simp only [Fits, hoperation, true_implies]
      rcases @activate_cases c call s.db submittedCode drawn hoperation with
        ⟨hkeeps, hnone, hmarked⟩ | ⟨hdeletes, hreplaced, hresult⟩
      · rw [step_unconfirmed (Or.inl hnone), hcompare]
        exact iff_of_true (hmarked.sameLogin hactive) fun h => absurd h hkeeps
      · by_cases hall : call.written c s.db drawn = (List.ofFn drawn).map c.sha256
        · rw [if_pos hall] at hresult
          rw [step_confirmed hresult rfl]
          exact iff_of_true (sameLogin_of rfl fun _ => rfl) fun _ => Or.inl hall
        · rw [if_neg hall] at hresult
          rw [step_unconfirmed (Or.inl hresult), hcompare, hreplaced.sameLogin_iff hactive]
          simp only [hdeletes, true_implies, hall, false_or]
  · rw [step_unconfirmed (Or.inr hid)]
    refine iff_of_true (hsame.trans (sameLogin_other (Ne.symm hid))) fun h => absurd h hid

end Runs

/-- An enrolment leaves the login as it was confirmed last along exactly the runs whose calls store
no new secret and delete no recovery codes that they do not make up for. A call that confirms the
credential puts the stored secret and the new recovery codes into effect together. -/
theorem login_kept_iff (c : Crypto) {userId : UserId} {start : Accounts}
    (hactive : start.totpActive userId = true) (calls : List Call) :
    ((∀ earlier later, calls = earlier ++ later →
        SameLogin c (Runs.run (step c userId) (.start start) earlier).confirmed
          (Runs.run (step c userId) (.start start) earlier).db userId) ↔
      Runs.Throughout (step c userId) (Fits c userId) (.start start) calls) ∧
    ∀ earlier call later, calls = earlier ++ call :: later →
      ∀ rawCodes db, db = (Runs.run (step c userId) (.start start) earlier).db →
        (perform c call db).2 = some rawCodes →
        (perform c call db).1.totpActive call.userId = true ∧
          (∀ now submitted, acceptsCode c (perform c call db).1 call.userId now submitted = true ↔
            ∃ row, db.totpSecret call.userId = some row ∧
              checkStored c row.ciphertext now submitted = .ok true) ∧
          ∀ submitted, acceptsRecoveryCode c (perform c call db).1 call.userId submitted = true ↔
            c.sha256 submitted ∈ rawCodes.map c.sha256 := by
  constructor
  · apply Runs.always_iff_throughout (I := fun s : State => s.confirmed.totpActive userId = true)
      (J := fun s : State => SameLogin c s.confirmed s.db userId)
    · intro s call hconfirmed _ _
      exact confirmed_step hconfirmed
    · intro s call hconfirmed hsame
      exact sameLogin_step_iff hconfirmed hsame
    · exact hactive
    · exact sameLogin_of rfl fun _ => rfl
  · intro earlier call later _ rawCodes db _ hconfirmed
    exact confirmed_takes_effect hconfirmed

/-! ## An enrolment that is not finished -/

/-- A secret box that seals nothing, and codes that show their time step. -/
def plainCrypto : Crypto where
  encrypt secret _ := .ok secret
  decrypt := .ok
  sha256 := id
  code _ timeStep := toString (100000 + timeStep.toNat)

/-- A call of account 7 in which every statement works. -/
def callOf (operation : Operation) : Call := ⟨7, operation, fun _ => none, 90⟩

/-- The login of an account with a second factor asks for none after an enrolment, although nobody
has confirmed the new secret, or can. -/
theorem enrolment_turns_second_factor_off :
    enrolledAccount.totpActive 7 = true ∧
      ¬ SameLogin plainCrypto enrolledAccount
        (Runs.run (step plainCrypto 7) (.start enrolledAccount) [callOf (.enroll [3] [])]).db 7 := by
  refine ⟨by decide, fun h => ?_⟩
  have hactive := h.active
  revert hactive
  decide +kernel

/-- With a code that is wrong and another that is right. -/
theorem login_kept_by_activations :
    enrolledAccount.totpActive 7 = true ∧
      ((∀ earlier later, [callOf (.activate "000000" fun _ => "new"),
            callOf (.activate "100003" fun place => toString place.val)] = earlier ++ later →
          SameLogin plainCrypto
            (Runs.run (step plainCrypto 7) (.start enrolledAccount) earlier).confirmed
            (Runs.run (step plainCrypto 7) (.start enrolledAccount) earlier).db 7) ↔
        Runs.Throughout (step plainCrypto 7) (Fits plainCrypto 7) (.start enrolledAccount)
          [callOf (.activate "000000" fun _ => "new"),
            callOf (.activate "100003" fun place => toString place.val)]) :=
  ⟨by decide, (login_kept_iff plainCrypto (by decide) _).1⟩

end Edda.Auth.TotpEnrolment
