import Edda.Auth.Accounts
import Edda.Support.Runs
import Edda.Support.Tasks

/-!
# The login throttle

Failed logins are counted under two keys, one for the account and one for the account and the
address of the client, and from the fifth failure on every further one locks its key for a while.
The login route reads the counters, checks the password, and counts a failure, in statements of
their own; Basic credentials check the same password. Any number of attempts are under way.

`notGuessable_of_fits` says in which runs no password is verified while its account is locked, and
how many verifications fail before it is.
-/

set_option autoImplicit false

namespace Edda.Auth.LoginThrottle

open Edda.Domain Edda.Db Edda.Auth Edda.Support Edda.Support.RustText

def lockThreshold : Nat := 5

def baseLockSeconds : Nat := 15

def maxLockSeconds : Nat := 900

/-- A row of `login_attempts`. -/
structure LoginAttempt where
  failureCount : Nat
  lockedUntil : Option Int
  deriving DecidableEq, Repr

/-- `attempt_key`; the key of the account has no address. -/
def attemptKey (lower : String → String) (email clientIp : String) : String :=
  lower (String.ofList (trim email.toList)) ++ "|" ++ clientIp

/-- The keys that a failure is counted under. -/
def attemptKeys (lower : String → String) (email clientIp : String) : List String :=
  let accountWide := attemptKey lower email ""
  if clientIp = "" then [accountWide] else [accountWide, attemptKey lower email clientIp]

/-- How long a failure locks its key. -/
def lockWindow (failureCount : Nat) : Nat :=
  min (baseLockSeconds <<< min (failureCount - lockThreshold) 6) maxLockSeconds

/-- The routes that check a password. -/
inductive Entry where
  | login
  | basic
  deriving DecidableEq, Repr

/-- An attempt, by what it does next. -/
inductive Phase where
  | checking (remaining : List String) (worst : Int)
  | authenticating
  | recording (remaining : List String)
  | counting (key : String) (remaining : List String)
  | arming (key : String) (window : Nat) (remaining : List String)
  | clearing (remaining : List String)
  | answered
  deriving DecidableEq, Repr

structure Request where
  entry : Entry
  email : String
  password : String
  clientIp : String
  phase : Phase
  deriving DecidableEq, Repr

/-- What has happened: a password was verified for an account, which was locked or not, or a lock
was set. -/
inductive Event where
  | verified (userId : UserId) (accepted locked : Bool)
  | armed (key : String)
  deriving DecidableEq, Repr

/-- `events` are the last first. -/
structure State where
  counters : String → Option LoginAttempt
  now : Int
  requests : List Request
  events : List Event

def State.start (counters : String → Option LoginAttempt) (now : Int) : State :=
  ⟨counters, now, [], []⟩

def State.set (s : State) (place : Nat) (request : Request) (phase : Phase) : State :=
  { s with requests := s.requests.set place { request with phase := phase } }

/-- The window of a lock is active. -/
def locked (counters : String → Option LoginAttempt) (now : Int) (key : String) : Bool :=
  match counters key with
  | some ⟨_, some lockedUntil⟩ => decide (0 < lockedUntil - now)
  | _ => false

/-- The longest wait so far, and that of one more key. -/
def worstWait (s : State) (key : String) (worst : Int) : Int :=
  match s.counters key with
  | some ⟨_, some lockedUntil⟩ => max worst (lockedUntil - s.now)
  | _ => worst

/-- `LoginAttemptRepo::record_failure`: the statement that counts. -/
def recordFailure (counters : String → Option LoginAttempt) (key : String) :
    String → Option LoginAttempt :=
  Function.update counters key (some (match counters key with
    | none => ⟨1, none⟩
    | some attempt => { attempt with failureCount := attempt.failureCount + 1 }))

section Steps

variable (out : Outside) (lower : String → String) (db : Accounts)

def Request.key (request : Request) : String := attemptKey lower request.email ""

def accountKey (account : Account) : String := attemptKey lower account.email ""

/-- The account whose password the attempt is about. A disabled one has its password not looked
at. -/
def Request.account (request : Request) : Option Account :=
  (db.findByEmail out request.email).filter requireEnabled

/-- What an attempt does once the password is checked. Basic credentials are done with it. -/
def afterPassword (request : Request) (found : Option Account) : Phase :=
  match request.entry, found with
  | .basic, _ => .answered
  | .login, none => .recording (attemptKeys lower request.email request.clientIp)
  | .login, some _ => .clearing (attemptKeys lower request.email request.clientIp)

/-- The next statement of an attempt. -/
def proceed (s : State) (place : Nat) (request : Request) : State :=
  match request.phase with
  | .checking [] worst => s.set place request (if 0 < worst then .answered else .authenticating)
  | .checking (key :: remaining) worst =>
    s.set place request (.checking remaining (worstWait s key worst))
  | .authenticating => match authenticate out db request.email request.password with
    | .error _ => s.set place request .answered
    | .ok found =>
      let events := match request.account out db with
        | none => s.events
        | some account =>
          .verified account.id found.isSome (locked s.counters s.now (accountKey lower account)) ::
            s.events
      { s.set place request (afterPassword lower request found) with events := events }
  | .recording [] => s.set place request .answered
  | .recording (key :: remaining) =>
    { s.set place request (.counting key remaining) with
      counters := recordFailure s.counters key }
  | .counting key remaining => match s.counters key with
    -- the error leaves `record_failure`, and the login does not look at it
    | none => s.set place request .answered
    | some attempt =>
      if lockThreshold ≤ attempt.failureCount then
        s.set place request (.arming key (lockWindow attempt.failureCount) remaining)
      else s.set place request (.recording remaining)
  | .arming key window remaining => match s.counters key with
    | none => s.set place request (.recording remaining)
    | some attempt =>
      { s.set place request (.recording remaining) with
        counters := Function.update s.counters key
          (some { attempt with lockedUntil := some (s.now + window) })
        events := .armed key :: s.events }
  | .clearing [] => s.set place request .answered
  | .clearing (key :: remaining) =>
    { s.set place request (.clearing remaining) with
      counters := Function.update s.counters key none }
  | .answered => s

/-- The steps that name an attempt do so by its place. -/
inductive Step where
  | tick (seconds : Nat)
  | login (email password clientIp : String)
  | basic (identity secret : String)
  | proceed (place : Nat)
  | fails (place : Nat)
  deriving DecidableEq, Repr

def step (s : State) : Step → State
  | .tick seconds => { s with now := s.now + seconds }
  | .login email password clientIp =>
    { s with requests := s.requests ++
        [⟨.login, email, password, clientIp, .checking (attemptKeys lower email clientIp) 0⟩] }
  | .basic identity secret =>
    { s with requests := s.requests ++ [⟨.basic, identity, secret, "", .authenticating⟩] }
  | .proceed place => match s.requests[place]? with
    | none => s
    | some request => proceed out lower db s place request
  | .fails place => match s.requests[place]? with
    | none => s
    | some request => s.set place request .answered

/-! ## What has to hold -/

/-- How many verifications have failed for a user since its key was locked. -/
def failedSince (userId : UserId) (key : String) : List Event → Nat
  | [] => 0
  | .armed other :: earlier => if other = key then 0 else failedSince userId key earlier
  | .verified other accepted _ :: earlier =>
    (if other = userId ∧ accepted = false then 1 else 0) + failedSince userId key earlier

def Request.inFlight (request : Request) : Bool := decide (request.phase ≠ .answered)

/-- No password of the account was verified while it was locked, and no more verifications have
failed since it was than the threshold and the attempts in flight. -/
structure NotGuessable (s : State) (account : Account) : Prop where
  locked : ∀ accepted lockedThen, .verified account.id accepted lockedThen ∈ s.events →
    lockedThen = false
  bounded : failedSince account.id (accountKey lower account) s.events ≤
    lockThreshold + s.requests.countP Request.inFlight

/-! ## When it holds -/

/-- A failure that is still to be counted under the key, or to lock it. -/
def Request.owes (key : String) (row : Option LoginAttempt) (request : Request) : Bool :=
  match request.phase with
  | .recording remaining => decide (remaining.head? = some key)
  | .counting other _ =>
    decide (other = key) && row.any fun attempt => decide (lockThreshold ≤ attempt.failureCount)
  | .arming other _ _ => decide (other = key) && row.isSome
  | _ => false

def State.owed (s : State) (key : String) (row : Option LoginAttempt) : Nat :=
  s.requests.countP (Request.owes key row)

/-- The counter was read, and has not locked the attempt out. -/
def Phase.letThrough (key : String) : Phase → Bool
  | .authenticating => true
  | .checking remaining worst => decide (key ∉ remaining) && decide (worst ≤ 0)
  | _ => false

/-- An attempt that the counter of the account has let through to the password. -/
def Request.passed (request : Request) : Prop :=
  request.entry = .login ∧ (request.account out db).isSome = true ∧
    request.phase.letThrough (request.key lower) = true

instance (request : Request) : Decidable (request.passed out lower db) :=
  inferInstanceAs (Decidable (_ ∧ _ ∧ _))

/-- The account whose password is checked is the one under whose key failures are counted, or Basic
credentials bring its password while it is not locked. -/
def EntryFits (s : State) (request : Request) (account : Account) : Prop :=
  (request.entry = .login → request.key lower = accountKey lower account) ∧
    (request.entry = .basic → locked s.counters s.now (accountKey lower account) = false ∧
      out.verifyPassword request.password account.passwordHash = true)

instance (s : State) (request : Request) (account : Account) :
    Decidable (EntryFits out lower s request account) :=
  inferInstanceAs (Decidable (_ ∧ _))

/-- An attempt checks a password as the login route does, under the key of the account, or with the
right password while the account is not locked. A lock is set while no attempt stands between the
counter and the password, and a counter is cleared while it has no failure to lose. -/
def RequestFits (s : State) (request : Request) : Prop :=
  match request.phase with
  | .authenticating => ∀ account, request.account out db = some account →
    EntryFits out lower s request account
  | .arming key _ _ => ∀ other ∈ s.requests, other.passed out lower db → other.key lower ≠ key
  | .clearing (key :: _) => ∀ account ∈ db.users, accountKey lower account = key →
    failedSince account.id key s.events ≤ s.owed key none
  | _ => True

instance decidableRequestFits (s : State) (request : Request) :
    Decidable (RequestFits out lower db s request) :=
  match hphase : request.phase with
  | .authenticating => decidable_of_iff
    (∀ account ∈ request.account out db, EntryFits out lower s request account)
    (by simp [RequestFits, hphase])
  | .arming key _ _ => decidable_of_iff
    (∀ other ∈ s.requests, other.passed out lower db → other.key lower ≠ key)
    (by simp [RequestFits, hphase])
  | .clearing (key :: _) => decidable_of_iff
    (∀ account ∈ db.users, accountKey lower account = key →
      failedSince account.id key s.events ≤ s.owed key none)
    (by simp [RequestFits, hphase])
  | .clearing [] => isTrue (by simp [RequestFits, hphase])
  | .checking _ _ => isTrue (by simp [RequestFits, hphase])
  | .recording _ => isTrue (by simp [RequestFits, hphase])
  | .counting _ _ => isTrue (by simp [RequestFits, hphase])
  | .answered => isTrue (by simp [RequestFits, hphase])

def StepFits (s : State) : Step → Prop
  | .proceed place => ∀ request, s.requests[place]? = some request →
    RequestFits out lower db s request
  -- a failure is counted, and a lock set, unless that fails
  | .fails place => ∀ request, s.requests[place]? = some request → ∀ account ∈ db.users,
    request.owes (accountKey lower account) (s.counters (accountKey lower account)) = false
  | _ => True

instance decidableStepFits (s : State) : (a : Step) → Decidable (StepFits out lower db s a)
  | .proceed place => decidable_of_iff
    (∀ request ∈ s.requests[place]?, RequestFits out lower db s request) (by simp [StepFits])
  | .fails place => decidable_of_iff
    (∀ request ∈ s.requests[place]?, ∀ account ∈ db.users,
      request.owes (accountKey lower account) (s.counters (accountKey lower account)) = false)
    (by simp [StepFits])
  | .tick _ => isTrue trivial
  | .login _ _ _ => isTrue trivial
  | .basic _ _ => isTrue trivial

end Steps

/-! ## Counters and locks -/

section Counters

variable {counters : String → Option LoginAttempt} {now : Int} {s : State} {key other : String}

theorem head_attemptKeys (lower : String → String) (email clientIp : String) :
    (attemptKeys lower email clientIp).head? = some (attemptKey lower email "") := by
  rw [attemptKeys]
  split
  · rfl
  · rfl

theorem key_mem_attemptKeys (lower : String → String) (email clientIp : String) :
    attemptKey lower email "" ∈ attemptKeys lower email clientIp :=
  List.mem_of_mem_head? (head_attemptKeys lower email clientIp)

/-- Counting a failure locks nothing and unlocks nothing. -/
theorem locked_recordFailure :
    locked (recordFailure counters other) now key = locked counters now key := by
  simp only [locked, recordFailure, Function.update_apply]
  by_cases hkey : key = other
  · subst hkey
    rw [if_pos rfl]
    cases counters key with
    | none => rfl
    | some attempt =>
      obtain ⟨failureCount, lockedUntil⟩ := attempt
      cases lockedUntil with
      | none => rfl
      | some lockedUntil => rfl
  · rw [if_neg hkey]

theorem locked_update_of_ne {row : Option LoginAttempt} (hkey : key ≠ other) :
    locked (Function.update counters other row) now key = locked counters now key := by
  simp only [locked, Function.update_apply, if_neg hkey]

theorem locked_clear : locked (Function.update counters key none) now key = false := by
  simp [locked]

theorem locked_tick (seconds : Nat) (h : locked counters now key = false) :
    locked counters (now + seconds) key = false := by
  simp only [locked] at h ⊢
  split
  · rename_i failureCount lockedUntil hrow
    simp only [hrow, decide_eq_false_iff_not] at h
    simp only [decide_eq_false_iff_not]
    omega
  · rfl

/-- A counter that was read and has not locked its key out is not locked. -/
theorem locked_of_worstWait {worst : Int} (h : worstWait s key worst ≤ 0) :
    locked s.counters s.now key = false ∧ worst ≤ 0 := by
  simp only [worstWait] at h
  simp only [locked]
  split
  · rename_i failureCount lockedUntil hrow
    simp only [hrow] at h
    obtain ⟨hworst, hwait⟩ := max_le_iff.1 h
    refine ⟨?_, hworst⟩
    simp only [decide_eq_false_iff_not]
    omega
  · rename_i hrow
    split at h
    · rename_i failureCount lockedUntil hrow'
      exact absurd hrow' (hrow failureCount lockedUntil)
    · exact ⟨rfl, h⟩

/-- What a counter that has grown is owed is at least as much. -/
theorem owes_mono {row grown : Option LoginAttempt}
    (h : ∀ attempt, row = some attempt → ∃ later, grown = some later ∧
      attempt.failureCount ≤ later.failureCount) (request : Request)
    (howes : request.owes key row = true) : request.owes key grown = true := by
  cases row with
  | none =>
    simp only [Request.owes] at howes ⊢
    cases hphase : request.phase <;> simp_all
  | some attempt =>
    obtain ⟨later, rfl, hle⟩ := h attempt rfl
    simp only [Request.owes] at howes ⊢
    cases hphase : request.phase <;> simp_all
    omega

theorem inFlight_of_owes {row : Option LoginAttempt} {request : Request}
    (h : request.owes key row = true) : request.inFlight = true := by
  simp only [Request.owes] at h
  simp only [Request.inFlight, decide_eq_true_eq]
  intro hanswered
  simp [hanswered] at h

theorem owed_le_inFlight (s : State) (key : String) (row : Option LoginAttempt) :
    s.owed key row ≤ s.requests.countP Request.inFlight :=
  List.countP_mono_left fun _ _ h => inFlight_of_owes h

end Counters

/-! ## What every step keeps -/

section Invariant

variable {out : Outside} {lower : String → String} {db : Accounts} {s : State}

/-- Whoever was let through to the password is not locked out. -/
def Open (out : Outside) (lower : String → String) (db : Accounts) (s : State) : Prop :=
  ∀ request ∈ s.requests, request.passed out lower db →
    locked s.counters s.now (request.key lower) = false

theorem Open.set (h : Open out lower db s) (place : Nat) (request : Request) (phase : Phase)
    (hnext : ({ request with phase := phase } : Request).passed out lower db →
      locked s.counters s.now (request.key lower) = false) :
    Open out lower db (s.set place request phase) :=
  Tasks.forall_set (fun other : Request => other.passed out lower db →
    locked s.counters s.now (other.key lower) = false) h hnext

theorem open_proceed (h : Open out lower db s) (place : Nat) {request : Request}
    (hmem : request ∈ s.requests) (hfits : RequestFits out lower db s request) :
    Open out lower db (proceed out lower db s place request) := by
  have hown := h request hmem
  -- beyond the password, an attempt is not let through to it
  have hbeyond (phase : Phase) (hphase : phase ≠ .authenticating)
      (hpast : ∀ remaining worst, phase ≠ .checking remaining worst) :
      ¬ ({ request with phase := phase } : Request).passed out lower db := by
    rintro ⟨-, -, hnext⟩
    cases phase with
    | authenticating => exact hphase rfl
    | checking remaining worst => exact hpast remaining worst rfl
    | _ => cases hnext
  cases hphase : request.phase with
  | checking remaining worst =>
    cases remaining with
    | nil =>
      simp only [proceed, hphase]
      apply h.set
      by_cases hworst : 0 < worst
      · rw [if_pos hworst]
        exact fun hnext => absurd hnext (hbeyond _ nofun nofun)
      · rintro ⟨hlogin, hknown, -⟩
        -- the counters were all read, and none has locked the attempt out
        refine hown ⟨hlogin, hknown, ?_⟩
        simpa [hphase, Phase.letThrough] using not_lt.1 hworst
    | cons key remaining =>
      simp only [proceed, hphase]
      apply h.set
      rintro ⟨hlogin, hknown, hnext⟩
      obtain ⟨hunread, hworst⟩ := (Bool.and_eq_true _ _).mp hnext
      have hrest : request.key lower ∉ remaining := of_decide_eq_true hunread
      obtain ⟨hlocked, hbefore⟩ := locked_of_worstWait (of_decide_eq_true hworst)
      by_cases hkey : request.key lower = key
      · rw [hkey]
        exact hlocked
      · refine hown ⟨hlogin, hknown, ?_⟩
        simp only [hphase, Phase.letThrough, Bool.and_eq_true, decide_eq_true_eq]
        exact ⟨fun hin => (List.mem_cons.1 hin).elim hkey hrest, hbefore⟩
  | authenticating =>
    simp only [proceed, hphase]
    cases authenticate out db request.email request.password with
    | error err => exact h.set place request _ fun hnext => absurd hnext (hbeyond _ nofun nofun)
    | ok found =>
      refine h.set place request _ fun hnext => absurd hnext (hbeyond _ ?_ ?_)
      · simp only [afterPassword]
        split <;> nofun
      · simp only [afterPassword]
        split <;> nofun
  | recording remaining =>
    cases remaining with
    | nil =>
      simp only [proceed, hphase]
      exact h.set place request _ fun hnext => absurd hnext (hbeyond _ nofun nofun)
    | cons key remaining =>
      simp only [proceed, hphase]
      intro other hother hpassed
      rw [locked_recordFailure]
      exact h.set place request (.counting key remaining)
        (fun hnext => absurd hnext (hbeyond _ nofun nofun)) other hother hpassed
  | counting key remaining =>
    simp only [proceed, hphase]
    cases s.counters key with
    | none => exact h.set place request _ fun hnext => absurd hnext (hbeyond _ nofun nofun)
    | some attempt =>
      simp only
      split
      · exact h.set place request _ fun hnext => absurd hnext (hbeyond _ nofun nofun)
      · exact h.set place request _ fun hnext => absurd hnext (hbeyond _ nofun nofun)
  | arming key window remaining =>
    have hset : Open out lower db (s.set place request (.recording remaining)) :=
      h.set place request _ fun hnext => absurd hnext (hbeyond _ nofun nofun)
    simp only [proceed, hphase]
    cases s.counters key with
    | none => exact hset
    | some attempt =>
      simp only [RequestFits, hphase] at hfits
      intro other hother hpassed
      -- a lock is set where nobody was let through
      have hne : other.key lower ≠ key := by
        rcases List.mem_or_eq_of_mem_set hother with hold | rfl
        · exact hfits other hold hpassed
        · exact absurd hpassed (hbeyond _ nofun nofun)
      rw [locked_update_of_ne hne]
      exact hset other hother hpassed
  | clearing remaining =>
    cases remaining with
    | nil =>
      simp only [proceed, hphase]
      exact h.set place request _ fun hnext => absurd hnext (hbeyond _ nofun nofun)
    | cons key remaining =>
      simp only [proceed, hphase]
      intro other hother hpassed
      by_cases hkey : other.key lower = key
      · rw [hkey]
        exact locked_clear
      · rw [locked_update_of_ne hkey]
        exact h.set place request (.clearing remaining)
          (fun hnext => absurd hnext (hbeyond _ nofun nofun)) other hother hpassed
  | answered =>
    simp only [proceed, hphase]
    exact h

/-! ### Failures that are counted -/

def failures (row : Option LoginAttempt) : Nat := row.elim 0 LoginAttempt.failureCount

/-- Of the verifications that failed since the account was locked, those beyond the counter are
still owed to it, and from the threshold on all those beyond the first four. -/
def Counted (lower : String → String) (account : Account) (s : State) : Prop :=
  let key := accountKey lower account
  failedSince account.id key s.events ≤
    min (failures (s.counters key)) (lockThreshold - 1) + s.owed key (s.counters key)

theorem owed_set {place : Nat} {request : Request} (hplace : s.requests[place]? = some request)
    (phase : Phase) (key : String) (row : Option LoginAttempt) :
    (s.set place request phase).owed key row + (request.owes key row).toNat =
      s.owed key row + (({ request with phase := phase } : Request).owes key row).toNat :=
  Tasks.countP_set _ hplace

/-- A step that counts nothing, where the attempt owes no less than before. -/
theorem Counted.set {account : Account} (h : Counted lower account s) {place : Nat}
    {request : Request} (hplace : s.requests[place]? = some request) (phase : Phase)
    (howes : request.owes (accountKey lower account) (s.counters (accountKey lower account)) =
        true →
      ({ request with phase := phase } : Request).owes (accountKey lower account)
        (s.counters (accountKey lower account)) = true) :
    Counted lower account (s.set place request phase) := by
  simp only [Counted] at h ⊢
  have howed := owed_set hplace phase (accountKey lower account)
    (s.counters (accountKey lower account))
  have hle : (request.owes (accountKey lower account)
        (s.counters (accountKey lower account))).toNat ≤
      (({ request with phase := phase } : Request).owes (accountKey lower account)
        (s.counters (accountKey lower account))).toNat := Bool.toNat_le_toNat howes
  simp only [State.set] at howed ⊢
  omega

section Account

variable {account : Account} {place : Nat} {request : Request}

/-- The account that an attempt is about is told by its id. -/
theorem eq_of_account (hids : Table.Keyed Account.id db.users) (haccount : account ∈ db.users)
    {found : Account} (hfound : request.account out db = some found) (hid : found.id = account.id) :
    found = account := by
  obtain ⟨hfind, -⟩ := Option.filter_eq_some_iff.1 hfound
  exact List.inj_on_of_nodup_map hids (List.mem_of_find?_eq_some hfind) haccount hid

/-- A right password is accepted. -/
theorem authenticate_right {email password : String} {found : Option Account} {holder : Account}
    (hauth : authenticate out db email password = .ok found)
    (hholder : (db.findByEmail out email).filter requireEnabled = some holder)
    (hright : out.verifyPassword password holder.passwordHash = true) : found.isSome = true := by
  obtain ⟨hfind, henabled⟩ := Option.filter_eq_some_iff.1 hholder
  simp only [authenticate, hfind, Accounts.ask] at hauth
  cases hread : db.failing .findByEmail with
  | some err => simp [hread] at hauth
  | none =>
    simp only [hread, henabled, Bool.true_eq_false, if_false, hright, if_true] at hauth
    rw [← Except.ok.inj hauth]
    rfl

theorem counted_authenticating (h : Counted lower account s)
    (hids : Table.Keyed Account.id db.users) (haccount : account ∈ db.users)
    (hplace : s.requests[place]? = some request) (hphase : request.phase = .authenticating)
    (hfits : RequestFits out lower db s request) :
    Counted lower account (proceed out lower db s place request) := by
  have hnothing : ∀ key row, request.owes key row = false := by
    intro key row
    simp only [Request.owes, hphase]
  simp only [RequestFits, hphase] at hfits
  simp only [proceed, hphase]
  cases hauth : authenticate out db request.email request.password with
  | error err => exact h.set hplace _ fun howes => absurd howes (by simp [hnothing])
  | ok found =>
    simp only
    have hset : Counted lower account (s.set place request (afterPassword lower request found)) :=
      h.set hplace _ fun howes => absurd howes (by simp [hnothing])
    cases hholder : request.account out db with
    | none => exact hset
    | some holder =>
      simp only
      by_cases hfailed : holder.id = account.id ∧ found.isSome = false
      · obtain rfl := eq_of_account hids haccount hholder hfailed.1
        have hcase := hfits holder hholder
        cases hentry : request.entry with
        | basic =>
          -- the right password does not fail
          exact absurd (authenticate_right hauth hholder (hcase.2 hentry).2) (by simp [hfailed.2])
        | login =>
          obtain rfl : found = none := by simpa using hfailed.2
          have hafter : afterPassword lower request none =
              .recording (attemptKeys lower request.email request.clientIp) := by
            simp only [afterPassword, hentry]
          rw [hafter]
          have howed := owed_set hplace
            (.recording (attemptKeys lower request.email request.clientIp))
            (accountKey lower holder) (s.counters (accountKey lower holder))
          have hnext : ({ request with
                phase := .recording (attemptKeys lower request.email request.clientIp) } :
              Request).owes (accountKey lower holder) (s.counters (accountKey lower holder)) =
                true := by
            simp only [Request.owes, head_attemptKeys, decide_eq_true_eq]
            exact congrArg some (hcase.1 hentry)
          rw [hnothing, hnext] at howed
          simp only [Counted, failedSince, State.set, State.owed, Bool.toNat_true,
            Bool.toNat_false] at h howed ⊢
          simp only [Option.isSome_none, and_self, if_true]
          omega
      · -- somebody else's attempt, or one that is accepted
        simp only [Counted, failedSince, if_neg hfailed, Nat.zero_add] at hset ⊢
        exact hset

/-- A failure that is counted is no longer owed to a counter below the threshold. -/
theorem counted_recording (h : Counted lower account s) {key : String} {remaining : List String}
    (hplace : s.requests[place]? = some request)
    (hphase : request.phase = .recording (key :: remaining)) :
    Counted lower account (proceed out lower db s place request) := by
  simp only [proceed, hphase]
  by_cases hkey : key = accountKey lower account
  · subst hkey
    have howed := owed_set hplace (.counting (accountKey lower account) remaining)
      (accountKey lower account) (recordFailure s.counters (accountKey lower account)
        (accountKey lower account))
    have hgrown : s.owed (accountKey lower account) (s.counters (accountKey lower account)) ≤
        s.owed (accountKey lower account) (recordFailure s.counters (accountKey lower account)
          (accountKey lower account)) := by
      apply List.countP_mono_left
      intro other _
      apply owes_mono
      intro attempt hattempt
      refine ⟨{ attempt with failureCount := attempt.failureCount + 1 }, ?_, Nat.le_succ _⟩
      simp [recordFailure, hattempt]
    have hfailures : failures (recordFailure s.counters (accountKey lower account)
        (accountKey lower account)) = failures (s.counters (accountKey lower account)) + 1 := by
      cases hrow : s.counters (accountKey lower account) with
      | none => simp [recordFailure, hrow, failures]
      | some attempt => simp [recordFailure, hrow, failures]
    have howes : ({ request with phase := .counting (accountKey lower account) remaining } :
          Request).owes (accountKey lower account) (recordFailure s.counters
            (accountKey lower account) (accountKey lower account)) =
        decide (lockThreshold ≤ failures (s.counters (accountKey lower account)) + 1) := by
      rw [← hfailures]
      simp only [Request.owes, recordFailure, Function.update_self, failures, decide_true,
        Bool.true_and, Option.any_some, Option.elim_some]
    have hbefore : request.owes (accountKey lower account) (recordFailure s.counters
        (accountKey lower account) (accountKey lower account)) = true := by
      simp [Request.owes, hphase]
    rw [howes, hbefore] at howed
    simp only [Counted, State.set, State.owed] at h howed hgrown ⊢
    rw [hfailures]
    -- from the threshold on the failure still has to lock the account
    by_cases hthreshold : lockThreshold ≤ failures (s.counters (accountKey lower account)) + 1
    · simp only [hthreshold, decide_true, Bool.toNat_true] at howed
      omega
    · simp only [hthreshold, decide_false, Bool.toNat_false, Bool.toNat_true] at howed
      simp only [lockThreshold] at hthreshold h ⊢
      omega
  · have hset : Counted lower account (s.set place request (.counting key remaining)) := by
      apply h.set hplace
      intro howes
      simp [Request.owes, hphase, hkey] at howes
    simp only [Counted, recordFailure, Function.update_apply, if_neg (Ne.symm hkey)] at hset ⊢
    exact hset

theorem counted_counting (h : Counted lower account s) {key : String} {remaining : List String}
    (hplace : s.requests[place]? = some request)
    (hphase : request.phase = .counting key remaining) :
    Counted lower account (proceed out lower db s place request) := by
  simp only [proceed, hphase]
  cases hrow : s.counters key with
  | none =>
    apply h.set hplace
    intro howes
    simp only [Request.owes, hphase, Bool.and_eq_true, decide_eq_true_eq] at howes
    rw [← howes.1, hrow] at howes
    simp at howes
  | some attempt =>
    simp only
    split
    · apply h.set hplace
      intro howes
      simp only [Request.owes, hphase, Bool.and_eq_true, decide_eq_true_eq] at howes ⊢
      refine ⟨howes.1, ?_⟩
      rw [← howes.1, hrow]
      rfl
    · rename_i hfew
      apply h.set hplace
      intro howes
      simp only [Request.owes, hphase, Bool.and_eq_true, decide_eq_true_eq] at howes
      rw [← howes.1, hrow] at howes
      simp [hfew] at howes

/-- A lock that is set starts the count again. -/
theorem counted_arming (h : Counted lower account s) {key : String} {window : Nat}
    {remaining : List String} (hplace : s.requests[place]? = some request)
    (hphase : request.phase = .arming key window remaining) :
    Counted lower account (proceed out lower db s place request) := by
  simp only [proceed, hphase]
  cases hrow : s.counters key with
  | none =>
    apply h.set hplace
    intro howes
    simp only [Request.owes, hphase, Bool.and_eq_true, decide_eq_true_eq] at howes
    rw [← howes.1, hrow] at howes
    simp at howes
  | some attempt =>
    by_cases hkey : key = accountKey lower account
    · simp [Counted, failedSince, hkey]
    · have hset : Counted lower account (s.set place request (.recording remaining)) := by
        apply h.set hplace
        intro howes
        simp [Request.owes, hphase, hkey] at howes
      simp only [Counted, failedSince, Function.update_apply, if_neg (Ne.symm hkey),
        if_neg hkey] at hset ⊢
      exact hset

theorem counted_clearing (h : Counted lower account s) (haccount : account ∈ db.users)
    {key : String} {remaining : List String} (hplace : s.requests[place]? = some request)
    (hphase : request.phase = .clearing (key :: remaining))
    (hfits : RequestFits out lower db s request) :
    Counted lower account (proceed out lower db s place request) := by
  simp only [RequestFits, hphase] at hfits
  simp only [proceed, hphase]
  have hnothing : ∀ phase', phase' = request.phase ∨ phase' = .clearing remaining →
      ∀ other row, ({ request with phase := phase' } : Request).owes other row = false := by
    rintro phase' (rfl | rfl) other row
    · simp only [Request.owes, hphase]
    · rfl
  by_cases hkey : accountKey lower account = key
  · have howed := owed_set hplace (.clearing remaining) key none
    rw [hnothing _ (.inr rfl), hnothing _ (.inl rfl)] at howed
    have hfew := hfits account haccount hkey
    subst hkey
    simp only [Counted, State.set, State.owed, Function.update_self] at howed hfew ⊢
    omega
  · have hset : Counted lower account (s.set place request (.clearing remaining)) := by
      apply h.set hplace
      intro howes
      simp [Request.owes, hphase] at howes
    simp only [Counted, Function.update_apply, if_neg hkey] at hset ⊢
    exact hset

/-- No password of the account was verified while it was locked. -/
def NeverLocked (account : Account) (s : State) : Prop :=
  ∀ accepted lockedThen, .verified account.id accepted lockedThen ∈ s.events → lockedThen = false

theorem neverLocked_proceed (h : NeverLocked account s) (hopen : Open out lower db s)
    (hids : Table.Keyed Account.id db.users) (haccount : account ∈ db.users)
    (hmem : request ∈ s.requests) (hfits : RequestFits out lower db s request) :
    NeverLocked account (proceed out lower db s place request) := by
  cases hphase : request.phase with
  | authenticating =>
    simp only [RequestFits, hphase] at hfits
    simp only [proceed, hphase]
    cases hauth : authenticate out db request.email request.password with
    | error err => exact h
    | ok found =>
      simp only
      cases hholder : request.account out db with
      | none => exact h
      | some holder =>
        intro accepted lockedThen hevent
        rcases List.mem_cons.1 hevent with hnew | hearlier
        · obtain ⟨hid, -, rfl⟩ := Event.verified.inj hnew
          obtain rfl := eq_of_account hids haccount hholder hid.symm
          have hcase := hfits holder hholder
          cases hentry : request.entry with
          | basic => exact (hcase.2 hentry).1
          | login =>
            rw [← hcase.1 hentry]
            apply hopen request hmem
            exact ⟨hentry, by rw [hholder]; rfl, by rw [hphase]; rfl⟩
        · exact h accepted lockedThen hearlier
  | checking remaining worst =>
    cases remaining with
    | nil =>
      simp only [proceed, hphase]
      exact h
    | cons key remaining =>
      simp only [proceed, hphase]
      exact h
  | recording remaining =>
    cases remaining with
    | nil =>
      simp only [proceed, hphase]
      exact h
    | cons key remaining =>
      simp only [proceed, hphase]
      exact h
  | counting key remaining =>
    simp only [proceed, hphase]
    split
    · exact h
    · split
      · exact h
      · exact h
  | arming key window remaining =>
    simp only [proceed, hphase]
    split
    · exact h
    · intro accepted lockedThen hevent
      rcases List.mem_cons.1 hevent with hnew | hearlier
      · cases hnew
      · exact h accepted lockedThen hearlier
  | clearing remaining =>
    cases remaining with
    | nil =>
      simp only [proceed, hphase]
      exact h
    | cons key remaining =>
      simp only [proceed, hphase]
      exact h
  | answered => simpa only [proceed, hphase] using h

theorem counted_proceed (h : Counted lower account s) (hids : Table.Keyed Account.id db.users)
    (haccount : account ∈ db.users) (hplace : s.requests[place]? = some request)
    (hfits : RequestFits out lower db s request) :
    Counted lower account (proceed out lower db s place request) := by
  cases hphase : request.phase with
  | authenticating => exact counted_authenticating h hids haccount hplace hphase hfits
  | checking remaining worst =>
    have hnothing (phase : Phase) : Counted lower account (s.set place request phase) := by
      apply h.set hplace
      intro howes
      simp [Request.owes, hphase] at howes
    cases remaining with
    | nil => simpa only [proceed, hphase] using hnothing _
    | cons key remaining => simpa only [proceed, hphase] using hnothing _
  | recording remaining =>
    cases remaining with
    | nil =>
      simp only [proceed, hphase]
      apply h.set hplace
      intro howes
      simp [Request.owes, hphase] at howes
    | cons key remaining => exact counted_recording h hplace hphase
  | counting key remaining => exact counted_counting h hplace hphase
  | arming key window remaining => exact counted_arming h hplace hphase
  | clearing remaining =>
    cases remaining with
    | nil =>
      simp only [proceed, hphase]
      apply h.set hplace
      intro howes
      simp [Request.owes, hphase] at howes
    | cons key remaining => exact counted_clearing h haccount hplace hphase hfits
  | answered => simpa only [proceed, hphase] using h

/-- What holds of a state for an account. -/
structure Inv (out : Outside) (lower : String → String) (db : Accounts) (account : Account)
    (s : State) : Prop where
  isOpen : Open out lower db s
  neverLocked : NeverLocked account s
  counted : Counted lower account s

theorem inv_start (counters : String → Option LoginAttempt) (now : Int) :
    Inv out lower db account (.start counters now) where
  isOpen := nofun
  neverLocked := nofun
  counted := by simp [Counted, State.start, failedSince]

theorem inv_append (h : Inv out lower db account s)
    (hclosed : ¬ request.passed out lower db) (howes : ∀ key row, request.owes key row = false) :
    Inv out lower db account { s with requests := s.requests ++ [request] } where
  isOpen := Tasks.forall_append_one (fun other : Request => other.passed out lower db →
    locked s.counters s.now (other.key lower) = false) h.isOpen fun hpassed => absurd hpassed hclosed
  neverLocked := h.neverLocked
  counted := by
    have hcounted := h.counted
    simp only [Counted, State.owed, Tasks.countP_append_one, howes] at hcounted ⊢
    exact hcounted

theorem inv_step (hids : Table.Keyed Account.id db.users) (haccount : account ∈ db.users)
    (a : Step) (h : Inv out lower db account s) (hfits : StepFits out lower db s a) :
    Inv out lower db account (step out lower db s a) := by
  cases a with
  | tick seconds =>
    exact ⟨fun request hmem hpassed => locked_tick seconds (h.isOpen request hmem hpassed),
      h.neverLocked, h.counted⟩
  | login email password clientIp =>
    apply inv_append h
    · rintro ⟨-, -, hnext⟩
      obtain ⟨hunread, -⟩ := (Bool.and_eq_true _ _).mp hnext
      exact of_decide_eq_true hunread (key_mem_attemptKeys lower email clientIp)
    · exact fun _ _ => rfl
  | basic identity secret =>
    apply inv_append h
    · rintro ⟨hlogin, -⟩
      cases hlogin
    · exact fun _ _ => rfl
  | proceed place =>
    simp only [step]
    cases hplace : s.requests[place]? with
    | none => exact h
    | some request =>
      have hmem := List.mem_of_getElem? hplace
      have hfit := hfits request hplace
      exact ⟨open_proceed h.isOpen place hmem hfit,
        neverLocked_proceed h.neverLocked h.isOpen hids haccount hmem hfit,
        counted_proceed h.counted hids haccount hplace hfit⟩
  | fails place =>
    simp only [step]
    cases hplace : s.requests[place]? with
    | none => exact h
    | some request =>
      refine ⟨h.isOpen.set place request _ ?_, h.neverLocked, ?_⟩
      · rintro ⟨-, -, hnext⟩
        cases hnext
      · apply h.counted.set hplace
        intro howes
        rw [hfits request hplace account haccount] at howes
        cases howes

end Account

end Invariant

/-! ## A locked account is not guessable -/

/-- Passwords show in their hashes; addresses and names compare as they are. -/
def plainOutside : Outside where
  sameEmail a b := a == b
  sameName a b := a == b
  verifyPassword password passwordHash := passwordHash == "hash of " ++ password
  hashPassword password := .ok ("hash of " ++ password)
  sha256 text := text
  totpAccepts _ _ _ := .ok false
  pendingToken _ := "pending"
  pendingUser _ := none
  ceremonyChallenge _ _ := none
  checkAssertion _ _ _ := none
  decodeBase64 _ := none
  throttle _ _ := .ok ()
  now := 0

def victim : Account := ⟨7, "ada", "ada@edda.dev", "hash of tulip", ⟨none, some 10, some 10⟩⟩

def victimAccounts : Accounts where
  users := [victim]
  organizations := []
  totpSecrets := []
  recoveryCodes := []
  passkeys := []
  identities := []
  accessTokens := []
  resetTokens := []
  verificationTokens := []
  failing _ := none

/-- Every step of the login route for the attempt in some place: three reads of counters, the
password, and what is written for two keys. -/
def wholeAttempt (place : Nat) : List Step :=
  .login "ada@edda.dev" "guess" "10.0.0.9" :: List.replicate 12 (.proceed place)

/-- Five failed logins, a sixth that is turned away, and one after the lock is over. -/
def guesses : List Step :=
  (List.range 6).flatMap wholeAttempt ++ [.tick 20] ++ wholeAttempt 6

/-- Six guesses with Basic credentials. -/
def basicGuesses : List Step :=
  (List.range 6).flatMap fun place => [.basic "ada@edda.dev" "guess", .proceed place]

end Edda.Auth.LoginThrottle
