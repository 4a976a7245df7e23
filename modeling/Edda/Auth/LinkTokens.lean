import Edda.Auth.Accounts
import Edda.Support.Runs
import Edda.Support.Tasks

/-!
# The tokens in links

A link that resets a password or confirms an address carries a token. A request uses up the tokens
of the account and then inserts a new one; a consumption looks its token up, changes the account and
marks the token used, whether or not somebody else has done so meanwhile. Each is a statement of its
own, and calls interleave in any way.

`singleUse_iff` says in which runs a token is consumed once, and only the newest one.
-/

set_option autoImplicit false

namespace Edda.Auth.LinkTokens

open Edda.Domain Edda.Support

/-- The kinds of token, each with a table of its own. -/
inductive Kind where
  | reset
  | verification
  deriving DecidableEq, Repr

/-- `TOKEN_TTL_SECONDS`. -/
def Kind.ttl : Kind → Int
  | .reset => 3600
  | .verification => 24 * 3600

/-- What a consumption is to do to the account. -/
inductive Consume where
  | reset (newPassword : String)
  | verification
  deriving DecidableEq, Repr

def Consume.kind : Consume → Kind
  | .reset _ => .reset
  | .verification => .verification

/-- A call by the statement that it makes next. A consumption keeps which tokens had been superseded
when it started; a returned one is kept. -/
inductive Task where
  | findByEmail (email : String)
  | findById (userId : UserId)
  | accountStatus (userId : UserId)
  | invalidateAll (kind : Kind) (userId : UserId)
  | insert (kind : Kind) (userId : UserId)
  | findValid (consume : Consume) (rawToken : String) (superseded : List (BitVec 128))
  | changeAccount (consume : Consume) (token : SingleUseToken) (superseded : List (BitVec 128))
  | markUsed (consume : Consume) (token : SingleUseToken) (superseded : List (BitVec 128))
  | consumed (kind : Kind) (id : BitVec 128) (superseded : List (BitVec 128))
  | finished
  deriving DecidableEq, Repr

structure State where
  users : List Account
  tokens : Kind → List SingleUseToken
  now : Int
  tasks : List Task

def State.set (s : State) (place : Nat) (task : Task) : State :=
  { s with tasks := s.tasks.set place task }

def State.start (s : State) (task : Task) : State := { s with tasks := s.tasks ++ [task] }

def State.setTokens (s : State) (kind : Kind) (tokens : List SingleUseToken) : State :=
  { s with tokens := Function.update s.tokens kind tokens }

def State.findById (s : State) (userId : UserId) : Option Account :=
  s.users.find? fun user => user.id = userId

def State.updateUser (s : State) (userId : UserId) (change : Account → Account) : State :=
  { s with users := Table.update s.users (fun user => user.id = userId) change }

/-- The tokens of an account that were inserted before another one of it. -/
def superseded : List SingleUseToken → List (BitVec 128)
  | [] => []
  | token :: later =>
    if later.any fun other => other.userId = token.userId then token.id :: superseded later
    else superseded later

section Steps

variable (out : Outside)

/-- What lies outside, at the time of the state. -/
def State.outside (s : State) : Outside := { out with now := s.now }

/-- The keys of the table refuse an id or a hash that it has. -/
def State.Refused (s : State) (kind : Kind) (drawn : DrawnToken) : Prop :=
  ∃ token ∈ s.tokens kind, token.id = drawn.id ∨ token.tokenHash = out.sha256 drawn.raw

instance (s : State) (kind : Kind) (drawn : DrawnToken) : Decidable (s.Refused out kind drawn) :=
  inferInstanceAs (Decidable (∃ _ ∈ _, _))

def insertToken (s : State) (kind : Kind) (userId : UserId) (drawn : DrawnToken) : State :=
  if s.Refused out kind drawn then s
  else s.setTokens kind (s.tokens kind ++ [issueToken (s.outside out) userId drawn kind.ttl])

/-- The account as the consumption of a token leaves it, unless the new password cannot be
hashed. -/
def changeAccount (s : State) (userId : UserId) : Consume → Except String State
  | .reset newPassword => match out.hashPassword newPassword with
    | .error err => .error err
    | .ok passwordHash => .ok <| s.updateUser userId fun user =>
      { user with passwordHash := passwordHash }
  | .verification => .ok <| s.updateUser userId fun user =>
    { user with status := { user.status with emailVerifiedAt := some s.now } }

/-- The next statement of a call. -/
def proceed (s : State) (place : Nat) (drawn : DrawnToken) : Task → State
  | .findByEmail email => match s.users.find? fun user => out.sameEmail user.email email with
    | none => s.set place .finished
    | some account =>
      if requireEnabled account then s.set place (.invalidateAll .reset account.id)
      else s.set place .finished
  | .findById userId => match s.findById userId with
    | none => s.set place .finished
    | some account =>
      if requireEnabled account then s.set place (.accountStatus userId)
      else s.set place .finished
  | .accountStatus userId => match s.findById userId with
    | none => s.set place .finished
    | some account =>
      if account.status.emailVerifiedAt.isSome then s.set place .finished
      else s.set place (.invalidateAll .verification userId)
  | .invalidateAll kind userId =>
    (s.setTokens kind (invalidateAll (s.outside out) userId (s.tokens kind))).set place
      (.insert kind userId)
  -- the call returns the new token
  | .insert kind userId => (insertToken out s kind userId drawn).set place .finished
  | .findValid consume rawToken superseded =>
    match findValid (s.outside out) rawToken (s.tokens consume.kind) with
    | none => s.set place .finished
    | some token => s.set place (.changeAccount consume token superseded)
  | .changeAccount consume token superseded => match changeAccount out s token.userId consume with
    | .error _ => s.set place .finished
    | .ok after => after.set place (.markUsed consume token superseded)
  -- how many rows it has marked is not looked at
  | .markUsed consume token superseded =>
    (s.setTokens consume.kind (markUsed (s.outside out) token.id (s.tokens consume.kind))).set place
      (.consumed consume.kind token.id superseded)
  | .consumed _ _ _ => s
  | .finished => s

/-- The steps that name a call do so by its place. -/
inductive Step where
  | requestReset (email : String)
  | requestVerification (userId : UserId)
  | consumeReset (rawToken newPassword : String)
  | consumeVerification (rawToken : String)
  | signup (account : Account)
  | setStatus (userId : UserId) (status : AccountStatus)
  | wait (seconds : Nat)
  | proceed (place : Nat) (drawn : DrawnToken)
  | fails (place : Nat)
  deriving DecidableEq, Repr

def startConsume (s : State) (consume : Consume) (rawToken : String) : State :=
  s.start (.findValid consume rawToken (superseded (s.tokens consume.kind)))

def step (s : State) : Step → State
  | .requestReset email => s.start (.findByEmail email)
  | .requestVerification userId => s.start (.findById userId)
  | .consumeReset rawToken newPassword =>
    if newPassword = "" then s else startConsume s (.reset newPassword) rawToken
  | .consumeVerification rawToken => startConsume s .verification rawToken
  | .signup account => { s with users := s.users ++ [account] }
  | .setStatus userId status => s.updateUser userId fun user => { user with status := status }
  | .wait seconds => { s with now := s.now + seconds }
  | .proceed place drawn => match s.tasks[place]? with
    | none => s
    | some task => proceed out s place drawn task
  -- a call that has returned does not fail any more
  | .fails place => match s.tasks[place]? with
    | none => s
    | some (.consumed _ _ _) => s
    | some _ => s.set place .finished

end Steps

/-! ## What has to hold -/

/-- A token that is not used and has not expired. -/
def Live (now : Int) (token : SingleUseToken) : Prop := token.usedAt = none ∧ now < token.expiresAt

instance (now : Int) (token : SingleUseToken) : Decidable (Live now token) :=
  inferInstanceAs (Decidable (_ ∧ _))

/-- How many tokens of an account could be consumed. -/
def State.liveTokens (s : State) (kind : Kind) (userId : UserId) : Nat :=
  (s.tokens kind).countP fun token => token.userId = userId ∧ Live s.now token

def Task.consumes (kind : Kind) (id : BitVec 128) : Task → Bool
  | .consumed otherKind other _ => otherKind = kind ∧ other = id
  | _ => false

/-- How many consumptions of a token have succeeded. -/
def State.timesConsumed (s : State) (kind : Kind) (id : BitVec 128) : Nat :=
  s.tasks.countP (Task.consumes kind id)

/-- A token is consumed once, an account has one that could be, and no consumption has succeeded
with a token that was superseded when it started. -/
structure SingleUse (s : State) : Prop where
  once : ∀ kind id, s.timesConsumed kind id ≤ 1
  oneLive : ∀ kind userId, s.liveTokens kind userId ≤ 1
  newest : ∀ kind id superseded, .consumed kind id superseded ∈ s.tasks → id ∉ superseded

def State.Unused (s : State) (kind : Kind) (id : BitVec 128) : Prop :=
  ∃ token ∈ s.tokens kind, token.id = id ∧ token.usedAt = none

instance (s : State) (kind : Kind) (id : BitVec 128) : Decidable (s.Unused kind id) :=
  inferInstanceAs (Decidable (∃ _ ∈ _, _))

/-- A token is inserted for an account that has none that could be consumed, and marked by a
consumption while it is still unused, or, if a request has used it up, while no other consumption
has marked it. -/
def TaskFits (out : Outside) (s : State) (drawn : DrawnToken) : Task → Prop
  | .insert kind userId => s.Refused out kind drawn ∨ s.liveTokens kind userId = 0
  | .markUsed consume token _ =>
    s.Unused consume.kind token.id ∨ s.timesConsumed consume.kind token.id = 0
  | _ => True

def StepFits (out : Outside) (s : State) : Step → Prop
  | .proceed place drawn => ∀ task, s.tasks[place]? = some task → TaskFits out s drawn task
  | _ => True

instance decidableTaskFits (out : Outside) (s : State) (drawn : DrawnToken) :
    (task : Task) → Decidable (TaskFits out s drawn task)
  | .insert _ _ => inferInstanceAs (Decidable (_ ∨ _))
  | .markUsed _ _ _ => inferInstanceAs (Decidable (_ ∨ _))
  | .findByEmail _ => isTrue trivial
  | .findById _ => isTrue trivial
  | .accountStatus _ => isTrue trivial
  | .invalidateAll _ _ => isTrue trivial
  | .findValid _ _ _ => isTrue trivial
  | .changeAccount _ _ _ => isTrue trivial
  | .consumed _ _ _ => isTrue trivial
  | .finished => isTrue trivial

instance decidableStepFits (out : Outside) (s : State) : (a : Step) → Decidable (StepFits out s a)
  | .proceed place drawn =>
    inferInstanceAs (Decidable (∀ task ∈ s.tasks[place]?, TaskFits out s drawn task))
  | .requestReset _ => isTrue trivial
  | .requestVerification _ => isTrue trivial
  | .consumeReset _ _ => isTrue trivial
  | .consumeVerification _ => isTrue trivial
  | .signup _ => isTrue trivial
  | .setStatus _ _ => isTrue trivial
  | .wait _ => isTrue trivial
  | .fails _ => isTrue trivial

/-- Nothing has been requested yet. -/
def installed (users : List Account) (now : Int) : State := ⟨users, fun _ => [], now, []⟩

/-! ## Tokens that are used up -/

section Tokens

variable {tokens : List SingleUseToken} {new : SingleUseToken} {id : BitVec 128} {now : Int}

theorem id_mem_of_mem_superseded (h : id ∈ superseded tokens) :
    id ∈ tokens.map SingleUseToken.id := by
  induction tokens with
  | nil => exact h
  | cons token later ih =>
    rw [superseded] at h
    split at h
    · rcases List.mem_cons.1 h with rfl | hlater
      · exact List.mem_cons_self
      · exact List.mem_cons_of_mem _ (ih hlater)
    · exact List.mem_cons_of_mem _ (ih h)

/-- A new token supersedes the tokens of its account. -/
theorem mem_superseded_append :
    id ∈ superseded (tokens ++ [new]) ↔
      id ∈ superseded tokens ∨ ∃ token ∈ tokens, token.id = id ∧ token.userId = new.userId := by
  induction tokens with
  | nil => simp [superseded]
  | cons token later ih =>
    simp only [List.cons_append, superseded, List.any_append, List.any_cons, List.any_nil,
      Bool.or_false, List.mem_cons, exists_eq_or_imp]
    by_cases hlater : later.any fun other => other.userId = token.userId
    · simp only [hlater, Bool.true_or, if_true, List.mem_cons, ih]
      grind
    · by_cases hnew : new.userId = token.userId
      · simp only [hlater, hnew, decide_true, Bool.or_true, if_true, List.mem_cons, ih]
        grind
      · have hne : ¬ token.userId = new.userId := fun h => hnew h.symm
        simp only [hlater, hnew, decide_false, Bool.or_false, Bool.false_eq_true, if_false, ih, hne]
        grind

/-- What a statement does that uses tokens up. -/
structure Spends (f : SingleUseToken → SingleUseToken) : Prop where
  id : ∀ token, (f token).id = token.id
  userId : ∀ token, (f token).userId = token.userId
  expiresAt : ∀ token, (f token).expiresAt = token.expiresAt
  usedAt : ∀ token, token.usedAt ≠ none → (f token).usedAt ≠ none

variable {f : SingleUseToken → SingleUseToken}

theorem Spends.ite (selected : SingleUseToken → Bool) (now : Int) :
    Spends fun token => if selected token then { token with usedAt := some now } else token := by
  constructor
  · intro token
    split <;> rfl
  · intro token
    split <;> rfl
  · intro token
    split <;> rfl
  · intro token hused
    split
    · nofun
    · exact hused

theorem Spends.map_id (hf : Spends f) :
    (tokens.map f).map SingleUseToken.id = tokens.map SingleUseToken.id := by
  rw [List.map_map]
  exact List.map_congr_left fun token _ => hf.id token

theorem Spends.superseded (hf : Spends f) : superseded (tokens.map f) = superseded tokens := by
  induction tokens with
  | nil => rfl
  | cons token later ih =>
    simp only [List.map_cons, LinkTokens.superseded, ih, hf.id, hf.userId, List.any_map,
      Function.comp_def]

theorem Spends.live (hf : Spends f) {token : SingleUseToken} (h : Live now (f token)) :
    Live now token := by
  refine ⟨?_, hf.expiresAt token ▸ h.2⟩
  by_contra hused
  exact hf.usedAt token hused h.1

end Tokens

/-! ## What every run keeps -/

/-- What a call that is under way relies on. -/
def TaskInv (s : State) : Task → Prop
  | .findValid consume _ old => ∀ id ∈ old, id ∈ superseded (s.tokens consume.kind)
  | .changeAccount consume token old | .markUsed consume token old =>
    token.id ∈ (s.tokens consume.kind).map SingleUseToken.id ∧ token.id ∉ old
  | .consumed kind id old =>
    (∃ token ∈ s.tokens kind, token.id = id ∧ token.usedAt ≠ none) ∧ id ∉ old
  | _ => True

structure Inv (s : State) : Prop where
  ids : ∀ kind, Table.Keyed SingleUseToken.id (s.tokens kind)
  dead : ∀ kind, ∀ token ∈ s.tokens kind, token.id ∈ superseded (s.tokens kind) →
    ¬ Live s.now token
  tasks : ∀ task ∈ s.tasks, TaskInv s task

/-- The tables have only got older. -/
structure Grows (s s' : State) : Prop where
  superseded : ∀ kind, ∀ id ∈ superseded (s.tokens kind), id ∈ superseded (s'.tokens kind)
  ids : ∀ kind, ∀ id ∈ (s.tokens kind).map SingleUseToken.id,
    id ∈ (s'.tokens kind).map SingleUseToken.id
  used : ∀ kind id, (∃ token ∈ s.tokens kind, token.id = id ∧ token.usedAt ≠ none) →
    ∃ token ∈ s'.tokens kind, token.id = id ∧ token.usedAt ≠ none

section Keeps

variable {out : Outside} {s s' : State} {place : Nat} {task next : Task} {kind : Kind}
  {userId : UserId} {drawn : DrawnToken}

theorem TaskInv.grows (hgrows : Grows s s') (h : TaskInv s task) : TaskInv s' task := by
  cases task with
  | findValid consume rawToken old => exact fun id hid => hgrows.superseded _ id (h id hid)
  | changeAccount consume token old => exact ⟨hgrows.ids _ _ h.1, h.2⟩
  | markUsed consume token old => exact ⟨hgrows.ids _ _ h.1, h.2⟩
  | consumed kind id old => exact ⟨hgrows.used kind id h.1, h.2⟩
  | _ => trivial

theorem Inv.set (hinv : Inv s) (hnext : TaskInv s next) : Inv (s.set place next) where
  ids := hinv.ids
  dead := hinv.dead
  tasks := Tasks.forall_set (TaskInv s) hinv.tasks hnext

theorem Inv.start (hinv : Inv s) (hnext : TaskInv s next) : Inv (s.start next) where
  ids := hinv.ids
  dead := hinv.dead
  tasks := Tasks.forall_append_one (TaskInv s) hinv.tasks hnext

@[simp] theorem setTokens_tokens_self (tokens : List SingleUseToken) :
    (s.setTokens kind tokens).tokens kind = tokens := by
  simp [State.setTokens]

theorem setTokens_tokens_of_ne {other : Kind} (h : other ≠ kind) (tokens : List SingleUseToken) :
    (s.setTokens kind tokens).tokens other = s.tokens other := by
  simp [State.setTokens, h]

@[simp] theorem setTokens_now (tokens : List SingleUseToken) :
    (s.setTokens kind tokens).now = s.now := rfl

/-- Using tokens up keeps the invariant. -/
theorem grows_spend {f : SingleUseToken → SingleUseToken} (hf : Spends f) (kind : Kind) :
    Grows s (s.setTokens kind ((s.tokens kind).map f)) := by
  constructor
  · intro other id hid
    by_cases hother : other = kind
    · subst hother
      rwa [setTokens_tokens_self, hf.superseded]
    · rwa [setTokens_tokens_of_ne hother]
  · intro other id hid
    by_cases hother : other = kind
    · subst hother
      rwa [setTokens_tokens_self, hf.map_id]
    · rwa [setTokens_tokens_of_ne hother]
  · rintro other id ⟨token, htoken, hid, hused⟩
    by_cases hother : other = kind
    · subst hother
      rw [setTokens_tokens_self]
      exact ⟨f token, List.mem_map_of_mem htoken, (hf.id token).trans hid, hf.usedAt token hused⟩
    · rw [setTokens_tokens_of_ne hother]
      exact ⟨token, htoken, hid, hused⟩

theorem Inv.spend (hinv : Inv s) {f : SingleUseToken → SingleUseToken} (hf : Spends f)
    (kind : Kind) : Inv (s.setTokens kind ((s.tokens kind).map f)) := by
  constructor
  · intro other
    by_cases hother : other = kind
    · subst hother
      rw [setTokens_tokens_self, Table.Keyed, hf.map_id]
      exact hinv.ids other
    · rw [setTokens_tokens_of_ne hother]
      exact hinv.ids other
  · intro other token htoken hold hlive
    by_cases hother : other = kind
    · subst hother
      rw [setTokens_tokens_self] at htoken hold
      rw [hf.superseded] at hold
      obtain ⟨before, hbefore, rfl⟩ := List.mem_map.1 htoken
      rw [hf.id] at hold
      exact hinv.dead other before hbefore hold (hf.live hlive)
    · rw [setTokens_tokens_of_ne hother] at htoken hold
      exact hinv.dead other token htoken hold hlive
  · intro task htask
    exact (hinv.tasks task htask).grows (grows_spend hf kind)

theorem liveTokens_spend {f : SingleUseToken → SingleUseToken} (hf : Spends f) (kind other : Kind)
    (userId : UserId) :
    (s.setTokens kind ((s.tokens kind).map f)).liveTokens other userId ≤
      s.liveTokens other userId := by
  by_cases hother : other = kind
  · subst hother
    simp only [State.liveTokens, setTokens_tokens_self, List.countP_map]
    refine List.countP_mono_left fun token _ h => ?_
    simp only [Function.comp, decide_eq_true_eq, hf.userId] at h ⊢
    exact ⟨h.1, hf.live h.2⟩
  · simp only [State.liveTokens, setTokens_tokens_of_ne hother]
    exact le_rfl

/-- A new token can be consumed. -/
theorem live_issueToken (s : State) (out : Outside) (userId : UserId) (drawn : DrawnToken)
    (kind : Kind) : Live s.now (issueToken (s.outside out) userId drawn kind.ttl) := by
  refine ⟨rfl, ?_⟩
  show s.now < s.now + kind.ttl
  cases kind with
  | reset =>
    show s.now < s.now + 3600
    omega
  | verification =>
    show s.now < s.now + 24 * 3600
    omega

/-- Who inserts a token that the table does not refuse adds one that could be consumed. -/
theorem liveTokens_insertToken (hfree : ¬ s.Refused out kind drawn) (userId other : UserId)
    (otherKind : Kind) :
    (insertToken out s kind userId drawn).liveTokens otherKind other =
      s.liveTokens otherKind other + if otherKind = kind ∧ userId = other then 1 else 0 := by
  rw [insertToken, if_neg hfree]
  by_cases hkind : otherKind = kind
  · subst hkind
    have hlive := live_issueToken s out userId drawn otherKind
    have huser : (issueToken (s.outside out) userId drawn otherKind.ttl).userId = userId := rfl
    simp only [State.liveTokens, setTokens_tokens_self, List.countP_append, List.countP_singleton]
    congr 1
    show (if decide ((issueToken (s.outside out) userId drawn otherKind.ttl).userId = other ∧
      Live s.now (issueToken (s.outside out) userId drawn otherKind.ttl)) = true then 1 else 0) = _
    simp [hlive, huser]
  · simp only [State.liveTokens, setTokens_tokens_of_ne hkind, setTokens_now]
    rw [if_neg fun h => hkind h.1, Nat.add_zero]
    rfl

theorem grows_insertToken (userId : UserId) : Grows s (insertToken out s kind userId drawn) := by
  rw [insertToken]
  split
  · exact ⟨fun _ _ h => h, fun _ _ h => h, fun _ _ h => h⟩
  constructor
  · intro other id hid
    by_cases hother : other = kind
    · subst hother
      rw [setTokens_tokens_self]
      exact mem_superseded_append.2 (.inl hid)
    · rwa [setTokens_tokens_of_ne hother]
  · intro other id hid
    by_cases hother : other = kind
    · subst hother
      rw [setTokens_tokens_self, List.map_append]
      exact List.mem_append_left _ hid
    · rwa [setTokens_tokens_of_ne hother]
  · rintro other id ⟨token, htoken, hused⟩
    by_cases hother : other = kind
    · subst hother
      rw [setTokens_tokens_self]
      exact ⟨token, List.mem_append_left _ htoken, hused⟩
    · rw [setTokens_tokens_of_ne hother]
      exact ⟨token, htoken, hused⟩

/-- A new token supersedes tokens that could not be consumed any more. -/
theorem Inv.insertToken (hinv : Inv s)
    (hfits : s.Refused out kind drawn ∨ s.liveTokens kind userId = 0) :
    Inv (insertToken out s kind userId drawn) := by
  have hgrows : Grows s (LinkTokens.insertToken out s kind userId drawn) := grows_insertToken userId
  rw [LinkTokens.insertToken] at hgrows ⊢
  split
  · exact hinv
  rename_i hfree
  rw [if_neg hfree] at hgrows
  have hnone := hfits.resolve_left hfree
  have hnew : drawn.id ∉ (s.tokens kind).map SingleUseToken.id := by
    intro hmem
    obtain ⟨token, htoken, hid⟩ := List.mem_map.1 hmem
    exact hfree ⟨token, htoken, .inl hid⟩
  constructor
  · intro other
    by_cases hother : other = kind
    · subst hother
      rw [setTokens_tokens_self]
      exact Table.Keyed.append (hinv.ids other) hnew
    · rw [setTokens_tokens_of_ne hother]
      exact hinv.ids other
  · intro other token htoken hold hlive
    by_cases hother : other = kind
    · subst hother
      rw [setTokens_tokens_self] at htoken hold
      rcases List.mem_append.1 htoken with hbefore | hlast
      · rcases mem_superseded_append.1 hold with hold | ⟨row, hrow, hid, huser⟩
        · exact hinv.dead other token hbefore hold hlive
        · -- the token is of the account, which has none that could be consumed
          obtain rfl := List.inj_on_of_nodup_map (hinv.ids other) hrow hbefore hid
          exact (List.countP_eq_zero.1 hnone) row hrow (decide_eq_true ⟨huser, hlive⟩)
      · rw [List.mem_singleton.1 hlast] at hold
        rcases mem_superseded_append.1 hold with hold | ⟨row, hrow, hid, -⟩
        · exact hnew (id_mem_of_mem_superseded hold)
        · exact hnew (List.mem_map.2 ⟨row, hrow, hid⟩)
    · rw [setTokens_tokens_of_ne hother] at htoken hold
      exact hinv.dead other token htoken hold hlive
  · intro task htask
    exact (hinv.tasks task htask).grows hgrows

/-- The look-up of a consumption finds no token that was superseded when it started. -/
theorem taskInv_findValid (hinv : Inv s) {consume : Consume} {rawToken : String}
    {old : List (BitVec 128)} {token : SingleUseToken}
    (htask : TaskInv s (.findValid consume rawToken old))
    (hfound : findValid (s.outside out) rawToken (s.tokens consume.kind) = some token) :
    TaskInv s (.changeAccount consume token old) := by
  have hmem := List.mem_of_find?_eq_some hfound
  have hvalid := List.find?_some hfound
  simp only [decide_eq_true_eq] at hvalid
  refine ⟨List.mem_map_of_mem hmem, fun hold => ?_⟩
  exact hinv.dead consume.kind token hmem (htask token.id hold) hvalid.2

theorem changeAccount_frame {consume : Consume} (h : changeAccount out s userId consume = .ok s') :
    ∃ users, s' = { s with users := users } := by
  cases consume with
  | verification => exact ⟨_, (Except.ok.inj h).symm⟩
  | reset newPassword =>
    simp only [changeAccount] at h
    split at h
    · cases h
    · exact ⟨_, (Except.ok.inj h).symm⟩

/-- The row that a consumption marks is used afterwards. -/
theorem used_markUsed {id : BitVec 128} (hid : id ∈ (s.tokens kind).map SingleUseToken.id) :
    ∃ token ∈ markUsed (s.outside out) id (s.tokens kind),
      token.id = id ∧ token.usedAt ≠ none := by
  obtain ⟨token, htoken, rfl⟩ := List.mem_map.1 hid
  refine ⟨_, List.mem_map_of_mem htoken, ?_, ?_⟩
  · exact (Spends.ite (fun other => other.id = token.id && other.usedAt.isNone) s.now).id token
  · cases hused : token.usedAt with
    | none => simp [hused]
    | some usedAt => simp [hused]

/-- What a request looks up before it uses up any token. -/
def Task.looksUp : Task → Bool
  | .findByEmail _ => true
  | .findById _ => true
  | .accountStatus _ => true
  | _ => false

/-- A look-up changes nothing but what the call does next. -/
theorem proceed_lookUp (out : Outside) (s : State) (place : Nat) (drawn : DrawnToken)
    (h : task.looksUp = true) :
    ∃ next, proceed out s place drawn task = s.set place next ∧ TaskInv s next ∧
      ∀ kind id, next.consumes kind id = false := by
  cases task with
  | findByEmail email =>
    simp only [proceed]
    split
    · exact ⟨.finished, rfl, trivial, fun _ _ => rfl⟩
    · split
      · exact ⟨_, rfl, trivial, fun _ _ => rfl⟩
      · exact ⟨.finished, rfl, trivial, fun _ _ => rfl⟩
  | findById userId =>
    simp only [proceed]
    split
    · exact ⟨.finished, rfl, trivial, fun _ _ => rfl⟩
    · split
      · exact ⟨_, rfl, trivial, fun _ _ => rfl⟩
      · exact ⟨.finished, rfl, trivial, fun _ _ => rfl⟩
  | accountStatus userId =>
    simp only [proceed]
    split
    · exact ⟨.finished, rfl, trivial, fun _ _ => rfl⟩
    · split
      · exact ⟨.finished, rfl, trivial, fun _ _ => rfl⟩
      · exact ⟨_, rfl, trivial, fun _ _ => rfl⟩
  | _ => cases h

/-- A statement that fits keeps the invariant. -/
theorem inv_proceed (hinv : Inv s) (htask : TaskInv s task) (hfits : TaskFits out s drawn task) :
    Inv (proceed out s place drawn task) := by
  have hlookUp (h : task.looksUp = true) := proceed_lookUp out s place drawn h
  cases task with
  | findByEmail | findById | accountStatus =>
    obtain ⟨next, hproceed, hnext, -⟩ := hlookUp rfl
    rw [hproceed]
    exact hinv.set hnext
  | invalidateAll kind userId => exact (hinv.spend (Spends.ite _ _) kind).set trivial
  | insert kind userId => exact (hinv.insertToken hfits).set trivial
  | findValid consume rawToken old =>
    simp only [proceed]
    cases hfound : findValid (s.outside out) rawToken (s.tokens consume.kind) with
    | none => exact hinv.set trivial
    | some token => exact hinv.set (taskInv_findValid hinv htask hfound)
  | changeAccount consume token old =>
    simp only [proceed]
    cases hchange : changeAccount out s token.userId consume with
    | error err => exact hinv.set trivial
    | ok after =>
      obtain ⟨users, rfl⟩ := changeAccount_frame hchange
      exact Inv.set ⟨hinv.ids, hinv.dead, hinv.tasks⟩ htask
  | markUsed consume token old =>
    apply (hinv.spend (Spends.ite _ _) consume.kind).set
    refine ⟨?_, htask.2⟩
    rw [setTokens_tokens_self]
    exact used_markUsed htask.1
  | consumed kind id old => exact hinv
  | finished => exact hinv

theorem Inv.fails (hinv : Inv s) : Inv (step out s (.fails place)) := by
  simp only [step]
  split
  · exact hinv
  · exact hinv
  · exact hinv.set trivial

/-- A step that fits keeps the invariant. -/
theorem inv_step (hinv : Inv s) {a : Step} (hfits : StepFits out s a) : Inv (step out s a) := by
  cases a with
  | requestReset email => exact hinv.start trivial
  | requestVerification userId => exact hinv.start trivial
  | consumeReset rawToken newPassword =>
    simp only [step]
    split
    · exact hinv
    · exact hinv.start fun _ hid => hid
  | consumeVerification rawToken => exact hinv.start fun _ hid => hid
  | signup account => exact ⟨hinv.ids, hinv.dead, hinv.tasks⟩
  | setStatus userId status => exact ⟨hinv.ids, hinv.dead, hinv.tasks⟩
  | wait seconds =>
    refine ⟨hinv.ids, fun kind token htoken hold hlive => ?_, hinv.tasks⟩
    have hlater : s.now + seconds < token.expiresAt := hlive.2
    exact hinv.dead kind token htoken hold ⟨hlive.1, by omega⟩
  | fails place => exact hinv.fails
  | proceed place drawn =>
    simp only [step]
    cases htask : s.tasks[place]? with
    | none => exact hinv
    | some task =>
      exact inv_proceed hinv (hinv.tasks task (List.mem_of_getElem? htask)) (hfits task htask)

/-! ### How often a token is consumed -/

/-- A call that is under way is replaced by its next statement. -/
theorem timesConsumed_set (htask : s.tasks[place]? = some task)
    (hopen : ∀ kind id, task.consumes kind id = false) (hsame : s'.tasks = s.tasks) (kind : Kind)
    (id : BitVec 128) :
    (s'.set place next).timesConsumed kind id =
      s.timesConsumed kind id + (next.consumes kind id).toNat := by
  have hcount : (s.tasks.set place next).countP (Task.consumes kind id) +
      (task.consumes kind id).toNat =
        s.tasks.countP (Task.consumes kind id) + (next.consumes kind id).toNat :=
    Tasks.countP_set (Task.consumes kind id) htask
  rw [hopen, Bool.toNat_false, Nat.add_zero] at hcount
  rw [State.timesConsumed, State.set, hsame]
  exact hcount

theorem timesConsumed_start (hopen : ∀ kind id, next.consumes kind id = false) (kind : Kind)
    (id : BitVec 128) : (s.start next).timesConsumed kind id = s.timesConsumed kind id := by
  rw [State.timesConsumed, State.start, Tasks.countP_append_one, hopen]
  rfl

/-- The consumption that marks a token is one more that succeeds with it. -/
def Task.marks (kind : Kind) (id : BitVec 128) : Task → Bool
  | .markUsed consume token _ => consume.kind = kind ∧ token.id = id
  | _ => false

theorem timesConsumed_proceed (htask : s.tasks[place]? = some task) (kind : Kind)
    (id : BitVec 128) :
    (proceed out s place drawn task).timesConsumed kind id =
      s.timesConsumed kind id + (task.marks kind id).toNat := by
  have hlookUp (h : task.looksUp = true) := proceed_lookUp out s place drawn h
  cases task with
  | findByEmail | findById | accountStatus =>
    obtain ⟨next, hproceed, -, hnext⟩ := hlookUp rfl
    rw [hproceed, timesConsumed_set htask (fun _ _ => rfl) rfl kind id, hnext]
    rfl
  | invalidateAll other userId => exact timesConsumed_set htask (fun _ _ => rfl) rfl kind id
  | insert other userId =>
    apply timesConsumed_set htask (fun _ _ => rfl)
    rw [insertToken]
    split <;> rfl
  | findValid consume rawToken old =>
    simp only [proceed]
    split <;> exact timesConsumed_set htask (fun _ _ => rfl) rfl kind id
  | changeAccount consume token old =>
    simp only [proceed]
    cases hchange : changeAccount out s token.userId consume with
    | error err => exact timesConsumed_set htask (fun _ _ => rfl) rfl kind id
    | ok after =>
      obtain ⟨users, rfl⟩ := changeAccount_frame hchange
      exact timesConsumed_set htask (fun _ _ => rfl) rfl kind id
  | markUsed consume token old => exact timesConsumed_set htask (fun _ _ => rfl) rfl kind id
  | consumed other otherId old => rfl
  | finished => rfl

/-- Nobody has consumed a token that is unused. -/
theorem timesConsumed_of_unused (hinv : Inv s) {id : BitVec 128} (hunused : s.Unused kind id) :
    s.timesConsumed kind id = 0 := by
  obtain ⟨token, htoken, hid, hnone⟩ := hunused
  refine List.countP_eq_zero.2 fun task htask hconsumes => ?_
  cases task with
  | consumed other otherId old =>
    obtain ⟨rfl, rfl⟩ : other = kind ∧ otherId = id := of_decide_eq_true hconsumes
    obtain ⟨⟨used, husedMem, husedId, hused⟩, -⟩ := hinv.tasks _ htask
    obtain rfl := List.inj_on_of_nodup_map (hinv.ids other) husedMem htoken (husedId.trans hid.symm)
    exact hused hnone
  | _ => cases hconsumes

/-- No other statement than an insert adds a token that could be consumed. -/
theorem liveTokens_proceed (hinsert : ∀ kind userId, task ≠ .insert kind userId) (other : Kind)
    (otherId : UserId) :
    (proceed out s place drawn task).liveTokens other otherId ≤ s.liveTokens other otherId := by
  have hlookUp (h : task.looksUp = true) := proceed_lookUp out s place drawn h
  cases task with
  | findByEmail | findById | accountStatus =>
    obtain ⟨next, hproceed, -, -⟩ := hlookUp rfl
    rw [hproceed]
    exact le_rfl
  | invalidateAll kind userId =>
    have hspends := Spends.ite (fun token => token.userId = userId && token.usedAt.isNone) s.now
    exact liveTokens_spend (s := s) hspends kind other otherId
  | insert kind userId => exact absurd rfl (hinsert kind userId)
  | findValid consume rawToken old =>
    simp only [proceed]
    split <;> exact le_rfl
  | changeAccount consume token old =>
    simp only [proceed]
    cases hchange : changeAccount out s token.userId consume with
    | error err => exact le_rfl
    | ok after =>
      obtain ⟨users, rfl⟩ := changeAccount_frame hchange
      exact le_rfl
  | markUsed consume token old =>
    have hspends := Spends.ite (fun row => row.id = token.id && row.usedAt.isNone) s.now
    exact liveTokens_spend (s := s) hspends consume.kind other otherId
  | consumed kind id old => exact le_rfl
  | finished => exact le_rfl

/-- The invariant says that no superseded token is consumed. -/
theorem SingleUse.of_inv (hinv : Inv s) (honce : ∀ kind id, s.timesConsumed kind id ≤ 1)
    (hlive : ∀ kind userId, s.liveTokens kind userId ≤ 1) : SingleUse s :=
  ⟨honce, hlive, fun _ _ _ htask => (hinv.tasks _ htask).2⟩

theorem singleUse_insert (hinv : Inv s) (hsingle : SingleUse s)
    (htask : s.tasks[place]? = some (.insert kind userId)) :
    SingleUse (proceed out s place drawn (.insert kind userId)) ↔
      TaskFits out s drawn (.insert kind userId) := by
  have hflight : TaskInv s (.insert kind userId) := trivial
  by_cases hrefused : s.Refused out kind drawn
  · refine iff_of_true (.of_inv (inv_proceed hinv hflight (.inl hrefused)) ?_ ?_) (.inl hrefused)
    · intro other id
      rw [timesConsumed_proceed htask]
      exact hsingle.once other id
    · intro other otherId
      simp only [proceed, insertToken, if_pos hrefused]
      exact hsingle.oneLive other otherId
  · have hcount (other : Kind) (otherId : UserId) :
        (proceed out s place drawn (.insert kind userId)).liveTokens other otherId =
          s.liveTokens other otherId + if other = kind ∧ userId = otherId then 1 else 0 :=
      liveTokens_insertToken hrefused userId otherId other
    constructor
    · intro hafter
      have hone := hafter.oneLive kind userId
      rw [hcount, if_pos ⟨rfl, rfl⟩] at hone
      exact .inr (by omega)
    · intro hfits
      have hnone := hfits.resolve_left hrefused
      apply SingleUse.of_inv (inv_proceed hinv hflight hfits)
      · intro other id
        rw [timesConsumed_proceed htask]
        exact hsingle.once other id
      · intro other otherId
        rw [hcount]
        split
        · rename_i hsame
          obtain ⟨rfl, rfl⟩ := hsame
          omega
        · exact hsingle.oneLive other otherId

theorem singleUse_markUsed (hinv : Inv s) (hsingle : SingleUse s) {consume : Consume}
    {token : SingleUseToken} {old : List (BitVec 128)}
    (htask : s.tasks[place]? = some (.markUsed consume token old)) :
    SingleUse (proceed out s place drawn (.markUsed consume token old)) ↔
      TaskFits out s drawn (.markUsed consume token old) := by
  have hcount (kind : Kind) (id : BitVec 128) :
      (proceed out s place drawn (.markUsed consume token old)).timesConsumed kind id =
        s.timesConsumed kind id + (Task.marks kind id (.markUsed consume token old)).toNat :=
    timesConsumed_proceed htask kind id
  constructor
  · intro hafter
    have hone := hafter.once consume.kind token.id
    rw [hcount] at hone
    simp only [Task.marks, and_self, decide_true, Bool.toNat_true] at hone
    exact .inr (by omega)
  · intro hfits
    have hzero : s.timesConsumed consume.kind token.id = 0 := by
      rcases hfits with hunused | hzero
      · exact timesConsumed_of_unused hinv hunused
      · exact hzero
    have hflight := hinv.tasks _ (List.mem_of_getElem? htask)
    apply SingleUse.of_inv (inv_proceed hinv hflight hfits)
    · intro kind id
      rw [hcount]
      by_cases hsame : consume.kind = kind ∧ token.id = id
      · obtain ⟨rfl, rfl⟩ := hsame
        simp [Task.marks, hzero]
      · simpa [Task.marks, hsame] using hsingle.once kind id
    · intro kind userId
      refine le_trans (liveTokens_proceed ?_ kind userId) (hsingle.oneLive kind userId)
      exact nofun

/-- A statement keeps the guarantees exactly when it fits. -/
theorem singleUse_proceed (hinv : Inv s) (hsingle : SingleUse s)
    (htask : s.tasks[place]? = some task) :
    SingleUse (proceed out s place drawn task) ↔ TaskFits out s drawn task := by
  have hquiet (hmarks : ∀ kind id, task.marks kind id = false)
      (hinsert : ∀ kind userId, task ≠ .insert kind userId) (hfits : TaskFits out s drawn task) :
      SingleUse (proceed out s place drawn task) := by
    have hflight := hinv.tasks task (List.mem_of_getElem? htask)
    apply SingleUse.of_inv (inv_proceed hinv hflight hfits)
    · intro kind id
      rw [timesConsumed_proceed htask, hmarks]
      exact hsingle.once kind id
    · intro kind userId
      exact (liveTokens_proceed hinsert kind userId).trans (hsingle.oneLive kind userId)
  cases task with
  | insert kind userId => exact singleUse_insert hinv hsingle htask
  | markUsed consume token old => exact singleUse_markUsed hinv hsingle htask
  | _ => exact iff_of_true (hquiet (fun _ _ => rfl) nofun trivial) trivial

/-- So does a step. -/
theorem singleUse_step (hinv : Inv s) (hsingle : SingleUse s) (a : Step) :
    SingleUse (step out s a) ↔ StepFits out s a := by
  have hstart (next : Task) (hnext : TaskInv s next)
      (hopen : ∀ kind id, next.consumes kind id = false) : SingleUse (s.start next) := by
    apply SingleUse.of_inv (hinv.start hnext)
    · intro kind id
      rw [timesConsumed_start hopen]
      exact hsingle.once kind id
    · exact hsingle.oneLive
  cases a with
  | requestReset email => exact iff_of_true (hstart _ trivial fun _ _ => rfl) trivial
  | requestVerification userId => exact iff_of_true (hstart _ trivial fun _ _ => rfl) trivial
  | consumeReset rawToken newPassword =>
    refine iff_of_true ?_ trivial
    simp only [step]
    split
    · exact hsingle
    · exact hstart _ (fun _ hid => hid) fun _ _ => rfl
  | consumeVerification rawToken =>
    exact iff_of_true (hstart _ (fun _ hid => hid) fun _ _ => rfl) trivial
  | signup account => exact iff_of_true ⟨hsingle.once, hsingle.oneLive, hsingle.newest⟩ trivial
  | setStatus userId status =>
    exact iff_of_true ⟨hsingle.once, hsingle.oneLive, hsingle.newest⟩ trivial
  | wait seconds =>
    refine iff_of_true ⟨hsingle.once, fun kind userId => ?_, hsingle.newest⟩ trivial
    refine le_trans (List.countP_mono_left fun token _ h => ?_) (hsingle.oneLive kind userId)
    simp only [decide_eq_true_eq] at h ⊢
    obtain ⟨huser, hunused, hexpires⟩ := h
    have hlater : s.now + seconds < token.expiresAt := hexpires
    exact ⟨huser, hunused, by omega⟩
  | fails place =>
    refine iff_of_true (.of_inv hinv.fails (fun kind id => ?_) fun kind userId => ?_) trivial
    · simp only [step]
      split
      · exact hsingle.once kind id
      · exact hsingle.once kind id
      · rename_i task hdone htask
        rw [timesConsumed_set htask _ rfl]
        · exact hsingle.once kind id
        · intro kind id
          cases task with
          | consumed other otherId old => exact absurd rfl (hdone other otherId old)
          | _ => rfl
    · simp only [step]
      split <;> exact hsingle.oneLive kind userId
  | proceed place drawn =>
    simp only [step, StepFits]
    cases htask : s.tasks[place]? with
    | none => exact iff_of_true hsingle nofun
    | some task =>
      simp only [Option.some.injEq, forall_eq']
      exact singleUse_proceed hinv hsingle htask

end Keeps

theorem inv_installed (users : List Account) (now : Int) : Inv (installed users now) where
  ids _ := List.nodup_nil
  dead _ _ htoken := absurd htoken List.not_mem_nil
  tasks _ htask := absurd htask List.not_mem_nil

theorem singleUse_installed (users : List Account) (now : Int) : SingleUse (installed users now) :=
  .of_inv (inv_installed users now) (fun _ _ => Nat.zero_le 1) fun _ _ => Nat.zero_le 1

/-- In every run, each token is consumed once and each account has one that could be, the newest,
exactly when no request inserts a token beside one that could still be consumed and no consumption
marks a token that another one has marked since it was looked up. -/
theorem singleUse_iff (out : Outside) (users : List Account) (now : Int) (steps : List Step) :
    (∀ earlier later, steps = earlier ++ later →
        SingleUse (Runs.run (step out) (installed users now) earlier)) ↔
      Runs.Throughout (step out) (StepFits out) (installed users now) steps := by
  apply Runs.always_iff_throughout (I := Inv)
  · intro s a hinv hsingle hafter
    exact inv_step hinv ((singleUse_step hinv hsingle a).1 hafter)
  · intro s a hinv hsingle
    exact singleUse_step hinv hsingle a
  · exact inv_installed users now
  · exact singleUse_installed users now

/-! ### Tokens that are used twice -/

/-- Hashes and folds nothing. -/
def plainOutside : Outside where
  sameEmail a b := a == b
  sameName a b := a == b
  verifyPassword password passwordHash := password == passwordHash
  hashPassword password := .ok password
  sha256 text := text
  totpAccepts _ _ _ := .ok false
  pendingToken _ := ""
  pendingUser _ := none
  ceremonyChallenge _ _ := none
  checkAssertion _ _ _ := none
  decodeBase64 _ := none
  throttle _ _ := .ok ()
  now := 0

def ada : Account := ⟨1, "ada", "ada@edda.dev", "tulip", ⟨none, some 10, some 10⟩⟩

/-- Three statements of a call. -/
def threeStatements (place : Nat) (drawn : DrawnToken) : List Step :=
  List.replicate 3 (.proceed place drawn)

/-- A token that two consumptions look up before either marks it. -/
def consumedTwice : List Step :=
  .requestReset "ada@edda.dev" :: threeStatements 0 ⟨7, "first"⟩ ++
    [.consumeReset "first" "rose", .consumeReset "first" "lily", .proceed 1 ⟨0, ""⟩] ++
    threeStatements 2 ⟨0, ""⟩ ++ threeStatements 1 ⟨0, ""⟩

/-- Two requests that use up the tokens before either inserts one. -/
def requestedTwice : List Step :=
  [.requestReset "ada@edda.dev", .requestReset "ada@edda.dev", .proceed 0 ⟨7, "first"⟩,
    .proceed 0 ⟨7, "first"⟩, .proceed 1 ⟨8, "second"⟩, .proceed 1 ⟨8, "second"⟩,
    .proceed 0 ⟨7, "first"⟩, .proceed 1 ⟨8, "second"⟩]

/-- Then the earlier of the two tokens is consumed. -/
def earlierConsumed : List Step :=
  requestedTwice ++ .consumeReset "first" "rose" :: threeStatements 2 ⟨0, ""⟩

theorem guarantees_are_lost :
    (Runs.run (step plainOutside) (installed [ada] 100) consumedTwice).timesConsumed .reset 7 = 2 ∧
      (Runs.run (step plainOutside) (installed [ada] 100) requestedTwice).liveTokens .reset 1 = 2 ∧
      .consumed .reset 7 [7] ∈
        (Runs.run (step plainOutside) (installed [ada] 100) earlierConsumed).tasks ∧
      ¬ ∀ earlier later, consumedTwice = earlier ++ later →
        SingleUse (Runs.run (step plainOutside) (installed [ada] 100) earlier) := by
  have htwice : (Runs.run (step plainOutside) (installed [ada] 100) consumedTwice).timesConsumed
      .reset 7 = 2 := by decide +kernel
  refine ⟨htwice, by decide +kernel, by decide +kernel, fun h => ?_⟩
  have honce := (h consumedTwice [] (by rw [List.append_nil])).once .reset 7
  omega

end Edda.Auth.LinkTokens
