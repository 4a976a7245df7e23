import Edda.App.PushTransports
import Edda.Git.Advertisement
import Edda.Ssh.Channel
import Edda.Ssh.Command
import Edda.Support.Slots

/-!
# An SSH connection

A client authenticates with a key, opens channels and asks for a git command on a channel. A command
that is granted puts the channel in a new state, whatever it was doing; one that is refused leaves
it as it is. A fetch is answered once the bytes behind its command are a complete request, a push is
run when the client closes its side of the channel.

`commands_run_exactly` says for every sequence of events, on any channels, what is run: a command
that was granted when it was asked for, to an account or a deploy key that had authenticated, with
the bytes that the channel has received since, all of them, and once.
-/

set_option autoImplicit false

namespace Edda.Ssh

open Edda.App Edda.Auth Edda.Db Edda.Domain Edda.Git Edda.Support.RustText Edda.Support.Runs

/-! ## Authentication -/

/-- The account that a key is registered for. -/
structure KeyHolder where
  id : UserId
  disabledAt : Option Int
  deriving DecidableEq, Repr

/-- What is read while an event is handled: the two tables of keys, the database, once for the access
and once for the receive checks, and the repositories. -/
structure Reads where
  findSshKey : String → Except DbError (Option KeyHolder)
  findDeployKey : String → Except DbError (Option (RepositoryId × Bool))
  access : Database
  checks : Database
  openRepoDir : String → Except GitError Repo

/-- `ssh::authenticate`. -/
def authenticateUser (reads : Reads) (fingerprint : String) : Option UserId :=
  match reads.findSshKey fingerprint with
  | .ok (some holder) => if holder.disabledAt.isSome then none else some holder.id
  | _ => none

/-- `deploy_keys::authenticate`. -/
def authenticateDeployKey (reads : Reads) (fingerprint : String) : Option (RepositoryId × Bool) :=
  match reads.findDeployKey fingerprint with
  | .ok resolved => resolved
  | .error _ => none

/-- A key that is registered as both counts for its user. -/
def authenticate (reads : Reads) (fingerprint : String) : Option ActorContext :=
  match authenticateUser reads fingerprint with
  | some userId => some (.user userId)
  | none => (authenticateDeployKey reads fingerprint).map fun (repositoryId, readOnly) =>
    .deployKey repositoryId readOnly

/-! ## The connection -/

structure Connection where
  actor : Option ActorContext
  channels : Channels

def Connection.new : Connection := ⟨none, ∅⟩

/-- A key is named by its fingerprint. -/
inductive Event where
  | authPublickey (fingerprint : String)
  | channelOpenSession (channel : ChannelId)
  | execRequest (channel : ChannelId) (command : Bytes)
  | data (channel : ChannelId) (chunk : Bytes)
  | channelEof (channel : ChannelId)
  | channelClose (channel : ChannelId)

/-- A push with what it was resolved with. -/
structure Push where
  identity : String
  body : Bytes
  checks : ReceiveChecks
  repositoryId : RepositoryId
  pusherId : Option UserId

/-- What a connection does besides keeping its state. -/
inductive Output where
  | accept
  | reject
  | channelFailure (channel : ChannelId)
  | fatal (channel : ChannelId) (message : String)
  | advertised (channel : ChannelId) (advertisement : Bytes)
  | answered (channel : ChannelId) (answer : Answer)
  | pushed (channel : ChannelId) (push : Push)

/-- Why a command is not granted: it is none, or the client is told that it failed. -/
inductive Refusal where
  | noCommand
  | fatal (message : String)

section Handler

variable (gix : Gix) (limits : GitLimits)

/-- The capabilities of a service. -/
def capabilitiesOf : Command.GitService → String
  | .uploadPack => uploadPackCapabilities
  | .receivePack => receivePackCapabilities

/-- The state that a command puts its channel in, and the advertisement that the client is sent. -/
def grant (reads : Reads) (actor : Option ActorContext) (command : Bytes) :
    Except Refusal (ChannelState × Bytes) :=
  match Command.parse command with
  | none => .error .noCommand
  | some command => match actor with
    | none => .error .noCommand
    | some actor => match repositoryByName reads.access command.owner command.name with
      | .error _ => .error (.fatal "repository not found")
      | .ok repository =>
        let accessCheck := match command.service with
          | .uploadPack => checkRead reads.access actor repository
          | .receivePack => checkWrite reads.access actor repository
        match accessCheck with
        | .error _ => .error (.fatal "repository not found")
        | .ok () =>
          let identity := command.owner ++ "/" ++ command.name
          match reads.openRepoDir identity with
          | .error err => .error (.fatal err.display)
          | .ok state =>
            let next := match command.service with
              | .uploadPack => .uploadPack identity []
              | .receivePack => .receivePack identity []
                (receiveChecksFor reads.checks actor repository limits) repository.id actor.userId
            .ok (next, buildRefAdvertisement gix state (capabilitiesOf command.service))

/-- Handles an event. -/
def Connection.step (connection : Connection) (event : Reads × Event) : Connection × List Output :=
  let (reads, event) := event
  match event with
  | .authPublickey fingerprint => match authenticate reads fingerprint with
    | some actor => ({ connection with actor := some actor }, [.accept])
    | none => (connection, [.reject])
  | .channelOpenSession channel =>
    ({ connection with channels := connection.channels.insert channel .idle }, [])
  | .execRequest channel command => match grant gix limits reads connection.actor command with
    | .error .noCommand => (connection, [.channelFailure channel])
    | .error (.fatal message) => (connection, [.fatal channel message])
    | .ok (next, advertisement) =>
      ({ connection with channels := connection.channels.insert channel next },
        [.advertised channel advertisement])
  | .data channel chunk =>
    let (channels, answer) := data gix reads.openRepoDir connection.channels channel chunk
    ({ connection with channels }, answer.toList.map fun answer => .answered channel answer)
  | .channelEof channel =>
    ({ connection with channels := connection.channels.erase channel },
      match connection.channels.lookup channel with
      | some (.receivePack identity buffer checks repositoryId pusherId) =>
        [.pushed channel ⟨identity, buffer, checks, repositoryId, pusherId⟩]
      | _ => [])
  | .channelClose channel =>
    ({ connection with channels := connection.channels.erase channel }, [])

/-- The connection after an event. -/
def Connection.next (connection : Connection) (event : Reads × Event) : Connection :=
  (connection.step gix limits event).1

/-! ## What is asked of a run -/

/-- The commands that are granted, and the states they put their channel in. -/
inductive Grants (reads : Reads) (actor : Option ActorContext) (command : Bytes) :
    ChannelState → Prop
  | fetch {who : ActorContext} {owner name : String} {repository : Repository} {state : Repo}
      (hactor : actor = some who) (hparse : Command.parse command = some ⟨.uploadPack, owner, name⟩)
      (hrepository : repositoryByName reads.access owner name = .ok repository)
      (hread : checkRead reads.access who repository = .ok ())
      (hopen : reads.openRepoDir (owner ++ "/" ++ name) = .ok state) :
      Grants reads actor command (.uploadPack (owner ++ "/" ++ name) [])
  | push {who : ActorContext} {owner name : String} {repository : Repository} {state : Repo}
      (hactor : actor = some who) (hparse : Command.parse command = some ⟨.receivePack, owner, name⟩)
      (hrepository : repositoryByName reads.access owner name = .ok repository)
      (hwrite : checkWrite reads.access who repository = .ok ())
      (hopen : reads.openRepoDir (owner ++ "/" ++ name) = .ok state) :
      Grants reads actor command (.receivePack (owner ++ "/" ++ name) []
        (receiveChecksFor reads.checks who repository limits) repository.id who.userId)

/-- The events that end what a channel is doing. A command that is refused is none of them. -/
inductive Disturbs (channel : ChannelId) (connection : Connection) : Reads × Event → Prop
  | opened {reads : Reads} : Disturbs channel connection (reads, .channelOpenSession channel)
  | granted {reads : Reads} {command : Bytes} {state : ChannelState}
      (h : Grants limits reads connection.actor command state) :
      Disturbs channel connection (reads, .execRequest channel command)
  | eof {reads : Reads} : Disturbs channel connection (reads, .channelEof channel)
  | closed {reads : Reads} : Disturbs channel connection (reads, .channelClose channel)

/-- The chunk of an event, if it is one for the channel. -/
def chunkOn (channel : ChannelId) : Event → Bytes
  | .data target chunk => if target = channel then chunk else []
  | _ => []

/-- The bytes that a channel receives. -/
def received (channel : ChannelId) (events : List (Reads × Event)) : Bytes :=
  events.flatMap fun event => chunkOn channel event.2

/-- The connection after some events. -/
def after (events : List (Reads × Event)) : Connection :=
  run (Connection.next gix limits) .new events

/-- A command was granted on the channel, nothing has disturbed the channel since, and it has
received `body`. -/
def Commanded (channel : ChannelId) (events : List (Reads × Event)) (granted : ChannelState)
    (body : Bytes) : Prop :=
  ∃ earlier reads command later,
    events = earlier ++ (reads, .execRequest channel command) :: later ∧
    Grants limits reads (after gix limits earlier).actor command granted ∧
    Throughout (Connection.next gix limits)
      (fun connection event => ¬ Disturbs limits channel connection event)
      (after gix limits (earlier ++ [(reads, .execRequest channel command)])) later ∧
    body = received channel later

variable {gix limits}

/-! ## Grants -/

theorem grant_eq_ok_iff {reads : Reads} {actor : Option ActorContext} {command : Bytes}
    {state : ChannelState} :
    (∃ advertisement, grant gix limits reads actor command = .ok (state, advertisement)) ↔
      Grants limits reads actor command state := by
  constructor
  · rintro ⟨advertisement, h⟩
    unfold grant at h
    cases hparse : Command.parse command with
    | none => simp [hparse] at h
    | some parsed =>
      obtain ⟨service, owner, name⟩ := parsed
      cases actor with
      | none => simp [hparse] at h
      | some who =>
        simp only [hparse] at h
        cases hrepository : repositoryByName reads.access owner name with
        | error err => simp [hrepository] at h
        | ok repository =>
          simp only [hrepository] at h
          cases service with
          | uploadPack =>
            simp only at h
            cases hread : checkRead reads.access who repository with
            | error err => simp [hread] at h
            | ok _ =>
              simp only [hread] at h
              cases hopen : reads.openRepoDir (owner ++ "/" ++ name) with
              | error err => simp [hopen] at h
              | ok repo =>
                simp only [hopen, Except.ok.injEq, Prod.mk.injEq] at h
                rw [← h.1]
                exact .fetch rfl hparse hrepository hread hopen
          | receivePack =>
            simp only at h
            cases hwrite : checkWrite reads.access who repository with
            | error err => simp [hwrite] at h
            | ok _ =>
              simp only [hwrite] at h
              cases hopen : reads.openRepoDir (owner ++ "/" ++ name) with
              | error err => simp [hopen] at h
              | ok repo =>
                simp only [hopen, Except.ok.injEq, Prod.mk.injEq] at h
                rw [← h.1]
                exact .push rfl hparse hrepository hwrite hopen
  · intro h
    cases h with
    | fetch hactor hparse hrepository hread hopen =>
      subst hactor
      simp only [grant, hparse, hrepository, hread, hopen]
      exact ⟨_, rfl⟩
    | push hactor hparse hrepository hwrite hopen =>
      subst hactor
      simp only [grant, hparse, hrepository, hwrite, hopen]
      exact ⟨_, rfl⟩

/-- The state that a command is granted, if it is. -/
def grantedState (gix : Gix) (limits : GitLimits) (reads : Reads) (actor : Option ActorContext)
    (command : Bytes) : Option ChannelState :=
  ((grant gix limits reads actor command).toOption).map Prod.fst

theorem grantedState_eq_some_iff {reads : Reads} {actor : Option ActorContext} {command : Bytes}
    {state : ChannelState} :
    grantedState gix limits reads actor command = some state ↔
      Grants limits reads actor command state := by
  rw [← @grant_eq_ok_iff gix, grantedState]
  cases grant gix limits reads actor command with
  | error refusal => simp [Except.toOption]
  | ok granted =>
    obtain ⟨next, advertisement⟩ := granted
    simp [Except.toOption]

/-! ## The slots of a connection -/

/-- A channel state with more bytes in its buffer. -/
def ChannelState.receive : ChannelState → Bytes → ChannelState
  | .idle, _ => .idle
  | .uploadPack identity buffer, chunk => .uploadPack identity (buffer ++ chunk)
  | .receivePack identity buffer checks repositoryId pusherId, chunk =>
    .receivePack identity (buffer ++ chunk) checks repositoryId pusherId

/-- Whether a channel has all it waits for. -/
def ChannelState.finished : ChannelState → Bool
  | .uploadPack _ buffer => uploadPackRequestIsComplete buffer
  | _ => false

/-- What becomes of a channel state with a chunk. -/
def ChannelState.feed (state : ChannelState) (chunk : Bytes) : Option ChannelState :=
  if (state.receive chunk).finished then none else some (state.receive chunk)

theorem receive_nil (state : ChannelState) : state.receive [] = state := by
  cases state <;> simp [ChannelState.receive]

theorem receive_receive (state : ChannelState) (chunk more : Bytes) :
    (state.receive chunk).receive more = state.receive (chunk ++ more) := by
  cases state <;> simp [ChannelState.receive]

/-- What is finished stays finished. -/
theorem finished_receive {state : ChannelState} (h : state.finished = true) (chunk : Bytes) :
    (state.receive chunk).finished = true := by
  cases state with
  | idle => exact h
  | uploadPack identity buffer => exact (parseUploadPackRequest_append h chunk).1
  | receivePack => exact h

/-- A chunk for a channel is fed to its state. -/
theorem lookup_data_self (openRepoDir : String → Except GitError Repo) (channels : Channels)
    (channel : ChannelId) (chunk : Bytes) :
    (data gix openRepoDir channels channel chunk).1.lookup channel =
      (channels.lookup channel).bind fun state => state.feed chunk := by
  simp only [data]
  cases hstate : channels.lookup channel with
  | none => exact hstate
  | some state =>
    cases state with
    | idle => exact hstate
    | uploadPack identity buffer =>
      have hfeed : (ChannelState.uploadPack identity buffer).feed chunk =
          if uploadPackRequestIsComplete (buffer ++ chunk) then none
          else some (.uploadPack identity (buffer ++ chunk)) := rfl
      rw [Option.bind_some, hfeed]
      by_cases hdone : uploadPackRequestIsComplete (buffer ++ chunk) = true
      · simp only [if_pos hdone]
        exact AList.lookup_erase channel channels
      · simp only [if_neg hdone]
        exact AList.lookup_insert channels
    | receivePack identity buffer checks repositoryId pusherId =>
      simp only [Option.bind_some, ChannelState.feed, ChannelState.receive, ChannelState.finished,
        Bool.false_eq_true, if_false]
      exact AList.lookup_insert _

/-- The account that has authenticated. -/
def actorSlot (gix : Gix) (limits : GitLimits) :
    Slot (Connection.next gix limits) ActorContext where
  view := Connection.actor
  resets := fun _ event => match event.2 with
    | .authPublickey fingerprint => (authenticate event.1 fingerprint).map some
    | _ => none
  feed := fun actor _ => some actor
  law := by
    rintro connection ⟨reads, event⟩
    have hkept : ∀ actor : Option ActorContext, (actor.bind fun b => some b) = actor := by
      intro actor
      cases actor <;> rfl
    cases event with
    | authPublickey fingerprint =>
      simp only [Connection.next, Connection.step]
      cases authenticate reads fingerprint with
      | none => exact (hkept _).symm
      | some actor => rfl
    | channelOpenSession channel => exact (hkept _).symm
    | execRequest channel command =>
      simp only [Connection.next, Connection.step, Option.getD_none, hkept]
      cases grant gix limits reads connection.actor command with
      | error refusal => cases refusal <;> rfl
      | ok granted => rfl
    | data channel chunk => exact (hkept _).symm
    | channelEof channel => exact (hkept _).symm
    | channelClose channel => exact (hkept _).symm

/-- What a channel is doing. -/
def channelSlot (gix : Gix) (limits : GitLimits) (channel : ChannelId) :
    Slot (Connection.next gix limits) ChannelState where
  view := fun connection => connection.channels.lookup channel
  resets := fun connection event => match event.2 with
    | .channelOpenSession target => if target = channel then some (some .idle) else none
    | .execRequest target command =>
      if target = channel then
        (grantedState gix limits event.1 connection.actor command).map some
      else none
    | .channelEof target => if target = channel then some none else none
    | .channelClose target => if target = channel then some none else none
    | _ => none
  feed := fun state event => match event.2 with
    | .data target chunk => if target = channel then state.feed chunk else some state
    | _ => some state
  law := by
    rintro connection ⟨reads, event⟩
    have hkept : ∀ state : Option ChannelState, (state.bind fun b => some b) = state := by
      intro state
      cases state <;> rfl
    cases event with
    | authPublickey fingerprint =>
      simp only [Connection.next, Connection.step, Option.getD_none, hkept]
      cases authenticate reads fingerprint <;> rfl
    | channelOpenSession target =>
      simp only [Connection.next, Connection.step]
      by_cases htarget : target = channel
      · subst htarget
        rw [if_pos rfl, AList.lookup_insert]
        rfl
      · rw [if_neg htarget, AList.lookup_insert_ne (Ne.symm htarget), Option.getD_none, hkept]
    | execRequest target command =>
      simp only [Connection.next, Connection.step, grantedState]
      by_cases htarget : target = channel
      · subst htarget
        rw [if_pos rfl]
        cases grant gix limits reads connection.actor command with
        | error refusal =>
          cases refusal <;> simp only [Except.toOption, Option.map_none, Option.getD_none, hkept]
        | ok granted =>
          obtain ⟨next, advertisement⟩ := granted
          simp only [Except.toOption, Option.map_some, Option.getD_some, AList.lookup_insert]
      · rw [if_neg htarget, Option.getD_none, hkept]
        cases grant gix limits reads connection.actor command with
        | error refusal => cases refusal <;> rfl
        | ok granted => exact AList.lookup_insert_ne (Ne.symm htarget)
    | data target chunk =>
      simp only [Connection.next, Connection.step, Option.getD_none]
      by_cases htarget : target = channel
      · subst htarget
        simp only [if_true, lookup_data_self]
      · simp only [if_neg htarget, hkept]
        exact lookup_data_ne gix reads.openRepoDir (Ne.symm htarget) chunk
    | channelEof target =>
      simp only [Connection.next, Connection.step]
      by_cases htarget : target = channel
      · subst htarget
        rw [if_pos rfl, AList.lookup_erase]
        rfl
      · rw [if_neg htarget, AList.lookup_erase_ne (Ne.symm htarget), Option.getD_none, hkept]
    | channelClose target =>
      simp only [Connection.next, Connection.step]
      by_cases htarget : target = channel
      · subst htarget
        rw [if_pos rfl, AList.lookup_erase]
        rfl
      · rw [if_neg htarget, AList.lookup_erase_ne (Ne.symm htarget), Option.getD_none, hkept]

/-! ## What a channel is doing after a run -/

theorem resets_eq_none_iff {channel : ChannelId} {connection : Connection} {event : Reads × Event} :
    (channelSlot gix limits channel).resets connection event = none ↔
      ¬ Disturbs limits channel connection event := by
  obtain ⟨reads, event⟩ := event
  constructor
  · intro h hdisturbs
    cases hdisturbs with
    | opened => simp [channelSlot] at h
    | granted hgrants =>
      simp [channelSlot, (@grantedState_eq_some_iff gix).2 hgrants] at h
    | eof => simp [channelSlot] at h
    | closed => simp [channelSlot] at h
  · intro h
    by_contra hsome
    apply h
    cases event with
    | authPublickey fingerprint => exact absurd rfl hsome
    | channelOpenSession target =>
      by_cases htarget : target = channel
      · subst htarget
        exact .opened
      · simp [channelSlot, htarget] at hsome
    | execRequest target command =>
      by_cases htarget : target = channel
      · subst htarget
        cases hgranted : grantedState gix limits reads connection.actor command with
        | none => simp [channelSlot, hgranted] at hsome
        | some state => exact .granted (grantedState_eq_some_iff.1 hgranted)
      · simp [channelSlot, htarget] at hsome
    | data target chunk => exact absurd rfl hsome
    | channelEof target =>
      by_cases htarget : target = channel
      · subst htarget
        exact .eof
      · simp [channelSlot, htarget] at hsome
    | channelClose target =>
      by_cases htarget : target = channel
      · subst htarget
        exact .closed
      · simp [channelSlot, htarget] at hsome

theorem kept_iff {channel : ChannelId} {connection : Connection} {events : List (Reads × Event)} :
    (channelSlot gix limits channel).Kept connection events ↔
      Throughout (Connection.next gix limits)
        (fun connection event => ¬ Disturbs limits channel connection event) connection events :=
  throughout_congr fun _ _ => resets_eq_none_iff

/-- Feeding is receiving, with an eye on the end of the request. -/
theorem feed_eq {channel : ChannelId} {state : ChannelState} (h : state.finished = false)
    (event : Reads × Event) :
    (channelSlot gix limits channel).feed state event = state.feed (chunkOn channel event.2) := by
  obtain ⟨reads, event⟩ := event
  have hsame : state.feed [] = some state := by
    rw [ChannelState.feed, receive_nil, h, if_neg Bool.false_ne_true]
  cases event with
  | data target chunk =>
    by_cases htarget : target = channel
    · simp [channelSlot, chunkOn, htarget]
    · simp [channelSlot, chunkOn, htarget, hsame]
  | authPublickey fingerprint => exact hsame.symm
  | channelOpenSession target => exact hsame.symm
  | execRequest target command => exact hsame.symm
  | channelEof target => exact hsame.symm
  | channelClose target => exact hsame.symm

/-- A channel that is fed has received all its bytes, and is not finished with them. -/
theorem feedAll_eq_some_iff {channel : ChannelId} {state state' : ChannelState}
    (h : state.finished = false) {events : List (Reads × Event)} :
    (channelSlot gix limits channel).feedAll state events = some state' ↔
      (state.receive (received channel events)).finished = false ∧
        state' = state.receive (received channel events) := by
  induction events generalizing state with
  | nil =>
    have hnothing : received channel [] = [] := rfl
    rw [hnothing, receive_nil, and_iff_right h]
    exact ⟨fun heq => (Option.some.inj heq).symm, fun heq => heq ▸ rfl⟩
  | cons event events ih =>
    have hsplit : received channel (event :: events) =
        chunkOn channel event.2 ++ received channel events := rfl
    simp only [Slot.feedAll, feed_eq h, ChannelState.feed]
    cases hfinished : (state.receive (chunkOn channel event.2)).finished with
    | true =>
      have hstays := finished_receive hfinished (received channel events)
      rw [receive_receive, ← hsplit] at hstays
      simp [hstays]
    | false =>
      rw [if_neg Bool.false_ne_true, Option.bind_some, ih hfinished, receive_receive, ← hsplit]

theorem not_finished_of_grants {reads : Reads} {actor : Option ActorContext} {command : Bytes}
    {state : ChannelState} (h : Grants limits reads actor command state) : state.finished = false := by
  cases h with
  | fetch => rfl
  | push => rfl

/-- What a channel is doing was asked for by a command that was granted. -/
theorem lookup_after_iff {channel : ChannelId} {events : List (Reads × Event)}
    {state : ChannelState} (hbusy : state ≠ .idle) :
    (after gix limits events).channels.lookup channel = some state ↔
      ∃ granted body, Commanded gix limits channel events granted body ∧
        state = granted.receive body ∧ state.finished = false := by
  have hview := @Slot.view_run_iff _ _ _ _ (channelSlot gix limits channel) .new events state
  have hstart : (channelSlot gix limits channel).view .new = none := rfl
  rw [hstart, Option.bind_none] at hview
  simp only [reduceCtorEq, and_false, false_or] at hview
  refine hview.trans ⟨?_, ?_⟩
  · rintro ⟨earlier, ⟨reads, event⟩, later, first, heq, hfill, hkept, hfed⟩
    cases event with
    | channelOpenSession target =>
      -- nothing comes of a channel that was only opened
      by_cases htarget : target = channel
      · simp only [channelSlot, htarget, if_true, Option.some.injEq] at hfill
        subst hfill
        have hidle : ChannelState.idle.finished = false := rfl
        exact absurd ((feedAll_eq_some_iff hidle).1 hfed).2 hbusy
      · simp [channelSlot, htarget] at hfill
    | execRequest target command =>
      by_cases htarget : target = channel
      · subst htarget
        simp only [channelSlot, if_true, Option.map_eq_some_iff, Option.some.injEq] at hfill
        obtain ⟨granted, hgranted, rfl⟩ := hfill
        have hgrants := grantedState_eq_some_iff.1 hgranted
        obtain ⟨hopen, hstate⟩ := (feedAll_eq_some_iff (not_finished_of_grants hgrants)).1 hfed
        refine ⟨granted, _, ⟨earlier, reads, command, later, heq, hgrants, kept_iff.1 hkept, rfl⟩,
          hstate, hstate ▸ hopen⟩
      · simp [channelSlot, htarget] at hfill
    | authPublickey fingerprint => simp [channelSlot] at hfill
    | data target chunk => simp [channelSlot] at hfill
    | channelEof target =>
      by_cases htarget : target = channel <;> simp [channelSlot, htarget] at hfill
    | channelClose target =>
      by_cases htarget : target = channel <;> simp [channelSlot, htarget] at hfill
  · rintro ⟨granted, body, ⟨earlier, reads, command, later, heq, hgrants, hkept, rfl⟩, hstate, hopen⟩
    refine ⟨earlier, (reads, .execRequest channel command), later, granted, heq, ?_,
      kept_iff.2 hkept, ?_⟩
    · simp only [channelSlot, if_true, Option.map_eq_some_iff]
      exact ⟨granted, grantedState_eq_some_iff.2 hgrants, rfl⟩
    · rw [feedAll_eq_some_iff (not_finished_of_grants hgrants)]
      exact ⟨hstate ▸ hopen, hstate⟩

/-! ## What is run -/

/-- A push that a channel waits to end was granted. -/
theorem lookup_receivePack_iff {channel : ChannelId} {events : List (Reads × Event)} {push : Push} :
    (after gix limits events).channels.lookup channel =
        some (.receivePack push.identity push.body push.checks push.repositoryId push.pusherId) ↔
      Commanded gix limits channel events
        (.receivePack push.identity [] push.checks push.repositoryId push.pusherId) push.body := by
  rw [lookup_after_iff (by simp)]
  constructor
  · rintro ⟨granted, body, hcommanded, hstate, -⟩
    obtain ⟨earlier, reads, command, later, heq, hgrants, hkept, hbody⟩ := hcommanded
    cases hgrants with
    | fetch => cases hstate
    | push hactor hparse hrepository hwrite hopen =>
      simp only [ChannelState.receive, List.nil_append, ChannelState.receivePack.injEq] at hstate
      obtain ⟨hidentity, hpushed, hchecks, hrepositoryId, hpusher⟩ := hstate
      rw [hidentity, hpushed, hchecks, hrepositoryId, hpusher]
      exact ⟨earlier, reads, command, later, heq, .push hactor hparse hrepository hwrite hopen,
        hkept, hbody⟩
  · intro hcommanded
    exact ⟨_, _, hcommanded, rfl, rfl⟩

/-- A fetch that a channel waits for was granted, and its request is not complete. -/
theorem lookup_uploadPack_iff {channel : ChannelId} {events : List (Reads × Event)}
    {identity : String} {body : Bytes} :
    (after gix limits events).channels.lookup channel = some (.uploadPack identity body) ↔
      Commanded gix limits channel events (.uploadPack identity []) body ∧
        uploadPackRequestIsComplete body = false := by
  rw [lookup_after_iff (by simp)]
  constructor
  · rintro ⟨granted, received, hcommanded, hstate, hopen⟩
    refine ⟨?_, hopen⟩
    obtain ⟨earlier, reads, command, later, heq, hgrants, hkept, hbody⟩ := hcommanded
    cases hgrants with
    | fetch hactor hparse hrepository hread hopened =>
      simp only [ChannelState.receive, List.nil_append, ChannelState.uploadPack.injEq] at hstate
      obtain ⟨rfl, rfl⟩ := hstate
      exact ⟨earlier, reads, command, later, heq, .fetch hactor hparse hrepository hread hopened,
        hkept, hbody⟩
    | push => cases hstate
  · rintro ⟨hcommanded, hopen⟩
    exact ⟨_, _, hcommanded, rfl, hopen⟩

theorem data_eq_some_iff (openRepoDir : String → Except GitError Repo) {channels : Channels}
    {channel : ChannelId} {chunk : Bytes} {answer : Answer} :
    (data gix openRepoDir channels channel chunk).2 = some answer ↔
      ∃ identity body, channels.lookup channel = some (.uploadPack identity body) ∧
        uploadPackRequestIsComplete (body ++ chunk) = true ∧
        answer = serveUploadPack gix openRepoDir identity (body ++ chunk) := by
  simp only [data]
  cases hstate : channels.lookup channel with
  | none => simp
  | some state =>
    cases state with
    | idle => simp
    | receivePack identity buffer checks repositoryId pusherId => simp
    | uploadPack identity buffer =>
      by_cases hdone : uploadPackRequestIsComplete (buffer ++ chunk) = true
      · simp only [hdone, if_true, Option.some.injEq, ChannelState.uploadPack.injEq]
        constructor
        · rintro rfl
          exact ⟨identity, buffer, ⟨rfl, rfl⟩, hdone, rfl⟩
        · rintro ⟨identity', buffer', ⟨rfl, rfl⟩, -, rfl⟩
          rfl
      · simp only [if_neg hdone, reduceCtorEq, false_iff, not_exists, not_and]
        rintro identity' buffer' heq hcomplete
        obtain ⟨rfl, rfl⟩ := ChannelState.uploadPack.inj (Option.some.inj heq)
        exact absurd hcomplete hdone

theorem pushed_iff {connection : Connection} {reads : Reads} {event : Event} {channel : ChannelId}
    {push : Push} :
    .pushed channel push ∈ (connection.step gix limits (reads, event)).2 ↔
      event = .channelEof channel ∧ connection.channels.lookup channel =
        some (.receivePack push.identity push.body push.checks push.repositoryId push.pusherId) := by
  cases event with
  | authPublickey fingerprint =>
    simp only [Connection.step]
    cases authenticate reads fingerprint <;> simp
  | channelOpenSession target => simp [Connection.step]
  | execRequest target command =>
    simp only [Connection.step]
    cases grant gix limits reads connection.actor command with
    | error refusal => cases refusal <;> simp
    | ok granted => simp
  | data target chunk => simp [Connection.step]
  | channelEof target =>
    simp only [Connection.step, Event.channelEof.injEq]
    cases hstate : connection.channels.lookup target with
    | none =>
      simp only [List.not_mem_nil, false_iff, not_and]
      rintro rfl
      simp [hstate]
    | some state =>
      cases state with
      | idle =>
        simp only [List.not_mem_nil, false_iff, not_and]
        rintro rfl
        simp [hstate]
      | uploadPack identity buffer =>
        simp only [List.not_mem_nil, false_iff, not_and]
        rintro rfl
        simp [hstate]
      | receivePack identity buffer checks repositoryId pusherId =>
        simp only [List.mem_singleton, Output.pushed.injEq]
        constructor
        · rintro ⟨rfl, rfl⟩
          exact ⟨rfl, hstate⟩
        · rintro ⟨rfl, hlookup⟩
          obtain ⟨rfl, rfl, rfl, rfl, rfl⟩ :=
            ChannelState.receivePack.inj (Option.some.inj (hstate.symm.trans hlookup))
          exact ⟨rfl, rfl⟩
  | channelClose target => simp [Connection.step]

theorem answered_iff {connection : Connection} {reads : Reads} {event : Event}
    {channel : ChannelId} {answer : Answer} :
    .answered channel answer ∈ (connection.step gix limits (reads, event)).2 ↔
      ∃ chunk, event = .data channel chunk ∧
        (data gix reads.openRepoDir connection.channels channel chunk).2 = some answer := by
  cases event with
  | authPublickey fingerprint =>
    simp only [Connection.step]
    cases authenticate reads fingerprint <;> simp
  | channelOpenSession target => simp [Connection.step]
  | execRequest target command =>
    simp only [Connection.step]
    cases grant gix limits reads connection.actor command with
    | error refusal => cases refusal <;> simp
    | ok granted => simp
  | data target chunk =>
    simp only [Connection.step, List.mem_map, Option.mem_toList, Output.answered.injEq,
      Event.data.injEq]
    constructor
    · rintro ⟨other, hother, rfl, rfl⟩
      exact ⟨chunk, ⟨rfl, rfl⟩, hother⟩
    · rintro ⟨chunk', ⟨rfl, rfl⟩, hanswer⟩
      exact ⟨answer, hanswer, rfl, rfl⟩
  | channelEof target =>
    simp only [Connection.step]
    split <;> simp
  | channelClose target => simp [Connection.step]

theorem after_concat (events : List (Reads × Event)) (event : Reads × Event) :
    after gix limits (events ++ [event]) = (after gix limits events).next gix limits event :=
  run_concat _ _ _ _

/-- What was run leaves nothing of its channel. -/
theorem lookup_none_of_run {connection : Connection} {reads : Reads} {event : Event}
    {channel : ChannelId}
    (h : (∃ push, .pushed channel push ∈ (connection.step gix limits (reads, event)).2) ∨
      ∃ answer, .answered channel answer ∈ (connection.step gix limits (reads, event)).2) :
    (connection.next gix limits (reads, event)).channels.lookup channel = none := by
  rcases h with ⟨push, hpushed⟩ | ⟨answer, hanswered⟩
  · obtain ⟨rfl, -⟩ := pushed_iff.1 hpushed
    exact AList.lookup_erase channel connection.channels
  · obtain ⟨chunk, rfl, hanswer⟩ := answered_iff.1 hanswered
    obtain ⟨identity, body, hstate, hcomplete, -⟩ := (data_eq_some_iff _).1 hanswer
    have hdata := @lookup_data_self gix reads.openRepoDir connection.channels channel chunk
    rw [hstate, Option.bind_some] at hdata
    refine hdata.trans ?_
    rw [ChannelState.feed]
    exact if_pos hcomplete

/-- The actor of a connection is the one of the last key that was accepted. -/
theorem actor_after_iff {events : List (Reads × Event)} {actor : ActorContext} :
    (after gix limits events).actor = some actor ↔ ∃ earlier reads fingerprint later,
      events = earlier ++ (reads, .authPublickey fingerprint) :: later ∧
      authenticate reads fingerprint = some actor ∧
      ∀ other ∈ later, ∀ fingerprint, other.2 = .authPublickey fingerprint →
        authenticate other.1 fingerprint = none := by
  have hview := @Slot.view_run_iff _ _ _ _ (actorSlot gix limits) .new events actor
  have hstart : (actorSlot gix limits).view .new = none := rfl
  rw [hstart, Option.bind_none] at hview
  simp only [reduceCtorEq, and_false, false_or] at hview
  have hfed : ∀ (who : ActorContext) (later : List (Reads × Event)),
      (actorSlot gix limits).feedAll who later = some who := by
    intro who later
    induction later with
    | nil => rfl
    | cons event later ih => exact ih
  have hkept : ∀ (connection : Connection) (later : List (Reads × Event)),
      (actorSlot gix limits).Kept connection later ↔
        ∀ other ∈ later, ∀ fingerprint, other.2 = .authPublickey fingerprint →
          authenticate other.1 fingerprint = none := by
    intro connection later
    constructor
    · intro h other hother fingerprint hauth
      obtain ⟨front, back, rfl⟩ := List.append_of_mem hother
      have hnone := h front other back rfl
      simpa [actorSlot, hauth] using hnone
    · rintro h front ⟨reads, event⟩ back rfl
      cases event with
      | authPublickey fingerprint =>
        have hnone := h (reads, .authPublickey fingerprint) (by simp) fingerprint rfl
        simp only [actorSlot, hnone, Option.map_none]
      | _ => rfl
  refine hview.trans ⟨?_, ?_⟩
  · rintro ⟨earlier, ⟨reads, event⟩, later, first, heq, hfill, hlater, hsame⟩
    obtain rfl := Option.some.inj ((hfed first later).symm.trans hsame)
    cases event with
    | authPublickey fingerprint =>
      simp only [actorSlot, Option.map_eq_some_iff, Option.some.injEq, exists_eq_right] at hfill
      exact ⟨earlier, reads, fingerprint, later, heq, hfill, (hkept _ _).1 hlater⟩
    | _ => simp [actorSlot] at hfill
  · rintro ⟨earlier, reads, fingerprint, later, heq, hauth, hlater⟩
    refine ⟨earlier, (reads, .authPublickey fingerprint), later, actor, heq, ?_,
      (hkept _ _).2 hlater, hfed _ _⟩
    simp only [actorSlot, hauth, Option.map_some]

/-- What a connection runs, in every run of events. A push is run when the client closes its side of
a channel on which it was granted, with all that the channel has received since. A fetch is answered
with the chunk that completes its request. Either is done once: nothing is left of the channel. The
actor of a connection is the one of the last key that was accepted. -/
theorem commands_run_exactly (gix : Gix) (limits : GitLimits) (events : List (Reads × Event))
    (reads : Reads) (event : Event) (channel : ChannelId) :
    let connection := after gix limits events
    let outputs := (connection.step gix limits (reads, event)).2
    (∀ push, .pushed channel push ∈ outputs ↔
      event = .channelEof channel ∧ Commanded gix limits channel events
        (.receivePack push.identity [] push.checks push.repositoryId push.pusherId) push.body) ∧
    (∀ answer, .answered channel answer ∈ outputs ↔ ∃ chunk identity body,
      event = .data channel chunk ∧
      Commanded gix limits channel events (.uploadPack identity []) body ∧
      uploadPackRequestIsComplete body = false ∧
      uploadPackRequestIsComplete (body ++ chunk) = true ∧
      answer = serveUploadPack gix reads.openRepoDir identity (body ++ chunk)) ∧
    ((∃ push, .pushed channel push ∈ outputs) ∨ (∃ answer, .answered channel answer ∈ outputs) →
      (after gix limits (events ++ [(reads, event)])).channels.lookup channel = none) ∧
    ∀ actor, connection.actor = some actor ↔ ∃ earlier reads fingerprint later,
      events = earlier ++ (reads, .authPublickey fingerprint) :: later ∧
      authenticate reads fingerprint = some actor ∧
      ∀ other ∈ later, ∀ fingerprint, other.2 = .authPublickey fingerprint →
        authenticate other.1 fingerprint = none := by
  intro connection outputs
  refine ⟨fun push => ?_, fun answer => ?_, ?_, fun actor => actor_after_iff⟩
  · rw [← lookup_receivePack_iff]
    exact pushed_iff
  · refine answered_iff.trans ?_
    constructor
    · rintro ⟨chunk, heq, hanswer⟩
      obtain ⟨identity, body, hstate, hcomplete, hserved⟩ := (data_eq_some_iff _).1 hanswer
      obtain ⟨hcommanded, hopen⟩ := lookup_uploadPack_iff.1 hstate
      exact ⟨chunk, identity, body, heq, hcommanded, hopen, hcomplete, hserved⟩
    · rintro ⟨chunk, identity, body, heq, hcommanded, hopen, hcomplete, hserved⟩
      have hstate := lookup_uploadPack_iff.2 ⟨hcommanded, hopen⟩
      exact ⟨chunk, heq, (data_eq_some_iff _).2 ⟨identity, body, hstate, hcomplete, hserved⟩⟩
  · intro hrun
    rw [after_concat]
    exact lookup_none_of_run hrun

end Handler

end Edda.Ssh
