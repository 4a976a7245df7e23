import Edda.Git.Hooks
import Edda.Git.PktLine
import Edda.Git.Quarantine
import Edda.Git.Refs

/-!
# Receive-pack

A push is a list of ref-update commands and a pack. `receiveBlocking` quarantines the pack, runs
the checks, promotes the pack, and then updates every ref in one transaction; a check or a
transaction that refuses after the promotion rolls the pack back.

`receiveBlocking_cases` says once what a push can do to a repository: end before the promotion,
be interrupted by it, end after it without a rollback, be rolled back, or land.
-/

set_option autoImplicit false

namespace Edda.Git

open Edda.Support.RustText

/-- A repository on disk. -/
structure Repo where
  disk : Disk
  refs : RefStore

/-- What a push that was answered produced: the wire response, and the ref updates that landed. -/
structure ReceiveOutcome where
  response : Bytes
  applied : List AppliedRef
  deriving DecidableEq, Repr

/-! ## Reading the commands -/

/-- The first two separators of a command (`splitn(3, ' ')`). -/
def splitCommand (text : List Char) : Option (List Char × List Char × List Char) :=
  match splitOnce ' ' text with
  | none => none
  | some (old, rest) => (splitOnce ' ' rest).map fun (new, name) => (old, new, name)

/-- Reads one command. Capabilities follow a NUL on the first line. -/
def parseRefCommand (gix : Gix) (line : Bytes) : Except String RefCommand :=
  let text := trimEnd (beforeFirst '\x00' (fromUtf8Lossy line))
  match splitCommand text with
  | some (old, new, name) => .ok ⟨String.ofList old, String.ofList new, String.ofList name⟩
  | none => .error ("malformed ref-update command: " ++ gix.debug (String.ofList text))

/-- Reads commands up to a flush packet, or up to where no further packet can be read. The bytes
that follow are the pack section. -/
def parseCommands (gix : Gix) : Nat → Bytes → Except String (List RefCommand × Bytes)
  | 0, body => .ok ([], body)
  | fuel + 1, body => match readPktLine body with
    | none => .ok ([], body)
    | some (.flush, rest) => .ok ([], rest)
    | some (.data line, rest) => match parseRefCommand gix line with
      | .error err => .error err
      | .ok command => match parseCommands gix fuel rest with
        | .error err => .error err
        | .ok (commands, pack) => .ok (command :: commands, pack)

/-- Every packet takes a byte at least, so the body is read to its end. -/
def parseReceivePackCommands (gix : Gix) (body : Bytes) :
    Except String (List RefCommand × Bytes) :=
  parseCommands gix body.length body

/-! ## Branches -/

/-- `refs/heads/`. -/
def headsPrefix : List Char := "refs/heads/".toList

/-- The names of the local branches, sorted. -/
def branchNames (refs : RefStore) : List String :=
  (refs.keys.filterMap fun name => (stripPrefix headsPrefix name.toList).map String.ofList)
    |>.insertionSort (fun a b => a ≤ b)

def pickDefaultBranch (names : List String) : Option String :=
  if "main" ∈ names then some "main"
  else if "master" ∈ names then some "master"
  else names.head?

/-! ## The push -/

section Receive

variable (gix : Gix) (fault : Option Fault)

/-- Points a `HEAD` that names an absent branch at a branch that exists. -/
def fixUnbornHead (refs : RefStore) : RefStore :=
  match refs.lookup "HEAD" with
  | some (.symbolic name) =>
    if (refs.lookup name).isSome then refs
    else match pickDefaultBranch (branchNames refs) with
      | none => refs
      | some branch => match fullName gix ("refs/heads/" ++ branch) with
        | .ok target => refs.insert "HEAD" (.symbolic target)
        | .error _ => refs
  | _ => refs

/-- The tips a push moves refs to, or the first text that is no object id. -/
def parseTips : List RefCommand → Except String (List ObjectId)
  | [] => .ok []
  | command :: commands =>
    if command.newId = zeroId then parseTips commands
    else match ObjectId.fromHex command.newId with
      | none => .error ("not a valid object id: " ++ command.newId)
      | some id => match parseTips commands with
        | .error err => .error err
        | .ok ids => .ok (id :: ids)

/-- Whether any command writes a value. -/
def needsPack (commands : List RefCommand) : Bool :=
  commands.any fun command => command.newId ≠ zeroId

/-- The pack of a push, quarantined if any command writes a value. -/
def quarantinePack (disk : Disk) (commands : List RefCommand) (packData : Bytes) :
    Except GitError (Option Quarantine) :=
  if needsPack commands then match writePack gix fault disk packData with
    | .error err => .error err
    | .ok quarantine => .ok (some quarantine)
  else .ok none

/-- The connectivity check of a quarantined push. -/
def checkConnectivity (disk : Disk) (commands : List RefCommand) :
    Option Quarantine → Except String Unit
  | none => .ok ()
  | some quarantine => match parseTips commands with
    | .error err => .error err
    | .ok tips => match quarantine.fsck gix fault disk tips with
      | .error err => .error err.display
      | .ok () => .ok ()

/-- Promotes the quarantined pack, if there is one. -/
def promotePack (disk : Disk) : Option Quarantine → Disk × Except String (Option PromotedPack)
  | none => (disk, .ok none)
  | some quarantine => match quarantine.promote gix fault disk with
    | (disk, .error err) => (disk, .error err.display)
    | (disk, .ok promoted) => (disk, .ok (some promoted))

/-- Rolls the promoted pack back, if there is one. -/
def rollbackPack (disk : Disk) : Option PromotedPack → Disk
  | none => disk
  | some promoted => promoted.rollback fault disk

/-- The live objects an inspection can read. -/
def readableObjects (disk : Disk) : Store :=
  match fault with
  | some (.readHistory id) => (disk.objects gix).filter (· ≠ id)
  | _ => disk.objects gix

/-- Whether the history of a push is inspected. -/
def inspectsHistory (checks : ReceiveChecks) : Bool :=
  !checks.linearHistoryRefPatterns.isEmpty || !checks.signedCommitRefPatterns.isEmpty

/-- The ref updates of a push. -/
def refUpdates (commands : List RefCommand) : List RefUpdate :=
  commands.map fun command => ⟨command.refName, command.oldId, command.newId⟩

/-- The fault that reaches the ref transaction. -/
def refFault : Option RefFault :=
  match fault with
  | some (.refs refFault) => some refFault
  | _ => none

/-- The steps after the promotion: the history checks in a freshly opened repository, and the ref
transaction. A repository that cannot be opened ends the push without a rollback. -/
def landCommands (state : Repo) (commands : List RefCommand) (checks : ReceiveChecks)
    (promoted : Option PromotedPack) : Repo × Except String Unit :=
  if inspectsHistory checks = true ∧ fault = some .openRepo then (state, .error gix.ioError)
  else match (if inspectsHistory checks then
      historyRejection gix.content (readableObjects gix fault state.disk) checks commands
      else none) with
    | some reason => ({ state with disk := rollbackPack fault state.disk promoted }, .error reason)
    | none => match updateRefs gix (refFault fault) state.refs (refUpdates commands) with
      | (refs, .ok ()) => ({ state with refs }, .ok ())
      | (refs, .error err) =>
        (⟨rollbackPack fault state.disk promoted, refs⟩, .error err.display)

/-- The checks and writes of a push whose pack is quarantined. -/
def applyCommands (state : Repo) (commands : List RefCommand) (packData : Bytes)
    (checks : ReceiveChecks) (quarantine : Option Quarantine) : Repo × Except String Unit :=
  match blockedRefRejection checks commands with
  | some reason => (state, .error reason)
  | none => match quotaRejection checks packData.length with
    | some reason => (state, .error reason)
    | none => match checkConnectivity gix fault state.disk commands quarantine with
      | .error reason => (state, .error reason)
      | .ok () => match promotePack gix fault state.disk quarantine with
        | (disk, .error reason) => ({ state with disk }, .error reason)
        | (disk, .ok promoted) =>
          landCommands gix fault { state with disk } commands checks promoted

/-- The status line of one command. -/
def statusLine (applied : Except String Unit) (command : RefCommand) : String :=
  match applied with
  | .ok () => "ok " ++ command.refName ++ "\n"
  | .error reason => "ng " ++ command.refName ++ " " ++ reason ++ "\n"

/-- The report of a push. -/
def reportStatus (applied : Except String Unit) (commands : List RefCommand) : ReceiveOutcome where
  response := writePktLine (utf8 "unpack ok\n") ++
    (commands.flatMap fun command => writePktLine (utf8 (statusLine applied command))) ++
    writeFlush
  applied := match applied with
    | .ok () => commands.map fun command => ⟨command.refName, command.oldId, command.newId⟩
    | .error _ => []

/-- Repairs an unborn `HEAD` after a push that landed, and answers the push. -/
def answerPush (commands : List RefCommand) :
    Repo × Except String Unit → Repo × Except String ReceiveOutcome
  | (state, .ok ()) =>
    let refs := if fault = some .fixHead then state.refs else fixUnbornHead gix state.refs
    ({ state with refs }, .ok (reportStatus (.ok ()) commands))
  | (state, .error reason) => (state, .ok (reportStatus (.error reason) commands))

def receiveBlocking (state : Repo) (commands : List RefCommand) (packData : Bytes)
    (checks : ReceiveChecks) : Repo × Except String ReceiveOutcome :=
  match quarantinePack gix fault state.disk commands packData with
  | .error err => (state, .error err.display)
  | .ok quarantine =>
    answerPush gix fault commands
      (applyCommands gix fault state commands packData checks quarantine)

/-- A push without commands does nothing. -/
def applyReceivePack (state : Repo) (commands : List RefCommand) (packData : Bytes)
    (checks : ReceiveChecks) : Repo × Except String ReceiveOutcome :=
  if commands.isEmpty then (state, .ok ⟨[], []⟩)
  else receiveBlocking gix fault state commands packData checks

def runReceivePack (state : Repo) (body : Bytes) (checks : ReceiveChecks) :
    Repo × Except GitError ReceiveOutcome :=
  match parseReceivePackCommands gix body with
  | .error err => (state, .error (.git err))
  | .ok (commands, packData) =>
    match applyReceivePack gix fault state commands packData checks with
    | (state, .error err) => (state, .error (.git err))
    | (state, .ok outcome) => (state, .ok outcome)

/-! ## What a push can do -/

/-- The name of a quarantined pack. -/
def packName (quarantine : Option Quarantine) : Option PackName := quarantine.bind Quarantine.pack

/-- The live directory with both files of a pack in it. -/
def Disk.withPack (disk : Disk) : Option PackName → Disk
  | none => disk
  | some name => (disk.addPack name).addIndex name

/-- The live directory after the promoted files of a pack were deleted. -/
def Disk.rolledBack (disk : Disk) (pack : Option PackName) : Disk :=
  (PromotedPack.mk pack).rollback fault (disk.withPack pack)

section Cases

variable (state : Repo) (commands : List RefCommand) (packData : Bytes) (checks : ReceiveChecks)

/-- The push passes every check before its promotion, and `pack` is what it promotes. -/
def Ready (pack : Option PackName) : Prop :=
  ∃ quarantine, quarantinePack gix fault state.disk commands packData = .ok quarantine ∧
    packName quarantine = pack ∧ blockedRefRejection checks commands = none ∧
    quotaRejection checks packData.length = none ∧
    checkConnectivity gix fault state.disk commands quarantine = .ok ()

/-- The push is ready, and no file system failure stops it up to its history checks. -/
structure Promoted (pack : Option PackName) : Prop where
  ready : Ready gix fault state commands packData checks pack
  moved : pack.isSome = true → fault ≠ some .renamePack ∧ fault ≠ some .renameIndex
  opened : ¬ (inspectsHistory checks = true ∧ fault = some .openRepo)

/-- The rejection of the history checks, which read the live store after the promotion. -/
def historyReason (pack : Option PackName) : Option String :=
  if inspectsHistory checks then
    historyRejection gix.content (readableObjects gix fault (state.disk.withPack pack)) checks
      commands
  else none

/-- What a push can do. -/
inductive ReceiveCase : Repo × Except String ReceiveOutcome → Prop
  | failed (err : GitError) :
      quarantinePack gix fault state.disk commands packData = .error err →
      ReceiveCase (state, .error err.display)
  | refused (reason : String) :
      (∀ pack, ¬ Ready gix fault state commands packData checks pack) ∨
        fault = some .renamePack →
      ReceiveCase (state, .ok (reportStatus (.error reason) commands))
  | halfPromoted (name : PackName) (reason : String) :
      Ready gix fault state commands packData checks (some name) → fault = some .renameIndex →
      ReceiveCase ({ state with disk := state.disk.addPack name },
        .ok (reportStatus (.error reason) commands))
  | unopened (pack : Option PackName) (reason : String) :
      Ready gix fault state commands packData checks pack →
      inspectsHistory checks = true → fault = some .openRepo →
      ReceiveCase ({ state with disk := state.disk.withPack pack },
        .ok (reportStatus (.error reason) commands))
  | rejected (pack : Option PackName) (reason : String) :
      Promoted gix fault state commands packData checks pack →
      historyReason gix fault state commands checks pack = some reason →
      ReceiveCase ({ state with disk := state.disk.rolledBack fault pack },
        .ok (reportStatus (.error reason) commands))
  | notUpdated (pack : Option PackName) (refs : RefStore) (err : GitError) :
      Promoted gix fault state commands packData checks pack →
      historyReason gix fault state commands checks pack = none →
      updateRefs gix (refFault fault) state.refs (refUpdates commands) = (refs, .error err) →
      ReceiveCase (⟨state.disk.rolledBack fault pack, refs⟩,
        .ok (reportStatus (.error err.display) commands))
  | landed (pack : Option PackName) (refs : RefStore) :
      Promoted gix fault state commands packData checks pack →
      historyReason gix fault state commands checks pack = none →
      updateRefs gix (refFault fault) state.refs (refUpdates commands) = (refs, .ok ()) →
      ReceiveCase (⟨state.disk.withPack pack,
          if fault = some .fixHead then refs else fixUnbornHead gix refs⟩,
        .ok (reportStatus (.ok ()) commands))

theorem Ready.unique {pack pack' : Option PackName}
    (h : Ready gix fault state commands packData checks pack)
    (h' : Ready gix fault state commands packData checks pack') : pack = pack' := by
  obtain ⟨q, hq, rfl, -⟩ := h
  obtain ⟨q', hq', rfl, -⟩ := h'
  rw [hq] at hq'
  rw [Except.ok.inj hq']

end Cases

/-- What the promotion of a quarantined pack can do. -/
theorem promotePack_cases (disk : Disk) (quarantine : Option Quarantine) :
    (promotePack gix fault disk quarantine =
        (disk.withPack (packName quarantine), .ok (quarantine.map fun q => ⟨q.pack⟩)) ∧
      ((packName quarantine).isSome = true →
        fault ≠ some .renamePack ∧ fault ≠ some .renameIndex)) ∨
    (promotePack gix fault disk quarantine = (disk, .error gix.ioError) ∧
      fault = some .renamePack) ∨
    ∃ name, packName quarantine = some name ∧ fault = some .renameIndex ∧
      promotePack gix fault disk quarantine = (disk.addPack name, .error gix.ioError) := by
  rcases quarantine with _ | ⟨_ | name⟩
  · exact Or.inl ⟨rfl, by simp [packName]⟩
  · exact Or.inl ⟨rfl, by simp [packName]⟩
  · by_cases hpack : fault = some .renamePack
    · refine Or.inr (Or.inl ⟨?_, hpack⟩)
      simp only [promotePack, promote_of_renamePack gix fault disk name hpack]
      rfl
    · by_cases hindex : fault = some .renameIndex
      · refine Or.inr (Or.inr ⟨name, rfl, hindex, ?_⟩)
        simp only [promotePack, promote_of_renameIndex gix fault disk name hpack hindex]
        rfl
      · refine Or.inl ⟨?_, fun _ => ⟨hpack, hindex⟩⟩
        simp only [promotePack, promote_of_moved gix fault disk name hpack hindex]
        rfl

/-- Rolling back the pack that a promotion moved. -/
theorem rollbackPack_promoted (disk : Disk) (quarantine : Option Quarantine) :
    rollbackPack fault (disk.withPack (packName quarantine))
        (quarantine.map fun q => PromotedPack.mk q.pack) =
      disk.rolledBack fault (packName quarantine) := by
  rcases quarantine with _ | ⟨_ | name⟩ <;> rfl

section Spec

variable (state : Repo) (commands : List RefCommand) (packData : Bytes) (checks : ReceiveChecks)

/-- The end of a push that was promoted. -/
theorem landCommands_of_promoted {quarantine : Option Quarantine}
    (hopened : ¬ (inspectsHistory checks = true ∧ fault = some .openRepo)) :
    landCommands gix fault { state with disk := state.disk.withPack (packName quarantine) } commands
        checks (quarantine.map fun q => ⟨q.pack⟩) =
      match historyReason gix fault state commands checks (packName quarantine) with
      | some reason =>
        ({ state with disk := state.disk.rolledBack fault (packName quarantine) }, .error reason)
      | none => match updateRefs gix (refFault fault) state.refs (refUpdates commands) with
        | (refs, .ok ()) => (⟨state.disk.withPack (packName quarantine), refs⟩, .ok ())
        | (refs, .error err) =>
          (⟨state.disk.rolledBack fault (packName quarantine), refs⟩, .error err.display) := by
  unfold landCommands historyReason
  rw [if_neg hopened]
  simp only [rollbackPack_promoted]

/-- A push that is not ready leaves the repository alone. -/
theorem applyCommands_of_not_ready {quarantine : Option Quarantine}
    (hquarantine : quarantinePack gix fault state.disk commands packData = .ok quarantine)
    (h : ¬ (blockedRefRejection checks commands = none ∧
      quotaRejection checks packData.length = none ∧
      checkConnectivity gix fault state.disk commands quarantine = .ok ())) :
    (∀ pack, ¬ Ready gix fault state commands packData checks pack) ∧
      ∃ reason, applyCommands gix fault state commands packData checks quarantine =
        (state, .error reason) := by
  constructor
  · rintro pack ⟨q, hq, -, hchecks⟩
    obtain rfl := Except.ok.inj (hquarantine.symm.trans hq)
    exact h hchecks
  · unfold applyCommands
    cases hblocked : blockedRefRejection checks commands with
    | some reason => exact ⟨reason, rfl⟩
    | none =>
      cases hquota : quotaRejection checks packData.length with
      | some reason => exact ⟨reason, rfl⟩
      | none =>
        cases hconn : checkConnectivity gix fault state.disk commands quarantine with
        | error reason => exact ⟨reason, rfl⟩
        | ok _ => exact absurd ⟨hblocked, hquota, hconn⟩ h

/-- A push that is ready goes on to its promotion. -/
theorem applyCommands_of_ready {quarantine : Option Quarantine}
    (hblocked : blockedRefRejection checks commands = none)
    (hquota : quotaRejection checks packData.length = none)
    (hconn : checkConnectivity gix fault state.disk commands quarantine = .ok ()) :
    applyCommands gix fault state commands packData checks quarantine =
      match promotePack gix fault state.disk quarantine with
      | (disk, .error reason) => ({ state with disk }, .error reason)
      | (disk, .ok promoted) =>
        landCommands gix fault { state with disk } commands checks promoted := by
  unfold applyCommands
  rw [hblocked, hquota, hconn]

/-- Every push is one of the seven cases. -/
theorem receiveBlocking_cases :
    ReceiveCase gix fault state commands packData checks
      (receiveBlocking gix fault state commands packData checks) := by
  unfold receiveBlocking
  cases hquarantine : quarantinePack gix fault state.disk commands packData with
  | error err => exact .failed err hquarantine
  | ok quarantine =>
    simp only
    by_cases hchecks : blockedRefRejection checks commands = none ∧
        quotaRejection checks packData.length = none ∧
        checkConnectivity gix fault state.disk commands quarantine = .ok ()
    swap
    · obtain ⟨hnot, reason, happly⟩ :=
        applyCommands_of_not_ready gix fault state commands packData checks hquarantine hchecks
      rw [happly]
      exact .refused reason (Or.inl hnot)
    obtain ⟨hblocked, hquota, hconn⟩ := hchecks
    have hready : Ready gix fault state commands packData checks (packName quarantine) :=
      ⟨quarantine, hquarantine, rfl, hblocked, hquota, hconn⟩
    rw [applyCommands_of_ready gix fault state commands packData checks hblocked hquota hconn]
    rcases promotePack_cases gix fault state.disk quarantine with
      ⟨hpromote, hmoved⟩ | ⟨hpromote, hfault⟩ | ⟨name, hname, hfault, hpromote⟩
    · rw [hpromote]
      simp only
      by_cases hopened : inspectsHistory checks = true ∧ fault = some .openRepo
      · unfold landCommands
        rw [if_pos hopened]
        exact .unopened (packName quarantine) gix.ioError hready hopened.1 hopened.2
      · have hpromoted : Promoted gix fault state commands packData checks
            (packName quarantine) := ⟨hready, hmoved, hopened⟩
        rw [landCommands_of_promoted gix fault state commands checks hopened]
        cases hhistory : historyReason gix fault state commands checks (packName quarantine) with
        | some reason => exact .rejected _ reason hpromoted hhistory
        | none =>
          rcases hupdate : updateRefs gix (refFault fault) state.refs (refUpdates commands) with
            ⟨refs, err | _⟩
          · exact .notUpdated _ refs err hpromoted hhistory hupdate
          · exact .landed _ refs hpromoted hhistory hupdate
    · rw [hpromote]
      exact .refused _ (Or.inr hfault)
    · rw [hpromote]
      exact .halfPromoted name _ (hname ▸ hready) hfault

/-- Whether a push reports every command as applied. -/
def ReportsAll (outcome : Except String ReceiveOutcome) : Prop :=
  ∃ report, outcome = .ok report ∧ (report.applied = [] → commands = [])

theorem reportsAll_reportStatus_ok :
    ReportsAll commands (.ok (reportStatus (.ok ()) commands)) :=
  ⟨_, rfl, by simp [reportStatus]⟩

theorem not_reportsAll_of_error (err : String) : ¬ ReportsAll commands (.error err) := by
  rintro ⟨report, h, -⟩
  cases h

end Spec

end Receive

end Edda.Git
