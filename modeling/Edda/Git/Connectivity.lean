import Edda.Git.ReceiveAtomicity

/-!
# Connectivity over runs of pushes

A repository is connected when everything its refs reach is stored. A push that lands keeps that,
since the connectivity check resolved all its tips reach. A push that is turned down after its
promotion deletes the pack by its name, and so may delete what older refs rely on: the step
condition `KeepsReached` excludes exactly that, and `connected_of_safeRun` carries the invariant
over every run whose pushes meet it.
-/

set_option autoImplicit false

namespace Edda.Git

open Edda.Support.RustText

section Connectivity

variable (gix : Gix)

/-- Every object that a ref reaches is live. -/
def Connected (state : Repo) : Prop :=
  ∀ name id, state.refs.lookup name = some (.object id) →
    ClosureStored gix.content (state.disk.objects gix) id

/-! ## What the updates of a push write -/

/-- The tips of a push are the new values of its commands that are no deletion. -/
theorem mem_tips_of_parseTips :
    ∀ {commands : List RefCommand} {tips : List ObjectId}, parseTips commands = .ok tips →
      ∀ command ∈ commands, command.newId ≠ zeroId →
        ∃ id ∈ tips, ObjectId.fromHex command.newId = some id
  | [], _, _, _, h, _ => by simp at h
  | first :: commands, tips, htips, command, hmem, hnew => by
    unfold parseTips at htips
    split at htips
    · rename_i hzero
      rcases List.mem_cons.1 hmem with rfl | hmem
      · exact absurd hzero hnew
      · exact mem_tips_of_parseTips htips command hmem hnew
    · split at htips
      · exact absurd htips (by simp)
      · rename_i id hid
        split at htips
        · exact absurd htips (by simp)
        · rename_i ids hids
          obtain rfl := Except.ok.inj htips
          rcases List.mem_cons.1 hmem with rfl | hmem
          · exact ⟨id, by simp, hid⟩
          · obtain ⟨id', hid', hhex⟩ := mem_tips_of_parseTips hids command hmem hnew
            exact ⟨id', List.mem_cons_of_mem _ hid', hhex⟩

/-- The edits of a push delete the refs of its deletions, and write the new values of its other
commands. -/
theorem edit_of_command {commands : List RefCommand} {edits : List RefEdit}
    (hedits : refEdits gix (refUpdates commands) = .ok edits) {edit : RefEdit}
    (hmem : edit ∈ edits) :
    ∃ command ∈ commands, edit.name = command.refName ∧
      (if command.newId = zeroId then edit.result = none
        else ∃ id, ObjectId.fromHex command.newId = some id ∧
          edit.result = some (.object id)) := by
  obtain ⟨update, hupdate, hedit⟩ := exists_update_of_edit gix hedits hmem
  obtain ⟨command, hcommand, rfl⟩ := List.mem_map.1 hupdate
  obtain ⟨hname, -, hresult, -⟩ := refEdit_eq_ok gix hedit
  exact ⟨command, hcommand, hname, hresult⟩

/-- Pointing `HEAD` at a branch changes no ref that holds an object. -/
theorem lookup_of_fixUnbornHead {refs : RefStore} {name : String} {id : ObjectId}
    (h : (fixUnbornHead gix refs).lookup name = some (.object id)) :
    refs.lookup name = some (.object id) := by
  unfold fixUnbornHead at h
  split at h
  · split at h
    · exact h
    · split at h
      · exact h
      · split at h
        · by_cases hname : name = "HEAD"
          · subst hname
            rw [AList.lookup_insert] at h
            exact absurd h (by simp)
          · rwa [AList.lookup_insert_ne hname] at h
        · exact h
  · exact h

section Step

variable (fault : Option Fault) (state : Repo) (commands : List RefCommand) (packData : Bytes)
  (checks : ReceiveChecks)

/-- The step condition: the ref transaction is not interrupted while it is committed, and no
rollback takes away an object that a ref reaches. A rollback can do so only where the pack was
live before the push. -/
structure KeepsReached : Prop where
  uninterrupted : ∀ written, fault ≠ some (.refs (.commit written))
  rollback : ∀ pack, Promoted gix fault state commands packData checks (some pack) →
    TurnedDown gix fault state commands checks (some pack) → state.disk.Live pack →
    ∀ name id, state.refs.lookup name = some (.object id) →
      ∀ b, Reachable gix.content id b → b ∈ gix.packObjects pack →
        StoredElsewhere gix state.disk pack b

variable {state}

/-- More live objects keep a repository connected. -/
theorem Connected.grow (h : Connected gix state) {disk : Disk}
    (hsub : ∀ id ∈ state.disk.objects gix, id ∈ disk.objects gix) :
    Connected gix { state with disk } :=
  fun name id hlookup => (h name id hlookup).mono gix.content hsub

theorem mem_objects_withPack_of_mem {disk : Disk} (pack : Option PackName) {id : ObjectId}
    (h : id ∈ disk.objects gix) : id ∈ (disk.withPack pack).objects gix := by
  cases pack with
  | none => exact h
  | some name => exact (mem_objects_promoted gix).2 (Or.inl h)

/-- A rollback after which every reached object is stored elsewhere keeps a repository
connected. -/
theorem Connected.rollback (h : Connected gix state) {pack : Option PackName}
    (hkeeps : ∀ name, pack = some name → state.disk.Live name →
      ∀ ref id, state.refs.lookup ref = some (.object id) → ∀ b, Reachable gix.content id b →
        b ∈ gix.packObjects name → StoredElsewhere gix state.disk name b) :
    Connected gix { state with disk := state.disk.rolledBack fault pack } := by
  intro ref id hlookup b hb
  have hstored : b ∈ state.disk.objects gix := h ref id hlookup b hb
  cases pack with
  | none => simpa [Disk.rolledBack, Disk.withPack, PromotedPack.rollback] using hstored
  | some name =>
    refine (mem_objects_rollback gix fault).2 ?_
    rcases (mem_objects_iff_storedElsewhere gix _).1 hstored with hother | ⟨hlive, hpack⟩
    · exact hother
    · exact hkeeps name rfl hlive ref id hlookup b hb hpack

/-- The tips of a push that is ready reach only objects of its pack and of the repository. -/
theorem closureStored_of_ready {pack : Option PackName}
    (hready : Ready gix fault state commands packData checks pack) {command : RefCommand}
    (hmem : command ∈ commands) (hnew : command.newId ≠ zeroId) {id : ObjectId}
    (hid : ObjectId.fromHex command.newId = some id) :
    ClosureStored gix.content ((state.disk.withPack pack).objects gix) id := by
  obtain ⟨quarantine, hq, rfl, -, -, hconn⟩ := hready
  have hneeds : needsPack commands = true := List.any_eq_true.2 ⟨command, hmem, by simpa using hnew⟩
  cases quarantine with
  | none =>
    unfold quarantinePack at hq
    rw [if_pos hneeds] at hq
    split at hq
    · exact absurd hq (by simp)
    · exact absurd (Except.ok.inj hq) (by simp)
  | some quarantine =>
    simp only [checkConnectivity] at hconn
    split at hconn
    · exact absurd hconn (by simp)
    rename_i tips htips
    split at hconn
    · exact absurd hconn (by simp)
    rename_i hfsck
    obtain ⟨tip, htip, hhex⟩ := mem_tips_of_parseTips htips command hmem hnew
    obtain rfl := Option.some.inj (hhex.symm.trans hid)
    intro b hb
    obtain ⟨hstored, -⟩ := mem_of_fsck gix fault hfsck htip hb
    rcases quarantine with ⟨_ | name⟩
    · rcases hstored with hpack | hstored
      · simp [Quarantine.objects] at hpack
      · exact hstored
    · exact (mem_objects_promoted gix).2 hstored.symm

/-- A push that lands keeps the repository connected. -/
theorem Connected.land (h : Connected gix state) {pack : Option PackName}
    (hready : Ready gix fault state commands packData checks pack) {edits : List RefEdit}
    (hedits : refEdits gix (refUpdates commands) = .ok edits) (hprep : Prepared state.refs edits) :
    Connected gix ⟨state.disk.withPack pack, state.refs.writeAll (commitOrder edits)⟩ := by
  intro name id hlookup
  rcases lookup_of_applied hprep name with ⟨heq, -⟩ | ⟨edit, hedit, rfl, heq⟩
  · rw [heq] at hlookup
    exact (h name id hlookup).mono gix.content fun b hb => mem_objects_withPack_of_mem gix pack hb
  · obtain ⟨command, hmem, -, hresult⟩ := edit_of_command gix hedits hedit
    have hvalue : edit.result = some (.object id) := heq.symm.trans hlookup
    rw [hvalue] at hresult
    split at hresult
    · exact absurd hresult (by simp)
    · rename_i hnew
      obtain ⟨id', hid', hobject⟩ := hresult
      obtain rfl := Target.object.inj (Option.some.inj hobject)
      exact closureStored_of_ready gix fault commands packData checks hready hmem hnew hid'

/-- One push that meets the step condition keeps a repository connected. -/
theorem connected_receiveBlocking (h : Connected gix state)
    (hkeeps : KeepsReached gix fault state commands packData checks) :
    Connected gix (receiveBlocking gix fault state commands packData checks).1 := by
  have hcase := receiveBlocking_cases gix fault state commands packData checks
  generalize receiveBlocking gix fault state commands packData checks = out at hcase
  cases hcase with
  | failed err _ => exact h
  | refused reason _ => exact h
  | halfPromoted name reason _ _ =>
    exact h.grow gix fun id hid => (mem_objects_addPack gix).2 (Or.inl hid)
  | unopened pack reason _ _ _ =>
    exact h.grow gix fun id hid => mem_objects_withPack_of_mem gix pack hid
  | rejected pack reason hpromoted hreason =>
    refine h.rollback gix fault ?_
    rintro name rfl
    exact hkeeps.rollback name hpromoted (Or.inl (by simp [hreason]))
  | notUpdated pack refs err hpromoted hreason hupdate =>
    have hrefs := updateRefs_cases gix (refFault fault) state.refs (refUpdates commands)
    rw [hupdate] at hrefs
    cases hrefs with
    | refused _ =>
      refine h.rollback gix fault ?_
      rintro name rfl
      have hne := hpromoted.ready.commands_ne_nil
      exact hkeeps.rollback name hpromoted
        (Or.inr ((updateRefs_error_iff gix fault state commands hne).1 ⟨state.refs, err, hupdate⟩))
    | interrupted edits written _ hfault _ _ =>
      unfold refFault at hfault
      split at hfault
      · rw [Option.some.inj hfault] at hkeeps
        exact absurd rfl (hkeeps.uninterrupted written)
      · exact absurd hfault (by simp)
  | landed pack refs hpromoted hreason hupdate =>
    have hrefs := updateRefs_cases gix (refFault fault) state.refs (refUpdates commands)
    rw [hupdate] at hrefs
    cases hrefs with
    | applied edits hedits hprep =>
      have hland := h.land gix fault commands packData checks hpromoted.ready hedits hprep
      intro name id hlookup
      refine hland name id ?_
      simp only at hlookup ⊢
      split at hlookup
      · exact hlookup
      · exact lookup_of_fixUnbornHead gix hlookup

end Step

/-! ## Runs -/

/-- A push as it arrives: the request body, the checks resolved for the pusher, and the file system
failure it meets, if any. -/
structure Request where
  body : Bytes
  checks : ReceiveChecks
  fault : Option Fault

/-- The repository after a push. -/
def Request.apply (request : Request) (state : Repo) : Repo :=
  (runReceivePack gix request.fault state request.body request.checks).1

/-- The repository after a sequence of pushes. -/
def afterRequests (state : Repo) (requests : List Request) : Repo :=
  requests.foldl (fun state request => request.apply gix state) state

/-- A push that is parsed meets the step condition. -/
def SafeRequest (state : Repo) (request : Request) : Prop :=
  ∀ commands packData, parseReceivePackCommands gix request.body = .ok (commands, packData) →
    KeepsReached gix request.fault state commands packData request.checks

/-- Every push of the sequence meets the step condition where it arrives. -/
def SafeRun : Repo → List Request → Prop
  | _, [] => True
  | state, request :: requests =>
    SafeRequest gix state request ∧ SafeRun (request.apply gix state) requests

/-- A repository as it is created: no objects, and a `HEAD` that names a branch to come. -/
def emptyRepo (branch : String) : Repo where
  disk := ⟨[], [], []⟩
  refs := (∅ : RefStore).insert "HEAD" (.symbolic ("refs/heads/" ++ branch))

theorem connected_emptyRepo (branch : String) : Connected gix (emptyRepo branch) := by
  intro name id hlookup
  unfold emptyRepo at hlookup
  by_cases hname : name = "HEAD"
  · subst hname
    rw [AList.lookup_insert] at hlookup
    exact absurd hlookup (by simp)
  · rw [AList.lookup_insert_ne hname, AList.lookup_empty] at hlookup
    exact absurd hlookup (by simp)

theorem connected_apply {state : Repo} {request : Request} (h : Connected gix state)
    (hsafe : SafeRequest gix state request) : Connected gix (request.apply gix state) := by
  unfold Request.apply runReceivePack
  cases hparse : parseReceivePackCommands gix request.body with
  | error err => exact h
  | ok parsed =>
    obtain ⟨commands, packData⟩ := parsed
    simp only [applyReceivePack]
    by_cases hempty : commands.isEmpty = true
    · simpa [hempty] using h
    · have hstep := connected_receiveBlocking gix request.fault commands packData request.checks h
        (hsafe commands packData hparse)
      rw [if_neg hempty]
      rcases hout : receiveBlocking gix request.fault state commands packData request.checks with
        ⟨state', err | outcome⟩ <;> rw [hout] at hstep <;> exact hstep

/-- A run of pushes that meet the step condition keeps a repository connected. -/
theorem connected_afterRequests {state : Repo} (h : Connected gix state) :
    ∀ {requests : List Request}, SafeRun gix state requests →
      ∀ n, Connected gix (afterRequests gix state (requests.take n))
  | [], _, n => by simpa [afterRequests] using h
  | _ :: _, _, 0 => by simpa [afterRequests] using h
  | request :: requests, hsafe, n + 1 =>
    connected_afterRequests (connected_apply gix h hsafe.1) hsafe.2 n

/-- From the creation of a repository on, every push of a run that meets the step condition leaves
everything its refs reach stored. -/
theorem connected_of_safeRun (branch : String) (requests : List Request)
    (hsafe : SafeRun gix (emptyRepo branch) requests) (n : Nat) :
    Connected gix (afterRequests gix (emptyRepo branch) (requests.take n)) :=
  connected_afterRequests gix (connected_emptyRepo gix branch) hsafe n

end Connectivity

/-! ## A run that loses what a branch relies on -/

/-- A push of the pack of `onePackGix` with one command. -/
def onePackPush (old new name : String) : Request where
  body := writePktLine (utf8 (old ++ " " ++ new ++ " " ++ name)) ++ writeFlush ++ utf8 "PACK"
  checks := .default
  fault := none

/-- The push that creates `main`. -/
def createMain : Request := onePackPush zeroId commitOneHex "refs/heads/main"

/-- The same pack again, with an old value that `main` does not hold. -/
def resendMain : Request := onePackPush staleHex commitOneHex "refs/heads/main"

/-- The first push of a repository meets the step condition. -/
theorem connected_after_createMain :
    Connected onePackGix (afterRequests onePackGix (emptyRepo "master") ([createMain].take 1)) := by
  refine connected_of_safeRun onePackGix "master" [createMain] ⟨?_, trivial⟩ 1
  intro commands packData _
  refine ⟨fun written h => by simp [createMain, onePackPush] at h, ?_⟩
  intro pack _ _ hlive
  exact absurd hlive.1 (by simp [emptyRepo])

/-- After the second push the commit that `main` holds is no longer stored. -/
theorem resent_pack_disconnects :
    ¬ ∀ n, Connected onePackGix
      (afterRequests onePackGix (emptyRepo "master") ([createMain, resendMain].take n)) := by
  intro h
  have hrun : (afterRequests onePackGix (emptyRepo "master") [createMain, resendMain]).refs.lookup
        "refs/heads/main" = some (.object 1) ∧
      (afterRequests onePackGix (emptyRepo "master")
        [createMain, resendMain]).disk.objects onePackGix = [] := by decide +kernel
  obtain ⟨hmain, hobjects⟩ := hrun
  have hmem := h 2 "refs/heads/main" 1 hmain 1 (Reachable.refl _ 1)
  change (1 : ObjectId) ∈ (afterRequests onePackGix (emptyRepo "master")
    [createMain, resendMain]).disk.objects onePackGix at hmem
  rw [hobjects] at hmem
  simp at hmem

end Edda.Git
