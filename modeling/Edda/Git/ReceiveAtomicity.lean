import Edda.Git.ReceivePack

/-!
# A push that is not applied leaves nothing behind

A push whose commands are not all reported as applied should leave the live objects and the refs
as they were. `allOrNothing_iff` says exactly when it does. It fails in four ways: a pack file
that was moved under an index that was already there, a repository that cannot be reopened after
the promotion, a rollback of a pack that was live before the push and holds the only copy of an
object, and a ref transaction that is interrupted while it is committed.
-/

set_option autoImplicit false

namespace Edda.Git

open Edda.Support.RustText

section Atomicity

variable (gix : Gix) (fault : Option Fault)

/-- The same objects are live, and every ref holds the same value. -/
def Unchanged (before after : Repo) : Prop :=
  (∀ id, id ∈ after.disk.objects gix ↔ id ∈ before.disk.objects gix) ∧
    ∀ name, after.refs.lookup name = before.refs.lookup name

theorem Unchanged.refl (state : Repo) : Unchanged gix state state :=
  ⟨fun _ => Iff.rfl, fun _ => rfl⟩

/-! ## What the steps after the checks change -/

theorem objects_addPack_iff (disk : Disk) (name : PackName) :
    (∀ id, id ∈ (disk.addPack name).objects gix ↔ id ∈ disk.objects gix) ↔
      (name ∈ disk.indexes → ∀ id ∈ gix.packObjects name, id ∈ disk.objects gix) := by
  simp only [mem_objects_addPack]
  constructor
  · intro h hindex id hid
    exact (h id).1 (Or.inr ⟨hindex, hid⟩)
  · intro h id
    exact ⟨fun hid => hid.elim (fun hid => hid) fun hid => h hid.1 id hid.2, Or.inl⟩

theorem objects_withPack_iff (disk : Disk) (pack : Option PackName) :
    (∀ id, id ∈ (disk.withPack pack).objects gix ↔ id ∈ disk.objects gix) ↔
      ∀ name, pack = some name → ∀ id ∈ gix.packObjects name, id ∈ disk.objects gix := by
  cases pack with
  | none => simp [Disk.withPack]
  | some name =>
    simp only [Disk.withPack, mem_objects_promoted]
    constructor
    · intro h other heq id hid
      obtain rfl := Option.some.inj heq
      exact (h id).1 (Or.inr hid)
    · intro h id
      exact ⟨fun hid => hid.elim (fun hid => hid) fun hid => h name rfl id hid, Or.inl⟩

theorem objects_rolledBack_iff (disk : Disk) (pack : Option PackName) :
    (∀ id, id ∈ (disk.rolledBack fault pack).objects gix ↔ id ∈ disk.objects gix) ↔
      ∀ name, pack = some name → disk.Live name →
        ∀ id ∈ gix.packObjects name, StoredElsewhere gix disk name id := by
  cases pack with
  | none => simp [Disk.rolledBack, Disk.withPack, PromotedPack.rollback]
  | some name =>
    simp only [Disk.rolledBack, Disk.withPack, mem_objects_rollback]
    constructor
    · intro h other heq hlive id hid
      obtain rfl := Option.some.inj heq
      exact (h id).2 ((mem_objects_iff_storedElsewhere gix _).2 (Or.inr ⟨hlive, hid⟩))
    · intro h id
      rw [mem_objects_iff_storedElsewhere gix name]
      exact ⟨Or.inl, fun hid => hid.elim (fun hid => hid) fun hid => h name rfl hid.1 id hid.2⟩

/-- A transaction over some updates succeeds exactly when it is accepted and not interrupted. -/
theorem updateRefs_ok_iff (refFault : Option RefFault) (refs : RefStore)
    {updates : List RefUpdate} (hne : updates ≠ []) :
    (updateRefs gix refFault refs updates).2 = .ok () ↔
      refFault = none ∧ UpdatesAccepted gix refs updates := by
  cases refFault with
  | none => simp [updateRefs_eq_ok_iff]
  | some refFault =>
    have hcons : updates.isEmpty = false := by simpa using hne
    simp only [reduceCtorEq, false_and, iff_false]
    unfold updateRefs
    rw [if_neg (by simp [hcons])]
    cases refEdits gix updates with
    | error err => simp
    | ok edits =>
      cases refFault with
      | prepare => simp [prepare]
      | commit written =>
        by_cases hprep : Prepared refs edits <;> simp [prepare, hprep, commit]

section Push

variable (state : Repo) (commands : List RefCommand) (packData : Bytes) (checks : ReceiveChecks)

/-- The push is turned down after its promotion: by the history checks, by an interrupted
transaction, or by a transaction that does not accept its updates. -/
def TurnedDown (pack : Option PackName) : Prop :=
  historyReason gix fault state commands checks pack ≠ none ∨ refFault fault ≠ none ∨
    ¬ UpdatesAccepted gix state.refs (refUpdates commands)

/-- When a push that is not applied leaves nothing behind. -/
structure LeavesNothing : Prop where
  /-- A pack file moved under an index of its name holds no new object. -/
  halfPromotion : fault = some .renameIndex → ∀ name,
    Ready gix fault state commands packData checks (some name) → name ∈ state.disk.indexes →
    ∀ id ∈ gix.packObjects name, id ∈ state.disk.objects gix
  /-- A pack promoted into a repository that cannot be reopened holds no new object. -/
  reopening : fault = some .openRepo → inspectsHistory checks = true → ∀ name,
    Ready gix fault state commands packData checks (some name) →
    ∀ id ∈ gix.packObjects name, id ∈ state.disk.objects gix
  /-- A pack that was live before the push and is rolled back has its objects stored elsewhere. -/
  rollback : ∀ name, Promoted gix fault state commands packData checks (some name) →
    TurnedDown gix fault state commands checks (some name) → state.disk.Live name →
    ∀ id ∈ gix.packObjects name, StoredElsewhere gix state.disk name id
  /-- The edits written before an interruption write what the refs hold. -/
  partialCommit : ∀ written pack edits, fault = some (.refs (.commit written)) →
    Promoted gix fault state commands packData checks pack →
    historyReason gix fault state commands checks pack = none →
    refEdits gix (refUpdates commands) = .ok edits → Prepared state.refs edits →
    ∀ edit ∈ (commitOrder edits).take written, state.refs.lookup edit.name = edit.result

/-- A push that does not report every command as applied leaves the repository unchanged. -/
def AllOrNothing : Prop :=
  ¬ ReportsAll commands (receiveBlocking gix fault state commands packData checks).2 →
    Unchanged gix state (receiveBlocking gix fault state commands packData checks).1

/-- Only a push with commands has a pack. -/
theorem Ready.commands_ne_nil {name : PackName}
    (h : Ready gix fault state commands packData checks (some name)) : commands ≠ [] := by
  rintro rfl
  obtain ⟨quarantine, hq, hname, -⟩ := h
  obtain rfl := Except.ok.inj (show Except.ok none = Except.ok quarantine from hq)
  simp [packName] at hname

/-- A push that is not applied reports no ref. -/
theorem not_reportsAll_of_rejected (hne : commands ≠ []) (reason : String) :
    ¬ ReportsAll commands (.ok (reportStatus (.error reason) commands)) := by
  rintro ⟨report, heq, h⟩
  obtain rfl := Except.ok.inj heq
  exact hne (h rfl)

/-- The refs an interrupted transaction leaves are unchanged exactly when the written edits write
what the refs hold. -/
theorem lookup_interrupted_iff {refs : RefStore} {edits : List RefEdit} (written : Nat)
    (hprep : Prepared refs edits) :
    (∀ name, (refs.writeAll ((commitOrder edits).take written)).lookup name = refs.lookup name) ↔
      ∀ edit ∈ (commitOrder edits).take written, refs.lookup edit.name = edit.result := by
  refine lookup_writeAll_eq_iff ?_
  rw [List.map_take]
  exact (nodup_names_commitOrder hprep.1).sublist (List.take_sublist _ _)

/-- A transaction that is turned down reports an error. -/
theorem updateRefs_error_iff (hne : commands ≠ []) :
    (∃ refs err, updateRefs gix (refFault fault) state.refs (refUpdates commands) =
        (refs, .error err)) ↔
      refFault fault ≠ none ∨ ¬ UpdatesAccepted gix state.refs (refUpdates commands) := by
  have hupdates : refUpdates commands ≠ [] := by simpa [refUpdates] using hne
  have hiff := updateRefs_ok_iff gix (refFault fault) state.refs hupdates
  rw [← not_and_or, ← hiff]
  rcases updateRefs gix (refFault fault) state.refs (refUpdates commands) with ⟨refs, err | _⟩
  · exact ⟨fun _ => by simp, fun _ => ⟨refs, err, rfl⟩⟩
  · simp

/-- What `LeavesNothing` is sufficient for, case by case. -/
theorem unchanged_of_leavesNothing
    (h : LeavesNothing gix fault state commands packData checks)
    {out : Repo × Except String ReceiveOutcome}
    (hcase : ReceiveCase gix fault state commands packData checks out)
    (hnot : ¬ ReportsAll commands out.2) : Unchanged gix state out.1 := by
  cases hcase with
  | failed err _ => exact .refl gix state
  | refused reason _ => exact .refl gix state
  | halfPromoted name reason hready hfault =>
    exact ⟨(objects_addPack_iff gix _ _).2 (h.halfPromotion hfault name hready), fun _ => rfl⟩
  | unopened pack reason hready hinspects hfault =>
    refine ⟨(objects_withPack_iff gix _ _).2 ?_, fun _ => rfl⟩
    rintro name rfl
    exact h.reopening hfault hinspects name hready
  | rejected pack reason hpromoted hreason =>
    refine ⟨(objects_rolledBack_iff gix fault _ _).2 ?_, fun _ => rfl⟩
    rintro name rfl
    exact h.rollback name hpromoted (Or.inl (by simp [hreason]))
  | notUpdated pack refs err hpromoted hreason hupdate =>
    refine ⟨(objects_rolledBack_iff gix fault _ _).2 ?_, ?_⟩
    · rintro name rfl
      have hne := hpromoted.ready.commands_ne_nil
      exact h.rollback name hpromoted
        (Or.inr ((updateRefs_error_iff gix fault state commands hne).1 ⟨refs, err, hupdate⟩))
    · have hrefs := updateRefs_cases gix (refFault fault) state.refs (refUpdates commands)
      rw [hupdate] at hrefs
      cases hrefs with
      | refused _ => exact fun _ => rfl
      | interrupted edits written _ hfault hedits hprep =>
        refine (lookup_interrupted_iff written hprep).2 ?_
        refine h.partialCommit written pack edits ?_ hpromoted hreason hedits hprep
        unfold refFault at hfault
        split at hfault
        · rw [Option.some.inj hfault]
        · exact absurd hfault (by simp)
  | landed pack refs _ _ _ => exact absurd (reportsAll_reportStatus_ok commands) hnot

/-- A push that is promoted and turned down ends in a rollback. -/
theorem receiveBlocking_of_turnedDown (hne : commands ≠ []) {pack : Option PackName}
    (hpromoted : Promoted gix fault state commands packData checks pack)
    (hdown : TurnedDown gix fault state commands checks pack) :
    ∃ refs reason, receiveBlocking gix fault state commands packData checks =
      (⟨state.disk.rolledBack fault pack, refs⟩,
        .ok (reportStatus (.error reason) commands)) := by
  have hcase := receiveBlocking_cases gix fault state commands packData checks
  generalize receiveBlocking gix fault state commands packData checks = out at hcase
  have hready := hpromoted.ready
  cases hcase with
  | failed err hq =>
    obtain ⟨quarantine, hq', -⟩ := hready
    rw [hq] at hq'
    exact absurd hq' (by simp)
  | refused reason hwhy =>
    rcases hwhy with hnot | hfault
    · exact absurd hready (hnot pack)
    · cases pack with
      | some name => exact absurd hfault (hpromoted.moved rfl).1
      | none => exact ⟨state.refs, reason, by
          simp [Disk.rolledBack, Disk.withPack, PromotedPack.rollback]⟩
  | halfPromoted name reason hready' hfault =>
    obtain rfl := hready.unique gix fault state commands packData checks hready'
    exact absurd hfault (hpromoted.moved rfl).2
  | unopened pack' reason _ hinspects hfault => exact absurd ⟨hinspects, hfault⟩ hpromoted.opened
  | rejected pack' reason hpromoted' _ =>
    obtain rfl := hready.unique gix fault state commands packData checks hpromoted'.ready
    exact ⟨state.refs, reason, rfl⟩
  | notUpdated pack' refs err hpromoted' _ _ =>
    obtain rfl := hready.unique gix fault state commands packData checks hpromoted'.ready
    exact ⟨refs, err.display, rfl⟩
  | landed pack' refs hpromoted' hreason hupdate =>
    obtain rfl := hready.unique gix fault state commands packData checks hpromoted'.ready
    rcases hdown with hdown | hdown
    · exact absurd hreason hdown
    · obtain ⟨refs', err, herr⟩ := (updateRefs_error_iff gix fault state commands hne).2 hdown
      rw [hupdate] at herr
      exact absurd (Prod.mk.inj herr).2 (by simp)

/-- The state of a push whose index file could not be moved. -/
theorem receiveBlocking_of_renameIndex (hfault : fault = some .renameIndex) {name : PackName}
    (hready : Ready gix fault state commands packData checks (some name)) :
    ∃ reason, receiveBlocking gix fault state commands packData checks =
      ({ state with disk := state.disk.addPack name },
        .ok (reportStatus (.error reason) commands)) := by
  obtain ⟨quarantine, hq, hname, hblocked, hquota, hconn⟩ := hready
  unfold receiveBlocking
  rw [hq]
  simp only
  rw [applyCommands_of_ready gix fault state commands packData checks hblocked hquota hconn]
  rcases promotePack_cases gix fault state.disk quarantine with
    ⟨-, hmoved⟩ | ⟨-, hpack⟩ | ⟨name', hname', -, hpromote⟩
  · exact absurd hfault (hmoved (by simp [hname])).2
  · rw [hfault] at hpack
    exact absurd hpack (by simp)
  · obtain rfl := Option.some.inj (hname.symm.trans hname')
    exact ⟨gix.ioError, by rw [hpromote]; rfl⟩

/-- The state of a push whose repository could not be reopened. -/
theorem receiveBlocking_of_openRepo (hfault : fault = some .openRepo)
    (hinspects : inspectsHistory checks = true) {pack : Option PackName}
    (hready : Ready gix fault state commands packData checks pack) :
    ∃ reason, receiveBlocking gix fault state commands packData checks =
      ({ state with disk := state.disk.withPack pack },
        .ok (reportStatus (.error reason) commands)) := by
  obtain ⟨quarantine, hq, rfl, hblocked, hquota, hconn⟩ := hready
  unfold receiveBlocking
  rw [hq]
  simp only
  rw [applyCommands_of_ready gix fault state commands packData checks hblocked hquota hconn]
  rcases promotePack_cases gix fault state.disk quarantine with
    ⟨hpromote, -⟩ | ⟨-, hpack⟩ | ⟨_, -, hindex, -⟩
  · refine ⟨gix.ioError, ?_⟩
    rw [hpromote]
    simp only [landCommands, hinspects, hfault, and_self, if_true]
    rfl
  · rw [hfault] at hpack
    exact absurd hpack (by simp)
  · rw [hfault] at hindex
    exact absurd hindex (by simp)

/-- The refs of a push whose transaction is interrupted while it is committed. -/
theorem receiveBlocking_of_interrupted (hne : commands ≠ []) {written : Nat}
    (hfault : fault = some (.refs (.commit written))) {pack : Option PackName}
    (hpromoted : Promoted gix fault state commands packData checks pack)
    (hreason : historyReason gix fault state commands checks pack = none)
    {edits : List RefEdit} (hedits : refEdits gix (refUpdates commands) = .ok edits)
    (hprep : Prepared state.refs edits) :
    ∃ disk reason, receiveBlocking gix fault state commands packData checks =
      (⟨disk, state.refs.writeAll ((commitOrder edits).take written)⟩,
        .ok (reportStatus (.error reason) commands)) := by
  have hrefFault : refFault fault = some (.commit written) := by rw [hfault]; rfl
  have hupdate : updateRefs gix (refFault fault) state.refs (refUpdates commands) =
      (state.refs.writeAll ((commitOrder edits).take written),
        .error (.git (gix.transactionError state.refs edits))) := by
    rw [hrefFault]
    unfold updateRefs
    rw [if_neg (by simpa [refUpdates] using hne), hedits]
    simp [prepare, hprep, commit]
  obtain ⟨quarantine, hq, rfl, hblocked, hquota, hconn⟩ := hpromoted.ready
  unfold receiveBlocking
  rw [hq]
  simp only
  rw [applyCommands_of_ready gix fault state commands packData checks hblocked hquota hconn]
  rcases promotePack_cases gix fault state.disk quarantine with
    ⟨hpromote, -⟩ | ⟨-, hpack⟩ | ⟨_, -, hindex, -⟩
  · refine ⟨state.disk.rolledBack fault (packName quarantine),
      gix.transactionError state.refs edits, ?_⟩
    rw [hpromote]
    simp only
    rw [landCommands_of_promoted gix fault state commands checks hpromoted.opened, hreason]
    simp only [hupdate]
    rfl
  · rw [hfault] at hpack
    exact absurd hpack (by simp)
  · rw [hfault] at hindex
    exact absurd hindex (by simp)

/-- An edit that is written belongs to a command. -/
theorem commands_ne_nil_of_mem_take {edits : List RefEdit} {written : Nat} {edit : RefEdit}
    (hedits : refEdits gix (refUpdates commands) = .ok edits)
    (hedit : edit ∈ (commitOrder edits).take written) : commands ≠ [] := by
  rintro rfl
  obtain rfl := Except.ok.inj hedits
  simp [commitOrder] at hedit

/-- A push is all-or-nothing exactly when it leaves nothing behind. -/
theorem allOrNothing_iff :
    AllOrNothing gix fault state commands packData checks ↔
      LeavesNothing gix fault state commands packData checks := by
  constructor
  · intro h
    unfold AllOrNothing at h
    refine ⟨?_, ?_, ?_, ?_⟩
    · intro hfault name hready hindex
      have hne := hready.commands_ne_nil
      obtain ⟨reason, hout⟩ :=
        receiveBlocking_of_renameIndex gix fault state commands packData checks hfault hready
      rw [hout] at h
      have hunchanged := h (not_reportsAll_of_rejected commands hne reason)
      exact (objects_addPack_iff gix _ _).1 hunchanged.1 hindex
    · intro hfault hinspects name hready
      have hne := hready.commands_ne_nil
      obtain ⟨reason, hout⟩ := receiveBlocking_of_openRepo gix fault state commands packData
        checks hfault hinspects hready
      rw [hout] at h
      have hunchanged := h (not_reportsAll_of_rejected commands hne reason)
      exact (objects_withPack_iff gix _ _).1 hunchanged.1 name rfl
    · intro name hpromoted hdown
      have hne := hpromoted.ready.commands_ne_nil
      obtain ⟨refs, reason, hout⟩ := receiveBlocking_of_turnedDown gix fault state commands
        packData checks hne hpromoted hdown
      rw [hout] at h
      have hunchanged := h (not_reportsAll_of_rejected commands hne reason)
      exact (objects_rolledBack_iff gix fault _ _).1 hunchanged.1 name rfl
    · intro written pack edits hfault hpromoted hreason hedits hprep edit hedit
      have hne := commands_ne_nil_of_mem_take gix commands hedits hedit
      obtain ⟨disk, reason, hout⟩ := receiveBlocking_of_interrupted gix fault state commands
        packData checks hne hfault hpromoted hreason hedits hprep
      rw [hout] at h
      have hunchanged := h (not_reportsAll_of_rejected commands hne reason)
      exact (lookup_interrupted_iff written hprep).1 hunchanged.2 edit hedit
  · intro h hnot
    exact unchanged_of_leavesNothing gix fault state commands packData checks h
      (receiveBlocking_cases gix fault state commands packData checks) hnot

end Push

end Atomicity

/-! ## A pack that is pushed again -/

/-- A library whose only pack holds the commit 1 and its empty tree 2. -/
def onePackGix : Gix where
  content := fun id =>
    if id = 1 then plainCommit 2 [] else if id = 2 then .tree (some []) else .blob []
  packObjects := fun name => if name = 7 then [1, 2] else []
  writeToDirectory := fun pack _ => if pack = utf8 "PACK" then .ok (some 7) else .error "bad header"
  validateRefName := fun _ => none
  debug := fun text => "\"" ++ text ++ "\""
  transactionError := fun _ _ => "the reference has moved"
  ioError := "input/output error"

/-- The text of the commit 1. -/
def commitOneHex : String := "0000000000000000000000000000000000000001"

/-- The text of an id that no ref holds. -/
def staleHex : String := "0000000000000000000000000000000000000009"

/-- A repository whose branch `main` is at the commit 1, which only the pack 7 holds. -/
def onePackRepo : Repo where
  disk := ⟨[], [7], [7]⟩
  refs := (∅ : RefStore).insert "refs/heads/main" (.object 1)

/-- The pack of `main` pushed again, with an old value that `main` does not hold. -/
def staleCommand : RefCommand := ⟨staleHex, commitOneHex, "refs/heads/main"⟩

/-- The push is rejected, and the commit that `main` holds is no longer stored. -/
theorem resent_pack_is_deleted :
    ¬ AllOrNothing onePackGix none onePackRepo [staleCommand] (utf8 "PACK") .default := by
  have hout : (receiveBlocking onePackGix none onePackRepo [staleCommand] (utf8 "PACK")
      .default).1.disk.objects onePackGix = [] := by decide
  have hstored : (1 : ObjectId) ∈ onePackRepo.disk.objects onePackGix := by decide
  have hrejected : ¬ ReportsAll [staleCommand] (receiveBlocking onePackGix none onePackRepo
      [staleCommand] (utf8 "PACK") .default).2 := by
    rintro ⟨report, heq, h⟩
    have hempty : (receiveBlocking onePackGix none onePackRepo [staleCommand] (utf8 "PACK")
        .default).2.toOption.map ReceiveOutcome.applied = some [] := by decide
    rw [heq] at hempty
    exact absurd (h (Option.some.inj hempty)) (by simp)
  intro h
  have hmem := ((h hrejected).1 1).2 hstored
  rw [hout] at hmem
  simp at hmem

end Edda.Git
