import Edda.Git.RefSerialization

/-!
# The report of a push

The response to a push is a sequence of packets: `unpack ok`, one status line for each command,
and a flush packet. The name of a ref comes from the client, and a rejection can repeat it, so a
status line can be longer than the line that its command came in.

`wellReported_iff` says exactly when the response reads back as this sequence, with an `ok` line for
exactly the commands that were applied. Two things break it: a status line past the longest
packet, whose length does not fit the four digits in front of it or the limit of the format, and a
ref transaction that is interrupted after it has changed a ref, which is reported as a rejection.
-/

set_option autoImplicit false

namespace Edda.Git

open Edda.Support.RustText

/-- The longest packet of the format, with its four length digits. -/
def maxPktLine : Nat := 65520

/-- The packets of the input, if it can be read to its end. -/
def readPktLines : Nat → Bytes → Option (List PktLine)
  | _, [] => some []
  | 0, _ :: _ => none
  | fuel + 1, b :: bs => match readPktLine (b :: bs) with
    | none => none
    | some (line, rest) => (readPktLines fuel rest).map (line :: ·)

/-! ## Reading packets back -/

/-- A packet whose length takes more than four digits is not read back: what is read starts with a
digit of its length. -/
theorem readPktLine_overlong {payload rest data tail : Bytes} (hlong : ¬ payload.length + 4 < 0x10000)
    (h : readPktLine (writePktLine payload ++ rest) = some (.data data, tail)) :
    ∀ b ∈ data.head?, (hexValue b).isSome := by
  have hfive := five_le_length_lowerHex4 hlong
  intro b hb
  simp only [readPktLine] at h
  split at h
  · simp at h
  · split at h
    · simp at h
    · split at h
      · simp at h
      · split at h
        · simp at h
        · rename_i len _ _ _
          simp only [Option.some.injEq, Prod.mk.injEq, PktLine.data.injEq] at h
          obtain ⟨rfl, -⟩ := h
          -- the fifth byte of what was written is the fifth digit
          have hdrop : (writePktLine payload ++ rest).drop 4 =
              (lowerHex4 (payload.length + 4)).drop 4 ++ (payload ++ rest) := by
            rw [writePktLine, List.append_assoc, List.drop_append_of_le_length (by omega)]
          rw [hdrop] at hb
          cases hdigits : (lowerHex4 (payload.length + 4)).drop 4 with
          | nil =>
            have := congrArg List.length hdigits
            simp only [List.length_drop, List.length_nil] at this
            omega
          | cons d digits =>
            rw [hdigits] at hb
            cases hlen : len - 4 with
            | zero => simp [hlen] at hb
            | succ k =>
              simp only [hlen, List.cons_append, List.take_succ_cons, List.head?_cons,
                Option.mem_def, Option.some.injEq] at hb
              subst hb
              apply hexValue_lowerHex4
              apply List.mem_of_mem_drop
              rw [hdigits]
              exact List.mem_cons_self

theorem readPktLines_of_read {input rest : Bytes} {line : PktLine}
    (h : readPktLine input = some (line, rest)) (fuel : Nat) :
    readPktLines (fuel + 1) input = (readPktLines fuel rest).map (line :: ·) := by
  cases input with
  | nil => simp [readPktLine] at h
  | cons b bs => simp only [readPktLines, h]

/-- The first packet of an input that can be read to its end. -/
theorem readPktLines_cons {fuel : Nat} {input : Bytes} {line : PktLine} {lines : List PktLine}
    (h : readPktLines fuel input = some (line :: lines)) :
    ∃ fuel' rest, readPktLine input = some (line, rest) ∧
      readPktLines fuel' rest = some lines := by
  cases input with
  | nil => cases fuel <;> simp [readPktLines] at h
  | cons b bs =>
    cases fuel with
    | zero => simp [readPktLines] at h
    | succ fuel =>
      simp only [readPktLines] at h
      cases hread : readPktLine (b :: bs) with
      | none => simp [hread] at h
      | some packet =>
        obtain ⟨first, rest⟩ := packet
        simp only [hread, Option.map_eq_some_iff, List.cons.injEq] at h
        obtain ⟨more, hmore, rfl, rfl⟩ := h
        exact ⟨fuel, rest, rfl, hmore⟩

/-- Lines that fit their length digits are read back, up to the flush packet. -/
theorem readPktLines_written {lines : List Bytes}
    (hshort : ∀ line ∈ lines, line.length + 4 < 0x10000) {fuel : Nat}
    (hfuel : lines.length < fuel) :
    readPktLines fuel (lines.flatMap writePktLine ++ writeFlush) =
      some (lines.map .data ++ [.flush]) := by
  induction lines generalizing fuel with
  | nil =>
    obtain ⟨fuel, rfl⟩ : ∃ n, fuel = n + 1 := ⟨fuel - 1, by simp at hfuel; omega⟩
    have hflush := readPktLine_flush []
    rw [List.append_nil] at hflush
    rw [List.flatMap_nil, List.nil_append, readPktLines_of_read hflush]
    cases fuel <;> rfl
  | cons line lines ih =>
    obtain ⟨fuel, rfl⟩ : ∃ n, fuel = n + 1 := ⟨fuel - 1, by simp at hfuel; omega⟩
    have hline := hshort line List.mem_cons_self
    have hrest : ∀ line ∈ lines, line.length + 4 < 0x10000 := by
      intro other hother
      exact hshort other (List.mem_cons_of_mem _ hother)
    rw [List.flatMap_cons, List.append_assoc,
      readPktLines_of_read (readPktLine_writePktLine hline _),
      ih hrest (by simp at hfuel; omega)]
    rfl

/-- Every line takes its length digits. -/
theorem length_lt_written (lines : List Bytes) :
    lines.length < (lines.flatMap writePktLine ++ writeFlush).length := by
  have hflush : writeFlush.length = 4 := by decide
  have hdigits : ∀ line, 4 ≤ (writePktLine line).length := by
    intro line
    simp only [writePktLine, lowerHex4, List.length_append, List.length_cons, List.length_nil]
    omega
  rw [List.length_append, hflush]
  induction lines with
  | nil => simp
  | cons line lines ih =>
    have hline := hdigits line
    rw [List.flatMap_cons, List.length_append, List.length_cons]
    omega

/-- A line that starts with no hexadecimal digit, as status lines do. -/
def StartsPlain (line : Bytes) : Prop := ∃ b ∈ line.head?, hexValue b = none

/-- Lines that are read back, as many as were written and none starting like a length, are the
lines that were written, and every one fits its length digits. -/
theorem lines_of_readPktLines {lines lines' : List Bytes} {fuel : Nat}
    (hlength : lines'.length = lines.length) (hplain : ∀ line ∈ lines', StartsPlain line)
    (h : readPktLines fuel (lines.flatMap writePktLine ++ writeFlush) =
      some (lines'.map .data ++ [.flush])) :
    lines' = lines ∧ ∀ line ∈ lines, line.length + 4 < 0x10000 := by
  induction lines generalizing lines' fuel with
  | nil =>
    obtain rfl := List.length_eq_zero_iff.1 hlength
    exact ⟨rfl, by simp⟩
  | cons line lines ih =>
    cases lines' with
    | nil => simp at hlength
    | cons line' lines' =>
      rw [List.map_cons, List.cons_append, List.flatMap_cons, List.append_assoc] at h
      obtain ⟨fuel', rest, hread, hmore⟩ := readPktLines_cons h
      by_cases hshort : line.length + 4 < 0x10000
      · rw [readPktLine_writePktLine hshort] at hread
        simp only [Option.some.injEq, Prod.mk.injEq, PktLine.data.injEq] at hread
        obtain ⟨rfl, rfl⟩ := hread
        have hrest := ih (by simpa using hlength)
          (fun other hother => hplain other (List.mem_cons_of_mem _ hother)) hmore
        refine ⟨by rw [hrest.1], ?_⟩
        intro other hother
        rcases List.mem_cons.1 hother with rfl | hother
        · exact hshort
        · exact hrest.2 other hother
      · -- the line was cut off behind its fourth length digit
        obtain ⟨b, hb, hnone⟩ := hplain line' List.mem_cons_self
        have hsome := readPktLine_overlong hshort hread b hb
        rw [hnone] at hsome
        exact absurd hsome (by simp)

/-! ## The verdict on a push -/

section Report

variable (gix : Gix) (fault : Option Fault) (state : Repo) (commands : List RefCommand)
  (packData : Bytes) (checks : ReceiveChecks)

/-- What a push is answered with: the reason of the first check that turns it down, or the outcome
of its ref transaction. -/
inductive Verdict : Except String Unit → Prop
  | blocked (reason : String) : blockedRefRejection checks commands = some reason →
      Verdict (.error reason)
  | overQuota (reason : String) : blockedRefRejection checks commands = none →
      quotaRejection checks packData.length = some reason → Verdict (.error reason)
  | disconnected (quarantine : Option Quarantine) (reason : String) :
      blockedRefRejection checks commands = none → quotaRejection checks packData.length = none →
      quarantinePack gix fault state.disk commands packData = .ok quarantine →
      checkConnectivity gix fault state.disk commands quarantine = .error reason →
      Verdict (.error reason)
  | unpromoted (name : PackName) : Ready gix fault state commands packData checks (some name) →
      fault = some .renamePack ∨ fault = some .renameIndex → Verdict (.error gix.ioError)
  | unopened (pack : Option PackName) : Ready gix fault state commands packData checks pack →
      inspectsHistory checks = true → fault = some .openRepo → Verdict (.error gix.ioError)
  | history (pack : Option PackName) (reason : String) :
      Promoted gix fault state commands packData checks pack →
      historyReason gix fault state commands checks pack = some reason → Verdict (.error reason)
  | updated (pack : Option PackName) : Promoted gix fault state commands packData checks pack →
      historyReason gix fault state commands checks pack = none →
      Verdict ((updateRefs gix (refFault fault) state.refs
        (refUpdates commands)).2.mapError GitError.display)

/-- The end of a push that was promoted, as a verdict. -/
theorem landCommands_verdict {quarantine : Option Quarantine}
    (hopened : ¬ (inspectsHistory checks = true ∧ fault = some .openRepo)) :
    (landCommands gix fault { state with disk := state.disk.withPack (packName quarantine) }
        commands checks (quarantine.map fun q => ⟨q.pack⟩)).2 =
      match historyReason gix fault state commands checks (packName quarantine) with
      | some reason => .error reason
      | none => (updateRefs gix (refFault fault) state.refs
          (refUpdates commands)).2.mapError GitError.display := by
  rw [landCommands_of_promoted gix fault state commands checks hopened]
  cases historyReason gix fault state commands checks (packName quarantine) with
  | some reason => rfl
  | none =>
    rcases updateRefs gix (refFault fault) state.refs (refUpdates commands) with ⟨refs, err | _⟩
    · rfl
    · rfl

/-- Every quarantined push has a verdict. -/
theorem verdict_applyCommands {quarantine : Option Quarantine}
    (hquarantine : quarantinePack gix fault state.disk commands packData = .ok quarantine) :
    Verdict gix fault state commands packData checks
      (applyCommands gix fault state commands packData checks quarantine).2 := by
  simp only [applyCommands]
  cases hblocked : blockedRefRejection checks commands with
  | some reason => exact .blocked reason hblocked
  | none =>
    cases hquota : quotaRejection checks packData.length with
    | some reason => exact .overQuota reason hblocked hquota
    | none =>
      cases hconn : checkConnectivity gix fault state.disk commands quarantine with
      | error reason => exact .disconnected quarantine reason hblocked hquota hquarantine hconn
      | ok _ =>
        have hready : Ready gix fault state commands packData checks (packName quarantine) :=
          ⟨quarantine, hquarantine, rfl, hblocked, hquota, hconn⟩
        rcases promotePack_cases gix fault state.disk quarantine with
          ⟨hpromote, hmoved⟩ | ⟨hpromote, hfault⟩ | ⟨name, hname, hfault, hpromote⟩
        · simp only [hpromote]
          by_cases hopened : inspectsHistory checks = true ∧ fault = some .openRepo
          · simp only [landCommands, if_pos hopened]
            exact .unopened (packName quarantine) hready hopened.1 hopened.2
          · have hpromoted : Promoted gix fault state commands packData checks
                (packName quarantine) := ⟨hready, hmoved, hopened⟩
            rw [landCommands_verdict gix fault state commands checks hopened]
            cases hhistory : historyReason gix fault state commands checks
                (packName quarantine) with
            | some reason => exact .history _ reason hpromoted hhistory
            | none => exact .updated _ hpromoted hhistory
        · simp only [hpromote]
          cases hname : packName quarantine with
          | some name => exact .unpromoted name (hname ▸ hready) (Or.inl hfault)
          | none =>
            -- without a pack there is nothing to move
            exfalso
            rcases quarantine with _ | ⟨_ | name⟩
            · simp [promotePack] at hpromote
            · simp [promotePack, Quarantine.promote] at hpromote
            · simp [packName] at hname
        · simp only [hpromote]
          exact .unpromoted name (hname ▸ hready) (Or.inr hfault)

/-- The steps after the checks, for a push that is ready and whose files can be moved. -/
theorem applyCommands_verdict {quarantine : Option Quarantine}
    (hquarantine : quarantinePack gix fault state.disk commands packData = .ok quarantine)
    {pack : Option PackName} (hready : Ready gix fault state commands packData checks pack)
    (hmoved : pack.isSome = true → fault ≠ some .renamePack ∧ fault ≠ some .renameIndex) :
    packName quarantine = pack ∧
      (applyCommands gix fault state commands packData checks quarantine).2 =
        (landCommands gix fault { state with disk := state.disk.withPack (packName quarantine) }
          commands checks (quarantine.map fun q => ⟨q.pack⟩)).2 := by
  obtain ⟨other, hother, hname, hblocked, hquota, hconn⟩ := hready
  obtain rfl := Except.ok.inj (hquarantine.symm.trans hother)
  refine ⟨hname, ?_⟩
  rw [applyCommands_of_ready gix fault state commands packData checks hblocked hquota hconn]
  rcases promotePack_cases gix fault state.disk quarantine with
    ⟨hpromote, -⟩ | ⟨hpromote, hfault⟩ | ⟨name, hname', hfault, hpromote⟩
  · rw [hpromote]
  · cases pack with
    | some name => exact absurd hfault (hmoved rfl).1
    | none =>
      rcases quarantine with _ | ⟨_ | name⟩
      · simp [promotePack] at hpromote
      · simp [promotePack, Quarantine.promote] at hpromote
      · simp [packName] at hname
  · exact absurd hfault (hmoved (by rw [← hname, hname']; rfl)).2

/-- A push has one verdict. -/
theorem Verdict.eq_applyCommands {verdict : Except String Unit}
    (h : Verdict gix fault state commands packData checks verdict)
    {quarantine : Option Quarantine}
    (hquarantine : quarantinePack gix fault state.disk commands packData = .ok quarantine) :
    (applyCommands gix fault state commands packData checks quarantine).2 = verdict := by
  cases h with
  | blocked reason hblocked => simp only [applyCommands, hblocked]
  | overQuota reason hblocked hquota => simp only [applyCommands, hblocked, hquota]
  | disconnected other reason hblocked hquota hother hconn =>
    obtain rfl := Except.ok.inj (hquarantine.symm.trans hother)
    simp only [applyCommands, hblocked, hquota, hconn]
  | unpromoted name hready hfault =>
    obtain ⟨other, hother, hname, hblocked, hquota, hconn⟩ := hready
    obtain rfl := Except.ok.inj (hquarantine.symm.trans hother)
    rw [applyCommands_of_ready gix fault state commands packData checks hblocked hquota hconn]
    rcases promotePack_cases gix fault state.disk quarantine with
      ⟨-, hmoved⟩ | ⟨hpromote, -⟩ | ⟨other, -, -, hpromote⟩
    · have hnot := hmoved (by rw [hname]; rfl)
      rcases hfault with hfault | hfault
      · exact absurd hfault hnot.1
      · exact absurd hfault hnot.2
    · rw [hpromote]
    · rw [hpromote]
  | unopened pack hready hinspects hfault =>
    have hmoved : pack.isSome = true → fault ≠ some .renamePack ∧ fault ≠ some .renameIndex := by
      intro _
      rw [hfault]
      exact ⟨by simp, by simp⟩
    rw [(applyCommands_verdict gix fault state commands packData checks hquarantine hready
      hmoved).2]
    simp only [landCommands, if_pos (And.intro hinspects hfault)]
  | history pack reason hpromoted hreason =>
    obtain ⟨hname, hverdict⟩ := applyCommands_verdict gix fault state commands packData checks
      hquarantine hpromoted.ready hpromoted.moved
    rw [hverdict, landCommands_verdict gix fault state commands checks hpromoted.opened, hname,
      hreason]
  | updated pack hpromoted hreason =>
    obtain ⟨hname, hverdict⟩ := applyCommands_verdict gix fault state commands packData checks
      hquarantine hpromoted.ready hpromoted.moved
    rw [hverdict, landCommands_verdict gix fault state commands checks hpromoted.opened, hname,
      hreason]

/-! ## What the report should say -/

/-- One status line for each command. -/
def statusLines (results : List (Except String Unit)) (commands : List RefCommand) :
    List Bytes :=
  List.zipWith (fun result command => utf8 (statusLine result command)) results commands

/-- The update of a command was applied: it is recorded, and its ref holds the new value. -/
def WasApplied (after : RefStore) (report : ReceiveOutcome) (command : RefCommand) : Prop :=
  ⟨command.refName, command.oldId, command.newId⟩ ∈ report.applied ∧
    NamedValue command.newId (after.lookup command.refName)

/-- The update of a command was not applied: it is not recorded, and its ref is as it was. -/
def NotApplied (before after : RefStore) (report : ReceiveOutcome) (command : RefCommand) : Prop :=
  ⟨command.refName, command.oldId, command.newId⟩ ∉ report.applied ∧
    after.lookup command.refName = before.lookup command.refName

/-- The response is read back as `unpack ok`, one status line for each command, in order, and a
flush packet; no packet is longer than the format allows; and the lines with `ok` are those of the
commands that were applied. -/
structure ReportsEach (before after : RefStore) (report : ReceiveOutcome)
    (results : List (Except String Unit)) : Prop where
  total : results.length = commands.length
  decoded : readPktLines report.response.length report.response =
    some ((utf8 "unpack ok\n" :: statusLines results commands).map .data ++ [.flush])
  framed : ∀ line ∈ statusLines results commands, line.length + 4 ≤ maxPktLine
  applied : ∀ pair ∈ results.zip commands, pair.1 = .ok () → WasApplied after report pair.2
  rejected : ∀ pair ∈ results.zip commands, pair.1 ≠ .ok () →
    NotApplied before after report pair.2

/-- The push is answered with a report that says of each command what became of it. -/
def WellReported : Prop :=
  ∃ report results, (receiveBlocking gix fault state commands packData checks).2 = .ok report ∧
    ReportsEach commands state.refs
      (receiveBlocking gix fault state commands packData checks).1.refs report results

/-- When a push is well reported. -/
structure ReportFits : Prop where
  /-- The pack of the push can be read. -/
  quarantined : ∃ quarantine,
    quarantinePack gix fault state.disk commands packData = .ok quarantine
  /-- The name of every ref, with the reason if the push is turned down, fits a packet. -/
  fits : ∀ verdict, Verdict gix fault state commands packData checks verdict →
    ∀ command ∈ commands, (utf8 (statusLine verdict command)).length + 4 ≤ maxPktLine
  /-- The edits written before an interruption write what the refs hold. -/
  partialCommit : ∀ written pack edits, fault = some (.refs (.commit written)) →
    Promoted gix fault state commands packData checks pack →
    historyReason gix fault state commands checks pack = none →
    refEdits gix (refUpdates commands) = .ok edits → Prepared state.refs edits →
    ∀ edit ∈ (commitOrder edits).take written, state.refs.lookup edit.name = edit.result

/-! ## The refs that a report is about -/

/-- Repairing `HEAD` only changes a ref that is symbolic. -/
theorem lookup_fixUnbornHead_of_named {refs : RefStore} {name hex : String}
    (h : NamedValue hex (refs.lookup name)) :
    NamedValue hex ((fixUnbornHead gix refs).lookup name) := by
  by_cases hname : name = "HEAD"
  · subst hname
    simp only [fixUnbornHead]
    split
    · rename_i target hhead
      simp only [NamedValue, hhead] at h
      split at h
      · exact absurd h (by simp)
      · obtain ⟨id, -, hid⟩ := h
        exact absurd hid (by simp)
    · exact h
  · have hsame : (fixUnbornHead gix refs).lookup name = refs.lookup name := by
      simp only [fixUnbornHead]
      repeat' split
      all_goals first | rfl | exact AList.lookup_insert_ne hname
    rw [hsame]
    exact h

/-- An interrupted transaction of a push that passed its checks. -/
structure Interrupted (written : Nat) (edits : List RefEdit) : Prop where
  met : fault = some (.refs (.commit written))
  promoted : ∃ pack, Promoted gix fault state commands packData checks pack ∧
    historyReason gix fault state commands checks pack = none
  accepted : refEdits gix (refUpdates commands) = .ok edits
  prepared : Prepared state.refs edits

/-- The refs behind a report: all updated, all as they were, or those of an interrupted
transaction. -/
theorem refs_of_report {out : Repo × Except String ReceiveOutcome} {report : ReceiveOutcome}
    (hcase : ReceiveCase gix fault state commands packData checks out)
    (hreport : out.2 = .ok report) :
    (report = reportStatus (.ok ()) commands ∧
        ∀ command ∈ commands, NamedValue command.newId (out.1.refs.lookup command.refName)) ∨
      ∃ reason, report = reportStatus (.error reason) commands ∧
        (out.1.refs = state.refs ∨
          ∃ written edits, Interrupted gix fault state commands packData checks written edits ∧
            out.1.refs = state.refs.writeAll ((commitOrder edits).take written)) := by
  cases hcase with
  | failed err _ => exact absurd hreport (by simp)
  | refused reason _ => exact Or.inr ⟨reason, (Except.ok.inj hreport).symm, Or.inl rfl⟩
  | halfPromoted name reason _ _ => exact Or.inr ⟨reason, (Except.ok.inj hreport).symm, Or.inl rfl⟩
  | unopened pack reason _ _ _ => exact Or.inr ⟨reason, (Except.ok.inj hreport).symm, Or.inl rfl⟩
  | rejected pack reason _ _ => exact Or.inr ⟨reason, (Except.ok.inj hreport).symm, Or.inl rfl⟩
  | notUpdated pack refs err hpromoted hreason hupdate =>
    right
    refine ⟨err.display, (Except.ok.inj hreport).symm, ?_⟩
    have hcase := updateRefs_cases gix (refFault fault) state.refs (refUpdates commands)
    rw [hupdate] at hcase
    cases hcase with
    | refused _ => exact Or.inl rfl
    | interrupted edits written _ hfault hedits hprep =>
      refine Or.inr ⟨written, edits, ⟨?_, ⟨pack, hpromoted, hreason⟩, hedits, hprep⟩, rfl⟩
      unfold refFault at hfault
      split at hfault
      · rw [Option.some.inj hfault]
      · exact absurd hfault (by simp)
  | landed pack refs _ _ hupdate =>
    left
    refine ⟨(Except.ok.inj hreport).symm, ?_⟩
    intro command hmem
    have hcase := updateRefs_cases gix (refFault fault) state.refs (refUpdates commands)
    rw [hupdate] at hcase
    cases hcase with
    | applied edits hedits hprep =>
      have hnamed : NamedValue command.newId
          ((state.refs.writeAll (commitOrder edits)).lookup command.refName) :=
        namedValue_written gix hedits hprep (List.mem_map.2 ⟨command, hmem, rfl⟩)
      dsimp only
      split
      · exact hnamed
      · exact lookup_fixUnbornHead_of_named gix hnamed

/-! ## The response as packets -/

/-- The lines of a report whose commands all have one verdict. -/
def verdictLines (verdict : Except String Unit) (commands : List RefCommand) : List Bytes :=
  commands.map fun command => utf8 (statusLine verdict command)

theorem statusLines_replicate (verdict : Except String Unit) (commands : List RefCommand) :
    statusLines (List.replicate commands.length verdict) commands =
      verdictLines verdict commands := by
  induction commands with
  | nil => rfl
  | cons command commands ih =>
    simp only [statusLines, verdictLines, List.length_cons, List.replicate_succ,
      List.zipWith_cons_cons, List.map_cons, List.cons.injEq, true_and] at ih ⊢
    exact ih

/-- The response, packet by packet. -/
theorem response_reportStatus (verdict : Except String Unit) (commands : List RefCommand) :
    (reportStatus verdict commands).response =
      (utf8 "unpack ok\n" :: verdictLines verdict commands).flatMap writePktLine ++ writeFlush := by
  simp only [reportStatus, verdictLines, List.flatMap_cons, List.flatMap_map, List.append_assoc]

theorem startsPlain_statusLine (result : Except String Unit) (command : RefCommand) :
    StartsPlain (utf8 (statusLine result command)) := by
  cases result with
  | ok _ =>
    refine ⟨0x6F, ?_, by decide⟩
    simp only [statusLine, utf8_append]
    rfl
  | error reason =>
    refine ⟨0x6E, ?_, by decide⟩
    simp only [statusLine, utf8_append]
    rfl

/-- A line with `ok` is not a line with `ng`. -/
theorem statusLine_ok_ne (reason : String) (command : RefCommand) :
    utf8 (statusLine (.ok ()) command) ≠ utf8 (statusLine (.error reason) command) := by
  intro h
  have hhead := congrArg List.head? h
  simp only [statusLine, utf8_append] at hhead
  exact absurd hhead (by simp [utf8, String.utf8EncodeChar])

theorem length_statusLines {results : List (Except String Unit)} {commands : List RefCommand}
    (h : results.length = commands.length) :
    (statusLines results commands).length = commands.length := by
  rw [statusLines, List.length_zipWith, h, Nat.min_self]

/-- Lines that agree, agree command by command. -/
theorem line_of_zip {results : List (Except String Unit)} {commands : List RefCommand}
    {verdict : Except String Unit} (h : statusLines results commands = verdictLines verdict commands)
    {pair : Except String Unit × RefCommand} (hpair : pair ∈ results.zip commands) :
    utf8 (statusLine pair.1 pair.2) = utf8 (statusLine verdict pair.2) := by
  induction commands generalizing results with
  | nil => simp at hpair
  | cons command commands ih =>
    cases results with
    | nil => simp at hpair
    | cons result results =>
      simp only [statusLines, verdictLines, List.zipWith_cons_cons, List.map_cons,
        List.cons.injEq] at h
      rcases List.mem_cons.1 hpair with rfl | hpair
      · exact h.1
      · exact ih h.2 hpair

/-- Every command has its result. -/
theorem exists_zip_of_mem {results : List (Except String Unit)} {commands : List RefCommand}
    (h : results.length = commands.length) {command : RefCommand} (hmem : command ∈ commands) :
    ∃ result, (result, command) ∈ results.zip commands := by
  induction commands generalizing results with
  | nil => simp at hmem
  | cons first commands ih =>
    cases results with
    | nil => simp at h
    | cons result results =>
      rcases List.mem_cons.1 hmem with rfl | hmem
      · exact ⟨result, List.mem_cons_self⟩
      · obtain ⟨other, hother⟩ := ih (by simpa using h) hmem
        exact ⟨other, List.mem_cons_of_mem _ hother⟩

/-- A report that reads back as one line for each command has the lines of its verdict, and they
fit. -/
theorem lines_of_reportsEach {before after : RefStore} {verdict : Except String Unit}
    {results : List (Except String Unit)}
    (h : ReportsEach commands before after (reportStatus verdict commands) results) :
    statusLines results commands = verdictLines verdict commands := by
  have hdecoded := h.decoded
  rw [response_reportStatus] at hdecoded
  have hlength : (utf8 "unpack ok\n" :: statusLines results commands).length =
      (utf8 "unpack ok\n" :: verdictLines verdict commands).length := by
    simp only [List.length_cons, length_statusLines h.total, verdictLines, List.length_map]
  have hplain : ∀ line ∈ utf8 "unpack ok\n" :: statusLines results commands,
      StartsPlain line := by
    intro line hline
    rcases List.mem_cons.1 hline with rfl | hline
    · exact ⟨0x75, rfl, by decide⟩
    · obtain ⟨i, hi, rfl⟩ := List.mem_iff_getElem.1 hline
      simp only [statusLines, List.getElem_zipWith]
      exact startsPlain_statusLine _ _
  exact (List.cons.inj (lines_of_readPktLines hlength hplain hdecoded).1).2

/-! ## The report of a push -/

/-- A quarantined push is answered with the report of its verdict. -/
theorem receiveBlocking_report {quarantine : Option Quarantine}
    (hquarantine : quarantinePack gix fault state.disk commands packData = .ok quarantine) :
    (receiveBlocking gix fault state commands packData checks).2 =
      .ok (reportStatus
        (applyCommands gix fault state commands packData checks quarantine).2 commands) := by
  simp only [receiveBlocking, hquarantine]
  rcases applyCommands gix fault state commands packData checks quarantine with ⟨after, reason | _⟩
  · rfl
  · rfl

/-- Only a quarantined push is answered with a report. -/
theorem exists_quarantine_of_report {report : ReceiveOutcome}
    (h : (receiveBlocking gix fault state commands packData checks).2 = .ok report) :
    ∃ quarantine, quarantinePack gix fault state.disk commands packData = .ok quarantine := by
  cases hquarantine : quarantinePack gix fault state.disk commands packData with
  | ok quarantine => exact ⟨quarantine, rfl⟩
  | error err =>
    simp only [receiveBlocking, hquarantine] at h
    exact absurd h (by simp)

/-- The refs of an interrupted transaction are unchanged, as far as the commands name them, exactly
when the written edits write what the refs hold. -/
theorem interrupted_unchanged_iff {written : Nat} {edits : List RefEdit}
    (h : Interrupted gix fault state commands packData checks written edits) :
    (∀ command ∈ commands,
        (state.refs.writeAll ((commitOrder edits).take written)).lookup command.refName =
          state.refs.lookup command.refName) ↔
      ∀ edit ∈ (commitOrder edits).take written, state.refs.lookup edit.name = edit.result := by
  rw [← lookup_interrupted_iff written h.prepared]
  constructor
  · intro hsame name
    by_cases hname : name ∈ ((commitOrder edits).take written).map RefEdit.name
    · obtain ⟨edit, hedit, rfl⟩ := List.mem_map.1 hname
      obtain ⟨update, hupdate, heq⟩ := exists_update_of_edit gix h.accepted
        (mem_commitOrder.1 (List.mem_of_mem_take hedit))
      obtain ⟨command, hcommand, rfl⟩ := List.mem_map.1 hupdate
      rw [name_of_refEdit gix heq]
      exact hsame command hcommand
    · exact lookup_writeAll_of_not_mem _ _ hname
  · intro hsame command _
    exact hsame command.refName

/-- A report tells an applied push from one that was turned down. -/
theorem ok_iff_of_reportStatus {verdict verdict' : Except String Unit} {command : RefCommand}
    (hmem : command ∈ commands)
    (h : reportStatus verdict commands = reportStatus verdict' commands) :
    verdict = .ok () ↔ verdict' = .ok () := by
  have happlied := congrArg ReceiveOutcome.applied h
  have hne : commands ≠ [] := List.ne_nil_of_mem hmem
  rcases verdict with reason | _ <;> rcases verdict' with reason' | _ <;>
    simp_all [reportStatus]

/-- A push whose report fits is well reported. -/
theorem wellReported_of_fits (h : ReportFits gix fault state commands packData checks) :
    WellReported gix fault state commands packData checks := by
  obtain ⟨quarantine, hquarantine⟩ := h.quarantined
  have hreport := receiveBlocking_report gix fault state commands packData checks hquarantine
  have hverdict := verdict_applyCommands gix fault state commands packData checks hquarantine
  have hrefs := refs_of_report gix fault state commands packData checks
    (receiveBlocking_cases gix fault state commands packData checks) hreport
  generalize (applyCommands gix fault state commands packData checks quarantine).2 = verdict at *
  have hlines : statusLines (List.replicate commands.length verdict) commands =
      verdictLines verdict commands := statusLines_replicate verdict commands
  have hfits : ∀ line ∈ verdictLines verdict commands, line.length + 4 ≤ maxPktLine := by
    intro line hline
    obtain ⟨command, hcommand, rfl⟩ := List.mem_map.1 hline
    exact h.fits verdict hverdict command hcommand
  have hresult : ∀ pair ∈ (List.replicate commands.length verdict).zip commands,
      pair.1 = verdict ∧ pair.2 ∈ commands := by
    rintro ⟨result, command⟩ hpair
    exact ⟨List.eq_of_mem_replicate (List.of_mem_zip hpair).1, (List.of_mem_zip hpair).2⟩
  refine ⟨reportStatus verdict commands, List.replicate commands.length verdict, hreport, ?_⟩
  refine ⟨by simp, ?_, by rw [hlines]; exact hfits, ?_, ?_⟩
  · rw [response_reportStatus, hlines]
    apply readPktLines_written
    · intro line hline
      rcases List.mem_cons.1 hline with rfl | hline
      · decide
      · have hmax := hfits line hline
        simp only [maxPktLine] at hmax
        omega
    · exact length_lt_written _
  · intro pair hpair hok
    obtain ⟨hfirst, hsecond⟩ := hresult pair hpair
    rcases hrefs with ⟨hout, hnamed⟩ | ⟨reason, hout, -⟩
    · rw [hout]
      exact ⟨List.mem_map.2 ⟨pair.2, hsecond, rfl⟩, hnamed pair.2 hsecond⟩
    · have hiff := ok_iff_of_reportStatus commands hsecond hout
      exact absurd (hiff.1 (hfirst ▸ hok)) (by simp)
  · intro pair hpair hrejected
    obtain ⟨hfirst, hsecond⟩ := hresult pair hpair
    rcases hrefs with ⟨hout, -⟩ | ⟨reason, hout, hrefs⟩
    · exact absurd (hfirst.trans ((ok_iff_of_reportStatus commands hsecond hout).2 rfl)) hrejected
    · rw [hout]
      refine ⟨by simp [reportStatus], ?_⟩
      rcases hrefs with hsame | ⟨written, edits, hinterrupted, hwritten⟩
      · rw [hsame]
      · obtain ⟨pack, hpromoted, hreason⟩ := hinterrupted.promoted
        rw [hwritten]
        exact (interrupted_unchanged_iff gix fault state commands packData checks hinterrupted).2
          (h.partialCommit written pack edits hinterrupted.met hpromoted hreason
            hinterrupted.accepted hinterrupted.prepared) pair.2 hsecond

/-- The lines of a well reported push fit, whatever its verdict. -/
theorem fits_of_wellReported (h : WellReported gix fault state commands packData checks)
    {verdict : Except String Unit}
    (hverdict : Verdict gix fault state commands packData checks verdict) :
    ∀ command ∈ commands, (utf8 (statusLine verdict command)).length + 4 ≤ maxPktLine := by
  obtain ⟨report, results, hreport, heach⟩ := h
  obtain ⟨quarantine, hquarantine⟩ :=
    exists_quarantine_of_report gix fault state commands packData checks hreport
  rw [receiveBlocking_report gix fault state commands packData checks hquarantine,
    hverdict.eq_applyCommands gix fault state commands packData checks hquarantine] at hreport
  obtain rfl := Except.ok.inj hreport
  have hlines := lines_of_reportsEach commands heach
  intro command hmem
  apply heach.framed
  rw [hlines]
  exact List.mem_map.2 ⟨command, hmem, rfl⟩

/-- A push is well reported exactly when its report fits: the pack can be read, no status line is
longer than a packet, and no transaction is interrupted behind a changed ref. -/
theorem wellReported_iff :
    WellReported gix fault state commands packData checks ↔
      ReportFits gix fault state commands packData checks := by
  constructor
  · intro h
    refine ⟨?_, ?_, ?_⟩
    · obtain ⟨report, results, hreport, -⟩ := h
      exact exists_quarantine_of_report gix fault state commands packData checks hreport
    · intro verdict hverdict
      exact fits_of_wellReported gix fault state commands packData checks h hverdict
    · intro written pack edits hfault hpromoted hreason hedits hprep edit hedit
      have hne := commands_ne_nil_of_mem_take gix commands hedits hedit
      obtain ⟨disk, reason, hout⟩ := receiveBlocking_of_interrupted gix fault state commands
        packData checks hne hfault hpromoted hreason hedits hprep
      obtain ⟨report, results, hreport, heach⟩ := h
      rw [hout] at hreport heach
      obtain rfl := Except.ok.inj hreport
      have hlines := lines_of_reportsEach commands heach
      -- every line says `ng`, so every ref a command names is as it was
      have hsame : ∀ command ∈ commands,
          (state.refs.writeAll ((commitOrder edits).take written)).lookup command.refName =
            state.refs.lookup command.refName := by
        intro command hcommand
        obtain ⟨result, hpair⟩ := exists_zip_of_mem heach.total hcommand
        have hng : result ≠ .ok () := by
          rintro rfl
          exact statusLine_ok_ne reason command (line_of_zip hlines hpair)
        exact (heach.rejected _ hpair hng).2
      exact (interrupted_unchanged_iff gix fault state commands packData checks
        ⟨hfault, ⟨pack, hpromoted, hreason⟩, hedits, hprep⟩).1 hsame edit hedit
  · intro h
    exact wellReported_of_fits gix fault state commands packData checks h

end Report

/-! ## A ref name of invalid bytes -/

/-- The two ids of a command from nothing to nothing, each with its separator. -/
def nothingText : String := zeroId ++ " " ++ zeroId ++ " "

/-- A command whose ref name is `n` invalid bytes, as it is sent. -/
def invalidLine (n : Nat) : Bytes := utf8 nothingText ++ List.replicate n 0xFF

/-- The command as it is parsed. -/
def invalidCommand (n : Nat) : RefCommand :=
  ⟨zeroId, zeroId, String.ofList (List.replicate n replacement)⟩

theorem parseRefCommand_invalidLine (gix : Gix) (n : Nat) :
    parseRefCommand gix (invalidLine (n + 1)) = .ok (invalidCommand (n + 1)) := by
  have hchars : ∀ c ∈ nothingText.toList, c = '0' ∨ c = ' ' := by
    have hdigits : ∀ c ∈ zeroId.toList, c = '0' := by simp [zeroId]
    intro c hc
    simp only [nothingText, String.toList_append, List.mem_append] at hc
    rcases hc with ((hc | hc) | hc) | hc
    · exact Or.inl (hdigits c hc)
    · exact Or.inr (by simpa using hc)
    · exact Or.inl (hdigits c hc)
    · exact Or.inr (by simpa using hc)
  have hnul : ∀ c ∈ nothingText.toList, c ≠ '\x00' := by
    intro c hc
    rcases hchars c hc with rfl | rfl <;> decide
  have hsplit : nothingText.toList = zeroId.toList ++ ' ' :: (zeroId.toList ++ [' ']) := by
    decide +kernel
  have hzero : ' ' ∉ zeroId.toList := by decide +kernel
  have hreplacement : isWhitespace replacement = false := by decide
  have hdecoded : fromUtf8Lossy (invalidLine (n + 1)) =
      nothingText.toList ++ List.replicate (n + 1) replacement := by
    rw [fromUtf8Lossy, invalidLine, decodeLossy_utf8, decodeLossy_invalid]
  have hbefore : beforeFirst '\x00' (nothingText.toList ++ List.replicate (n + 1) replacement) =
      nothingText.toList ++ List.replicate (n + 1) replacement := by
    apply List.takeWhile_eq_self_iff.2
    intro c hc
    rcases List.mem_append.1 hc with hc | hc
    · simpa using hnul c hc
    · rw [List.eq_of_mem_replicate hc]
      decide
  have htrim : trimEnd (nothingText.toList ++ List.replicate (n + 1) replacement) =
      nothingText.toList ++ List.replicate (n + 1) replacement := by
    rw [List.replicate_succ', ← List.append_assoc]
    exact trimEnd_concat hreplacement _
  have hcommand : splitCommand (nothingText.toList ++ List.replicate (n + 1) replacement) =
      some (zeroId.toList, zeroId.toList, List.replicate (n + 1) replacement) := by
    have hinner : splitOnce ' '
        (zeroId.toList ++ ' ' :: List.replicate (n + 1) replacement) =
        some (zeroId.toList, List.replicate (n + 1) replacement) := splitOnce_append hzero _
    have houter : nothingText.toList ++ List.replicate (n + 1) replacement =
        zeroId.toList ++ ' ' :: (zeroId.toList ++ ' ' :: List.replicate (n + 1) replacement) := by
      rw [hsplit]
      simp only [List.append_assoc, List.cons_append, List.nil_append]
    rw [houter, splitCommand, splitOnce_append hzero]
    simp only [hinner, Option.map_some]
  simp only [parseRefCommand, hdecoded, hbefore, htrim, hcommand, String.ofList_toList,
    invalidCommand]

theorem length_invalidLine (n : Nat) : (invalidLine n).length = n + 82 := by
  have h : (utf8 nothingText).length = 82 := by decide +kernel
  rw [invalidLine, List.length_append, List.length_replicate, h]
  omega

/-- The command is accepted by the parser. -/
theorem parse_invalidLine (gix : Gix) {n : Nat} (hn : n < 65000) :
    parseReceivePackCommands gix (writePktLine (invalidLine (n + 1)) ++ writeFlush) =
      .ok ([invalidCommand (n + 1)], []) := by
  have hshort : (invalidLine (n + 1)).length + 4 < 0x10000 := by
    rw [length_invalidLine]
    omega
  have hread := readPktLine_writePktLine hshort writeFlush
  have hflush : readPktLine writeFlush = some (.flush, []) := by decide
  have hlength : (writePktLine (invalidLine (n + 1)) ++ writeFlush).length =
      (n + 89) + 2 := by
    rw [List.length_append, length_writePktLine hshort, length_invalidLine]
    have hfour : writeFlush.length = 4 := by decide
    omega
  rw [parseReceivePackCommands, hlength]
  simp only [parseCommands, hread, hflush, parseRefCommand_invalidLine]

/-- A status line holds the name of its ref. -/
theorem length_refName_le (result : Except String Unit) (command : RefCommand) :
    (utf8 command.refName).length ≤ (utf8 (statusLine result command)).length := by
  cases result with
  | ok _ =>
    simp only [statusLine, utf8_append, List.length_append]
    omega
  | error reason =>
    simp only [statusLine, utf8_append, List.length_append]
    omega

theorem length_invalidName (n : Nat) : (utf8 (invalidCommand n).refName).length = 3 * n := by
  have hthree : (String.utf8EncodeChar replacement).length = 3 := by decide
  simp only [invalidCommand, utf8, String.toList_ofList]
  induction n with
  | zero => rfl
  | succ n ih =>
    rw [List.replicate_succ, List.flatMap_cons, List.length_append, ih, hthree]
    omega

/-- The parser accepts a command whose ref name is 30000 invalid bytes. The name takes 90000 bytes
in its status line, whatever the verdict is, and the report cannot be read back. -/
theorem invalid_name_is_misframed :
    parseReceivePackCommands onePackGix (writePktLine (invalidLine 30000) ++ writeFlush) =
        .ok ([invalidCommand 30000], []) ∧
      ¬ WellReported onePackGix none onePackRepo [invalidCommand 30000] [] .default := by
  refine ⟨parse_invalidLine onePackGix (by omega), ?_⟩
  intro h
  have hquarantine : quarantinePack onePackGix none onePackRepo.disk [invalidCommand 30000] [] =
      .ok none := by
    simp only [quarantinePack, needsPack, invalidCommand, List.any_cons, List.any_nil, ne_eq,
      not_true_eq_false, decide_false, Bool.or_false, Bool.false_eq_true, if_false]
  have hfits := fits_of_wellReported onePackGix none onePackRepo [invalidCommand 30000] [] .default
    h (verdict_applyCommands onePackGix none onePackRepo [invalidCommand 30000] [] .default
      hquarantine) (invalidCommand 30000) (List.mem_singleton.2 rfl)
  have hname := length_refName_le (applyCommands onePackGix none onePackRepo
    [invalidCommand 30000] [] .default none).2 (invalidCommand 30000)
  rw [length_invalidName] at hname
  simp only [maxPktLine] at hfits
  omega

end Edda.Git
