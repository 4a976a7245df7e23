import Edda.Git.PktLineExact
import Edda.Git.ReceiveAtomicity

/-!
# The command section of a push

A client sends a packet for each ref that it updates, with both ids and the name of the ref, then a
flush packet and the pack. Its capabilities stand behind a NUL in the first packet, and every packet
may end in a line feed.

`parseReceivePackCommandsAt` reads the section as the code does, by positions in the body;
`parseReceivePackCommands` reads it by the bytes that are left. `commands_round_trip`: what was sent
is read back, and the offset is that of the pack, whatever its bytes are. Two kinds of commands are
not read back: those without a name, whose last separator is trimmed, and those whose packet is too
long for the four digits of its length.
-/

set_option autoImplicit false

namespace Edda.Git

open Edda.Support.RustText Edda.Support.Varint

/-! ## Reading by positions -/

/-- The commands from `pos` on, appended to those that were read, and the position behind them. -/
def parseCommandsAt (checks : Bool) (gix : Gix) (body : Bytes) :
    Nat → Nat → List RefCommand → Except (Failure String) (List RefCommand × Nat)
  | 0, pos, commands => .ok (commands, pos)
  | steps + 1, pos, commands => match readPktLineAt checks body pos with
    | .error (.error never) => nomatch never
    | .error .panic => .error .panic
    | .ok (none, pos) => .ok (commands, pos)
    | .ok (some .flush, pos) => .ok (commands, pos)
    | .ok (some (.data line), pos) => match parseRefCommand gix line with
      | .error err => .error (.error err)
      | .ok command => parseCommandsAt checks gix body steps pos (commands ++ [command])

/-- `parse_receive_pack_commands`. Every packet takes four bytes at least, so that as many steps as
bytes are enough. -/
def parseReceivePackCommandsAt (checks : Bool) (gix : Gix) (body : Bytes) :
    Except (Failure String) (List RefCommand × Nat) :=
  parseCommandsAt checks gix body body.length 0 []

/-! ## Sending -/

/-- A command and what ends its line. -/
structure SentCommand where
  command : RefCommand
  terminator : String

/-- `old new name`. -/
def commandText (command : RefCommand) : String :=
  command.oldId ++ " " ++ command.newId ++ " " ++ command.refName

/-- The capabilities of the first line. -/
def capabilityTail : Option Bytes → Bytes
  | none => []
  | some capabilities => 0 :: capabilities

def SentCommand.payload (capabilities : Option Bytes) (sent : SentCommand) : Bytes :=
  utf8 (commandText sent.command) ++ (capabilityTail capabilities ++ utf8 sent.terminator)

/-- The payloads of the lines; capabilities are sent on the first one only. -/
def sentPayloads (capabilities : Option Bytes) : List SentCommand → List Bytes
  | [] => []
  | sent :: rest => sent.payload capabilities :: sentPayloads none rest

def encodeSection (capabilities : Option Bytes) (sent : List SentCommand) : Bytes :=
  (sentPayloads capabilities sent).flatMap writePktLine ++ writeFlush

/-- An id of forty hexadecimal digits. -/
def IsId (text : String) : Prop :=
  text.toList.length = 40 ∧ ∀ c ∈ text.toList, c ∈ "0123456789abcdefABCDEF".toList

/-- Two ids, and a name without a NUL that does not end in white space. -/
structure Sendable (command : RefCommand) : Prop where
  oldId : IsId command.oldId
  newId : IsId command.newId
  noNul : '\x00' ∉ command.refName.toList
  noTrailingSpace : ∀ c ∈ command.refName.toList.getLast?, isWhitespace c = false

/-- The commands are read back in order, and the offset is that of what follows the flush. -/
def RoundTrips (checks : Bool) (gix : Gix) (capabilities : Option Bytes) (sent : List SentCommand)
    (pack : Bytes) : Prop :=
  parseReceivePackCommandsAt checks gix (encodeSection capabilities sent ++ pack) =
    .ok (sent.map SentCommand.command, (encodeSection capabilities sent).length)

/-! ## One line -/

theorem not_mem_of_isId {text : String} {c : Char} (h : IsId text)
    (hc : c ∉ "0123456789abcdefABCDEF".toList) : c ∉ text.toList :=
  fun hmem => hc (h.2 c hmem)

/-- White space behind a text is trimmed. -/
theorem trimEnd_append_whitespace {text space : List Char}
    (hspace : ∀ c ∈ space, isWhitespace c = true) :
    trimEnd (text ++ space) = trimEnd text := by
  have hall : space.reverse.dropWhile isWhitespace = [] := by
    apply List.dropWhile_eq_nil_iff.2
    intro c hc
    exact hspace c (List.mem_reverse.1 hc)
  rw [trimEnd, trimEnd, List.reverse_append, List.dropWhile_append, hall]
  rfl

/-- A text that ends in a name is not trimmed. -/
theorem trimEnd_append_name {text name : List Char} (hname : name ≠ [])
    (hlast : ∀ c ∈ name.getLast?, isWhitespace c = false) : trimEnd (text ++ name) = text ++ name := by
  have hend : isWhitespace (name.getLast hname) = false :=
    hlast _ (List.getLast_mem_getLast? hname)
  have hsplit : text ++ name = (text ++ name.dropLast) ++ [name.getLast hname] := by
    rw [List.append_assoc, List.dropLast_append_getLast hname]
  rw [hsplit]
  exact trimEnd_concat hend _

/-- Text is cut off at a NUL behind it. -/
theorem beforeFirst_append {sep : Char} {text : List Char} (htext : sep ∉ text)
    (rest : List Char) : beforeFirst sep (text ++ sep :: rest) = text := by
  rw [beforeFirst, List.takeWhile_append_of_pos]
  · simp
  · intro c hc
    have hne : c ≠ sep := by
      rintro rfl
      exact htext hc
    simpa using hne

theorem beforeFirst_eq_self {sep : Char} {text : List Char} (htext : sep ∉ text) :
    beforeFirst sep text = text := by
  apply List.takeWhile_eq_self_iff.2
  intro c hc
  have hne : c ≠ sep := by
    rintro rfl
    exact htext hc
  simpa using hne

/-- The two ids of a command are split off, and the rest is its name. -/
theorem splitCommand_of_noSpace {old new name : List Char} (hold : ' ' ∉ old) (hnew : ' ' ∉ new) :
    splitCommand (old ++ ' ' :: (new ++ ' ' :: name)) = some (old, new, name) := by
  simp only [splitCommand, splitOnce_append hold, splitOnce_append hnew, Option.map_some]

theorem toList_commandText (command : RefCommand) :
    (commandText command).toList = command.oldId.toList ++ ' ' ::
      (command.newId.toList ++ ' ' :: command.refName.toList) := by
  have hspace : " ".toList = [' '] := rfl
  simp only [commandText, String.toList_append, hspace, List.append_assoc, List.cons_append,
    List.nil_append]

/-- A line is read back: the ids have no space and no NUL, and the name is not trimmed. What stands
behind the command is white space, or a NUL and anything. -/
theorem parseRefCommand_of_text (gix : Gix) {command : RefCommand} (tail : Bytes)
    (hold : ' ' ∉ command.oldId.toList) (hnew : ' ' ∉ command.newId.toList)
    (hnul : '\x00' ∉ (commandText command).toList) (hname : command.refName ≠ "")
    (hlast : ∀ c ∈ command.refName.toList.getLast?, isWhitespace c = false)
    (htail : (∃ rest, tail = 0 :: rest) ∨
      ∃ space : String, tail = utf8 space ∧ ∀ c ∈ space.toList, isWhitespace c = true) :
    parseRefCommand gix (utf8 (commandText command) ++ tail) = .ok command := by
  have htrim : trimEnd (commandText command).toList = (commandText command).toList := by
    have hsplit : (commandText command).toList =
        (command.oldId ++ " " ++ command.newId ++ " ").toList ++ command.refName.toList := by
      rw [commandText, String.toList_append]
    rw [hsplit]
    exact trimEnd_append_name (fun hnil => hname (String.toList_inj.1 hnil)) hlast
  have htext : trimEnd (beforeFirst '\x00' (fromUtf8Lossy (utf8 (commandText command) ++ tail))) =
      (commandText command).toList := by
    rw [fromUtf8Lossy, decodeLossy_utf8]
    rcases htail with ⟨rest, rfl⟩ | ⟨space, rfl, hspace⟩
    · have hzero : decodeLossy none (0 :: rest) = '\x00' :: decodeLossy none rest := rfl
      rw [hzero, beforeFirst_append hnul, htrim]
    · have hdecoded : decodeLossy none (utf8 space) = space.toList := by
        have hall := decodeLossy_utf8 space []
        rwa [List.append_nil, decodeLossy, List.append_nil] at hall
      have hnulSpace : '\x00' ∉ (commandText command).toList ++ space.toList := by
        rw [List.mem_append, not_or]
        refine ⟨hnul, fun hmem => ?_⟩
        exact absurd (hspace _ hmem) (by decide)
      rw [hdecoded, beforeFirst_eq_self hnulSpace, trimEnd_append_whitespace hspace, htrim]
  simp only [parseRefCommand, htext]
  rw [toList_commandText, splitCommand_of_noSpace hold hnew]
  simp only [String.ofList_toList]

theorem nul_not_mem_commandText {command : RefCommand} (h : Sendable command) :
    '\x00' ∉ (commandText command).toList := by
  have hold := not_mem_of_isId h.oldId (c := '\x00') (by decide)
  have hnew := not_mem_of_isId h.newId (c := '\x00') (by decide)
  have hname := h.noNul
  rw [toList_commandText]
  simp [hold, hnew, hname]

theorem parseRefCommand_payload (gix : Gix) (capabilities : Option Bytes) {sent : SentCommand}
    (hsent : Sendable sent.command) (hname : sent.command.refName ≠ "")
    (hterminator : ∀ c ∈ sent.terminator.toList, isWhitespace c = true) :
    parseRefCommand gix (sent.payload capabilities) = .ok sent.command := by
  refine parseRefCommand_of_text gix _ (not_mem_of_isId hsent.oldId (by decide))
    (not_mem_of_isId hsent.newId (by decide)) (nul_not_mem_commandText hsent) hname
    hsent.noTrailingSpace ?_
  cases capabilities with
  | none => exact .inr ⟨sent.terminator, rfl, hterminator⟩
  | some capabilities => exact .inl ⟨_, rfl⟩

/-! ## All lines -/

/-- The lines of a section are read up to the flush. -/
theorem parseCommands_encodeSection (gix : Gix) (sent : List SentCommand) (pack : Bytes)
    (hsent : ∀ line ∈ sent, Sendable line.command ∧ line.command.refName ≠ "" ∧
      ∀ c ∈ line.terminator.toList, isWhitespace c = true)
    (capabilities : Option Bytes)
    (hfits : ∀ payload ∈ sentPayloads capabilities sent, payload.length + 4 < 0x10000)
    {steps : Nat} (hsteps : sent.length < steps) :
    parseCommands gix steps (encodeSection capabilities sent ++ pack) =
      .ok (sent.map SentCommand.command, pack) := by
  induction sent generalizing capabilities steps with
  | nil =>
    cases steps with
    | zero => exact absurd hsteps (Nat.not_lt_zero _)
    | succ steps =>
      simp only [encodeSection, sentPayloads, List.flatMap_nil, List.nil_append, parseCommands,
        readPktLine_flush, List.map_nil]
  | cons line sent ih =>
    cases steps with
    | zero => exact absurd hsteps (Nat.not_lt_zero _)
    | succ steps =>
      obtain ⟨hline, hname, hterminator⟩ := hsent line List.mem_cons_self
      have hread := readPktLine_writePktLine (hfits _ List.mem_cons_self)
        (encodeSection none sent ++ pack)
      have hrest := ih (fun other hmem => hsent other (List.mem_cons_of_mem _ hmem)) none
        (fun payload hmem => hfits payload (List.mem_cons_of_mem _ hmem))
        (Nat.lt_of_succ_lt_succ hsteps)
      have hsplit : encodeSection capabilities (line :: sent) ++ pack =
          writePktLine (line.payload capabilities) ++ (encodeSection none sent ++ pack) := by
        simp only [encodeSection, sentPayloads, List.flatMap_cons, List.append_assoc]
      simp only [hsplit, parseCommands, hread,
        parseRefCommand_payload gix capabilities hline hname hterminator, hrest, List.map_cons]

theorem length_sentPayloads (capabilities : Option Bytes) (sent : List SentCommand) :
    (sentPayloads capabilities sent).length = sent.length := by
  induction sent generalizing capabilities with
  | nil => rfl
  | cons line sent ih => simp only [sentPayloads, List.length_cons, ih]

/-- There are more bytes than lines. -/
theorem length_lt_encodeSection (capabilities : Option Bytes) (sent : List SentCommand) :
    sent.length < (encodeSection capabilities sent).length := by
  have hlines : ∀ payloads : List Bytes,
      payloads.length ≤ (payloads.flatMap writePktLine).length := by
    intro payloads
    induction payloads with
    | nil => exact Nat.le_refl 0
    | cons payload payloads ih =>
      have hfour := four_le_length_encode (.data payload)
      simp only [PktLine.encode] at hfour
      simp only [List.flatMap_cons, List.length_append, List.length_cons]
      omega
  have hflush : writeFlush.length = 4 := by decide
  have hall := hlines (sentPayloads capabilities sent)
  rw [length_sentPayloads] at hall
  rw [encodeSection, List.length_append, hflush]
  omega

/-! ## Positions -/

/-- By positions the section is read as by what is left. -/
theorem parseCommandsAt_eq (checks : Bool) (gix : Gix) {body : Bytes}
    (hsize : body.length ≤ maxIsize) (steps pos : Nat) (hpos : pos ≤ body.length)
    (read : List RefCommand) :
    (∀ err, parseCommands gix steps (body.drop pos) = .error err →
      parseCommandsAt checks gix body steps pos read = .error (.error err)) ∧
    ∀ commands rest, parseCommands gix steps (body.drop pos) = .ok (commands, rest) →
      parseCommandsAt checks gix body steps pos read =
        .ok (read ++ commands, body.length - rest.length) := by
  -- both readers take the same packets, and the position is that of the bytes left
  induction steps generalizing pos read with
  | zero =>
    refine ⟨fun err h => absurd h (by simp [parseCommands]), fun commands rest h => ?_⟩
    obtain ⟨rfl, rfl⟩ := Prod.mk.inj (Except.ok.inj h)
    rw [parseCommandsAt, List.append_nil, List.length_drop, Nat.sub_sub_self hpos]
  | succ steps ih =>
    cases hread : readPktLine (body.drop pos) with
    | none =>
      simp only [parseCommands, parseCommandsAt, hread, readPktLineAt_of_none hsize hpos hread]
      refine ⟨fun err h => absurd h (by simp), fun commands rest h => ?_⟩
      obtain ⟨rfl, rfl⟩ := Prod.mk.inj (Except.ok.inj h)
      rw [List.append_nil, List.length_drop, Nat.sub_sub_self hpos]
    | some packet =>
      obtain ⟨line, rest⟩ := packet
      have hnext := readPktLine_length_lt hread
      rw [List.length_drop] at hnext
      have hdrop := drop_of_readPktLine hread
      cases line with
      | flush =>
        simp only [parseCommands, parseCommandsAt, hread, readPktLineAt_of_some hsize hread]
        refine ⟨fun err h => absurd h (by simp), fun commands behind h => ?_⟩
        obtain ⟨rfl, rfl⟩ := Prod.mk.inj (Except.ok.inj h)
        rw [List.append_nil]
      | data payload =>
        simp only [parseCommands, parseCommandsAt, hread, readPktLineAt_of_some hsize hread]
        cases parseRefCommand gix payload with
        | error err =>
          refine ⟨fun err' h => ?_, fun commands behind h => absurd h (by simp)⟩
          rw [Except.error.inj h]
        | ok command =>
          obtain ⟨herror, hok⟩ := ih (body.length - rest.length) (Nat.sub_le _ _)
            (read ++ [command])
          rw [hdrop] at herror hok
          simp only
          cases hrest : parseCommands gix steps rest with
          | error err =>
            refine ⟨fun err' h => ?_, fun commands behind h => absurd h (by simp)⟩
            rw [← Except.error.inj h]
            exact herror err hrest
          | ok parsed =>
            obtain ⟨commands, behind⟩ := parsed
            refine ⟨fun err' h => absurd h (by simp), fun commands' behind' h => ?_⟩
            obtain ⟨rfl, rfl⟩ := Prod.mk.inj (Except.ok.inj h)
            rw [hok commands behind hrest, List.append_assoc]
            rfl

/-- The commands of a push are read back in order, with the offset of the pack, if every command has
a name and its line fits a packet. -/
theorem commands_round_trip (checks : Bool) (gix : Gix) (capabilities : Option Bytes)
    (sent : List SentCommand) (pack : Bytes)
    (hsent : ∀ line ∈ sent, Sendable line.command ∧ line.command.refName ≠ "" ∧
      ∀ c ∈ line.terminator.toList, isWhitespace c = true)
    (hfits : ∀ payload ∈ sentPayloads capabilities sent, payload.length + 4 < 0x10000)
    (hsize : (encodeSection capabilities sent ++ pack).length ≤ maxIsize) :
    RoundTrips checks gix capabilities sent pack := by
  have hsteps : sent.length < (encodeSection capabilities sent ++ pack).length := by
    have hless := length_lt_encodeSection capabilities sent
    rw [List.length_append]
    omega
  have hparse := parseCommands_encodeSection gix sent pack hsent capabilities hfits hsteps
  have hat := (parseCommandsAt_eq checks gix hsize
    (encodeSection capabilities sent ++ pack).length 0 (Nat.zero_le _) []).2 _ _ hparse
  rw [RoundTrips, parseReceivePackCommandsAt, hat, List.nil_append, List.length_append,
    Nat.add_sub_cancel]

/-! ## Commands that are not read back -/

/-- A line that touches the ref of a name. -/
def touch (name : String) : SentCommand := ⟨⟨zeroId, zeroId, name⟩, "\n"⟩

theorem not_whitespace_of_any {last : Option Char} (h : last.any isWhitespace = false) :
    ∀ c ∈ last, isWhitespace c = false := by
  rintro c rfl
  exact h

theorem sendable_touch {name : String} (hnul : '\x00' ∉ name.toList)
    (hlast : name.toList.getLast?.any isWhitespace = false) : Sendable (touch name).command := by
  have hdigits : zeroId.toList = List.replicate 40 '0' := by decide +kernel
  have hid : IsId zeroId := by
    refine ⟨by rw [hdigits, List.length_replicate], fun c hc => ?_⟩
    rw [hdigits] at hc
    rw [List.eq_of_mem_replicate hc]
    decide
  exact ⟨hid, hid, hnul, not_whitespace_of_any hlast⟩

theorem touched_refs_are_read_back :
    RoundTrips true onePackGix (some (utf8 "report-status side-band-64k"))
      [touch "refs/heads/main", touch "refs/heads/a b"] (utf8 "0000PACK") := by
  refine commands_round_trip true onePackGix _ _ _ ?_ (by decide +kernel) (by decide +kernel)
  have hend : ∀ c ∈ "\n".toList, isWhitespace c = true := by
    intro c hc
    obtain rfl := List.mem_singleton.1 hc
    decide
  intro line hmem
  fin_cases hmem
  · exact ⟨sendable_touch (by decide +kernel) (by decide +kernel), by decide +kernel, hend⟩
  · exact ⟨sendable_touch (by decide +kernel) (by decide +kernel), by decide +kernel, hend⟩

/-- A line of 65536 bytes: the first four of the five digits of its length are read as 4096, and
the fifth becomes part of the first id. Nothing is read behind it. -/
theorem parse_overlong (gix : Gix) {name : String} {head tail : Bytes}
    (hnul : '\x00' ∉ name.toList) (hname : name ≠ "")
    (hlast : ∀ c ∈ name.toList.getLast?, isWhitespace c = false)
    (hhead : (utf8 (commandText (touch name).command)).length + head.length = 4090)
    (htail : tail.length = 61436) :
    (encodeSection (some (head ++ (utf8 "zzzz" ++ tail))) [touch name]).length = 65541 ∧
      ∀ steps, ∃ rest, parseCommands gix (steps + 2)
          (encodeSection (some (head ++ (utf8 "zzzz" ++ tail))) [touch name]) =
        .ok ([⟨"0" ++ zeroId, zeroId, name⟩], rest) := by
  have hfour : (utf8 "zzzz").length = 4 := by decide +kernel
  have hterminator : (touch name).terminator = "\n" := rfl
  have hpayload : ((touch name).payload (some (head ++ (utf8 "zzzz" ++ tail)))).length + 4 =
      65536 := by
    have hend : (utf8 "\n").length = 1 := by decide +kernel
    simp only [SentCommand.payload, capabilityTail, hterminator, List.length_append,
      List.length_cons, hend, hfour, htail]
    omega
  have hdigits : lowerHex4 65536 = utf8 "1000" ++ utf8 "0" := by decide +kernel
  have hcommand : utf8 "0" ++ utf8 (commandText (touch name).command) =
      utf8 (commandText ⟨"0" ++ zeroId, zeroId, name⟩) := by
    simp only [touch, commandText, utf8_append, List.append_assoc]
  have hbody : encodeSection (some (head ++ (utf8 "zzzz" ++ tail))) [touch name] =
      utf8 "1000" ++ ((utf8 (commandText ⟨"0" ++ zeroId, zeroId, name⟩) ++ 0 :: head) ++
        (utf8 "zzzz" ++ (tail ++ (utf8 (touch name).terminator ++ writeFlush)))) := by
    have hsent : encodeSection (some (head ++ (utf8 "zzzz" ++ tail))) [touch name] =
        lowerHex4 65536 ++ (touch name).payload (some (head ++ (utf8 "zzzz" ++ tail))) ++
          writeFlush := by
      rw [← hpayload]
      simp only [encodeSection, sentPayloads, List.flatMap_cons, List.flatMap_nil,
        List.append_nil, writePktLine]
    rw [hsent, hdigits, ← hcommand]
    simp only [SentCommand.payload, capabilityTail, List.append_assoc, List.cons_append]
  have hline : (utf8 (commandText ⟨"0" ++ zeroId, zeroId, name⟩) ++ 0 :: head).length = 4092 := by
    have hzero : (utf8 "0").length = 1 := by decide +kernel
    rw [← hcommand]
    simp only [List.length_append, List.length_cons, hzero]
    omega
  have hread : readPktLine (encodeSection (some (head ++ (utf8 "zzzz" ++ tail))) [touch name]) =
      some (.data (utf8 (commandText ⟨"0" ++ zeroId, zeroId, name⟩) ++ 0 :: head),
        utf8 "zzzz" ++ (tail ++ (utf8 (touch name).terminator ++ writeFlush))) := by
    rw [hbody]
    refine readPktLine_eq_some_iff.2 (.data (utf8 "1000") _ _ (by decide +kernel) ?_)
    rw [hline]
    decide +kernel
  have hnext : readPktLine
      (utf8 "zzzz" ++ (tail ++ (utf8 (touch name).terminator ++ writeFlush))) = none := by
    have hlong : ¬ (utf8 "zzzz" ++
        (tail ++ (utf8 (touch name).terminator ++ writeFlush))).length < 4 := by
      rw [List.length_append]
      omega
    have hnumber : fromStrRadix16 (utf8 "zzzz") = none := by decide +kernel
    simp only [readPktLine, if_neg hlong, List.take_left' hfour, hnumber]
  have hspace : ' ' ∉ ("0" ++ zeroId).toList ∧ ' ' ∉ zeroId.toList := by decide +kernel
  have hnulText : '\x00' ∉ (commandText ⟨"0" ++ zeroId, zeroId, name⟩).toList := by
    have hids : '\x00' ∉ ("0" ++ zeroId).toList ∧ '\x00' ∉ zeroId.toList := by decide +kernel
    rw [toList_commandText]
    rw [List.mem_append, List.mem_cons, List.mem_append, List.mem_cons]
    simp only [hids.1, hids.2, hnul, or_false, false_or]
    decide
  have hparse : parseRefCommand gix
      (utf8 (commandText ⟨"0" ++ zeroId, zeroId, name⟩) ++ 0 :: head) =
        .ok ⟨"0" ++ zeroId, zeroId, name⟩ :=
    parseRefCommand_of_text gix (0 :: head) hspace.1 hspace.2 hnulText hname hlast
      (.inl ⟨head, rfl⟩)
  refine ⟨?_, fun steps =>
    ⟨utf8 "zzzz" ++ (tail ++ (utf8 (touch name).terminator ++ writeFlush)), ?_⟩⟩
  · have hend : (utf8 "\n").length = 1 := by decide +kernel
    have hflush : writeFlush.length = 4 := by decide
    have hprefix : (utf8 "1000").length = 4 := by decide +kernel
    rw [hbody]
    simp only [List.length_append] at hline ⊢
    rw [hline, hterminator, hend, hflush, hprefix, hfour, htail]
  rw [parseCommands, hread]
  simp only [hparse]
  rw [parseCommands, hnext]

theorem overlong_not_roundTrips (checks : Bool) (gix : Gix) {name : String} {head tail : Bytes}
    (hnul : '\x00' ∉ name.toList) (hname : name ≠ "")
    (hlast : ∀ c ∈ name.toList.getLast?, isWhitespace c = false)
    (hhead : (utf8 (commandText (touch name).command)).length + head.length = 4090)
    (htail : tail.length = 61436) :
    ¬ RoundTrips checks gix (some (head ++ (utf8 "zzzz" ++ tail))) [touch name] [] := by
  obtain ⟨hlength, hparse⟩ := parse_overlong gix hnul hname hlast hhead htail
  obtain ⟨rest, hparse⟩ := hparse 65539
  intro hround
  rw [RoundTrips, parseReceivePackCommandsAt, List.append_nil] at hround
  generalize encodeSection (some (head ++ (utf8 "zzzz" ++ tail))) [touch name] = body
    at hlength hparse hround
  have hsize : body.length ≤ maxIsize := by
    rw [hlength]
    decide
  have hwhole : parseCommands gix body.length (body.drop 0) =
      .ok ([⟨"0" ++ zeroId, zeroId, name⟩], rest) := by
    rw [hlength]
    exact hparse
  have hat := (parseCommandsAt_eq checks gix hsize body.length 0 (Nat.zero_le _) []).2 _ _ hwhole
  obtain ⟨hcommands, -⟩ := Prod.mk.inj (Except.ok.inj (hat.symm.trans hround))
  have hid : ("0" ++ zeroId : String) = zeroId :=
    congrArg RefCommand.oldId (List.cons.inj hcommands).1
  exact absurd hid (by decide +kernel)

/-- Capabilities that make the line of `refs/heads/main` 65536 bytes long. -/
def longCapabilities : Bytes :=
  List.replicate 3993 0x7A ++ (utf8 "zzzz" ++ List.replicate 61436 0x7A)

/-- A command without a name is refused, and one whose line is too long is read as another. -/
theorem commands_are_not_read_back :
    (Sendable (touch "").command ∧ ¬ RoundTrips true onePackGix (some []) [touch ""] []) ∧
      Sendable (touch "refs/heads/main").command ∧
      ¬ RoundTrips true onePackGix (some longCapabilities) [touch "refs/heads/main"] [] := by
  refine ⟨⟨sendable_touch (by decide) (by decide), ?_⟩,
    sendable_touch (by decide +kernel) (by decide +kernel), ?_⟩
  · intro hround
    have herror : ∃ err, parseReceivePackCommandsAt true onePackGix
        (encodeSection (some []) [touch ""] ++ []) = .error (.error err) :=
      ⟨"malformed ref-update command: " ++ onePackGix.debug (zeroId ++ " " ++ zeroId),
        by decide +kernel⟩
    obtain ⟨err, herror⟩ := herror
    rw [RoundTrips, herror] at hround
    exact absurd hround (by simp)
  · have hhead : (utf8 (commandText (touch "refs/heads/main").command)).length +
        (List.replicate 3993 (0x7A : UInt8)).length = 4090 := by
      have htext : (utf8 (commandText (touch "refs/heads/main").command)).length = 97 := by
        decide +kernel
      rw [htext, List.length_replicate]
    exact overlong_not_roundTrips true onePackGix (by decide +kernel) (by decide)
      (not_whitespace_of_any (by decide +kernel)) hhead List.length_replicate

end Edda.Git
