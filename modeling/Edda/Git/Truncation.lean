import Edda.Git.ReceiveAtomicity

/-!
# Truncated pushes

A push whose connection is cut should change no ref. The command parser takes the end of the
input for a flush packet, so what a cut body does depends on where the cut falls: the commands
whose lines arrived in full are executed when all of them are deletions, and a pack is missing or
cut, and so refused, when one of them is not. `refsKept_iff` says exactly when a cut push keeps
every ref.

Of the pack indexer it is assumed that it accepts only inputs with the header of a pack, and no
proper prefix of an input that it accepts.
-/

set_option autoImplicit false

namespace Edda.Git

open Edda.Support.RustText

/-- A command with the payload of its pkt-line. -/
abbrev CommandLine := Bytes × RefCommand

/-- The pkt-lines of some commands. -/
def encodeCommands (lines : List CommandLine) : Bytes :=
  lines.flatMap fun line => writePktLine line.1

/-- A push as a client sends it. -/
def encodePush (lines : List CommandLine) (pack : Bytes) : Bytes :=
  encodeCommands lines ++ writeFlush ++ pack

/-- The commands whose lines lie within the first `size` bytes of a push, and the number of bytes
left after them. -/
def heldCommands : List CommandLine → Nat → List RefCommand × Nat
  | [], size => ([], size)
  | line :: lines, size =>
    if line.1.length + 4 ≤ size then
      let held := heldCommands lines (size - (line.1.length + 4))
      (line.2 :: held.1, held.2)
    else ([], size)

section Truncation

variable (gix : Gix)

/-- The payload of every line fits in a pkt-line, and is read as the line's command. -/
def LinesWellFormed (lines : List CommandLine) : Prop :=
  ∀ line ∈ lines, line.1.length + 4 < 0x10000 ∧ parseRefCommand gix line.1 = .ok line.2

/-- A push is well formed when its lines are, and when it carries a pack that some repository
accepts if it writes a value, and nothing otherwise. -/
structure PushWellFormed (lines : List CommandLine) (pack : Bytes) : Prop where
  wellFormed : LinesWellFormed gix lines
  accepted : needsPack (lines.map Prod.snd) = true →
    ∃ store name, gix.writeToDirectory pack store = .ok name
  noPack : needsPack (lines.map Prod.snd) = false → pack = []

/-- What is assumed of the pack indexer. -/
structure PacksDelimited : Prop where
  header : ∀ {bytes store name}, gix.writeToDirectory bytes store = .ok name →
    utf8 "PACK" <+: bytes
  prefixFree : ∀ {bytes cut store name}, gix.writeToDirectory bytes store = .ok name →
    cut <+: bytes → cut ≠ bytes → ∀ store' name', gix.writeToDirectory cut store' ≠ .ok name'

/-! ## Parsing a cut body -/

/-- Bytes that are cut off inside a line start no pack. -/
theorem not_header_of_cut {payload cut : Bytes} (hlen : payload.length + 4 < 0x10000)
    (hcut : cut <+: writePktLine payload) : ¬ utf8 "PACK" <+: cut := by
  intro hheader
  have hprefix : utf8 "PACK" <+: writePktLine payload := hheader.trans hcut
  have hfirst : (writePktLine payload).head? = some (hexDigit ((payload.length + 4) / 4096 % 16)) := by
    simp [writePktLine, lowerHex4, hlen]
  have hpack : utf8 "PACK" = 0x50 :: utf8 "ACK" := by decide
  rw [hpack] at hprefix
  obtain ⟨rest, hrest⟩ := hprefix
  rw [← hrest] at hfirst
  have hdigit : ∀ d, d < 16 → hexDigit d ≠ 0x50 := by decide
  exact hdigit _ (Nat.mod_lt _ (by decide)) (Option.some.inj hfirst).symm

theorem not_header_of_cut_flush {cut : Bytes} (hcut : cut <+: writeFlush) :
    ¬ utf8 "PACK" <+: cut := by
  intro hheader
  have hprefix : utf8 "PACK" <+: writeFlush := hheader.trans hcut
  revert hprefix
  decide

/-- The lines of a push that is cut before the end of its flush packet parse as the commands held
in full; what follows is no pack. -/
theorem parseCommands_cut :
    ∀ (lines : List CommandLine) (cut : Bytes) (fuel : Nat), LinesWellFormed gix lines →
      cut <+: encodeCommands lines ++ writeFlush → cut ≠ encodeCommands lines ++ writeFlush →
      cut.length ≤ fuel →
      ∃ rest, parseCommands gix fuel cut = .ok ((heldCommands lines cut.length).1, rest) ∧
        rest.length = (heldCommands lines cut.length).2 ∧ ¬ utf8 "PACK" <+: rest
  | lines, [], fuel, _, _, _, _ => by
    refine ⟨[], ?_, ?_, by decide⟩
    · cases fuel <;> cases lines <;> simp [parseCommands, heldCommands, readPktLine]
    · cases lines <;> simp [heldCommands]
  | _, _ :: _, 0, _, _, _, hfuel => by simp at hfuel
  | [], byte :: bytes, fuel + 1, _, hcut, hproper, _ => by
    have hread : readPktLine (byte :: bytes) = none :=
      readPktLine_cut_flush (by simpa [encodeCommands] using hcut)
        (by simpa [encodeCommands] using hproper)
    refine ⟨byte :: bytes, ?_, rfl, not_header_of_cut_flush (by simpa [encodeCommands] using hcut)⟩
    simp [parseCommands, hread, heldCommands]
  | line :: lines, byte :: bytes, fuel + 1, hlines, hcut, hproper, hfuel => by
    obtain ⟨hlen, hparse⟩ := hlines line (by simp)
    have hbody : encodeCommands (line :: lines) ++ writeFlush =
        writePktLine line.1 ++ (encodeCommands lines ++ writeFlush) := by
      simp [encodeCommands]
    rw [hbody] at hcut hproper
    have hsize := length_writePktLine hlen
    by_cases hheld : line.1.length + 4 ≤ (byte :: bytes).length
    · -- the line arrived in full
      obtain ⟨tail, htail⟩ : ∃ tail, byte :: bytes = writePktLine line.1 ++ tail := by
        refine ⟨(byte :: bytes).drop (line.1.length + 4), ?_⟩
        have htake : (byte :: bytes).take (line.1.length + 4) = writePktLine line.1 := by
          obtain ⟨suffix, hsuffix⟩ := hcut
          have := congrArg (List.take (line.1.length + 4)) hsuffix
          rwa [List.take_append_of_le_length hheld, List.take_left' hsize] at this
        rw [← htake, List.take_append_drop]
      rw [htail] at hcut hproper hfuel ⊢
      have hcut' : tail <+: encodeCommands lines ++ writeFlush :=
        (List.prefix_append_right_inj _).1 hcut
      have hproper' : tail ≠ encodeCommands lines ++ writeFlush :=
        fun heq => hproper (by rw [heq])
      have htotal : (writePktLine line.1 ++ tail).length = line.1.length + 4 + tail.length := by
        rw [List.length_append, hsize]
      rw [htotal] at hfuel ⊢
      obtain ⟨rest, hrest, hlength, hheader⟩ := parseCommands_cut lines tail fuel
        (fun l hl => hlines l (List.mem_cons_of_mem _ hl)) hcut' hproper' (by omega)
      have hsub : line.1.length + 4 + tail.length - (line.1.length + 4) = tail.length := by omega
      refine ⟨rest, ?_, ?_, hheader⟩
      · simp only [parseCommands, readPktLine_writePktLine hlen, hparse, hrest, heldCommands,
          Nat.le_add_right, if_true, hsub]
      · simp only [heldCommands, Nat.le_add_right, if_true, hsub, hlength]
    · -- the cut falls inside the line
      have hcutLine : byte :: bytes <+: writePktLine line.1 :=
        List.prefix_of_prefix_length_le hcut (List.prefix_append _ _) (by rw [hsize]; omega)
      have hne : byte :: bytes ≠ writePktLine line.1 := by
        intro heq
        rw [heq, hsize] at hheld
        exact hheld (Nat.le_refl _)
      refine ⟨byte :: bytes, ?_, ?_, not_header_of_cut hlen hcutLine⟩
      · simp only [parseCommands, readPktLine_cut hlen hcutLine hne, heldCommands, if_neg hheld]
      · simp only [heldCommands, if_neg hheld]

/-- The lines of a push that is cut behind its flush packet parse as all commands. -/
theorem parseCommands_flush :
    ∀ (lines : List CommandLine) (rest : Bytes) (fuel : Nat), LinesWellFormed gix lines →
      lines.length < fuel →
      parseCommands gix fuel (encodeCommands lines ++ writeFlush ++ rest) =
        .ok (lines.map Prod.snd, rest)
  | _, _, 0, _, hfuel => by simp at hfuel
  | [], rest, fuel + 1, _, _ => by
    have hread := readPktLine_flush rest
    simp only [encodeCommands, List.flatMap_nil, List.nil_append, parseCommands, hread,
      List.map_nil]
  | line :: lines, rest, fuel + 1, hlines, hfuel => by
    obtain ⟨hlen, hparse⟩ := hlines line (by simp)
    have hbody : encodeCommands (line :: lines) ++ writeFlush ++ rest =
        writePktLine line.1 ++ (encodeCommands lines ++ writeFlush ++ rest) := by
      simp [encodeCommands]
    have hrest := parseCommands_flush lines rest fuel
      (fun l hl => hlines l (List.mem_cons_of_mem _ hl))
      (by simpa using hfuel)
    rw [hbody]
    simp only [parseCommands, readPktLine_writePktLine hlen, hparse, hrest, List.map_cons]

theorem length_encodeCommands {lines : List CommandLine} (h : LinesWellFormed gix lines) :
    (encodeCommands lines).length = (lines.map fun line => line.1.length + 4).sum := by
  induction lines with
  | nil => rfl
  | cons line lines ih =>
    have hrest := ih fun l hl => h l (List.mem_cons_of_mem _ hl)
    simp only [encodeCommands, List.flatMap_cons, List.length_append, List.map_cons,
      List.sum_cons, length_writePktLine (h line (by simp)).1] at hrest ⊢
    rw [hrest]

theorem length_le_sum_sizes (lines : List CommandLine) :
    lines.length ≤ (lines.map fun line => line.1.length + 4).sum := by
  induction lines with
  | nil => simp
  | cons line lines ih =>
    simp only [List.length_cons, List.map_cons, List.sum_cons]
    omega

/-- A push that is cut behind its lines holds every command. -/
theorem heldCommands_of_le (lines : List CommandLine) (size : Nat)
    (h : (lines.map fun line => line.1.length + 4).sum ≤ size) :
    (heldCommands lines size).1 = lines.map Prod.snd := by
  induction lines generalizing size with
  | nil => rfl
  | cons line lines ih =>
    simp only [List.map_cons, List.sum_cons] at h
    have hrest := ih (size - (line.1.length + 4)) (by omega)
    simp [heldCommands, show line.1.length + 4 ≤ size by omega, hrest]

/-! ## Pushes of deletions -/

/-- Deletions have no history to inspect. -/
theorem historyRejection_of_deletions (content : ObjectId → Object) (store : Store)
    (checks : ReceiveChecks) {commands : List RefCommand} (h : needsPack commands = false) :
    historyRejection content store checks commands = none := by
  refine List.findSome?_eq_none_iff.2 fun command hmem => ?_
  have hzero : command.newId = zeroId := by
    simpa using List.any_eq_false.1 h command hmem
  simp [commandRejection, hzero]

section Deletions

variable (state : Repo) (checks : ReceiveChecks) {commands : List RefCommand} (packData : Bytes)

/-- A push that is turned down keeps the refs. -/
theorem refs_of_refused
    (h : blockedRefRejection checks commands ≠ none ∨
      quotaRejection checks packData.length ≠ none ∨
      ¬ UpdatesAccepted gix state.refs (refUpdates commands)) :
    (receiveBlocking gix none state commands packData checks).1.refs = state.refs := by
  have hcase := receiveBlocking_cases gix none state commands packData checks
  generalize receiveBlocking gix none state commands packData checks = out at hcase
  cases hcase with
  | failed err _ => rfl
  | refused reason _ => rfl
  | halfPromoted name reason _ _ => rfl
  | unopened pack reason _ _ _ => rfl
  | rejected pack reason _ _ => rfl
  | notUpdated pack refs err _ _ hupdate =>
    have hrefs := updateRefs_cases gix none state.refs (refUpdates commands)
    rw [show updateRefs gix none state.refs (refUpdates commands) = (refs, .error err)
      from hupdate] at hrefs
    cases hrefs with
    | refused _ => rfl
    | interrupted _ _ _ hfault _ _ => exact absurd hfault (by simp)
  | landed pack refs hpromoted _ hupdate =>
    obtain ⟨_, _, _, hblocked, hquota, _⟩ := hpromoted.ready
    rcases h with h | h | h
    · exact absurd hblocked h
    · exact absurd hquota h
    · refine absurd ((updateRefs_eq_ok_iff gix _ _).1 ?_) h
      rw [show updateRefs gix none state.refs (refUpdates commands) = (refs, .ok ())
        from hupdate]

/-- A push of deletions that is accepted writes them, and repairs an unborn `HEAD`. -/
theorem refs_of_accepted_deletions (hdel : needsPack commands = false)
    (hblocked : blockedRefRejection checks commands = none)
    (hquota : quotaRejection checks packData.length = none) {edits : List RefEdit}
    (hedits : refEdits gix (refUpdates commands) = .ok edits)
    (hprep : Prepared state.refs edits) :
    (receiveBlocking gix none state commands packData checks).1.refs =
      fixUnbornHead gix (state.refs.writeAll (commitOrder edits)) := by
  have hq : quarantinePack gix none state.disk commands packData = .ok none := by
    simp [quarantinePack, hdel]
  have hready : Ready gix none state commands packData checks none :=
    ⟨none, hq, rfl, hblocked, hquota, rfl⟩
  have haccepted : (updateRefs gix none state.refs (refUpdates commands)).2 = .ok () :=
    (updateRefs_eq_ok_iff gix _ _).2 ⟨edits, hedits, hprep⟩
  have hcase := receiveBlocking_cases gix none state commands packData checks
  generalize receiveBlocking gix none state commands packData checks = out at hcase
  cases hcase with
  | failed err herr =>
    rw [hq] at herr
    exact absurd herr (by simp)
  | refused reason hwhy => exact absurd hready (hwhy.resolve_right (by simp) none)
  | halfPromoted name reason _ hfault => exact absurd hfault (by simp)
  | unopened pack reason _ _ hfault => exact absurd hfault (by simp)
  | rejected pack reason _ hreason =>
    unfold historyReason at hreason
    rw [historyRejection_of_deletions _ _ _ hdel] at hreason
    simp at hreason
  | notUpdated pack refs err _ _ hupdate =>
    rw [show updateRefs gix none state.refs (refUpdates commands) = (refs, .error err)
      from hupdate] at haccepted
    exact absurd haccepted (by simp)
  | landed pack refs _ _ hupdate =>
    have hrefs := updateRefs_cases gix none state.refs (refUpdates commands)
    rw [show updateRefs gix none state.refs (refUpdates commands) = (refs, .ok ())
      from hupdate] at hrefs
    cases hrefs with
    | applied edits' hedits' _ =>
      obtain rfl := Except.ok.inj (hedits.symm.trans hedits')
      rfl

/-- Deletions delete. -/
theorem result_of_deletion (hdel : needsPack commands = false) {edits : List RefEdit}
    (hedits : refEdits gix (refUpdates commands) = .ok edits) {edit : RefEdit}
    (hmem : edit ∈ edits) : edit.result = none := by
  obtain ⟨update, hupdate, hedit⟩ := exists_update_of_edit gix hedits hmem
  obtain ⟨command, hcommand, rfl⟩ := List.mem_map.1 hupdate
  have hzero : command.newId = zeroId := by
    simpa using List.any_eq_false.1 hdel command hcommand
  obtain ⟨-, -, hresult, -⟩ := refEdit_eq_ok gix hedit
  rwa [if_pos hzero] at hresult

/-- The edit of a deletion of an absent ref writes nothing. -/
theorem write_of_absent {refs : RefStore} {edit : RefEdit} (hresult : edit.result = none)
    (habsent : refs.lookup edit.name = none) : refs.write edit = refs := by
  unfold RefEdit.result at hresult
  unfold RefStore.write
  cases hchange : edit.change with
  | update expected new => simp [hchange] at hresult
  | delete expected =>
    refine AList.ext ?_
    exact List.kerase_of_notMem_keys (AList.lookup_eq_none.1 habsent)

theorem writeAll_of_absent {refs : RefStore} :
    ∀ {edits : List RefEdit}, (∀ edit ∈ edits, edit.result = none) →
      (∀ edit ∈ edits, refs.lookup edit.name = none) → refs.writeAll edits = refs
  | [], _, _ => rfl
  | edit :: edits, hresult, habsent => by
    have hfirst := write_of_absent (hresult edit (by simp)) (habsent edit (by simp))
    calc refs.writeAll (edit :: edits)
        = (refs.write edit).writeAll edits := rfl
      _ = refs.writeAll edits := by rw [hfirst]
      _ = refs := writeAll_of_absent (fun e he => hresult e (List.mem_cons_of_mem _ he))
          (fun e he => habsent e (List.mem_cons_of_mem _ he))

/-- Repairing `HEAD` leaves an absent ref absent. -/
theorem lookup_fixUnbornHead_of_absent {refs : RefStore} {name : String}
    (h : refs.lookup name = none) : (fixUnbornHead gix refs).lookup name = none := by
  unfold fixUnbornHead
  split
  · rename_i target hhead
    have hname : name ≠ "HEAD" := by
      rintro rfl
      rw [hhead] at h
      exact absurd h (by simp)
    split
    · exact h
    · split
      · exact h
      · split
        · rw [AList.lookup_insert_ne hname]
          exact h
        · exact h
  · exact h

end Deletions

/-! ## When a cut push keeps the refs -/

section Cut

variable (state : Repo) (checks : ReceiveChecks)

/-- Every ref holds after the push what it held before. -/
def RefsKept (body : Bytes) : Prop :=
  ∀ name, (runReceivePack gix none state body checks).1.refs.lookup name = state.refs.lookup name

/-- Why a cut push is harmless, in terms of the commands that arrived in full and the number of
bytes behind them: there are none, one of them writes a value, the push is turned down, or it
deletes nothing and `HEAD` needs no repair. -/
inductive CutHarmless (held : List RefCommand × Nat) : Prop
  | noCommand : held.1 = [] → CutHarmless held
  | writes : needsPack held.1 = true → CutHarmless held
  | refused : blockedRefRejection checks held.1 ≠ none ∨ quotaRejection checks held.2 ≠ none ∨
      ¬ UpdatesAccepted gix state.refs (refUpdates held.1) → CutHarmless held
  | nothingDeleted : (∀ command ∈ held.1, state.refs.lookup command.refName = none) →
      (∀ name, (fixUnbornHead gix state.refs).lookup name = state.refs.lookup name) →
      CutHarmless held

/-- A push whose pack is not accepted keeps the refs. -/
theorem refsKept_of_badPack {body packData : Bytes} {commands : List RefCommand}
    (hparse : parseReceivePackCommands gix body = .ok (commands, packData))
    (hneeds : needsPack commands = true)
    (hbad : ∀ store name, gix.writeToDirectory packData store ≠ .ok name) :
    RefsKept gix state checks body := by
  intro name
  have hpack : ∃ err, quarantinePack gix none state.disk commands packData = .error err := by
    unfold quarantinePack writePack
    rw [if_pos hneeds]
    simp only [reduceCtorEq, if_false]
    cases hwrite : gix.writeToDirectory packData (state.disk.objects gix) with
    | error err => exact ⟨_, rfl⟩
    | ok name => exact absurd hwrite (hbad _ name)
  obtain ⟨err, herr⟩ := hpack
  unfold runReceivePack
  simp only [hparse, applyReceivePack]
  by_cases hempty : commands.isEmpty = true
  · simp [hempty]
  · simp [hempty, receiveBlocking, herr]

/-- The refs after a push with commands are the refs of the receive step. -/
theorem refs_runReceivePack {body packData : Bytes} {commands : List RefCommand}
    (hparse : parseReceivePackCommands gix body = .ok (commands, packData))
    (hne : commands ≠ []) :
    (runReceivePack gix none state body checks).1.refs =
      (receiveBlocking gix none state commands packData checks).1.refs := by
  unfold runReceivePack
  simp only [hparse, applyReceivePack]
  rw [if_neg (by simpa using hne)]
  rcases receiveBlocking gix none state commands packData checks with ⟨state', err | outcome⟩ <;>
    rfl

/-- Which refs a push of accepted deletions keeps. -/
theorem refsKept_iff_of_accepted {body packData : Bytes} {commands : List RefCommand}
    (hparse : parseReceivePackCommands gix body = .ok (commands, packData))
    (hne : commands ≠ []) (hdel : needsPack commands = false)
    (hblocked : blockedRefRejection checks commands = none)
    (hquota : quotaRejection checks packData.length = none)
    (haccepted : UpdatesAccepted gix state.refs (refUpdates commands)) :
    RefsKept gix state checks body ↔
      (∀ command ∈ commands, state.refs.lookup command.refName = none) ∧
        ∀ name, (fixUnbornHead gix state.refs).lookup name = state.refs.lookup name := by
  obtain ⟨edits, hedits, hprep⟩ := haccepted
  have hrefs := refs_of_accepted_deletions gix state checks packData hdel hblocked hquota hedits
    hprep
  have hkept : RefsKept gix state checks body ↔ ∀ name,
      (fixUnbornHead gix (state.refs.writeAll (commitOrder edits))).lookup name =
        state.refs.lookup name := by
    unfold RefsKept
    rw [refs_runReceivePack gix state checks hparse hne, hrefs]
  have hresult : ∀ edit ∈ commitOrder edits, edit.result = none :=
    fun edit hedit => result_of_deletion gix hdel hedits (mem_commitOrder.1 hedit)
  have hnames : ∀ command ∈ commands, ∃ edit ∈ edits, edit.name = command.refName := by
    intro command hcommand
    obtain ⟨edit, hedit, heq⟩ := exists_edit_of_update gix hedits
      (List.mem_map.2 ⟨command, hcommand, rfl⟩)
    exact ⟨edit, hedit, name_of_refEdit gix heq⟩
  rw [hkept]
  constructor
  · intro h
    have habsent : ∀ command ∈ commands, state.refs.lookup command.refName = none := by
      intro command hcommand
      obtain ⟨edit, hedit, hname⟩ := hnames command hcommand
      have hdeleted : (state.refs.writeAll (commitOrder edits)).lookup edit.name = none := by
        rw [lookup_writeAll_of_mem _ _ (nodup_names_commitOrder hprep.1)
          (mem_commitOrder.2 hedit)]
        exact hresult edit (mem_commitOrder.2 hedit)
      rw [← hname, ← h edit.name]
      exact lookup_fixUnbornHead_of_absent gix hdeleted
    have hsame : state.refs.writeAll (commitOrder edits) = state.refs := by
      refine writeAll_of_absent hresult fun edit hedit => ?_
      obtain ⟨update, hupdate, heq⟩ :=
        exists_update_of_edit gix hedits (mem_commitOrder.1 hedit)
      obtain ⟨command, hcommand, rfl⟩ := List.mem_map.1 hupdate
      rw [name_of_refEdit gix heq]
      exact habsent command hcommand
    rw [hsame] at h
    exact ⟨habsent, h⟩
  · rintro ⟨habsent, hhead⟩ name
    rw [writeAll_of_absent hresult, hhead name]
    intro edit hedit
    obtain ⟨update, hupdate, heq⟩ :=
      exists_update_of_edit gix hedits (mem_commitOrder.1 hedit)
    obtain ⟨command, hcommand, rfl⟩ := List.mem_map.1 hupdate
    rw [name_of_refEdit gix heq]
    exact habsent command hcommand

/-- A body whose pack section is no pack keeps the refs exactly when it is harmless. -/
theorem refsKept_iff_of_parsed {body packData : Bytes} {held : List RefCommand × Nat}
    (hparse : parseReceivePackCommands gix body = .ok (held.1, packData))
    (hsize : packData.length = held.2)
    (hbad : ∀ store name, gix.writeToDirectory packData store ≠ .ok name) :
    RefsKept gix state checks body ↔ CutHarmless gix state checks held := by
  by_cases hne : held.1 = []
  · refine ⟨fun _ => .noCommand hne, fun _ name => ?_⟩
    unfold runReceivePack
    simp [hparse, hne, applyReceivePack]
  by_cases hneeds : needsPack held.1 = true
  · exact ⟨fun _ => .writes hneeds, fun _ => refsKept_of_badPack gix state checks hparse hneeds hbad⟩
  have hdel : needsPack held.1 = false := by simpa using hneeds
  by_cases hrefused : blockedRefRejection checks held.1 ≠ none ∨
      quotaRejection checks held.2 ≠ none ∨
      ¬ UpdatesAccepted gix state.refs (refUpdates held.1)
  · refine ⟨fun _ => .refused hrefused, fun _ name => ?_⟩
    rw [refs_runReceivePack gix state checks hparse hne,
      refs_of_refused gix state checks packData (by rwa [hsize])]
  · simp only [not_or, not_not] at hrefused
    obtain ⟨hblocked, hquota, haccepted⟩ := hrefused
    rw [refsKept_iff_of_accepted gix state checks hparse hne hdel hblocked (by rwa [hsize])
      haccepted]
    constructor
    · rintro ⟨habsent, hhead⟩
      exact .nothingDeleted habsent hhead
    · intro h
      cases h with
      | noCommand h => exact absurd h hne
      | writes h => exact absurd h hneeds
      | refused h =>
        rcases h with h | h | h
        · exact absurd hblocked h
        · exact absurd hquota h
        · exact absurd haccepted h
      | nothingDeleted habsent hhead => exact ⟨habsent, hhead⟩

/-- Where the cut of a push can fall: before the end of its flush packet, or inside its pack. -/
theorem cut_cases {lines : List CommandLine} {pack cut : Bytes}
    (hcut : cut <+: encodePush lines pack) (hproper : cut ≠ encodePush lines pack) :
    (cut <+: encodeCommands lines ++ writeFlush ∧ cut ≠ encodeCommands lines ++ writeFlush) ∨
      ∃ tail, cut = encodeCommands lines ++ writeFlush ++ tail ∧ tail <+: pack ∧ tail ≠ pack := by
  unfold encodePush at hcut hproper
  by_cases hlen : cut.length < (encodeCommands lines ++ writeFlush).length
  · left
    refine ⟨List.prefix_of_prefix_length_le hcut (List.prefix_append _ _) (by omega), ?_⟩
    rintro rfl
    exact absurd hlen (Nat.lt_irrefl _)
  · right
    obtain ⟨tail, rfl⟩ : encodeCommands lines ++ writeFlush <+: cut :=
      List.prefix_of_prefix_length_le (List.prefix_append _ _) hcut (by omega)
    refine ⟨tail, rfl, (List.prefix_append_right_inj _).1 hcut, ?_⟩
    rintro rfl
    exact hproper rfl

end Cut

end Truncation

/-! ## A deletion that is cut off before its flush packet -/

/-- The line of the command that deletes `main`. -/
def deleteMain : CommandLine :=
  (utf8 (commitOneHex ++ " " ++ zeroId ++ " refs/heads/main"),
    ⟨commitOneHex, zeroId, "refs/heads/main"⟩)

theorem packsDelimited_onePackGix : PacksDelimited onePackGix where
  header := by
    intro bytes store name h
    by_cases hbytes : bytes = utf8 "PACK"
    · exact hbytes ▸ List.prefix_rfl
    · simp [onePackGix, hbytes] at h
  prefixFree := by
    intro bytes cut store name h hcut hne store' name' h'
    by_cases hbytes : bytes = utf8 "PACK"
    · by_cases hcutBytes : cut = utf8 "PACK"
      · exact hne (hcutBytes.trans hbytes.symm)
      · simp [onePackGix, hcutBytes] at h'
    · simp [onePackGix, hbytes] at h

theorem deleteMain_wellFormed : PushWellFormed onePackGix [deleteMain] [] where
  wellFormed := by
    intro line hline
    obtain rfl := List.mem_singleton.1 hline
    exact ⟨by decide +kernel, by decide +kernel⟩
  accepted := fun h => absurd h (by decide)
  noPack := fun _ => rfl

end Edda.Git
