import Edda.Git.PktLine
import Edda.Support.Varint

/-!
# What the pkt-line reader accepts

`readPktLineAt` is the reader as the code has it, on a buffer and a position; `readPktLine` is what
it does with the bytes from the position on. `PacketIn number` are the bytes that start with a
packet whose four length bytes are read by `number`: the format has four hexadecimal digits there,
and the code reads them with a general parser of integers.

`pkt_line_exact_iff`: packets that were written are always read back, and what is accepted is the
format unless the four bytes are a plus sign and three digits.
-/

set_option autoImplicit false

namespace Edda.Git

open Edda.Support.RustText Edda.Support.Varint

/-! ## Reading at a position -/

/-- `&input[start..stop]`. -/
def sliceBetween (input : Bytes) (start stop : Nat) : Except (Failure Empty) Bytes :=
  if start ≤ stop ∧ stop ≤ input.length then .ok ((input.drop start).take (stop - start))
  else .error .panic

/-- `read_pkt_line`: the packet, if there is one, and the position that is left. -/
def readPktLineAt (checks : Bool) (input : Bytes) (pos : Nat) :
    Except (Failure Empty) (Option PktLine × Nat) :=
  match addWords checks pos 4 with
  | .error failure => .error failure
  | .ok payloadStart =>
    if input.length < payloadStart then .ok (none, pos)
    else match sliceBetween input pos payloadStart with
      | .error failure => .error failure
      | .ok lenHex => match fromStrRadix16 lenHex with
        | none => .ok (none, pos)
        | some len =>
          if len = 0 then .ok (some .flush, payloadStart)
          else if len < 4 then .ok (none, pos)
          else match addWords checks pos len with
            | .error failure => .error failure
            | .ok next =>
              if input.length < next then .ok (none, pos)
              else match sliceBetween input payloadStart next with
                | .error failure => .error failure
                | .ok payload => .ok (some (.data payload), next)

/-- Reads packets until nothing is returned. Every packet takes four bytes at least, so that more
steps than bytes are enough. -/
def readPktLinesAt (checks : Bool) (input : Bytes) :
    Nat → Nat → List PktLine → Except (Failure Empty) (List PktLine × Nat)
  | 0, pos, lines => .ok (lines, pos)
  | steps + 1, pos, lines => match readPktLineAt checks input pos with
    | .error failure => .error failure
    | .ok (none, pos) => .ok (lines, pos)
    | .ok (some line, pos) => readPktLinesAt checks input steps pos (lines ++ [line])

/-- Writes a packet. -/
def PktLine.encode : PktLine → Bytes
  | .data payload => writePktLine payload
  | .flush => writeFlush

/-! ## The format -/

/-- Bytes that start with a packet, the length of which `number` reads off four bytes. -/
inductive PacketIn (number : Bytes → Option Nat) : Bytes → PktLine → Bytes → Prop
  | flush (lenHex rest : Bytes) : lenHex.length = 4 → number lenHex = some 0 →
      PacketIn number (lenHex ++ rest) .flush rest
  | data (lenHex payload rest : Bytes) : lenHex.length = 4 →
      number lenHex = some (4 + payload.length) →
      PacketIn number (lenHex ++ (payload ++ rest)) (.data payload) rest

/-- A packet of the format at a position, and the position behind it. -/
def PacketAt (input : Bytes) (pos : Nat) (line : PktLine) (next : Nat) : Prop :=
  ∃ rest, PacketIn (hexDigits 0) (input.drop pos) line rest ∧ next + rest.length = input.length

/-- What is read at a position is what the format has there; the position moves behind it, or stays
where it is. -/
def ReadsFormat (checks : Bool) (input : Bytes) (pos : Nat) : Prop :=
  (∀ line next, readPktLineAt checks input pos = .ok (some line, next) ↔
    PacketAt input pos line next) ∧
  ∀ next, readPktLineAt checks input pos = .ok (none, next) → next = pos

/-- A plus sign and three digits of the length of a packet. -/
def PlusAt (input : Bytes) (pos : Nat) : Prop :=
  ∃ digits rest len, input.drop pos = 0x2B :: (digits ++ rest) ∧ digits.length = 3 ∧
    hexDigits 0 digits = some len ∧ (len = 0 ∨ 4 ≤ len ∧ len ≤ (input.drop pos).length)

/-! ## Packets -/

section Packets

variable {number : Bytes → Option Nat} {data : Bytes}

/-- Bytes start with one packet at most. -/
theorem PacketIn.unique {line line' : PktLine} {rest rest' : Bytes}
    (h : PacketIn number data line rest) (h' : PacketIn number data line' rest') :
    line = line' ∧ rest = rest' := by
  generalize hsame : data = same at h'
  cases h with
  | flush lenHex _ hlength hnumber =>
    cases h' with
    | flush lenHex' _ hlength' hnumber' =>
      obtain ⟨rfl, rfl⟩ := List.append_inj hsame (hlength.trans hlength'.symm)
      exact ⟨rfl, rfl⟩
    | data lenHex' payload' _ hlength' hnumber' =>
      obtain ⟨rfl, -⟩ := List.append_inj hsame (hlength.trans hlength'.symm)
      have hlen := Option.some.inj (hnumber.symm.trans hnumber')
      omega
  | data lenHex payload _ hlength hnumber =>
    cases h' with
    | flush lenHex' _ hlength' hnumber' =>
      obtain ⟨rfl, -⟩ := List.append_inj hsame (hlength.trans hlength'.symm)
      have hlen := Option.some.inj (hnumber.symm.trans hnumber')
      omega
    | data lenHex' payload' _ hlength' hnumber' =>
      obtain ⟨rfl, htail⟩ := List.append_inj hsame (hlength.trans hlength'.symm)
      have hlen := Option.some.inj (hnumber.symm.trans hnumber')
      obtain ⟨rfl, rfl⟩ := List.append_inj htail (by omega)
      exact ⟨rfl, rfl⟩

/-- Which four bytes a packet's length is read off. -/
theorem packetIn_iff {line : PktLine} {rest : Bytes} :
    PacketIn number data line rest ↔
      4 ≤ data.length ∧
        (number (data.take 4) = some 0 ∧ line = .flush ∧ rest = data.drop 4 ∨
          ∃ len, number (data.take 4) = some len ∧ 4 ≤ len ∧ len ≤ data.length ∧
            line = .data ((data.drop 4).take (len - 4)) ∧ rest = data.drop len) := by
  constructor
  · intro h
    cases h with
    | flush lenHex _ hlength hnumber =>
      rw [List.take_left' hlength, List.drop_left' hlength, List.length_append]
      exact ⟨by omega, .inl ⟨hnumber, rfl, rfl⟩⟩
    | data lenHex payload _ hlength hnumber =>
      have hdrop : (lenHex ++ (payload ++ rest)).drop (4 + payload.length) = rest := by
        rw [← List.drop_drop, List.drop_left' hlength, List.drop_left]
      have htake : (payload ++ rest).take (4 + payload.length - 4) = payload := by
        rw [Nat.add_sub_cancel_left, List.take_left]
      rw [List.take_left' hlength, List.drop_left' hlength]
      refine ⟨?_, .inr ⟨4 + payload.length, hnumber, by omega, ?_, by rw [htake], hdrop.symm⟩⟩
      · rw [List.length_append]
        omega
      · simp only [List.length_append]
        omega
  · rintro ⟨hfour, ⟨hnumber, rfl, rfl⟩ | ⟨len, hnumber, hleast, hmost, rfl, rfl⟩⟩
    · have hpacket := PacketIn.flush (data.take 4) (data.drop 4) (List.length_take_of_le hfour)
        hnumber
      rwa [List.take_append_drop] at hpacket
    · have hpayload : ((data.drop 4).take (len - 4)).length = len - 4 := by
        rw [List.length_take, List.length_drop]
        omega
      have hrest : (data.drop 4).drop (len - 4) = data.drop len := by
        rw [List.drop_drop]
        congr 1
        omega
      have hlen : number (data.take 4) = some (4 + ((data.drop 4).take (len - 4)).length) := by
        rw [hnumber, hpayload, Nat.add_sub_cancel' hleast]
      have hpacket := PacketIn.data (data.take 4) ((data.drop 4).take (len - 4)) (data.drop len)
        (List.length_take_of_le hfour) hlen
      have hdata : data.take 4 ++ ((data.drop 4).take (len - 4) ++ data.drop len) = data := by
        rw [← hrest, List.take_append_drop, List.take_append_drop]
      rwa [hdata] at hpacket

end Packets

/-- The reader takes the packets whose length the integer parser reads. -/
theorem readPktLine_eq_some_iff {input rest : Bytes} {line : PktLine} :
    readPktLine input = some (line, rest) ↔ PacketIn fromStrRadix16 input line rest := by
  rw [packetIn_iff]
  unfold readPktLine
  by_cases hshort : input.length < 4
  · have hnone : ¬ 4 ≤ input.length := Nat.not_le.2 hshort
    simp [hshort, hnone]
  · have hfour := Nat.le_of_not_lt hshort
    rw [if_neg hshort]
    cases hlen : fromStrRadix16 (input.take 4) with
    | none => simp
    | some len =>
      by_cases hzero : len = 0
      · subst hzero
        simp only [if_true, Option.some.injEq, Prod.mk.injEq, hfour, true_and]
        constructor
        · rintro ⟨rfl, rfl⟩
          exact .inl ⟨rfl, rfl⟩
        · rintro (⟨rfl, rfl⟩ | ⟨len, rfl, hleast, -⟩)
          · exact ⟨rfl, rfl⟩
          · omega
      · simp only [if_neg hzero, hfour, true_and]
        by_cases hbad : len < 4 ∨ input.length < len
        · rw [if_pos hbad]
          constructor
          · intro h
            exact absurd h (by simp)
          · rintro (⟨hlen', -⟩ | ⟨len', hlen', hleast, hmost, -⟩)
            · exact absurd (Option.some.inj hlen') hzero
            · obtain rfl := Option.some.inj hlen'
              omega
        · rw [if_neg hbad]
          constructor
          · intro h
            obtain ⟨rfl, rfl⟩ := Prod.mk.inj (Option.some.inj h)
            exact .inr ⟨len, rfl, by omega, by omega, rfl, rfl⟩
          · rintro (⟨hlen', -⟩ | ⟨len', hlen', -, -, rfl, rfl⟩)
            · exact absurd (Option.some.inj hlen') hzero
            · obtain rfl := Option.some.inj hlen'
              rfl

/-- What is left is the end of the buffer. -/
theorem drop_of_readPktLine {input rest : Bytes} {pos : Nat} {line : PktLine}
    (h : readPktLine (input.drop pos) = some (line, rest)) :
    input.drop (input.length - rest.length) = rest := by
  have hend : ∀ n, input.drop (input.length - (input.drop n).length) = input.drop n := by
    intro n
    rw [List.length_drop]
    rcases Nat.le_total n input.length with hle | hge
    · rw [Nat.sub_sub_self hle]
    · rw [Nat.sub_eq_zero_of_le hge, Nat.sub_zero, List.drop_length, List.drop_eq_nil_of_le hge]
  obtain ⟨-, ⟨-, -, rfl⟩ | ⟨len, -, -, -, -, rfl⟩⟩ := packetIn_iff.1 (readPktLine_eq_some_iff.1 h)
  · rw [List.drop_drop]
    exact hend _
  · rw [List.drop_drop]
    exact hend _

/-! ## Positions -/

section Positions

variable {checks : Bool} {input : Bytes} {pos : Nat}

/-- At a position of the buffer the reader does what it does with the bytes from there on. -/
theorem readPktLineAt_of_some (hsize : input.length ≤ maxIsize) {line : PktLine} {rest : Bytes}
    (h : readPktLine (input.drop pos) = some (line, rest)) :
    readPktLineAt checks input pos = .ok (some line, input.length - rest.length) := by
  obtain ⟨hfour, hpacket⟩ := packetIn_iff.1 (readPktLine_eq_some_iff.1 h)
  rw [List.length_drop] at hfour
  have hword : pos + 4 < wordLimit := by
    unfold maxIsize at hsize
    unfold wordLimit
    omega
  have hin : ¬ input.length < pos + 4 := by omega
  have hdigits : sliceBetween input pos (pos + 4) = .ok ((input.drop pos).take 4) := by
    rw [sliceBetween, if_pos ⟨by omega, by omega⟩, Nat.add_sub_cancel_left]
  simp only [readPktLineAt, addWords, if_pos hword, if_neg hin, hdigits]
  rcases hpacket with ⟨hnumber, rfl, rfl⟩ | ⟨len, hnumber, hleast, hmost, rfl, rfl⟩
  · have hnext : input.length - ((input.drop pos).drop 4).length = pos + 4 := by
      simp only [List.length_drop]
      omega
    simp only [hnumber, if_true, hnext]
  · rw [List.length_drop] at hmost
    have hnext : input.length - ((input.drop pos).drop len).length = pos + len := by
      simp only [List.length_drop]
      omega
    have hlenWord : pos + len < wordLimit := by
      unfold maxIsize at hsize
      unfold wordLimit
      omega
    have hpayload : sliceBetween input (pos + 4) (pos + len) =
        .ok (((input.drop pos).drop 4).take (len - 4)) := by
      rw [sliceBetween, if_pos ⟨by omega, by omega⟩, List.drop_drop]
      congr 2
      omega
    have hzero : len ≠ 0 := by omega
    have hlen : ¬ len < 4 := by omega
    have hlenIn : ¬ input.length < pos + len := by omega
    simp only [hnumber, if_neg hzero, if_neg hlen, if_pos hlenWord, if_neg hlenIn, hpayload, hnext]

theorem readPktLineAt_of_none (hsize : input.length ≤ maxIsize) (hpos : pos ≤ input.length)
    (h : readPktLine (input.drop pos) = none) :
    readPktLineAt checks input pos = .ok (none, pos) := by
  have hword : pos + 4 < wordLimit := by
    unfold maxIsize at hsize
    unfold wordLimit
    omega
  simp only [readPktLineAt, addWords, if_pos hword]
  by_cases hshort : input.length < pos + 4
  · rw [if_pos hshort]
  have hdigits : sliceBetween input pos (pos + 4) = .ok ((input.drop pos).take 4) := by
    rw [sliceBetween, if_pos ⟨by omega, by omega⟩, Nat.add_sub_cancel_left]
  have hfour : ¬ (input.drop pos).length < 4 := by
    rw [List.length_drop]
    omega
  unfold readPktLine at h
  rw [if_neg hfour] at h
  rw [if_neg hshort]
  simp only [hdigits]
  cases hlen : fromStrRadix16 ((input.drop pos).take 4) with
  | none => rfl
  | some len =>
    simp only [hlen] at h ⊢
    by_cases hzero : len = 0
    · rw [if_pos hzero] at h
      exact absurd h (by simp)
    rw [if_neg hzero] at h ⊢
    by_cases hsmall : len < 4
    · rw [if_pos hsmall]
    rw [if_neg hsmall]
    have hlarge : (input.drop pos).length < len := by
      by_contra hin
      rw [if_neg (not_or.2 ⟨hsmall, hin⟩)] at h
      exact absurd h (by simp)
    rw [List.length_drop] at hlarge
    have hout : input.length < pos + len := by omega
    have hlenWord : pos + len < wordLimit := by
      have hlt := fromStrRadix16_lt hlen
      rw [List.length_take_of_le (Nat.le_of_not_lt hfour)] at hlt
      unfold maxIsize at hsize
      unfold wordLimit
      omega
    simp only [if_pos hlenWord, if_pos hout]

/-- Behind the buffer nothing is returned; where the position overflows, slicing panics at the
latest. -/
theorem readPktLineAt_behind (hpos : input.length < pos) (line : PktLine) (next : Nat) :
    readPktLineAt checks input pos ≠ .ok (some line, next) := by
  intro h
  simp only [readPktLineAt, addWords] at h
  by_cases hword : pos + 4 < wordLimit
  · rw [if_pos hword] at h
    have hshort : input.length < pos + 4 := by omega
    simp only [if_pos hshort] at h
    exact absurd h (by simp)
  · rw [if_neg hword] at h
    cases checks with
    | true => exact absurd h (by simp)
    | false =>
      simp only [Bool.false_eq_true, if_false] at h
      split at h
      · exact absurd h (by simp)
      · rename_i hshort
        have hslice : sliceBetween input pos ((pos + 4) % wordLimit) = .error .panic := by
          rw [sliceBetween, if_neg]
          omega
        simp only [hslice] at h
        exact absurd h (by simp)

/-- The position is left where it is when nothing is returned. -/
theorem readPktLineAt_none {next : Nat} (h : readPktLineAt checks input pos = .ok (none, next)) :
    next = pos := by
  have hkept : ∀ {next : Nat}, (.ok (none, pos) : Except (Failure Empty) (Option PktLine × Nat)) =
      .ok (none, next) → next = pos := fun heq => (Prod.mk.inj (Except.ok.inj heq)).2.symm
  simp only [readPktLineAt] at h
  split at h
  · exact absurd h (by simp)
  split at h
  · exact hkept h
  split at h
  · exact absurd h (by simp)
  split at h
  · exact hkept h
  split at h
  · exact absurd h (by simp)
  split at h
  · exact hkept h
  split at h
  · exact absurd h (by simp)
  split at h
  · exact hkept h
  split at h <;> exact absurd h (by simp)

theorem readPktLineAt_eq_some_iff (hsize : input.length ≤ maxIsize) {line : PktLine} {next : Nat} :
    readPktLineAt checks input pos = .ok (some line, next) ↔
      ∃ rest, PacketIn fromStrRadix16 (input.drop pos) line rest ∧
        next + rest.length = input.length := by
  constructor
  · intro h
    by_cases hpos : input.length < pos
    · exact absurd h (readPktLineAt_behind hpos line next)
    cases hread : readPktLine (input.drop pos) with
    | none =>
      rw [readPktLineAt_of_none hsize (Nat.le_of_not_lt hpos) hread] at h
      exact absurd h (by simp)
    | some read =>
      obtain ⟨line', rest⟩ := read
      rw [readPktLineAt_of_some hsize hread] at h
      obtain ⟨hline, rfl⟩ := Prod.mk.inj (Except.ok.inj h)
      obtain rfl := Option.some.inj hline
      have hrest := readPktLine_length_lt hread
      rw [List.length_drop] at hrest
      exact ⟨rest, readPktLine_eq_some_iff.1 hread, by omega⟩
  · rintro ⟨rest, hpacket, hnext⟩
    rw [readPktLineAt_of_some hsize (readPktLine_eq_some_iff.2 hpacket)]
    congr 2
    omega

/-! ## The plus sign -/

/-- Without a plus sign in front the parser reads four digits. -/
theorem packetIn_congr {data : Bytes} (hplus : ∀ rest, data ≠ 0x2B :: rest) {line : PktLine}
    {rest : Bytes} :
    PacketIn fromStrRadix16 data line rest ↔ PacketIn (hexDigits 0) data line rest := by
  cases data with
  | nil => simp [packetIn_iff]
  | cons byte tail =>
    have hbyte : byte ≠ 0x2B := by
      rintro rfl
      exact hplus tail rfl
    rw [packetIn_iff, packetIn_iff, List.take_succ_cons, fromStrRadix16_of_ne_plus hbyte]

/-- With a plus sign in front there is no packet of the format. -/
theorem not_packetIn_plus {tail rest : Bytes} {line : PktLine} :
    ¬ PacketIn (hexDigits 0) (0x2B :: tail) line rest := by
  rw [packetIn_iff, List.take_succ_cons, hexDigits_plus]
  simp

/-- What is accepted behind a plus sign. -/
theorem plusAt_iff {tail : Bytes} (hdata : input.drop pos = 0x2B :: tail) :
    PlusAt input pos ↔ ∃ line rest, PacketIn fromStrRadix16 (input.drop pos) line rest := by
  have hparse : 4 ≤ (input.drop pos).length →
      fromStrRadix16 ((input.drop pos).take 4) = hexDigits 0 (tail.take 3) := by
    intro hfour
    rw [hdata, List.length_cons] at hfour
    rw [hdata, List.take_succ_cons, fromStrRadix16_plus]
    intro hnil
    have hlength := congrArg List.length hnil
    rw [List.length_take, List.length_nil] at hlength
    omega
  constructor
  · rintro ⟨digits, rest, len, hplus, hlength, hlen, hrange⟩
    obtain ⟨-, rfl⟩ := List.cons.inj (hdata.symm.trans hplus)
    have hfour : 4 ≤ (input.drop pos).length := by
      rw [hplus, List.length_cons, List.length_append]
      omega
    have hnumber := hparse hfour
    rw [List.take_left' hlength, hlen] at hnumber
    rcases hrange with rfl | ⟨hleast, hmost⟩
    · exact ⟨_, _, packetIn_iff.2 ⟨hfour, .inl ⟨hnumber, rfl, rfl⟩⟩⟩
    · exact ⟨_, _, packetIn_iff.2 ⟨hfour, .inr ⟨len, hnumber, hleast, hmost, rfl, rfl⟩⟩⟩
  · rintro ⟨line, rest, hpacket⟩
    obtain ⟨hfour, hpacket⟩ := packetIn_iff.1 hpacket
    have htail : 3 ≤ tail.length := by
      rw [hdata, List.length_cons] at hfour
      omega
    have hsplit : input.drop pos = 0x2B :: (tail.take 3 ++ tail.drop 3) := by
      rw [List.take_append_drop, hdata]
    rw [hparse hfour] at hpacket
    rcases hpacket with ⟨hnumber, -, -⟩ | ⟨len, hnumber, hleast, hmost, -, -⟩
    · exact ⟨_, _, 0, hsplit, List.length_take_of_le htail, hnumber, .inl rfl⟩
    · exact ⟨_, _, len, hsplit, List.length_take_of_le htail, hnumber, .inr ⟨hleast, hmost⟩⟩

theorem readsFormat_iff (hsize : input.length ≤ maxIsize) :
    ReadsFormat checks input pos ↔ ¬ PlusAt input pos := by
  constructor
  · rintro ⟨hformat, -⟩ hplus
    obtain ⟨digits, rest, len, hdata, -⟩ := id hplus
    obtain ⟨line, behind, hpacket⟩ := (plusAt_iff hdata).1 hplus
    have hread : readPktLineAt checks input pos = .ok (some line, input.length - behind.length) :=
      readPktLineAt_of_some hsize (readPktLine_eq_some_iff.2 hpacket)
    obtain ⟨_, hnone, -⟩ := (hformat _ _).1 hread
    rw [hdata] at hnone
    exact not_packetIn_plus hnone
  · intro hplus
    refine ⟨fun line next => ?_, fun next => readPktLineAt_none⟩
    rw [readPktLineAt_eq_some_iff hsize, PacketAt]
    by_cases hdata : ∃ tail, input.drop pos = 0x2B :: tail
    · obtain ⟨tail, hdata⟩ := hdata
      rw [plusAt_iff hdata] at hplus
      constructor
      · rintro ⟨rest, hpacket, -⟩
        exact absurd ⟨line, rest, hpacket⟩ hplus
      · rintro ⟨rest, hpacket, -⟩
        rw [hdata] at hpacket
        exact absurd hpacket not_packetIn_plus
    · have hcongr : ∀ rest, PacketIn fromStrRadix16 (input.drop pos) line rest ↔
          PacketIn (hexDigits 0) (input.drop pos) line rest := by
        intro rest
        exact packetIn_congr (fun tail heq => hdata ⟨tail, heq⟩)
      simp only [hcongr]

end Positions

/-! ## Round trip -/

section RoundTrip

/-- A packet that fits its four digits: `write_pkt_line` is given 65516 bytes at most. -/
def PktLine.Fits : PktLine → Prop
  | .data payload => payload.length ≤ 65516
  | .flush => True

theorem readPktLine_encode {line : PktLine} (hfits : line.Fits) (rest : Bytes) :
    readPktLine (line.encode ++ rest) = some (line, rest) := by
  cases line with
  | flush => exact readPktLine_flush rest
  | data payload =>
    have hlength : payload.length ≤ 65516 := hfits
    exact readPktLine_writePktLine (by omega) rest

theorem four_le_length_encode (line : PktLine) : 4 ≤ line.encode.length := by
  cases line with
  | flush => decide
  | data payload =>
    simp only [PktLine.encode, writePktLine, lowerHex4, List.length_append, List.length_cons,
      List.length_nil]
    omega

/-- The packets behind a front are read one after the other. -/
theorem readPktLinesAt_encode {checks : Bool} (lines : List PktLine)
    (hfits : ∀ line ∈ lines, line.Fits) (front : Bytes) (read : List PktLine) (steps : Nat)
    (hsize : (front ++ lines.flatMap PktLine.encode).length ≤ maxIsize)
    (hsteps : lines.length < steps) :
    readPktLinesAt checks (front ++ lines.flatMap PktLine.encode) steps front.length read =
      .ok (read ++ lines, (front ++ lines.flatMap PktLine.encode).length) := by
  -- the front holds the packets read so far
  induction lines generalizing front read steps with
  | nil =>
    obtain ⟨steps, rfl⟩ : ∃ fewer, steps = fewer + 1 := ⟨steps - 1, by simp at hsteps; omega⟩
    simp only [List.flatMap_nil, List.append_nil] at hsize ⊢
    have hnone : readPktLine (front.drop front.length) = none := by
      rw [List.drop_length]
      rfl
    rw [readPktLinesAt, readPktLineAt_of_none hsize (Nat.le_refl _) hnone]
  | cons line lines ih =>
    obtain ⟨steps, rfl⟩ : ∃ fewer, steps = fewer + 1 := ⟨steps - 1, by simp at hsteps; omega⟩
    simp only [List.flatMap_cons] at hsize ⊢
    have hread : readPktLine ((front ++ (line.encode ++ lines.flatMap PktLine.encode)).drop
        front.length) = some (line, lines.flatMap PktLine.encode) := by
      rw [List.drop_left]
      exact readPktLine_encode (hfits line List.mem_cons_self) _
    have hnext : (front ++ (line.encode ++ lines.flatMap PktLine.encode)).length -
        (lines.flatMap PktLine.encode).length = (front ++ line.encode).length := by
      simp only [List.length_append]
      omega
    rw [readPktLinesAt, readPktLineAt_of_some hsize hread, hnext, ← List.append_assoc]
    rw [← List.append_assoc] at hsize
    simp only
    rw [ih (fun other hmem => hfits other (List.mem_cons_of_mem _ hmem)) (front ++ line.encode)
      (read ++ [line]) steps hsize (by simpa using hsteps), List.append_assoc]
    rfl

end RoundTrip

/-- Packets that fit are read back as they were written, to the last byte, and at any position of a
buffer the reader takes what the format has there, unless a plus sign and three digits stand for
the four digits of a length. -/
theorem pkt_line_exact_iff (checks : Bool) :
    (∀ lines : List PktLine, (∀ line ∈ lines, line.Fits) →
      (lines.flatMap PktLine.encode).length ≤ maxIsize →
      readPktLinesAt checks (lines.flatMap PktLine.encode) (lines.flatMap PktLine.encode).length.succ
        0 [] = .ok (lines, (lines.flatMap PktLine.encode).length)) ∧
    ∀ input pos, input.length ≤ maxIsize →
      (ReadsFormat checks input pos ↔ ¬ PlusAt input pos) := by
  refine ⟨fun lines hfits hsize => ?_, fun input pos hsize => readsFormat_iff hsize⟩
  have hsteps : lines.length < (lines.flatMap PktLine.encode).length.succ := by
    have hleast : lines.length ≤ (lines.flatMap PktLine.encode).length := by
      clear hfits hsize
      induction lines with
      | nil => exact Nat.le_refl 0
      | cons line lines ih =>
        have hfour := four_le_length_encode line
        simp only [List.flatMap_cons, List.length_append, List.length_cons]
        omega
    omega
  exact readPktLinesAt_encode lines hfits [] [] _ hsize hsteps

/-- Two packets and a flush are read back, and the first of them is where the format has it. -/
theorem greeting_lines_are_read_back :
    readPktLinesAt true (utf8 "0006hi00000005x") 16 0 [] =
        .ok ([.data (utf8 "hi"), .flush, .data (utf8 "x")], 15) ∧
      ReadsFormat true (utf8 "0006hi00000005x") 0 := by
  obtain ⟨hround, hexact⟩ := pkt_line_exact_iff true
  have hencode : [PktLine.data (utf8 "hi"), .flush, .data (utf8 "x")].flatMap PktLine.encode =
      utf8 "0006hi00000005x" := by decide +kernel
  have hlength : (utf8 "0006hi00000005x").length = 15 := by decide +kernel
  have hread := hround [.data (utf8 "hi"), .flush, .data (utf8 "x")] (by
    intro line hmem
    fin_cases hmem
    · exact (by decide +kernel : (utf8 "hi").length ≤ 65516)
    · exact trivial
    · exact (by decide +kernel : (utf8 "x").length ≤ 65516)) (by rw [hencode]; decide +kernel)
  rw [hencode, hlength] at hread
  refine ⟨hread, (hexact _ 0 (by decide +kernel)).2 ?_⟩
  rintro ⟨digits, rest, len, hplus, -⟩
  have hhead : ((utf8 "0006hi00000005x").drop 0).head? = some 0x2B := congrArg List.head? hplus
  exact absurd hhead (by decide +kernel)

/-- The bytes of a packet with one byte of payload, with a plus sign for its first digit. -/
theorem plus_sign_is_accepted :
    readPktLineAt true (utf8 "+005x") 0 = .ok (some (.data (utf8 "x")), 5) ∧
      ¬ ReadsFormat true (utf8 "+005x") 0 := by
  refine ⟨by decide +kernel, fun hformat => ?_⟩
  refine (readsFormat_iff (by decide)).1 hformat ?_
  exact ⟨utf8 "005", utf8 "x", 5, by decide +kernel, by decide, by decide +kernel, by decide⟩

end Edda.Git
