import Edda.Support.RustText

/-!
# The pkt-line wire format

Every line is a four-digit hexadecimal length, which counts the four digits themselves, followed
by the payload; the length `0000` is a flush packet. A reader position is modelled by the bytes
from that position on: `readPktLine` returns the packet and the bytes after it, or `none` where
the source leaves its position unchanged.
-/

set_option autoImplicit false

namespace Edda.Git

open Edda.Support.RustText

/-- The flush packet. -/
def flush : Bytes := utf8 "0000"

/-- Encodes one payload as a pkt-line. -/
def writePktLine (payload : Bytes) : Bytes := lowerHex4 (payload.length + 4) ++ payload

/-- Encodes a flush packet. -/
def writeFlush : Bytes := flush

/-- One packet. -/
inductive PktLine where
  | data (payload : Bytes)
  | flush
  deriving DecidableEq, Repr

/-- Reads one packet off the input. -/
def readPktLine (input : Bytes) : Option (PktLine × Bytes) :=
  if input.length < 4 then none
  else match fromStrRadix16 (input.take 4) with
    | none => none
    | some len =>
      if len = 0 then some (.flush, input.drop 4)
      else if len < 4 ∨ input.length < len then none
      else some (.data ((input.drop 4).take (len - 4)), input.drop len)

/-- Every packet takes at least its four length digits off the input. -/
theorem readPktLine_length_lt {input rest : Bytes} {line : PktLine}
    (h : readPktLine input = some (line, rest)) : rest.length + 4 ≤ input.length := by
  unfold readPktLine at h
  split at h
  · simp at h
  · rename_i hlen
    split at h
    · simp at h
    · split at h
      · simp only [Option.some.injEq, Prod.mk.injEq] at h
        obtain ⟨-, rfl⟩ := h
        simp only [List.length_drop]
        omega
      · split at h
        · simp at h
        · rename_i len _ _ hbounds
          simp only [Option.some.injEq, Prod.mk.injEq] at h
          obtain ⟨-, rfl⟩ := h
          simp only [List.length_drop]
          omega

/-- Reading a flush packet. -/
theorem readPktLine_flush (rest : Bytes) :
    readPktLine (writeFlush ++ rest) = some (.flush, rest) := by
  have hflush : writeFlush = [0x30, 0x30, 0x30, 0x30] := by decide
  have hzero : fromStrRadix16 [0x30, 0x30, 0x30, 0x30] = some 0 := by decide
  simp [readPktLine, hflush, hzero]

/-- The length of a written pkt-line. -/
theorem length_writePktLine {payload : Bytes} (hlen : payload.length + 4 < 0x10000) :
    (writePktLine payload).length = payload.length + 4 := by
  simp only [writePktLine, List.length_append, length_lowerHex4 hlen]
  omega

/-- The first four bytes of a written pkt-line are its length digits. -/
theorem take_four_writePktLine {payload : Bytes} (hlen : payload.length + 4 < 0x10000)
    (rest : Bytes) :
    (writePktLine payload ++ rest).take 4 = lowerHex4 (payload.length + 4) := by
  rw [writePktLine, List.append_assoc]
  exact List.take_left' (length_lowerHex4 hlen)

/-- Reading back a pkt-line that was written. -/
theorem readPktLine_writePktLine {payload : Bytes} (hlen : payload.length + 4 < 0x10000)
    (rest : Bytes) :
    readPktLine (writePktLine payload ++ rest) = some (.data payload, rest) := by
  have hline := length_writePktLine hlen
  have htotal : (writePktLine payload ++ rest).length = payload.length + 4 + rest.length := by
    rw [List.length_append, hline]
  have htail : (writePktLine payload ++ rest).drop 4 = payload ++ rest := by
    rw [writePktLine, List.append_assoc]
    exact List.drop_left' (length_lowerHex4 hlen)
  have hdrop : (writePktLine payload ++ rest).drop (payload.length + 4) = rest :=
    List.drop_left' hline
  unfold readPktLine
  rw [if_neg (by omega), take_four_writePktLine hlen, fromStrRadix16_lowerHex4 hlen]
  show (if payload.length + 4 = 0 then _ else _) = _
  rw [if_neg (by omega), if_neg (by omega), htail, hdrop, Nat.add_sub_cancel, List.take_left]

/-- A pkt-line that is cut short is not read. -/
theorem readPktLine_cut {payload cut : Bytes} (hlen : payload.length + 4 < 0x10000)
    (hcut : cut <+: writePktLine payload) (hproper : cut ≠ writePktLine payload) :
    readPktLine cut = none := by
  have hline := length_writePktLine hlen
  have hshort : cut.length < (writePktLine payload).length := by
    rcases Nat.lt_or_ge cut.length (writePktLine payload).length with h | h
    · exact h
    · exact absurd (hcut.eq_of_length (Nat.le_antisymm hcut.length_le h)) hproper
  unfold readPktLine
  split
  · rfl
  · rename_i hge
    have hhead : cut.take 4 = lowerHex4 (payload.length + 4) := by
      obtain ⟨suffix, hsuffix⟩ := hcut
      rw [← take_four_writePktLine hlen [], List.append_nil, ← hsuffix,
        List.take_append_of_le_length (by omega)]
    rw [hhead, fromStrRadix16_lowerHex4 hlen]
    show (if payload.length + 4 = 0 then _ else _) = _
    rw [if_neg (by omega), if_pos (Or.inr (by omega))]

/-- A flush packet that is cut short is not read. -/
theorem readPktLine_cut_flush {cut : Bytes} (hcut : cut <+: writeFlush)
    (hproper : cut ≠ writeFlush) : readPktLine cut = none := by
  have hfour : writeFlush.length = 4 := by decide
  have hshort : cut.length < 4 := by
    rcases Nat.lt_or_ge cut.length 4 with h | h
    · exact h
    · exact absurd (hcut.eq_of_length (Nat.le_antisymm hcut.length_le (by omega))) hproper
  unfold readPktLine
  rw [if_pos hshort]

end Edda.Git
