import Edda.Support.RustText

/-!
# Characters within bytes

UTF-8 is self-synchronizing: the bytes of a character are found in a text only where the character
stands (`flatMap_utf8_eq_append_encode`), and a byte below `0x80` only where it is a character by
itself (`eq_of_mem_utf8EncodeChar`).
-/

set_option autoImplicit false

namespace Edda.Support.RustText

/-- The bytes of a character that is one byte. -/
theorem utf8EncodeChar_ascii {c : Char} (hc : c.toNat < 0x80) :
    String.utf8EncodeChar c = [UInt8.ofNat c.toNat] := by
  have hvalue : c.val.toNat ≤ 0x7f := Nat.le_of_lt_succ hc
  simp only [String.utf8EncodeChar, if_pos hvalue]
  rfl

/-- A byte below `0x80` is no part of a longer character. -/
theorem utf8EncodeChar_of_mem {c : Char} {b : UInt8} (hmem : b ∈ String.utf8EncodeChar c)
    (hb : b < 0x80) : String.utf8EncodeChar c = [b] := by
  have hlow : b.toNat < 0x80 := hb
  have hhigh : ∀ n, n < 256 → 0x80 ≤ n → b ≠ UInt8.ofNat n := by
    rintro n hn hle rfl
    rw [UInt8.toNat_ofNat', Nat.mod_eq_of_lt hn] at hlow
    omega
  generalize hv : c.val.toNat = v at *
  simp only [String.utf8EncodeChar, hv] at hmem ⊢
  split at hmem
  · rename_i hone
    rw [if_pos hone, List.mem_singleton.1 hmem]
  · exfalso
    -- each byte of a longer character has its highest bit
    split at hmem
    · simp only [List.mem_cons, List.not_mem_nil, or_false] at hmem
      rcases hmem with h | h
      · exact hhigh _ (by omega) (by omega) h
      · exact hhigh _ (by omega) (by omega) h
    · split at hmem
      · simp only [List.mem_cons, List.not_mem_nil, or_false] at hmem
        rcases hmem with h | h | h
        · exact hhigh _ (by omega) (by omega) h
        · exact hhigh _ (by omega) (by omega) h
        · exact hhigh _ (by omega) (by omega) h
      · simp only [List.mem_cons, List.not_mem_nil, or_false] at hmem
        rcases hmem with h | h | h | h
        · exact hhigh _ (by omega) (by omega) h
        · exact hhigh _ (by omega) (by omega) h
        · exact hhigh _ (by omega) (by omega) h
        · exact hhigh _ (by omega) (by omega) h

theorem utf8EncodeChar_inj {c d : Char} (h : String.utf8EncodeChar c = String.utf8EncodeChar d) :
    c = d :=
  (utf8EncodeChar_append_inj (congrArg (· ++ []) h)).1

/-- The byte of an ASCII character occurs in no other character. -/
theorem eq_of_mem_utf8EncodeChar {c d : Char} (hd : d.toNat < 0x80)
    (hmem : UInt8.ofNat d.toNat ∈ String.utf8EncodeChar c) : c = d := by
  have hbyte : UInt8.ofNat d.toNat < 0x80 := by
    rw [UInt8.lt_iff_toNat_lt, UInt8.toNat_ofNat', Nat.mod_eq_of_lt (by omega)]
    exact hd
  exact utf8EncodeChar_inj ((utf8EncodeChar_of_mem hmem hbyte).trans (utf8EncodeChar_ascii hd).symm)

/-- The bytes of a character are found only where a character starts, and there it is that
character. -/
theorem flatMap_utf8_eq_append_encode {chars : List Char} {c : Char} {front tail : Bytes}
    (h : chars.flatMap String.utf8EncodeChar = front ++ (String.utf8EncodeChar c ++ tail)) :
    ∃ before after, chars = before ++ c :: after ∧
      before.flatMap String.utf8EncodeChar = front ∧
      after.flatMap String.utf8EncodeChar = tail := by
  induction chars generalizing front with
  | nil =>
    have hnil := (List.append_eq_nil_iff.1 (List.append_eq_nil_iff.1 h.symm).2).1
    exact absurd hnil String.utf8EncodeChar_ne_nil
  | cons d chars ih =>
    cases front with
    | nil =>
      obtain ⟨rfl, htail⟩ := utf8EncodeChar_append_inj (List.flatMap_cons.symm.trans h)
      exact ⟨[], chars, rfl, rfl, htail⟩
    | cons b front =>
      rw [List.flatMap_cons] at h
      rcases List.append_eq_append_iff.1 h with ⟨rest, hfront, hrest⟩ | ⟨rest, hencode, hrest⟩
      · obtain ⟨before, after, rfl, hbefore, hafter⟩ := ih hrest
        exact ⟨d :: before, after, rfl, by rw [List.flatMap_cons, hbefore, hfront], hafter⟩
      · cases rest with
        | nil =>
          rw [List.append_nil] at hencode
          obtain ⟨before, after, rfl, hbefore, hafter⟩ := @ih [] hrest.symm
          refine ⟨d :: before, after, rfl, ?_, hafter⟩
          rw [List.flatMap_cons, hbefore, List.append_nil, hencode]
        | cons e rest =>
          -- the first byte of `c` would stand inside of `d`
          exfalso
          obtain ⟨first, others, hc⟩ := List.exists_cons_of_ne_nil
            (String.utf8EncodeChar_ne_nil (c := c))
          obtain ⟨rfl, -⟩ := List.cons.inj ((congrArg (· ++ tail) hc).symm.trans hrest)
          have hfirst : first.IsUTF8FirstByte := by
            have hpos : 0 < (String.utf8EncodeChar c).length := by
              rw [hc]
              exact Nat.succ_pos _
            have hzero := (@UInt8.isUTF8FirstByte_getElem_utf8EncodeChar c 0 hpos).2 rfl
            simpa only [hc, List.getElem_cons_zero] using hzero
          have hwithin : (b :: front).length < (String.utf8EncodeChar d).length := by
            rw [hencode, List.length_append]
            exact Nat.lt_add_of_pos_right (Nat.succ_pos _)
          have hlater := @UInt8.isUTF8FirstByte_getElem_utf8EncodeChar d _ hwithin
          simp only [hencode, List.getElem_append_right (Nat.le_refl _), Nat.sub_self,
            List.getElem_cons_zero] at hlater
          exact absurd (hlater.1 hfirst) (Nat.succ_ne_zero _)

end Edda.Support.RustText
