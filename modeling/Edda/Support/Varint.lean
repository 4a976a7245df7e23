import Edda.Support.RustText
import Mathlib.Data.Nat.Bitwise

/-!
# Machine words and numbers in groups of seven bits

Sizes and offsets are words of 64 bits. Where overflow checks are compiled in, an operation whose
result is no word, or a shift by the width of a word, panics; otherwise it wraps. The length of a
buffer is at most `maxIsize`.

A number is written as groups of seven bits, the lowest first, in bytes of which all but the last
have their high bit set. `Groups` says which number some bytes are, `readGroups` reads them into a
word, and `kept` is what then is left of them. A number that fits in the word is left as it is
(`kept_of_lt`), however many groups it has. Numbers of a fixed width are written big-endian.
-/

set_option autoImplicit false

namespace Edda.Support.Varint

open Edda.Support.RustText

variable {ε : Type}

/-! ## Words -/

/-- How a function ends without a value. -/
inductive Failure (ε : Type) where
  | error (err : ε)
  | panic
  deriving DecidableEq, Repr

/-- The first number that is no word. -/
def wordLimit : Nat := 2 ^ 64

/-- The largest length of a buffer (`isize::MAX`). -/
def maxIsize : Nat := 2 ^ 63 - 1

/-- `value << shift`. Without checks the shift is taken modulo the width. -/
def shiftLeft (checks : Bool) (value shift : Nat) : Except (Failure ε) Nat :=
  if shift < 64 then .ok (value <<< shift % wordLimit)
  else if checks then .error .panic
  else .ok (value <<< (shift % 64) % wordLimit)

/-- `a + b`. -/
def addWords (checks : Bool) (a b : Nat) : Except (Failure ε) Nat :=
  if a + b < wordLimit then .ok (a + b)
  else if checks then .error .panic
  else .ok ((a + b) % wordLimit)

/-- `Vec::with_capacity` for bytes. -/
def withCapacity (capacity : Nat) : Except (Failure ε) Unit :=
  if capacity ≤ maxIsize then .ok () else .error .panic

/-! ## Groups -/

/-- The seven bits of a byte. -/
def lowBits (byte : UInt8) : Nat := (byte &&& 0x7f).toNat

/-- Whether another group follows. -/
def continues (byte : UInt8) : Bool := byte &&& 0x80 != 0

/-- The bytes of a number. -/
inductive Groups : Bytes → Nat → Prop
  | last (byte : UInt8) : continues byte = false → Groups [byte] (lowBits byte)
  | more (byte : UInt8) (rest : Bytes) (value : Nat) : continues byte = true →
      Groups rest value → Groups (byte :: rest) (lowBits byte + 128 * value)

/-- Reads groups onto `size`, the first of them to `shift`. The value and the place behind the
last byte are returned. The shift count does not overflow before a shift panics, and without
checks only its last bits count. -/
def readGroups (checks : Bool) (truncated : ε) :
    Bytes → Nat → Nat → Nat → Except (Failure ε) (Nat × Nat)
  | [], _, _, _ => .error (.error truncated)
  | byte :: rest, pos, size, shift => match shiftLeft checks (lowBits byte) shift with
    | .error failure => .error failure
    | .ok group =>
      if continues byte then readGroups checks truncated rest (pos + 1) (size ||| group) (shift + 7)
      else .ok (size ||| group, pos + 1)

/-- What is left of groups in a word. -/
def kept : Bytes → Nat → Nat
  | [], _ => 0
  | byte :: rest, shift => (lowBits byte <<< (shift % 64) % wordLimit) ||| kept rest (shift + 7)

/-- The groups of a number. Nothing is written for zero. -/
def writeGroups (size : Nat) : Bytes :=
  if size = 0 then []
  else
    let byte := UInt8.ofNat (size &&& 0x7f)
    (if size >>> 7 > 0 then byte ||| 0x80 else byte) :: writeGroups (size >>> 7)
termination_by size
decreasing_by
  rw [Nat.shiftRight_eq_div_pow]
  omega

/-! ## What the groups are -/

theorem lowBits_lt (byte : UInt8) : lowBits byte < 128 := by
  have hbits : lowBits byte = byte.toNat % 128 := by
    rw [lowBits, UInt8.toNat_and]
    exact Nat.and_two_pow_sub_one_eq_mod byte.toNat 7
  omega

theorem Groups.ne_nil {field : Bytes} {value : Nat} (h : Groups field value) : field ≠ [] := by
  cases h <;> simp

theorem Groups.length_pos {field : Bytes} {value : Nat} (h : Groups field value) :
    0 < field.length := List.length_pos_iff.2 h.ne_nil

/-- Bytes begin with one number at most. -/
theorem Groups.unique {field field' rest rest' : Bytes} {value value' : Nat}
    (h : Groups field value) (h' : Groups field' value') (heq : field ++ rest = field' ++ rest') :
    field = field' ∧ value = value' ∧ rest = rest' := by
  induction h generalizing field' value' with
  | last byte hlast =>
    cases h' with
    | last byte' _ =>
      obtain ⟨rfl, rfl⟩ := List.cons.inj heq
      exact ⟨rfl, rfl, rfl⟩
    | more byte' _ _ hmore _ =>
      obtain ⟨rfl, -⟩ := List.cons.inj heq
      exact absurd hmore (by simp [hlast])
  | more byte groups value hmore _ ih =>
    cases h' with
    | last byte' hlast =>
      obtain ⟨rfl, -⟩ := List.cons.inj heq
      exact absurd hmore (by simp [hlast])
    | more byte' groups' value' _ hgroups' =>
      obtain ⟨rfl, htail⟩ := List.cons.inj heq
      obtain ⟨rfl, rfl, hrest⟩ := ih hgroups' htail
      exact ⟨rfl, rfl, hrest⟩

/-! ## Reading -/

/-- A shift within the word, or without checks. -/
theorem shiftLeft_of_fits {checks : Bool} {shift : Nat} (value : Nat)
    (hfits : checks = true → shift < 64) :
    (shiftLeft checks value shift : Except (Failure ε) Nat) =
      .ok (value <<< (shift % 64) % wordLimit) := by
  unfold shiftLeft
  split
  · rename_i hlt
    rw [Nat.mod_eq_of_lt hlt]
  · rename_i hge
    rw [if_neg fun hchecks => hge (hfits hchecks)]

/-- Groups are read into what the word keeps of them, where no shift panics. -/
theorem readGroups_of_groups {checks : Bool} (truncated : ε) {field : Bytes} {value : Nat}
    (h : Groups field value) (rest : Bytes) (pos size shift : Nat)
    (hfits : checks = true → shift + 7 * (field.length - 1) < 64) :
    readGroups checks truncated (field ++ rest) pos size shift =
      .ok (size ||| kept field shift, pos + field.length) := by
  induction h generalizing pos size shift with
  | last byte hlast =>
    have hshift : checks = true → shift < 64 := by simpa using hfits
    simp only [List.singleton_append, readGroups, shiftLeft_of_fits (ε := ε) (lowBits byte) hshift,
      hlast, Bool.false_eq_true, if_false, kept, Nat.or_zero, List.length_singleton]
  | more byte groups value hmore hgroups ih =>
    have hpos := hgroups.length_pos
    have hshift : checks = true → shift < 64 := by
      intro hchecks
      have hlast := hfits hchecks
      omega
    have hnext : checks = true → shift + 7 + 7 * (groups.length - 1) < 64 := by
      intro hchecks
      have hlast := hfits hchecks
      simp only [List.length_cons] at hlast
      omega
    simp only [List.cons_append, readGroups, shiftLeft_of_fits (ε := ε) (lowBits byte) hshift,
      hmore, if_true, ih _ _ _ hnext, kept, Nat.or_assoc, List.length_cons]
    rw [Nat.add_assoc, Nat.add_comm 1]

/-- What is read is a number, and no shift of its groups panicked. -/
theorem groups_of_readGroups {checks : Bool} {truncated : ε} {data : Bytes}
    {pos size shift value next : Nat}
    (h : readGroups checks truncated data pos size shift = .ok (value, next)) :
    ∃ field rest number, data = field ++ rest ∧ Groups field number ∧
      value = size ||| kept field shift ∧ next = pos + field.length ∧
      (checks = true → shift + 7 * (field.length - 1) < 64) := by
  induction data generalizing pos size shift with
  | nil => simp [readGroups] at h
  | cons byte data ih =>
    simp only [readGroups] at h
    split at h
    · simp at h
    · rename_i group hgroup
      have hshift : checks = true → shift < 64 := by
        intro hchecks
        by_contra hge
        rw [shiftLeft, if_neg hge, if_pos hchecks] at hgroup
        exact absurd hgroup (by simp)
      rw [shiftLeft_of_fits (ε := ε) (lowBits byte) hshift] at hgroup
      obtain rfl := Except.ok.inj hgroup
      split at h
      · rename_i hmore
        obtain ⟨field, rest, number, rfl, hfield, rfl, rfl, hfits⟩ := ih h
        have hpos := hfield.length_pos
        refine ⟨byte :: field, rest, _, rfl, .more byte field number hmore hfield, ?_, ?_, ?_⟩
        · rw [kept, Nat.or_assoc]
        · rw [List.length_cons, Nat.add_assoc, Nat.add_comm 1]
        · intro hchecks
          have hlast := hfits hchecks
          simp only [List.length_cons]
          omega
      · rename_i hlast
        obtain ⟨rfl, rfl⟩ := Prod.mk.inj (Except.ok.inj h)
        refine ⟨[byte], data, _, rfl, .last byte (by simpa using hlast), ?_, rfl, ?_⟩
        · rw [kept, kept, Nat.or_zero]
        · simpa using hshift

/-- Nothing but zero is left in the word by a long shift. -/
theorem eq_zero_of_shiftLeft_lt {number shift : Nat} (hshift : 64 ≤ shift)
    (h : number <<< shift < wordLimit) : number = 0 := by
  by_contra hne
  have hword : wordLimit ≤ 2 ^ shift := Nat.pow_le_pow_right (by decide) hshift
  have hone : 2 ^ shift ≤ number * 2 ^ shift := Nat.le_mul_of_pos_left _ (Nat.pos_of_ne_zero hne)
  rw [Nat.shiftLeft_eq] at h
  exact absurd (hword.trans hone) (Nat.not_le.2 h)

/-- A number that fits in the word is kept whole. -/
theorem kept_of_lt {field : Bytes} {value : Nat} (h : Groups field value) (shift : Nat)
    (hlt : value <<< shift < wordLimit) : kept field shift = value <<< shift := by
  induction h generalizing shift with
  | last byte hlast =>
    rw [kept, kept, Nat.or_zero]
    by_cases hshift : shift < 64
    · rw [Nat.mod_eq_of_lt hshift, Nat.mod_eq_of_lt hlt]
    · have hnone := eq_zero_of_shiftLeft_lt (Nat.le_of_not_lt hshift) hlt
      simp [hnone]
  | more byte groups value hmore hgroups ih =>
    have hsplit : (lowBits byte + 128 * value) <<< shift =
        lowBits byte <<< shift + value <<< (shift + 7) := by
      simp only [Nat.shiftLeft_eq, Nat.pow_add]
      ring
    rw [hsplit] at hlt ⊢
    have hlowLt : lowBits byte <<< shift < wordLimit := (Nat.le_add_right _ _).trans_lt hlt
    have hhighLt : value <<< (shift + 7) < wordLimit := (Nat.le_add_left _ _).trans_lt hlt
    rw [kept, ih (shift + 7) hhighLt]
    by_cases hshift : shift < 64
    · -- the groups do not overlap
      have hlow : lowBits byte <<< shift < 2 ^ (shift + 7) := by
        rw [Nat.shiftLeft_eq, Nat.pow_add, Nat.mul_comm]
        exact Nat.mul_lt_mul_of_pos_left (lowBits_lt byte) (Nat.two_pow_pos shift)
      rw [Nat.mod_eq_of_lt hshift, Nat.mod_eq_of_lt hlowLt, Nat.or_comm,
        ← Nat.shiftLeft_add_eq_or_of_lt hlow, Nat.add_comm]
    · have hge := Nat.le_of_not_lt hshift
      have hlow : lowBits byte = 0 := eq_zero_of_shiftLeft_lt hge hlowLt
      have hvalue : value = 0 := eq_zero_of_shiftLeft_lt (by omega) hhighLt
      simp [hlow, hvalue]

/-- Bytes of which the first `count` continue, with another byte behind them. -/
def ContinuesPast : Nat → Bytes → Prop
  | _, [] => False
  | 0, _ :: _ => True
  | count + 1, byte :: rest => continues byte = true ∧ ContinuesPast count rest

/-- With checks a reading panics where the input goes on to a group whose shift is the width of a
word or more. The group is the first one behind `count` others. -/
theorem readGroups_eq_panic_iff (truncated : ε) {count shift : Nat} (data : Bytes) (pos size : Nat)
    (hwidth : 64 ≤ shift + 7 * count) (hfirst : shift + 7 * count < 71) :
    readGroups true truncated data pos size shift = .error .panic ↔ ContinuesPast count data := by
  induction data generalizing count shift pos size with
  | nil => cases count <;> simp [readGroups, ContinuesPast]
  | cons byte rest ih =>
    cases count with
    | zero =>
      have hshift : ¬ shift < 64 := by omega
      simp only [readGroups, shiftLeft, if_neg hshift, if_true, ContinuesPast]
    | succ count =>
      have hshift : shift < 64 := by omega
      have hnext : readGroups true truncated rest (pos + 1)
          (size ||| lowBits byte <<< shift % wordLimit) (shift + 7) = .error .panic ↔
          ContinuesPast count rest := ih _ _ (by omega) (by omega)
      simp only [readGroups, shiftLeft, if_pos hshift, ContinuesPast]
      by_cases hmore : continues byte = true
      · simp only [hmore, if_true, true_and]
        exact hnext
      · simp [hmore]

/-- A number whose groups are all shifted by less than a word is cut off to a word. -/
theorem kept_eq_mod {field : Bytes} {value : Nat} (h : Groups field value) {shift : Nat}
    (hshift : shift + 7 * (field.length - 1) < 64) :
    kept field shift = value <<< shift % wordLimit := by
  induction h generalizing shift with
  | last byte hlast =>
    have hword : shift < 64 := by simpa using hshift
    rw [kept, kept, Nat.or_zero, Nat.mod_eq_of_lt hword]
  | more byte groups value hmore hgroups ih =>
    have hpos := hgroups.length_pos
    simp only [List.length_cons] at hshift
    have hword : shift < 64 := by omega
    have hlow : lowBits byte <<< shift < 2 ^ (shift + 7) := by
      rw [Nat.shiftLeft_eq, Nat.pow_add, Nat.mul_comm]
      exact Nat.mul_lt_mul_of_pos_left (lowBits_lt byte) (Nat.two_pow_pos shift)
    -- the groups do not overlap, and each is cut off on its own
    have hsplit : (lowBits byte + 128 * value) <<< shift =
        lowBits byte <<< shift ||| value <<< (shift + 7) := by
      rw [Nat.or_comm, ← Nat.shiftLeft_add_eq_or_of_lt hlow]
      simp only [Nat.shiftLeft_eq, Nat.pow_add]
      ring
    rw [kept, ih (by omega), Nat.mod_eq_of_lt hword, hsplit, wordLimit, Nat.or_mod_two_pow]

/-! ## Writing -/

/-- The byte of a group. -/
theorem group_byte : ∀ low, low < 128 →
    (continues (UInt8.ofNat low) = false ∧ lowBits (UInt8.ofNat low) = low) ∧
      continues (UInt8.ofNat low ||| 0x80) = true ∧
      lowBits (UInt8.ofNat low ||| 0x80) = low := by
  decide

@[simp] theorem writeGroups_zero : writeGroups 0 = [] := by
  rw [writeGroups, if_pos rfl]

/-- The groups that are written for a number are its groups. -/
theorem groups_writeGroups {size : Nat} (hpos : 0 < size) : Groups (writeGroups size) size := by
  induction size using Nat.strongRecOn with
  | ind size ih =>
    have hlow : size &&& 0x7f = size % 128 := Nat.and_two_pow_sub_one_eq_mod size 7
    have hhigh : size >>> 7 = size / 128 := Nat.shiftRight_eq_div_pow size 7
    have hbyte := group_byte (size % 128) (Nat.mod_lt _ (by decide))
    have hsize : size % 128 + 128 * (size / 128) = size := Nat.mod_add_div size 128
    rw [writeGroups, if_neg (Nat.ne_of_gt hpos)]
    simp only [hlow, hhigh]
    by_cases hmore : size / 128 > 0
    · rw [if_pos hmore]
      have hgroups := Groups.more _ _ _ hbyte.2.1 (ih (size / 128) (by omega) hmore)
      rwa [hbyte.2.2, hsize] at hgroups
    · have hlast : size / 128 = 0 := by omega
      rw [if_neg hmore, hlast, writeGroups_zero]
      have hgroups := Groups.last _ hbyte.1.1
      rw [hbyte.1.2] at hgroups
      rw [hlast, Nat.mul_zero, Nat.add_zero] at hsize
      rw [hsize] at hgroups ⊢
      exact hgroups

/-- A number of `bits` bits has no more groups than that many bits need. -/
theorem length_writeGroups_le (groups : Nat) {size : Nat} (h : size < 2 ^ (7 * groups)) :
    (writeGroups size).length ≤ groups := by
  induction groups generalizing size with
  | zero =>
    have hzero : size = 0 := by simpa using h
    rw [hzero, writeGroups_zero]
    exact Nat.le_refl 0
  | succ groups ih =>
    rw [writeGroups]
    split
    · exact Nat.zero_le _
    · simp only [List.length_cons]
      have hnext : size >>> 7 < 2 ^ (7 * groups) := by
        rw [Nat.shiftRight_eq_div_pow, Nat.div_lt_iff_lt_mul (by decide), ← Nat.pow_add]
        exact h
      exact Nat.succ_le_succ (ih hnext)

/-! ## Big-endian numbers -/

/-- The last `width` bytes of a number, the highest first (`to_be_bytes`). -/
def beBytes : Nat → Nat → Bytes
  | 0, _ => []
  | width + 1, n => beBytes width (n / 256) ++ [UInt8.ofNat n]

/-- The number of some bytes, the highest first (`from_be_bytes`). -/
def beValue (bytes : Bytes) : Nat := bytes.foldl (fun value byte => value * 256 + byte.toNat) 0

theorem length_beBytes (width n : Nat) : (beBytes width n).length = width := by
  induction width generalizing n with
  | zero => rfl
  | succ width ih => simp [beBytes, ih]

theorem beValue_beBytes (width n : Nat) : beValue (beBytes width n) = n % 256 ^ width := by
  induction width generalizing n with
  | zero => simp [beBytes, beValue, Nat.mod_one]
  | succ width ih =>
    have hlast : beValue (beBytes (width + 1) n) =
        beValue (beBytes width (n / 256)) * 256 + (UInt8.ofNat n).toNat := by
      simp only [beValue, beBytes, List.foldl_append, List.foldl_cons, List.foldl_nil]
    have hbyte : (UInt8.ofNat n).toNat = n % 256 := UInt8.toNat_ofNat'
    rw [hlast, ih, hbyte, Nat.pow_succ', Nat.mod_mul]
    omega

end Edda.Support.Varint
