import Edda.Git.Object
import Edda.Support.Varint

/-!
# Deltas of packs

A delta makes an object out of a base: it names the sizes of both, and then instructs to copy
ranges of the base and to insert bytes of its own. `applyDelta` is the code's reading of it, on
words of 64 bits; `WellFormed` says which bytes are a delta of a base and what they denote, with
numbers of any size.

`delta_exact_iff` says when the two agree. A size that is written with more than 64 bits is cut off
silently, or panics, but is not rejected.
-/

set_option autoImplicit false

namespace Edda.Git

open Edda.Support.RustText Edda.Support.Varint

/-! ## Applying a delta -/

def truncatedDelta : GitError := .git "truncated delta instruction"

/-- One size at the start of a delta, and how many bytes it takes. -/
def readDeltaSize (checks : Bool) (data : Bytes) : Except (Failure GitError) (Nat × Nat) :=
  readGroups checks (.git "truncated delta size") data 0 0 0

/-- The operand bytes of a copy from the flag `first` on: a byte for each flag that is set, the
lowest first. -/
def readOperand (op : UInt8) (first : Nat) :
    Nat → Nat → Bytes → Nat → Except GitError (Nat × Bytes)
  | 0, _, rest, value => .ok (value, rest)
  | count + 1, i, rest, value =>
    if op.toNat.testBit (first + i) then match rest with
      | [] => .error truncatedDelta
      | byte :: rest => readOperand op first count (i + 1) rest (value ||| byte.toNat <<< (8 * i))
    else readOperand op first count (i + 1) rest value

/-- The size of a copy; no size stands for the largest. -/
def copySize (size : Nat) : Nat := if size = 0 then 0x10000 else size

/-- The range of the base that is copied. -/
def copiedChunk (base : Bytes) (offset size : Nat) : Except GitError Bytes :=
  if offset + size < wordLimit then
    if offset + size ≤ base.length then .ok ((base.drop offset).take size)
    else .error (.git "delta copy out of range")
  else .error (.git "delta copy overflow")

/-- The instructions of a delta, appended to `out`. Each takes a byte at least, so that as many
steps as bytes are enough. -/
def applyInstructions (base : Bytes) : Nat → Bytes → Bytes → Except GitError Bytes
  | 0, _, out => .ok out
  | _ + 1, [], out => .ok out
  | steps + 1, op :: rest, out =>
    if op &&& 0x80 ≠ 0 then match readOperand op 0 4 0 rest 0 with
      | .error err => .error err
      | .ok (offset, rest) => match readOperand op 4 3 0 rest 0 with
        | .error err => .error err
        | .ok (size, rest) => match copiedChunk base offset (copySize size) with
          | .error err => .error err
          | .ok chunk => applyInstructions base steps rest (out ++ chunk)
    else if op ≠ 0 then
      if op.toNat ≤ rest.length then
        applyInstructions base steps (rest.drop op.toNat) (out ++ rest.take op.toNat)
      else .error truncatedDelta
    else .error (.git "invalid delta opcode 0")

def applyDelta (checks : Bool) (base delta : Bytes) : Except (Failure GitError) Bytes :=
  match readDeltaSize checks delta with
  | .error failure => .error failure
  | .ok (baseSize, consumed) =>
    if baseSize ≠ base.length then .error (.error (.git "delta base size mismatch"))
    else match readDeltaSize checks (delta.drop consumed) with
      | .error failure => .error failure
      | .ok (targetSize, consumed') => match withCapacity targetSize with
        | .error failure => .error failure
        | .ok () =>
          let instructions := delta.drop (consumed + consumed')
          match applyInstructions base instructions.length instructions [] with
          | .error err => .error (.error err)
          | .ok out =>
            if out.length ≠ targetSize then .error (.error (.git "delta result size mismatch"))
            else .ok out

/-! ## What a delta denotes -/

/-- The operand of a copy: a byte for each of the flags from `bit` on that is set. -/
inductive Operand (op : UInt8) : Nat → Nat → Bytes → Nat → Prop
  | done (bit : Nat) : Operand op bit 0 [] 0
  | absent (bit count : Nat) (bytes : Bytes) (value : Nat) : op.toNat.testBit bit = false →
      Operand op (bit + 1) count bytes value → Operand op bit (count + 1) bytes (256 * value)
  | present (bit count : Nat) (byte : UInt8) (bytes : Bytes) (value : Nat) :
      op.toNat.testBit bit = true → Operand op (bit + 1) count bytes value →
      Operand op bit (count + 1) (byte :: bytes) (byte.toNat + 256 * value)

/-- What the instructions denote over a base. -/
inductive Denotes (base : Bytes) : Bytes → Bytes → Prop
  | done : Denotes base [] []
  | copy (op : UInt8) (offsetBytes sizeBytes rest out : Bytes) (offset size : Nat) :
      op &&& 0x80 ≠ 0 → Operand op 0 4 offsetBytes offset → Operand op 4 3 sizeBytes size →
      offset + copySize size ≤ base.length → Denotes base rest out →
      Denotes base (op :: (offsetBytes ++ (sizeBytes ++ rest)))
        ((base.drop offset).take (copySize size) ++ out)
  | insert (op : UInt8) (literal rest out : Bytes) : op &&& 0x80 = 0 → op ≠ 0 →
      literal.length = op.toNat → Denotes base rest out →
      Denotes base (op :: (literal ++ rest)) (literal ++ out)

/-- The parts of a delta: the two sizes, and instructions that denote `out`. -/
structure Layout (base delta source target : Bytes) (sourceSize targetSize : Nat)
    (instructions out : Bytes) : Prop where
  parts : delta = source ++ (target ++ instructions)
  source : Groups source sourceSize
  target : Groups target targetSize
  denotes : Denotes base instructions out

/-- The bytes are a delta of the base, and denote `out`. -/
def WellFormed (base delta out : Bytes) : Prop :=
  ∃ source target instructions,
    Layout base delta source target base.length out.length instructions out

/-- The code accepts the deltas of the base, and makes of them what they denote. -/
def DeltaExact (checks : Bool) (base delta : Bytes) : Prop :=
  ∀ out, applyDelta checks base delta = .ok out ↔ WellFormed base delta out

/-! ## Operands -/

theorem two_pow_byte (i : Nat) : 2 ^ (8 * (i + 1)) = 256 * 2 ^ (8 * i) := by
  rw [Nat.mul_succ, Nat.pow_add]
  ring

/-- A byte that is set above a value is added to it. -/
theorem or_byte {value i : Nat} (byte : UInt8) (h : value < 2 ^ (8 * i)) :
    value ||| byte.toNat <<< (8 * i) = value + byte.toNat * 2 ^ (8 * i) ∧
      value + byte.toNat * 2 ^ (8 * i) < 2 ^ (8 * (i + 1)) := by
  have hbyte := byte.toNat_lt
  constructor
  · rw [Nat.or_comm, ← Nat.shiftLeft_add_eq_or_of_lt h, Nat.add_comm, Nat.shiftLeft_eq]
  · rw [two_pow_byte]
    nlinarith

theorem operand_of_readOperand {op : UInt8} {first count i : Nat} {rest rest' : Bytes}
    {value value' : Nat} (hvalue : value < 2 ^ (8 * i))
    (h : readOperand op first count i rest value = .ok (value', rest')) :
    ∃ bytes number, rest = bytes ++ rest' ∧ Operand op (first + i) count bytes number ∧
      value' = value + number * 2 ^ (8 * i) := by
  induction count generalizing i rest value with
  | zero =>
    obtain ⟨rfl, rfl⟩ := Prod.mk.inj (Except.ok.inj h)
    exact ⟨[], 0, rfl, .done _, by simp⟩
  | succ count ih =>
    simp only [readOperand] at h
    split at h
    · rename_i hbit
      cases rest with
      | nil => exact absurd h (by simp)
      | cons byte rest =>
        obtain ⟨hor, hnext⟩ := or_byte byte hvalue
        simp only [hor] at h
        obtain ⟨bytes, number, rfl, hoperand, rfl⟩ := ih hnext h
        refine ⟨byte :: bytes, _, rfl, .present _ _ byte bytes number hbit hoperand, ?_⟩
        rw [two_pow_byte]
        ring
    · rename_i hbit
      have hnext : value < 2 ^ (8 * (i + 1)) := by
        rw [two_pow_byte]
        omega
      obtain ⟨bytes, number, rfl, hoperand, rfl⟩ := ih hnext h
      refine ⟨bytes, _, rfl, .absent _ _ bytes number (by simpa using hbit) hoperand, ?_⟩
      rw [two_pow_byte]
      ring

theorem readOperand_of_operand {op : UInt8} {first count i bit : Nat} {bytes : Bytes}
    {number value : Nat} (h : Operand op bit count bytes number) (hbit : bit = first + i)
    (hvalue : value < 2 ^ (8 * i)) (rest : Bytes) :
    readOperand op first count i (bytes ++ rest) value =
      .ok (value + number * 2 ^ (8 * i), rest) := by
  induction h generalizing i value with
  | done bit => simp [readOperand]
  | absent bit count bytes number hflag _ ih =>
    subst hbit
    have hnext : value < 2 ^ (8 * (i + 1)) := by
      rw [two_pow_byte]
      omega
    simp only [readOperand, hflag, Bool.false_eq_true, if_false]
    rw [ih (Nat.add_assoc first i 1) hnext, two_pow_byte]
    ring_nf
  | present bit count byte bytes number hflag _ ih =>
    subst hbit
    obtain ⟨hor, hnext⟩ := or_byte byte hvalue
    simp only [List.cons_append, readOperand, hflag, if_true, hor]
    rw [ih (Nat.add_assoc first i 1) hnext, two_pow_byte]
    ring_nf

/-- A reading of four operand bytes is below 2 ^ 32, so that no offset and size overflow. -/
theorem Operand.lt {op : UInt8} {bit count : Nat} {bytes : Bytes} {value : Nat}
    (h : Operand op bit count bytes value) : value < 256 ^ count := by
  induction h with
  | done bit => simp
  | absent bit count bytes value _ _ ih =>
    rw [Nat.pow_succ]
    omega
  | present bit count byte bytes value _ _ ih =>
    have hbyte := byte.toNat_lt
    rw [Nat.pow_succ]
    omega

/-! ## Instructions -/

theorem denotes_of_applyInstructions {base : Bytes} {steps : Nat} {rest out result : Bytes}
    (hsteps : rest.length ≤ steps)
    (h : applyInstructions base steps rest out = .ok result) :
    ∃ added, Denotes base rest added ∧ result = out ++ added := by
  induction steps generalizing rest out with
  | zero =>
    obtain rfl := List.eq_nil_of_length_eq_zero (Nat.le_zero.1 hsteps)
    obtain rfl := Except.ok.inj h
    exact ⟨[], .done, (List.append_nil _).symm⟩
  | succ steps ih =>
    cases rest with
    | nil =>
      obtain rfl := Except.ok.inj h
      exact ⟨[], .done, (List.append_nil _).symm⟩
    | cons op rest =>
      simp only [List.length_cons] at hsteps
      simp only [applyInstructions] at h
      split at h
      · rename_i hcopy
        split at h
        · exact absurd h (by simp)
        · rename_i offset rest₁ hoffset
          split at h
          · exact absurd h (by simp)
          · rename_i size rest₂ hsize
            split at h
            · exact absurd h (by simp)
            · rename_i chunk hchunk
              obtain ⟨offsetBytes, number, rfl, hoperand, rfl⟩ :=
                operand_of_readOperand (by simp) hoffset
              obtain ⟨sizeBytes, number', rfl, hoperand', rfl⟩ :=
                operand_of_readOperand (by simp) hsize
              simp only [Nat.mul_zero, Nat.pow_zero, Nat.mul_one, Nat.zero_add] at hchunk
              unfold copiedChunk at hchunk
              split at hchunk
              · split at hchunk
                · rename_i hrange
                  obtain rfl := Except.ok.inj hchunk
                  have hlen : rest₂.length ≤ steps := by
                    simp only [List.length_append] at hsteps
                    omega
                  obtain ⟨added, hadded, rfl⟩ := ih hlen h
                  refine ⟨_, .copy op offsetBytes sizeBytes rest₂ added number number' hcopy
                    hoperand hoperand' hrange hadded, ?_⟩
                  rw [List.append_assoc]
                · exact absurd hchunk (by simp)
              · exact absurd hchunk (by simp)
      · rename_i hcopy
        split at h
        · rename_i hop
          split at h
          · rename_i hlong
            have hlen : (rest.drop op.toNat).length ≤ steps := by
              rw [List.length_drop]
              omega
            obtain ⟨added, hadded, rfl⟩ := ih hlen h
            have hinsert := Denotes.insert op (rest.take op.toNat) (rest.drop op.toNat) added
              (not_not.1 hcopy) hop (List.length_take_of_le hlong) hadded
            rw [List.take_append_drop] at hinsert
            exact ⟨_, hinsert, List.append_assoc _ _ _⟩
          · exact absurd h (by simp)
        · exact absurd h (by simp)

theorem applyInstructions_of_denotes {base rest added : Bytes} (h : Denotes base rest added)
    {steps : Nat} (hsteps : rest.length ≤ steps) (out : Bytes) :
    applyInstructions base steps rest out = .ok (out ++ added) := by
  induction h generalizing steps out with
  | done =>
    cases steps <;> simp [applyInstructions]
  | copy op offsetBytes sizeBytes rest added offset size hcopy hoffset hsize hrange _ ih =>
    cases steps with
    | zero => simp at hsteps
    | succ steps =>
      have hzero : 0 < 2 ^ (8 * 0) := by decide
      have hoffsetRead := readOperand_of_operand hoffset (Nat.add_zero 0).symm hzero
        (sizeBytes ++ rest)
      have hsizeRead := readOperand_of_operand hsize (Nat.add_zero 4).symm hzero rest
      simp only [Nat.mul_zero, Nat.pow_zero, Nat.mul_one, Nat.zero_add] at hoffsetRead hsizeRead
      have hword : offset + copySize size < wordLimit := by
        have hoffsetLt := hoffset.lt
        have hsizeLt := hsize.lt
        unfold copySize wordLimit
        split <;> omega
      have hlen : rest.length ≤ steps := by
        simp only [List.length_cons, List.length_append] at hsteps
        omega
      simp only [applyInstructions, if_pos hcopy, hoffsetRead, hsizeRead, copiedChunk,
        if_pos hword, if_pos hrange, ih hlen, List.append_assoc]
  | insert op literal rest added hcopy hop hliteral _ ih =>
    cases steps with
    | zero => simp at hsteps
    | succ steps =>
      have hlong : op.toNat ≤ (literal ++ rest).length := by
        rw [List.length_append]
        omega
      have hlen : rest.length ≤ steps := by
        simp only [List.length_cons, List.length_append] at hsteps
        omega
      simp only [applyInstructions]
      rw [if_neg (not_not.2 hcopy), if_pos hop, if_pos hlong, ← hliteral, List.drop_left,
        List.take_left, ih hlen, List.append_assoc]

/-! ## When the reading is exact -/

/-- A size that is read without a panic. -/
def Readable (checks : Bool) (field : Bytes) : Prop := checks = true → field.length ≤ 10

/-- The delta has a size of 2 ^ 64 or more, of which the right one is left in 64 bits. -/
def CutOff (checks : Bool) (base delta : Bytes) : Prop :=
  ∃ source target sourceSize targetSize instructions out,
    Layout base delta source target sourceSize targetSize instructions out ∧
      (wordLimit ≤ sourceSize ∨ wordLimit ≤ targetSize) ∧
      Readable checks source ∧ Readable checks target ∧
      kept source 0 = base.length ∧ kept target 0 = out.length ∧ out.length ≤ maxIsize

/-- The delta is one of the base, with a size that cannot be read or kept in memory. -/
def Unreadable (checks : Bool) (base delta : Bytes) : Prop :=
  ∃ source target instructions out,
    Layout base delta source target base.length out.length instructions out ∧
      ¬ (Readable checks source ∧ Readable checks target ∧ out.length ≤ maxIsize)

section Exact

variable {checks : Bool} {base delta source target instructions out : Bytes}
  {sourceSize targetSize : Nat}

/-- A delta has one layout. -/
theorem Layout.unique {source' target' instructions' out' : Bytes} {sourceSize' targetSize' : Nat}
    (h : Layout base delta source target sourceSize targetSize instructions out)
    (h' : Layout base delta source' target' sourceSize' targetSize' instructions' out') :
    source = source' ∧ target = target' ∧ sourceSize = sourceSize' ∧ targetSize = targetSize' ∧
      instructions = instructions' := by
  obtain ⟨rfl, rfl, htail⟩ := h.source.unique h'.source (h.parts.symm.trans h'.parts)
  obtain ⟨rfl, rfl, hrest⟩ := h.target.unique h'.target htail
  exact ⟨rfl, rfl, rfl, rfl, hrest⟩

theorem readDeltaSize_of_groups {field : Bytes} {value : Nat} (h : Groups field value)
    (hreadable : Readable checks field) (rest : Bytes) :
    readDeltaSize checks (field ++ rest) = .ok (kept field 0, field.length) := by
  have hfits : checks = true → 0 + 7 * (field.length - 1) < 64 := by
    intro hchecks
    have hlength := hreadable hchecks
    omega
  rw [readDeltaSize, readGroups_of_groups _ h rest 0 0 0 hfits, Nat.zero_or, Nat.zero_add]

theorem groups_of_readDeltaSize {data : Bytes} {value consumed : Nat}
    (h : readDeltaSize checks data = .ok (value, consumed)) :
    ∃ field rest number, data = field ++ rest ∧ Groups field number ∧ value = kept field 0 ∧
      consumed = field.length ∧ Readable checks field := by
  obtain ⟨field, rest, number, rfl, hfield, rfl, rfl, hfits⟩ := groups_of_readGroups h
  refine ⟨field, rest, number, rfl, hfield, Nat.zero_or _, Nat.zero_add _, ?_⟩
  intro hchecks
  have hlast := hfits hchecks
  omega

/-- What `applyDelta` accepts: instructions that denote its result, behind sizes of which the right
ones are kept. -/
theorem applyDelta_eq_ok_iff :
    applyDelta checks base delta = .ok out ↔
      ∃ source target sourceSize targetSize instructions,
        Layout base delta source target sourceSize targetSize instructions out ∧
          Readable checks source ∧ Readable checks target ∧
          kept source 0 = base.length ∧ kept target 0 = out.length ∧ out.length ≤ maxIsize := by
  constructor
  · intro h
    simp only [applyDelta] at h
    split at h
    · exact absurd h (by simp)
    rename_i baseSize consumed hsource
    obtain ⟨source, rest, sourceSize, rfl, hsourceGroups, rfl, rfl, hsourceReadable⟩ :=
      groups_of_readDeltaSize hsource
    split at h
    · exact absurd h (by simp)
    rename_i hbase
    rw [List.drop_left] at h
    split at h
    · exact absurd h (by simp)
    rename_i targetRead consumed' htarget
    obtain ⟨target, instructions, targetSize, rfl, htargetGroups, rfl, rfl, htargetReadable⟩ :=
      groups_of_readDeltaSize htarget
    split at h
    · exact absurd h (by simp)
    rename_i hcapacity
    rw [← List.drop_drop, List.drop_left, List.drop_left] at h
    split at h
    · exact absurd h (by simp)
    rename_i result hresult
    split at h
    · exact absurd h (by simp)
    rename_i hlength
    obtain rfl := Except.ok.inj h
    obtain ⟨added, hadded, heq⟩ := denotes_of_applyInstructions (Nat.le_refl _) hresult
    rw [List.nil_append] at heq
    subst heq
    have hkept := (not_not.1 hlength).symm
    refine ⟨source, target, sourceSize, targetSize, instructions,
      ⟨rfl, hsourceGroups, htargetGroups, hadded⟩, hsourceReadable, htargetReadable,
      not_not.1 hbase, hkept, ?_⟩
    by_contra hlarge
    rw [withCapacity, hkept, if_neg hlarge] at hcapacity
    exact absurd hcapacity (by simp)
  · rintro ⟨source, target, sourceSize, targetSize, instructions, hlayout, hsource, htarget, hbase,
      hout, hcapacity⟩
    obtain ⟨rfl, hsourceGroups, htargetGroups, hdenotes⟩ := hlayout
    have hresult := applyInstructions_of_denotes hdenotes (Nat.le_refl instructions.length) []
    rw [List.nil_append] at hresult
    have hdrop : (source ++ (target ++ instructions)).drop (source.length + target.length) =
        instructions := by
      rw [← List.drop_drop, List.drop_left, List.drop_left]
    simp only [applyDelta, readDeltaSize_of_groups hsourceGroups hsource, hbase, ne_eq,
      not_true_eq_false, if_false, List.drop_left, readDeltaSize_of_groups htargetGroups htarget,
      hout, withCapacity, if_pos hcapacity, hdrop, hresult]

/-- A size that is a word is kept. -/
theorem kept_of_word {field : Bytes} {value : Nat} (h : Groups field value)
    (hword : value < wordLimit) : kept field 0 = value :=
  kept_of_lt h 0 hword

theorem lt_wordLimit_of_le {size : Nat} (h : size ≤ maxIsize) : size < wordLimit := by
  unfold maxIsize at h
  unfold wordLimit
  omega

end Exact

/-- Over a base in memory a delta is applied exactly, unless it has a size of 2 ^ 64 or more that
is right when it is cut off, or is one of the base and has a size that cannot be read: one of more
than ten bytes where overflow checks are compiled in, or one that exceeds the memory. -/
theorem delta_exact_iff (checks : Bool) (base delta : Bytes) (hbase : base.length ≤ maxIsize) :
    DeltaExact checks base delta ↔
      ¬ CutOff checks base delta ∧ ¬ Unreadable checks base delta := by
  have hbaseWord := lt_wordLimit_of_le hbase
  constructor
  · intro hexact
    constructor
    · rintro ⟨source, target, sourceSize, targetSize, instructions, out, hlayout, hlarge, hsource,
        htarget, hkeptBase, hkeptOut, hcapacity⟩
      have haccepted := applyDelta_eq_ok_iff.2 ⟨source, target, sourceSize, targetSize,
        instructions, hlayout, hsource, htarget, hkeptBase, hkeptOut, hcapacity⟩
      obtain ⟨source', target', instructions', hwell⟩ := (hexact out).1 haccepted
      obtain ⟨-, -, rfl, rfl, -⟩ := hlayout.unique hwell
      have houtWord := lt_wordLimit_of_le hcapacity
      rcases hlarge with hlarge | hlarge
      · exact absurd hbaseWord (Nat.not_lt.2 hlarge)
      · exact absurd houtWord (Nat.not_lt.2 hlarge)
    · rintro ⟨source, target, instructions, out, hlayout, hunreadable⟩
      have haccepted := (hexact out).2 ⟨source, target, instructions, hlayout⟩
      obtain ⟨source', target', _, _, _, hlayout', hsource, htarget, -, -, hcapacity⟩ :=
        applyDelta_eq_ok_iff.1 haccepted
      obtain ⟨rfl, rfl, -⟩ := hlayout.unique hlayout'
      exact hunreadable ⟨hsource, htarget, hcapacity⟩
  · rintro ⟨hcut, hreadable⟩ out
    constructor
    · intro haccepted
      obtain ⟨source, target, sourceSize, targetSize, instructions, hlayout, hsource, htarget,
        hkeptBase, hkeptOut, hcapacity⟩ := applyDelta_eq_ok_iff.1 haccepted
      -- neither size is cut off, so that both are what is kept of them
      have hsmall : ¬ (wordLimit ≤ sourceSize ∨ wordLimit ≤ targetSize) := fun hlarge =>
        hcut ⟨source, target, sourceSize, targetSize, instructions, out, hlayout, hlarge, hsource,
          htarget, hkeptBase, hkeptOut, hcapacity⟩
      rw [not_or, Nat.not_le, Nat.not_le] at hsmall
      rw [kept_of_word hlayout.source hsmall.1] at hkeptBase
      rw [kept_of_word hlayout.target hsmall.2] at hkeptOut
      subst hkeptBase hkeptOut
      exact ⟨source, target, instructions, hlayout⟩
    · rintro ⟨source, target, instructions, hlayout⟩
      by_cases hread : Readable checks source ∧ Readable checks target ∧ out.length ≤ maxIsize
      · obtain ⟨hsource, htarget, hcapacity⟩ := hread
        exact applyDelta_eq_ok_iff.2 ⟨source, target, base.length, out.length, instructions,
          hlayout, hsource, htarget, kept_of_word hlayout.source hbaseWord,
          kept_of_word hlayout.target (lt_wordLimit_of_le hcapacity), hcapacity⟩
      · exact absurd ⟨source, target, instructions, out, hlayout, hread⟩ hreadable

/-! ## A size that is cut off -/

/-- The size 2 ^ 64 + 3. -/
def overlongThree : Bytes := [0x83, 0x80, 0x80, 0x80, 0x80, 0x80, 0x80, 0x80, 0x80, 0x02]

theorem groups_overlongThree : Groups overlongThree (2 ^ 64 + 3) := by
  have hzero : lowBits 0x80 = 0 := by decide
  have hmore : ∀ {rest : Bytes} {value : Nat}, Groups rest value →
      Groups (0x80 :: rest) (128 * value) := by
    intro rest value h
    have hgroups := Groups.more 0x80 rest value (by decide) h
    rwa [hzero, Nat.zero_add] at hgroups
  have hlast : Groups [0x02] 2 := .last 0x02 (by decide)
  have hgroups := Groups.more 0x83 _ _ (by decide)
    (hmore (hmore (hmore (hmore (hmore (hmore (hmore (hmore hlast))))))))
  exact hgroups

/-- A copy of three bytes whose source size is 2 ^ 64 + 3 is applied to a base of three bytes. -/
theorem overlong_size_is_accepted :
    applyDelta false (utf8 "abc") (overlongThree ++ [0x03, 0x90, 0x03]) = .ok (utf8 "abc") ∧
      ¬ DeltaExact false (utf8 "abc") (overlongThree ++ [0x03, 0x90, 0x03]) := by
  have haccepted : applyDelta false (utf8 "abc") (overlongThree ++ [0x03, 0x90, 0x03]) =
      .ok (utf8 "abc") := by decide +kernel
  refine ⟨haccepted, fun hexact => ?_⟩
  obtain ⟨source, target, instructions, hlayout⟩ := (hexact _).1 haccepted
  obtain ⟨-, hsize, -⟩ := groups_overlongThree.unique hlayout.source hlayout.parts
  exact absurd hsize (by decide)

/-- With its size in one byte the copy is applied exactly. -/
theorem short_size_is_exact : DeltaExact true (utf8 "abc") [0x03, 0x03, 0x90, 0x03] := by
  have hthree : Groups [0x03] 3 := .last 0x03 (by decide)
  have hparts : ∀ {source target instructions out : Bytes} {sourceSize targetSize : Nat},
      Layout (utf8 "abc") [0x03, 0x03, 0x90, 0x03] source target sourceSize targetSize instructions
        out → source = [0x03] ∧ sourceSize = 3 ∧ target = [0x03] ∧ targetSize = 3 := by
    intro source target instructions out sourceSize targetSize hlayout
    have hwhole : [0x03] ++ [0x03, 0x90, 0x03] = source ++ (target ++ instructions) := hlayout.parts
    obtain ⟨rfl, rfl, htail⟩ := hthree.unique hlayout.source hwhole
    have hrest : [0x03] ++ [0x90, 0x03] = target ++ instructions := htail
    obtain ⟨rfl, rfl, -⟩ := hthree.unique hlayout.target hrest
    exact ⟨rfl, rfl, rfl, rfl⟩
  apply (delta_exact_iff true (utf8 "abc") [0x03, 0x03, 0x90, 0x03] (by decide)).2
  constructor
  · rintro ⟨source, target, sourceSize, targetSize, instructions, out, hlayout, hlarge, -⟩
    obtain ⟨-, rfl, -, rfl⟩ := hparts hlayout
    revert hlarge
    decide
  · rintro ⟨source, target, instructions, out, hlayout, hunreadable⟩
    obtain ⟨rfl, -, rfl, hout⟩ := hparts hlayout
    apply hunreadable
    rw [hout]
    refine ⟨fun _ => ?_, fun _ => ?_, ?_⟩ <;> decide

end Edda.Git
