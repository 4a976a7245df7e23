import Edda.Git.PackFile

/-!
# Packs that the parser panics on

With overflow checks compiled in, `parsePack` has four ways to panic: a shift by the width of a
word, in the size of an entry or in one of the sizes of a delta; one added to the largest word, in
a back offset; and room for more bytes than `maxIsize`. The parser rejects other input that makes
no sense, such as a back offset that leads out of the pack or a copy that overflows.

`EntryAt` says which bytes are an entry and what it holds, `Panics` which ones are an entry that is
not survived, and `Read` which entries come before. `parse_pack_panics_iff`: the parser panics on
the packs that have such an entry behind entries that are read, and on no other bytes. A position
never leaves the pack (`Read.le`), so that no slice is out of range and no sum of positions
overflows.
-/

set_option autoImplicit false

namespace Edda.Git

open Edda.Support.RustText Edda.Support.Varint

/-! ## What an entry is -/

/-- The header of an entry, with the code of its kind and its size. -/
inductive Header : Bytes → Nat → Nat → Prop
  | short (first : UInt8) : continues first = false →
      Header [first] ((first >>> 4) &&& 0x07).toNat (first &&& 0x0f).toNat
  | long (first : UInt8) (groups : Bytes) (value : Nat) : continues first = true →
      Groups groups value → groups.length ≤ 9 →
      Header (first :: groups) ((first >>> 4) &&& 0x07).toNat
        (((first &&& 0x0f).toNat + 16 * value) % wordLimit)

/-- A back offset with one more byte. -/
def nextOffset (offset : Nat) (byte : UInt8) : Nat := (offset + 1) * 128 + lowBits byte

/-- The bytes of a back offset behind those that make `offset`. One is added to a word at each. -/
inductive OffsetTail : Nat → Bytes → Nat → Prop
  | last (offset : Nat) (byte : UInt8) : offset % wordLimit + 1 < wordLimit →
      continues byte = false → OffsetTail offset [byte] (nextOffset offset byte)
  | more (offset : Nat) (byte : UInt8) (rest : Bytes) (value : Nat) :
      offset % wordLimit + 1 < wordLimit → continues byte = true →
      OffsetTail (nextOffset offset byte) rest value → OffsetTail offset (byte :: rest) value

/-- The bytes of a back offset. -/
inductive BackOffset : Bytes → Nat → Prop
  | short (first : UInt8) : continues first = false → BackOffset [first] (lowBits first)
  | long (first : UInt8) (rest : Bytes) (value : Nat) : continues first = true →
      OffsetTail (lowBits first) rest value → BackOffset (first :: rest) value

/-- One is added to the largest word on the way. -/
def TailOverflows : Nat → Bytes → Prop
  | _, [] => False
  | offset, byte :: rest => offset % wordLimit + 1 = wordLimit ∨
      continues byte = true ∧ TailOverflows (nextOffset offset byte) rest

def OffsetOverflows : Bytes → Prop
  | [] => False
  | first :: rest => continues first = true ∧ TailOverflows (lowBits first) rest

/-- What names the base of a delta. -/
inductive BaseRef where
  | offset (offset : Nat)
  | id (id : ObjectId)

/-- The bytes between the header of a delta and its stream, and the base that they name. -/
inductive Link (start : Nat) : Nat → Bytes → BaseRef → Prop
  | ofs (field : Bytes) (value : Nat) : BackOffset field value → value % wordLimit ≤ start →
      Link start 6 field (.offset (start - value % wordLimit))
  | ref (field : Bytes) : field.length = 20 →
      Link start 7 field (.id (BitVec.ofNat 160 (beValue field)))

/-- The base, among the entries that were read or in the repository. -/
def findBase (findObject : ObjectId → Except GitError (Kind × Bytes))
    (resolved : List ResolvedEntry) : BaseRef → Except GitError (Kind × Bytes)
  | .offset offset => match resolved.find? fun entry => entry.offset == offset with
    | none => .error (.git "OFS_DELTA base not found in pack")
    | some entry => .ok entry.object.content
  | .id id => match resolved.find? fun entry => entry.object.id == id with
    | some entry => .ok entry.object.content
    | none => findObject id

/-- A delta with sizes of ten bytes at most, which make those of the base and of `out`. -/
def Gives (base delta out : Bytes) : Prop :=
  ∃ source target sourceSize targetSize instructions,
    Layout base delta source target sourceSize targetSize instructions out ∧
      source.length ≤ 10 ∧ target.length ≤ 10 ∧ sourceSize % wordLimit = base.length ∧
      targetSize % wordLimit = out.length ∧ out.length ≤ maxIsize

/-- A delta of the base with a size that goes on behind its tenth byte, or with more than a buffer
holds as the size of its result. -/
inductive DeltaPanics (base : Bytes) : Bytes → Prop
  | source (delta : Bytes) : ContinuesPast 10 delta → DeltaPanics base delta
  | target (source rest : Bytes) (sourceSize : Nat) : Groups source sourceSize →
      source.length ≤ 10 → sourceSize % wordLimit = base.length → ContinuesPast 10 rest →
      DeltaPanics base (source ++ rest)
  | room (source target instructions : Bytes) (sourceSize targetSize : Nat) :
      Groups source sourceSize → source.length ≤ 10 → sourceSize % wordLimit = base.length →
      Groups target targetSize → target.length ≤ 10 → maxIsize < targetSize % wordLimit →
      DeltaPanics base (source ++ (target ++ instructions))

section PackPanics

variable (codec : PackCodec) (findObject : ObjectId → Except GitError (Kind × Bytes))

/-- A stream of as many bytes as the header says. -/
def Inflates (rest : Bytes) (size : Nat) (content : Bytes) (consumed : Nat) : Prop :=
  codec.decompress rest size = .ok ⟨.streamEnd, content, consumed⟩ ∧ content.length = size

variable (data : Bytes) (resolved : List ResolvedEntry) (start : Nat)

/-- An entry at `start`: the place behind it, its kind and its content. -/
inductive EntryAt : Nat → Kind → Bytes → Prop
  | plain (header rest content : Bytes) (code size consumed : Nat) (kind : Kind) :
      data.drop start = header ++ rest → Header header code size → kindFromCode code = .ok kind →
      size ≤ maxIsize → Inflates codec rest size content consumed →
      EntryAt (start + header.length + consumed) kind content
  | delta (header link rest delta base content : Bytes) (code size consumed : Nat) (kind : Kind)
      (ref : BaseRef) :
      data.drop start = header ++ (link ++ rest) → Header header code size →
      Link start code link ref → size ≤ maxIsize → Inflates codec rest size delta consumed →
      findBase findObject resolved ref = .ok (kind, base) → Gives base delta content →
      EntryAt (start + header.length + link.length + consumed) kind content

/-- An entry at `start` that the parser panics on. -/
inductive Panics : Prop
  | header : ContinuesPast 10 (data.drop start) → Panics
  | plainRoom (header rest : Bytes) (code size : Nat) (kind : Kind) :
      data.drop start = header ++ rest → Header header code size → kindFromCode code = .ok kind →
      maxIsize < size → Panics
  | link (header rest : Bytes) (size : Nat) : data.drop start = header ++ rest →
      Header header 6 size → OffsetOverflows rest → Panics
  | deltaRoom (header link rest : Bytes) (code size : Nat) (ref : BaseRef) :
      data.drop start = header ++ (link ++ rest) → Header header code size →
      Link start code link ref → maxIsize < size → Panics
  | delta (header link rest delta base : Bytes) (code size consumed : Nat) (kind : Kind)
      (ref : BaseRef) :
      data.drop start = header ++ (link ++ rest) → Header header code size →
      Link start code link ref → size ≤ maxIsize → Inflates codec rest size delta consumed →
      findBase findObject resolved ref = .ok (kind, base) → DeltaPanics base delta → Panics

/-- The entries that are read one behind the other, and the place behind them. -/
inductive Read : Nat → List ResolvedEntry → Prop
  | start : Read 12 []
  | entry (pos next : Nat) (resolved : List ResolvedEntry) (id : ObjectId) (kind : Kind)
      (content : Bytes) : Read pos resolved →
      EntryAt codec findObject data resolved pos next kind content →
      objectId codec kind content = .ok id → Read next (resolved ++ [⟨pos, ⟨id, kind, content⟩⟩])

/-- The header of a pack, with the number of its entries. -/
def PackHeader (count : Nat) : Prop :=
  12 ≤ data.length ∧ data.take 4 = utf8 "PACK" ∧ beValue ((data.drop 4).take 4) = 2 ∧
    beValue ((data.drop 8).take 4) = count

end PackPanics

/-- What is documented of the inflater: it does not read more than it is given. -/
def ReadsWithin (codec : PackCodec) : Prop :=
  ∀ data room inflated, codec.decompress data room = .ok inflated → inflated.totalIn ≤ data.length

/-! ## Headers -/

theorem low_or_groups {low : Nat} (hlow : low < 16) (value : Nat) :
    low ||| value <<< 4 % wordLimit = (low + 16 * value) % wordLimit := by
  have hword : low % wordLimit = low := Nat.mod_eq_of_lt (hlow.trans (by decide))
  have hor : low ||| value <<< 4 = low + 16 * value := by
    have hbits : low < 2 ^ 4 := hlow
    rw [Nat.or_comm, ← Nat.shiftLeft_add_eq_or_of_lt hbits, Nat.shiftLeft_eq]
    omega
  rw [← hor]
  nth_rewrite 1 [← hword]
  exact (Nat.or_mod_two_pow).symm

theorem lowSize_lt (first : UInt8) : (first &&& 0x0f).toNat < 16 := by
  have hmask : (first &&& 0x0f).toNat = first.toNat % 16 := by
    rw [UInt8.toNat_and]
    exact Nat.and_two_pow_sub_one_eq_mod first.toNat 4
  omega

theorem readObjectHeader_of_header {header : Bytes} {code size : Nat} (h : Header header code size)
    (rest : Bytes) :
    readObjectHeader true (header ++ rest) = .ok (code, size, header.length) := by
  cases h with
  | short first hlast =>
    simp [readObjectHeader, hlast]
  | long first groups value hmore hgroups hlength =>
    have hpos := hgroups.length_pos
    have hfits : true = true → 4 + 7 * (groups.length - 1) < 64 := fun _ => by omega
    have hread := readGroups_of_groups (.git "truncated pack: object header" : GitError) hgroups
      rest 1 (first &&& 0x0f).toNat 4 hfits
    rw [kept_eq_mod hgroups (by omega), low_or_groups (lowSize_lt first)] at hread
    simp only [List.cons_append, readObjectHeader, hmore, if_true, hread, List.length_cons,
      Nat.add_comm 1]

theorem header_of_readObjectHeader {data : Bytes} {code size len : Nat}
    (h : readObjectHeader true data = .ok (code, size, len)) :
    ∃ header rest, data = header ++ rest ∧ Header header code size ∧ len = header.length := by
  cases data with
  | nil => exact absurd h (by simp [readObjectHeader])
  | cons first rest =>
    simp only [readObjectHeader] at h
    split at h
    · rename_i hmore
      split at h
      · exact absurd h (by simp)
      · rename_i size' pos hread
        obtain ⟨groups, tail, value, rfl, hgroups, rfl, rfl, hfits⟩ := groups_of_readGroups hread
        have hlast := hfits rfl
        have hpos := hgroups.length_pos
        obtain ⟨rfl, hvalue⟩ := Prod.mk.inj (Except.ok.inj h)
        obtain ⟨rfl, rfl⟩ := Prod.mk.inj hvalue
        rw [kept_eq_mod hgroups hlast, low_or_groups (lowSize_lt first)]
        refine ⟨first :: groups, tail, rfl, .long first groups value hmore hgroups (by omega), ?_⟩
        rw [List.length_cons, Nat.add_comm]
    · rename_i hlast
      obtain ⟨rfl, hvalue⟩ := Prod.mk.inj (Except.ok.inj h)
      obtain ⟨rfl, rfl⟩ := Prod.mk.inj hvalue
      exact ⟨[first], rest, rfl, .short first (by simpa using hlast), rfl⟩

theorem readObjectHeader_panic_iff (data : Bytes) :
    readObjectHeader true data = .error .panic ↔ ContinuesPast 10 data := by
  cases data with
  | nil => simp [readObjectHeader, ContinuesPast]
  | cons first rest =>
    simp only [readObjectHeader, ContinuesPast]
    by_cases hmore : continues first = true
    · have hgroups : readGroups true (GitError.git "truncated pack: object header") rest 1
          (first &&& 0x0f).toNat 4 = .error .panic ↔ ContinuesPast 9 rest :=
        readGroups_eq_panic_iff _ rest 1 _ (by decide) (by decide)
      rw [← hgroups]
      simp only [hmore, if_true, true_and]
      split <;> simp_all
    · simp [hmore]

/-! ## Back offsets -/

theorem offset_step (offset : Nat) (byte : UInt8) :
    (offset % wordLimit + 1) <<< 7 % wordLimit ||| lowBits byte =
      nextOffset offset byte % wordLimit := by
  have hlow : lowBits byte < 2 ^ 7 := lowBits_lt byte
  have hcut : (offset % wordLimit + 1) <<< 7 % wordLimit =
      ((offset % wordLimit + 1) % 2 ^ 57) <<< 7 := by
    rw [Nat.shiftLeft_eq, Nat.shiftLeft_eq, wordLimit]
    omega
  rw [hcut, ← Nat.shiftLeft_add_eq_or_of_lt hlow, Nat.shiftLeft_eq, nextOffset, wordLimit]
  omega

theorem readOffsetGroups_of_tail {offset value : Nat} {field : Bytes}
    (h : OffsetTail offset field value) (rest : Bytes) (pos : Nat) :
    readOffsetGroups true (field ++ rest) pos (offset % wordLimit) =
      .ok (value % wordLimit, pos + field.length) := by
  induction h generalizing pos with
  | last offset byte hword hlast =>
    simp only [List.singleton_append, readOffsetGroups, addWords, if_pos hword, offset_step, hlast,
      Bool.false_eq_true, if_false, List.length_singleton]
  | more offset byte field value hword hmore _ ih =>
    simp only [List.cons_append, readOffsetGroups, addWords, if_pos hword, offset_step, hmore,
      if_true, ih, List.length_cons]
    rw [Nat.add_assoc, Nat.add_comm 1]

theorem tail_of_readOffsetGroups {data : Bytes} {pos offset value next : Nat}
    (h : readOffsetGroups true data pos (offset % wordLimit) = .ok (value, next)) :
    ∃ field rest number, data = field ++ rest ∧ OffsetTail offset field number ∧
      value = number % wordLimit ∧ next = pos + field.length := by
  induction data generalizing pos offset with
  | nil => exact absurd h (by simp [readOffsetGroups])
  | cons byte rest ih =>
    by_cases hword : offset % wordLimit + 1 < wordLimit
    · simp only [readOffsetGroups, addWords, if_pos hword, offset_step] at h
      split at h
      · rename_i hmore
        obtain ⟨field, tail, number, rfl, hfield, rfl, rfl⟩ := ih h
        refine ⟨byte :: field, tail, number, rfl, .more offset byte field number hword hmore hfield,
          rfl, ?_⟩
        rw [List.length_cons, Nat.add_assoc, Nat.add_comm 1]
      · rename_i hlast
        obtain ⟨rfl, rfl⟩ := Prod.mk.inj (Except.ok.inj h)
        exact ⟨[byte], rest, _, rfl, .last offset byte hword (by simpa using hlast), rfl, rfl⟩
    · simp [readOffsetGroups, addWords, if_neg hword] at h

theorem readOffsetGroups_panic_iff (data : Bytes) (pos offset : Nat) :
    readOffsetGroups true data pos (offset % wordLimit) = .error .panic ↔
      TailOverflows offset data := by
  induction data generalizing pos offset with
  | nil => simp [readOffsetGroups, TailOverflows]
  | cons byte rest ih =>
    have hlt : offset % wordLimit < wordLimit := Nat.mod_lt _ (by decide)
    by_cases hword : offset % wordLimit + 1 < wordLimit
    · simp only [readOffsetGroups, addWords, if_pos hword, offset_step, TailOverflows,
        Nat.ne_of_lt hword, false_or]
      by_cases hmore : continues byte = true
      · simp only [hmore, if_true, true_and]
        exact ih _ _
      · simp [hmore]
    · have hlast : offset % wordLimit + 1 = wordLimit := by omega
      simp [readOffsetGroups, addWords, TailOverflows, hlast]

theorem lowBits_mod (byte : UInt8) : lowBits byte % wordLimit = lowBits byte :=
  Nat.mod_eq_of_lt ((lowBits_lt byte).trans (by decide))

theorem readOffsetDelta_of_backOffset {field : Bytes} {value : Nat} (h : BackOffset field value)
    (rest : Bytes) :
    readOffsetDelta true (field ++ rest) = .ok (value % wordLimit, field.length) := by
  cases h with
  | short first hlast => simp [readOffsetDelta, hlast, lowBits_mod]
  | long first groups _ hmore htail =>
    have hread := readOffsetGroups_of_tail htail rest 1
    rw [lowBits_mod] at hread
    simp only [List.cons_append, readOffsetDelta, hmore, if_true, hread, List.length_cons,
      Nat.add_comm 1]

theorem backOffset_of_readOffsetDelta {data : Bytes} {value len : Nat}
    (h : readOffsetDelta true data = .ok (value, len)) :
    ∃ field rest number, data = field ++ rest ∧ BackOffset field number ∧
      value = number % wordLimit ∧ len = field.length := by
  cases data with
  | nil => exact absurd h (by simp [readOffsetDelta])
  | cons first rest =>
    simp only [readOffsetDelta] at h
    split at h
    · rename_i hmore
      rw [← lowBits_mod first] at h
      obtain ⟨field, tail, number, rfl, hfield, rfl, rfl⟩ := tail_of_readOffsetGroups h
      refine ⟨first :: field, tail, number, rfl, .long first field number hmore hfield, rfl, ?_⟩
      rw [List.length_cons, Nat.add_comm]
    · rename_i hlast
      obtain ⟨rfl, rfl⟩ := Prod.mk.inj (Except.ok.inj h)
      exact ⟨[first], rest, _, rfl, .short first (by simpa using hlast), (lowBits_mod first).symm,
        rfl⟩

theorem readOffsetDelta_panic_iff (data : Bytes) :
    readOffsetDelta true data = .error .panic ↔ OffsetOverflows data := by
  cases data with
  | nil => simp [readOffsetDelta, OffsetOverflows]
  | cons first rest =>
    simp only [readOffsetDelta, OffsetOverflows]
    by_cases hmore : continues first = true
    · rw [← lowBits_mod first, if_pos hmore, readOffsetGroups_panic_iff, lowBits_mod]
      simp [hmore]
    · simp [hmore]

/-! ## Deltas -/

theorem readable_iff (field : Bytes) : Readable true field ↔ field.length ≤ 10 :=
  ⟨fun hreadable => hreadable rfl, fun hlength _ => hlength⟩

/-- A size that can be read is cut off to a word. -/
theorem kept_of_short {field : Bytes} {value : Nat} (h : Groups field value)
    (hlength : field.length ≤ 10) : kept field 0 = value % wordLimit := by
  rw [kept_eq_mod h (by omega), Nat.shiftLeft_zero]

theorem readDeltaSize_of_short {field : Bytes} {value : Nat} (h : Groups field value)
    (hlength : field.length ≤ 10) (rest : Bytes) :
    readDeltaSize true (field ++ rest) = .ok (value % wordLimit, field.length) := by
  rw [readDeltaSize_of_groups h ((readable_iff field).2 hlength), kept_of_short h hlength]

theorem short_of_readDeltaSize {data : Bytes} {value consumed : Nat}
    (h : readDeltaSize true data = .ok (value, consumed)) :
    ∃ field rest number, data = field ++ rest ∧ Groups field number ∧ field.length ≤ 10 ∧
      value = number % wordLimit ∧ consumed = field.length := by
  obtain ⟨field, rest, number, rfl, hfield, rfl, rfl, hreadable⟩ := groups_of_readDeltaSize h
  have hlength := (readable_iff field).1 hreadable
  exact ⟨field, rest, number, rfl, hfield, hlength, kept_of_short hfield hlength, rfl⟩

theorem readDeltaSize_panic_iff (data : Bytes) :
    readDeltaSize true data = .error .panic ↔ ContinuesPast 10 data :=
  readGroups_eq_panic_iff _ data 0 0 (by decide) (by decide)

theorem applyDelta_ok_iff {base delta out : Bytes} :
    applyDelta true base delta = .ok out ↔ Gives base delta out := by
  rw [applyDelta_eq_ok_iff]
  constructor
  · rintro ⟨source, target, sourceSize, targetSize, instructions, hlayout, hsource, htarget, hbase,
      hout, hroom⟩
    have hsourceShort := (readable_iff source).1 hsource
    have htargetShort := (readable_iff target).1 htarget
    rw [kept_of_short hlayout.source hsourceShort] at hbase
    rw [kept_of_short hlayout.target htargetShort] at hout
    exact ⟨source, target, sourceSize, targetSize, instructions, hlayout, hsourceShort,
      htargetShort, hbase, hout, hroom⟩
  · rintro ⟨source, target, sourceSize, targetSize, instructions, hlayout, hsource, htarget, hbase,
      hout, hroom⟩
    rw [← kept_of_short hlayout.source hsource] at hbase
    rw [← kept_of_short hlayout.target htarget] at hout
    exact ⟨source, target, sourceSize, targetSize, instructions, hlayout,
      (readable_iff source).2 hsource, (readable_iff target).2 htarget, hbase, hout, hroom⟩

/-- No instruction panics; a size may. -/
theorem applyDelta_panic_iff (base delta : Bytes) :
    applyDelta true base delta = .error .panic ↔ DeltaPanics base delta := by
  constructor
  · intro h
    simp only [applyDelta] at h
    split at h
    · rename_i failure hsource
      obtain rfl := Except.error.inj h
      exact .source delta ((readDeltaSize_panic_iff delta).1 hsource)
    rename_i baseSize consumed hsource
    obtain ⟨source, rest, sourceSize, rfl, hgroups, hlength, rfl, rfl⟩ :=
      short_of_readDeltaSize hsource
    split at h
    · exact absurd h (by simp)
    rename_i hbase
    rw [List.drop_left] at h
    split at h
    · rename_i failure htarget
      obtain rfl := Except.error.inj h
      exact .target source rest sourceSize hgroups hlength (not_not.1 hbase)
        ((readDeltaSize_panic_iff rest).1 htarget)
    rename_i targetRead consumed' htarget
    obtain ⟨target, instructions, targetSize, rfl, htargetGroups, htargetLength, rfl, rfl⟩ :=
      short_of_readDeltaSize htarget
    split at h
    · rename_i failure hroom
      have hlarge : maxIsize < targetSize % wordLimit := by
        by_contra hsmall
        rw [withCapacity, if_pos (Nat.le_of_not_lt hsmall)] at hroom
        exact absurd hroom (by simp)
      exact .room source target instructions sourceSize targetSize hgroups hlength
        (not_not.1 hbase) htargetGroups htargetLength hlarge
    · split at h
      · exact absurd h (by simp)
      · split at h <;> exact absurd h (by simp)
  · intro h
    cases h with
    | source _ hlong => simp only [applyDelta, (readDeltaSize_panic_iff delta).2 hlong]
    | target source rest sourceSize hgroups hlength hbase hlong =>
      simp only [applyDelta, readDeltaSize_of_short hgroups hlength, hbase, ne_eq,
        not_true_eq_false, if_false, List.drop_left, (readDeltaSize_panic_iff rest).2 hlong]
    | room source target instructions sourceSize targetSize hgroups hlength hbase htarget
        htargetLength hlarge =>
      simp only [applyDelta, readDeltaSize_of_short hgroups hlength, hbase, ne_eq,
        not_true_eq_false, if_false, List.drop_left, readDeltaSize_of_short htarget htargetLength,
        withCapacity, if_neg (Nat.not_le.2 hlarge)]

/-! ## Streams -/

section Entries

variable {codec : PackCodec} {findObject : ObjectId → Except GitError (Kind × Bytes)}
  {data : Bytes} {resolved : List ResolvedEntry}

theorem sliceFrom_of_le {pos : Nat} (h : pos ≤ data.length) :
    sliceFrom data pos = .ok (data.drop pos) := if_pos h

theorem inflate_ok_iff {rest content : Bytes} {size consumed : Nat} :
    inflate codec rest size = .ok (content, consumed) ↔
      size ≤ maxIsize ∧ Inflates codec rest size content consumed := by
  constructor
  · intro h
    simp only [inflate] at h
    split at h
    · exact absurd h (by simp)
    rename_i hcapacity
    have hroom : size ≤ maxIsize := by
      by_contra hlarge
      rw [withCapacity, if_neg hlarge] at hcapacity
      exact absurd hcapacity (by simp)
    split at h
    · exact absurd h (by simp)
    rename_i inflated hread
    split at h
    · exact absurd h (by simp)
    rename_i hgood
    obtain ⟨hstatus, hsize⟩ := not_or.1 hgood
    obtain ⟨rfl, rfl⟩ := Prod.mk.inj (Except.ok.inj h)
    have hstream : inflated = ⟨.streamEnd, inflated.output, inflated.totalIn⟩ := by
      rw [← not_not.1 hstatus]
    exact ⟨hroom, hread.trans (congrArg _ hstream), not_not.1 hsize⟩
  · rintro ⟨hroom, hread, hsize⟩
    simp only [inflate, withCapacity, if_pos hroom, hread, hsize, ne_eq, not_true_eq_false,
      or_self, if_false]

theorem inflate_panic_iff {rest : Bytes} {size : Nat} :
    inflate codec rest size = .error .panic ↔ maxIsize < size := by
  unfold inflate withCapacity
  by_cases hroom : size ≤ maxIsize
  · simp only [if_pos hroom, Nat.not_lt.2 hroom, iff_false]
    split
    · simp
    · split <;> simp
  · simp [hroom, Nat.lt_of_not_le hroom]

theorem Inflates.le (hwithin : ReadsWithin codec) {rest content : Bytes} {size consumed : Nat}
    (h : Inflates codec rest size content consumed) : consumed ≤ rest.length :=
  hwithin _ _ _ h.1

/-! ## Entries of one's own content -/

theorem kindFromCode_eq_ok_iff (code : Nat) :
    (∃ kind, kindFromCode code = .ok kind) ↔ 1 ≤ code ∧ code ≤ 4 := by
  unfold kindFromCode
  constructor
  · rintro ⟨kind, hkind⟩
    by_contra hother
    have h1 : code ≠ 1 := by omega
    have h2 : code ≠ 2 := by omega
    have h3 : code ≠ 3 := by omega
    have h4 : code ≠ 4 := by omega
    simp [h1, h2, h3, h4] at hkind
  · rintro ⟨hlow, hhigh⟩
    interval_cases code <;> simp

/-! ## Deltas against a base -/

/-- A delta behind the link to its base. -/
def readLinked (codec : PackCodec) (findObject : ObjectId → Except GitError (Kind × Bytes))
    (resolved : List ResolvedEntry) (rest : Bytes) (size pos : Nat) (ref : BaseRef) : ReadEntry :=
  match inflate codec rest size with
  | .error failure => .error failure
  | .ok (delta, consumed) => match findBase findObject resolved ref with
    | .error err => .error (.error err)
    | .ok base => deltaEntry true base delta (pos + consumed)

theorem readLinked_ok_iff {rest content : Bytes} {size pos next : Nat} {ref : BaseRef}
    {kind : Kind} :
    readLinked codec findObject resolved rest size pos ref = .ok (next, kind, content) ↔
      ∃ delta base consumed, size ≤ maxIsize ∧ Inflates codec rest size delta consumed ∧
        findBase findObject resolved ref = .ok (kind, base) ∧ Gives base delta content ∧
        next = pos + consumed := by
  constructor
  · intro h
    simp only [readLinked] at h
    split at h
    · exact absurd h (by simp)
    rename_i delta consumed hinflate
    split at h
    · exact absurd h (by simp)
    rename_i base hbase
    simp only [deltaEntry] at h
    split at h
    · exact absurd h (by simp)
    rename_i out hout
    obtain ⟨hroom, hstream⟩ := inflate_ok_iff.1 hinflate
    obtain ⟨rfl, hentry⟩ := Prod.mk.inj (Except.ok.inj h)
    obtain ⟨rfl, rfl⟩ := Prod.mk.inj hentry
    exact ⟨delta, base.2, consumed, hroom, hstream, hbase, applyDelta_ok_iff.1 hout, rfl⟩
  · rintro ⟨delta, base, consumed, hroom, hstream, hbase, hgives, rfl⟩
    simp only [readLinked, inflate_ok_iff.2 ⟨hroom, hstream⟩, hbase, deltaEntry,
      applyDelta_ok_iff.2 hgives]

theorem readLinked_panic_iff {rest : Bytes} {size pos : Nat} {ref : BaseRef} :
    readLinked codec findObject resolved rest size pos ref = .error .panic ↔
      maxIsize < size ∨ ∃ delta kind base consumed, size ≤ maxIsize ∧
        Inflates codec rest size delta consumed ∧
        findBase findObject resolved ref = .ok (kind, base) ∧ DeltaPanics base delta := by
  constructor
  · intro h
    simp only [readLinked] at h
    split at h
    · rename_i failure hinflate
      obtain rfl := Except.error.inj h
      exact .inl (inflate_panic_iff.1 hinflate)
    rename_i delta consumed hinflate
    split at h
    · exact absurd h (by simp)
    rename_i base hbase
    simp only [deltaEntry] at h
    split at h
    · rename_i failure hdelta
      obtain rfl := Except.error.inj h
      obtain ⟨hroom, hstream⟩ := inflate_ok_iff.1 hinflate
      exact .inr ⟨delta, base.1, base.2, consumed, hroom, hstream, hbase,
        (applyDelta_panic_iff _ _).1 hdelta⟩
    · exact absurd h (by simp)
  · rintro (hlarge | ⟨delta, kind, base, consumed, hroom, hstream, hbase, hdelta⟩)
    · simp only [readLinked, inflate_panic_iff.2 hlarge]
    · simp only [readLinked, inflate_ok_iff.2 ⟨hroom, hstream⟩, hbase, deltaEntry,
        (applyDelta_panic_iff base delta).2 hdelta]

/-! ## Links -/

/-- What stands behind a part of the data. -/
theorem drop_behind {start : Nat} {front rest : Bytes} (h : data.drop start = front ++ rest)
    (hstart : start ≤ data.length) :
    start + front.length ≤ data.length ∧ data.drop (start + front.length) = rest := by
  have hlength := congrArg List.length h
  rw [List.length_drop, List.length_append] at hlength
  refine ⟨by omega, ?_⟩
  rw [← List.drop_drop, h, List.drop_left]

variable {start pos : Nat}

theorem readOfsDelta_of_link {size : Nat} {link rest : Bytes} {ref : BaseRef}
    (hpos : pos ≤ data.length) (hdata : data.drop pos = link ++ rest)
    (hlink : Link start 6 link ref) :
    readOfsDelta codec true data resolved start size pos =
      readLinked codec findObject resolved rest size (pos + link.length) ref := by
  obtain ⟨hbehind, hrest⟩ := drop_behind hdata hpos
  cases hlink with
  | ofs field value hfield hwithin =>
    have hread := readOffsetDelta_of_backOffset hfield rest
    rw [← hdata] at hread
    simp only [readOfsDelta, sliceFrom_of_le hpos, hread, Nat.not_lt.2 hwithin, if_false,
      sliceFrom_of_le hbehind, hrest, readLinked, findBase]
    cases inflate codec rest size with
    | error failure => rfl
    | ok delta =>
      cases resolved.find? fun entry => entry.offset == start - value % wordLimit with
      | none => rfl
      | some base => rfl

theorem readRefDelta_of_link {size : Nat} {link rest : Bytes} {ref : BaseRef}
    (hpos : pos ≤ data.length) (hdata : data.drop pos = link ++ rest)
    (hlink : Link start 7 link ref) :
    readRefDelta codec true findObject data resolved size pos =
      readLinked codec findObject resolved rest size (pos + link.length) ref := by
  obtain ⟨hbehind, hrest⟩ := drop_behind hdata hpos
  cases hlink with
  | ref field hlength =>
    rw [hlength] at hbehind hrest ⊢
    have htake : (data.drop pos).take 20 = link := by rw [hdata, List.take_left' hlength]
    simp only [readRefDelta, Nat.not_lt.2 hbehind, if_false, sliceFrom_of_le hbehind, hrest, htake,
      readLinked, findBase]
    cases inflate codec rest size with
    | error failure => rfl
    | ok delta =>
      cases resolved.find? fun entry => entry.object.id == BitVec.ofNat 160 (beValue link) with
      | none =>
        cases findObject (BitVec.ofNat 160 (beValue link)) with
        | error err => rfl
        | ok base => rfl
      | some base => rfl

variable (codec findObject data resolved start)

/-- A back offset leads to a base, overflows, or is rejected. -/
theorem readOfsDelta_cases {data : Bytes} (size : Nat) (hpos : pos ≤ data.length) :
    (∃ link rest ref, data.drop pos = link ++ rest ∧ Link start 6 link ref) ∨
      readOfsDelta codec true data resolved start size pos = .error .panic ∧
        OffsetOverflows (data.drop pos) ∨
      ∃ err, readOfsDelta codec true data resolved start size pos = .error (.error err) := by
  cases hread : readOffsetDelta true (data.drop pos) with
  | error failure =>
    cases failure with
    | panic =>
      refine .inr (.inl ⟨?_, (readOffsetDelta_panic_iff _).1 hread⟩)
      simp only [readOfsDelta, sliceFrom_of_le hpos, hread]
    | error err =>
      refine .inr (.inr ⟨err, ?_⟩)
      simp only [readOfsDelta, sliceFrom_of_le hpos, hread]
  | ok read =>
    obtain ⟨backOffset, len⟩ := read
    obtain ⟨field, rest, number, hdata, hfield, rfl, rfl⟩ := backOffset_of_readOffsetDelta hread
    by_cases hwithin : number % wordLimit ≤ start
    · exact .inl ⟨field, rest, _, hdata, .ofs field number hfield hwithin⟩
    · refine .inr (.inr ⟨.git "OFS_DELTA offset points before the pack start", ?_⟩)
      simp only [readOfsDelta, sliceFrom_of_le hpos, hread, Nat.lt_of_not_le hwithin, if_true]

theorem readRefDelta_cases (size pos : Nat) :
    (∃ link rest ref, data.drop pos = link ++ rest ∧ Link start 7 link ref) ∨
      ∃ err, readRefDelta codec true findObject data resolved size pos = .error (.error err) := by
  by_cases hshort : data.length < pos + 20
  · exact .inr ⟨_, if_pos hshort⟩
  · have hlength : ((data.drop pos).take 20).length = 20 := by
      rw [List.length_take, List.length_drop]
      omega
    exact .inl ⟨(data.drop pos).take 20, (data.drop pos).drop 20, _,
      (List.take_append_drop 20 _).symm, .ref _ hlength⟩

/-! ## Bodies -/

/-- What stands behind a header. -/
def readBody (code size pos : Nat) : ReadEntry :=
  if 1 ≤ code ∧ code ≤ 4 then readPlain codec data code size pos
  else if code = 6 then readOfsDelta codec true data resolved start size pos
  else if code = 7 then readRefDelta codec true findObject data resolved size pos
  else .error (.error (.git ("unsupported pack entry type " ++ toString code)))

variable {codec findObject data resolved start}

theorem Link.code_eq {code : Nat} {link : Bytes} {ref : BaseRef} (h : Link start code link ref) :
    code = 6 ∨ code = 7 := by
  cases h <;> simp

theorem readBody_of_link {code size : Nat} {link rest : Bytes} {ref : BaseRef}
    (hpos : pos ≤ data.length) (hdata : data.drop pos = link ++ rest)
    (hlink : Link start code link ref) :
    readBody codec findObject data resolved start code size pos =
      readLinked codec findObject resolved rest size (pos + link.length) ref := by
  rcases hlink.code_eq with rfl | rfl
  · exact readOfsDelta_of_link hpos hdata hlink
  · exact readRefDelta_of_link hpos hdata hlink

theorem readBody_of_kind {code size : Nat} {rest : Bytes} {kind : Kind} (hpos : pos ≤ data.length)
    (hdata : data.drop pos = rest) (hkind : kindFromCode code = .ok kind) :
    (∀ next kind' content,
      readBody codec findObject data resolved start code size pos = .ok (next, kind', content) ↔
        ∃ consumed, kind' = kind ∧ size ≤ maxIsize ∧ Inflates codec rest size content consumed ∧
          next = pos + consumed) ∧
      (readBody codec findObject data resolved start code size pos = .error .panic ↔
        maxIsize < size) := by
  have hplain := (kindFromCode_eq_ok_iff code).1 ⟨kind, hkind⟩
  simp only [readBody, if_pos hplain, readPlain, hkind, sliceFrom_of_le hpos, hdata]
  constructor
  · intro next kind' content
    constructor
    · intro h
      split at h
      · exact absurd h (by simp)
      · rename_i content' consumed hinflate
        obtain ⟨rfl, hentry⟩ := Prod.mk.inj (Except.ok.inj h)
        obtain ⟨rfl, rfl⟩ := Prod.mk.inj hentry
        obtain ⟨hroom, hstream⟩ := inflate_ok_iff.1 hinflate
        exact ⟨consumed, rfl, hroom, hstream, rfl⟩
    · rintro ⟨consumed, rfl, hroom, hstream, rfl⟩
      simp only [inflate_ok_iff.2 ⟨hroom, hstream⟩]
  · have hroom : inflate codec rest size = .error .panic ↔ maxIsize < size := inflate_panic_iff
    rw [← hroom]
    cases inflate codec rest size with
    | error failure => simp
    | ok read => simp

variable (codec findObject resolved start) in
/-- A body is of its own content, behind a link, behind a back offset that overflows, or
rejected. -/
theorem readBody_cases (code size : Nat) (hpos : pos ≤ data.length) :
    (∃ kind, kindFromCode code = .ok kind) ∨
      (∃ link rest ref, data.drop pos = link ++ rest ∧ Link start code link ref) ∨
      (code = 6 ∧ readBody codec findObject data resolved start code size pos = .error .panic ∧
        OffsetOverflows (data.drop pos)) ∨
      ∃ err, readBody codec findObject data resolved start code size pos = .error (.error err) := by
  by_cases hplain : 1 ≤ code ∧ code ≤ 4
  · exact .inl ((kindFromCode_eq_ok_iff code).2 hplain)
  by_cases hofs : code = 6
  · subst hofs
    rcases readOfsDelta_cases codec resolved start size hpos with
      hlink | ⟨hpanic, hover⟩ | ⟨err, herr⟩
    · exact .inr (.inl hlink)
    · exact .inr (.inr (.inl ⟨rfl, hpanic, hover⟩))
    · exact .inr (.inr (.inr ⟨err, herr⟩))
  by_cases href : code = 7
  · subst href
    rcases readRefDelta_cases codec findObject data resolved start size pos with
      hlink | ⟨err, herr⟩
    · exact .inr (.inl hlink)
    · exact .inr (.inr (.inr ⟨err, herr⟩))
  · exact .inr (.inr (.inr ⟨_, by rw [readBody, if_neg hplain, if_neg hofs, if_neg href]⟩))

/-! ## Entries -/

theorem parseEntry_of_header {header rest : Bytes} {code size : Nat} (hstart : start ≤ data.length)
    (hdata : data.drop start = header ++ rest) (hheader : Header header code size) :
    parseEntry codec true findObject data resolved start =
      match readBody codec findObject data resolved start code size (start + header.length) with
      | .error failure => .error failure
      | .ok (pos, kind, content) => match objectId codec kind content with
        | .error err => .error (.error err)
        | .ok id => .ok (pos, ⟨start, ⟨id, kind, content⟩⟩) := by
  have hread := readObjectHeader_of_header hheader rest
  rw [← hdata] at hread
  simp only [parseEntry, sliceFrom_of_le hstart, hread]
  rfl

/-- The entries that are read. -/
theorem parseEntry_ok_iff {next : Nat} {entry : ResolvedEntry} (hstart : start ≤ data.length) :
    parseEntry codec true findObject data resolved start = .ok (next, entry) ↔
      ∃ id kind content, entry = ⟨start, ⟨id, kind, content⟩⟩ ∧
        EntryAt codec findObject data resolved start next kind content ∧
        objectId codec kind content = .ok id := by
  constructor
  · intro h
    have hread : ∃ header rest code size, data.drop start = header ++ rest ∧
        Header header code size := by
      simp only [parseEntry, sliceFrom_of_le hstart] at h
      cases hheader : readObjectHeader true (data.drop start) with
      | error failure => simp [hheader] at h
      | ok read =>
        obtain ⟨code, size, len⟩ := read
        obtain ⟨header, rest, hdata, hheader, -⟩ := header_of_readObjectHeader hheader
        exact ⟨header, rest, code, size, hdata, hheader⟩
    obtain ⟨header, rest, code, size, hdata, hheader⟩ := hread
    obtain ⟨hpos, hrest⟩ := drop_behind hdata hstart
    rw [parseEntry_of_header hstart hdata hheader] at h
    split at h
    · exact absurd h (by simp)
    rename_i pos kind content hbody
    split at h
    · exact absurd h (by simp)
    rename_i id hid
    obtain ⟨rfl, rfl⟩ := Prod.mk.inj (Except.ok.inj h)
    refine ⟨id, kind, content, rfl, ?_, hid⟩
    rcases readBody_cases codec findObject resolved start code size hpos with
      ⟨kind', hkind⟩ | ⟨link, tail, ref, hlinked, hlink⟩ | ⟨-, hpanic, -⟩ | ⟨err, herr⟩
    · obtain ⟨consumed, rfl, hroom, hstream, rfl⟩ :=
        ((readBody_of_kind hpos hrest hkind).1 _ _ _).1 hbody
      exact .plain header rest content code size consumed kind hdata hheader hkind hroom hstream
    · rw [readBody_of_link hpos hlinked hlink] at hbody
      obtain ⟨delta, base, consumed, hroom, hstream, hbase, hgives, rfl⟩ :=
        readLinked_ok_iff.1 hbody
      exact .delta header link tail delta base content code size consumed kind ref
        (hdata.trans (congrArg _ (hrest.symm.trans hlinked))) hheader hlink hroom hstream hbase
        hgives
    · exact absurd (hbody.symm.trans hpanic) (by simp)
    · exact absurd (hbody.symm.trans herr) (by simp)
  · rintro ⟨id, kind, content, rfl, hentry, hid⟩
    cases hentry with
    | plain header rest _ code size consumed _ hdata hheader hkind hroom hstream =>
      obtain ⟨hpos, hrest⟩ := drop_behind hdata hstart
      have hbody : readBody codec findObject data resolved start code size
          (start + header.length) = .ok (start + header.length + consumed, kind, content) :=
        ((readBody_of_kind hpos hrest hkind).1 _ _ _).2 ⟨consumed, rfl, hroom, hstream, rfl⟩
      rw [parseEntry_of_header hstart hdata hheader]
      simp only [hbody, hid]
    | delta header link rest delta base _ code size consumed _ ref hdata hheader hlink hroom
        hstream hbase hgives =>
      obtain ⟨hpos, hrest⟩ := drop_behind hdata hstart
      have hbody : readBody codec findObject data resolved start code size
          (start + header.length) =
            .ok (start + header.length + link.length + consumed, kind, content) := by
        rw [readBody_of_link hpos hrest hlink]
        exact readLinked_ok_iff.2 ⟨delta, base, consumed, hroom, hstream, hbase, hgives, rfl⟩
      rw [parseEntry_of_header hstart hdata hheader]
      simp only [hbody, hid]

/-- The entries that the parser panics on. -/
theorem parseEntry_panic_iff (hstart : start ≤ data.length) :
    parseEntry codec true findObject data resolved start = .error .panic ↔
      Panics codec findObject data resolved start := by
  constructor
  · intro h
    cases hread : readObjectHeader true (data.drop start) with
    | error failure =>
      simp only [parseEntry, sliceFrom_of_le hstart, hread] at h
      obtain rfl := Except.error.inj h
      exact .header ((readObjectHeader_panic_iff _).1 hread)
    | ok read =>
      obtain ⟨code, size, len⟩ := read
      obtain ⟨header, rest, hdata, hheader, -⟩ := header_of_readObjectHeader hread
      obtain ⟨hpos, hrest⟩ := drop_behind hdata hstart
      have hbody : readBody codec findObject data resolved start code size
          (start + header.length) = .error .panic := by
        rw [parseEntry_of_header hstart hdata hheader] at h
        split at h
        · rename_i failure hfailure
          obtain rfl := Except.error.inj h
          exact hfailure
        · split at h <;> exact absurd h (by simp)
      rcases readBody_cases codec findObject resolved start code size hpos with
        ⟨kind, hkind⟩ | ⟨link, tail, ref, hlinked, hlink⟩ | ⟨rfl, -, hover⟩ | ⟨err, herr⟩
      · exact .plainRoom header rest code size kind hdata hheader hkind
          ((readBody_of_kind hpos hrest hkind).2.1 hbody)
      · have hlinkedData := hdata.trans (congrArg _ (hrest.symm.trans hlinked))
        rw [readBody_of_link hpos hlinked hlink] at hbody
        rcases readLinked_panic_iff.1 hbody with
          hlarge | ⟨delta, kind, base, consumed, hroom, hstream, hbase, hdelta⟩
        · exact .deltaRoom header link tail code size ref hlinkedData hheader hlink hlarge
        · exact .delta header link tail delta base code size consumed kind ref hlinkedData hheader
            hlink hroom hstream hbase hdelta
      · rw [hrest] at hover
        exact .link header rest size hdata hheader hover
      · exact absurd (hbody.symm.trans herr) (by simp)
  · intro h
    cases h with
    | header hlong =>
      simp only [parseEntry, sliceFrom_of_le hstart, (readObjectHeader_panic_iff _).2 hlong]
    | plainRoom header rest code size kind hdata hheader hkind hlarge =>
      obtain ⟨hpos, hrest⟩ := drop_behind hdata hstart
      have hbody : readBody codec findObject data resolved start code size
          (start + header.length) = .error .panic := (readBody_of_kind hpos hrest hkind).2.2 hlarge
      rw [parseEntry_of_header hstart hdata hheader]
      simp only [hbody]
    | link header rest size hdata hheader hover =>
      obtain ⟨hpos, hrest⟩ := drop_behind hdata hstart
      have hoffset : readOffsetDelta true (data.drop (start + header.length)) = .error .panic :=
        (readOffsetDelta_panic_iff _).2 (by rwa [hrest])
      have hbody : readBody codec findObject data resolved start 6 size (start + header.length) =
          .error .panic := by
        show readOfsDelta codec true data resolved start size (start + header.length) = _
        simp only [readOfsDelta, sliceFrom_of_le hpos, hoffset]
      rw [parseEntry_of_header hstart hdata hheader]
      simp only [hbody]
    | deltaRoom header link rest code size ref hdata hheader hlink hlarge =>
      obtain ⟨hpos, hrest⟩ := drop_behind hdata hstart
      have hbody : readBody codec findObject data resolved start code size
          (start + header.length) = .error .panic := by
        rw [readBody_of_link hpos hrest hlink]
        exact readLinked_panic_iff.2 (.inl hlarge)
      rw [parseEntry_of_header hstart hdata hheader]
      simp only [hbody]
    | delta header link rest delta base code size consumed kind ref hdata hheader hlink hroom
        hstream hbase hdelta =>
      obtain ⟨hpos, hrest⟩ := drop_behind hdata hstart
      have hbody : readBody codec findObject data resolved start code size
          (start + header.length) = .error .panic := by
        rw [readBody_of_link hpos hrest hlink]
        exact readLinked_panic_iff.2
          (.inr ⟨delta, kind, base, consumed, hroom, hstream, hbase, hdelta⟩)
      rw [parseEntry_of_header hstart hdata hheader]
      simp only [hbody]

/-! ## Packs -/

variable (hwithin : ReadsWithin codec)

include hwithin

theorem EntryAt.le {next : Nat} {kind : Kind} {content : Bytes} (hstart : start ≤ data.length)
    (h : EntryAt codec findObject data resolved start next kind content) :
    next ≤ data.length := by
  cases h with
  | plain header rest _ code size consumed _ hdata _ _ _ hstream =>
    obtain ⟨hpos, hrest⟩ := drop_behind hdata hstart
    have hconsumed := hstream.le hwithin
    rw [← hrest, List.length_drop] at hconsumed
    omega
  | delta header link rest _ _ _ code size consumed _ ref hdata _ _ _ hstream _ _ =>
    obtain ⟨hpos, hrest⟩ := drop_behind hdata hstart
    obtain ⟨hbehind, hrest⟩ := drop_behind hrest hpos
    have hconsumed := hstream.le hwithin
    rw [← hrest, List.length_drop] at hconsumed
    omega

/-- No position leaves the pack, and so no sum of positions and lengths overflows. -/
theorem Read.le (hdata : 12 ≤ data.length) (h : Read codec findObject data pos resolved) :
    pos ≤ data.length := by
  induction h with
  | start => exact hdata
  | entry pos next resolved id kind content _ hentry _ ih => exact hentry.le hwithin ih

/-- Behind the same number of entries the parser has read the same ones. -/
theorem Read.unique (hdata : 12 ≤ data.length) {pos' : Nat} {resolved' : List ResolvedEntry}
    (h : Read codec findObject data pos resolved)
    (h' : Read codec findObject data pos' resolved') (hlength : resolved.length = resolved'.length) :
    pos = pos' ∧ resolved = resolved' := by
  induction h generalizing pos' resolved' with
  | start =>
    cases h' with
    | start => exact ⟨rfl, rfl⟩
    | entry => simp at hlength
  | entry pos next resolved id kind content hread hentry hid ih =>
    have hle := hread.le hwithin hdata
    cases h' with
    | start => simp at hlength
    | entry pos' next' resolved' id' kind' content' hread' hentry' hid' =>
      obtain ⟨rfl, rfl⟩ := ih hread' (by simpa using hlength)
      have hparse := (parseEntry_ok_iff hle).2 ⟨id, kind, content, rfl, hentry, hid⟩
      have hparse' := (parseEntry_ok_iff hle).2 ⟨id', kind', content', rfl, hentry', hid'⟩
      obtain ⟨rfl, hsame⟩ := Prod.mk.inj (Except.ok.inj (hparse.symm.trans hparse'))
      exact ⟨rfl, by rw [hsame]⟩

/-- Where more entries are read, one is read next. -/
theorem Read.next (hdata : 12 ≤ data.length) {pos' : Nat} {resolved' : List ResolvedEntry}
    (h : Read codec findObject data pos resolved)
    (h' : Read codec findObject data pos' resolved') (hlength : resolved.length < resolved'.length) :
    ∃ next entry, parseEntry codec true findObject data resolved pos = .ok (next, entry) := by
  induction h' with
  | start => simp at hlength
  | entry pos' next' resolved' id kind content hread hentry hid ih =>
    by_cases hlast : resolved.length = resolved'.length
    · obtain ⟨rfl, rfl⟩ := h.unique hwithin hdata hread hlast
      exact ⟨next', _, (parseEntry_ok_iff (h.le hwithin hdata)).2
        ⟨id, kind, content, rfl, hentry, hid⟩⟩
    · refine ih ?_
      rw [List.length_append, List.length_singleton] at hlength
      omega

theorem parseEntries_panic_iff (hdata : 12 ≤ data.length) (count : Nat)
    (h : Read codec findObject data pos resolved) :
    parseEntries codec true findObject data count pos resolved = .error .panic ↔
      ∃ pos' resolved', Read codec findObject data pos' resolved' ∧
        resolved.length ≤ resolved'.length ∧ resolved'.length < resolved.length + count ∧
        Panics codec findObject data resolved' pos' := by
  -- the entries in front of `pos` are read, and `count` are to be read from there
  induction count generalizing pos resolved with
  | zero =>
    simp only [parseEntries, reduceCtorEq, false_iff, not_exists, not_and]
    intro _ _ _ hleast hmost
    omega
  | succ count ih =>
    have hle := h.le hwithin hdata
    cases hparse : parseEntry codec true findObject data resolved pos with
    | error failure =>
      simp only [parseEntries, hparse, Except.error.injEq]
      constructor
      · rintro rfl
        exact ⟨pos, resolved, h, Nat.le_refl _, by omega, (parseEntry_panic_iff hle).1 hparse⟩
      · rintro ⟨pos', resolved', hread, hleast, -, hpanics⟩
        rcases Nat.eq_or_lt_of_le hleast with hsame | hmore
        · obtain ⟨rfl, rfl⟩ := h.unique hwithin hdata hread hsame
          rw [(parseEntry_panic_iff hle).2 hpanics] at hparse
          exact (Except.error.inj hparse).symm
        · obtain ⟨next, entry, hnext⟩ := h.next hwithin hdata hread hmore
          rw [hnext] at hparse
          exact absurd hparse (by simp)
    | ok read =>
      obtain ⟨next, entry⟩ := read
      obtain ⟨id, kind, content, rfl, hentry, hid⟩ := (parseEntry_ok_iff hle).1 hparse
      have hnext := Read.entry pos next resolved id kind content h hentry hid
      simp only [parseEntries, hparse]
      rw [ih hnext, List.length_append, List.length_singleton]
      constructor
      · rintro ⟨pos', resolved', hread, hleast, hmost, hpanics⟩
        exact ⟨pos', resolved', hread, by omega, by omega, hpanics⟩
      · rintro ⟨pos', resolved', hread, hleast, hmost, hpanics⟩
        refine ⟨pos', resolved', hread, ?_, by omega, hpanics⟩
        -- the entry that is read next is not one that the parser panics on
        by_contra hshort
        obtain ⟨rfl, rfl⟩ := h.unique hwithin hdata hread (by omega)
        rw [(parseEntry_panic_iff hle).2 hpanics] at hparse
        exact absurd hparse (by simp)

theorem parsePack_panic_iff :
    parsePack codec true findObject data = .error .panic ↔
      ∃ count pos resolved, PackHeader data count ∧ Read codec findObject data pos resolved ∧
        resolved.length < count ∧ Panics codec findObject data resolved pos := by
  by_cases hstart : data.length < 12 ∨ data.take 4 ≠ utf8 "PACK"
  · simp only [parsePack, if_pos hstart]
    constructor
    · intro h
      exact absurd h (by simp)
    · rintro ⟨count, pos, resolved, ⟨hlength, hsignature, -⟩, -⟩
      rcases hstart with hshort | hother
      · omega
      · exact absurd hsignature hother
  · obtain ⟨hlength, hsignature⟩ := not_or.1 hstart
    by_cases hversion : beValue ((data.drop 4).take 4) = 2
    · have hentries := parseEntries_panic_iff hwithin (Nat.le_of_not_lt hlength)
        (beValue ((data.drop 8).take 4)) (.start : Read codec findObject data 12 [])
      have hparse : parsePack codec true findObject data = .error .panic ↔
          parseEntries codec true findObject data (beValue ((data.drop 8).take 4)) 12 [] =
            .error .panic := by
        simp only [parsePack, if_neg hstart, hversion, ne_eq, not_true_eq_false, if_false]
        split <;> simp_all
      rw [hparse, hentries]
      constructor
      · rintro ⟨pos, resolved, hread, -, hmost, hpanics⟩
        exact ⟨_, pos, resolved,
          ⟨Nat.le_of_not_lt hlength, not_not.1 hsignature, hversion, rfl⟩, hread,
          by simpa using hmost, hpanics⟩
      · rintro ⟨count, pos, resolved, ⟨-, -, -, rfl⟩, hread, hmost, hpanics⟩
        exact ⟨pos, resolved, hread, Nat.zero_le _, by simpa using hmost, hpanics⟩
    · simp only [parsePack, if_neg hstart, ne_eq, hversion, not_false_eq_true, if_true]
      constructor
      · intro h
        exact absurd h (by simp)
      · rintro ⟨count, pos, resolved, ⟨-, -, htwo, -⟩, -⟩
        exact absurd htwo hversion

end Entries

/-- With overflow checks the parser ends in a value or an error, unless the pack has an entry behind
entries that are read whose header or a delta size of which goes on behind its tenth byte, whose
content or result has a size over `maxIsize`, or whose back offset takes on the largest word in
front of its last byte. -/
theorem parse_pack_returns_iff (codec : PackCodec) (hwithin : ReadsWithin codec)
    (findObject : ObjectId → Except GitError (Kind × Bytes)) (data : Bytes) :
    parsePack codec true findObject data ≠ .error .panic ↔
      ∀ count pos resolved, PackHeader data count → Read codec findObject data pos resolved →
        resolved.length < count → ¬ Panics codec findObject data resolved pos := by
  rw [ne_eq, parsePack_panic_iff hwithin]
  simp only [not_exists, not_and]

/-! ## A size of eleven bytes -/

theorem readMarked_le {data output : Bytes} {consumed : Nat}
    (h : readMarked data = some (output, consumed)) : consumed ≤ data.length := by
  fun_induction readMarked data generalizing output consumed with
  | case1 rest =>
    obtain ⟨-, rfl⟩ := Prod.mk.inj (Option.some.inj h)
    simp
  | case2 byte rest ih =>
    obtain ⟨read, hread, heq⟩ := Option.map_eq_some_iff.1 h
    obtain ⟨-, rfl⟩ := Prod.mk.inj heq
    have hrest := ih hread
    simp only [List.length_cons]
    omega
  | case3 => exact absurd h (by simp)

theorem greetingCodec_readsWithin : ReadsWithin greetingCodec := by
  intro data room inflated h
  simp only [greetingCodec] at h
  split at h
  · rename_i hstream
    have hlength := (List.isPrefixOf_iff_prefix.1 hstream).length_le
    obtain rfl := Except.ok.inj h
    exact hlength
  · split at h
    · rename_i output consumed hmarked
      obtain rfl := Except.ok.inj h
      exact readMarked_le hmarked
    · exact absurd h (by simp)

/-- The bytes `hi` behind a header. -/
def greetingPack (header : Bytes) : Bytes :=
  utf8 "PACK" ++ [0, 0, 0, 2, 0, 0, 0, 1] ++ header ++ greetingStream ++
    beBytes 20 0xb1fe1c396abb4672021de4c93068a9eb4a5d72f7

/-- A blob of two bytes, the size with ten groups of zeros behind its lowest bits. -/
def overlongTwo : Bytes := [0xb2, 0x80, 0x80, 0x80, 0x80, 0x80, 0x80, 0x80, 0x80, 0x80, 0x00]

/-- With its size in one byte the pack is read, and no entry of it is one to panic on. -/
theorem greeting_pack_returns :
    parsePack greetingCodec true (fun _ => .error (.git "object not found"))
        (greetingPack [0x32]) = .ok [greeting] ∧
      ∀ count pos resolved, PackHeader (greetingPack [0x32]) count →
        Read greetingCodec (fun _ => .error (.git "object not found")) (greetingPack [0x32]) pos
          resolved → resolved.length < count →
        ¬ Panics greetingCodec (fun _ => .error (.git "object not found")) (greetingPack [0x32])
          resolved pos := by
  have hread : parsePack greetingCodec true (fun _ => .error (.git "object not found"))
      (greetingPack [0x32]) = .ok [greeting] := by decide +kernel
  refine ⟨hread, (parse_pack_returns_iff greetingCodec greetingCodec_readsWithin _ _).1 ?_⟩
  rw [hread]
  simp

/-- The same size in eleven bytes panics. -/
theorem overlong_header_panics :
    ReadsWithin greetingCodec ∧
      ¬ parsePack greetingCodec true (fun _ => .error (.git "object not found"))
        (greetingPack overlongTwo) ≠ .error .panic := by
  have hpanic : parsePack greetingCodec true (fun _ => .error (.git "object not found"))
      (greetingPack overlongTwo) = .error .panic := by decide +kernel
  exact ⟨greetingCodec_readsWithin, not_not.2 hpanic⟩

end Edda.Git
