import Edda.Git.Delta

/-!
# Pack files

A pack is a header with the number of its objects, an entry for each of them, and a checksum. An
entry starts with the kind and the size of its object, four bits of the size in the first byte and
then groups of seven; its content is deflated. Nothing says where an entry ends but the inflater,
which reports how much it has read. A pack of a push may hold deltas, against objects earlier in
the pack or in the repository.

`parse_serialize_pack`: what `serializePack` writes, `parsePack` reads back.
-/

set_option autoImplicit false

namespace Edda.Git

open Edda.Support.RustText Edda.Support.Varint

/-! ## Parameters -/

/-- How far a stream has been inflated. -/
inductive Status where
  | ok
  | bufError
  | streamEnd
  deriving DecidableEq, Repr

/-- The status, the output and the number of bytes that were read. -/
structure Inflated where
  status : Status
  output : Bytes
  totalIn : Nat
  deriving DecidableEq, Repr

/-- The compression and the hash of packs. `decompress` inflates the stream that its first argument
starts with, into a buffer with the given room; `sha1` fails on input that it takes for a
collision attack. -/
structure PackCodec where
  deflate : Bytes → Bytes
  decompress : Bytes → Nat → Except String Inflated
  sha1 : Bytes → Except String ObjectId

/-- What is documented of the compression: a deflated stream is inflated again, and nothing is
read behind its end. -/
structure InflateLaw (codec : PackCodec) : Prop where
  inflates : ∀ data rest, codec.decompress (codec.deflate data ++ rest) data.length =
    .ok ⟨.streamEnd, data, (codec.deflate data).length⟩

section PackFile

variable (codec : PackCodec)

/-! ## Writing -/

def packTypeCode : Kind → UInt8
  | .commit => 1
  | .tree => 2
  | .blob => 3
  | .tag => 4

/-- The kind and the size of an entry. -/
def objectHeader (kind : Kind) (size : Nat) : Bytes :=
  let first := packTypeCode kind <<< 4 ||| (UInt8.ofNat size &&& 0x0f)
  (if size >>> 4 > 0 then first ||| 0x80 else first) :: writeGroups (size >>> 4)

def writePackObject (kind : Kind) (data : Bytes) : Bytes :=
  objectHeader kind data.length ++ codec.deflate data

/-- A pack before its checksum: the signature, the version, the number of objects and their
entries. -/
def packBody (objects : List (Kind × Bytes)) : Bytes :=
  utf8 "PACK" ++ (beBytes 4 2 ++ (beBytes 4 objects.length ++
    objects.flatMap fun (kind, data) => writePackObject codec kind data))

def serializePack (objects : List (Kind × Bytes)) : Except GitError Bytes :=
  match codec.sha1 (packBody codec objects) with
  | .error err => .error (.git err)
  | .ok checksum => .ok (packBody codec objects ++ beBytes 20 checksum.toNat)

/-! ## Reading -/

def kindFromCode (code : Nat) : Except GitError Kind :=
  if code = 1 then .ok .commit
  else if code = 2 then .ok .tree
  else if code = 3 then .ok .blob
  else if code = 4 then .ok .tag
  else .error (.git ("unsupported pack object type " ++ toString code))

def kindName : Kind → String
  | .commit => "commit"
  | .tree => "tree"
  | .blob => "blob"
  | .tag => "tag"

/-- The id of an object: the hash of its kind, its size and its content. -/
def objectId (kind : Kind) (data : Bytes) : Except GitError ObjectId :=
  let header := utf8 (kindName kind ++ " " ++ toString data.length) ++ [0]
  match codec.sha1 (header ++ data) with
  | .error err => .error (.git err)
  | .ok id => .ok id

/-- The type code and the size of an entry, and how many bytes they take. -/
def readObjectHeader (checks : Bool) (data : Bytes) :
    Except (Failure GitError) (Nat × Nat × Nat) :=
  match data with
  | [] => .error (.error (.git "truncated pack: expected an object header"))
  | first :: rest =>
    let typeCode := ((first >>> 4) &&& 0x07).toNat
    let size := (first &&& 0x0f).toNat
    if continues first then
      match readGroups checks (.git "truncated pack: object header") rest 1 size 4 with
      | .error failure => .error failure
      | .ok (size, pos) => .ok (typeCode, size, pos)
    else .ok (typeCode, size, 1)

/-- The bytes of a back offset behind its first one. Each adds one before it is shifted in. -/
def readOffsetGroups (checks : Bool) : Bytes → Nat → Nat → Except (Failure GitError) (Nat × Nat)
  | [], _, _ => .error (.error (.git "truncated pack: OFS_DELTA offset"))
  | byte :: rest, pos, offset => match addWords checks offset 1 with
    | .error failure => .error failure
    | .ok next =>
      let offset := (next <<< 7 % wordLimit) ||| lowBits byte
      if continues byte then readOffsetGroups checks rest (pos + 1) offset
      else .ok (offset, pos + 1)

def readOffsetDelta (checks : Bool) (data : Bytes) : Except (Failure GitError) (Nat × Nat) :=
  match data with
  | [] => .error (.error (.git "truncated pack: OFS_DELTA offset"))
  | byte :: rest =>
    if continues byte then readOffsetGroups checks rest 1 (lowBits byte)
    else .ok (lowBits byte, 1)

/-- Inflates the stream at the start of `data`, which has to give `expectedSize` bytes. -/
def inflate (data : Bytes) (expectedSize : Nat) : Except (Failure GitError) (Bytes × Nat) :=
  match withCapacity expectedSize with
  | .error failure => .error failure
  | .ok () => match codec.decompress data expectedSize with
    | .error err => .error (.error (.git ("zlib error: " ++ err)))
    | .ok inflated =>
      if inflated.status ≠ .streamEnd ∨ inflated.output.length ≠ expectedSize then
        .error (.error (.git "zlib stream did not decode to the expected size"))
      else .ok (inflated.output, inflated.totalIn)

/-- `&data[pos..]`. -/
def sliceFrom (data : Bytes) (pos : Nat) : Except (Failure GitError) Bytes :=
  if pos ≤ data.length then .ok (data.drop pos) else .error .panic

/-- An object of a pack, with its deltas applied. -/
structure ParsedObject where
  id : ObjectId
  kind : Kind
  data : Bytes
  deriving DecidableEq, Repr

/-- What a pack holds of an object. -/
def ParsedObject.content (object : ParsedObject) : Kind × Bytes := (object.kind, object.data)

/-- An object and the offset of its entry. -/
structure ResolvedEntry where
  offset : Nat
  object : ParsedObject
  deriving DecidableEq, Repr

/-- The place behind a header, what it says and the kind and content of the entry. -/
abbrev ReadEntry := Except (Failure GitError) (Nat × Kind × Bytes)

/-- Applies an inflated delta to its base. -/
def deltaEntry (checks : Bool) (base : Kind × Bytes) (delta : Bytes) (pos : Nat) : ReadEntry :=
  match applyDelta checks base.2 delta with
  | .error failure => .error failure
  | .ok data => .ok (pos, base.1, data)

/-- An entry whose content is its own. -/
def readPlain (data : Bytes) (typeCode size pos : Nat) : ReadEntry :=
  match kindFromCode typeCode with
  | .error err => .error (.error err)
  | .ok kind => match sliceFrom data pos with
    | .error failure => .error failure
    | .ok rest => match inflate codec rest size with
      | .error failure => .error failure
      | .ok (content, consumed) => .ok (pos + consumed, kind, content)

/-- A delta against an entry further ahead in the pack. -/
def readOfsDelta (checks : Bool) (data : Bytes) (resolved : List ResolvedEntry)
    (entryOffset size pos : Nat) : ReadEntry :=
  match sliceFrom data pos with
  | .error failure => .error failure
  | .ok rest => match readOffsetDelta checks rest with
    | .error failure => .error failure
    | .ok (backOffset, offsetLen) =>
      let pos := pos + offsetLen
      if entryOffset < backOffset then
        .error (.error (.git "OFS_DELTA offset points before the pack start"))
      else match sliceFrom data pos with
        | .error failure => .error failure
        | .ok rest => match inflate codec rest size with
          | .error failure => .error failure
          | .ok (delta, consumed) =>
            match resolved.find? fun entry => entry.offset == entryOffset - backOffset with
            | none => .error (.error (.git "OFS_DELTA base not found in pack"))
            | some base =>
              deltaEntry checks base.object.content delta (pos + consumed)

/-- A delta against an object of the pack or of the repository. -/
def readRefDelta (checks : Bool) (findObject : ObjectId → Except GitError (Kind × Bytes))
    (data : Bytes) (resolved : List ResolvedEntry) (size pos : Nat) : ReadEntry :=
  if data.length < pos + 20 then .error (.error (.git "truncated REF_DELTA base id"))
  else
    let baseId : ObjectId := BitVec.ofNat 160 (beValue ((data.drop pos).take 20))
    let pos := pos + 20
    match sliceFrom data pos with
    | .error failure => .error failure
    | .ok rest => match inflate codec rest size with
      | .error failure => .error failure
      | .ok (delta, consumed) =>
        match resolved.find? fun entry => entry.object.id == baseId with
        | some base =>
          deltaEntry checks base.object.content delta (pos + consumed)
        | none => match findObject baseId with
          | .error err => .error (.error err)
          | .ok base => deltaEntry checks base delta (pos + consumed)

/-- One entry, and the place behind it. -/
def parseEntry (checks : Bool) (findObject : ObjectId → Except GitError (Kind × Bytes))
    (data : Bytes) (resolved : List ResolvedEntry) (entryOffset : Nat) :
    Except (Failure GitError) (Nat × ResolvedEntry) :=
  match sliceFrom data entryOffset with
  | .error failure => .error failure
  | .ok rest => match readObjectHeader checks rest with
    | .error failure => .error failure
    | .ok (typeCode, size, headerLen) =>
      let pos := entryOffset + headerLen
      let entry :=
        if 1 ≤ typeCode ∧ typeCode ≤ 4 then readPlain codec data typeCode size pos
        else if typeCode = 6 then readOfsDelta codec checks data resolved entryOffset size pos
        else if typeCode = 7 then readRefDelta codec checks findObject data resolved size pos
        else .error (.error (.git ("unsupported pack entry type " ++ toString typeCode)))
      match entry with
      | .error failure => .error failure
      | .ok (pos, kind, content) => match objectId codec kind content with
        | .error err => .error (.error err)
        | .ok id => .ok (pos, ⟨entryOffset, ⟨id, kind, content⟩⟩)

/-- The entries from `pos` on. -/
def parseEntries (checks : Bool) (findObject : ObjectId → Except GitError (Kind × Bytes))
    (data : Bytes) :
    Nat → Nat → List ResolvedEntry → Except (Failure GitError) (List ResolvedEntry)
  | 0, _, resolved => .ok resolved
  | count + 1, pos, resolved => match parseEntry codec checks findObject data resolved pos with
    | .error failure => .error failure
    | .ok (pos, entry) => parseEntries checks findObject data count pos (resolved ++ [entry])

/-- `parse_pack`. The checksum at the end is not read; there is always room for the list of the
entries, of which there are less than 2 ^ 32. -/
def parsePack (checks : Bool) (findObject : ObjectId → Except GitError (Kind × Bytes))
    (data : Bytes) : Except (Failure GitError) (List ParsedObject) :=
  if data.length < 12 ∨ data.take 4 ≠ utf8 "PACK" then
    .error (.error (.git "not a valid pack: missing PACK header"))
  else
    let version := beValue ((data.drop 4).take 4)
    if version ≠ 2 then .error (.error (.git ("unsupported pack version " ++ toString version)))
    else
      let count := beValue ((data.drop 8).take 4)
      match parseEntries codec checks findObject data count 12 [] with
      | .error failure => .error failure
      | .ok resolved => .ok (resolved.map ResolvedEntry.object)

/-- The entries of a list of objects. -/
def writtenEntries (objects : List ParsedObject) : Bytes :=
  objects.flatMap fun object => writePackObject codec object.kind object.data

/-! ## Headers -/

/-- What the first byte of a header holds, with and without a group behind it. -/
theorem header_byte (kind : Kind) : ∀ low, low < 16 →
    let first := packTypeCode kind <<< 4 ||| UInt8.ofNat low
    (continues first = false ∧ ((first >>> 4) &&& 0x07).toNat = (packTypeCode kind).toNat ∧
        (first &&& 0x0f).toNat = low) ∧
      continues (first ||| 0x80) = true ∧
      (((first ||| 0x80) >>> 4) &&& 0x07).toNat = (packTypeCode kind).toNat ∧
      ((first ||| 0x80) &&& 0x0f).toNat = low := by
  cases kind <;> decide

theorem low_four_bits (size : Nat) : UInt8.ofNat size &&& 0x0f = UInt8.ofNat (size % 16) := by
  apply UInt8.toNat_inj.1
  rw [UInt8.toNat_and, UInt8.toNat_ofNat', UInt8.toNat_ofNat']
  have hmask : size % 2 ^ 8 &&& 15 = size % 2 ^ 8 % 2 ^ 4 :=
    Nat.and_two_pow_sub_one_eq_mod (size % 2 ^ 8) 4
  rw [show (0x0f : UInt8).toNat = 15 from rfl, hmask]
  omega

/-- The bits below and above a shift make the number. -/
theorem low_or_high (size : Nat) : size % 16 ||| (size >>> 4) <<< 4 = size := by
  have hlow : size % 16 < 2 ^ 4 := Nat.mod_lt _ (by decide)
  rw [Nat.or_comm, ← Nat.shiftLeft_add_eq_or_of_lt hlow, Nat.shiftLeft_eq,
    Nat.shiftRight_eq_div_pow]
  exact Nat.div_add_mod' size 16

/-- Every header is read as it was written. -/
theorem readObjectHeader_objectHeader (checks : Bool) (kind : Kind) {size : Nat}
    (hsize : size < wordLimit) (rest : Bytes) :
    readObjectHeader checks (objectHeader kind size ++ rest) =
      .ok ((packTypeCode kind).toNat, size, (objectHeader kind size).length) := by
  obtain ⟨⟨hlast, hcode, hlow⟩, hmore, hcodeMore, hlowMore⟩ :=
    header_byte kind (size % 16) (Nat.mod_lt _ (by decide))
  have hhigh : size >>> 4 = size / 16 := Nat.shiftRight_eq_div_pow size 4
  unfold wordLimit at hsize
  by_cases hgroups : size >>> 4 > 0
  · have hfits : size >>> 4 < 2 ^ (7 * 9) := by
      rw [hhigh]
      omega
    have hlength := length_writeGroups_le 9 hfits
    have hshift : checks = true → 4 + 7 * ((writeGroups (size >>> 4)).length - 1) < 64 := by
      intro _
      omega
    have hword : (size >>> 4) <<< 4 < wordLimit := by
      rw [hhigh, Nat.shiftLeft_eq]
      unfold wordLimit
      omega
    have hread := readGroups_of_groups (.git "truncated pack: object header" : GitError)
      (groups_writeGroups hgroups) rest 1 (size % 16) 4 hshift
    rw [kept_of_lt (groups_writeGroups hgroups) 4 hword, low_or_high] at hread
    simp only [objectHeader, low_four_bits, if_pos hgroups, List.cons_append, readObjectHeader,
      hmore, hcodeMore, hlowMore, if_true, hread, List.length_cons, Nat.add_comm 1]
  · have hsmall : size % 16 = size := by omega
    have hnone : size >>> 4 = 0 := by omega
    rw [hsmall] at hlast hcode hlow
    simp only [objectHeader, low_four_bits, hnone, writeGroups_zero, hsmall, gt_iff_lt,
      Nat.lt_irrefl, if_false, List.cons_append, List.nil_append, readObjectHeader, hlast, hcode,
      hlow, Bool.false_eq_true, List.length_singleton]

/-! ## Entries -/

section RoundTrip

variable {codec}

theorem sliceFrom_append (front rest : Bytes) :
    sliceFrom (front ++ rest) front.length = .ok rest := by
  have hle : front.length ≤ (front ++ rest).length := by
    rw [List.length_append]
    omega
  rw [sliceFrom, if_pos hle, List.drop_left]

theorem inflate_deflate (law : InflateLaw codec) {data : Bytes} (hlength : data.length ≤ maxIsize)
    (rest : Bytes) :
    inflate codec (codec.deflate data ++ rest) data.length =
      .ok (data, (codec.deflate data).length) := by
  simp only [inflate, withCapacity, if_pos hlength, law.inflates, ne_eq, not_true_eq_false,
    or_self, if_false]

theorem kindFromCode_packTypeCode (kind : Kind) :
    kindFromCode (packTypeCode kind).toNat = .ok kind ∧
      1 ≤ (packTypeCode kind).toNat ∧ (packTypeCode kind).toNat ≤ 4 := by
  cases kind <;> decide

/-- An entry that was written is read, wherever it stands and whatever follows it. -/
theorem parseEntry_of_written (law : InflateLaw codec) (checks : Bool)
    (findObject : ObjectId → Except GitError (Kind × Bytes)) {object : ParsedObject}
    (hlength : object.data.length ≤ maxIsize)
    (hid : objectId codec object.kind object.data = .ok object.id) (front rest : Bytes)
    (resolved : List ResolvedEntry) :
    parseEntry codec checks findObject
        (front ++ (writePackObject codec object.kind object.data ++ rest)) resolved front.length =
      .ok ((front ++ writePackObject codec object.kind object.data).length,
        ⟨front.length, object⟩) := by
  obtain ⟨hkind, hcode⟩ := kindFromCode_packTypeCode object.kind
  have hheader := readObjectHeader_objectHeader checks object.kind
    (lt_wordLimit_of_le hlength) (codec.deflate object.data ++ rest)
  have hentry : front ++ (objectHeader object.kind object.data.length ++
      (codec.deflate object.data ++ rest)) =
      (front ++ objectHeader object.kind object.data.length) ++
        (codec.deflate object.data ++ rest) := (List.append_assoc _ _ _).symm
  have hcontent := sliceFrom_append (front ++ objectHeader object.kind object.data.length)
    (codec.deflate object.data ++ rest)
  rw [← hentry, List.length_append] at hcontent
  simp only [parseEntry, writePackObject, List.append_assoc, sliceFrom_append, hheader,
    if_pos hcode, readPlain, hkind, hcontent, inflate_deflate law hlength, hid, List.length_append,
    Nat.add_assoc]

theorem parseEntries_of_written (law : InflateLaw codec) (checks : Bool)
    (findObject : ObjectId → Except GitError (Kind × Bytes)) (objects : List ParsedObject)
    (hlengths : ∀ object ∈ objects, object.data.length ≤ maxIsize)
    (hids : ∀ object ∈ objects, objectId codec object.kind object.data = .ok object.id)
    (front rest : Bytes) (resolved : List ResolvedEntry) :
    ∃ entries,
      parseEntries codec checks findObject
          (front ++ (writtenEntries codec objects ++ rest)) objects.length front.length resolved =
        .ok entries ∧
        entries.map ResolvedEntry.object = resolved.map ResolvedEntry.object ++ objects := by
  -- the front holds the entries read so far
  induction objects generalizing front resolved with
  | nil => exact ⟨resolved, rfl, (List.append_nil _).symm⟩
  | cons object objects ih =>
    have hentry := parseEntry_of_written law checks findObject
      (hlengths object List.mem_cons_self) (hids object List.mem_cons_self) front
      (writtenEntries codec objects ++ rest) resolved
    obtain ⟨entries, hentries, hobjects⟩ :=
      ih (fun other hmem => hlengths other (List.mem_cons_of_mem _ hmem))
        (fun other hmem => hids other (List.mem_cons_of_mem _ hmem))
        (front ++ writePackObject codec object.kind object.data)
        (resolved ++ [⟨front.length, object⟩])
    refine ⟨entries, ?_, ?_⟩
    · rw [List.append_assoc] at hentries
      simp only [writtenEntries, List.flatMap_cons, List.append_assoc, List.length_cons,
        parseEntries] at hentry hentries ⊢
      simp only [hentry]
      exact hentries
    · rw [hobjects, List.map_append, List.append_assoc]
      rfl

end RoundTrip

/-! ## Packs -/

theorem length_packSignature : (utf8 "PACK").length = 4 := by decide +kernel

/-- What the fixed fields at the start of a pack are read as. -/
theorem packHeader_fields (count : Nat) (rest : Bytes) :
    let data := utf8 "PACK" ++ (beBytes 4 2 ++ (beBytes 4 count ++ rest))
    12 ≤ data.length ∧ data.take 4 = utf8 "PACK" ∧ beValue ((data.drop 4).take 4) = 2 ∧
      beValue ((data.drop 8).take 4) = count % 2 ^ 32 := by
  have hversion := length_beBytes 4 2
  have hcounted := length_beBytes 4 count
  refine ⟨?_, ?_, ?_, ?_⟩
  · simp only [List.length_append, length_packSignature, hversion, hcounted]
    omega
  · rw [List.take_left' length_packSignature]
  · rw [List.drop_left' length_packSignature, List.take_left' hversion, beValue_beBytes]
    decide
  · have height : 8 = 4 + 4 := rfl
    rw [height, ← List.drop_drop, List.drop_left' length_packSignature, List.drop_left' hversion,
      List.take_left' hcounted, beValue_beBytes]
    rfl

/-- A pack whose objects have ids is read back into the same objects, and every header is read as
it was written. -/
theorem parse_serialize_pack (law : InflateLaw codec) (checks : Bool)
    (findObject : ObjectId → Except GitError (Kind × Bytes)) (objects : List ParsedObject)
    (hcount : objects.length < 2 ^ 32)
    (hlengths : ∀ object ∈ objects, object.data.length ≤ maxIsize)
    (hids : ∀ object ∈ objects, objectId codec object.kind object.data = .ok object.id)
    (checksum : ObjectId)
    (hchecksum : codec.sha1 (packBody codec (objects.map ParsedObject.content)) = .ok checksum) :
    (∃ pack, serializePack codec (objects.map ParsedObject.content) = .ok pack ∧
      parsePack codec checks findObject pack = .ok objects) ∧
    ∀ kind size rest, size < 2 ^ 64 →
      readObjectHeader checks (objectHeader kind size ++ rest) =
        .ok ((packTypeCode kind).toNat, size, (objectHeader kind size).length) := by
  refine ⟨?_, fun kind size rest hsize => readObjectHeader_objectHeader checks kind hsize rest⟩
  have hbody : packBody codec (objects.map ParsedObject.content) =
      utf8 "PACK" ++ (beBytes 4 2 ++ (beBytes 4 objects.length ++
        writtenEntries codec objects)) := by
    simp only [packBody, writtenEntries, List.length_map, List.flatMap_map, ParsedObject.content]
  refine ⟨_, by rw [serializePack, hchecksum], ?_⟩
  obtain ⟨entries, hentries, hobjects⟩ := parseEntries_of_written law checks findObject objects
    hlengths hids (utf8 "PACK" ++ (beBytes 4 2 ++ beBytes 4 objects.length))
    (beBytes 20 checksum.toNat) []
  obtain ⟨hlong, hsignature, hversion, hcounted⟩ := packHeader_fields objects.length
    (writtenEntries codec objects ++ beBytes 20 checksum.toNat)
  rw [Nat.mod_eq_of_lt hcount] at hcounted
  have hstart : (utf8 "PACK" ++ (beBytes 4 2 ++ beBytes 4 objects.length)).length = 12 := by
    simp only [List.length_append, length_beBytes, length_packSignature]
  rw [hstart] at hentries
  simp only [hbody, List.append_assoc] at hentries ⊢
  simp only [parsePack, hsignature, hversion, hcounted, hentries, hobjects, ne_eq,
    not_true_eq_false, or_false, if_false, Nat.not_lt.2 hlong, List.map_nil, List.nil_append]

end PackFile

/-! ## The pack of one blob -/

/-- The bytes `hi`, deflated. -/
def greetingStream : Bytes := [120, 156, 203, 200, 4, 0, 1, 59, 0, 210]

/-- Bytes with a mark in front of each, and one at the end. -/
def markBytes : Bytes → Bytes
  | [] => [0]
  | byte :: rest => 1 :: byte :: markBytes rest

def readMarked : Bytes → Option (Bytes × Nat)
  | 0 :: _ => some ([], 1)
  | 1 :: byte :: rest => (readMarked rest).map fun (data, consumed) => (byte :: data, consumed + 2)
  | _ => none

/-- Deflates the greeting as zlib does and marks everything else; the hash is that of the greeting
and of its pack. -/
def greetingCodec : PackCodec where
  deflate := fun data => if data = utf8 "hi" then greetingStream else markBytes data
  decompress := fun data _ =>
    if greetingStream.isPrefixOf data then .ok ⟨.streamEnd, utf8 "hi", 10⟩
    else match readMarked data with
      | some (output, consumed) => .ok ⟨.streamEnd, output, consumed⟩
      | none => .error "corrupt deflate stream"
  sha1 := fun data =>
    if data = utf8 "blob 2" ++ [0] ++ utf8 "hi" then
      .ok 0x32f95c0d1244a78b2be1bab8de17906fabb2c4a8
    else if data = utf8 "PACK" ++ [0, 0, 0, 2, 0, 0, 0, 1, 50] ++ greetingStream then
      .ok 0xb1fe1c396abb4672021de4c93068a9eb4a5d72f7
    else .ok 0

theorem readMarked_markBytes (data rest : Bytes) :
    readMarked (markBytes data ++ rest) = some (data, (markBytes data).length) := by
  induction data with
  | nil => rfl
  | cons byte data ih => simp [markBytes, readMarked, ih]

theorem greetingCodec_law : InflateLaw greetingCodec where
  inflates := by
    intro data rest
    simp only [greetingCodec]
    by_cases hgreeting : data = utf8 "hi"
    · have hstream : greetingStream.isPrefixOf (greetingStream ++ rest) = true :=
        List.isPrefixOf_iff_prefix.2 (List.prefix_append _ _)
      rw [if_pos hgreeting, if_pos hstream, hgreeting]
      rfl
    · have hstream : greetingStream.isPrefixOf (markBytes data ++ rest) = false := by
        cases data <;> rfl
      simp only [if_neg hgreeting, hstream, Bool.false_eq_true, if_false, readMarked_markBytes]

/-- The blob `hi`. -/
def greeting : ParsedObject := ⟨0x32f95c0d1244a78b2be1bab8de17906fabb2c4a8, .blob, utf8 "hi"⟩

theorem greeting_pack_is_read_back :
    ∃ pack, serializePack greetingCodec [(.blob, utf8 "hi")] = .ok pack ∧
      parsePack greetingCodec true (fun _ => .error (.git "object not found")) pack =
        .ok [greeting] := by
  have hid : objectId greetingCodec .blob (utf8 "hi") = .ok greeting.id := by decide +kernel
  have hbody : packBody greetingCodec [(.blob, utf8 "hi")] =
      utf8 "PACK" ++ [0, 0, 0, 2, 0, 0, 0, 1, 50] ++ greetingStream := by
    have hlength : (utf8 "hi").length >>> 4 = 0 := by decide +kernel
    simp only [packBody, writePackObject, objectHeader, hlength, writeGroups_zero,
      List.flatMap_cons, List.flatMap_nil]
    decide +kernel
  have hchecksum : greetingCodec.sha1 (packBody greetingCodec [(.blob, utf8 "hi")]) =
      .ok 0xb1fe1c396abb4672021de4c93068a9eb4a5d72f7 := by
    rw [hbody]
    decide +kernel
  refine (parse_serialize_pack greetingCodec greetingCodec_law true
    (fun _ => .error (.git "object not found")) [greeting] (by decide) ?_ ?_ _ hchecksum).1
  · intro object hmem
    obtain rfl := List.mem_singleton.1 hmem
    decide +kernel
  · intro object hmem
    obtain rfl := List.mem_singleton.1 hmem
    exact hid

end Edda.Git
