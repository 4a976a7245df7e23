import Edda.Git.UploadPack

/-!
# Side-band framing

With `side-band-64k` the pack of a fetch is sent in frames, packets whose first payload byte is the
number of a channel: the pack on channel 1, and a line of progress on channel 2 unless the client
does not want it. Without it the bytes of the pack follow the `NAK` line as they are.

`fetch` is what a client makes of a response to its request. `side_band_transparent`: with and
without the capability it has the same boundary and the same pack. `Multiplexed` is the shape of the
framed stream.
-/

set_option autoImplicit false

namespace Edda.Git

open Edda.Support Edda.Support.RustText

/-! ## The client -/

/-- The packets up to a flush, and the bytes behind it. -/
def readSection : Nat → Bytes → Option (List Bytes × Bytes)
  | 0, _ => none
  | fuel + 1, bytes => match readPktLine bytes with
    | none => none
    | some (.flush, rest) => some ([], rest)
    | some (.data line, rest) =>
      (readSection fuel rest).map fun (lines, behind) => (line :: lines, behind)

/-- The channel of a frame and what it carries. -/
abbrev Frame := UInt8 × Bytes

/-- A packet as a frame. -/
def frameOf : Bytes → Option Frame
  | [] => none
  | band :: payload => some (band, payload)

/-- The frames up to a flush, and the bytes behind it. -/
def readFrames (bytes : Bytes) : Option (List Frame × Bytes) :=
  match readSection bytes.length bytes with
  | none => none
  | some (lines, behind) => (lines.mapM frameOf).map fun frames => (frames, behind)

/-- What the frames of one channel carry. -/
def onChannel (band : UInt8) (frames : List Frame) : List Bytes :=
  (frames.filter fun frame => frame.1 == band).map Prod.snd

/-- What a client has of a response: the lines of the shallow boundary, the pack, unless the
request was for the boundary only, and what it was shown of the progress. -/
structure Fetched where
  boundary : List Bytes
  pack : Option Bytes
  progress : List Bytes

/-- What follows the boundary. -/
def fetchPack (sideBand : Bool) (boundary : List Bytes) (bytes : Bytes) : Option Fetched :=
  match readPktLine bytes with
  | some (.data line, rest) =>
    if line ≠ utf8 "NAK\n" then none
    else if sideBand then match readFrames rest with
      | some (frames, []) =>
        some ⟨boundary, some (onChannel 1 frames).flatten, onChannel 2 frames⟩
      | _ => none
    else some ⟨boundary, some rest, []⟩
  | _ => none

/-- Reads the response to a request. -/
def fetch (request : UploadPackRequest) (bytes : Bytes) : Option Fetched :=
  if request.deepen = .none then fetchPack request.wantsSideBand64k [] bytes
  else match readSection bytes.length bytes with
    | none => none
    | some (boundary, rest) =>
      if request.done then fetchPack request.wantsSideBand64k boundary rest
      else if rest = [] then some ⟨boundary, none, []⟩
      else none

/-- The request without the capability. -/
def UploadPackRequest.withoutSideBand (request : UploadPackRequest) : UploadPackRequest :=
  { request with capabilities := request.capabilities.filter fun cap => cap != "side-band-64k" }

/-- The progress that is shown for a pack. -/
def progressMessage (pack : Bytes) : String :=
  "Total " ++ toString (packObjectCount pack) ++ " objects, done.\n"

/-- A framed stream: frames of the format's size at most, the pack on channel 1 and the progress on
channel 2, and one flush, with which it ends. -/
def Multiplexed (progress : Bool) (pack stream : Bytes) : Prop :=
  ∃ frames : List Frame, readFrames stream = some (frames, []) ∧
    stream = (frames.flatMap fun frame => writeBand frame.1 frame.2) ++ writeFlush ∧
    (∀ frame ∈ frames, (writeBand frame.1 frame.2).length ≤ 65520) ∧
    (∀ frame ∈ frames, frame.1 = 1 ∨ frame.1 = 2 ∧ progress = true) ∧
    (onChannel 1 frames).flatten = pack ∧
    onChannel 2 frames = if progress then [utf8 (progressMessage pack)] else []

/-! ## Chunks -/

section Chunks

variable {α : Type} (n : Nat)

theorem flatten_toChunks_go (xs : List α) (chunk : Array α) (chunks : Array (List α)) :
    (List.toChunks.go n xs chunk chunks).flatten =
      chunks.toList.flatten ++ (chunk.toList ++ xs) := by
  induction xs generalizing chunk chunks with
  | nil => simp [List.toChunks.go]
  | cons x xs ih =>
    rw [List.toChunks.go]
    split
    · rw [ih]
      simp
    · rw [ih]
      simp

/-- The chunks of a list make the list. -/
theorem flatten_toChunks (xs : List α) : (xs.toChunks n).flatten = xs := by
  cases xs with
  | nil => cases n <;> rfl
  | cons x xs =>
    cases n with
    | zero => simp [List.toChunks]
    | succ n => simp [List.toChunks, flatten_toChunks_go]

variable {n}

theorem length_le_of_mem_toChunks_go (hn : 0 < n) (xs : List α) (chunk : Array α)
    (chunks : Array (List α)) (hchunk : chunk.size ≤ n)
    (hchunks : ∀ other ∈ chunks.toList, other.length ≤ n) :
    ∀ other ∈ List.toChunks.go n xs chunk chunks, other.length ≤ n := by
  -- the chunk that is being filled is closed when it is full
  have hpush : ∀ other ∈ (chunks.push chunk.toList).toList, other.length ≤ n := by
    intro other hmem
    rw [Array.toList_push, List.mem_append, List.mem_singleton] at hmem
    rcases hmem with hmem | rfl
    · exact hchunks other hmem
    · simpa using hchunk
  induction xs generalizing chunk chunks with
  | nil => exact hpush
  | cons x xs ih =>
    rw [List.toChunks.go]
    split
    · apply ih
      · simpa using Nat.succ_le_of_lt hn
      · exact hpush
      · intro other hmem
        rw [Array.toList_push, List.mem_append, List.mem_singleton] at hmem
        rcases hmem with hmem | rfl
        · exact hpush other hmem
        · simpa using Nat.succ_le_of_lt hn
    · rename_i hsize
      have hfull : chunk.size + 1 ≤ n := by
        simp only [beq_iff_eq] at hsize
        omega
      apply ih
      · simpa using hfull
      · exact hchunks
      · intro other hmem
        rw [Array.toList_push, List.mem_append, List.mem_singleton] at hmem
        rcases hmem with hmem | rfl
        · exact hchunks other hmem
        · simpa using hfull

theorem length_le_of_mem_toChunks (hn : 0 < n) {xs chunk : List α} (h : chunk ∈ xs.toChunks n) :
    chunk.length ≤ n := by
  cases xs with
  | nil => cases n <;> simp [List.toChunks] at h
  | cons x xs =>
    cases n with
    | zero => exact absurd hn (Nat.lt_irrefl 0)
    | succ n =>
      refine length_le_of_mem_toChunks_go hn xs #[x] #[] ?_ ?_ chunk h
      · simp
      · simp

end Chunks

/-! ## Reading a section -/

theorem readSection_lines {lines : List Bytes}
    (hfits : ∀ line ∈ lines, line.length + 4 < 0x10000) (behind : Bytes) {fuel : Nat}
    (hfuel : lines.length < fuel) :
    readSection fuel (lines.flatMap writePktLine ++ (writeFlush ++ behind)) =
      some (lines, behind) := by
  induction lines generalizing fuel with
  | nil =>
    cases fuel with
    | zero => exact absurd hfuel (Nat.not_lt_zero _)
    | succ fuel =>
      simp only [List.flatMap_nil, List.nil_append, readSection, readPktLine_flush]
  | cons line lines ih =>
    cases fuel with
    | zero => exact absurd hfuel (Nat.not_lt_zero _)
    | succ fuel =>
      have hread := readPktLine_writePktLine (hfits line List.mem_cons_self)
        (lines.flatMap writePktLine ++ (writeFlush ++ behind))
      have hrest := ih (fun other hmem => hfits other (List.mem_cons_of_mem _ hmem))
        (Nat.lt_of_succ_lt_succ hfuel)
      simp only [List.flatMap_cons, List.append_assoc, readSection, hread, hrest, Option.map_some]

theorem four_le_length_writePktLine (payload : Bytes) : 4 ≤ (writePktLine payload).length := by
  simp only [writePktLine, lowerHex4, List.length_append, List.length_cons, List.length_nil]
  omega

/-- A section has more bytes than lines. -/
theorem length_lt_section (lines : List Bytes) (behind : Bytes) :
    lines.length < (lines.flatMap writePktLine ++ (writeFlush ++ behind)).length := by
  have hflush : writeFlush.length = 4 := by decide
  induction lines with
  | nil =>
    simp only [List.flatMap_nil, List.nil_append, List.length_append, hflush, List.length_nil]
    omega
  | cons line lines ih =>
    have hfour := four_le_length_writePktLine line
    simp only [List.flatMap_cons, List.length_append, List.length_cons] at ih ⊢
    omega

/-- A section is read to its flush. -/
theorem readSection_section {lines : List Bytes}
    (hfits : ∀ line ∈ lines, line.length + 4 < 0x10000) (behind : Bytes) :
    readSection (lines.flatMap writePktLine ++ (writeFlush ++ behind)).length
        (lines.flatMap writePktLine ++ (writeFlush ++ behind)) = some (lines, behind) :=
  readSection_lines hfits behind (length_lt_section lines behind)

/-! ## Frames -/

theorem flatMap_writeBand (frames : List Frame) :
    (frames.flatMap fun frame => writeBand frame.1 frame.2) =
      (frames.map fun frame => frame.1 :: frame.2).flatMap writePktLine := by
  rw [List.flatMap_map]
  rfl

theorem mapM_frameOf (frames : List Frame) :
    (frames.map fun frame => frame.1 :: frame.2).mapM frameOf = some frames := by
  induction frames with
  | nil => rfl
  | cons frame frames ih => simp [List.mapM_cons, frameOf, ih]

/-- Frames are read to their flush. -/
theorem readFrames_frames {frames : List Frame}
    (hfits : ∀ frame ∈ frames, frame.2.length ≤ maxDataPerPacket) :
    readFrames ((frames.flatMap fun frame => writeBand frame.1 frame.2) ++ writeFlush) =
      some (frames, []) := by
  have hlines : ∀ line ∈ frames.map fun frame => frame.1 :: frame.2,
      line.length + 4 < 0x10000 := by
    intro line hmem
    obtain ⟨frame, hframe, rfl⟩ := List.mem_map.1 hmem
    have hlength := hfits frame hframe
    unfold maxDataPerPacket at hlength
    rw [List.length_cons]
    omega
  have hread := readSection_section hlines []
  rw [List.append_nil, ← flatMap_writeBand] at hread
  simp only [readFrames, hread, mapM_frameOf, Option.map_some]

/-- The frames of a pack, with its progress. -/
def packFrames (progress : Bool) (pack : Bytes) : List Frame :=
  (if progress then [(2, utf8 (progressMessage pack))] else []) ++
    (pack.toChunks maxDataPerPacket).map fun chunk => (1, chunk)

/-- A response behind its boundary and the `NAK` line. -/
def packStream (sideBand progress : Bool) (pack : Bytes) : Bytes :=
  if sideBand then
    (if progress then writeProgress (progressMessage pack) else []) ++
      writePackData pack ++ writeFlush
  else pack

theorem packStream_eq_frames (progress : Bool) (pack : Bytes) :
    packStream true progress pack =
      ((packFrames progress pack).flatMap fun frame => writeBand frame.1 frame.2) ++
        writeFlush := by
  have hpack : writePackData pack =
      ((pack.toChunks maxDataPerPacket).map fun chunk => ((1, chunk) : Frame)).flatMap
        fun frame => writeBand frame.1 frame.2 := by
    rw [List.flatMap_map]
    rfl
  cases progress with
  | true =>
    simp only [packStream, packFrames, if_true, hpack, writeProgress, List.flatMap_append,
      List.flatMap_cons, List.flatMap_nil, List.append_nil]
  | false =>
    simp only [packStream, packFrames, if_true, Bool.false_eq_true, if_false, hpack,
      List.nil_append]

/-- The count of a pack is below 2 ^ 32. -/
theorem packObjectCount_lt (pack : Bytes) : packObjectCount pack < 2 ^ 32 := by
  unfold packObjectCount
  split
  · rename_i a b c d _
    have ha := a.toNat_lt
    have hb := b.toNat_lt
    have hc := c.toNat_lt
    have hd := d.toNat_lt
    omega
  · decide

theorem length_progressMessage_le (pack : Bytes) :
    (utf8 (progressMessage pack)).length ≤ maxDataPerPacket := by
  have hdigits : (toString (packObjectCount pack)).toList.length ≤ 10 := by
    have hcount : packObjectCount pack < 10 ^ 10 :=
      (packObjectCount_lt pack).trans (by decide)
    have hrepr : (toString (packObjectCount pack)).toList =
        Nat.toDigits 10 (packObjectCount pack) := String.toList_ofList
    rw [hrepr]
    exact (Nat.length_toDigits_le_iff (by decide) (by decide)).2 hcount
  have hbytes := length_utf8_le (progressMessage pack)
  have htotal : "Total ".toList.length = 6 := by decide
  have hdone : " objects, done.\n".toList.length = 16 := by decide
  simp only [progressMessage, String.toList_append, List.length_append, htotal, hdone] at hbytes
  unfold maxDataPerPacket
  exact hbytes.trans (by omega)

theorem packFrames_fit {progress : Bool} {pack : Bytes} :
    ∀ frame ∈ packFrames progress pack, frame.2.length ≤ maxDataPerPacket := by
  intro frame hmem
  rw [packFrames, List.mem_append] at hmem
  rcases hmem with hmem | hmem
  · cases progress with
    | true =>
      obtain rfl := List.mem_singleton.1 hmem
      exact length_progressMessage_le pack
    | false => simp at hmem
  · obtain ⟨chunk, hchunk, rfl⟩ := List.mem_map.1 hmem
    exact length_le_of_mem_toChunks (by decide) hchunk

theorem onChannel_append (band : UInt8) (xs ys : List Frame) :
    onChannel band (xs ++ ys) = onChannel band xs ++ onChannel band ys := by
  rw [onChannel, List.filter_append, List.map_append]
  rfl

/-- All frames of some payloads are on their channel, and none is on another one. -/
theorem onChannel_map (band other : UInt8) (payloads : List Bytes) :
    onChannel band (payloads.map fun payload => (other, payload)) =
      if other = band then payloads else [] := by
  induction payloads with
  | nil => simp [onChannel]
  | cons payload payloads ih =>
    simp only [onChannel, List.map_cons, List.filter_cons, beq_iff_eq] at ih ⊢
    split
    · rename_i heq
      rw [if_pos heq] at ih
      rw [List.map_cons, ih]
    · rename_i hne
      rwa [if_neg hne] at ih

/-- The pack is on channel 1, and the progress on channel 2. -/
theorem onChannel_packFrames (progress : Bool) (pack : Bytes) :
    (onChannel 1 (packFrames progress pack)).flatten = pack ∧
      onChannel 2 (packFrames progress pack) =
        if progress then [utf8 (progressMessage pack)] else [] := by
  have hpack : (2 : UInt8) ≠ 1 := by decide
  rw [packFrames, onChannel_append, onChannel_append, onChannel_map, onChannel_map, if_pos rfl,
    if_neg hpack.symm, List.append_nil]
  cases progress with
  | true => exact ⟨flatten_toChunks _ pack, rfl⟩
  | false => exact ⟨flatten_toChunks _ pack, rfl⟩

theorem multiplexed_packStream (progress : Bool) (pack : Bytes) :
    Multiplexed progress pack (packStream true progress pack) := by
  obtain ⟨hpack, hprogress⟩ := onChannel_packFrames progress pack
  refine ⟨packFrames progress pack, ?_, packStream_eq_frames progress pack, ?_, ?_, hpack,
    hprogress⟩
  · rw [packStream_eq_frames]
    exact readFrames_frames packFrames_fit
  · intro frame hmem
    have hlength := packFrames_fit frame hmem
    unfold maxDataPerPacket at hlength
    have hfour : (frame.1 :: frame.2).length + 4 < 0x10000 := by
      rw [List.length_cons]
      omega
    rw [writeBand, length_writePktLine hfour, List.length_cons]
    omega
  · intro frame hmem
    rw [packFrames, List.mem_append] at hmem
    rcases hmem with hmem | hmem
    · cases progress with
      | true =>
        obtain rfl := List.mem_singleton.1 hmem
        exact .inr ⟨rfl, rfl⟩
      | false => simp at hmem
    · obtain ⟨chunk, -, rfl⟩ := List.mem_map.1 hmem
      exact .inl rfl

/-! ## Responses -/

theorem fetchPack_packStream (sideBand progress : Bool) (boundary : List Bytes) (pack : Bytes) :
    fetchPack sideBand boundary (writePktLine (utf8 "NAK\n") ++ packStream sideBand progress pack) =
      some ⟨boundary, some pack,
        if sideBand && progress then [utf8 (progressMessage pack)] else []⟩ := by
  have hshort : (utf8 "NAK\n").length + 4 < 0x10000 := by decide +kernel
  have hread := readPktLine_writePktLine hshort (packStream sideBand progress pack)
  cases sideBand with
  | false =>
    have hplain : packStream false progress pack = pack := rfl
    rw [hplain] at hread ⊢
    simp only [fetchPack, hread, ne_eq, not_true_eq_false, if_false, Bool.false_eq_true,
      Bool.false_and]
  | true =>
    obtain ⟨frames, hframes, -, -, -, hpack, hprogress⟩ := multiplexed_packStream progress pack
    simp only [fetchPack, hread, ne_eq, not_true_eq_false, if_false, if_true, hframes, hpack,
      hprogress, Bool.true_and]

/-- The lines of a shallow boundary. -/
def boundaryLines (newShallow unshallow : List ObjectId) : List Bytes :=
  (newShallow.map fun id => utf8 ("shallow " ++ id.toHex ++ "\n")) ++
    unshallow.map fun id => utf8 ("unshallow " ++ id.toHex ++ "\n")

theorem boundaryLines_fit {newShallow unshallow : List ObjectId} :
    ∀ line ∈ boundaryLines newShallow unshallow, line.length + 4 < 0x10000 := by
  have hline : ∀ (word : String) (id : ObjectId), word.toList.length ≤ 10 →
      (utf8 (word ++ id.toHex ++ "\n")).length + 4 < 0x10000 := by
    intro word id hword
    have hbytes := length_utf8_le (word ++ id.toHex ++ "\n")
    have hid : id.toHex.toList.length = 40 := by
      rw [ObjectId.toHex, String.toList_ofList, length_hexText]
    have hend : "\n".toList.length = 1 := by decide
    simp only [String.toList_append, List.length_append, hid, hend] at hbytes
    omega
  intro line hmem
  rw [boundaryLines, List.mem_append] at hmem
  rcases hmem with hmem | hmem
  · obtain ⟨id, -, rfl⟩ := List.mem_map.1 hmem
    exact hline _ id (by decide)
  · obtain ⟨id, -, rfl⟩ := List.mem_map.1 hmem
    exact hline _ id (by decide)

/-- The bytes of a boundary. -/
def boundaryBytes : Option (List ObjectId × List ObjectId) → Bytes
  | none => []
  | some (newShallow, unshallow) =>
    (boundaryLines newShallow unshallow).flatMap writePktLine ++ writeFlush

theorem readSection_boundaryBytes (newShallow unshallow : List ObjectId) (behind : Bytes) :
    readSection (boundaryBytes (some (newShallow, unshallow)) ++ behind).length
        (boundaryBytes (some (newShallow, unshallow)) ++ behind) =
      some (boundaryLines newShallow unshallow, behind) := by
  rw [boundaryBytes, List.append_assoc]
  exact readSection_section boundaryLines_fit behind

/-- The bytes of a response, in its two parts. -/
theorem write_eq (serializePack : List ObjectId → Bytes)
    (boundary : Option (List ObjectId × List ObjectId)) (sideBand progress : Bool)
    (pack : Option (List ObjectId)) :
    (⟨boundary, pack, sideBand, progress⟩ : UploadPackResponse).write serializePack =
      boundaryBytes boundary ++ (pack.map fun ids =>
        writePktLine (utf8 "NAK\n") ++ packStream sideBand progress (serializePack ids)).getD [] := by
  cases boundary with
  | none => cases pack <;> rfl
  | some ids =>
    obtain ⟨newShallow, unshallow⟩ := ids
    cases pack with
    | none =>
      simp only [UploadPackResponse.write, boundaryBytes, boundaryLines, List.flatMap_append,
        List.flatMap_map, Option.map_none, Option.getD_none]
    | some ids =>
      simp only [UploadPackResponse.write, boundaryBytes, boundaryLines, List.flatMap_append,
        List.flatMap_map, Option.map_some, Option.getD_some]
      rfl

/-- The capability decides how the pack is sent, and nothing else. -/
theorem build_withoutSideBand (gix : Gix) (state : Repo) {request : UploadPackRequest}
    {response : UploadPackResponse} (h : buildUploadPackResponse gix state request = .ok response) :
    buildUploadPackResponse gix state request.withoutSideBand =
      .ok { response with sideBand := false, withProgress := false } := by
  have hnone : request.withoutSideBand.wantsSideBand64k = false := by
    simp [UploadPackRequest.wantsSideBand64k, UploadPackRequest.withoutSideBand]
  simp only [buildUploadPackResponse] at h ⊢
  simp only [hnone, Bool.false_and]
  simp only [UploadPackRequest.withoutSideBand]
  cases hbuilt : buildShallowPack gix.content (state.objects gix) request.wants request.haves
      ⟨request.shallow, request.deepen⟩ with
  | error err =>
    rw [hbuilt] at h
    exact absurd h (by simp)
  | ok built =>
    rw [hbuilt] at h
    obtain rfl := Except.ok.inj h
    rfl

/-- What the client makes of the bytes, whatever the response is built from. -/
theorem fetch_write (serializePack : List ObjectId → Bytes) (request : UploadPackRequest)
    (newShallow unshallow ids : List ObjectId) (progress : Bool) :
    let boundary := if request.deepen = .none then none else some (newShallow, unshallow)
    let pack := if request.deepen ≠ .none ∧ request.done = false then none else some ids
    fetch request ((⟨boundary, pack, request.wantsSideBand64k, progress⟩ :
        UploadPackResponse).write serializePack) =
      some ⟨if request.deepen = .none then [] else boundaryLines newShallow unshallow,
        pack.map serializePack,
        if request.wantsSideBand64k && progress then
          pack.toList.map fun ids => utf8 (progressMessage (serializePack ids))
        else []⟩ := by
  by_cases hdeepen : request.deepen = .none
  · simp only [fetch, hdeepen, if_true, ne_eq, not_true_eq_false, false_and, if_false, write_eq,
      boundaryBytes, Option.map_some, Option.getD_some, List.nil_append, fetchPack_packStream,
      Option.toList_some, List.map_cons, List.map_nil]
  · cases hdone : request.done with
    | false =>
      simp only [fetch, hdeepen, hdone, if_false, ne_eq, not_false_eq_true, true_and, if_true,
        write_eq, Option.map_none, Option.getD_none, readSection_boundaryBytes, Bool.false_eq_true,
        Option.toList_none, List.map_nil, ite_self]
    | true =>
      simp only [fetch, hdeepen, hdone, if_false, ne_eq, not_false_eq_true, true_and, if_true,
        write_eq, Bool.true_eq_false, Option.map_some, Option.getD_some, readSection_boundaryBytes,
        fetchPack_packStream, Option.toList_some, List.map_cons, List.map_nil]

/-- With the capability a client has the same boundary and the same pack as without it. The pack is
what follows the `NAK` line of the response without it; with it, a multiplexed stream follows. -/
theorem side_band_transparent (gix : Gix) (state : Repo) (request : UploadPackRequest)
    (serializePack : List ObjectId → Bytes) (response : UploadPackResponse)
    (h : buildUploadPackResponse gix state request = .ok response) :
    ∃ plain boundary,
      buildUploadPackResponse gix state request.withoutSideBand = .ok plain ∧
      fetch request (response.write serializePack) =
        some ⟨boundary, response.pack.map serializePack,
          if request.wantsSideBand64k && request.wantsProgress then
            response.pack.toList.map fun ids => utf8 (progressMessage (serializePack ids))
          else []⟩ ∧
      fetch request.withoutSideBand (plain.write serializePack) =
        some ⟨boundary, response.pack.map serializePack, []⟩ ∧
      ∀ ids, response.pack = some ids → ∃ start,
        plain.write serializePack = start ++ (writePktLine (utf8 "NAK\n") ++ serializePack ids) ∧
        (request.wantsSideBand64k = true → ∃ stream,
          response.write serializePack = start ++ (writePktLine (utf8 "NAK\n") ++ stream) ∧
          Multiplexed request.wantsProgress (serializePack ids) stream) := by
  have hplain := build_withoutSideBand gix state h
  simp only [buildUploadPackResponse] at h
  split at h
  · exact absurd h (by simp)
  rename_i built _
  obtain rfl := Except.ok.inj h
  have hwithout : request.withoutSideBand.wantsSideBand64k = false := by
    simp [UploadPackRequest.wantsSideBand64k, UploadPackRequest.withoutSideBand]
  have hprogress : ∀ {α : Type} (shown : α) (none : α),
      (if request.wantsSideBand64k && (request.wantsSideBand64k && request.wantsProgress) then shown
        else none) = if request.wantsSideBand64k && request.wantsProgress then shown else none := by
    intro α shown none
    rw [← Bool.and_assoc, Bool.and_self]
  have hfetch := fetch_write serializePack request built.newShallow built.unshallow built.pack
    (request.wantsSideBand64k && request.wantsProgress)
  have hfetchPlain := fetch_write serializePack request.withoutSideBand built.newShallow
    built.unshallow built.pack false
  simp only [hprogress] at hfetch
  simp only [hwithout, Bool.false_and, Bool.false_eq_true, if_false] at hfetchPlain
  refine ⟨_, _, hplain, hfetch, hfetchPlain, ?_⟩
  intro ids hpack
  simp only at hpack
  refine ⟨boundaryBytes (if request.deepen = .none then none
    else some (built.newShallow, built.unshallow)), ?_, ?_⟩
  · simp only [write_eq, hpack, Option.map_some, Option.getD_some]
    rfl
  · intro hsideBand
    refine ⟨packStream true request.wantsProgress (serializePack ids), ?_,
      multiplexed_packStream _ _⟩
    simp only [write_eq, hpack, Option.map_some, Option.getD_some, hsideBand, Bool.true_and]

/-- A request for the commit 3, with the capability. -/
def framedRequest : UploadPackRequest := ⟨[3], [], ["ofs-delta", "side-band-64k"], [], .none, true⟩

theorem leftover_is_fetched_either_way :
    ∃ plain boundary, buildUploadPackResponse leftoverGix leftoverRepo framedRequest.withoutSideBand =
        .ok plain ∧
      fetch framedRequest ((⟨none, some [3, 2, 1], true, true⟩ : UploadPackResponse).write
          fun _ => utf8 "PACK") =
        some ⟨boundary, some (utf8 "PACK"), [utf8 "Total 0 objects, done.\n"]⟩ ∧
      fetch framedRequest.withoutSideBand (plain.write fun _ => utf8 "PACK") =
        some ⟨boundary, some (utf8 "PACK"), []⟩ := by
  obtain ⟨plain, boundary, hplain, hfetch, hfetchPlain, -⟩ := side_band_transparent leftoverGix
    leftoverRepo framedRequest (fun _ => utf8 "PACK") ⟨none, some [3, 2, 1], true, true⟩
    (by decide +kernel)
  refine ⟨plain, boundary, hplain, ?_, hfetchPlain⟩
  have hmessage : progressMessage (utf8 "PACK") = "Total 0 objects, done.\n" := by decide +kernel
  rw [← hmessage]
  exact hfetch

end Edda.Git
