import Edda.Git.RequestFraming
import Edda.Git.ReceiveCommands
import Edda.Git.SideBand
import Edda.Support.TextWords

/-!
# What a client asks for

The body of a fetch request is a section of `want` lines, the first of which carries the
capabilities, with the `shallow` lines and the `deepen` line behind them; and then the `have` lines
and `done`. `UploadPackRequest.encode` is the body a client sends for a request.

`parsed_is_wellFormed`: whatever the body is, the request that is read from it is one that a client
can send. `request_round_trip`: such a request is read back from its body, and what follows a `done`
is not looked at.
-/

set_option autoImplicit false

namespace Edda.Git

open Edda.Support Edda.Support.RustText

/-! ## Sending -/

/-- The lines of the wants. Capabilities are sent on the first one. -/
def wantLines (capabilities : List String) : List ObjectId → List (List Char)
  | [] => []
  | id :: ids =>
    ("want ".toList ++ (id.toHex.toList ++ spaced (capabilities.map String.toList))) ::
      ids.map fun other => "want ".toList ++ other.toHex.toList

def deepenLines : Deepen → List (List Char)
  | .none => []
  | .depth limit => ["deepen ".toList ++ (toString limit).toList]
  | .since seconds => ["deepen-since ".toList ++ (toString seconds).toList]

/-- The lines before the flush. -/
def UploadPackRequest.wantSection (request : UploadPackRequest) : List (List Char) :=
  wantLines request.capabilities request.wants ++
    (request.shallow.map (fun id => "shallow ".toList ++ id.toHex.toList) ++
      deepenLines request.deepen)

def haveLine (id : ObjectId) : List Char := "have ".toList ++ id.toHex.toList

/-- The payload of a line. -/
def linePayload (line : List Char) : Bytes := utf8 (String.ofList line ++ "\n")

/-- A line of text as a packet. -/
def writeLine (line : List Char) : Bytes := writePktLine (linePayload line)

/-- The body that a client sends. -/
def UploadPackRequest.encode (request : UploadPackRequest) : Bytes :=
  request.wantSection.flatMap writeLine ++ (writeFlush ++
    ((request.haves.map haveLine).flatMap writeLine ++
      if request.done then writeLine "done".toList else []))

/-- What a client can ask for: capabilities are words, and are sent with a want; a depth is not
zero, and fits the integers that it is read as. -/
structure UploadPackRequest.WellFormed (request : UploadPackRequest) : Prop where
  words : ∀ cap ∈ request.capabilities, IsWord cap.toList
  carried : request.wants = [] → request.capabilities = []
  deepens : ∀ limit, request.deepen = .depth limit → 0 < limit ∧ limit < 2 ^ 32
  since : ∀ seconds, request.deepen = .since seconds →
    -(2 ^ 63 : Int) ≤ seconds ∧ seconds < 2 ^ 63

/-- The capabilities fit on the line of the first want. -/
def UploadPackRequest.Fits (request : UploadPackRequest) : Prop :=
  ∀ line ∈ wantLines request.capabilities request.wants,
    (linePayload line).length + 4 < 0x10000

/-! ## One line -/

section Lines

/-- What holds of the sixteen digits holds of the characters of a printed id. -/
theorem forall_mem_hexText {P : Char → Prop}
    (hdigit : ∀ d < 16, P (Char.ofNat (hexDigit d).toNat)) (width : Nat) :
    ∀ n, ∀ c ∈ hexText width n, P c := by
  induction width with
  | zero => exact fun _ c hc => absurd hc List.not_mem_nil
  | succ width ih =>
    intro n c hc
    rw [hexText, List.mem_append, List.mem_singleton] at hc
    rcases hc with hc | rfl
    · exact ih _ c hc
    · exact hdigit _ (Nat.mod_lt n (by decide))

theorem forall_mem_toHex {P : Char → Prop} (hdigit : ∀ d < 16, P (Char.ofNat (hexDigit d).toNat))
    (id : ObjectId) : ∀ c ∈ id.toHex.toList, P c := by
  rw [ObjectId.toHex, String.toList_ofList]
  exact forall_mem_hexText hdigit 40 _

theorem isWord_toHex (id : ObjectId) : IsWord id.toHex.toList where
  ne_nil := by
    apply List.ne_nil_of_length_pos
    rw [ObjectId.toHex, String.toList_ofList, length_hexText]
    decide
  solid := forall_mem_toHex (by decide) id

theorem oidOfText_toHex (id : ObjectId) : oidOfText id.toHex.toList = some id := by
  rw [oidOfText, String.ofList_toList, ObjectId.fromHex_toHex]

theorem toList_feed : "\n".toList = ['\n'] := by simp

/-- A line that ends in a word is read without its line feed. -/
theorem trimEnd_linePayload {front word : List Char} (hword : IsWord word) :
    trimEnd (fromUtf8Lossy (linePayload (front ++ word))) = front ++ word := by
  have hdecoded := decodeLossy_utf8 (String.ofList (front ++ word) ++ "\n") []
  rw [List.append_nil, decodeLossy, List.append_nil, String.toList_append, String.toList_ofList,
    toList_feed] at hdecoded
  rw [fromUtf8Lossy, linePayload, hdecoded, trimEnd_append_whitespace, hword.trimEnd_append]
  intro c hc
  obtain rfl := List.mem_singleton.1 hc
  decide

variable {request : UploadPackRequest} {id : ObjectId}

theorem toList_want : "want ".toList = ['w', 'a', 'n', 't', ' '] := by simp

theorem toList_shallow : "shallow ".toList = ['s', 'h', 'a', 'l', 'l', 'o', 'w', ' '] := by simp

theorem toList_deepen : "deepen ".toList = ['d', 'e', 'e', 'p', 'e', 'n', ' '] := by simp

theorem toList_deepenSince :
    "deepen-since ".toList = ['d', 'e', 'e', 'p', 'e', 'n', '-', 's', 'i', 'n', 'c', 'e', ' '] := by
  simp

/-- The last word of a line of words. -/
theorem exists_last_word {first : List Char} {words : List (List Char)} (hfirst : IsWord first)
    (hwords : ∀ word ∈ words, IsWord word) :
    ∃ front word, IsWord word ∧ first ++ spaced words = front ++ word := by
  induction words generalizing first with
  | nil => exact ⟨[], first, hfirst, by rw [spaced, List.flatMap_nil, List.append_nil,
      List.nil_append]⟩
  | cons next words ih =>
    obtain ⟨front, word, hword, heq⟩ := ih (hwords next List.mem_cons_self)
      (fun other hmem => hwords other (List.mem_cons_of_mem _ hmem))
    refine ⟨first ++ ' ' :: front, word, hword, ?_⟩
    rw [spaced, List.flatMap_cons, List.cons_append, List.append_assoc, List.cons_append, ← heq]
    rfl

/-- A `want` line is read with the words behind its id. -/
theorem readWantLine_want {capabilities : List String}
    (hwords : ∀ cap ∈ capabilities, IsWord cap.toList) :
    readWantLine request (linePayload
        ("want ".toList ++ (id.toHex.toList ++ spaced (capabilities.map String.toList)))) =
      { request with
        wants := request.wants ++ [id]
        capabilities := if request.wants.isEmpty then capabilities else request.capabilities } := by
  have hsplit := splitWhitespace_joined (isWord_toHex id)
    (List.forall_mem_map.2 hwords : ∀ word ∈ capabilities.map String.toList, IsWord word)
  obtain ⟨front, word, hword, heq⟩ := exists_last_word (isWord_toHex id)
    (List.forall_mem_map.2 hwords : ∀ word ∈ capabilities.map String.toList, IsWord word)
  have htrim := @trimEnd_linePayload ("want ".toList ++ front) word hword
  rw [List.append_assoc, ← heq] at htrim
  have htexts : (capabilities.map String.toList).map String.ofList = capabilities := by
    rw [List.map_map]
    exact List.map_id'' (fun cap => String.ofList_toList) capabilities
  simp only [readWantLine, htrim, stripPrefix_append, hsplit, oidOfText_toHex, htexts]

theorem readWantLine_shallow :
    readWantLine request (linePayload ("shallow ".toList ++ id.toHex.toList)) =
      { request with shallow := request.shallow ++ [id] } := by
  have htrim := @trimEnd_linePayload "shallow ".toList _ (isWord_toHex id)
  have hwant : stripPrefix "want ".toList ("shallow ".toList ++ id.toHex.toList) = none := by
    rw [toList_want, toList_shallow]
    rfl
  simp only [readWantLine, htrim, hwant, stripPrefix_append, (isWord_toHex id).trim, oidOfText_toHex]

theorem readWantLine_deepen {limit : Nat} (hpos : 0 < limit) (hlimit : limit < 2 ^ 32) :
    readWantLine request (linePayload ("deepen ".toList ++ (toString limit).toList)) =
      { request with deepen := .depth limit } := by
  have htrim := @trimEnd_linePayload "deepen ".toList _ (isWord_toString limit)
  have hothers : stripPrefix "want ".toList ("deepen ".toList ++ (toString limit).toList) = none ∧
      stripPrefix "shallow ".toList ("deepen ".toList ++ (toString limit).toList) = none ∧
      stripPrefix "deepen-since ".toList ("deepen ".toList ++ (toString limit).toList) = none := by
    rw [toList_want, toList_shallow, toList_deepen, toList_deepenSince]
    exact ⟨rfl, rfl, rfl⟩
  obtain ⟨hwant, hshallow, hsince⟩ := hothers
  simp only [readWantLine, htrim, hwant, hshallow, hsince, stripPrefix_append,
    (isWord_toString limit).trim, parseU32_toString hlimit, if_pos hpos]

theorem readWantLine_since {seconds : Int} (hlow : -(2 ^ 63 : Int) ≤ seconds)
    (hhigh : seconds < 2 ^ 63) :
    readWantLine request (linePayload ("deepen-since ".toList ++ (toString seconds).toList)) =
      { request with deepen := .since seconds } := by
  have htrim := @trimEnd_linePayload "deepen-since ".toList _ (isWord_toString_int seconds)
  have hothers :
      stripPrefix "want ".toList ("deepen-since ".toList ++ (toString seconds).toList) = none ∧
      stripPrefix "shallow ".toList ("deepen-since ".toList ++ (toString seconds).toList) = none := by
    rw [toList_want, toList_shallow, toList_deepenSince]
    exact ⟨rfl, rfl⟩
  have hread := parseI64_toString hlow hhigh
  obtain ⟨hwant, hshallow⟩ := hothers
  simp only [readWantLine, htrim, hwant, hshallow, stripPrefix_append,
    (isWord_toString_int seconds).trim, hread]

theorem parseOidLine_have : parseOidLine (linePayload (haveLine id)) "have " = some id := by
  have htrim := @trimEnd_linePayload "have ".toList _ (isWord_toHex id)
  simp only [parseOidLine, haveLine, htrim, stripPrefix_append, (isWord_toHex id).splitWhitespace,
    oidOfText_toHex]

theorem toList_have : "have ".toList = ['h', 'a', 'v', 'e', ' '] := by simp

theorem toList_done : "done".toList = ['d', 'o', 'n', 'e'] := by simp

theorem haveLine_ne_done : trimEnd (fromUtf8Lossy (linePayload (haveLine id))) ≠ "done".toList := by
  rw [haveLine, trimEnd_linePayload (isWord_toHex id), toList_done, toList_have]
  exact fun h => absurd (List.cons.inj h).1 (by decide)

theorem trimEnd_done : trimEnd (fromUtf8Lossy (linePayload "done".toList)) = "done".toList := by
  have hword : IsWord "done".toList := by
    rw [toList_done]
    refine ⟨by decide, ?_⟩
    intro c hc
    simp only [List.mem_cons, List.not_mem_nil, or_false] at hc
    rcases hc with rfl | rfl | rfl | rfl <;> decide
  have htrim := @trimEnd_linePayload [] "done".toList hword
  rwa [List.nil_append] at htrim

end Lines

/-! ## Sections -/

section Sections

variable {request : UploadPackRequest}

/-- The lines of the first section are read one after the other. -/
theorem readWants_lines {payloads : List Bytes}
    (hfits : ∀ payload ∈ payloads, payload.length + 4 < 0x10000) (rest : Bytes) {fuel : Nat}
    (hfuel : payloads.length < fuel) :
    readWants fuel request (payloads.flatMap writePktLine ++ (writeFlush ++ rest)) =
      (payloads.foldl readWantLine request, rest) := by
  induction payloads generalizing request fuel with
  | nil =>
    cases fuel with
    | zero => exact absurd hfuel (Nat.not_lt_zero _)
    | succ fuel =>
      simp only [List.flatMap_nil, List.nil_append, readWants, readPktLine_flush, List.foldl_nil]
  | cons payload payloads ih =>
    cases fuel with
    | zero => exact absurd hfuel (Nat.not_lt_zero _)
    | succ fuel =>
      have hread := readPktLine_writePktLine (hfits payload List.mem_cons_self)
        (payloads.flatMap writePktLine ++ (writeFlush ++ rest))
      have hrest := @ih (readWantLine request payload)
        (fun other hmem => hfits other (List.mem_cons_of_mem _ hmem)) fuel
        (Nat.lt_of_succ_lt_succ hfuel)
      simp only [List.flatMap_cons, List.append_assoc, readWants, hread, hrest, List.foldl_cons]

theorem linePayload_fits {word : String} (hword : word.toList.length ≤ 20) {text : List Char}
    (htext : text.length ≤ 40) :
    (linePayload (word.toList ++ text)).length + 4 < 0x10000 := by
  have hbytes := length_utf8_le (String.ofList (word.toList ++ text) ++ "\n")
  rw [String.toList_append, String.toList_ofList, List.length_append, List.length_append,
    toList_feed, List.length_singleton] at hbytes
  rw [linePayload]
  omega

theorem length_toHex (id : ObjectId) : id.toHex.toList.length = 40 := by
  rw [ObjectId.toHex, String.toList_ofList, length_hexText]

theorem haveLine_fits (id : ObjectId) : (linePayload (haveLine id)).length + 4 < 0x10000 :=
  linePayload_fits (by simp) (le_of_eq (length_toHex id))

theorem doneLine_fits : (linePayload "done".toList).length + 4 < 0x10000 := by
  have hfits := @linePayload_fits "done" (by simp) [] (Nat.zero_le _)
  rwa [List.append_nil] at hfits

/-- The `have` lines are read, and then `done`. -/
theorem readHaves_lines (haves : List ObjectId) (done : Bool) {fuel : Nat}
    (hfuel : haves.length + 1 < fuel) (hdone : request.done = false) :
    readHaves fuel request ((haves.map haveLine).flatMap writeLine ++
        if done then writeLine "done".toList else []) =
      { request with haves := request.haves ++ haves, done := done } := by
  induction haves generalizing request fuel with
  | nil =>
    obtain ⟨fuel, rfl⟩ : ∃ n, fuel = n + 1 := ⟨fuel - 1, by omega⟩
    cases done with
    | false =>
      have hend : readPktLine [] = none := rfl
      simp only [List.map_nil, List.flatMap_nil, Bool.false_eq_true, if_false, readHaves, hend,
        List.append_nil]
      rw [← hdone]
    | true =>
      have hread := readPktLine_writePktLine doneLine_fits []
      rw [List.append_nil] at hread
      simp only [List.map_nil, List.flatMap_nil, List.nil_append, if_true, writeLine, readHaves,
        hread, trimEnd_done, List.append_nil]
  | cons id haves ih =>
    obtain ⟨fuel, rfl⟩ : ∃ n, fuel = n + 1 := ⟨fuel - 1, by omega⟩
    have hread := readPktLine_writePktLine (haveLine_fits id) ((haves.map haveLine).flatMap writeLine ++
      if done then writeLine "done".toList else [])
    have hrest := @ih { request with haves := request.haves ++ [id] } fuel
      (by rw [List.length_cons] at hfuel; omega) hdone
    simp only [List.map_cons, List.flatMap_cons, List.append_assoc, writeLine] at hread hrest ⊢
    simp only [readHaves, hread, if_neg haveLine_ne_done, parseOidLine_have, hrest,
      List.singleton_append]

end Sections

/-! ## What is sent is read -/

section RoundTrip

variable {request : UploadPackRequest}

/-- The wants behind the first one. -/
theorem foldl_wants (ids : List ObjectId) (h : request.wants ≠ []) :
    (ids.map fun id => linePayload ("want ".toList ++ id.toHex.toList)).foldl readWantLine request =
      { request with wants := request.wants ++ ids } := by
  induction ids generalizing request with
  | nil => rw [List.map_nil, List.foldl_nil, List.append_nil]
  | cons id ids ih =>
    have hline := @readWantLine_want request id [] (fun _ h => absurd h List.not_mem_nil)
    have hsome : request.wants.isEmpty = false := List.isEmpty_eq_false_iff.2 h
    simp only [List.map_nil, spaced, List.flatMap_nil, List.append_nil, hsome, Bool.false_eq_true,
      if_false] at hline
    have hrest := @ih { request with wants := request.wants ++ [id] } (by simp)
    simp only [List.map_cons, List.foldl_cons, hline, hrest, List.append_assoc,
      List.singleton_append]

/-- The lines of the wants, with the capabilities. -/
theorem foldl_wantLines (hwords : ∀ cap ∈ request.capabilities, IsWord cap.toList)
    (hcarried : request.wants = [] → request.capabilities = []) :
    ((wantLines request.capabilities request.wants).map linePayload).foldl readWantLine
        ⟨[], [], [], [], .none, false⟩ =
      ⟨request.wants, [], request.capabilities, [], .none, false⟩ := by
  obtain ⟨wants, haves, capabilities, shallow, deepen, done⟩ := request
  simp only at hwords hcarried ⊢
  cases wants with
  | nil => rw [hcarried rfl, wantLines, List.map_nil, List.foldl_nil]
  | cons id ids =>
    have hline := @readWantLine_want ⟨[], [], [], [], .none, false⟩ id capabilities hwords
    have hrest := @foldl_wants ⟨[id], [], capabilities, [], .none, false⟩ ids (List.cons_ne_nil _ _)
    simp only [List.isEmpty_nil, if_true, List.nil_append] at hline
    simp only [wantLines, List.map_cons, List.foldl_cons, hline, List.map_map, Function.comp_def,
      hrest, List.singleton_append]

theorem foldl_shallow (ids : List ObjectId) :
    (ids.map fun id => linePayload ("shallow ".toList ++ id.toHex.toList)).foldl readWantLine
        request =
      { request with shallow := request.shallow ++ ids } := by
  induction ids generalizing request with
  | nil => rw [List.map_nil, List.foldl_nil, List.append_nil]
  | cons id ids ih =>
    simp only [List.map_cons, List.foldl_cons, readWantLine_shallow, ih, List.append_assoc,
      List.singleton_append]

theorem foldl_deepenLines {deepen : Deepen} (hnone : request.deepen = .none)
    (hdepth : ∀ limit, deepen = .depth limit → 0 < limit ∧ limit < 2 ^ 32)
    (hsince : ∀ seconds, deepen = .since seconds →
      -(2 ^ 63 : Int) ≤ seconds ∧ seconds < 2 ^ 63) :
    ((deepenLines deepen).map linePayload).foldl readWantLine request =
      { request with deepen := deepen } := by
  cases deepen with
  | none => rw [deepenLines, List.map_nil, List.foldl_nil, ← hnone]
  | depth limit =>
    obtain ⟨hpos, hlimit⟩ := hdepth limit rfl
    simp only [deepenLines, List.map_cons, List.map_nil, List.foldl_cons, List.foldl_nil,
      readWantLine_deepen hpos hlimit]
  | since seconds =>
    obtain ⟨hlow, hhigh⟩ := hsince seconds rfl
    simp only [deepenLines, List.map_cons, List.map_nil, List.foldl_cons, List.foldl_nil,
      readWantLine_since hlow hhigh]

/-- The lines before the flush, read from the start. -/
theorem foldl_wantSection (h : request.WellFormed) :
    (request.wantSection.map linePayload).foldl readWantLine ⟨[], [], [], [], .none, false⟩ =
      { request with haves := [], done := false } := by
  have hwants := foldl_wantLines h.words h.carried
  have hshallow := @foldl_shallow ⟨request.wants, [], request.capabilities, [], .none, false⟩
    request.shallow
  have hdeepen := @foldl_deepenLines
    ⟨request.wants, [], request.capabilities, request.shallow, .none, false⟩ request.deepen rfl
    h.deepens h.since
  simp only [List.nil_append] at hshallow
  simp only [UploadPackRequest.wantSection, List.map_append, List.foldl_append, hwants,
    List.map_map]
  rw [Function.comp_def, hshallow, hdeepen]

theorem length_toString_le {n : Nat} (hn : n < 2 ^ 64) : (toString n).toList.length ≤ 20 := by
  rw [toList_toString, Nat.length_toDigits_le_iff (by decide) (by decide)]
  exact hn.trans (by decide)

theorem deepenLines_fit {deepen : Deepen}
    (hdepth : ∀ limit, deepen = .depth limit → 0 < limit ∧ limit < 2 ^ 32)
    (hsince : ∀ seconds, deepen = .since seconds →
      -(2 ^ 63 : Int) ≤ seconds ∧ seconds < 2 ^ 63) :
    ∀ line ∈ deepenLines deepen, (linePayload line).length + 4 < 0x10000 := by
  intro line hline
  cases deepen with
  | none => exact absurd hline List.not_mem_nil
  | depth limit =>
    obtain rfl := List.mem_singleton.1 hline
    have hdigits := length_toString_le ((hdepth limit rfl).2.trans (by decide))
    exact linePayload_fits (by simp) (hdigits.trans (by decide))
  | since seconds =>
    obtain rfl := List.mem_singleton.1 hline
    obtain ⟨hlow, hhigh⟩ := hsince seconds rfl
    apply linePayload_fits (by simp)
    cases seconds with
    | ofNat n =>
      have hdigits := @length_toString_le n (by simp only [Int.ofNat_eq_natCast] at hhigh; omega)
      exact hdigits.trans (by decide)
    | negSucc n =>
      have hdigits := @length_toString_le (n + 1) (by omega)
      rw [toList_toString_negSucc, List.length_cons]
      omega

theorem wantSection_fits (h : request.WellFormed) (hfits : request.Fits) :
    ∀ payload ∈ request.wantSection.map linePayload, payload.length + 4 < 0x10000 := by
  intro payload hmem
  obtain ⟨line, hline, rfl⟩ := List.mem_map.1 hmem
  rw [UploadPackRequest.wantSection, List.mem_append, List.mem_append] at hline
  rcases hline with hline | hline | hline
  · exact hfits line hline
  · obtain ⟨id, -, rfl⟩ := List.mem_map.1 hline
    exact linePayload_fits (by simp) (le_of_eq (length_toHex id))
  · exact deepenLines_fit h.deepens h.since line hline

theorem flatMap_writeLine (lines : List (List Char)) :
    lines.flatMap writeLine = (lines.map linePayload).flatMap writePktLine := by
  rw [List.flatMap_map]
  rfl

theorem encode_eq (request : UploadPackRequest) :
    request.encode = (request.wantSection.map linePayload).flatMap writePktLine ++ (writeFlush ++
      ((request.haves.map haveLine).flatMap writeLine ++
        if request.done then writeLine "done".toList else [])) := by
  rw [UploadPackRequest.encode, flatMap_writeLine request.wantSection]

/-- Each line takes four bytes at least. -/
theorem length_le_flatMap_writePktLine (payloads : List Bytes) :
    4 * payloads.length ≤ (payloads.flatMap writePktLine).length := by
  induction payloads with
  | nil => exact Nat.le_refl 0
  | cons payload payloads ih =>
    have hfour := four_le_length_writePktLine payload
    rw [List.flatMap_cons, List.length_append, List.length_cons]
    omega

theorem length_lt_encode (request : UploadPackRequest) :
    request.wantSection.length + request.haves.length + 1 < request.encode.length := by
  have hflush : writeFlush.length = 4 := by decide
  have hwants := length_le_flatMap_writePktLine (request.wantSection.map linePayload)
  have hhaves := length_le_flatMap_writePktLine ((request.haves.map haveLine).map linePayload)
  rw [encode_eq, flatMap_writeLine (request.haves.map haveLine)]
  simp only [List.length_append, List.length_map, hflush] at hwants hhaves ⊢
  omega

/-- A request is read back from its body. -/
theorem parse_encode (h : request.WellFormed) (hfits : request.Fits) :
    parseUploadPackRequest request.encode = request := by
  have hlength := length_lt_encode request
  have hwants := @readWants_lines ⟨[], [], [], [], .none, false⟩ _ (wantSection_fits h hfits)
    ((request.haves.map haveLine).flatMap writeLine ++
      if request.done then writeLine "done".toList else []) request.encode.length
    (by rw [List.length_map]; omega)
  rw [← encode_eq, foldl_wantSection h] at hwants
  have hhaves := @readHaves_lines { request with haves := [], done := false } request.haves
    request.done request.encode.length (by omega) rfl
  simp only [parseUploadPackRequest, hwants, hhaves, List.nil_append]

end RoundTrip

/-! ## What is read can be sent -/

section WellFormed

variable {request : UploadPackRequest}

theorem wellFormed_readWantLine (h : request.WellFormed) (data : Bytes) :
    (readWantLine request data).WellFormed := by
  obtain ⟨hwords, hcarried, hdeepens, hsince⟩ := h
  unfold readWantLine
  extract_lets text
  cases stripPrefix "want ".toList text with
  | some rest =>
    simp only
    cases hsplit : splitWhitespace rest with
    | nil => exact ⟨hwords, hcarried, hdeepens, hsince⟩
    | cons first fields =>
      simp only
      cases oidOfText first with
      | none => exact ⟨hwords, hcarried, hdeepens, hsince⟩
      | some id =>
        refine ⟨?_, fun hnil => absurd hnil (by simp), hdeepens, hsince⟩
        intro cap hcap
        simp only at hcap
        split at hcap
        · obtain ⟨field, hfield, rfl⟩ := List.mem_map.1 hcap
          rw [String.toList_ofList]
          apply isWord_of_mem_splitWhitespace
          rw [hsplit]
          exact List.mem_cons_of_mem _ hfield
        · exact hwords cap hcap
  | none =>
    simp only
    cases stripPrefix "shallow ".toList text with
    | some rest =>
      simp only
      cases oidOfText (trim rest) with
      | none => exact ⟨hwords, hcarried, hdeepens, hsince⟩
      | some id => exact ⟨hwords, hcarried, hdeepens, hsince⟩
    | none =>
      simp only
      cases stripPrefix "deepen-since ".toList text with
      | some rest =>
        simp only
        cases hseconds : parseI64 (trim rest) with
        | none => exact ⟨hwords, hcarried, hdeepens, hsince⟩
        | some seconds =>
          refine ⟨hwords, hcarried, fun _ heq => (nomatch heq), ?_⟩
          intro other heq
          obtain rfl := Deepen.since.inj heq
          exact range_of_parseI64 hseconds
      | none =>
        simp only
        cases stripPrefix "deepen ".toList text with
        | none => exact ⟨hwords, hcarried, hdeepens, hsince⟩
        | some rest =>
          simp only
          cases hdepth : parseU32 (trim rest) with
          | none => exact ⟨hwords, hcarried, hdeepens, hsince⟩
          | some depth =>
            simp only
            split
            · rename_i hpos
              refine ⟨hwords, hcarried, ?_, fun _ heq => (nomatch heq)⟩
              intro limit heq
              obtain rfl := Deepen.depth.inj heq
              exact ⟨hpos, lt_of_parseU32 hdepth⟩
            · exact ⟨hwords, hcarried, hdeepens, hsince⟩

theorem wellFormed_readWants (h : request.WellFormed) (fuel : Nat) (body : Bytes) :
    (readWants fuel request body).1.WellFormed := by
  induction fuel generalizing request body with
  | zero => exact h
  | succ fuel ih =>
    unfold readWants
    cases readPktLine body with
    | none => exact h
    | some read =>
      obtain ⟨line, rest⟩ := read
      cases line with
      | flush => exact h
      | data data => exact ih (wellFormed_readWantLine h data) rest

/-- The second section adds haves and `done` only. -/
theorem wellFormed_readHaves (h : request.WellFormed) (fuel : Nat) (body : Bytes) :
    (readHaves fuel request body).WellFormed := by
  induction fuel generalizing request body with
  | zero => exact h
  | succ fuel ih =>
    unfold readHaves
    cases readPktLine body with
    | none => exact h
    | some read =>
      obtain ⟨line, rest⟩ := read
      cases line with
      | flush => exact ih h rest
      | data data =>
        simp only
        split
        · exact ⟨h.words, h.carried, h.deepens, h.since⟩
        · cases parseOidLine data "have " with
          | none => exact ih h rest
          | some id =>
            exact @ih { request with haves := request.haves ++ [id] }
              ⟨h.words, h.carried, h.deepens, h.since⟩ rest

theorem parsed_is_wellFormed (body : Bytes) : (parseUploadPackRequest body).WellFormed := by
  have hstart : (⟨[], [], [], [], .none, false⟩ : UploadPackRequest).WellFormed :=
    ⟨fun _ h => absurd h List.not_mem_nil, fun _ => rfl, fun _ heq => (nomatch heq),
      fun _ heq => (nomatch heq)⟩
  exact wellFormed_readHaves (wellFormed_readWants hstart _ _) _ _

end WellFormed

/-! ## A body that has not arrived in full -/

section Cut

/-- Where a text in two parts is cut. -/
theorem prefix_append_cases {cut front rest : Bytes} (h : cut <+: front ++ rest) :
    (cut <+: front ∧ cut ≠ front) ∨ ∃ tail, cut = front ++ tail ∧ tail <+: rest := by
  rcases List.prefix_or_prefix_of_prefix h (List.prefix_append front rest) with hcut | hfront
  · by_cases heq : cut = front
    · exact Or.inr ⟨[], by rw [heq, List.append_nil], List.nil_prefix⟩
    · exact Or.inl ⟨hcut, heq⟩
  · obtain ⟨tail, rfl⟩ := hfront
    exact Or.inr ⟨tail, rfl, (List.prefix_append_right_inj front).1 h⟩

/-- A section that is cut before the end of its flush packet has no flush packet. -/
theorem afterFlush_cut {payloads : List Bytes}
    (hfits : ∀ payload ∈ payloads, payload.length + 4 < 0x10000) {cut rest behind : Bytes}
    {fuel : Nat} (hcut : cut <+: payloads.flatMap writePktLine ++ (writeFlush ++ rest))
    (hflush : afterFlush fuel cut = some behind) :
    cut = payloads.flatMap writePktLine ++ (writeFlush ++ behind) ∧ behind <+: rest := by
  induction payloads generalizing cut fuel with
  | nil =>
    obtain ⟨fuel, rfl⟩ : ∃ n, fuel = n + 1 := by
      cases fuel with
      | zero => exact absurd hflush (by simp [afterFlush])
      | succ fuel => exact ⟨fuel, rfl⟩
    rw [List.flatMap_nil, List.nil_append] at hcut
    rcases prefix_append_cases hcut with ⟨hshort, hne⟩ | ⟨tail, rfl, htail⟩
    · simp only [afterFlush, readPktLine_cut_flush hshort hne] at hflush
      exact absurd hflush (by simp)
    · simp only [afterFlush, readPktLine_flush] at hflush
      obtain rfl := Option.some.inj hflush
      exact ⟨rfl, htail⟩
  | cons payload payloads ih =>
    obtain ⟨fuel, rfl⟩ : ∃ n, fuel = n + 1 := by
      cases fuel with
      | zero => exact absurd hflush (by simp [afterFlush])
      | succ fuel => exact ⟨fuel, rfl⟩
    have hpayload := hfits payload List.mem_cons_self
    rw [List.flatMap_cons, List.append_assoc] at hcut
    rcases prefix_append_cases hcut with ⟨hshort, hne⟩ | ⟨tail, rfl, htail⟩
    · simp only [afterFlush, readPktLine_cut hpayload hshort hne] at hflush
      exact absurd hflush (by simp)
    · simp only [afterFlush, readPktLine_writePktLine hpayload] at hflush
      obtain ⟨heq, hbehind⟩ := ih (fun other hmem => hfits other (List.mem_cons_of_mem _ hmem))
        htail hflush
      refine ⟨?_, hbehind⟩
      rw [List.flatMap_cons, List.append_assoc, ← heq]

/-- `done` is found where the last line has arrived in full. -/
theorem reachesDone_cut {payloads : List Bytes} {last : Bytes}
    (hfits : ∀ payload ∈ payloads, payload.length + 4 < 0x10000)
    (hlast : last.length + 4 < 0x10000)
    (hnot : ∀ payload ∈ payloads, trimEnd (fromUtf8Lossy payload) ≠ "done".toList)
    {cut : Bytes} {fuel : Nat}
    (hcut : cut <+: payloads.flatMap writePktLine ++ writePktLine last)
    (hdone : reachesDone fuel cut = true) :
    cut = payloads.flatMap writePktLine ++ writePktLine last := by
  induction payloads generalizing cut fuel with
  | nil =>
    rw [List.flatMap_nil, List.nil_append] at hcut ⊢
    by_contra hne
    rw [reachesDone_unreadable (readPktLine_cut hlast hcut hne)] at hdone
    exact Bool.false_ne_true hdone
  | cons payload payloads ih =>
    have hpayload := hfits payload List.mem_cons_self
    rw [List.flatMap_cons, List.append_assoc] at hcut ⊢
    rcases prefix_append_cases hcut with ⟨hshort, hne⟩ | ⟨tail, rfl, htail⟩
    · rw [reachesDone_unreadable (readPktLine_cut hpayload hshort hne)] at hdone
      exact absurd hdone Bool.false_ne_true
    · cases fuel with
      | zero => exact absurd hdone Bool.false_ne_true
      | succ fuel =>
        simp only [reachesDone, readPktLine_writePktLine hpayload,
          if_neg (hnot payload List.mem_cons_self)] at hdone
        rw [ih (fun other hmem => hfits other (List.mem_cons_of_mem _ hmem))
          (fun other hmem => hnot other (List.mem_cons_of_mem _ hmem)) htail hdone]

variable {request : UploadPackRequest}

/-- What has arrived of a body is complete when all of it has arrived, and it ends in `done`. -/
theorem isComplete_cut_iff (h : request.WellFormed) (hfits : request.Fits) {cut : Bytes}
    (hcut : cut <+: request.encode) :
    uploadPackRequestIsComplete cut = true ↔ cut = request.encode ∧ request.done = true := by
  constructor
  · intro hcomplete
    obtain ⟨suffix, hsuffix⟩ := hcut
    have hparse := (parseUploadPackRequest_append hcomplete suffix).2
    rw [hsuffix, parse_encode h hfits] at hparse
    have hdone : request.done = true := by rw [hparse, ← isComplete_eq_done, hcomplete]
    refine ⟨?_, hdone⟩
    have hcut : cut <+: request.encode := ⟨suffix, hsuffix⟩
    rw [encode_eq, hdone, if_pos rfl] at hcut ⊢
    unfold uploadPackRequestIsComplete at hcomplete
    cases hflush : afterFlush cut.length cut with
    | none => simp [hflush] at hcomplete
    | some behind =>
      simp only [hflush] at hcomplete
      obtain ⟨heq, hbehind⟩ := afterFlush_cut (wantSection_fits h hfits) hcut hflush
      rw [flatMap_writeLine (request.haves.map haveLine)] at hbehind ⊢
      have hlines : ∀ payload ∈ (request.haves.map haveLine).map linePayload,
          payload.length + 4 < 0x10000 ∧
            trimEnd (fromUtf8Lossy payload) ≠ "done".toList := by
        intro payload hmem
        obtain ⟨line, hline, rfl⟩ := List.mem_map.1 hmem
        obtain ⟨id, -, rfl⟩ := List.mem_map.1 hline
        exact ⟨haveLine_fits id, haveLine_ne_done⟩
      have hall := reachesDone_cut (fun payload hmem => (hlines payload hmem).1) doneLine_fits
        (fun payload hmem => (hlines payload hmem).2) hbehind hcomplete
      rw [heq, hall, writeLine]
  · rintro ⟨rfl, hdone⟩
    rw [isComplete_eq_done, parse_encode h hfits, hdone]

end Cut

/-- Every body is read as a request that a client can send. A request that a client can send is
read back from its body; the body is complete when it has arrived in full with its `done`, not
earlier, and what follows it is not looked at. -/
theorem upload_request_exact :
    (∀ body, (parseUploadPackRequest body).WellFormed) ∧
      ∀ request : UploadPackRequest, request.WellFormed → request.Fits →
        parseUploadPackRequest request.encode = request ∧
        (∀ cut, cut <+: request.encode →
          (uploadPackRequestIsComplete cut = true ↔
            cut = request.encode ∧ request.done = true)) ∧
        (request.done = true → ∀ suffix,
          uploadPackRequestIsComplete (request.encode ++ suffix) = true ∧
            parseUploadPackRequest (request.encode ++ suffix) = request) := by
  refine ⟨parsed_is_wellFormed, ?_⟩
  intro request h hfits
  have hparse := parse_encode h hfits
  refine ⟨hparse, fun cut hcut => isComplete_cut_iff h hfits hcut, ?_⟩
  intro hdone suffix
  have hcomplete := (isComplete_cut_iff h hfits (List.prefix_refl _)).2 ⟨rfl, hdone⟩
  obtain ⟨hwhole, hsame⟩ := parseUploadPackRequest_append hcomplete suffix
  exact ⟨hwhole, hsame.trans hparse⟩

end Edda.Git
