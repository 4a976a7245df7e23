import Edda.Git.Pack
import Edda.Git.Resolve

/-!
# Upload-pack

A fetch reads the advertisement, the refs of the repository with the ids they hold, and sends a
request: the ids it wants, the ids it has, and how deep it fetches. The server answers with what
the wants reach and the haves do not.

The wants are looked up in the store and in nothing else. The advertisement has no part in what is
served (`unadvertised_commit_is_served`); what is served is what the wants reach
(`runUploadPack_serves_wants`).
-/

set_option autoImplicit false

namespace Edda.Git

open Edda.Support Edda.Support.Worklist Edda.Support.RustText

/-! ## The advertisement -/

section Advertisement

variable (gix : Gix)

/-- What an object id leads to through annotated tags. -/
def peelTags (store : Store) : Nat → ObjectId → Except GitError ObjectId
  | 0, id => .error (.git ("Could not peel " ++ id.toHex))
  | depth + 1, id => match findObject gix.content store id with
    | .error err => .error err
    | .ok (.tag none) => .error decodeError
    | .ok (.tag (some tag)) => peelTags store depth tag.target
    | .ok _ => .ok id

/-- The object a ref leads to (`peel_to_id`). -/
def peelToId (state : Repo) (refName : String) : Except GitError ObjectId :=
  match followRef gix state.refs maxRefDepth refName with
  | .error err => .error err
  | .ok id => peelTags gix (state.objects gix) ((state.objects gix).length + 1) id

/-- `refs/tags/`. -/
def tagsPrefix : List Char := "refs/tags/".toList

/-- The refs below `dir` that hold an object id, sorted: their names after `dir`, and the ids. -/
def directRefs (refs : RefStore) (dir : List Char) : List (ObjectId × String) :=
  (refs.keys.insertionSort (fun a b => a ≤ b)).filterMap fun name =>
    match stripPrefix dir name.toList, refs.lookup name with
    | some short, some (.object id) => some (id, String.ofList short)
    | _, _ => none

/-- The object that `HEAD` is advertised with: the one it leads to, or the tip of the branch that
stands in for it. -/
def advertisedHead (state : Repo) : Option ObjectId :=
  match peelToId gix state "HEAD" with
  | .ok id => some id
  | .error _ =>
    let branches := directRefs state.refs headsPrefix
    (pickDefaultBranch (branches.map Prod.snd)).bind fun chosen =>
      (branches.find? fun branch => branch.2 = chosen).map Prod.fst

/-- The lines of one tag: an annotated tag has a second one, with what it peels to. A tag that
cannot be peeled has none. -/
def tagLines (state : Repo) (tag : ObjectId × String) : List (ObjectId × String) :=
  match peelToId gix state ("refs/tags/" ++ tag.2) with
  | .error _ => []
  | .ok peeled =>
    (tag.1, "refs/tags/" ++ tag.2) ::
      if tag.1 = peeled then [] else [(peeled, "refs/tags/" ++ tag.2 ++ "^\x7b\x7d")]

def advertisedRefs (state : Repo) : List (ObjectId × String) :=
  ((advertisedHead gix state).toList.map fun id => (id, "HEAD")) ++
    ((directRefs state.refs headsPrefix).map fun branch =>
      (branch.1, "refs/heads/" ++ branch.2)) ++
    (directRefs state.refs tagsPrefix).flatMap (tagLines gix state)

end Advertisement

/-! ## The request -/

structure UploadPackRequest where
  wants : List ObjectId
  haves : List ObjectId
  capabilities : List String
  shallow : List ObjectId
  deepen : Deepen
  done : Bool
  deriving DecidableEq, Repr

def UploadPackRequest.wantsSideBand64k (request : UploadPackRequest) : Bool :=
  request.capabilities.any fun cap => cap == "side-band-64k"

def UploadPackRequest.wantsProgress (request : UploadPackRequest) : Bool :=
  !request.capabilities.any fun cap => cap == "no-progress"

/-- An id in hexadecimal digits. -/
def oidOfText (text : List Char) : Option ObjectId := ObjectId.fromHex (String.ofList text)

/-- Reads one line of the first section. Capabilities follow the id of the first want. -/
def readWantLine (request : UploadPackRequest) (data : Bytes) : UploadPackRequest :=
  let text := trimEnd (fromUtf8Lossy data)
  match stripPrefix "want ".toList text with
  | some rest => match splitWhitespace rest with
    | [] => request
    | first :: fields => match oidOfText first with
      | none => request
      | some id =>
        { request with
          wants := request.wants ++ [id]
          capabilities :=
            if request.wants.isEmpty then fields.map String.ofList else request.capabilities }
  | none => match stripPrefix "shallow ".toList text with
    | some rest => match oidOfText (trim rest) with
      | none => request
      | some id => { request with shallow := request.shallow ++ [id] }
    | none => match stripPrefix "deepen-since ".toList text with
      | some rest => match parseI64 (trim rest) with
        | none => request
        | some seconds => { request with deepen := .since seconds }
      | none => match stripPrefix "deepen ".toList text with
        | some rest => match parseU32 (trim rest) with
          | none => request
          | some depth => if 0 < depth then { request with deepen := .depth depth } else request
        | none => request

/-- Reads the first section, up to a flush packet or to where no packet can be read. -/
def readWants : Nat → UploadPackRequest → Bytes → UploadPackRequest × Bytes
  | 0, request, body => (request, body)
  | fuel + 1, request, body => match readPktLine body with
    | none => (request, body)
    | some (.flush, rest) => (request, rest)
    | some (.data data, rest) => readWants fuel (readWantLine request data) rest

def parseOidLine (data : Bytes) (word : String) : Option ObjectId :=
  match stripPrefix word.toList (trimEnd (fromUtf8Lossy data)) with
  | none => none
  | some rest => match splitWhitespace rest with
    | [] => none
    | first :: _ => oidOfText first

/-- Reads the second section, up to a `done` line or to where no packet can be read. -/
def readHaves : Nat → UploadPackRequest → Bytes → UploadPackRequest
  | 0, request, _ => request
  | fuel + 1, request, body => match readPktLine body with
    | none => request
    | some (.flush, rest) => readHaves fuel request rest
    | some (.data data, rest) =>
      if trimEnd (fromUtf8Lossy data) = "done".toList then { request with done := true }
      else match parseOidLine data "have " with
        | none => readHaves fuel request rest
        | some id => readHaves fuel { request with haves := request.haves ++ [id] } rest

/-- Every packet takes a byte at least, so the body is read to its end. -/
def parseUploadPackRequest (body : Bytes) : UploadPackRequest :=
  let (request, rest) := readWants body.length ⟨[], [], [], [], .none, false⟩ body
  readHaves body.length request rest

/-! ## The response -/

/-- What a fetch is answered with: the shallow boundary, as new and as former boundary commits, if
the fetch is bounded; and the pack, unless the request only asks for the boundary. -/
structure UploadPackResponse where
  boundary : Option (List ObjectId × List ObjectId)
  pack : Option (List ObjectId)
  sideBand : Bool
  withProgress : Bool
  deriving DecidableEq, Repr

/-- The objects that a response carries. -/
def UploadPackResponse.sent (response : UploadPackResponse) : List ObjectId :=
  response.pack.getD []

/-- The empty answer to a request without wants. -/
def UploadPackResponse.probe : UploadPackResponse := ⟨none, none, false, false⟩

def maxDataPerPacket : Nat := 65515

def writeBand (band : UInt8) (payload : Bytes) : Bytes := writePktLine (band :: payload)

/-- The pack on channel 1. -/
def writePackData (pack : Bytes) : Bytes :=
  (pack.toChunks maxDataPerPacket).flatMap (writeBand 1)

/-- A message on channel 2. -/
def writeProgress (message : String) : Bytes := writeBand 2 (utf8 message)

/-- The number of objects in the header of a pack. -/
def packObjectCount (pack : Bytes) : Nat :=
  match (pack.drop 8).take 4 with
  | [a, b, c, d] => ((a.toNat * 256 + b.toNat) * 256 + c.toNat) * 256 + d.toNat
  | _ => 0

/-- The bytes of a response, where `serializePack` gives those of a pack. -/
def UploadPackResponse.write (serializePack : List ObjectId → Bytes)
    (response : UploadPackResponse) : Bytes :=
  (match response.boundary with
    | none => []
    | some (newShallow, unshallow) =>
      (newShallow.flatMap fun id => writePktLine (utf8 ("shallow " ++ id.toHex ++ "\n"))) ++
        (unshallow.flatMap fun id => writePktLine (utf8 ("unshallow " ++ id.toHex ++ "\n"))) ++
        writeFlush) ++
  match response.pack with
  | none => []
  | some ids =>
    let pack := serializePack ids
    writePktLine (utf8 "NAK\n") ++
      if response.sideBand then
        (if response.withProgress then
          writeProgress ("Total " ++ toString (packObjectCount pack) ++ " objects, done.\n")
          else []) ++
          writePackData pack ++ writeFlush
      else pack

section Serve

variable (gix : Gix)

def buildUploadPackResponse (state : Repo) (request : UploadPackRequest) :
    Except GitError UploadPackResponse :=
  match buildShallowPack gix.content (state.objects gix) request.wants request.haves
      ⟨request.shallow, request.deepen⟩ with
  | .error err => .error err
  | .ok built => .ok {
      boundary := if request.deepen = .none then none else some (built.newShallow, built.unshallow)
      pack := if request.deepen ≠ .none ∧ request.done = false then none else some built.pack
      sideBand := request.wantsSideBand64k
      withProgress := request.wantsSideBand64k && request.wantsProgress }

/-- Answers a request body; a body without wants is a probe. -/
def runUploadPack (state : Repo) (body : Bytes) : Except GitError UploadPackResponse :=
  let request := parseUploadPackRequest body
  if request.wants.isEmpty then .ok .probe
  else buildUploadPackResponse gix state request

/-! ## What is served -/

/-- A response that carries an object was built from a pack that holds it. -/
theorem exists_pack_of_sent {state : Repo} {body : Bytes} {response : UploadPackResponse}
    (h : runUploadPack gix state body = .ok response) {id : ObjectId} (hid : id ∈ response.sent) :
    ∃ built, buildShallowPack gix.content (state.objects gix) (parseUploadPackRequest body).wants
        (parseUploadPackRequest body).haves
        ⟨(parseUploadPackRequest body).shallow, (parseUploadPackRequest body).deepen⟩ = .ok built ∧
      id ∈ built.pack := by
  simp only [runUploadPack] at h
  split at h
  · obtain rfl := Except.ok.inj h
    simp [UploadPackResponse.sent, UploadPackResponse.probe] at hid
  · simp only [buildUploadPackResponse] at h
    split at h
    · exact absurd h (by simp)
    · rename_i built hbuilt
      obtain rfl := Except.ok.inj h
      refine ⟨built, hbuilt, ?_⟩
      simp only [UploadPackResponse.sent] at hid
      split at hid
      · simp at hid
      · exact hid

/-- What upload-pack discloses. A response carries stored objects that a want of the request
reaches; so it stays within the history of the advertised refs when every want is advertised. A
want that is not stored, and that no have reaches, is answered with an error. -/
theorem runUploadPack_serves_wants (state : Repo) (body : Bytes) :
    (∀ response, runUploadPack gix state body = .ok response → ∀ id ∈ response.sent,
      id ∈ state.objects gix ∧
        ReachableFrom gix.content (parseUploadPackRequest body).wants id ∧
        ((∀ want ∈ (parseUploadPackRequest body).wants,
            want ∈ (advertisedRefs gix state).map Prod.fst) →
          ReachableFrom gix.content ((advertisedRefs gix state).map Prod.fst) id)) ∧
      ∀ want ∈ (parseUploadPackRequest body).wants, want ∉ state.objects gix →
        ¬ Had gix.content (state.objects gix) (parseUploadPackRequest body).haves want →
        ∃ err, runUploadPack gix state body = .error err := by
  constructor
  · intro response hresponse id hid
    obtain ⟨built, hbuilt, hpacked⟩ := exists_pack_of_sent gix hresponse hid
    obtain ⟨hstored, want, hwant, hreach⟩ := served_of_mem_pack gix.content _ hbuilt hpacked
    refine ⟨hstored, ⟨want, hwant, hreach⟩, ?_⟩
    intro hadvertised
    exact ⟨want, hadvertised want hwant, hreach⟩
  · intro want hwant hmissing hunknown
    have hsome : ¬ (parseUploadPackRequest body).wants.isEmpty = true := by
      intro hempty
      rw [List.isEmpty_iff.1 hempty] at hwant
      simp at hwant
    simp only [runUploadPack, if_neg hsome, buildUploadPackResponse]
    split
    · exact ⟨_, rfl⟩
    · rename_i built hbuilt
      -- a fetch that succeeds found the want
      rcases want_stored gix.content _ hbuilt hwant with hhad | hstored
      · exact absurd hhad hunknown
      · exact absurd hstored hmissing

end Serve

/-! ## A commit that no ref leads to -/

/-- The commit 1 is the tip of `main`; the commit 3, with the same tree, is left over from a
branch that was deleted. -/
def leftoverGix : Gix where
  content := fun id =>
    if id = 1 then plainCommit 2 []
    else if id = 3 then plainCommit 2 [1]
    else if id = 2 then .tree (some [])
    else .blob []
  packObjects := fun _ => []
  writeToDirectory := fun _ _ => .error "bad header"
  validateRefName := fun _ => none
  debug := fun text => "\"" ++ text ++ "\""
  transactionError := fun _ _ => "the reference has moved"
  ioError := "input/output error"

def leftoverRepo : Repo where
  disk := ⟨[1, 2, 3], [], []⟩
  refs := (∅ : RefStore).insert "refs/heads/main" (.object 1)

/-- A request for the commit 3. -/
def wantLeftover : Bytes :=
  writePktLine (utf8 "want 0000000000000000000000000000000000000003\n") ++ writeFlush ++
    writePktLine (utf8 "done\n")

/-- The commit 3 is served, though nothing that is advertised reaches it. -/
theorem unadvertised_commit_is_served :
    ¬ ∀ (gix : Gix) (state : Repo) (body : Bytes),
      (∀ response, runUploadPack gix state body = .ok response → ∀ id ∈ response.sent,
        ReachableFrom gix.content ((advertisedRefs gix state).map Prod.fst) id) ∧
      ∀ want ∈ (parseUploadPackRequest body).wants,
        ¬ ReachableFrom gix.content ((advertisedRefs gix state).map Prod.fst) want →
        ∃ err, runUploadPack gix state body = .error err := by
  intro h
  have hrun : runUploadPack leftoverGix leftoverRepo wantLeftover =
      .ok ⟨none, some [3, 2, 1], false, false⟩ := by decide +kernel
  have hrefs : (advertisedRefs leftoverGix leftoverRepo).map Prod.fst = [1, 1] := by
    decide +kernel
  obtain ⟨tip, htip, hreach⟩ :=
    (h leftoverGix leftoverRepo wantLeftover).1 _ hrun 3 (by simp [UploadPackResponse.sent])
  rw [hrefs] at htip
  obtain rfl : tip = 1 := by simpa using htip
  -- the commit 1 reaches itself and its tree
  have hbelow : ∀ id, Reachable leftoverGix.content 1 id → id = 1 ∨ id = 2 := by
    intro id hid
    induction hid with
    | refl => exact Or.inl rfl
    | tail _ hbc ih =>
      obtain ⟨ids, hids, hmem⟩ := hbc
      rcases ih with rfl | rfl
      · obtain rfl := Except.ok.inj hids
        exact Or.inr (List.mem_singleton.1 hmem)
      · obtain rfl := Except.ok.inj hids
        simp at hmem
  rcases hbelow 3 hreach with h3 | h3
  · exact absurd h3 (by decide)
  · exact absurd h3 (by decide)

end Edda.Git
