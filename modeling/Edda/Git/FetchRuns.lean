import Edda.Git.Advertisement
import Edda.Git.Connectivity
import Edda.Git.PackExact
import Edda.Git.PackFile

/-!
# Clones and pushes in any order

Clients clone a repository and fetch from it while others push. A client sends the ids it wants and
ids it has; the server answers with a pack, and the client keeps the objects of the pack besides
those it had. Nothing is agreed on beforehand: pushes of others can come between the advertisement
that a client has read and its request.

`clones_keep_up` is about every run of such events. Every clone holds objects as the server stores
them, bit for bit, and with an object everything that it refers to. A fetch that is answered leaves
the clone with all that its wants reach, and sends nothing that its haves lead to. A fetch of what
the refs reach at that moment is answered.
-/

set_option autoImplicit false

namespace Edda.Git

open Edda.Support Edda.Support.Worklist Edda.Support.RustText Edda.Support.Varint

section FetchRuns

variable (gix : Gix) (codec : PackCodec) (raw : ObjectId → Kind × Bytes)

/-! ## The server -/

/-- The bytes that a request body is answered with, where `raw` gives the bytes of the stored
objects. The pack is written before it is decided whether it is sent. -/
def uploadPack (state : Repo) (body : Bytes) : Except GitError Bytes :=
  let request := parseUploadPackRequest body
  if request.wants.isEmpty then .ok []
  else match buildShallowPack gix.content (state.objects gix) request.wants request.haves
      ⟨request.shallow, request.deepen⟩ with
  | .error err => .error err
  | .ok built => match serializePack codec (built.pack.map raw) with
    | .error err => .error err
    | .ok pack =>
      (buildUploadPackResponse gix state request).map fun response => response.write fun _ => pack

/-- What is assumed of a store: objects are stored under their hashes, none is larger than a buffer
can be, and they can be counted in a pack. -/
structure Stores (state : Repo) : Prop where
  addressed : ∀ id ∈ state.objects gix, objectId codec (raw id).1 (raw id).2 = .ok id
  sized : ∀ id ∈ state.objects gix, (raw id).2.length ≤ maxIsize
  counted : (state.objects gix).length < 2 ^ 32

/-! ## The clients -/

/-- The objects of a clone. -/
abbrev Clone := List ParsedObject

def Clone.Holds (clone : Clone) (id : ObjectId) : Prop := ∃ object ∈ clone, object.id = id

/-- The object that a delta of a pack is against. -/
def Clone.find (clone : Clone) (id : ObjectId) : Except GitError (Kind × Bytes) :=
  match List.find? (fun object => object.id == id) clone with
  | some object => .ok object.content
  | none => .error (.git ("An object with id " ++ id.toHex ++ " could not be found"))

/-- The objects that a client unpacks from the answer to its request. -/
def Clone.unpack (checks : Bool) (clone : Clone) (request : UploadPackRequest) (bytes : Bytes) :
    Option (List ParsedObject) :=
  match fetch request bytes with
  | none => none
  | some fetched =>
    fetched.pack.bind fun pack => (parsePack codec checks clone.find pack).toOption

/-- A clone holds objects as they are stored, and with an object what it refers to. -/
structure Clone.Faithful (clone : Clone) : Prop where
  stored : ∀ object ∈ clone, object.content = raw object.id
  closed : ∀ id, clone.Holds id → ∃ ids, references (gix.content id) = .ok ids ∧
    ∀ other ∈ ids, clone.Holds other

/-- What a client asks for: it wants something, and it has what it says it has. -/
structure Clone.Asks (clone : Clone) (request : UploadPackRequest) : Prop where
  wellFormed : request.WellFormed
  fits : request.Fits
  wants : request.wants ≠ []
  unbounded : request.deepen = .none
  haves : ∀ id ∈ request.haves, clone.Holds id

/-! ## Runs -/

/-- The server, and the clones of its clients. -/
structure World (ι : Type) where
  server : Repo
  clones : ι → Clone

inductive Event (ι : Type) where
  | push (request : Request)
  | fetch (client : ι) (request : UploadPackRequest)

variable {ι : Type} [DecidableEq ι] (checks : Bool)

/-- A client that gets no pack leaves its clone as it is. -/
def World.step (world : World ι) : Event ι → World ι
  | .push request => { world with server := request.apply gix world.server }
  | .fetch client request => match uploadPack gix codec raw world.server request.encode with
    | .error _ => world
    | .ok bytes => match (world.clones client).unpack codec checks request bytes with
      | none => world
      | some objects =>
        { world with
          clones := Function.update world.clones client (world.clones client ++ objects) }

/-- What is assumed of each event. -/
def World.Allows (world : World ι) : Event ι → Prop
  | .push request => SafeRequest gix world.server request
  | .fetch client request =>
    Stores gix codec raw world.server ∧ (world.clones client).Asks request

def World.after (world : World ι) (events : List (Event ι)) : World ι :=
  events.foldl (World.step gix codec raw checks) world

def World.AllowsAll : World ι → List (Event ι) → Prop
  | _, [] => True
  | world, event :: events =>
    world.Allows gix codec raw event ∧
      World.AllowsAll (world.step gix codec raw checks event) events

/-- An empty repository, and clients that have nothing. -/
def World.start (ι : Type) (branch : String) : World ι := ⟨emptyRepo branch, fun _ => []⟩

/-- What is sent for a request: what the walk over the wants meets. -/
def Sends (state : Repo) (request : UploadPackRequest) (ids : List ObjectId) : Prop :=
  ∃ seen : ObjectId → Bool,
    (∀ id, seen id = true ↔ Had gix.content (state.objects gix) request.haves id) ∧
    (objectRun gix.content (state.objects gix) seen request.wants).failure = none ∧
    ids = (objectRun gix.content (state.objects gix) seen request.wants).order

/-! ## What the refs reach decodes -/

/-- Everything that a ref reaches is stored, and decodes. -/
def RefsReadable (state : Repo) : Prop :=
  ∀ name id, state.refs.lookup name = some (.object id) →
    ClosureReadable gix.content (state.objects gix) id

/-- Everything that a ref reaches decodes. -/
def RefsDecode (state : Repo) : Prop :=
  ∀ name id, state.refs.lookup name = some (.object id) →
    ∀ b, Reachable gix.content id b → ∃ ids, references (gix.content b) = .ok ids

variable {gix codec raw}

theorem refsReadable_iff {state : Repo} :
    RefsReadable gix state ↔ Connected gix state ∧ RefsDecode gix state := by
  constructor
  · intro h
    exact ⟨fun name id hlookup b hb => (h name id hlookup b hb).1,
      fun name id hlookup b hb => (h name id hlookup b hb).2⟩
  · rintro ⟨hconnected, hdecode⟩ name id hlookup b hb
    exact ⟨hconnected name id hlookup b hb, hdecode name id hlookup b hb⟩

/-- The tips of a push that is ready reach only what decodes. -/
theorem decodes_of_ready {fault : Option Fault} {state : Repo} {commands : List RefCommand}
    {packData : Bytes} {receiveChecks : ReceiveChecks} {pack : Option PackName}
    (hready : Ready gix fault state commands packData receiveChecks pack) {command : RefCommand}
    (hmem : command ∈ commands) (hnew : command.newId ≠ zeroId) {id : ObjectId}
    (hid : ObjectId.fromHex command.newId = some id) {b : ObjectId}
    (hb : Reachable gix.content id b) : ∃ ids, references (gix.content b) = .ok ids := by
  obtain ⟨quarantine, hq, -, -, -, hconn⟩ := hready
  have hneeds : needsPack commands = true := List.any_eq_true.2 ⟨command, hmem, by simpa using hnew⟩
  cases quarantine with
  | none =>
    unfold quarantinePack at hq
    rw [if_pos hneeds] at hq
    split at hq
    · exact absurd hq (by simp)
    · exact absurd (Except.ok.inj hq) (by simp)
  | some quarantine =>
    simp only [checkConnectivity] at hconn
    split at hconn
    · exact absurd hconn (by simp)
    rename_i tips htips
    split at hconn
    · exact absurd hconn (by simp)
    rename_i hfsck
    obtain ⟨tip, htip, hhex⟩ := mem_tips_of_parseTips htips command hmem hnew
    obtain rfl := Option.some.inj (hhex.symm.trans hid)
    exact (mem_of_fsck gix fault hfsck htip hb).2

/-- A push that is not interrupted leaves refs that decode. -/
theorem refsDecode_receiveBlocking {fault : Option Fault} {state : Repo}
    {commands : List RefCommand} {packData : Bytes} {receiveChecks : ReceiveChecks}
    (h : RefsDecode gix state) (huninterrupted : ∀ written, fault ≠ some (.refs (.commit written))) :
    RefsDecode gix (receiveBlocking gix fault state commands packData receiveChecks).1 := by
  have hcase := receiveBlocking_cases gix fault state commands packData receiveChecks
  generalize receiveBlocking gix fault state commands packData receiveChecks = out at hcase
  cases hcase with
  | failed err _ => exact h
  | refused reason _ => exact h
  | halfPromoted name reason _ _ => exact h
  | unopened pack reason _ _ _ => exact h
  | rejected pack reason hpromoted hreason => exact h
  | notUpdated pack refs err hpromoted hreason hupdate =>
    have hrefs := updateRefs_cases gix (refFault fault) state.refs (refUpdates commands)
    rw [hupdate] at hrefs
    cases hrefs with
    | refused _ => exact h
    | interrupted edits written _ hfault _ _ =>
      unfold refFault at hfault
      split at hfault
      · rw [Option.some.inj hfault] at huninterrupted
        exact absurd rfl (huninterrupted written)
      · exact absurd hfault (by simp)
  | landed pack refs hpromoted hreason hupdate =>
    have hrefs := updateRefs_cases gix (refFault fault) state.refs (refUpdates commands)
    rw [hupdate] at hrefs
    cases hrefs with
    | applied edits hedits hprep =>
      have hland : ∀ name id,
          (state.refs.writeAll (commitOrder edits)).lookup name = some (.object id) →
          ∀ b, Reachable gix.content id b → ∃ ids, references (gix.content b) = .ok ids := by
        intro name id hlookup b hb
        rcases lookup_of_applied hprep name with ⟨heq, -⟩ | ⟨edit, hedit, rfl, heq⟩
        · exact h name id (heq.symm.trans hlookup) b hb
        · obtain ⟨command, hmem, -, hresult⟩ := edit_of_command gix hedits hedit
          rw [heq.symm.trans hlookup] at hresult
          split at hresult
          · exact absurd hresult (by simp)
          · rename_i hnew
            obtain ⟨id', hid', hobject⟩ := hresult
            obtain rfl := Target.object.inj (Option.some.inj hobject)
            exact decodes_of_ready hpromoted.ready hmem hnew hid' hb
      intro name id hlookup
      apply hland name id
      simp only at hlookup
      split at hlookup
      · exact hlookup
      · exact lookup_of_fixUnbornHead gix hlookup

theorem refsReadable_apply {state : Repo} {request : Request} (h : RefsReadable gix state)
    (hsafe : SafeRequest gix state request) : RefsReadable gix (request.apply gix state) := by
  obtain ⟨hconnected, hdecode⟩ := refsReadable_iff.1 h
  refine refsReadable_iff.2 ⟨connected_apply gix hconnected hsafe, ?_⟩
  unfold Request.apply runReceivePack
  cases hparse : parseReceivePackCommands gix request.body with
  | error err => exact hdecode
  | ok parsed =>
    obtain ⟨commands, packData⟩ := parsed
    simp only [applyReceivePack]
    by_cases hempty : commands.isEmpty = true
    · simpa [hempty] using hdecode
    · have hstep := @refsDecode_receiveBlocking gix request.fault state commands packData
        request.checks hdecode (hsafe commands packData hparse).uninterrupted
      rw [if_neg hempty]
      rcases hout : receiveBlocking gix request.fault state commands packData request.checks with
        ⟨state', err | outcome⟩ <;> rw [hout] at hstep <;> exact hstep

/-! ## One fetch -/

/-- A pack whose objects have ids is unpacked into them. -/
theorem parsePack_serialized (law : InflateLaw codec)
    (known : ObjectId → Except GitError (Kind × Bytes)) {objects : List ParsedObject}
    (hcount : objects.length < 2 ^ 32)
    (hlengths : ∀ object ∈ objects, object.data.length ≤ maxIsize)
    (hids : ∀ object ∈ objects, objectId codec object.kind object.data = .ok object.id)
    {pack : Bytes} (hpack : serializePack codec (objects.map ParsedObject.content) = .ok pack) :
    parsePack codec checks known pack = .ok objects := by
  have hbody : packBody codec (objects.map ParsedObject.content) =
      utf8 "PACK" ++ (beBytes 4 2 ++ (beBytes 4 objects.length ++ writtenEntries codec objects)) := by
    simp only [packBody, writtenEntries, List.length_map, List.flatMap_map, ParsedObject.content]
  rw [serializePack, hbody] at hpack
  split at hpack
  · exact absurd hpack (by simp)
  rename_i checksum _
  obtain ⟨entries, hentries, hobjects⟩ := parseEntries_of_written law checks known objects
    hlengths hids (utf8 "PACK" ++ (beBytes 4 2 ++ beBytes 4 objects.length))
    (beBytes 20 checksum.toNat) []
  obtain ⟨hlong, hsignature, hversion, hcounted⟩ := packHeader_fields objects.length
    (writtenEntries codec objects ++ beBytes 20 checksum.toNat)
  rw [Nat.mod_eq_of_lt hcount] at hcounted
  have hstart : (utf8 "PACK" ++ (beBytes 4 2 ++ beBytes 4 objects.length)).length = 12 := by
    simp only [List.length_append, length_beBytes, length_packSignature]
  rw [hstart] at hentries
  obtain rfl := Except.ok.inj hpack
  simp only [List.append_assoc] at hentries ⊢
  simp only [parsePack, hsignature, hversion, hcounted, hentries, hobjects, ne_eq,
    not_true_eq_false, or_false, if_false, Nat.not_lt.2 hlong, List.map_nil, List.nil_append]

/-- A stored object as it is unpacked. -/
def parsedOf (raw : ObjectId → Kind × Bytes) (id : ObjectId) : ParsedObject :=
  ⟨id, (raw id).1, (raw id).2⟩

variable {state : Repo} {request : UploadPackRequest} {clone : Clone}

theorem Sends.nodup {ids : List ObjectId} (h : Sends gix state request ids) : ids.Nodup := by
  obtain ⟨seen, -, -, rfl⟩ := h
  exact nodup_order (objectWalk gix.content (state.objects gix) seen) rfl request.wants _

theorem Sends.mem {ids : List ObjectId} (h : Sends gix state request ids) {id : ObjectId}
    (hid : id ∈ ids) : id ∈ state.objects gix ∧ ReachableFrom gix.content request.wants id ∧
      ¬ Had gix.content (state.objects gix) request.haves id := by
  obtain ⟨seen, hseen, hrun, rfl⟩ := h
  rw [State.order, List.mem_reverse, mem_objectRun_iff gix.content _ hrun] at hid
  refine ⟨(stored_of_objectRun gix.content _ hrun hid).1,
    reachableFrom_of_objectWalk gix.content _ (fun tip htip => ⟨tip, htip, .refl gix.content tip⟩) hid,
    fun hhad => ?_⟩
  have hskip : seen id = false := hid.skip_eq_false
  rw [(hseen id).2 hhad] at hskip
  exact absurd hskip (by simp)

/-- Whatever the wants reach is sent, or is with the client already. -/
theorem Sends.complete {ids : List ObjectId} (h : Sends gix state request ids)
    (hclone : clone.Faithful gix raw)
    (hhad : ∀ id, Had gix.content (state.objects gix) request.haves id → clone.Holds id)
    {id : ObjectId} (hid : ReachableFrom gix.content request.wants id) :
    clone.Holds id ∨ id ∈ ids := by
  obtain ⟨seen, hseen, hrun, rfl⟩ := h
  have hmem : ∀ {a}, Reaches (objectWalk gix.content (state.objects gix) seen) request.wants a →
      a ∈ (objectRun gix.content (state.objects gix) seen request.wants).order := by
    intro a ha
    rw [State.order, List.mem_reverse, mem_objectRun_iff gix.content _ hrun]
    exact ha
  have hskip : ∀ {a}, ¬ clone.Holds a → seen a = false :=
    fun ha => Bool.eq_false_iff.2 fun hseenA => ha (hhad _ ((hseen _).1 hseenA))
  suffices hwalked : clone.Holds id ∨
      Reaches (objectWalk gix.content (state.objects gix) seen) request.wants id from
    hwalked.imp_right hmem
  obtain ⟨tip, htip, hreach⟩ := hid
  induction hreach with
  | refl =>
    by_cases hheld : clone.Holds tip
    · exact Or.inl hheld
    · exact Or.inr (.of_mem _ htip (hskip hheld))
  | @tail b c _ hbc ih =>
    obtain ⟨children, hchildren, hc⟩ := hbc
    rcases ih with hheld | hwalk
    · -- behind an object that the client holds it holds everything
      obtain ⟨held, heldEq, hall⟩ := hclone.closed b hheld
      obtain rfl := Except.ok.inj (hchildren.symm.trans heldEq)
      exact Or.inl (hall c hc)
    · by_cases hheld : clone.Holds c
      · exact Or.inl hheld
      · have hstored := (stored_of_objectRun gix.content _ hrun hwalk).1
        exact Or.inr (hwalk.tail _ ⟨children, (objectChildren_eq_ok gix.content _).2
          ⟨hstored, hchildren⟩, hc, hskip hheld⟩)

/-- What the haves of a client lead to, the client holds. -/
theorem Clone.Faithful.holds_of_had (hclone : clone.Faithful gix raw) {haves : List ObjectId}
    (hhaves : ∀ id ∈ haves, clone.Holds id) {id : ObjectId}
    (h : Had gix.content (state.objects gix) haves id) : clone.Holds id := by
  apply h.induct
  · exact hhaves
  · intro a children ha hchildren b hb
    change haveChildren gix.content (state.objects gix) a = .ok children at hchildren
    by_cases hstored : a ∈ state.objects gix
    · rw [haveChildren_of_mem gix.content _ hstored] at hchildren
      obtain ⟨ids, hids, hall⟩ := hclone.closed a ha
      obtain rfl := Except.ok.inj (hchildren.symm.trans hids)
      exact hall b hb
    · rw [haveChildren_of_not_mem gix.content _ hstored] at hchildren
      obtain rfl := Except.ok.inj hchildren
      exact absurd hb List.not_mem_nil

/-- The clone with what is sent. -/
theorem Clone.Faithful.append (hclone : clone.Faithful gix raw) {ids : List ObjectId}
    (hsends : Sends gix state request ids)
    (hhad : ∀ id, Had gix.content (state.objects gix) request.haves id → clone.Holds id) :
    Clone.Faithful gix raw (clone ++ ids.map (parsedOf raw)) ∧
      ∀ id, ReachableFrom gix.content request.wants id →
        Clone.Holds (clone ++ ids.map (parsedOf raw)) id := by
  have hold : ∀ {id}, clone.Holds id → Clone.Holds (clone ++ ids.map (parsedOf raw)) id := by
    rintro id ⟨object, hmem, rfl⟩
    exact ⟨object, List.mem_append_left _ hmem, rfl⟩
  have hnew : ∀ {id}, id ∈ ids → Clone.Holds (clone ++ ids.map (parsedOf raw)) id :=
    fun hid => ⟨_, List.mem_append_right _ (List.mem_map_of_mem hid), rfl⟩
  have hcomplete : ∀ id, ReachableFrom gix.content request.wants id →
      Clone.Holds (clone ++ ids.map (parsedOf raw)) id :=
    fun id hid => (hsends.complete hclone hhad hid).elim hold hnew
  refine ⟨⟨?_, ?_⟩, hcomplete⟩
  · intro object hmem
    rcases List.mem_append.1 hmem with hmem | hmem
    · exact hclone.stored object hmem
    · obtain ⟨id, -, rfl⟩ := List.mem_map.1 hmem
      rfl
  · rintro id ⟨object, hmem, rfl⟩
    rcases List.mem_append.1 hmem with hmem | hmem
    · obtain ⟨refs, hrefs, hall⟩ := hclone.closed object.id ⟨object, hmem, rfl⟩
      exact ⟨refs, hrefs, fun other hother => hold (hall other hother)⟩
    · obtain ⟨id, hid, rfl⟩ := List.mem_map.1 hmem
      have hwalked := hsends
      obtain ⟨seen, -, hrun, rfl⟩ := hwalked
      have hwalk := hid
      rw [State.order, List.mem_reverse, mem_objectRun_iff gix.content _ hrun] at hwalk
      obtain ⟨-, refs, hrefs⟩ := stored_of_objectRun gix.content _ hrun hwalk
      refine ⟨refs, hrefs, fun other hother => hcomplete other ?_⟩
      exact (hsends.mem hid).2.1.tail gix.content hrefs hother

theorem buildShallowPack_of_unbounded {content : ObjectId → Object} {store : Store}
    {wants haves shallow : List ObjectId} {deepen : Deepen} (h : deepen = .none) :
    buildShallowPack content store wants haves ⟨shallow, deepen⟩ =
      (buildPackExcluding content store wants haves).map fun pack => ⟨pack, [], []⟩ := by
  simp only [buildShallowPack, h, if_true]
  cases buildPackExcluding content store wants haves <;> rfl

/-- The bytes of the answer to a request without a bound. -/
theorem uploadPack_encode (hasks : clone.Asks request) :
    uploadPack gix codec raw state request.encode =
      match buildPackExcluding gix.content (state.objects gix) request.wants request.haves with
      | .error err => .error err
      | .ok ids => match serializePack codec (ids.map raw) with
        | .error err => .error err
        | .ok pack => .ok ((⟨none, some ids, request.wantsSideBand64k,
            request.wantsSideBand64k && request.wantsProgress⟩ : UploadPackResponse).write
            fun _ => pack) := by
  have hparse := parse_encode hasks.wellFormed hasks.fits
  have hwants : request.wants.isEmpty = false := List.isEmpty_eq_false_iff.2 hasks.wants
  have hbuild := @buildShallowPack_of_unbounded gix.content (state.objects gix) request.wants
    request.haves request.shallow request.deepen hasks.unbounded
  simp only [uploadPack, hparse, hwants, Bool.false_eq_true, if_false, hbuild,
    buildUploadPackResponse]
  cases buildPackExcluding gix.content (state.objects gix) request.wants request.haves with
  | error err => rfl
  | ok ids =>
    simp only [Except.map]
    cases serializePack codec (ids.map raw) with
    | error err => rfl
    | ok pack => simp only [hasks.unbounded, if_true, ne_eq, not_true_eq_false, false_and, if_false]

/-- What a client unpacks from an answer. -/
theorem unpack_uploadPack (law : InflateLaw codec) (hstores : Stores gix codec raw state)
    (hasks : clone.Asks request) {bytes : Bytes}
    (h : uploadPack gix codec raw state request.encode = .ok bytes) :
    ∃ ids, Sends gix state request ids ∧
      clone.unpack codec checks request bytes = some (ids.map (parsedOf raw)) := by
  rw [uploadPack_encode hasks] at h
  split at h
  · exact absurd h (by simp)
  rename_i ids hbuilt
  split at h
  · exact absurd h (by simp)
  rename_i pack hpack
  obtain rfl := Except.ok.inj h
  have hsends : Sends gix state request ids := by
    obtain ⟨seen, hseen, hrun, hids⟩ := buildPackExcluding_eq_ok gix.content _ hbuilt
    exact ⟨seen, hseen, hrun, hids⟩
  refine ⟨ids, hsends, ?_⟩
  have hstored : ∀ object ∈ ids.map (parsedOf raw), object.id ∈ state.objects gix ∧
      object = parsedOf raw object.id := by
    intro object hmem
    obtain ⟨id, hid, rfl⟩ := List.mem_map.1 hmem
    exact ⟨(hsends.mem hid).1, rfl⟩
  have hcount : (ids.map (parsedOf raw)).length < 2 ^ 32 := by
    have hle := (List.subperm_of_subset hsends.nodup fun id hid => (hsends.mem hid).1).length_le
    rw [List.length_map]
    exact hle.trans_lt hstores.counted
  have hcontent : (ids.map (parsedOf raw)).map ParsedObject.content = ids.map raw := by
    rw [List.map_map]
    rfl
  rw [← hcontent] at hpack
  have hparse := parsePack_serialized checks law clone.find hcount ?_ ?_ hpack
  · have hfetch := fetch_write (fun _ => pack) request [] [] ids
      (request.wantsSideBand64k && request.wantsProgress)
    simp only [hasks.unbounded, if_true, ne_eq, not_true_eq_false, false_and, if_false] at hfetch
    simp only [Clone.unpack, hfetch, Option.map_some, Option.bind_some, hparse]
    rfl
  · intro object hmem
    obtain ⟨hid, heq⟩ := hstored object hmem
    rw [heq]
    exact hstores.sized _ hid
  · intro object hmem
    obtain ⟨hid, heq⟩ := hstored object hmem
    rw [heq]
    exact hstores.addressed _ hid

/-- A fetch of what is stored and decodes is answered, unless the hash of the pack fails. -/
theorem uploadPack_answers (hclone : clone.Faithful gix raw) (hasks : clone.Asks request)
    (hwants : ∀ want ∈ request.wants, ClosureReadable gix.content (state.objects gix) want) :
    (∃ bytes, uploadPack gix codec raw state request.encode = .ok bytes) ∨
      ∃ (ids : List ObjectId) (err : String),
        codec.sha1 (packBody codec (ids.map raw)) = .error err := by
  have hhad : (haveRun gix.content (state.objects gix) request.haves).failure = none := by
    apply failure_eq_none_of_expands
    · intro id hid
      change ∃ children, haveChildren gix.content (state.objects gix) id = .ok children
      have hheld := hclone.holds_of_had hasks.haves hid
      by_cases hstored : id ∈ state.objects gix
      · obtain ⟨ids, hids, -⟩ := hclone.closed id hheld
        exact ⟨ids, (haveChildren_of_mem gix.content _ hstored).trans hids⟩
      · exact ⟨[], haveChildren_of_not_mem gix.content _ hstored⟩
    · exact fun _ => rfl
    · exact fun _ => rfl
  rw [uploadPack_encode hasks]
  simp only [buildPackExcluding, hhad, objectRun_failure gix.content _ hwants]
  cases hpack : serializePack codec _ with
  | ok pack => exact Or.inl ⟨_, rfl⟩
  | error err =>
    right
    rw [serializePack] at hpack
    split at hpack
    · rename_i reason hfails
      exact ⟨_, reason, hfails⟩
    · exact absurd hpack (by simp)

/-! ## Every run -/

/-- What holds of the server and of the clones throughout a run. -/
structure World.Sound (gix : Gix) (raw : ObjectId → Kind × Bytes) (world : World ι) : Prop where
  readable : RefsReadable gix world.server
  faithful : ∀ client, (world.clones client).Faithful gix raw

variable {world : World ι}

omit [DecidableEq ι] in
theorem sound_start (branch : String) : (World.start ι branch).Sound gix raw where
  readable := by
    refine refsReadable_iff.2 ⟨connected_emptyRepo gix branch, ?_⟩
    intro name id hlookup
    change (emptyRepo branch).refs.lookup name = _ at hlookup
    unfold emptyRepo at hlookup
    by_cases hname : name = "HEAD"
    · subst hname
      rw [AList.lookup_insert] at hlookup
      exact absurd hlookup (by simp)
    · rw [AList.lookup_insert_ne hname, AList.lookup_empty] at hlookup
      exact absurd hlookup (by simp)
  faithful := fun _ => ⟨fun _ h => absurd h List.not_mem_nil,
    fun _ h => absurd h.choose_spec.1 List.not_mem_nil⟩

/-- What a fetch makes of the world: the clone of its client has what is sent besides what it had,
or the fetch is not answered. -/
theorem step_fetch (law : InflateLaw codec) {client : ι} {request : UploadPackRequest}
    (hallows : world.Allows gix codec raw (.fetch client request)) :
    (∃ err, uploadPack gix codec raw world.server request.encode = .error err ∧
      world.step gix codec raw checks (.fetch client request) = world) ∨
    ∃ bytes ids, uploadPack gix codec raw world.server request.encode = .ok bytes ∧
      Sends gix world.server request ids ∧
      (world.clones client).unpack codec checks request bytes = some (ids.map (parsedOf raw)) ∧
      world.step gix codec raw checks (.fetch client request) =
        { world with
          clones := Function.update world.clones client
            (world.clones client ++ ids.map (parsedOf raw)) } := by
  obtain ⟨hstores, hasks⟩ := hallows
  cases hanswer : uploadPack gix codec raw world.server request.encode with
  | error err =>
    refine Or.inl ⟨err, rfl, ?_⟩
    simp only [World.step, hanswer]
  | ok bytes =>
    obtain ⟨ids, hsends, hunpack⟩ := unpack_uploadPack checks law hstores hasks hanswer
    refine Or.inr ⟨bytes, ids, rfl, hsends, hunpack, ?_⟩
    simp only [World.step, hanswer, hunpack]

theorem World.Sound.step (h : world.Sound gix raw) (law : InflateLaw codec) {event : Event ι}
    (hallows : world.Allows gix codec raw event) :
    (world.step gix codec raw checks event).Sound gix raw := by
  cases event with
  | push request => exact ⟨refsReadable_apply h.readable hallows, h.faithful⟩
  | fetch client request =>
    rcases step_fetch checks law hallows with ⟨-, -, hstep⟩ | ⟨bytes, ids, -, hsends, -, hstep⟩
    · rw [hstep]
      exact h
    · rw [hstep]
      refine ⟨h.readable, fun other => ?_⟩
      by_cases hother : other = client
      · subst hother
        simp only [Function.update_self]
        exact ((h.faithful other).append hsends fun id hid =>
          (h.faithful other).holds_of_had hallows.2.haves hid).1
      · simp only [Function.update_of_ne hother]
        exact h.faithful other

/-- The worlds of a run are sound, and its events allowed where they happen. -/
theorem sound_after (h : world.Sound gix raw) (law : InflateLaw codec) {events : List (Event ι)}
    (hrun : world.AllowsAll gix codec raw checks events) (n : Nat) :
    (world.after gix codec raw checks (events.take n)).Sound gix raw ∧
      ∀ event, events[n]? = some event →
        (world.after gix codec raw checks (events.take n)).Allows gix codec raw event := by
  induction events generalizing world n with
  | nil => exact ⟨by simpa [World.after] using h, fun event hevent => absurd hevent (by simp)⟩
  | cons first events ih =>
    obtain ⟨hfirst, hrest⟩ := hrun
    cases n with
    | zero =>
      refine ⟨by simpa [World.after] using h, fun event hevent => ?_⟩
      obtain rfl := Option.some.inj hevent
      exact hfirst
    | succ n => exact ih (h.step checks law hfirst) hrest n

end FetchRuns

/-! ## A push and a clone -/

/-- A repository whose only object is the greeting. -/
def greetingGix : Gix :=
  { onePackGix with
    content := fun _ => .blob (utf8 "hi")
    packObjects := fun _ => [greeting.id] }

/-- The push of a tag of the greeting. -/
def pushGreeting : Request :=
  onePackPush zeroId "32f95c0d1244a78b2be1bab8de17906fabb2c4a8" "refs/tags/hi"

/-- The request of a client that has nothing. -/
def wantGreeting : UploadPackRequest :=
  ⟨[greeting.id], [], ["side-band-64k"], [], .none, true⟩

def greetingRaw : ObjectId → Kind × Bytes := fun _ => (.blob, utf8 "hi")

theorem asks_wantGreeting : Clone.Asks [] wantGreeting where
  wellFormed := {
    words := by
      intro cap hcap
      obtain rfl := List.mem_singleton.1 hcap
      have hchars : "side-band-64k".toList =
          ['s', 'i', 'd', 'e', '-', 'b', 'a', 'n', 'd', '-', '6', '4', 'k'] := by decide +kernel
      rw [hchars]
      refine ⟨List.cons_ne_nil _ _, fun c hc => ?_⟩
      fin_cases hc <;> rfl
    carried := fun h => absurd h (List.cons_ne_nil _ _)
    deepens := fun _ h => nomatch h
    since := fun _ h => nomatch h }
  fits := by
    intro line hline
    obtain rfl := List.mem_singleton.1 hline
    decide +kernel
  wants := List.cons_ne_nil _ _
  unbounded := rfl
  haves := fun _ h => absurd h List.not_mem_nil

end Edda.Git
