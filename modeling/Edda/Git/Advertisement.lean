import Edda.Git.UploadRequest

/-!
# The ref advertisement

A client learns the refs of a repository from its advertisement, a section with one line for each
ref: `HEAD`, the branches and the tags. An annotated tag has a second line with what it peels to,
named `^{}` behind the tag. The first line carries the capabilities behind a NUL; without a ref it
is a line with the zero id. Over HTTP a section with the name of the service is sent before it.

`advertisement_exact`: a client reads every name once, and with it what `Advertised` says of the
repository; everything it reads is reached from a ref, and it has a `HEAD` where there is a branch.
-/

set_option autoImplicit false

namespace Edda.Git

open Edda.Support Edda.Support.RustText

/-! ## Writing -/

def uploadPackCapabilities : String := "side-band-64k ofs-delta agent=edda/0.1.0"

def uploadPackCapabilitiesStateless : String :=
  "side-band-64k ofs-delta shallow agent=edda/0.1.0"

def receivePackCapabilities : String :=
  "report-status delete-refs ofs-delta agent=edda/0.1.0"

/-- `id name`. -/
def refLine (ref : ObjectId × String) : String := ref.1.toHex ++ " " ++ ref.2

/-- The name on the line of a repository without refs. -/
def capabilitiesName : String := "capabilities^\x7b\x7d"

/-- The line that carries the capabilities. -/
def firstLine (text capabilities : String) : Bytes :=
  utf8 (text ++ "\x00" ++ capabilities ++ "\n")

def advertisementLines (refs : List (ObjectId × String)) (capabilities : String) : List Bytes :=
  match refs with
  | [] => [firstLine (zeroId ++ " " ++ capabilitiesName) capabilities]
  | first :: rest =>
    firstLine (refLine first) capabilities :: rest.map fun ref => utf8 (refLine ref ++ "\n")

def writeRefAdvertisement (refs : List (ObjectId × String)) (capabilities : String) : Bytes :=
  (advertisementLines refs capabilities).flatMap writePktLine ++ writeFlush

/-- The advertisement of a repository that could be opened. -/
def buildRefAdvertisement (gix : Gix) (state : Repo) (capabilities : String) : Bytes :=
  writeRefAdvertisement (advertisedRefs gix state) capabilities

/-- The body of `info/refs`. -/
def infoRefsBody (service : String) (advertisement : Bytes) : Bytes :=
  writePktLine (utf8 ("# service=" ++ service ++ "\n")) ++ (writeFlush ++ advertisement)

/-! ## The client -/

structure Advertisement where
  refs : List (ObjectId × String)
  capabilities : List String
  deriving DecidableEq, Repr

/-- A line without its line feed. -/
def chomp (line : Bytes) : List Char :=
  let text := fromUtf8Lossy line
  (stripSuffix ['\n'] text).getD text

/-- An id and a name. -/
def readRef (text : List Char) : Option (ObjectId × String) :=
  match splitOnce ' ' text with
  | none => none
  | some (hex, name) => (oidOfText hex).map fun id => (id, String.ofList name)

/-- The advertisement that the bytes start with, and what is behind it. -/
def readAdvertisement (bytes : Bytes) : Option (Advertisement × Bytes) :=
  match readSection bytes.length bytes with
  | none => none
  | some ([], _) => none
  | some (first :: lines, behind) => match splitOnce '\x00' (chomp first) with
    | none => none
    | some (text, capabilities) =>
      match readRef text, lines.mapM fun line => readRef (chomp line) with
      | some ref, some refs =>
        some (⟨if ref.2 = capabilitiesName then [] else ref :: refs,
          (splitWhitespace capabilities).map String.ofList⟩, behind)
      | _, _ => none

/-! ## What is written is read -/

section RoundTrip

theorem chomp_utf8 (text : String) : chomp (utf8 (text ++ "\n")) = text.toList := by
  have hdecoded := decodeLossy_utf8 (text ++ "\n") []
  rw [List.append_nil, decodeLossy, List.append_nil, String.toList_append, toList_feed] at hdecoded
  rw [chomp, fromUtf8Lossy, hdecoded, stripSuffix_append, Option.getD_some]

theorem mem_toHex {id : ObjectId} {c : Char} (h : c ∈ id.toHex.toList) : c ≠ ' ' ∧ c ≠ '\x00' :=
  @forall_mem_toHex (fun c => c ≠ ' ' ∧ c ≠ '\x00') (by decide) id c h

theorem toList_refLine (ref : ObjectId × String) :
    (refLine ref).toList = ref.1.toHex.toList ++ ' ' :: ref.2.toList := by
  have hspace : " ".toList = [' '] := by simp
  rw [refLine, String.toList_append, String.toList_append, hspace, List.append_assoc,
    List.singleton_append]

theorem readRef_refLine (ref : ObjectId × String) : readRef (refLine ref).toList = some ref := by
  have hspace : ' ' ∉ ref.1.toHex.toList := fun h => (mem_toHex h).1 rfl
  rw [readRef, toList_refLine]
  simp only [splitOnce_append hspace, oidOfText, String.ofList_toList, ObjectId.fromHex_toHex,
    Option.map_some]

/-- The capabilities are read off the first line. -/
theorem split_firstLine {text : String} (hnul : '\x00' ∉ text.toList) (capabilities : String) :
    splitOnce '\x00' (chomp (firstLine text capabilities)) =
      some (text.toList, capabilities.toList) := by
  have hsep : "\x00".toList = ['\x00'] := by simp
  rw [firstLine, chomp_utf8, String.toList_append, String.toList_append, hsep, List.append_assoc,
    List.singleton_append, splitOnce_append hnul]

theorem mapM_readRef (refs : List (ObjectId × String)) :
    (refs.map fun ref => utf8 (refLine ref ++ "\n")).mapM (fun line => readRef (chomp line)) =
      some refs := by
  induction refs with
  | nil => rfl
  | cons ref refs ih =>
    rw [List.map_cons, List.mapM_cons, chomp_utf8, readRef_refLine, ih]
    rfl

/-- The words of the capabilities. -/
def capabilityWords (capabilities : String) : List String :=
  (splitWhitespace capabilities.toList).map String.ofList

/-- An advertisement is read back, wherever it ends. -/
theorem readAdvertisement_write {refs : List (ObjectId × String)} {capabilities : String}
    (hfits : ∀ line ∈ advertisementLines refs capabilities, line.length + 4 < 0x10000)
    (hnames : ∀ ref ∈ refs, '\x00' ∉ ref.2.toList ∧ ref.2 ≠ capabilitiesName) (behind : Bytes) :
    readAdvertisement (writeRefAdvertisement refs capabilities ++ behind) =
      some (⟨refs, capabilityWords capabilities⟩, behind) := by
  have hsection := readSection_section hfits behind
  rw [← List.append_assoc] at hsection
  rw [writeRefAdvertisement]
  cases refs with
  | nil =>
    have hzero : zeroId ++ " " ++ capabilitiesName = refLine (0, capabilitiesName) := rfl
    have hnul : '\x00' ∉ (refLine (0, capabilitiesName)).toList := by decide +kernel
    simp only [readAdvertisement, hsection]
    simp only [advertisementLines, hzero, split_firstLine hnul, readRef_refLine, List.mapM_nil,
      capabilityWords]
    rfl
  | cons first rest =>
    obtain ⟨hname, hother⟩ := hnames first List.mem_cons_self
    have hnul : '\x00' ∉ (refLine first).toList := by
      rw [toList_refLine, List.mem_append, List.mem_cons, not_or, not_or]
      exact ⟨fun h => (mem_toHex h).2 rfl, by decide, hname⟩
    simp only [readAdvertisement, hsection]
    simp only [advertisementLines, split_firstLine hnul, readRef_refLine, mapM_readRef,
      if_neg hother, capabilityWords]

end RoundTrip

/-! ## What is advertised -/

section Advertised

variable (gix : Gix) (state : Repo)

/-- What an id peels to, where everything of the repository can be looked up. -/
def peeled (id : ObjectId) : Except GitError ObjectId :=
  peelTags gix (state.objects gix) ((state.objects gix).length + 1) id

/-- What a repository advertises under a name: the object that `HEAD` stands for, that of a branch,
that of a tag that can be peeled, and what an annotated tag peels to. -/
inductive Advertised : String → ObjectId → Prop
  | head {id : ObjectId} (h : advertisedHead gix state = some id) : Advertised "HEAD" id
  | branch {branch : String} {id : ObjectId}
      (h : state.refs.lookup ("refs/heads/" ++ branch) = some (.object id)) :
      Advertised ("refs/heads/" ++ branch) id
  | tag {tag : String} {id target : ObjectId}
      (h : state.refs.lookup ("refs/tags/" ++ tag) = some (.object id))
      (hpeeled : peeled gix state id = .ok target) : Advertised ("refs/tags/" ++ tag) id
  | peeledTag {tag : String} {id target : ObjectId}
      (h : state.refs.lookup ("refs/tags/" ++ tag) = some (.object id))
      (hpeeled : peeled gix state id = .ok target) (hne : id ≠ target) :
      Advertised ("refs/tags/" ++ tag ++ "^\x7b\x7d") target

variable {gix state}

theorem toList_headsPrefix : String.ofList headsPrefix = "refs/heads/" := String.ofList_toList

theorem eq_append_of_stripPrefix {front : String} {name : String} {short : List Char}
    (h : stripPrefix front.toList name.toList = some short) : name = front ++ String.ofList short := by
  obtain ⟨rest, hrest⟩ := prefix_of_stripPrefix h
  have hsame := stripPrefix_append front.toList rest
  rw [hrest, h] at hsame
  obtain rfl := Option.some.inj hsame
  apply String.toList_inj.1
  rw [String.toList_append, String.toList_ofList, hrest]

/-- The refs below a directory are those that hold an object there. -/
theorem mem_directRefs {front : String} {id : ObjectId} {short : String} :
    (id, short) ∈ directRefs state.refs front.toList ↔
      state.refs.lookup (front ++ short) = some (.object id) := by
  have hstrip : stripPrefix front.toList (front ++ short).toList = some short.toList := by
    rw [String.toList_append, stripPrefix_append]
  rw [directRefs, List.mem_filterMap]
  constructor
  · rintro ⟨name, -, hname⟩
    split at hname
    · rename_i rest value hrest hvalue
      obtain ⟨rfl, rfl⟩ := Prod.mk.inj (Option.some.inj hname)
      rwa [← eq_append_of_stripPrefix hrest]
    · exact absurd hname (by simp)
  · intro hlookup
    refine ⟨front ++ short, ?_, ?_⟩
    · rw [List.mem_insertionSort]
      exact AList.mem_keys.1 (AList.lookup_isSome.1 (by rw [hlookup]; rfl))
    · simp only [hstrip, hlookup, String.ofList_toList]

theorem tagsPrefix_eq : tagsPrefix = "refs/tags/".toList := rfl

theorem headsPrefix_eq : headsPrefix = "refs/heads/".toList := rfl

/-- A tag that holds an object leads to what that peels to. -/
theorem peelToId_of_lookup {name : String} {id : ObjectId}
    (h : state.refs.lookup name = some (.object id)) :
    peelToId gix state name = peeled gix state id := by
  have hfollow : followRef gix state.refs maxRefDepth name = .ok id := by
    simp only [followRef, maxRefDepth, h]
  simp only [peelToId, hfollow, peeled]

theorem mem_tagLines {tag : ObjectId × String}
    (h : state.refs.lookup ("refs/tags/" ++ tag.2) = some (.object tag.1)) {ref : ObjectId × String} :
    ref ∈ tagLines gix state tag ↔ ∃ target, peeled gix state tag.1 = .ok target ∧
      (ref = (tag.1, "refs/tags/" ++ tag.2) ∨
        tag.1 ≠ target ∧ ref = (target, "refs/tags/" ++ tag.2 ++ "^\x7b\x7d")) := by
  rw [tagLines, peelToId_of_lookup h]
  cases hpeeled : peeled gix state tag.1 with
  | error err =>
    simp only [List.not_mem_nil, false_iff, not_exists, not_and]
    exact fun target htarget => absurd htarget (by simp)
  | ok target =>
    simp only [List.mem_cons]
    constructor
    · rintro (rfl | hmem)
      · exact ⟨target, rfl, Or.inl rfl⟩
      · by_cases hsame : tag.1 = target
        · rw [if_pos hsame] at hmem
          exact absurd hmem List.not_mem_nil
        · rw [if_neg hsame, List.mem_singleton] at hmem
          exact ⟨target, rfl, Or.inr ⟨hsame, hmem⟩⟩
    · rintro ⟨other, hother, rfl | ⟨hne, rfl⟩⟩
      · exact Or.inl rfl
      · obtain rfl := Except.ok.inj hother
        right
        rw [if_neg hne]
        exact List.mem_singleton.2 rfl

/-- The list of the advertised refs is what the repository advertises. -/
theorem mem_advertisedRefs {name : String} {id : ObjectId} :
    (id, name) ∈ advertisedRefs gix state ↔ Advertised gix state name id := by
  rw [advertisedRefs, List.mem_append, List.mem_append, headsPrefix_eq, tagsPrefix_eq]
  constructor
  · rintro ((hhead | hbranch) | htag)
    · obtain ⟨target, htarget, heq⟩ := List.mem_map.1 hhead
      obtain ⟨rfl, rfl⟩ := Prod.mk.inj heq
      exact .head (Option.mem_toList.1 htarget)
    · obtain ⟨⟨target, branch⟩, hmem, heq⟩ := List.mem_map.1 hbranch
      obtain ⟨rfl, rfl⟩ := Prod.mk.inj heq
      exact .branch (mem_directRefs.1 hmem)
    · obtain ⟨⟨direct, tag⟩, hmem, hline⟩ := List.mem_flatMap.1 htag
      have hlookup := mem_directRefs.1 hmem
      obtain ⟨target, hpeeled, heq | ⟨hne, heq⟩⟩ := (mem_tagLines hlookup).1 hline
      · obtain ⟨rfl, rfl⟩ := Prod.mk.inj heq
        exact .tag hlookup hpeeled
      · obtain ⟨rfl, rfl⟩ := Prod.mk.inj heq
        exact .peeledTag hlookup hpeeled hne
  · intro h
    cases h with
    | head h => exact Or.inl (Or.inl (List.mem_map.2 ⟨id, Option.mem_toList.2 h, rfl⟩))
    | @branch branch _ h =>
      exact Or.inl (Or.inr (List.mem_map.2 ⟨(id, branch), mem_directRefs.2 h, rfl⟩))
    | @tag tag _ target h hpeeled =>
      refine Or.inr (List.mem_flatMap.2 ⟨(id, tag), mem_directRefs.2 h, ?_⟩)
      exact (mem_tagLines h).2 ⟨target, hpeeled, Or.inl rfl⟩
    | @peeledTag tag direct _ h hpeeled hne =>
      refine Or.inr (List.mem_flatMap.2 ⟨(direct, tag), mem_directRefs.2 h, ?_⟩)
      exact (mem_tagLines h).2 ⟨id, hpeeled, Or.inr ⟨hne, rfl⟩⟩

/-! ## Where it comes from -/

theorem lookup_of_followRef {depth : Nat} {name : String} {id : ObjectId}
    (h : followRef gix state.refs depth name = .ok id) :
    ∃ ref, state.refs.lookup ref = some (.object id) := by
  induction depth generalizing name with
  | zero => exact absurd h (by simp [followRef])
  | succ depth ih =>
    simp only [followRef] at h
    split at h
    · exact absurd h (by simp)
    · rename_i target hlookup
      obtain rfl := Except.ok.inj h
      exact ⟨name, hlookup⟩
    · exact ih h

/-- Peeling follows references. -/
theorem reachable_of_peelTags {store : Store} {depth : Nat} {id target : ObjectId}
    (h : peelTags gix store depth id = .ok target) : Reachable gix.content id target := by
  induction depth generalizing id with
  | zero => exact absurd h (by simp [peelTags])
  | succ depth ih =>
    simp only [peelTags] at h
    split at h
    · exact absurd h (by simp)
    · exact absurd h (by simp)
    · rename_i tag hfind
      have hcontent := (mem_of_findObject gix.content hfind).2
      refine Relation.ReflTransGen.head ⟨[tag.target], ?_, List.mem_singleton.2 rfl⟩ (ih h)
      rw [← hcontent]
      rfl
    · obtain rfl := Except.ok.inj h
      exact Reachable.refl _ _

/-- What is advertised is reached from what a ref holds. -/
theorem Advertised.reached {name : String} {id : ObjectId} (h : Advertised gix state name id) :
    ∃ ref tip, state.refs.lookup ref = some (.object tip) ∧ Reachable gix.content tip id := by
  cases h with
  | head h =>
    unfold advertisedHead at h
    split at h
    · rename_i target hpeel
      obtain rfl := Option.some.inj h
      unfold peelToId at hpeel
      split at hpeel
      · exact absurd hpeel (by simp)
      · rename_i tip hfollow
        obtain ⟨ref, href⟩ := lookup_of_followRef hfollow
        exact ⟨ref, tip, href, reachable_of_peelTags hpeel⟩
    · -- the branch that stands in for `HEAD`
      extract_lets branches at h
      obtain ⟨chosen, -, hfind⟩ := Option.bind_eq_some_iff.1 h
      obtain ⟨⟨target, branch⟩, hbranch, rfl⟩ := Option.map_eq_some_iff.1 hfind
      have hmem := List.mem_of_find?_eq_some hbranch
      exact ⟨_, target, mem_directRefs.1 hmem, Reachable.refl _ _⟩
  | branch h => exact ⟨_, id, h, Reachable.refl _ _⟩
  | tag h _ => exact ⟨_, id, h, Reachable.refl _ _⟩
  | peeledTag h hpeeled _ => exact ⟨_, _, h, reachable_of_peelTags hpeeled⟩

/-- A branch is picked where there is one. -/
theorem pickDefaultBranch_mem {names : List String} (hne : names ≠ []) :
    ∃ chosen ∈ names, pickDefaultBranch names = some chosen := by
  unfold pickDefaultBranch
  split
  · rename_i hmain
    exact ⟨"main", hmain, rfl⟩
  · split
    · rename_i hmaster
      exact ⟨"master", hmaster, rfl⟩
    · obtain ⟨first, rest, rfl⟩ := List.exists_cons_of_ne_nil hne
      exact ⟨first, List.mem_cons_self, rfl⟩

/-- A repository with a branch advertises a `HEAD`. -/
theorem exists_head {branch : String} {id : ObjectId}
    (h : state.refs.lookup ("refs/heads/" ++ branch) = some (.object id)) :
    ∃ head, Advertised gix state "HEAD" head := by
  suffices hsome : ∃ head, advertisedHead gix state = some head from
    hsome.elim fun head hhead => ⟨head, .head hhead⟩
  unfold advertisedHead
  cases peelToId gix state "HEAD" with
  | ok head => exact ⟨head, rfl⟩
  | error err =>
    simp only
    have hmem : (id, branch) ∈ directRefs state.refs headsPrefix := by
      rw [headsPrefix_eq]
      exact mem_directRefs.2 h
    have hne : (directRefs state.refs headsPrefix).map Prod.snd ≠ [] :=
      List.ne_nil_of_mem (List.mem_map_of_mem hmem)
    obtain ⟨chosen, hchosen, hpick⟩ := pickDefaultBranch_mem hne
    obtain ⟨⟨target, name⟩, hnamed, rfl⟩ := List.mem_map.1 hchosen
    have hfound : ((directRefs state.refs headsPrefix).find?
        fun other => other.2 = name).isSome := by
      rw [List.find?_isSome]
      exact ⟨(target, name), hnamed, by simp⟩
    obtain ⟨found, hfind⟩ := Option.isSome_iff_exists.1 hfound
    refine ⟨found.1, ?_⟩
    rw [hpick, Option.bind_some, hfind, Option.map_some]

/-! ## Names -/

/-- Ref names have no NUL and no caret, as no name that git accepts has. -/
def PlainNames (state : Repo) : Prop :=
  ∀ name ∈ state.refs.keys, '\x00' ∉ name.toList ∧ '^' ∉ name.toList

theorem mem_keys_of_lookup {name : String} {target : Target}
    (h : state.refs.lookup name = some target) : name ∈ state.refs.keys :=
  AList.mem_keys.1 (AList.lookup_isSome.1 (by rw [h]; rfl))

theorem append_right_injective (front : String) {s t : String} (h : front ++ s = front ++ t) :
    s = t := by
  have hchars := congrArg String.toList h
  rw [String.toList_append, String.toList_append] at hchars
  exact String.toList_inj.1 (List.append_cancel_left hchars)

theorem append_left_injective (back : String) {s t : String} (h : s ++ back = t ++ back) : s = t := by
  have hchars := congrArg String.toList h
  rw [String.toList_append, String.toList_append] at hchars
  exact String.toList_inj.1 (List.append_cancel_right hchars)

theorem nodup_directRefs (state : Repo) (front : String) :
    ((directRefs state.refs front.toList).map Prod.snd).Nodup := by
  apply List.Nodup.map_on
  · rintro ⟨id, short⟩ hmem ⟨id', short'⟩ hmem' heq
    obtain rfl : short = short' := heq
    have hsame := (mem_directRefs.1 hmem).symm.trans (mem_directRefs.1 hmem')
    obtain rfl := Target.object.inj (Option.some.inj hsame)
    rfl
  · rw [directRefs]
    apply List.Nodup.filterMap
    · intro name name' ref hname hname'
      -- a name is the directory with what is kept of it behind it
      split at hname
      · rename_i rest value hrest hvalue
        split at hname'
        · rename_i rest' value' hrest' hvalue'
          have hsame : String.ofList rest = String.ofList rest' :=
            congrArg Prod.snd (Option.some.inj (hname.trans hname'.symm))
          rw [eq_append_of_stripPrefix hrest, eq_append_of_stripPrefix hrest', hsame]
        · exact absurd hname' (by simp)
      · exact absurd hname (by simp)
    · exact (List.perm_insertionSort _ _).nodup_iff.2 state.refs.nodupKeys

theorem caret_mem (name : String) : '^' ∈ (name ++ "^\x7b\x7d").toList := by
  have hcaret : "^\x7b\x7d".toList = ['^', '\x7b', '\x7d'] := by simp
  rw [String.toList_append, hcaret]
  exact List.mem_append_right _ List.mem_cons_self

theorem toList_heads :
    "refs/heads/".toList = ['r', 'e', 'f', 's', '/', 'h', 'e', 'a', 'd', 's', '/'] := by
  simp

theorem toList_tags : "refs/tags/".toList = ['r', 'e', 'f', 's', '/', 't', 'a', 'g', 's', '/'] := by
  simp

theorem toList_HEAD : "HEAD".toList = ['H', 'E', 'A', 'D'] := by simp

theorem head_ne_branch (branch : String) : "HEAD" ≠ "refs/heads/" ++ branch := by
  intro h
  have hchars := congrArg String.toList h
  rw [String.toList_append, toList_heads, toList_HEAD] at hchars
  exact absurd (List.cons.inj hchars).1 (by decide)

theorem head_ne_tag (tag : String) : "HEAD" ≠ "refs/tags/" ++ tag := by
  intro h
  have hchars := congrArg String.toList h
  rw [String.toList_append, toList_tags, toList_HEAD] at hchars
  exact absurd (List.cons.inj hchars).1 (by decide)

theorem branch_ne_tag (branch tag : String) : "refs/heads/" ++ branch ≠ "refs/tags/" ++ tag := by
  intro h
  have hchars := congrArg (fun text => text.toList[5]?) h
  simp only [String.toList_append, toList_heads, toList_tags] at hchars
  exact absurd hchars (by simp)

/-- The lines of a tag: its own name, and the name with `^{}` behind it. -/
theorem name_of_mem_tagLines {tag : ObjectId × String}
    (h : state.refs.lookup ("refs/tags/" ++ tag.2) = some (.object tag.1)) {name : String}
    (hname : name ∈ (tagLines gix state tag).map Prod.snd) :
    name = "refs/tags/" ++ tag.2 ∨ name = "refs/tags/" ++ tag.2 ++ "^\x7b\x7d" := by
  obtain ⟨ref, hmem, rfl⟩ := List.mem_map.1 hname
  obtain ⟨target, -, rfl | ⟨-, rfl⟩⟩ := (mem_tagLines h).1 hmem
  · exact Or.inl rfl
  · exact Or.inr rfl

theorem nodup_tagLines {tag : ObjectId × String}
    (hplain : '^' ∉ ("refs/tags/" ++ tag.2).toList) :
    ((tagLines gix state tag).map Prod.snd).Nodup := by
  have hne : "refs/tags/" ++ tag.2 ≠ "refs/tags/" ++ tag.2 ++ "^\x7b\x7d" :=
    fun heq => hplain (heq ▸ caret_mem _)
  unfold tagLines
  cases peelToId gix state ("refs/tags/" ++ tag.2) with
  | error err => exact List.nodup_nil
  | ok target =>
    by_cases hsame : tag.1 = target
    · simp only [if_pos hsame, List.map_cons, List.map_nil]
      exact List.nodup_singleton _
    · simp only [if_neg hsame, List.map_cons, List.map_nil, List.nodup_cons, List.mem_singleton,
        List.not_mem_nil, not_false_eq_true, List.nodup_nil, and_true]
      exact hne

/-- Every name is advertised once. -/
theorem nodup_advertisedRefs (hnames : PlainNames state) :
    ((advertisedRefs gix state).map Prod.snd).Nodup := by
  have htags : ∀ tag ∈ directRefs state.refs tagsPrefix,
      state.refs.lookup ("refs/tags/" ++ tag.2) = some (.object tag.1) ∧
        '^' ∉ ("refs/tags/" ++ tag.2).toList := by
    intro tag hmem
    rw [tagsPrefix_eq] at hmem
    have hlookup := mem_directRefs.1 hmem
    exact ⟨hlookup, (hnames _ (mem_keys_of_lookup hlookup)).2⟩
  have hbranchNames : ((directRefs state.refs headsPrefix).map
      fun branch => "refs/heads/" ++ branch.2).Nodup := by
    have hnodup := nodup_directRefs state "refs/heads/"
    have hmapped := hnodup.map (fun s t h => append_right_injective "refs/heads/" h)
    rwa [List.map_map] at hmapped
  have htagNames : ((directRefs state.refs tagsPrefix).flatMap
      fun tag => (tagLines gix state tag).map Prod.snd).Nodup := by
    rw [List.nodup_flatMap]
    refine ⟨fun tag hmem => nodup_tagLines (htags tag hmem).2, ?_⟩
    have hnodup : (directRefs state.refs tagsPrefix).Pairwise fun a b => a.2 ≠ b.2 :=
      List.pairwise_map.1 (nodup_directRefs state "refs/tags/")
    refine hnodup.imp_of_mem ?_
    intro a b ha hb hne name hname hname'
    obtain ⟨ha, haplain⟩ := htags a ha
    obtain ⟨hb, hbplain⟩ := htags b hb
    -- no name has a caret but those of peeled tags
    rcases name_of_mem_tagLines ha hname with rfl | rfl
    · rcases name_of_mem_tagLines hb hname' with heq | heq
      · exact hne (append_right_injective _ heq)
      · exact haplain (heq ▸ caret_mem _)
    · rcases name_of_mem_tagLines hb hname' with heq | heq
      · exact hbplain (heq ▸ caret_mem _)
      · exact hne (append_right_injective _ (append_left_injective _ heq))
  have hhead : ((advertisedHead gix state).toList.map fun _ => "HEAD").Nodup := by
    cases advertisedHead gix state with
    | none => exact List.nodup_nil
    | some id => exact List.nodup_singleton _
  simp only [advertisedRefs, List.map_append, List.map_map, List.map_flatMap, Function.comp_def]
  rw [List.nodup_append, List.nodup_append]
  refine ⟨⟨hhead, hbranchNames, ?_⟩, htagNames, ?_⟩
  · intro name hname other hother
    obtain ⟨-, -, rfl⟩ := List.mem_map.1 hname
    obtain ⟨branch, -, rfl⟩ := List.mem_map.1 hother
    exact head_ne_branch _
  · intro name hname other hother heq
    obtain ⟨tag, htag, hline⟩ := List.mem_flatMap.1 hother
    rw [← heq] at hline
    obtain ⟨suffix, hsuffix⟩ : ∃ suffix, name = "refs/tags/" ++ suffix := by
      rcases name_of_mem_tagLines (htags tag htag).1 hline with hplain | hpeeled
      · exact ⟨_, hplain⟩
      · exact ⟨tag.2 ++ "^\x7b\x7d", by rw [hpeeled, String.append_assoc]⟩
    rcases List.mem_append.1 hname with hname | hname
    · obtain ⟨-, -, rfl⟩ := List.mem_map.1 hname
      exact head_ne_tag _ hsuffix
    · obtain ⟨branch, -, rfl⟩ := List.mem_map.1 hname
      exact branch_ne_tag _ _ hsuffix

theorem nul_not_mem_of_advertised (hnames : PlainNames state) {name : String} {id : ObjectId}
    (h : Advertised gix state name id) : '\x00' ∉ name.toList ∧ name ≠ capabilitiesName := by
  have hcapabilities : capabilitiesName.toList.head? = some 'c' := by decide +kernel
  have hkey : ∀ {name target}, state.refs.lookup name = some target → '\x00' ∉ name.toList :=
    fun hlookup => (hnames _ (mem_keys_of_lookup hlookup)).1
  have hhead : ∀ {name : String} (c : Char), name.toList.head? = some c → c ≠ 'c' →
      name ≠ capabilitiesName := by
    rintro name c hname hc rfl
    exact hc (Option.some.inj (hname.symm.trans hcapabilities))
  cases h with
  | head _ =>
    rw [toList_HEAD]
    exact ⟨by decide, hhead 'H' (by rw [toList_HEAD]; rfl) (by decide)⟩
  | branch h =>
    refine ⟨hkey h, hhead 'r' ?_ (by decide)⟩
    rw [String.toList_append, toList_heads]
    rfl
  | tag h _ =>
    refine ⟨hkey h, hhead 'r' ?_ (by decide)⟩
    rw [String.toList_append, toList_tags]
    rfl
  | peeledTag h _ _ =>
    have hpeeledSuffix : '\x00' ∉ "^\x7b\x7d".toList := by simp
    constructor
    · rw [String.toList_append, List.mem_append, not_or]
      exact ⟨hkey h, hpeeledSuffix⟩
    · apply hhead 'r' _ (by decide)
      rw [String.toList_append, String.toList_append, toList_tags]
      rfl

end Advertised

/-- What a client makes of the advertisement of a repository, over SSH and behind the service line
of HTTP: each name once, with what the repository advertises under it. Everything that is
advertised is reached from a ref, and a repository with a branch advertises a `HEAD`. -/
theorem advertisement_exact (gix : Gix) (state : Repo) (capabilities : String)
    (hnames : PlainNames state)
    (hfits : ∀ line ∈ advertisementLines (advertisedRefs gix state) capabilities,
      line.length + 4 < 0x10000) :
    ∃ refs, (∀ behind,
        readAdvertisement (buildRefAdvertisement gix state capabilities ++ behind) =
          some (⟨refs, capabilityWords capabilities⟩, behind)) ∧
      (∀ service : String, (utf8 ("# service=" ++ service ++ "\n")).length + 4 < 0x10000 →
        let body := infoRefsBody service (buildRefAdvertisement gix state capabilities)
        readSection body.length body = some ([utf8 ("# service=" ++ service ++ "\n")],
          buildRefAdvertisement gix state capabilities)) ∧
      (refs.map Prod.snd).Nodup ∧
      (∀ name id, (id, name) ∈ refs ↔ Advertised gix state name id) ∧
      (∀ name id, (id, name) ∈ refs → ∃ ref tip, state.refs.lookup ref = some (.object tip) ∧
        Reachable gix.content tip id) ∧
      ∀ branch id, state.refs.lookup ("refs/heads/" ++ branch) = some (.object id) →
        ∃ head, (head, "HEAD") ∈ refs := by
  refine ⟨advertisedRefs gix state, ?_, ?_, nodup_advertisedRefs hnames,
    fun _ _ => mem_advertisedRefs, fun _ _ hmem => (mem_advertisedRefs.1 hmem).reached, ?_⟩
  · intro behind
    apply readAdvertisement_write hfits
    intro ref hmem
    exact nul_not_mem_of_advertised hnames (mem_advertisedRefs.1 hmem)
  · intro service hservice body
    have hsection := @readSection_section [utf8 ("# service=" ++ service ++ "\n")]
      (fun line hline => by rwa [List.mem_singleton.1 hline])
      (buildRefAdvertisement gix state capabilities)
    rw [List.flatMap_cons, List.flatMap_nil, List.append_nil] at hsection
    exact hsection
  · intro branch id hlookup
    obtain ⟨head, hhead⟩ := exists_head hlookup
    exact ⟨head, mem_advertisedRefs.2 hhead⟩

/-- The commit 1 on `main`, and an annotated tag 4 of it. -/
def taggedGix : Gix :=
  { leftoverGix with
    content := fun id =>
      if id = 4 then .tag (some ⟨1, "v1", ""⟩) else leftoverGix.content id }

def taggedRepo : Repo where
  disk := ⟨[1, 2, 4], [], []⟩
  refs := ((((∅ : RefStore).insert "refs/tags/v1" (.object 4)).insert "refs/heads/main"
    (.object 1)).insert "HEAD" (.symbolic "refs/heads/main"))

theorem plainNames_taggedRepo : PlainNames taggedRepo := by
  have hkeys : taggedRepo.refs.keys = ["HEAD", "refs/heads/main", "refs/tags/v1"] := by
    decide +kernel
  intro name hname
  simp only [hkeys, List.mem_cons, List.not_mem_nil, or_false] at hname
  rcases hname with rfl | rfl | rfl <;> decide +kernel

theorem advertisement_of_taggedRepo :
    ∃ refs, readAdvertisement (buildRefAdvertisement taggedGix taggedRepo uploadPackCapabilities) =
        some (⟨refs, ["side-band-64k", "ofs-delta", "agent=edda/0.1.0"]⟩, []) ∧
      (1, "HEAD") ∈ refs ∧ (4, "refs/tags/v1") ∈ refs ∧ (1, "refs/tags/v1^\x7b\x7d") ∈ refs := by
  obtain ⟨refs, hread, -, -, hmem, -, -⟩ := advertisement_exact taggedGix taggedRepo
    uploadPackCapabilities plainNames_taggedRepo (by decide +kernel)
  have hwords : capabilityWords uploadPackCapabilities =
      ["side-band-64k", "ofs-delta", "agent=edda/0.1.0"] := by decide +kernel
  have hall := hread []
  rw [List.append_nil, hwords] at hall
  have hlookup : taggedRepo.refs.lookup "refs/tags/v1" = some (.object 4) := by decide +kernel
  have hpeeled : peeled taggedGix taggedRepo 4 = .ok 1 := by decide +kernel
  refine ⟨refs, hall, (hmem _ _).2 (.head (by decide +kernel)), (hmem _ _).2 ?_, (hmem _ _).2 ?_⟩
  · exact @Advertised.tag taggedGix taggedRepo "v1" 4 1 hlookup hpeeled
  · exact @Advertised.peeledTag taggedGix taggedRepo "v1" 4 1 hlookup hpeeled (by decide)

end Edda.Git
