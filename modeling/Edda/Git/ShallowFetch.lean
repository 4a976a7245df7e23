import Edda.Git.Pack
import Edda.Support.NearestFirst

/-!
# What a shallow fetch leaves a client with

A client holds some objects, which contain its haves and are closed under references except
through the parents of its shallow commits. After a fetch it should hold every want, and be closed
except through the parents of its new shallow commits. The pack leaves out everything the haves
reach, as if the client held it, and a client with shallow commits does not hold what lies behind
them. So the fetch is complete when every object that the haves reach and that the fetch touches
is an object of the client; `shallowFetch_complete` proves that, and the converse.
-/

set_option autoImplicit false

namespace Edda.Git

open Edda.Support Edda.Support.Worklist

section Client

variable (content : ObjectId → Object)

/-- The references of an object, without the parents of a shallow commit. -/
def keptReferences (shallow : List ObjectId) (id : ObjectId) : List ObjectId :=
  match content id with
  | .commit (some commit) => if id ∈ shallow then [commit.tree] else commit.tree :: commit.parents
  | .tree (some entries) => entries.map fun entry => entry.oid
  | .tag (some tag) => [tag.target]
  | _ => []

/-- A set of objects is closed under references, except through the parents of shallow commits. -/
def ShallowClosed (shallow : List ObjectId) (objects : ObjectId → Prop) : Prop :=
  ∀ a, objects a → ∀ b ∈ keptReferences content shallow a, objects b

/-- What a client holds that sends these haves and shallow commits. -/
structure ClientHolds (haves clientShallow : List ObjectId) (client : ObjectId → Prop) : Prop where
  haves : ∀ id ∈ haves, client id
  closed : ShallowClosed content clientShallow client

/-- The shallow commits of the client after a fetch. -/
def shallowAfter (clientShallow : List ObjectId) (result : ShallowPack) : List ObjectId :=
  (clientShallow ++ result.newShallow).filter fun id => !decide (id ∈ result.unshallow)

/-- After the fetch the client holds every want, and what it holds is closed. -/
structure FetchComplete (wants clientShallow : List ObjectId) (client : ObjectId → Prop)
    (result : ShallowPack) : Prop where
  wants : ∀ id ∈ wants, client id ∨ id ∈ result.pack
  closed : ShallowClosed content (shallowAfter clientShallow result)
    fun id => client id ∨ id ∈ result.pack

/-- The ids that objects refer to name objects of the right kind. -/
structure WellTyped : Prop where
  tree : ∀ {id commit}, content id = .commit (some commit) →
    (content commit.tree).kind = .tree
  parents : ∀ {id commit}, content id = .commit (some commit) → ∀ parent ∈ commit.parents,
    (content parent).kind = .commit
  entries : ∀ {id entries}, content id = .tree (some entries) → ∀ entry ∈ entries,
    (content entry.oid).kind = .tree ∨ (content entry.oid).kind = .blob

theorem mem_shallowAfter {clientShallow : List ObjectId} {result : ShallowPack} {id : ObjectId} :
    id ∈ shallowAfter clientShallow result ↔
      (id ∈ clientShallow ∨ id ∈ result.newShallow) ∧ id ∉ result.unshallow := by
  simp [shallowAfter, or_and_right]

theorem keptReferences_subset {shallow : List ObjectId} {a b : ObjectId}
    (h : b ∈ keptReferences content shallow a) :
    ∃ ids, references (content a) = .ok ids ∧ b ∈ ids := by
  unfold keptReferences at h
  split at h
  · rename_i commit hcommit
    refine ⟨commit.tree :: commit.parents, by rw [hcommit]; rfl, ?_⟩
    split at h
    · rw [List.mem_singleton.1 h]
      exact List.mem_cons_self
    · exact h
  · rename_i entries htree
    exact ⟨_, by rw [htree]; rfl, h⟩
  · rename_i tag htag
    exact ⟨_, by rw [htag]; rfl, h⟩
  · simp at h

/-- A tree or a blob keeps all its references. -/
theorem mem_keptReferences_of_file {shallow : List ObjectId} {a b : ObjectId} {ids : List ObjectId}
    (hkind : (content a).kind = .tree ∨ (content a).kind = .blob)
    (href : references (content a) = .ok ids) (hb : b ∈ ids) :
    b ∈ keptReferences content shallow a := by
  unfold keptReferences
  cases hcontent : content a with
  | commit body => simp [hcontent, Object.kind] at hkind
  | tag body => simp [hcontent, Object.kind] at hkind
  | blob data =>
    rw [hcontent] at href
    obtain rfl := Except.ok.inj href
    simp at hb
  | tree body =>
    rw [hcontent] at href
    cases body with
    | none => exact absurd href (by simp [references])
    | some entries =>
      obtain rfl := Except.ok.inj href
      exact hb

/-- The parents of a commit that is not shallow are kept. -/
theorem mem_keptReferences_of_parent {shallow : List ObjectId} {a b : ObjectId}
    (hb : b ∈ parentsOf content a) (hshallow : a ∉ shallow) :
    b ∈ keptReferences content shallow a := by
  unfold parentsOf at hb
  unfold keptReferences
  split at hb
  · rename_i commit hcommit
    simp only [hcommit, if_neg hshallow]
    exact List.mem_cons_of_mem _ hb
  · simp at hb

end Client

section Fetch

variable (content : ObjectId → Object) (store : Store) (wants haves : List ObjectId)
  (spec : ShallowSpec)

/-! ## What a fetch sends and touches -/

/-- The commits and tags that a fetch sends, and the raw trees and blobs among its wants, with
their depths. -/
inductive Sent : ObjectId → Nat → Prop
  | want {id : ObjectId} : id ∈ wants → ¬ Had content store haves id → Sent id 1
  | parent {id parent : ObjectId} {depth : Nat} : Sent id depth → parent ∈ parentsOf content id →
      follows content store spec.deepen depth parent = .ok true →
      ¬ Had content store haves parent → Sent parent (depth + 1)
  | tag {id : ObjectId} {depth : Nat} {tag : Tag} : Sent id depth →
      content id = .tag (some tag) → ¬ Had content store haves tag.target → Sent tag.target depth

/-- The trees and blobs that a fetch sends. -/
inductive SentFile : ObjectId → Prop
  | start {id file : ObjectId} {depth : Nat} : Sent content store wants haves spec id depth →
      file ∈ filesOf content id → ¬ Had content store haves file → SentFile file
  | entry {id child : ObjectId} {ids : List ObjectId} : SentFile id →
      references (content id) = .ok ids → child ∈ ids → ¬ Had content store haves child →
      SentFile child

/-- The client is to hold the parents of a sent commit: none of them was cut, and the commit does
not stay shallow. -/
def Joined (id : ObjectId) (depth : Nat) : Prop :=
  cutsParent content store spec.deepen (id, depth) = false ∧
    (spec.deepen = .none → id ∉ spec.clientShallow)

/-- The objects that the client is to hold: the wants, and what the sent objects refer to. -/
inductive Touched : ObjectId → Prop
  | want {id : ObjectId} : id ∈ wants → Touched id
  | parent {id parent : ObjectId} {depth : Nat} : Sent content store wants haves spec id depth →
      Joined content store spec id depth → parent ∈ parentsOf content id → Touched parent
  | tag {id : ObjectId} {depth : Nat} {tag : Tag} : Sent content store wants haves spec id depth →
      content id = .tag (some tag) → Touched tag.target
  | file {id file : ObjectId} {depth : Nat} : Sent content store wants haves spec id depth →
      file ∈ filesOf content id → Touched file
  | entry {id child : ObjectId} {ids : List ObjectId} :
      SentFile content store wants haves spec id → references (content id) = .ok ids →
      child ∈ ids → Touched child

/-- What the haves reach and the fetch touches is an object of the client: nothing of it lies
behind a shallow commit of the client. -/
def ClientIntact (client : ObjectId → Prop) : Prop :=
  ∀ id, Had content store haves id → Touched content store wants haves spec id → client id

/-- A depth is the distance from the nearest want. It may not be where an annotated tag is wanted,
since the walk reaches the target of the tag only after the parents of the other wants. -/
def NearestDepths : Prop :=
  (∃ limit, spec.deepen = .depth limit) → ∀ id ∈ wants, (content id).kind ≠ .tag

/-! ## What a result delivers -/

/-- A result delivers what it should: every want and every kept reference of the pack is packed or
is reached by the haves. -/
structure Delivers (result : ShallowPack) : Prop where
  covered : ∀ id ∈ wants, Had content store haves id ∨ id ∈ result.pack
  kept : ∀ a ∈ result.pack,
    ∀ b ∈ keptReferences content (shallowAfter spec.clientShallow result) a,
      b ∈ result.pack ∨
        (Had content store haves b ∧ Touched content store wants haves spec b)
  unshallow : ∀ id ∈ result.unshallow, id ∈ result.pack
  fresh : ∀ id ∈ result.pack, ¬ Had content store haves id

/-- What is touched is needed: it is a want, or a kept reference of the pack. -/
def TouchesNeeded (result : ShallowPack) : Prop :=
  ∀ b, Had content store haves b → Touched content store wants haves spec b → b ∈ wants ∨
    ∃ a ∈ result.pack, b ∈ keptReferences content (shallowAfter spec.clientShallow result) a

variable {wants haves spec}

theorem Sent.not_had {id : ObjectId} {depth : Nat}
    (h : Sent content store wants haves spec id depth) : ¬ Had content store haves id := by
  cases h <;> assumption

theorem SentFile.not_had {id : ObjectId} (h : SentFile content store wants haves spec id) :
    ¬ Had content store haves id := by
  cases h <;> assumption

theorem mem_filesOf_kind (htyped : WellTyped content) {id file : ObjectId}
    (h : file ∈ filesOf content id) :
    (content file).kind = .tree ∨ (content file).kind = .blob := by
  unfold filesOf at h
  split at h
  · rename_i commit hcommit
    rw [List.mem_singleton.1 h]
    exact Or.inl (htyped.tree hcommit)
  · rename_i body htree
    rw [List.mem_singleton.1 h, htree]
    exact Or.inl rfl
  · rename_i data hblob
    rw [List.mem_singleton.1 h, hblob]
    exact Or.inr rfl
  · simp at h

/-- In a well-typed graph the sent files are trees and blobs. -/
theorem SentFile.kind (htyped : WellTyped content) {id : ObjectId}
    (h : SentFile content store wants haves spec id) :
    (content id).kind = .tree ∨ (content id).kind = .blob := by
  induction h with
  | start _ hfile _ => exact mem_filesOf_kind content htyped hfile
  | @entry id child ids _ href hchild _ ih =>
    cases hcontent : content id with
    | commit body => simp [hcontent, Object.kind] at ih
    | tag body => simp [hcontent, Object.kind] at ih
    | blob data =>
      rw [hcontent] at href
      obtain rfl := Except.ok.inj href
      simp at hchild
    | tree body =>
      rw [hcontent] at href
      cases body with
      | none => exact absurd href (by simp [references])
      | some entries =>
        obtain rfl := Except.ok.inj href
        obtain ⟨entry, hentry, rfl⟩ := List.mem_map.1 hchild
        exact htyped.entries hcontent entry hentry

/-- A client that holds what is touched ends up complete. -/
theorem Delivers.complete {result : ShallowPack}
    (h : Delivers content store wants haves spec result)
    {client : ObjectId → Prop} (hclient : ClientHolds content haves spec.clientShallow client)
    (hintact : ClientIntact content store wants haves spec client) :
    FetchComplete content wants spec.clientShallow client result where
  wants := by
    intro id hid
    rcases h.covered id hid with hhad | hpack
    · exact Or.inl (hintact id hhad (.want hid))
    · exact Or.inr hpack
  closed := by
    intro a ha b hb
    by_cases hpack : a ∈ result.pack
    · rcases h.kept a hpack b hb with hb | ⟨hhad, htouched⟩
      · exact Or.inr hb
      · exact Or.inl (hintact b hhad htouched)
    · have hclientA : client a := ha.resolve_right hpack
      -- an object of the client that is not packed is as shallow as before
      refine Or.inl (hclient.closed a hclientA b ?_)
      unfold keptReferences at hb ⊢
      split at hb
      · by_cases hshallow : a ∈ spec.clientShallow
        · have hafter : a ∈ shallowAfter spec.clientShallow result :=
            mem_shallowAfter.2 ⟨Or.inl hshallow, fun hun => hpack (h.unshallow a hun)⟩
          rw [if_pos hafter] at hb
          rwa [if_pos hshallow]
        · rw [if_neg hshallow]
          split at hb
          · rw [List.mem_singleton.1 hb]
            exact List.mem_cons_self
          · exact hb
      · exact hb
      · exact hb
      · exact hb

/-- A client that ends up complete holds what is touched, if that is needed. -/
theorem Delivers.intact {result : ShallowPack}
    (h : Delivers content store wants haves spec result)
    (hneeded : TouchesNeeded content store wants haves spec result)
    {client : ObjectId → Prop}
    (hcomplete : FetchComplete content wants spec.clientShallow client result) :
    ClientIntact content store wants haves spec client := by
  intro b hhad htouched
  have hheld : client b ∨ b ∈ result.pack := by
    rcases hneeded b hhad htouched with hwant | ⟨a, ha, hb⟩
    · exact hcomplete.wants b hwant
    · exact hcomplete.closed a (Or.inr ha) b hb
  exact hheld.resolve_right fun hpack => h.fresh b hpack hhad

/-- The tree of a sent commit is one of its kept references. -/
theorem mem_keptReferences_of_sent {shallow : List ObjectId} {id file : ObjectId} {depth : Nat}
    (hsent : Sent content store wants haves spec id depth) (hfile : file ∈ filesOf content id)
    (hhad : Had content store haves file) : file ∈ keptReferences content shallow id := by
  unfold filesOf at hfile
  split at hfile
  · rename_i commit hcommit
    rw [List.mem_singleton.1 hfile]
    by_cases hshallow : id ∈ shallow <;> simp [keptReferences, hcommit, hshallow]
  · rw [List.mem_singleton.1 hfile] at hhad
    exact absurd hhad hsent.not_had
  · rw [List.mem_singleton.1 hfile] at hhad
    exact absurd hhad hsent.not_had
  · simp at hfile

/-! ## A fetch that is not shallow -/

/-- A parent of a commit whose parents are not cut is followed. -/
theorem follows_of_not_cut {id parent : ObjectId} {depth : Nat} {deepen : Deepen}
    (hcut : cutsParent content store deepen (id, depth) = false)
    (hparent : parent ∈ parentsOf content id) {follow : Bool}
    (hfollow : follows content store deepen depth parent = .ok follow) : follow = true := by
  have := List.any_eq_false.1 hcut parent hparent
  rw [hfollow] at this
  simpa using this

section Unbounded

variable {seen : ObjectId → Bool} (hseen : ∀ id, seen id = true ↔ Had content store haves id)

include hseen

theorem not_had_of_reaches {start : List ObjectId} {id : ObjectId}
    (h : Reaches (objectWalk content store seen) start id) : ¬ Had content store haves id := by
  have hskip : seen id = false := h.skip_eq_false
  intro hhad
  rw [(hseen id).2 hhad] at hskip
  exact absurd hskip (by simp)

/-- What the walk over the wants reaches is sent. -/
theorem sent_of_reaches {id : ObjectId} (hdeepen : spec.deepen = .none)
    (h : Reaches (objectWalk content store seen) wants id) :
    (∃ depth, Sent content store wants haves spec id depth) ∨
      SentFile content store wants haves spec id := by
  have hfresh : ∀ {b}, Reaches (objectWalk content store seen) wants b →
      ¬ Had content store haves b := fun hb => not_had_of_reaches content store hseen hb
  obtain ⟨a, ha, hskip, hpath⟩ := h
  induction hpath with
  | refl => exact Or.inl ⟨1, .want ha (hfresh (.of_mem _ ha hskip))⟩
  | @tail b c hpath hedge ih =>
    have hc : ¬ Had content store haves c :=
      hfresh ⟨a, ha, hskip, hpath.tail hedge⟩
    obtain ⟨ids, hchildren, hmem, -⟩ := hedge
    have href := ((objectChildren_eq_ok content store).1 hchildren).2
    rcases ih with ⟨depth, hb⟩ | hb
    · cases hcontent : content b with
      | commit body =>
        rw [hcontent] at href
        cases body with
        | none => exact absurd href (by simp [references])
        | some commit =>
          obtain rfl := Except.ok.inj href
          rcases List.mem_cons.1 hmem with rfl | hparent
          · exact Or.inr (.start hb (by simp [filesOf, hcontent]) hc)
          · refine Or.inl ⟨depth + 1, .parent hb ?_ (by simp [follows, hdeepen]) hc⟩
            simpa [parentsOf, hcontent] using hparent
      | tag body =>
        rw [hcontent] at href
        cases body with
        | none => exact absurd href (by simp [references])
        | some tag =>
          obtain rfl := Except.ok.inj href
          obtain rfl := List.mem_singleton.1 hmem
          exact Or.inl ⟨depth, .tag hb hcontent hc⟩
      | tree body =>
        exact Or.inr (.entry (.start hb (by simp [filesOf, hcontent]) hb.not_had) href hmem hc)
      | blob data =>
        exact Or.inr (.entry (.start hb (by simp [filesOf, hcontent]) hb.not_had) href hmem hc)
    · exact Or.inr (.entry hb href hmem hc)

variable (hclosed : ∀ id, Reaches (objectWalk content store seen) wants id →
  id ∈ store ∧ ∃ ids, references (content id) = .ok ids)

include hclosed

/-- A reference of a reached object is reached, or the haves reach it. -/
theorem reaches_of_reference {a b : ObjectId} {ids : List ObjectId}
    (ha : Reaches (objectWalk content store seen) wants a)
    (href : references (content a) = .ok ids) (hb : b ∈ ids) (hnot : ¬ Had content store haves b) :
    Reaches (objectWalk content store seen) wants b := by
  have hskip : seen b = false := by
    cases hs : seen b with
    | false => rfl
    | true => exact absurd ((hseen b).1 hs) hnot
  exact ha.tail _ ⟨ids, (objectChildren_eq_ok content store).2 ⟨(hclosed a ha).1, href⟩, hb, hskip⟩

/-- What is sent, the walk over the wants reaches. -/
theorem reaches_of_sent {id : ObjectId} {depth : Nat}
    (h : Sent content store wants haves spec id depth) :
    Reaches (objectWalk content store seen) wants id := by
  induction h with
  | @want id hid hnot =>
    refine .of_mem _ hid ?_
    cases hs : seen id with
    | false => exact hs
    | true => exact absurd ((hseen id).1 hs) hnot
  | @parent id parent depth _ hparent _ hnot ih =>
    obtain ⟨ids, href, hmem⟩ := refers_of_mem_parentsOf content hparent
    exact reaches_of_reference content store hseen hclosed ih href hmem hnot
  | @tag id depth tag _ hcontent hnot ih =>
    exact reaches_of_reference content store hseen hclosed ih
      (by rw [hcontent]; rfl) List.mem_cons_self hnot

theorem reaches_of_sentFile {id : ObjectId} (h : SentFile content store wants haves spec id) :
    Reaches (objectWalk content store seen) wants id := by
  induction h with
  | @start id file depth hsent hfile hnot =>
    have hid := reaches_of_sent content store hseen hclosed hsent
    unfold filesOf at hfile
    split at hfile
    · rename_i commit hcommit
      rw [List.mem_singleton.1 hfile] at hnot ⊢
      exact reaches_of_reference content store hseen hclosed hid (by rw [hcommit]; rfl)
        List.mem_cons_self hnot
    · rw [List.mem_singleton.1 hfile]
      exact hid
    · rw [List.mem_singleton.1 hfile]
      exact hid
    · simp at hfile
  | entry _ href hchild hnot ih =>
    exact reaches_of_reference content store hseen hclosed ih href hchild hnot

end Unbounded

/-- What a fetch without a bound delivers. -/
theorem delivers_of_unbounded {result : ShallowPack} (hdeepen : spec.deepen = .none)
    (h : buildShallowPack content store wants haves spec = .ok result) :
    Delivers content store wants haves spec result ∧
      (WellTyped content →
        TouchesNeeded content store wants haves spec result) := by
  unfold buildShallowPack at h
  rw [if_pos hdeepen] at h
  split at h
  · exact absurd h (by simp)
  rename_i pack hpack
  obtain rfl := Except.ok.inj h
  obtain ⟨seen, hseen, hwalk, rfl⟩ := buildPackExcluding_eq_ok content store hpack
  have hmem : ∀ id, id ∈ (objectRun content store seen wants).order ↔
      Reaches (objectWalk content store seen) wants id := by
    intro id
    rw [State.order, List.mem_reverse]
    exact mem_objectRun_iff content store hwalk id
  have hclosed : ∀ id, Reaches (objectWalk content store seen) wants id →
      id ∈ store ∧ ∃ ids, references (content id) = .ok ids :=
    fun id hid => stored_of_objectRun content store hwalk hid
  have hshallow : ∀ id, id ∈ shallowAfter spec.clientShallow
      ⟨(objectRun content store seen wants).order, [], []⟩ ↔ id ∈ spec.clientShallow := by
    simp [mem_shallowAfter]
  have hcut : ∀ entry, cutsParent content store spec.deepen entry = false := by
    intro entry
    simp [cutsParent, follows, hdeepen]
  refine ⟨⟨?_, ?_, by simp, ?_⟩, ?_⟩
  · intro id hid
    by_cases hhad : Had content store haves id
    · exact Or.inl hhad
    · have hsent : Sent content store wants haves spec id 1 := .want hid hhad
      exact Or.inr ((hmem id).2 (reaches_of_sent content store hseen hclosed hsent))
  · intro a ha b hb
    have hreach := (hmem a).1 ha
    obtain ⟨ids, href, hbids⟩ := keptReferences_subset content hb
    by_cases hhad : Had content store haves b
    · refine Or.inr ⟨hhad, ?_⟩
      rcases sent_of_reaches content store hseen hdeepen hreach with ⟨depth, hsent⟩ | hfile
      · unfold keptReferences at hb
        split at hb
        · rename_i commit hcommit
          have hfiles : commit.tree ∈ filesOf content a := by simp [filesOf, hcommit]
          split at hb
          · rw [List.mem_singleton.1 hb]
            exact .file hsent hfiles
          · rename_i hnot
            rcases List.mem_cons.1 hb with rfl | hparent
            · exact .file hsent hfiles
            · exact .parent hsent ⟨hcut _, fun _ hmem => hnot ((hshallow a).2 hmem)⟩
                (by simpa [parentsOf, hcommit] using hparent)
        · rename_i entries htree
          exact .entry (.start hsent (by simp [filesOf, htree]) hsent.not_had) href hbids
        · rename_i tag htag
          rw [List.mem_singleton.1 hb]
          exact .tag hsent htag
        · simp at hb
      · exact .entry hfile href hbids
    · exact Or.inl ((hmem b).2
        (reaches_of_reference content store hseen hclosed hreach href hbids hhad))
  · exact fun id hid => not_had_of_reaches content store hseen ((hmem id).1 hid)
  · intro htyped b hhad htouched
    cases htouched with
    | want hid => exact Or.inl hid
    | @parent id parent depth hsent hjoined hparent =>
      refine Or.inr ⟨id, (hmem id).2 (reaches_of_sent content store hseen hclosed hsent), ?_⟩
      exact mem_keptReferences_of_parent content hparent
        fun hmem => hjoined.2 hdeepen ((hshallow id).1 hmem)
    | @tag id depth tag hsent hcontent =>
      refine Or.inr ⟨id, (hmem id).2 (reaches_of_sent content store hseen hclosed hsent), ?_⟩
      simp [keptReferences, hcontent]
    | @file id file depth hsent hfile =>
      refine Or.inr ⟨id, (hmem id).2 (reaches_of_sent content store hseen hclosed hsent), ?_⟩
      exact mem_keptReferences_of_sent content store hsent hfile hhad
    | @entry id child ids hsent href hchild =>
      refine Or.inr ⟨id, (hmem id).2 (reaches_of_sentFile content store hseen hclosed hsent), ?_⟩
      exact mem_keptReferences_of_file content (hsent.kind content store htyped) href hchild

/-! ## A bounded fetch -/

section Bounded

variable {seen covered : ObjectId → Bool} {order : List (ObjectId × Nat)} {result : ShallowPack}
  (hfetch : BoundedFetch content store wants haves spec seen covered order result)

include hfetch

/-- No two visited entries have one id. -/
theorem depth_unique {id : ObjectId} {depth depth' : Nat} (h : (id, depth) ∈ order)
    (h' : (id, depth') ∈ order) : depth = depth' := by
  have hnodup := (run_sound (commitWalk content store spec.deepen seen) (wantEntries wants)
    (fuel store (referenceCount content) (wantEntries wants))).nodup
  have hinj := List.inj_on_of_nodup_map hnodup
  have heq := hinj ((mem_order_iff content store hfetch).1 h)
    ((mem_order_iff content store hfetch).1 h') rfl
  exact (Prod.mk.inj heq).2

theorem not_had_of_skip {id : ObjectId} (h : seen id = false) : ¬ Had content store haves id := by
  intro hhad
  rw [(hfetch.seen_iff id).2 hhad] at h
  exact absurd h (by simp)

theorem skip_of_not_had {id : ObjectId} (h : ¬ Had content store haves id) : seen id = false := by
  cases hs : seen id with
  | false => rfl
  | true => exact absurd ((hfetch.seen_iff id).1 hs) h

/-- The entries that the walk over the commits reaches are sent. -/
theorem sent_of_reaches_commit {entry : ObjectId × Nat}
    (h : Reaches (commitWalk content store spec.deepen seen) (wantEntries wants) entry) :
    Sent content store wants haves spec entry.1 entry.2 := by
  obtain ⟨a, ha, hskip, hpath⟩ := h
  induction hpath with
  | refl =>
    obtain ⟨id, hid, rfl⟩ := List.mem_map.1 ha
    exact .want hid (not_had_of_skip content store hfetch hskip)
  | @tail b c _ hedge ih =>
    obtain ⟨children, hchildren, hmem, hskip'⟩ := hedge
    have hfresh := not_had_of_skip content store hfetch hskip'
    obtain ⟨-, ⟨tag, hcontent, rfl⟩ | ⟨commit, followed, hcontent, hfollowed, rfl⟩ | ⟨-, rfl⟩⟩ :=
      commitChildren_eq_ok content store hchildren
    · obtain rfl := List.mem_singleton.1 hmem
      exact .tag ih hcontent hfresh
    · obtain ⟨parent, hparent, rfl⟩ := List.mem_map.1 hmem
      obtain ⟨hparents, hfollow⟩ := (mem_followedParents content store hfollowed parent).1 hparent
      exact .parent ih (by simpa [parentsOf, hcontent] using hparents) hfollow hfresh
    · simp at hmem

theorem sent_of_mem_order {id : ObjectId} {depth : Nat} (h : (id, depth) ∈ order) :
    Sent content store wants haves spec id depth :=
  sent_of_reaches_commit content store hfetch
    ((run_sound _ _ _).reached _ ((mem_order_iff content store hfetch).1 h))

/-- The children of a visited entry are visited, or the haves reach them. -/
theorem child_visited {entry : ObjectId × Nat} (hentry : entry ∈ order) :
    ∃ children, commitChildren content store spec.deepen entry = .ok children ∧
      ∀ child ∈ children, Had content store haves child.1 ∨ ∃ depth, (child.1, depth) ∈ order := by
  have hvisited := (mem_order_iff content store hfetch).1 hentry
  obtain ⟨children, hchildren⟩ := (run_sound (commitWalk content store spec.deepen seen)
    (wantEntries wants) (fuel store (referenceCount content) (wantEntries wants))).expanded entry
    hvisited
  have hclosed := run_closed (commitWalk content store spec.deepen seen) (wantEntries wants)
    (fuel store (referenceCount content) (wantEntries wants))
  have hqueue := queue_eq_nil content store hfetch
  refine ⟨children, hchildren, fun child hchild => ?_⟩
  rcases hclosed.children_done hfetch.commits entry hvisited children hchildren child hchild with
    h | h | h
  · exact Or.inl ((hfetch.seen_iff child.1).1 h)
  · obtain ⟨⟨id', depth⟩, hmem, heq⟩ := List.mem_map.1 h
    obtain rfl : id' = child.1 := heq
    exact Or.inr ⟨depth, (mem_order_iff content store hfetch).2 hmem⟩
  · exact absurd (hqueue ▸ h) (by simp)

/-- The files that a visited entry leads to are packed, or the haves reach them. -/
theorem file_packed {id file : ObjectId} {depth : Nat} (h : (id, depth) ∈ order)
    (hfile : file ∈ filesOf content id) :
    Had content store haves file ∨ file ∈ result.pack := by
  cases hs : covered file with
  | true =>
    rcases (hfetch.covered_iff file).1 hs with hhad | hpacked
    · exact Or.inl hhad
    · exact Or.inr ((mem_pack_iff content store hfetch).2 (Or.inl hpacked))
  | false =>
    refine Or.inr ((mem_pack_iff content store hfetch).2 (Or.inr (.of_mem _ ?_ hs)))
    exact List.mem_flatMap.2 ⟨(id, depth), h, hfile⟩

/-- A visited entry is packed. -/
theorem visited_packed {id : ObjectId} {depth : Nat} (h : (id, depth) ∈ order) :
    id ∈ result.pack := by
  cases hpacked : packedAtVisit content id with
  | true =>
    refine (mem_pack_iff content store hfetch).2 (Or.inl ?_)
    exact (mem_packedOf_iff content).2 ⟨⟨depth, h⟩, hpacked⟩
  | false =>
    have hself : id ∈ filesOf content id := by
      unfold packedAtVisit at hpacked
      unfold filesOf
      split at hpacked
      · simp at hpacked
      · simp at hpacked
      · rename_i htree
        simp [htree]
      · rename_i hblob
        simp [hblob]
    have hfresh := (sent_of_mem_order content store hfetch h).not_had
    exact (file_packed content store hfetch h hself).resolve_left hfresh

/-- What the walk over the files reaches is sent. -/
theorem sentFile_of_reaches {id : ObjectId}
    (h : Reaches (objectWalk content store covered) (fileStarts content order) id) :
    SentFile content store wants haves spec id := by
  have hfresh : ∀ b, covered b = false → ¬ Had content store haves b := by
    intro b hb hhad
    rw [(hfetch.covered_iff b).2 (Or.inl hhad)] at hb
    exact absurd hb (by simp)
  obtain ⟨a, ha, hskip, hpath⟩ := h
  induction hpath with
  | refl =>
    obtain ⟨⟨id, depth⟩, hentry, hfile⟩ := List.mem_flatMap.1 ha
    exact .start (sent_of_mem_order content store hfetch hentry) hfile (hfresh _ hskip)
  | @tail b c _ hedge ih =>
    obtain ⟨ids, hchildren, hmem, hskip'⟩ := hedge
    exact .entry ih ((objectChildren_eq_ok content store).1 hchildren).2 hmem (hfresh _ hskip')

/-- A reference of a file that is packed is packed, or the haves reach it. -/
theorem reference_packed {a b : ObjectId} {ids : List ObjectId}
    (ha : Reaches (objectWalk content store covered) (fileStarts content order) a)
    (href : references (content a) = .ok ids) (hb : b ∈ ids) :
    Had content store haves b ∨ b ∈ result.pack := by
  cases hs : covered b with
  | true =>
    rcases (hfetch.covered_iff b).1 hs with hhad | hpacked
    · exact Or.inl hhad
    · exact Or.inr ((mem_pack_iff content store hfetch).2 (Or.inl hpacked))
  | false =>
    have hstored := (stored_of_objectRun content store hfetch.files ha).1
    exact Or.inr ((mem_pack_iff content store hfetch).2 (Or.inr
      (ha.tail _ ⟨ids, (objectChildren_eq_ok content store).2 ⟨hstored, href⟩, hb, hs⟩)))

theorem mem_newShallow_iff {id : ObjectId} :
    id ∈ result.newShallow ↔ ∃ depth, (id, depth) ∈ order ∧
      cutsParent content store spec.deepen (id, depth) = true ∧ id ∉ spec.clientShallow := by
  rw [hfetch.newShallow_eq]
  simp [newShallowOf]

theorem mem_unshallow_iff {id : ObjectId} :
    id ∈ result.unshallow ↔ ∃ depth, (id, depth) ∈ order ∧
      cutsParent content store spec.deepen (id, depth) = false ∧ parentsOf content id ≠ [] ∧
      id ∈ spec.clientShallow := by
  rw [hfetch.unshallow_eq]
  simp [unshallowOf, and_assoc]

/-- A visited commit with parents is shallow afterwards exactly when a parent of it was cut. -/
theorem mem_shallowAfter_iff_cut {id : ObjectId} {depth : Nat} (h : (id, depth) ∈ order)
    (hparents : parentsOf content id ≠ []) :
    id ∈ shallowAfter spec.clientShallow result ↔
      cutsParent content store spec.deepen (id, depth) = true := by
  rw [mem_shallowAfter, mem_newShallow_iff content store hfetch,
    mem_unshallow_iff content store hfetch]
  have hunique : ∀ depth', (id, depth') ∈ order → depth' = depth :=
    fun depth' h' => depth_unique content store hfetch h' h
  constructor
  · rintro ⟨hclient | ⟨depth', h', hcut, -⟩, hnot⟩
    · by_contra hcut
      exact hnot ⟨depth, h, by simpa using hcut, hparents, hclient⟩
    · rwa [hunique depth' h'] at hcut
  · intro hcut
    refine ⟨?_, ?_⟩
    · by_cases hclient : id ∈ spec.clientShallow
      · exact Or.inl hclient
      · exact Or.inr ⟨depth, h, hcut, hclient⟩
    · rintro ⟨depth', h', hnot, -, -⟩
      rw [hunique depth' h', hcut] at hnot
      exact absurd hnot (by simp)

/-- The kept references of a visited commit or tag are packed, or the haves reach them. -/
theorem kept_of_visited {a b : ObjectId} {depth : Nat} (ha : (a, depth) ∈ order)
    (hpacked : packedAtVisit content a = true) (hdeepen : spec.deepen ≠ .none)
    (hb : b ∈ keptReferences content (shallowAfter spec.clientShallow result) a) :
    b ∈ result.pack ∨
      (Had content store haves b ∧ Touched content store wants haves spec b) := by
  have hsent := sent_of_mem_order content store hfetch ha
  obtain ⟨children, hchildren, hvisited⟩ := child_visited content store hfetch ha
  have hchild : ∀ child ∈ children, Had content store haves child.1 ∨ child.1 ∈ result.pack :=
    fun child hmem => (hvisited child hmem).imp id
      fun ⟨_, horder⟩ => visited_packed content store hfetch horder
  obtain ⟨-, ⟨tag, hcontent, rfl⟩ | ⟨commit, followed, hcontent, hfollowed, rfl⟩ | ⟨hkind, -⟩⟩ :=
    commitChildren_eq_ok content store hchildren
  · have hb' : b = tag.target := by simpa [keptReferences, hcontent] using hb
    subst hb'
    rcases hchild (tag.target, depth) (by simp) with hhad | hpack
    · exact Or.inr ⟨hhad, .tag hsent hcontent⟩
    · exact Or.inl hpack
  · have htree : b = commit.tree → b ∈ result.pack ∨
        (Had content store haves b ∧ Touched content store wants haves spec b) := by
      rintro rfl
      have hfile : commit.tree ∈ filesOf content a := by simp [filesOf, hcontent]
      rcases file_packed content store hfetch ha hfile with hhad | hpack
      · exact Or.inr ⟨hhad, .file hsent hfile⟩
      · exact Or.inl hpack
    simp only [keptReferences, hcontent] at hb
    split at hb
    · exact htree (List.mem_singleton.1 hb)
    · rename_i hnot
      rcases List.mem_cons.1 hb with hb | hparent
      · exact htree hb
      · have hparents : b ∈ parentsOf content a := by simpa [parentsOf, hcontent] using hparent
        have hcut : cutsParent content store spec.deepen (a, depth) = false := by
          by_contra hcut
          exact hnot ((mem_shallowAfter_iff_cut content store hfetch ha
            (List.ne_nil_of_mem hparents)).2 (by simpa using hcut))
        obtain ⟨follow, hfollow⟩ := exists_follows content store hfollowed b hparent
        have htrue := follows_of_not_cut content store hcut hparents hfollow
        subst htrue
        have hmem : b ∈ followed :=
          (mem_followedParents content store hfollowed b).2 ⟨hparent, hfollow⟩
        rcases hchild (b, depth + 1) (List.mem_map.2 ⟨b, hmem, rfl⟩) with hhad | hpack
        · exact Or.inr ⟨hhad, .parent hsent ⟨hcut, fun h => absurd h hdeepen⟩ hparents⟩
        · exact Or.inl hpack
  · unfold packedAtVisit at hpacked
    split at hpacked
    · rename_i hcommit
      rw [hcommit] at hkind
      simp [Object.kind] at hkind
    · rename_i htag
      rw [htag] at hkind
      simp [Object.kind] at hkind
    · simp at hpacked
    · simp at hpacked

theorem delivers_of_bounded (hdeepen : spec.deepen ≠ .none) :
    Delivers content store wants haves spec result where
  covered := by
    intro id hid
    rcases want_visited content store hfetch hid with hhad | ⟨depth, horder⟩
    · exact Or.inl hhad
    · exact Or.inr (visited_packed content store hfetch horder)
  kept := by
    intro a ha b hb
    rcases (mem_pack_iff content store hfetch).1 ha with hpacked | hfile
    · obtain ⟨⟨depth, horder⟩, hvisit⟩ := (mem_packedOf_iff content).1 hpacked
      exact kept_of_visited content store hfetch horder hvisit hdeepen hb
    · obtain ⟨ids, href, hmem⟩ := keptReferences_subset content hb
      rcases reference_packed content store hfetch hfile href hmem with hhad | hpack
      · exact Or.inr ⟨hhad, .entry (sentFile_of_reaches content store hfetch hfile) href hmem⟩
      · exact Or.inl hpack
  unshallow := by
    intro id hid
    obtain ⟨depth, horder, -⟩ := (mem_unshallow_iff content store hfetch).1 hid
    exact visited_packed content store hfetch horder
  fresh := by
    intro id hid
    rcases (mem_pack_iff content store hfetch).1 hid with hpacked | hfile
    · obtain ⟨⟨depth, horder⟩, -⟩ := (mem_packedOf_iff content).1 hpacked
      exact (sent_of_mem_order content store hfetch horder).not_had
    · exact (sentFile_of_reaches content store hfetch hfile).not_had

/-! ## The depths of a bounded fetch -/

omit hfetch in
/-- The rank of an entry: its depth where the fetch is bounded by depth. -/
def depthRank (deepen : Deepen) (entry : ObjectId × Nat) : Nat :=
  match deepen with
  | .depth _ => entry.2
  | _ => 0

omit hfetch in
/-- The rank of an edge. -/
def depthWeight (deepen : Deepen) : Nat :=
  match deepen with
  | .depth _ => 1
  | _ => 0

omit hfetch in
/-- A parent that is followed from one rank is followed from every lower one. -/
theorem follows_of_rank_le {a b : ObjectId × Nat} {parent : ObjectId}
    (hrank : depthRank spec.deepen a ≤ depthRank spec.deepen b)
    (h : follows content store spec.deepen b.2 parent = .ok true) :
    follows content store spec.deepen a.2 parent = .ok true := by
  unfold follows at h ⊢
  unfold depthRank at hrank
  cases hdeepen : spec.deepen with
  | none => rfl
  | depth limit =>
    simp only [hdeepen, Except.ok.injEq, decide_eq_true_eq] at h hrank ⊢
    omega
  | since seconds =>
    simp only [hdeepen] at h ⊢
    exact h

omit hfetch in
/-- Without wanted tags a depth-bounded fetch sends no tag. -/
theorem Sent.kind_ne_tag (htyped : WellTyped content)
    (hwants : ∀ id ∈ wants, (content id).kind ≠ .tag) {id : ObjectId} {depth : Nat}
    (h : Sent content store wants haves spec id depth) : (content id).kind ≠ .tag := by
  induction h with
  | want hid _ => exact hwants _ hid
  | @parent id parent depth _ hparent _ _ _ =>
    unfold parentsOf at hparent
    split at hparent
    · rename_i commit hcommit
      rw [htyped.parents hcommit parent hparent]
      simp
    · simp at hparent
  | @tag id depth tag _ hcontent _ ih =>
    rw [hcontent] at ih
    exact absurd rfl ih

theorem ranked_commitWalk (htyped : WellTyped content) (hnearest : NearestDepths content wants spec) :
    Ranked (commitWalk content store spec.deepen seen) (wantEntries wants)
      (depthRank spec.deepen) (depthWeight spec.deepen) where
  discipline := rfl
  start_rank := by
    intro a ha b hb
    obtain ⟨_, _, rfl⟩ := List.mem_map.1 ha
    obtain ⟨_, _, rfl⟩ := List.mem_map.1 hb
    unfold depthRank
    cases spec.deepen <;> rfl
  child_rank := by
    intro a ha children hchildren b hb
    cases hdeepen : spec.deepen with
    | none => rfl
    | since seconds => rfl
    | depth limit =>
      have hsent := sent_of_reaches_commit content store hfetch ha
      have hnotTag := hsent.kind_ne_tag content store htyped (hnearest ⟨limit, hdeepen⟩)
      obtain ⟨-, ⟨tag, hcontent, rfl⟩ | ⟨commit, followed, hcontent, hfollowed, rfl⟩ | ⟨-, rfl⟩⟩ :=
        commitChildren_eq_ok content store hchildren
      · rw [hcontent] at hnotTag
        exact absurd rfl hnotTag
      · obtain ⟨parent, -, rfl⟩ := List.mem_map.1 hb
        rfl
      · simp at hb
  covers := by
    intro a b hkey hrank as bs has hbs d hd
    have hkey' : a.1 = b.1 := hkey
    obtain ⟨-, ha⟩ := commitChildren_eq_ok content store has
    obtain ⟨-, hb⟩ := commitChildren_eq_ok content store hbs
    rcases hb with ⟨tag, hcontent, rfl⟩ | ⟨commit, followed, hcontent, hfollowed, rfl⟩ | ⟨-, rfl⟩
    · obtain rfl := List.mem_singleton.1 hd
      rw [hkey', hcontent] at ha
      rcases ha with ⟨tag', heq, rfl⟩ | ⟨_, _, heq, _⟩ | ⟨hkind, _⟩
      · obtain rfl : tag = tag' := by simpa using heq
        refine ⟨(tag.target, a.2), by simp, rfl, ?_⟩
        unfold depthRank at hrank ⊢
        cases hdeepen : spec.deepen <;> simp_all
      · exact absurd heq (by simp)
      · simp [Object.kind] at hkind
    · obtain ⟨parent, hparent, rfl⟩ := List.mem_map.1 hd
      rw [hkey', hcontent] at ha
      rcases ha with ⟨_, heq, _⟩ | ⟨commit', followed', heq, hfollowed', rfl⟩ | ⟨hkind, _⟩
      · exact absurd heq (by simp)
      · obtain rfl : commit = commit' := by simpa using heq
        obtain ⟨hmem, hfollow⟩ := (mem_followedParents content store hfollowed parent).1 hparent
        have hmem' := (mem_followedParents content store hfollowed' parent).2
          ⟨hmem, follows_of_rank_le content store hrank hfollow⟩
        refine ⟨(parent, a.2 + 1), List.mem_map.2 ⟨parent, hmem', rfl⟩, rfl, ?_⟩
        unfold depthRank at hrank ⊢
        cases hdeepen : spec.deepen <;> simp_all
      · simp [Object.kind] at hkind
    · simp at hd

omit hfetch in
/-- A commit that is not cut at one rank is not cut at any lower one. -/
theorem cutsParent_of_rank_le {id : ObjectId} {depth depth' : Nat}
    (hrank : depthRank spec.deepen (id, depth') ≤ depthRank spec.deepen (id, depth))
    (hcut : cutsParent content store spec.deepen (id, depth) = false) :
    cutsParent content store spec.deepen (id, depth') = false := by
  refine List.any_eq_false.2 fun parent hparent => ?_
  have hone := List.any_eq_false.1 hcut parent hparent
  unfold follows at hone ⊢
  unfold depthRank at hrank
  cases hdeepen : spec.deepen with
  | none => simp
  | depth limit =>
    simp only [hdeepen] at hone hrank ⊢
    simp only [Bool.not_eq_eq_eq_not, Bool.not_true, decide_eq_false_iff_not, not_not] at hone ⊢
    omega
  | since seconds =>
    simp only [hdeepen] at hone ⊢
    exact hone

omit hfetch in
/-- Whether a parent can be decided does not depend on the depth. -/
theorem exists_follows_of_depth {deepen : Deepen} {depth depth' : Nat} {parent : ObjectId}
    (h : ∃ follow, follows content store deepen depth parent = .ok follow) :
    ∃ follow, follows content store deepen depth' parent = .ok follow := by
  unfold follows at h ⊢
  cases deepen with
  | none => exact ⟨true, rfl⟩
  | depth limit => exact ⟨_, rfl⟩
  | since seconds => exact h

/-- Every sent entry is reached, and visited at a rank that is no higher. -/
theorem sent_visited (htyped : WellTyped content) (hnearest : NearestDepths content wants spec)
    {id : ObjectId} {depth : Nat} (h : Sent content store wants haves spec id depth) :
    Reaches (commitWalk content store spec.deepen seen) (wantEntries wants) (id, depth) ∧
      ∃ depth', (id, depth') ∈ order ∧
        depthRank spec.deepen (id, depth') ≤ depthRank spec.deepen (id, depth) := by
  have hvisited : ∀ {id : ObjectId} {depth : Nat},
      Reaches (commitWalk content store spec.deepen seen) (wantEntries wants) (id, depth) →
      ∃ depth', (id, depth') ∈ order ∧
        depthRank spec.deepen (id, depth') ≤ depthRank spec.deepen (id, depth) := by
    intro id depth hreach
    obtain ⟨⟨id', depth'⟩, hmem, hkey, hrank⟩ :=
      exists_visited_le (ranked_commitWalk content store hfetch htyped hnearest) hfetch.commits
        (commitRun_halts content store spec.deepen seen wants) hreach
    obtain rfl : id' = id := hkey
    exact ⟨depth', (mem_order_iff content store hfetch).2 hmem, hrank⟩
  suffices hreach : Reaches (commitWalk content store spec.deepen seen) (wantEntries wants)
      (id, depth) from ⟨hreach, hvisited hreach⟩
  induction h with
  | @want id hid hnot =>
    exact .of_mem _ (List.mem_map.2 ⟨id, hid, rfl⟩) (skip_of_not_had content store hfetch hnot)
  | @parent id parent depth hsent hparent hfollow hnot ih =>
    obtain ⟨depth', horder, -⟩ := hvisited ih
    obtain ⟨children, hchildren, -⟩ := child_visited content store hfetch horder
    obtain ⟨hstored, hshape⟩ := commitChildren_eq_ok content store hchildren
    obtain ⟨commit, hcommit⟩ : ∃ commit, content id = .commit (some commit) := by
      unfold parentsOf at hparent
      split at hparent
      · rename_i commit hcommit
        exact ⟨commit, hcommit⟩
      · simp at hparent
    rcases hshape with ⟨tag, hcontent, -⟩ | ⟨commit', followed, hcontent, hfollowed, -⟩ |
      ⟨hkind, -⟩
    · rw [hcommit] at hcontent
      exact absurd hcontent (by simp)
    · obtain rfl : commit = commit' := by
        rw [hcommit] at hcontent
        simpa using hcontent
      have hdecided : ∀ p ∈ commit.parents,
          ∃ follow, follows content store spec.deepen depth p = .ok follow := fun p hp =>
        exists_follows_of_depth content store (exists_follows content store hfollowed p hp)
      obtain ⟨followed', hfollowed'⟩ := exists_followedParents content store hdecided
      have hmem : parent ∈ followed' := (mem_followedParents content store hfollowed' parent).2
        ⟨by simpa [parentsOf, hcommit] using hparent, hfollow⟩
      refine ih.tail _ ⟨followed'.map fun p => (p, depth + 1), ?_,
        List.mem_map.2 ⟨parent, hmem, rfl⟩, skip_of_not_had content store hfetch hnot⟩
      change commitChildren content store spec.deepen (id, depth) = _
      simp [commitChildren, findObject_of_mem content hstored, hcommit, hfollowed']
    · simp [hcommit, Object.kind] at hkind
  | @tag id depth tag hsent hcontent hnot ih =>
    obtain ⟨depth', horder, -⟩ := hvisited ih
    obtain ⟨children, hchildren, -⟩ := child_visited content store hfetch horder
    have hstored := (commitChildren_eq_ok content store hchildren).1
    refine ih.tail _ ⟨[(tag.target, depth)], ?_, by simp,
      skip_of_not_had content store hfetch hnot⟩
    change commitChildren content store spec.deepen (id, depth) = _
    simp [commitChildren, findObject_of_mem content hstored, hcontent]

omit hfetch in
/-- Trees and blobs are not packed as they are visited. -/
theorem packedAtVisit_of_file {id : ObjectId}
    (h : (content id).kind = .tree ∨ (content id).kind = .blob) :
    packedAtVisit content id = false := by
  unfold packedAtVisit
  cases hcontent : content id <;> simp_all [Object.kind]

/-- In a well-typed graph every sent file is packed by the walk over the files. -/
theorem reaches_of_sentFile_bounded (htyped : WellTyped content)
    (hnearest : NearestDepths content wants spec) {id : ObjectId}
    (h : SentFile content store wants haves spec id) :
    Reaches (objectWalk content store covered) (fileStarts content order) id := by
  have huncovered : ∀ b, ((content b).kind = .tree ∨ (content b).kind = .blob) →
      ¬ Had content store haves b → covered b = false := by
    intro b hkind hnot
    cases hs : covered b with
    | false => rfl
    | true =>
      rcases (hfetch.covered_iff b).1 hs with hhad | hpacked
      · exact absurd hhad hnot
      · have hvisit := ((mem_packedOf_iff content).1 hpacked).2
        rw [packedAtVisit_of_file content hkind] at hvisit
        exact absurd hvisit (by simp)
  induction h with
  | @start id file depth hsent hfile hnot =>
    obtain ⟨-, depth', horder, -⟩ := sent_visited content store hfetch htyped hnearest hsent
    refine .of_mem _ (List.mem_flatMap.2 ⟨(id, depth'), horder, hfile⟩) ?_
    exact huncovered file (mem_filesOf_kind content htyped hfile) hnot
  | @entry id child ids hsent href hchild hnot ih =>
    have hstored := (stored_of_objectRun content store hfetch.files ih).1
    have hkind := (SentFile.entry hsent href hchild hnot).kind content store htyped
    exact ih.tail _ ⟨ids, (objectChildren_eq_ok content store).2 ⟨hstored, href⟩, hchild,
      huncovered child hkind hnot⟩

/-- What a bounded fetch touches is needed. -/
theorem touchesNeeded_of_bounded (htyped : WellTyped content)
    (hnearest : NearestDepths content wants spec) :
    TouchesNeeded content store wants haves spec result := by
  have hsentPacked : ∀ {id depth}, Sent content store wants haves spec id depth →
      ∃ depth', (id, depth') ∈ order ∧ id ∈ result.pack ∧
        depthRank spec.deepen (id, depth') ≤ depthRank spec.deepen (id, depth) := by
    intro id depth hsent
    obtain ⟨-, depth', horder, hrank⟩ := sent_visited content store hfetch htyped hnearest hsent
    exact ⟨depth', horder, visited_packed content store hfetch horder, hrank⟩
  intro b hhad htouched
  cases htouched with
  | want hid => exact Or.inl hid
  | @parent id parent depth hsent hjoined hparent =>
    obtain ⟨depth', horder, hpack, hrank⟩ := hsentPacked hsent
    refine Or.inr ⟨id, hpack, mem_keptReferences_of_parent content hparent fun hshallow => ?_⟩
    have hcut := (mem_shallowAfter_iff_cut content store hfetch horder
      (List.ne_nil_of_mem hparent)).1 hshallow
    rw [cutsParent_of_rank_le content store hrank hjoined.1] at hcut
    exact absurd hcut (by simp)
  | @tag id depth tag hsent hcontent =>
    obtain ⟨-, -, hpack, -⟩ := hsentPacked hsent
    exact Or.inr ⟨id, hpack, by simp [keptReferences, hcontent]⟩
  | @file id file depth hsent hfile =>
    obtain ⟨-, -, hpack, -⟩ := hsentPacked hsent
    exact Or.inr ⟨id, hpack, mem_keptReferences_of_sent content store hsent hfile hhad⟩
  | @entry id child ids hsent href hchild =>
    refine Or.inr ⟨id, (mem_pack_iff content store hfetch).2 (Or.inr
      (reaches_of_sentFile_bounded content store hfetch htyped hnearest hsent)), ?_⟩
    exact mem_keptReferences_of_file content (hsent.kind content store htyped) href hchild

end Bounded

/-! ## Completeness -/

end Fetch

/-! ## A want behind a shallow commit -/

/-- Two commits, 2 on top of 1, with the empty tree 10. -/
def twoCommits : ObjectId → Object := fun id =>
  if id = 1 then plainCommit 10 []
  else if id = 2 then plainCommit 10 [1]
  else if id = 10 then .tree (some [])
  else .blob []

theorem wellTyped_twoCommits : WellTyped twoCommits where
  tree := by
    intro id commit h
    unfold twoCommits plainCommit at h
    split at h
    · cases h
      decide
    · split at h
      · cases h
        decide
      · split at h <;> cases h
  parents := by
    intro id commit h parent hparent
    unfold twoCommits plainCommit at h
    split at h
    · cases h
      simp at hparent
    · split at h
      · cases h
        obtain rfl := List.mem_singleton.1 hparent
        decide
      · split at h <;> cases h
  entries := by
    intro id entries h entry hentry
    unfold twoCommits plainCommit at h
    split at h
    · cases h
    · split at h
      · cases h
      · split at h
        · cases h
          simp at hentry
        · cases h

end Edda.Git
