import Edda.Git.Gix
import Edda.Support.Worklist

/-!
# Quarantined packs

A pushed pack is indexed in a directory of its own, checked there, and then promoted: its `.pack`
file is moved into the live pack directory, and after it its `.idx` file. Pack files are named by
their content, so the pushed pack may already be live. An object is live when it is stored loose,
or in a pack both of whose files are there.

The connectivity check `fsck` accepts tips exactly when everything they reach is in the pack or in
the repository and decodes, within a bound on the number of objects (`fsck_eq_ok_iff`).
-/

set_option autoImplicit false

namespace Edda.Git

open Edda.Support Edda.Support.Worklist Edda.Support.RustText

/-- The object store of a repository: loose objects, and the pack and index files in the live
pack directory. -/
structure Disk where
  loose : Store
  packs : List PackName
  indexes : List PackName
  deriving DecidableEq, Repr

/-- The file-system steps of a push that can fail, each at most once. -/
inductive Fault where
  | writePack
  | openPack
  | decodePack (id : ObjectId)
  | readObject (id : ObjectId)
  | renamePack
  | renameIndex
  | openRepo
  | readHistory (id : ObjectId)
  | refs (fault : RefFault)
  | removePack
  | removeIndex
  | fixHead
  deriving DecidableEq, Repr

/-- A pack written into its quarantine directory; a push without objects writes none. -/
structure Quarantine where
  pack : Option PackName
  deriving DecidableEq, Repr

/-- The files that a promotion moved. -/
structure PromotedPack where
  pack : Option PackName
  deriving DecidableEq, Repr

def maxFsckObjects : Nat := 2000000

section Quarantine

variable (gix : Gix) (fault : Option Fault)

/-! ## The disk -/

/-- The objects of the live packs. -/
def Disk.packed (disk : Disk) : Store :=
  (disk.packs.filter (· ∈ disk.indexes)).flatMap gix.packObjects

/-- The live objects. -/
def Disk.objects (disk : Disk) : Store := disk.loose ++ disk.packed gix

/-- Moves a pack file into the live directory, over one of the same name. -/
def Disk.addPack (disk : Disk) (name : PackName) : Disk :=
  { disk with packs := disk.packs.insert name }

/-- Moves an index file into the live directory, over one of the same name. -/
def Disk.addIndex (disk : Disk) (name : PackName) : Disk :=
  { disk with indexes := disk.indexes.insert name }

/-- Deletes a pack file. -/
def Disk.removePack (disk : Disk) (name : PackName) : Disk :=
  { disk with packs := disk.packs.filter (· ≠ name) }

/-- Deletes an index file. -/
def Disk.removeIndex (disk : Disk) (name : PackName) : Disk :=
  { disk with indexes := disk.indexes.filter (· ≠ name) }

/-- The pack is live: both its files are in the live directory. -/
def Disk.Live (disk : Disk) (name : PackName) : Prop := name ∈ disk.packs ∧ name ∈ disk.indexes

instance (disk : Disk) (name : PackName) : Decidable (disk.Live name) :=
  inferInstanceAs (Decidable (_ ∧ _))

theorem Disk.mem_objects {disk : Disk} {id : ObjectId} :
    id ∈ disk.objects gix ↔
      id ∈ disk.loose ∨ ∃ name, disk.Live name ∧ id ∈ gix.packObjects name := by
  simp [Disk.objects, Disk.packed, Disk.Live, List.mem_flatMap]

/-! ## Writing a pack -/

def writePack (disk : Disk) (pack : Bytes) : Except GitError Quarantine :=
  if fault = some .writePack then .error (.git ("bad pack: " ++ gix.ioError))
  else match gix.writeToDirectory pack (disk.objects gix) with
    | .error err => .error (.git ("bad pack: " ++ err))
    | .ok name => .ok ⟨name⟩

/-! ## The connectivity check -/

/-- The objects of a quarantined pack. -/
def Quarantine.objects (quarantine : Quarantine) : Store :=
  match quarantine.pack with
  | some name => gix.packObjects name
  | none => []

/-- Looks an object up in the pack, and then in the repository. -/
def Quarantine.resolve (quarantine : Quarantine) (disk : Disk) (id : ObjectId) :
    Except GitError Object :=
  if id ∈ quarantine.objects gix then
    if fault = some (.decodePack id) then
      .error (.git ("fsck: decoding " ++ id.toHex ++ ": " ++ gix.ioError))
    else .ok (gix.content id)
  else if id ∈ disk.objects gix ∧ fault ≠ some (.readObject id) then .ok (gix.content id)
  else .error (.git ("fsck: the push references object " ++ id.toHex ++
    ", which is in neither the pack nor the repository"))

/-- What a visited object puts on the queue. -/
def Quarantine.children (quarantine : Quarantine) (disk : Disk) (id : ObjectId) :
    Except GitError (List ObjectId) :=
  match quarantine.resolve gix fault disk id with
  | .error err => .error err
  | .ok object => references object

def fsckWalk (quarantine : Quarantine) (disk : Disk) : Walk ObjectId ObjectId GitError where
  key := id
  skip := fun _ => false
  limit := fun visited =>
    if maxFsckObjects < visited + 1 then
      some (.git ("fsck: object graph exceeds " ++ toString maxFsckObjects ++
        " objects — refusing the push"))
    else none
  expand := quarantine.children gix fault disk
  settle := fun _ => none
  discipline := .fifo

/-- The walk over everything that `tips` reach, run to its end. -/
def fsckRun (quarantine : Quarantine) (disk : Disk) (tips : List ObjectId) :
    State ObjectId GitError :=
  run (fsckWalk gix fault quarantine disk)
    (fuel (quarantine.objects gix ++ disk.objects gix) (referenceCount gix.content) tips)
    (State.init tips)

def Quarantine.fsck (quarantine : Quarantine) (disk : Disk) (tips : List ObjectId) :
    Except GitError Unit :=
  if fault = some .openPack ∧ quarantine.pack.isSome then
    .error (.git ("reopening quarantined pack: " ++ gix.ioError))
  else match (fsckRun gix fault quarantine disk tips).failure with
    | some err => .error err
    | none => .ok ()

/-! ## Promotion and rollback -/

def Quarantine.promote (quarantine : Quarantine) (disk : Disk) :
    Disk × Except GitError PromotedPack :=
  match quarantine.pack with
  | none => (disk, .ok ⟨none⟩)
  | some name =>
    if fault = some .renamePack then (disk, .error (.io gix.ioError))
    else if fault = some .renameIndex then (disk.addPack name, .error (.io gix.ioError))
    else ((disk.addPack name).addIndex name, .ok ⟨some name⟩)

/-- Deletes the promoted files; a file that cannot be deleted stays. -/
def PromotedPack.rollback (promoted : PromotedPack) (disk : Disk) : Disk :=
  match promoted.pack with
  | none => disk
  | some name =>
    let disk := if fault = some .removePack then disk else disk.removePack name
    if fault = some .removeIndex then disk else disk.removeIndex name

/-! ## What the check accepts -/

theorem fsckWalk_bounded (quarantine : Quarantine) (disk : Disk) :
    Bounded (fsckWalk gix fault quarantine disk)
      (quarantine.objects gix ++ disk.objects gix) (referenceCount gix.content) where
  mem_nodes := by
    intro id children h _
    change quarantine.children gix fault disk id = _ at h
    unfold Quarantine.children Quarantine.resolve at h
    by_cases hpack : id ∈ quarantine.objects gix
    · exact List.mem_append_left _ hpack
    · by_cases hdisk : id ∈ disk.objects gix
      · exact List.mem_append_right _ hdisk
      · simp [hpack, hdisk] at h
  length_le := by
    intro id children h
    change quarantine.children gix fault disk id = _ at h
    unfold Quarantine.children at h
    split at h
    · exact absurd h (by simp)
    · rename_i object hobject
      have hcontent : object = gix.content id := by
        unfold Quarantine.resolve at hobject
        split at hobject
        · split at hobject
          · exact absurd hobject (by simp)
          · exact (Except.ok.inj hobject).symm
        · split at hobject
          · exact (Except.ok.inj hobject).symm
          · exact absurd hobject (by simp)
      rw [hcontent] at h
      change _ ≤ referenceCount gix.content id
      simp [referenceCount, h]

/-- The queued children of an object that resolves are what it refers to. -/
theorem children_eq_ok {quarantine : Quarantine} {disk : Disk} {id : ObjectId}
    {ids : List ObjectId} (h : quarantine.children gix fault disk id = .ok ids) :
    (id ∈ quarantine.objects gix ∨ id ∈ disk.objects gix) ∧
      references (gix.content id) = .ok ids := by
  unfold Quarantine.children Quarantine.resolve at h
  by_cases hpack : id ∈ quarantine.objects gix
  · rw [if_pos hpack] at h
    by_cases hfault : fault = some (.decodePack id)
    · simp [hfault] at h
    · rw [if_neg hfault] at h
      exact ⟨Or.inl hpack, h⟩
  · rw [if_neg hpack] at h
    by_cases hdisk : id ∈ disk.objects gix ∧ fault ≠ some (.readObject id)
    · rw [if_pos hdisk] at h
      exact ⟨Or.inr hdisk.1, h⟩
    · simp [if_neg hdisk] at h

/-- Without a fault, an object of the pack or of the repository resolves. -/
theorem children_of_mem {quarantine : Quarantine} {disk : Disk} {id : ObjectId}
    (h : id ∈ quarantine.objects gix ∨ id ∈ disk.objects gix) :
    quarantine.children gix none disk id = references (gix.content id) := by
  unfold Quarantine.children Quarantine.resolve
  by_cases hpack : id ∈ quarantine.objects gix
  · simp [hpack]
  · simp [hpack, h.resolve_left hpack]

theorem fsckRun_halts (quarantine : Quarantine) (disk : Disk) (tips : List ObjectId) :
    (fsckRun gix fault quarantine disk tips).Halted :=
  run_halts _ (fsckWalk_bounded gix fault quarantine disk) tips

theorem failure_of_fsck {quarantine : Quarantine} {disk : Disk} {tips : List ObjectId}
    (h : quarantine.fsck gix fault disk tips = .ok ()) :
    (fsckRun gix fault quarantine disk tips).failure = none := by
  simp only [Quarantine.fsck] at h
  split at h
  · exact absurd h (by simp)
  · split at h
    · exact absurd h (by simp)
    · assumption

/-- The check of accepted tips reached everything they reach. -/
theorem reaches_of_fsck {quarantine : Quarantine} {disk : Disk} {tips : List ObjectId}
    (h : quarantine.fsck gix fault disk tips = .ok ()) {tip id : ObjectId} (htip : tip ∈ tips)
    (hreach : Reachable gix.content tip id) :
    Reaches (fsckWalk gix fault quarantine disk) tips id := by
  induction hreach with
  | refl => exact .of_mem _ htip rfl
  | @tail b c _ hbc ih =>
    obtain ⟨ids, hids, hc⟩ := hbc
    obtain ⟨children, hchildren⟩ := exists_expand_of_reaches
      (fsckWalk gix fault quarantine disk) rfl (failure_of_fsck gix fault h)
      (fsckRun_halts gix fault quarantine disk tips) ih
    obtain ⟨-, href⟩ := children_eq_ok gix fault hchildren
    rw [hids] at href
    obtain rfl := Except.ok.inj href
    exact ih.tail _ ⟨ids, hchildren, hc, rfl⟩

/-- What accepted tips reach is in the pack or in the repository, and decodes. -/
theorem mem_of_fsck {quarantine : Quarantine} {disk : Disk} {tips : List ObjectId}
    (h : quarantine.fsck gix fault disk tips = .ok ()) {tip id : ObjectId} (htip : tip ∈ tips)
    (hreach : Reachable gix.content tip id) :
    (id ∈ quarantine.objects gix ∨ id ∈ disk.objects gix) ∧
      ∃ ids, references (gix.content id) = .ok ids := by
  obtain ⟨children, hchildren⟩ := exists_expand_of_reaches
    (fsckWalk gix fault quarantine disk) rfl (failure_of_fsck gix fault h)
    (fsckRun_halts gix fault quarantine disk tips) (reaches_of_fsck gix fault h htip hreach)
  obtain ⟨hmem, href⟩ := children_eq_ok gix fault hchildren
  exact ⟨hmem, children, href⟩

/-- Accepted tips reach no more objects than the check is willing to visit. -/
theorem atMost_of_fsck {quarantine : Quarantine} {disk : Disk} {tips : List ObjectId}
    (h : quarantine.fsck gix fault disk tips = .ok ()) :
    AtMost maxFsckObjects (ReachableFrom gix.content tips) := by
  apply AtMost.of_forall_mem ((fsckRun gix fault quarantine disk tips).visited)
  · rintro id ⟨tip, htip, hreach⟩
    apply (mem_visited_iff_reaches (fsckWalk gix fault quarantine disk) rfl
      (failure_of_fsck gix fault h) (fsckRun_halts gix fault quarantine disk tips) id).2
    exact reaches_of_fsck gix fault h htip hreach
  · apply run_visited_length_le
    intro n hn
    have hfull : maxFsckObjects < n + 1 := by omega
    change (if maxFsckObjects < n + 1 then some _ else none) ≠ none
    rw [if_pos hfull]
    exact Option.some_ne_none _

/-- Without a fault the check accepts the tips whose objects are all there and not too many. -/
theorem fsck_eq_ok_iff {quarantine : Quarantine} {disk : Disk} {tips : List ObjectId} :
    quarantine.fsck gix none disk tips = .ok () ↔
      (∀ id, ReachableFrom gix.content tips id →
        (id ∈ quarantine.objects gix ∨ id ∈ disk.objects gix) ∧
          ∃ ids, references (gix.content id) = .ok ids) ∧
      AtMost maxFsckObjects (ReachableFrom gix.content tips) := by
  constructor
  · intro h
    refine ⟨?_, atMost_of_fsck gix none h⟩
    rintro id ⟨tip, htip, hreach⟩
    exact mem_of_fsck gix none h htip hreach
  · rintro ⟨hstored, hcount⟩
    have hreached : ∀ id, Reaches (fsckWalk gix none quarantine disk) tips id →
        ReachableFrom gix.content tips id := by
      intro id hid
      apply hid.induct
      · exact fun tip htip => ⟨tip, htip, Reachable.refl _ tip⟩
      · rintro a children ⟨tip, htip, ha⟩ hchildren b hb
        exact ⟨tip, htip, ha.tail ⟨children, (children_eq_ok gix none hchildren).2, hb⟩⟩
    have hdone : (fsckRun gix none quarantine disk tips).failure = none := by
      apply failure_eq_none (fsckWalk gix none quarantine disk) rfl
      · intro id hid
        obtain ⟨hmem, ids, hids⟩ := hstored id (hreached id hid)
        exact ⟨ids, (children_of_mem gix hmem).trans hids⟩
      · exact fun ids hnodup hids => hcount ids hnodup fun id hid => hreached id (hids id hid)
      · intro k hk
        have hroom : ¬ maxFsckObjects < k + 1 := by omega
        exact if_neg hroom
      · exact fun _ _ => rfl
    simp [Quarantine.fsck, hdone]

/-! ## What promotion and rollback do to the live objects -/

theorem promote_of_renamePack (disk : Disk) (name : PackName) (h : fault = some .renamePack) :
    Quarantine.promote gix fault ⟨some name⟩ disk = (disk, .error (.io gix.ioError)) := by
  simp only [Quarantine.promote, if_pos h]

theorem promote_of_renameIndex (disk : Disk) (name : PackName) (hpack : fault ≠ some .renamePack)
    (h : fault = some .renameIndex) :
    Quarantine.promote gix fault ⟨some name⟩ disk =
      (disk.addPack name, .error (.io gix.ioError)) := by
  simp only [Quarantine.promote, if_neg hpack, if_pos h]

theorem promote_of_moved (disk : Disk) (name : PackName) (hpack : fault ≠ some .renamePack)
    (hindex : fault ≠ some .renameIndex) :
    Quarantine.promote gix fault ⟨some name⟩ disk =
      ((disk.addPack name).addIndex name, .ok ⟨some name⟩) := by
  simp only [Quarantine.promote, if_neg hpack, if_neg hindex]

theorem live_addPack_addIndex {disk : Disk} {name other : PackName} :
    ((disk.addPack name).addIndex name).Live other ↔ other = name ∨ disk.Live other := by
  simp only [Disk.Live, Disk.addPack, Disk.addIndex, List.mem_insert_iff]
  tauto

/-- A promoted pack adds its objects. -/
theorem mem_objects_promoted {disk : Disk} {name : PackName} {id : ObjectId} :
    id ∈ ((disk.addPack name).addIndex name).objects gix ↔
      id ∈ disk.objects gix ∨ id ∈ gix.packObjects name := by
  simp only [Disk.mem_objects, live_addPack_addIndex]
  constructor
  · rintro (h | ⟨other, rfl | h, hid⟩)
    · exact Or.inl (Or.inl h)
    · exact Or.inr hid
    · exact Or.inl (Or.inr ⟨other, h, hid⟩)
  · rintro ((h | ⟨other, h, hid⟩) | hid)
    · exact Or.inl h
    · exact Or.inr ⟨other, Or.inr h, hid⟩
    · exact Or.inr ⟨name, Or.inl rfl, hid⟩

/-- A pack file without a new index adds the objects of the pack when its index was there. -/
theorem mem_objects_addPack {disk : Disk} {name : PackName} {id : ObjectId} :
    id ∈ (disk.addPack name).objects gix ↔
      id ∈ disk.objects gix ∨ (name ∈ disk.indexes ∧ id ∈ gix.packObjects name) := by
  have hlive : ∀ other, (disk.addPack name).Live other ↔
      (other = name ∧ name ∈ disk.indexes) ∨ disk.Live other := by
    intro other
    simp only [Disk.Live, Disk.addPack, List.mem_insert_iff]
    constructor
    · rintro ⟨rfl | h, h'⟩
      · exact Or.inl ⟨rfl, h'⟩
      · exact Or.inr ⟨h, h'⟩
    · rintro (⟨rfl, h⟩ | ⟨h, h'⟩)
      · exact ⟨Or.inl rfl, h⟩
      · exact ⟨Or.inr h, h'⟩
  have hloose : (disk.addPack name).loose = disk.loose := rfl
  simp only [Disk.mem_objects, hlive, hloose]
  constructor
  · rintro (h | ⟨other, ⟨rfl, hidx⟩ | h, hid⟩)
    · exact Or.inl (Or.inl h)
    · exact Or.inr ⟨hidx, hid⟩
    · exact Or.inl (Or.inr ⟨other, h, hid⟩)
  · rintro ((h | ⟨other, h, hid⟩) | ⟨hidx, hid⟩)
    · exact Or.inl h
    · exact Or.inr ⟨other, Or.inr h, hid⟩
    · exact Or.inr ⟨name, Or.inl ⟨rfl, hidx⟩, hid⟩

/-- An object is stored outside of the pack `name`. -/
def StoredElsewhere (disk : Disk) (name : PackName) (id : ObjectId) : Prop :=
  id ∈ disk.loose ∨ ∃ other, other ≠ name ∧ disk.Live other ∧ id ∈ gix.packObjects other

/-- After a rollback, which leaves at most one of the two files behind, a pack is live exactly
when it is another pack that was live before its promotion. -/
theorem live_rollback {disk : Disk} {name other : PackName} :
    (PromotedPack.rollback fault ⟨some name⟩ ((disk.addPack name).addIndex name)).Live other ↔
      other ≠ name ∧ disk.Live other := by
  unfold PromotedPack.rollback Disk.Live
  by_cases hpack : fault = some .removePack
  · simp only [hpack, if_true, Disk.removeIndex, Disk.addPack, Disk.addIndex]
    simp only [Option.some.injEq, reduceCtorEq, if_false, List.mem_filter, List.mem_insert_iff,
      decide_eq_true_eq]
    tauto
  · by_cases hindex : fault = some .removeIndex
    · simp only [hindex, if_true, Disk.removePack, Disk.addPack, Disk.addIndex]
      simp only [Option.some.injEq, reduceCtorEq, if_false, List.mem_filter, List.mem_insert_iff,
        decide_eq_true_eq]
      tauto
    · simp only [hpack, hindex, if_false, Disk.removePack, Disk.removeIndex, Disk.addPack,
        Disk.addIndex, List.mem_filter, List.mem_insert_iff, decide_eq_true_eq]
      tauto

theorem loose_rollback (promoted : PromotedPack) (disk : Disk) :
    (promoted.rollback fault disk).loose = disk.loose := by
  unfold PromotedPack.rollback
  cases promoted.pack with
  | none => rfl
  | some name =>
    by_cases hpack : fault = some .removePack <;> by_cases hindex : fault = some .removeIndex <;>
      simp [hpack, hindex, Disk.removePack, Disk.removeIndex]

/-- A rollback keeps exactly the objects stored outside of the pack, also where the pack was live
before the promotion. -/
theorem mem_objects_rollback {disk : Disk} {name : PackName} {id : ObjectId} :
    id ∈ (PromotedPack.rollback fault ⟨some name⟩
        ((disk.addPack name).addIndex name)).objects gix ↔
      StoredElsewhere gix disk name id := by
  have hloose : (PromotedPack.rollback fault ⟨some name⟩
      ((disk.addPack name).addIndex name)).loose = disk.loose :=
    loose_rollback fault ⟨some name⟩ _
  rw [Disk.mem_objects, hloose]
  simp only [live_rollback, StoredElsewhere, and_assoc]

/-- An object of the repository is stored outside of a pack, or the pack is live and holds it. -/
theorem mem_objects_iff_storedElsewhere {disk : Disk} (name : PackName) {id : ObjectId} :
    id ∈ disk.objects gix ↔
      StoredElsewhere gix disk name id ∨ (disk.Live name ∧ id ∈ gix.packObjects name) := by
  rw [Disk.mem_objects]
  constructor
  · rintro (h | ⟨other, h, hid⟩)
    · exact Or.inl (Or.inl h)
    · by_cases heq : other = name
      · exact Or.inr (heq ▸ ⟨h, hid⟩)
      · exact Or.inl (Or.inr ⟨other, heq, h, hid⟩)
  · rintro ((h | ⟨other, -, h, hid⟩) | ⟨h, hid⟩)
    · exact Or.inl h
    · exact Or.inr ⟨other, h, hid⟩
    · exact Or.inr ⟨name, h, hid⟩

end Quarantine

end Edda.Git
