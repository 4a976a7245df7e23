import Edda.Git.ReceiveAtomicity

/-!
# What the connectivity check accepts

The check of a pushed pack follows references from the new tips, through the objects that it finds
in the pack or in the repository. Where it comes to no more objects than its bound, it accepts the
tips exactly when it finds and decodes everything they reach; in which order the tips are given,
and how often, makes no difference to that (`fsck_exact`).
-/

set_option autoImplicit false

namespace Edda.Git

open Edda.Support Edda.Support.Worklist

section FsckExact

variable (gix : Gix)

/-- The object is in the pack or in the repository, and decodes. -/
def Quarantine.Found (quarantine : Quarantine) (disk : Disk) (id : ObjectId) : Prop :=
  (id ∈ quarantine.objects gix ∨ id ∈ disk.objects gix) ∧
    ∃ ids, references (gix.content id) = .ok ids

/-- The object is a tip, or an object that is found refers to it. -/
def Quarantine.ComesTo (quarantine : Quarantine) (disk : Disk) (tips : List ObjectId)
    (id : ObjectId) : Prop :=
  ∃ tip ∈ tips, Relation.ReflTransGen
    (fun a b => quarantine.Found gix disk a ∧ Refers gix.content a b) tip id

variable {gix} {quarantine : Quarantine} {disk : Disk} {tips tips' : List ObjectId}

/-- The check comes to everything that the tips reach, if it finds all of that. -/
theorem comesTo_of_reachable
    (hfound : ∀ id, ReachableFrom gix.content tips id → quarantine.Found gix disk id)
    {id : ObjectId} (hid : ReachableFrom gix.content tips id) :
    quarantine.ComesTo gix disk tips id := by
  obtain ⟨tip, htip, hreach⟩ := hid
  refine ⟨tip, htip, ?_⟩
  induction hreach with
  | refl => exact .refl
  | @tail a b ha hab ih => exact ih.tail ⟨hfound a ⟨tip, htip, ha⟩, hab⟩

/-- What tips reach depends on which ids are tips. -/
theorem reachableFrom_congr (hsame : ∀ id, id ∈ tips' ↔ id ∈ tips) (id : ObjectId) :
    ReachableFrom gix.content tips' id ↔ ReachableFrom gix.content tips id := by
  simp only [ReachableFrom, hsame]

/-- Whether tips are accepted depends on which ids are tips. -/
theorem fsck_congr (hsame : ∀ id, id ∈ tips' ↔ id ∈ tips) :
    quarantine.fsck gix none disk tips' = .ok () ↔ quarantine.fsck gix none disk tips = .ok () := by
  have hreach : ReachableFrom gix.content tips' = ReachableFrom gix.content tips :=
    funext fun id => propext (reachableFrom_congr hsame id)
  rw [fsck_eq_ok_iff, fsck_eq_ok_iff, hreach]

variable (gix) in
/-- Where the check comes to no more objects than its bound, it ends, and accepts the tips exactly
when it finds and decodes everything that they reach. -/
theorem fsck_exact (quarantine : Quarantine) (disk : Disk) (tips : List ObjectId)
    (hcount : AtMost maxFsckObjects (quarantine.ComesTo gix disk tips)) :
    (fsckRun gix none quarantine disk tips).Halted ∧
      (quarantine.fsck gix none disk tips = .ok () ↔
        ∀ id, ReachableFrom gix.content tips id → quarantine.Found gix disk id) ∧
      ∀ tips', (∀ id, id ∈ tips' ↔ id ∈ tips) →
        (quarantine.fsck gix none disk tips' = .ok () ↔
          quarantine.fsck gix none disk tips = .ok ()) := by
  refine ⟨fsckRun_halts gix none quarantine disk tips, ?_, fun tips' => fsck_congr⟩
  rw [fsck_eq_ok_iff]
  constructor
  · exact fun h => h.1
  · intro hfound
    refine ⟨hfound, ?_⟩
    intro ids hnodup hids
    exact hcount ids hnodup fun id hid => comesTo_of_reachable hfound (hids id hid)

end FsckExact

/-! ## A tip that is given twice -/

/-- The check of the commit 1 and its empty tree, which are all in the pushed pack. -/
theorem fsck_exact_onePack :
    Quarantine.fsck onePackGix none ⟨some 7⟩ ⟨[], [], []⟩ [1, 1] = .ok () ∧
      ∀ id, ReachableFrom onePackGix.content [1] id →
        Quarantine.Found onePackGix ⟨some 7⟩ ⟨[], [], []⟩ id := by
  have hrefs : references (onePackGix.content 1) = .ok [2] ∧
      references (onePackGix.content 2) = .ok [] := ⟨rfl, rfl⟩
  have hcount : AtMost maxFsckObjects
      (Quarantine.ComesTo onePackGix ⟨some 7⟩ ⟨[], [], []⟩ [1, 1]) := by
    apply AtMost.of_forall_mem [1, 2]
    · rintro id ⟨tip, htip, hcomes⟩
      induction hcomes with
      | refl =>
        obtain rfl : tip = 1 := by simpa using htip
        exact List.mem_cons_self
      | @tail a b _ hab ih =>
        obtain ⟨-, ids, hids, hb⟩ := hab
        simp only [List.mem_cons, List.not_mem_nil, or_false] at ih
        rcases ih with rfl | rfl
        · obtain rfl := Except.ok.inj (hrefs.1.symm.trans hids)
          simp [List.mem_singleton.1 hb]
        · obtain rfl := Except.ok.inj (hrefs.2.symm.trans hids)
          simp at hb
    · decide
  obtain ⟨-, hexact, -⟩ := fsck_exact onePackGix ⟨some 7⟩ ⟨[], [], []⟩ [1, 1] hcount
  have hok : Quarantine.fsck onePackGix none ⟨some 7⟩ ⟨[], [], []⟩ [1, 1] = .ok () := by decide
  refine ⟨hok, ?_⟩
  intro id hid
  exact hexact.1 hok id ((reachableFrom_congr (by simp) id).1 hid)

end Edda.Git
