import Mathlib

/-!
# Files behind names

A disk has contents behind inodes, and names that are linked to inodes. Whoever has a file open
writes to its inode, whatever its name is linked to by then. The library gives that creating,
unlinking and writing a file leave alone what is behind the other names (`Disk.off_create`,
`Disk.off_unlink`, `Disk.off_write`, `Disk.Off.read`) and keep the names apart
(`Disk.Off.proper`), and what is in the file then (`Disk.contents_create`, `Disk.contents_write`).
-/

set_option autoImplicit false

namespace Edda.Support

universe u v

/-- Bytes `β` in files that are named by `κ`. -/
structure Disk (κ : Type u) (β : Type v) where
  names : κ → Option Nat
  contents : Nat → List β
  next : Nat

/-- Bytes written at an offset over what is there. A gap before them is filled. -/
def Disk.overwrite {β : Type v} (fill : β) (content : List β) (offset : Nat) (chunk : List β) : List β :=
  content.take offset ++ List.replicate (offset - content.length) fill ++ chunk ++
    content.drop (offset + chunk.length)

theorem Disk.overwrite_end {β : Type v} (fill : β) (content chunk : List β) :
    Disk.overwrite fill content content.length chunk = content ++ chunk := by
  simp [Disk.overwrite]

section Disk

variable {κ : Type u} {β : Type v} [DecidableEq κ]

/-- The file is created, or truncated if it is there. -/
def Disk.create (d : Disk κ β) (key : κ) : Disk κ β × Nat :=
  match d.names key with
  | some inode => ({ d with contents := Function.update d.contents inode [] }, inode)
  | none =>
    (⟨Function.update d.names key (some d.next), Function.update d.contents d.next [],
      d.next + 1⟩, d.next)

def Disk.unlink (d : Disk κ β) (key : κ) : Disk κ β :=
  { d with names := Function.update d.names key none }

def Disk.write (d : Disk κ β) (fill : β) (inode offset : Nat) (chunk : List β) : Disk κ β :=
  { d with
    contents := Function.update d.contents inode
      (Disk.overwrite fill (d.contents inode) offset chunk) }

omit [DecidableEq κ] in
/-- What is read by a name. -/
def Disk.read (d : Disk κ β) (key : κ) : Option (List β) := (d.names key).map d.contents

/-- No two names are linked to one inode, and the next inode is new. -/
structure Disk.Proper (d : Disk κ β) : Prop where
  injective : ∀ first second inode, d.names first = some inode → d.names second = some inode →
    first = second
  fresh : ∀ key inode, d.names key = some inode → inode < d.next

/-- A change of a disk that is behind one name only. -/
structure Disk.Off (key : κ) (d d' : Disk κ β) : Prop where
  names : ∀ other, other ≠ key → d'.names other = d.names other
  contents : ∀ other, other ≠ key → ∀ inode, d.names other = some inode →
    d'.contents inode = d.contents inode
  linked : ∀ inode, d'.names key = some inode → d.names key = some inode ∨ d.next ≤ inode
  next : d.next ≤ d'.next

variable {d d' : Disk κ β} {key other : κ} {inode offset : Nat} {fill : β} {chunk : List β}

omit [DecidableEq κ] in
theorem Disk.Off.refl (key : κ) (d : Disk κ β) : Disk.Off key d d :=
  ⟨fun _ _ => rfl, fun _ _ _ _ => rfl, fun _ h => Or.inl h, Nat.le_refl _⟩

omit [DecidableEq κ] in
theorem Disk.Off.read (h : Disk.Off key d d') (hother : other ≠ key) : d'.read other = d.read other := by
  rw [Disk.read, h.names other hother, Disk.read]
  exact Option.map_congr fun inode hinode => h.contents other hother inode hinode

/-! ## Creating -/

theorem Disk.names_create_self : (d.create key).1.names key = some (d.create key).2 := by
  unfold Disk.create
  cases hkey : d.names key with
  | some inode => exact hkey
  | none => exact Function.update_self key _ _

theorem Disk.contents_create : (d.create key).1.contents (d.create key).2 = [] := by
  unfold Disk.create
  cases d.names key with
  | some inode => exact Function.update_self inode _ _
  | none => exact Function.update_self d.next _ _

theorem Disk.off_create (hproper : d.Proper) : Disk.Off key d (d.create key).1 := by
  unfold Disk.create
  cases hkey : d.names key with
  | some inode =>
    refine ⟨fun _ _ => rfl, fun other hother found hfound => ?_, fun _ h => Or.inl h, Nat.le_refl _⟩
    refine Function.update_of_ne ?_ _ _
    rintro rfl
    exact hother (hproper.injective other key found hfound hkey)
  | none =>
    refine ⟨fun other hother => Function.update_of_ne hother _ _, ?_, ?_, Nat.le_succ _⟩
    · intro other _ found hfound
      exact Function.update_of_ne (Nat.ne_of_lt (hproper.fresh other found hfound)) _ _
    · intro inode hinode
      simp only [Function.update_self, Option.some.injEq] at hinode
      exact Or.inr (Nat.le_of_eq hinode)

theorem Disk.create_lt (hproper : d.Proper) : (d.create key).2 < (d.create key).1.next := by
  unfold Disk.create
  cases hkey : d.names key with
  | some inode => exact hproper.fresh key inode hkey
  | none => exact Nat.lt_succ_self _

/-- A name that is linked after a change, to the inode that it was linked to or to a new one. -/
theorem Disk.Off.proper (hproper : d.Proper) (h : Disk.Off key d d')
    (hlinked : ∀ inode, d'.names key = some inode → inode < d'.next) : d'.Proper := by
  -- no other name is linked to what the changed one is linked to
  have halone : ∀ other inode, other ≠ key → d'.names other = some inode →
      d'.names key ≠ some inode := by
    intro other inode hother hinode hkey
    rw [h.names other hother] at hinode
    rcases h.linked inode hkey with hold | hnew
    · exact hother (hproper.injective other key inode hinode hold)
    · exact absurd (hproper.fresh other inode hinode) (Nat.not_lt.2 hnew)
  constructor
  · intro first second inode hfirst hsecond
    by_cases hf : first = key
    · by_cases hs : second = key
      · exact hf.trans hs.symm
      · exact absurd (hf ▸ hfirst) (halone second inode hs hsecond)
    · by_cases hs : second = key
      · exact absurd (hs ▸ hsecond) (halone first inode hf hfirst)
      · rw [h.names first hf] at hfirst
        rw [h.names second hs] at hsecond
        exact hproper.injective first second inode hfirst hsecond
  · intro other inode hinode
    by_cases hother : other = key
    · exact hlinked inode (hother ▸ hinode)
    · rw [h.names other hother] at hinode
      exact Nat.lt_of_lt_of_le (hproper.fresh other inode hinode) h.next

theorem Disk.proper_create (hproper : d.Proper) : (d.create key).1.Proper := by
  refine (Disk.off_create hproper).proper hproper fun inode hinode => ?_
  rw [← Option.some.inj (Disk.names_create_self.symm.trans hinode)]
  exact Disk.create_lt hproper

/-! ## Unlinking and writing -/

theorem Disk.off_unlink : Disk.Off key d (d.unlink key) := by
  refine ⟨fun other hother => Function.update_of_ne hother _ _, fun _ _ _ _ => rfl, ?_,
    Nat.le_refl _⟩
  intro inode hinode
  simp [Disk.unlink] at hinode

theorem Disk.proper_unlink (hproper : d.Proper) : (d.unlink key).Proper := by
  refine Disk.off_unlink.proper hproper fun inode hinode => ?_
  simp [Disk.unlink] at hinode

omit [DecidableEq κ] in
/-- A write to an inode that no other name is linked to. -/
theorem Disk.off_write (howns : ∀ other, d.names other = some inode → other = key) :
    Disk.Off key d (d.write fill inode offset chunk) := by
  refine ⟨fun _ _ => rfl, fun other hother found hfound => ?_, fun _ h => Or.inl h, Nat.le_refl _⟩
  refine Function.update_of_ne ?_ _ _
  rintro rfl
  exact hother (howns other hfound)

omit [DecidableEq κ] in
theorem Disk.proper_write (hproper : d.Proper) : (d.write fill inode offset chunk).Proper :=
  ⟨hproper.injective, hproper.fresh⟩

omit [DecidableEq κ] in
theorem Disk.contents_write : (d.write fill inode offset chunk).contents inode =
    Disk.overwrite fill (d.contents inode) offset chunk := Function.update_self inode _ _

end Disk

end Edda.Support
