import Edda.Domain.Validation
import Edda.Support.Affixes
import Edda.Support.Utf8

/-!
# Valid identities

What the validation accepts as the identity of a repository is an owner and a name with one slash
between them (`isValidRepositoryIdentity_iff`). Both have letters, digits and few other characters,
so that they are read back where paths and commands are cut at slashes, quotes, spaces and suffixes.
-/

set_option autoImplicit false

namespace Edda.Domain.Validation

open Edda.Support.RustText

/-! ## Characters of names -/

/-- What the names of repositories are made of. -/
def IsNameChar (c : Char) : Prop := isAsciiAlphanumeric c = true ∨ c = '-' ∨ c = '_' ∨ c = '.'

instance (c : Char) : Decidable (IsNameChar c) := inferInstanceAs (Decidable (_ ∨ _))

theorem toNat_lt_of_isAsciiAlphanumeric {c : Char} (h : isAsciiAlphanumeric c = true) :
    c.toNat < 128 := by
  simp only [isAsciiAlphanumeric, Bool.or_eq_true, Bool.and_eq_true, decide_eq_true_eq,
    Char.le_def, UInt32.le_iff_toNat_le] at h
  have hdigits : ('9' : Char).val.toNat = 57 := rfl
  have hupper : ('Z' : Char).val.toNat = 90 := rfl
  have hlower : ('z' : Char).val.toNat = 122 := rfl
  show c.val.toNat < 128
  omega

theorem IsNameChar.toNat_lt {c : Char} (h : IsNameChar c) : c.toNat < 128 := by
  rcases h with h | rfl | rfl | rfl
  · exact toNat_lt_of_isAsciiAlphanumeric h
  · decide
  · decide
  · decide

/-- A property of the names' characters is one of the first characters. -/
theorem IsNameChar.of_ascii {p : Char → Prop} {c : Char} (h : IsNameChar c)
    (hall : ∀ n, n < 128 → IsNameChar (Char.ofNat n) → p (Char.ofNat n)) : p c := by
  have hchar : Char.ofNat c.toNat = c := Char.ofNat_toNat c
  rw [← hchar]
  exact hall c.toNat h.toNat_lt (hchar.symm ▸ h)

theorem IsNameChar.not_isWhitespace {c : Char} (h : IsNameChar c) : isWhitespace c = false :=
  h.of_ascii (p := fun c => isWhitespace c = false) (by decide)

theorem IsNameChar.ne_slash {c : Char} (h : IsNameChar c) : c ≠ '/' := by
  rintro rfl
  exact absurd h (by decide)

/-- A byte of a user name. -/
def isUsernameByte (b : UInt8) : Bool := isAlnum b || b == 0x2D || b == 0x5F

theorem isNameChar_of_isUsernameByte : ∀ n, n < 256 → isUsernameByte (UInt8.ofNat n) = true →
    n < 128 ∧ (isAsciiAlphanumeric (Char.ofNat n) = true ∨ Char.ofNat n = '-' ∨
      Char.ofNat n = '_') := by
  decide +kernel

theorem username_bytes {name : String} (h : isValidUsername name = true) :
    utf8 name ≠ [] ∧ ∀ b ∈ utf8 name, isUsernameByte b = true := by
  simp only [isValidUsername] at h
  split at h
  · next first last hfirst hlast =>
    simp only [Bool.and_eq_true, List.all_eq_true] at h
    refine ⟨?_, h.2⟩
    rintro hnil
    rw [hnil] at hfirst
    exact absurd hfirst (by simp)
  · exact absurd h (by decide)

/-- The characters of a user name. -/
theorem username_chars {name : String} (h : isValidUsername name = true) {c : Char}
    (hc : c ∈ name.toList) : isAsciiAlphanumeric c = true ∨ c = '-' ∨ c = '_' := by
  obtain ⟨b, bytes, hencode⟩ := List.exists_cons_of_ne_nil (String.utf8EncodeChar_ne_nil (c := c))
  have hb : b ∈ String.utf8EncodeChar c := hencode ▸ List.mem_cons_self
  have hbyte := isNameChar_of_isUsernameByte b.toNat b.toNat_lt (by
    rw [UInt8.ofNat_toNat]
    exact (username_bytes h).2 b (List.mem_flatMap.2 ⟨c, hc, hb⟩))
  -- the character is this one byte
  have hone := utf8EncodeChar_of_mem hb (UInt8.lt_iff_toNat_lt.2 hbyte.1)
  have hchar : c = Char.ofNat b.toNat := by
    have hvalue : (Char.ofNat b.toNat).toNat = b.toNat := by
      rw [Char.toNat_ofNat, if_pos]
      exact Or.inl (Nat.lt_trans hbyte.1 (by decide))
    apply utf8EncodeChar_inj
    rw [hone, utf8EncodeChar_ascii (by rw [hvalue]; exact hbyte.1), hvalue, UInt8.ofNat_toNat]
  rw [hchar]
  exact hbyte.2

theorem username_ne_nil {name : String} (h : isValidUsername name = true) : name.toList ≠ [] := by
  intro hnil
  apply (username_bytes h).1
  rw [utf8, hnil, List.flatMap_nil]

/-! ## Identities -/

/-- A valid owner and a valid name. -/
structure RepositoryIdentity where
  owner : String
  name : String
  validOwner : isValidUsername owner = true
  validName : isValidRepositoryName name = true

namespace RepositoryIdentity

variable (identity : RepositoryIdentity)

def text : String := identity.owner ++ "/" ++ identity.name

theorem toList_text :
    identity.text.toList = identity.owner.toList ++ '/' :: identity.name.toList := by
  simp [text]

theorem owner_chars {c : Char} (hc : c ∈ identity.owner.toList) :
    isAsciiAlphanumeric c = true ∨ c = '-' ∨ c = '_' := username_chars identity.validOwner hc

theorem owner_isNameChar {c : Char} (hc : c ∈ identity.owner.toList) : IsNameChar c := by
  rcases identity.owner_chars hc with h | h | h
  · exact Or.inl h
  · exact Or.inr (Or.inl h)
  · exact Or.inr (Or.inr (Or.inl h))

theorem owner_ne_nil : identity.owner.toList ≠ [] := username_ne_nil identity.validOwner

theorem slash_notMem_owner : '/' ∉ identity.owner.toList :=
  fun hmem => (identity.owner_isNameChar hmem).ne_slash rfl

/-- What the validation says of a name. -/
theorem validName_iff {name : String} : isValidRepositoryName name = true ↔
    name.toList ≠ [] ∧ (utf8 name).length ≤ 100 ∧ name ≠ "." ∧ name ≠ ".." ∧
      name.toList.head? ≠ some '.' ∧ ¬ ".git".toList <:+ name.toList ∧
        ∀ c ∈ name.toList, IsNameChar c := by
  simp only [isValidRepositoryName, IsNameChar, Bool.and_eq_true, Bool.not_eq_true',
    List.isEmpty_iff, decide_eq_true_eq, bne_iff_ne, List.all_eq_true, Bool.or_eq_true,
    beq_iff_eq, or_assoc, and_assoc, ← Bool.not_eq_true, List.isSuffixOf_iff_suffix, ne_eq]

theorem name_isNameChar {c : Char} (hc : c ∈ identity.name.toList) : IsNameChar c :=
  (validName_iff.1 identity.validName).2.2.2.2.2.2 c hc

theorem name_ne_nil : identity.name.toList ≠ [] := (validName_iff.1 identity.validName).1

theorem slash_notMem_name : '/' ∉ identity.name.toList :=
  fun hmem => (identity.name_isNameChar hmem).ne_slash rfl

/-- The name does not have the suffix of its directory. -/
theorem not_suffix_name : ¬ ".git".toList <:+ identity.name.toList :=
  (validName_iff.1 identity.validName).2.2.2.2.2.1

theorem splitOnce_text : splitOnce '/' identity.text.toList =
    some (identity.owner.toList, identity.name.toList) := by
  rw [toList_text, splitOnce_append identity.slash_notMem_owner]

theorem splitOwnerRepo_text :
    splitOwnerRepo identity.text = some (identity.owner, identity.name) := by
  simp only [splitOwnerRepo, identity.splitOnce_text, if_neg identity.slash_notMem_name,
    String.ofList_toList]

theorem isValid_text : isValidRepositoryIdentity identity.text = true := by
  simp only [isValidRepositoryIdentity, identity.splitOwnerRepo_text, identity.validOwner,
    identity.validName, Bool.and_self]

end RepositoryIdentity

/-- What the validation accepts is an owner and a name around a slash. -/
theorem isValidRepositoryIdentity_iff {text : String} :
    isValidRepositoryIdentity text = true ↔ ∃ identity : RepositoryIdentity, identity.text = text := by
  constructor
  · intro h
    simp only [isValidRepositoryIdentity] at h
    split at h
    · next owner name hsplit =>
      obtain ⟨howner, hname⟩ := Bool.and_eq_true_iff.1 h
      refine ⟨⟨owner, name, howner, hname⟩, ?_⟩
      simp only [splitOwnerRepo] at hsplit
      split at hsplit
      · exact absurd hsplit (by simp)
      · next head rest hsplitOnce =>
        split at hsplit
        · exact absurd hsplit (by simp)
        · obtain ⟨rfl, rfl⟩ := Prod.mk.inj (Option.some.inj hsplit)
          apply String.toList_inj.1
          rw [RepositoryIdentity.toList_text, String.toList_ofList, String.toList_ofList,
            splitOnce_eq_some hsplitOnce]
    · exact absurd h (by decide)
  · rintro ⟨identity, rfl⟩
    exact identity.isValid_text

end Edda.Domain.Validation
