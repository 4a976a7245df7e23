import Edda.Auth.SecretBox
import Edda.Support.Varint

/-!
# The two forms of a stored secret

A stored secret is a blob with the id of its key in front, or one of the form of old: a nonce and
what was sealed with it under the primary key. Nothing but the first bytes tells the two apart, and
the first bytes of the form of old are those of a random nonce.

`KeySet` are the keys that `init` installs, with any ids. `stored_secrets_decrypt_iff`: a blob with
an id is opened as long as its key is in the set and the id has 1 to 32 bytes, and a blob of the
form of old unless it looks like one with an id.
-/

set_option autoImplicit false

namespace Edda.Auth.SecretBox

open Edda.Support.RustText
open Edda.Support.Varint (Failure)

/-- What is documented of AES-256-GCM: nothing is opened but what was sealed with the same key and
nonce, and the tag takes sixteen bytes. -/
structure Aead.Exact {κ : Type} (aead : Aead κ) : Prop where
  opens_only : ∀ {key nonce ciphertext plaintext},
    aead.decrypt key nonce ciphertext = some plaintext →
      ciphertext = aead.encrypt key nonce plaintext
  length_encrypt : ∀ key nonce plaintext,
    (aead.encrypt key nonce plaintext).length = plaintext.length + 16

/-! ## Keys of any ids -/

section KeySets

variable {κ : Type}

/-- The last entry of an id, as collected into a map. -/
def lookupKey (entries : List (String × κ)) (id : Bytes) : Option κ :=
  (entries.reverse.find? fun entry => utf8 entry.1 = id).map Prod.snd

/-- The keys that are installed, and which of them is the primary one. -/
structure KeySet (κ : Type) where
  entries : List (String × κ)
  primaryId : String
  primary : κ
  primary_eq : lookupKey entries (utf8 primaryId) = some primary

/-- `init`: the key set that is installed, if there is one. The primary id has to be listed. -/
def init (entries : List (String × κ)) (primaryId : Option String) :
    Except (Failure Empty) (Option (KeySet κ)) :=
  match primaryId with
  | none => .ok none
  | some primaryId =>
    if entries.isEmpty then .ok none
    else match h : lookupKey entries (utf8 primaryId) with
      | none => .error .panic
      | some primary => .ok (some ⟨entries, primaryId, primary, h⟩)

def KeySet.byId (keys : KeySet κ) (id : Bytes) : Option κ := lookupKey keys.entries id

variable (aead : Aead κ)

/-- `encrypt`. The length of the id has to fit into a byte. -/
def KeySet.encrypt (keys : KeySet κ) (nonce : Nonce) (plaintext : Bytes) :
    Except (Failure SecretBoxError) Bytes :=
  let id := utf8 keys.primaryId
  if id.length < 256 then
    .ok (0x01 :: UInt8.ofNat id.length ::
      (id ++ (nonce.1 ++ aead.encrypt keys.primary nonce plaintext)))
  else .error .panic

/-- `decrypt`. -/
def KeySet.decrypt (keys : KeySet κ) (stored : Bytes) : Except SecretBoxError Bytes :=
  let unsealed := match parseVersioned stored with
    | some (id, nonce, ciphertext) =>
      (keys.byId id).bind fun key => aead.decrypt key nonce ciphertext
    | none =>
      if h : 12 ≤ stored.length then
        let (nonce, ciphertext) := splitNonce stored h
        aead.decrypt keys.primary nonce ciphertext
      else none
  match unsealed with
  | some plaintext => .ok plaintext
  | none => .error .corrupted

/-- A blob of the form of old. -/
def legacyBlob (keys : KeySet κ) (nonce : Nonce) (plaintext : Bytes) : Bytes :=
  nonce.1 ++ aead.encrypt keys.primary nonce plaintext

/-- The form with an id: the tag of the format, the length of the id, between 1 and 32, the id, a
nonce and a byte at least. -/
def LooksVersioned (blob : Bytes) : Prop :=
  ∃ idLen id rest, blob = 0x01 :: idLen :: (id ++ rest) ∧ id.length = idLen.toNat ∧
    1 ≤ id.length ∧ id.length ≤ 32 ∧ id.toByteArray.IsValidUTF8 ∧ 13 ≤ rest.length

/-! ## Validated keys -/

/-- Where one element at most is looked for, it does not matter from which end. -/
theorem find?_reverse {α : Type} {p : α → Bool} {xs : List α}
    (h : ∀ x ∈ xs, ∀ y ∈ xs, p x = true → p y = true → x = y) :
    xs.reverse.find? p = xs.find? p := by
  cases hfront : xs.find? p with
  | none =>
    rw [List.find?_eq_none] at hfront ⊢
    intro x hx
    exact hfront x (List.mem_reverse.1 hx)
  | some x =>
    have hx := List.mem_of_find?_eq_some hfront
    have hpx := List.find?_some hfront
    cases hback : xs.reverse.find? p with
    | none => exact absurd hpx (List.find?_eq_none.1 hback x (List.mem_reverse.2 hx))
    | some y =>
      have hy := List.mem_reverse.1 (List.mem_of_find?_eq_some hback)
      rw [h x hx y hy hpx (List.find?_some hback)]

theorem lookupKey_entries (keys : Keys κ) (id : Bytes) :
    lookupKey keys.entries id = keys.byId id := by
  rw [lookupKey, Keys.byId, find?_reverse]
  intro x hx y hy hpx hpy
  have hid : x.1 = y.1 := utf8_inj ((of_decide_eq_true hpx).trans (of_decide_eq_true hpy).symm)
  exact List.inj_on_of_nodup_map keys.distinct hx hy hid

/-- The keys of a validated list, as a key set. -/
def Keys.toKeySet (keys : Keys κ) : KeySet κ where
  entries := keys.entries
  primaryId := keys.primaryId
  primary := keys.primary
  primary_eq := (lookupKey_entries keys _).trans byId_primary

/-- On validated keys this is the box with those keys installed. -/
theorem decrypt_toKeySet (keys : Keys κ) (stored : Bytes) :
    keys.toKeySet.decrypt aead stored = SecretBox.decrypt aead (some keys) stored := by
  have hbyId : ∀ id, keys.toKeySet.byId id = keys.byId id := lookupKey_entries keys
  simp only [KeySet.decrypt, SecretBox.decrypt, hbyId]
  rfl

/-- A primary id that is listed is installed. -/
theorem exists_init {entries : List (String × κ)} {primaryId : String}
    (hlisted : primaryId ∈ entries.map Prod.fst) :
    ∃ keys, init entries (some primaryId) = .ok (some keys) ∧ keys.primaryId = primaryId := by
  obtain ⟨entry, hentry, rfl⟩ := List.mem_map.1 hlisted
  have hne : entries.isEmpty = false := by
    rw [List.isEmpty_eq_false_iff]
    exact List.ne_nil_of_mem hentry
  simp only [init, hne, Bool.false_eq_true, if_false]
  split
  · rename_i hnone
    rw [lookupKey, Option.map_eq_none_iff, List.find?_eq_none] at hnone
    exact absurd (hnone entry (List.mem_reverse.2 hentry)) (by simp)
  · exact ⟨_, rfl, rfl⟩

end KeySets

/-! ## Reading a blob -/

theorem parseVersioned_eq_some_iff {stored id ciphertext : Bytes} {nonce : Nonce} :
    parseVersioned stored = some (id, nonce, ciphertext) ↔
      ∃ idLen, stored = 0x01 :: idLen :: (id ++ (nonce.1 ++ ciphertext)) ∧
        id.length = idLen.toNat ∧ 1 ≤ id.length ∧ id.length ≤ 32 ∧
        id.toByteArray.IsValidUTF8 ∧ ciphertext ≠ [] := by
  constructor
  · intro h
    unfold parseVersioned at h
    split at h
    · rename_i idLen rest
      simp only at h
      split at h
      · rename_i hrange
        split at h
        · rename_i hvalid
          obtain ⟨rfl, hsplit⟩ := Prod.mk.inj (Option.some.inj h)
          obtain ⟨rfl, rfl⟩ := Prod.mk.inj hsplit
          have hlength : (rest.take idLen.toNat).length = idLen.toNat :=
            List.length_take_of_le (by omega)
          refine ⟨idLen, ?_, hlength, by omega, by omega, hvalid, ?_⟩
          · rw [List.take_append_drop, List.take_append_drop]
          · apply List.ne_nil_of_length_pos
            simp only [List.length_drop]
            omega
        · exact absurd h (by simp)
      · exact absurd h (by simp)
    · exact absurd h (by simp)
  · rintro ⟨idLen, rfl, hlength, hpos, hle, hvalid, hne⟩
    have hsome : 0 < ciphertext.length := List.length_pos_of_ne_nil hne
    have hnonce := nonce.2
    have hlong : id.length + 12 + 1 ≤ (id ++ (nonce.1 ++ ciphertext)).length := by
      simp only [List.length_append]
      omega
    simp only [parseVersioned, ← hlength, List.take_left, List.drop_left, hvalid, if_true]
    rw [dif_pos ⟨hpos, hle, hlong⟩, splitNonce_append]

/-- A blob is read as one with an id where it looks like one. -/
theorem parseVersioned_eq_none_iff {stored : Bytes} :
    parseVersioned stored = none ↔ ¬ LooksVersioned stored := by
  constructor
  · rintro hnone ⟨idLen, id, rest, rfl, hlength, hpos, hle, hvalid, hrest⟩
    have htake : (rest.take 12).length = 12 := List.length_take_of_le (by omega)
    have hdrop : rest.drop 12 ≠ [] := by
      apply List.ne_nil_of_length_pos
      rw [List.length_drop]
      omega
    have hsome : parseVersioned (0x01 :: idLen :: (id ++ rest)) =
        some (id, ⟨rest.take 12, htake⟩, rest.drop 12) := by
      refine parseVersioned_eq_some_iff.2 ⟨idLen, ?_, hlength, hpos, hle, hvalid, hdrop⟩
      rw [List.take_append_drop]
    rw [hsome] at hnone
    exact absurd hnone (by simp)
  · intro hlooks
    cases hparse : parseVersioned stored with
    | none => rfl
    | some parsed =>
      obtain ⟨id, nonce, ciphertext⟩ := parsed
      obtain ⟨idLen, rfl, hlength, hpos, hle, hvalid, hne⟩ := parseVersioned_eq_some_iff.1 hparse
      have hsome : 0 < ciphertext.length := List.length_pos_of_ne_nil hne
      have hnonce := nonce.2
      refine absurd ⟨idLen, id, nonce.1 ++ ciphertext, rfl, hlength, hpos, hle, hvalid, ?_⟩ hlooks
      rw [List.length_append]
      omega

/-! ## What is opened -/

section Opened

variable {κ : Type} {aead : Aead κ} {keys : KeySet κ} {nonce : Nonce} {plaintext stored : Bytes}

/-- Where the blob has an id, its key opens it. -/
theorem decrypt_of_versioned {id ciphertext : Bytes}
    (h : parseVersioned stored = some (id, nonce, ciphertext)) :
    keys.decrypt aead stored = .ok plaintext ↔
      ∃ key, keys.byId id = some key ∧ aead.decrypt key nonce ciphertext = some plaintext := by
  simp only [KeySet.decrypt, h]
  cases keys.byId id with
  | none => simp
  | some key =>
    simp only [Option.bind_some, Option.some.injEq, exists_eq_left']
    cases aead.decrypt key nonce ciphertext <;> simp

/-- Where it has none, the primary key opens what is behind the first twelve bytes. -/
theorem decrypt_of_legacy (h : parseVersioned stored = none) :
    keys.decrypt aead stored = .ok plaintext ↔
      ∃ (nonce : Nonce) (ciphertext : Bytes), stored = nonce.1 ++ ciphertext ∧
        aead.decrypt keys.primary nonce ciphertext = some plaintext := by
  simp only [KeySet.decrypt, h]
  by_cases hlong : 12 ≤ stored.length
  · rw [dif_pos hlong]
    have hsplit : stored = (splitNonce stored hlong).1.1 ++ (splitNonce stored hlong).2 :=
      (List.take_append_drop 12 stored).symm
    have hunique : ∀ (nonce : Nonce) (ciphertext : Bytes), stored = nonce.1 ++ ciphertext →
        splitNonce stored hlong = (nonce, ciphertext) := by
      rintro nonce ciphertext rfl
      exact splitNonce_append nonce ciphertext hlong
    constructor
    · intro hopened
      refine ⟨_, _, hsplit, ?_⟩
      cases hplain : aead.decrypt keys.primary (splitNonce stored hlong).1
          (splitNonce stored hlong).2 with
      | none =>
        simp only [hplain] at hopened
        exact absurd hopened (by simp)
      | some opened =>
        simp only [hplain] at hopened
        rw [Except.ok.inj hopened]
    · rintro ⟨nonce, ciphertext, hstored, hopened⟩
      simp only [hunique nonce ciphertext hstored, hopened]
  · rw [dif_neg hlong]
    constructor
    · intro hopened
      exact absurd hopened (by simp)
    · rintro ⟨nonce, ciphertext, rfl, -⟩
      have hnonce := nonce.2
      rw [List.length_append] at hlong
      omega

/-- A sealed blob has sixteen bytes more than what was sealed. -/
theorem length_of_decrypt (hexact : aead.Exact) {key : κ} {ciphertext : Bytes}
    (h : aead.decrypt key nonce ciphertext = some plaintext) :
    ciphertext.length = plaintext.length + 16 := by
  rw [hexact.opens_only h]
  exact hexact.length_encrypt key nonce plaintext

/-- A blob whose key is in the set is opened, as long as the length of its id is one that is read. -/
theorem decrypt_written {written : KeySet κ}
    (hwritten : written.encrypt aead nonce plaintext = .ok stored)
    (hkept : keys.byId (utf8 written.primaryId) = some written.primary)
    (hpos : 1 ≤ (utf8 written.primaryId).length) (hle : (utf8 written.primaryId).length ≤ 32) :
    keys.decrypt aead stored = .ok plaintext := by
  simp only [KeySet.encrypt, if_pos (show (utf8 written.primaryId).length < 256 by omega)]
    at hwritten
  obtain rfl := Except.ok.inj hwritten
  have hparse := parseVersioned_encode written.primaryId hpos hle nonce
    (aead.encrypt_ne_nil written.primary nonce plaintext)
  exact (decrypt_of_versioned hparse).2
    ⟨written.primary, hkept, aead.decrypt_encrypt written.primary nonce plaintext⟩

theorem decrypt_written_iff (hexact : aead.Exact) {written : KeySet κ}
    (hwritten : written.encrypt aead nonce plaintext = .ok stored)
    (hkept : keys.byId (utf8 written.primaryId) = some written.primary) :
    keys.decrypt aead stored = .ok plaintext ↔
      1 ≤ (utf8 written.primaryId).length ∧ (utf8 written.primaryId).length ≤ 32 := by
  constructor
  · intro hopened
    by_contra hrange
    simp only [KeySet.encrypt] at hwritten
    split at hwritten
    · rename_i hshort
      obtain rfl := Except.ok.inj hwritten
      have hnone : parseVersioned (0x01 :: UInt8.ofNat (utf8 written.primaryId).length ::
          (utf8 written.primaryId ++
            (nonce.1 ++ aead.encrypt written.primary nonce plaintext))) = none := by
        have hlen : (UInt8.ofNat (utf8 written.primaryId).length).toNat =
            (utf8 written.primaryId).length := by
          rw [UInt8.toNat_ofNat', Nat.mod_eq_of_lt hshort]
        simp only [parseVersioned, hlen]
        rw [dif_neg]
        rintro ⟨hpos, hle, -⟩
        exact hrange ⟨hpos, hle⟩
      -- what is behind the first twelve bytes is longer than what was sealed
      obtain ⟨other, ciphertext, hsplit, hother⟩ := (decrypt_of_legacy hnone).1 hopened
      have hlength := length_of_decrypt hexact hother
      have hsealed := hexact.length_encrypt written.primary nonce plaintext
      have hbytes := congrArg List.length hsplit
      have hnonce := nonce.2
      have hnonceOther := other.2
      simp only [List.length_cons, List.length_append] at hbytes
      omega
    · exact absurd hwritten (by simp)
  · rintro ⟨hpos, hle⟩
    exact decrypt_written hwritten hkept hpos hle

theorem decrypt_legacy_iff (hexact : aead.Exact) :
    keys.decrypt aead (legacyBlob aead keys nonce plaintext) = .ok plaintext ↔
      ¬ LooksVersioned (legacyBlob aead keys nonce plaintext) := by
  rw [← parseVersioned_eq_none_iff]
  constructor
  · intro hopened
    cases hparse : parseVersioned (legacyBlob aead keys nonce plaintext) with
    | none => rfl
    | some parsed =>
      -- what would be opened is shorter than what was sealed
      obtain ⟨id, other, ciphertext⟩ := parsed
      obtain ⟨key, -, hother⟩ := (decrypt_of_versioned hparse).1 hopened
      obtain ⟨idLen, hblob, -⟩ := parseVersioned_eq_some_iff.1 hparse
      have hlength := length_of_decrypt hexact hother
      have hsealed := hexact.length_encrypt keys.primary nonce plaintext
      have hbytes := congrArg List.length hblob
      have hnonce := nonce.2
      have hnonceOther := other.2
      simp only [legacyBlob, List.length_cons, List.length_append] at hbytes
      omega
  · intro hnone
    exact (decrypt_of_legacy hnone).2
      ⟨nonce, _, rfl, aead.decrypt_encrypt keys.primary nonce plaintext⟩

end Opened

/-- A blob that was written under a key which is still in the set is opened iff the id of the key has
1 to 32 bytes; a blob of the form of old is opened iff it does not look like one with an id. -/
theorem stored_secrets_decrypt_iff {κ : Type} (aead : Aead κ) (hexact : aead.Exact)
    (keys : KeySet κ) (nonce : Nonce) (plaintext : Bytes) :
    (∀ (written : KeySet κ) (stored : Bytes),
      written.encrypt aead nonce plaintext = .ok stored →
      keys.byId (utf8 written.primaryId) = some written.primary →
      (keys.decrypt aead stored = .ok plaintext ↔
        1 ≤ (utf8 written.primaryId).length ∧ (utf8 written.primaryId).length ≤ 32)) ∧
    (keys.decrypt aead (legacyBlob aead keys nonce plaintext) = .ok plaintext ↔
      ¬ LooksVersioned (legacyBlob aead keys nonce plaintext)) :=
  ⟨fun _ _ hwritten hkept => decrypt_written_iff hexact hwritten hkept, decrypt_legacy_iff hexact⟩

/-! ## A nonce that looks like a tag and an id -/

/-- A cipher that seals one text as AES-256-GCM does, and any other with sixteen zeros for a tag. -/
def sampleCipher (nonce sealed : Bytes) (hlength : sealed.length = 28)
    (htag : sealed.drop 12 ≠ List.replicate 16 0) : Aead Bytes where
  encrypt key other plaintext :=
    if key = List.replicate 32 0xBB ∧ other.1 = nonce ∧ plaintext = utf8 "pre-rotation" then sealed
    else plaintext ++ List.replicate 16 0
  decrypt key other ciphertext :=
    let plaintext := ciphertext.take (ciphertext.length - 16)
    if key = List.replicate 32 0xBB ∧ other.1 = nonce ∧ ciphertext = sealed then
      some (utf8 "pre-rotation")
    else if ciphertext = plaintext ++ List.replicate 16 0 ∧
        ¬ (key = List.replicate 32 0xBB ∧ other.1 = nonce ∧ plaintext = utf8 "pre-rotation") then
      some plaintext
    else none
  decrypt_encrypt key other plaintext := by
    by_cases hsample : key = List.replicate 32 0xBB ∧ other.1 = nonce ∧
        plaintext = utf8 "pre-rotation"
    · obtain ⟨hkey, hnonce, rfl⟩ := hsample
      simp [hkey, hnonce]
    · have hplain : (plaintext ++ List.replicate 16 0).take
          ((plaintext ++ List.replicate 16 (0 : UInt8)).length - 16) = plaintext := by simp
      have hother : plaintext ++ List.replicate 16 0 ≠ sealed := by
        rintro rfl
        have htwelve : plaintext.length = 12 := by simpa using hlength
        exact htag (by rw [← htwelve, List.drop_left])
      simp only [hplain, hother, and_false, if_false, hsample, not_false_eq_true,
        and_self, if_true]
  encrypt_ne_nil key other plaintext := by
    split
    · apply List.ne_nil_of_length_pos
      omega
    · simp

theorem sampleCipher_exact (nonce sealed : Bytes) (hlength : sealed.length = 28)
    (htag : sealed.drop 12 ≠ List.replicate 16 0) :
    (sampleCipher nonce sealed hlength htag).Exact where
  opens_only := by
    intro key other ciphertext plaintext h
    simp only [sampleCipher] at h ⊢
    split at h
    · rename_i hsample
      obtain rfl := Option.some.inj h
      rw [if_pos ⟨hsample.1, hsample.2.1, rfl⟩]
      exact hsample.2.2
    · split at h
      · rename_i hplain
        obtain rfl := Option.some.inj h
        rw [if_neg hplain.2]
        exact hplain.1
      · exact absurd h (by simp)
  length_encrypt := by
    intro key other plaintext
    simp only [sampleCipher]
    split
    · rename_i hsample
      have htwelve : (utf8 "pre-rotation").length = 12 := by decide +kernel
      rw [hsample.2.2, htwelve]
      exact hlength
    · simp

/-- The keys of the tests: `v2` in front of `v1`. -/
def twoKeySet : KeySet Bytes where
  entries := [("v2", List.replicate 32 0xBB), ("v1", List.replicate 32 0xAA)]
  primaryId := "v2"
  primary := List.replicate 32 0xBB
  primary_eq := by decide +kernel

/-- `pre-rotation`, sealed by AES-256-GCM with a nonce of sevens. -/
def sealedPlain : Bytes :=
  [0x78, 0x23, 0xdd, 0x54, 0x15, 0x28, 0x94, 0x1f, 0xd4, 0x6c, 0xbe, 0x13, 0xbf, 0x6a, 0x9b, 0xa5,
    0xa4, 0xad, 0x79, 0xc6, 0x25, 0x83, 0x34, 0xf9, 0xfd, 0xb9, 0x9e, 0xfa]

def plainNonce : Nonce := ⟨List.replicate 12 7, rfl⟩

def plainCipher : Aead Bytes := sampleCipher plainNonce.1 sealedPlain (by decide) (by decide)

/-- Both forms of a blob with this nonce are opened. -/
theorem plain_nonce_is_opened :
    twoKeySet.decrypt plainCipher (0x01 :: 2 :: (utf8 "v2" ++ (plainNonce.1 ++ sealedPlain))) =
        .ok (utf8 "pre-rotation") ∧
      twoKeySet.decrypt plainCipher (plainNonce.1 ++ sealedPlain) = .ok (utf8 "pre-rotation") := by
  obtain ⟨hwritten, hlegacy⟩ := stored_secrets_decrypt_iff plainCipher (sampleCipher_exact _ _ _ _)
    twoKeySet plainNonce (utf8 "pre-rotation")
  constructor
  · exact (hwritten twoKeySet _ (by decide +kernel) (by decide +kernel)).2 (by decide +kernel)
  · have hblob : legacyBlob plainCipher twoKeySet plainNonce (utf8 "pre-rotation") =
        plainNonce.1 ++ sealedPlain := by decide +kernel
    rw [hblob] at hlegacy
    refine hlegacy.2 ?_
    rintro ⟨idLen, id, rest, htagged, -⟩
    have hhead : (plainNonce.1 ++ sealedPlain).head? = some 0x01 := congrArg List.head? htagged
    exact absurd hhead (by decide)

/-- A nonce that starts with the tag, the length 2 and the letters of the id `v2`. -/
def taggedNonce : Nonce := ⟨[0x01, 0x02, 0x76, 0x32, 3, 4, 5, 6, 7, 8, 9, 10], rfl⟩

/-- `pre-rotation`, sealed by AES-256-GCM with that nonce. -/
def sealedTagged : Bytes :=
  [0x57, 0x82, 0xe2, 0x54, 0xe6, 0x36, 0xbb, 0x16, 0xb0, 0x03, 0x1a, 0x9c, 0xe8, 0xed, 0xf2, 0x10,
    0x9d, 0x3f, 0xf5, 0x12, 0xc6, 0xea, 0x39, 0x0b, 0xbe, 0x76, 0xc0, 0x9f]

def taggedCipher : Aead Bytes := sampleCipher taggedNonce.1 sealedTagged (by decide) (by decide)

/-- The blob of the form of old with this nonce is corrupted, though the primary key sealed it. -/
theorem tagged_nonce_is_corrupted :
    legacyBlob taggedCipher twoKeySet taggedNonce (utf8 "pre-rotation") =
        taggedNonce.1 ++ sealedTagged ∧
      twoKeySet.decrypt taggedCipher (taggedNonce.1 ++ sealedTagged) = .error .corrupted := by
  constructor
  · decide +kernel
  · have hparse : parseVersioned (taggedNonce.1 ++ sealedTagged) =
        some (utf8 "v2", ⟨[3, 4, 5, 6, 7, 8, 9, 10, 0x57, 0x82, 0xe2, 0x54], rfl⟩,
          sealedTagged.drop 4) := by
      refine parseVersioned_eq_some_iff.2 ⟨2, ?_, ?_, ?_, ?_, isValidUTF8_utf8 "v2", ?_⟩
      all_goals decide +kernel
    simp only [KeySet.decrypt, hparse]
    decide +kernel

end Edda.Auth.SecretBox
