import Edda.Support.RustText

/-!
# The secret box

How a secret that has to be read again is stored: sealed under the primary key, with the id of the
key in front. Every installed key opens what was sealed under it. The cipher is a parameter.
-/

set_option autoImplicit false

namespace Edda.Auth.SecretBox

open Edda.Support.RustText

/-- `NONCE_LEN` bytes. -/
abbrev Nonce := { bytes : Bytes // bytes.length = 12 }

/-- A cipher that opens what it has sealed, and seals nothing into no bytes. -/
structure Aead (κ : Type) where
  encrypt : κ → Nonce → Bytes → Bytes
  decrypt : κ → Nonce → Bytes → Option Bytes
  decrypt_encrypt : ∀ key nonce plaintext,
    decrypt key nonce (encrypt key nonce plaintext) = some plaintext
  encrypt_ne_nil : ∀ key nonce plaintext, encrypt key nonce plaintext ≠ []

/-- The keys of `EDDA_SECRET_KEYS`, the primary one first. Each id is of a length that fits into the
stored form, and no two are the same. -/
structure Keys (κ : Type) where
  primaryId : String
  primary : κ
  others : List (String × κ)
  idLength : ∀ entry ∈ (primaryId, primary) :: others,
    1 ≤ (utf8 entry.1).length ∧ (utf8 entry.1).length ≤ 32
  distinct : (((primaryId, primary) :: others).map Prod.fst).Nodup

inductive SecretBoxError where
  | notConfigured
  | corrupted
  deriving DecidableEq, Repr

variable {κ : Type} (aead : Aead κ) (installed : Option (Keys κ))

def Keys.entries (keys : Keys κ) : List (String × κ) := (keys.primaryId, keys.primary) :: keys.others

/-- The key with an id, given by the bytes of the id. -/
def Keys.byId (keys : Keys κ) (id : Bytes) : Option κ :=
  (keys.entries.find? fun entry => utf8 entry.1 = id).map Prod.snd

def encrypt (nonce : Nonce) (plaintext : Bytes) : Except SecretBoxError Bytes :=
  match installed with
  | none => .error .notConfigured
  | some keys =>
    let id := utf8 keys.primaryId
    let ciphertext := aead.encrypt keys.primary nonce plaintext
    .ok (0x01 :: UInt8.ofNat id.length :: (id ++ (nonce.1 ++ ciphertext)))

/-- A nonce at the front of some bytes. -/
def splitNonce (bytes : Bytes) (h : 12 ≤ bytes.length) : Nonce × Bytes :=
  (⟨bytes.take 12, by rw [List.length_take, Nat.min_eq_left h]⟩, bytes.drop 12)

/-- The key id, the nonce and the ciphertext, unless the bytes are not of this form. -/
def parseVersioned : Bytes → Option (Bytes × Nonce × Bytes)
  | 0x01 :: idLen :: rest =>
    let idLen := idLen.toNat
    if h : 0 < idLen ∧ idLen ≤ 32 ∧ idLen + 12 + 1 ≤ rest.length then
      let id := rest.take idLen
      if id.toByteArray.IsValidUTF8 then
        some (id, splitNonce (rest.drop idLen) (by rw [List.length_drop]; omega))
      else none
    else none
  | _ => none

def decrypt (stored : Bytes) : Except SecretBoxError Bytes :=
  match installed with
  | none => .error .notConfigured
  | some keys =>
    let unsealed := match parseVersioned stored with
      | some (id, nonce, ciphertext) =>
        (keys.byId id).bind fun key => aead.decrypt key nonce ciphertext
      -- the form of old: no key id, and the primary key
      | none =>
        if h : 12 ≤ stored.length then
          let (nonce, ciphertext) := splitNonce stored h
          aead.decrypt keys.primary nonce ciphertext
        else none
    match unsealed with
    | some plaintext => .ok plaintext
    | none => .error .corrupted

def reencrypt (nonce : Nonce) (stored : Bytes) : Except SecretBoxError Bytes :=
  match decrypt aead installed stored with
  | .error err => .error err
  | .ok plaintext => encrypt aead installed nonce plaintext

/-- The key id in front is that of the primary key. -/
def UnderPrimary (keys : Keys κ) (stored : Bytes) : Prop :=
  (parseVersioned stored).map Prod.fst = some (utf8 keys.primaryId)

instance (keys : Keys κ) (stored : Bytes) : Decidable (UnderPrimary keys stored) :=
  inferInstanceAs (Decidable (_ = _))

/-! ## What is sealed is opened -/

section RoundTrip

variable {aead} {keys : Keys κ} {nonce : Nonce} {plaintext stored sealed : Bytes}

theorem splitNonce_append (nonce : Nonce) (bytes : Bytes) (h : 12 ≤ (nonce.1 ++ bytes).length) :
    splitNonce (nonce.1 ++ bytes) h = (nonce, bytes) := by
  obtain ⟨front, hfront⟩ := nonce
  have htake : (front ++ bytes).take 12 = front := by rw [← hfront, List.take_left]
  have hdrop : (front ++ bytes).drop 12 = bytes := by rw [← hfront, List.drop_left]
  simp only [splitNonce, htake, hdrop]

theorem isValidUTF8_utf8 (text : String) : (utf8 text).toByteArray.IsValidUTF8 :=
  ByteArray.isValidUTF8_utf8Encode

/-- The stored form is read back. -/
theorem parseVersioned_encode (text : String) (hpos : 1 ≤ (utf8 text).length)
    (hle : (utf8 text).length ≤ 32) (nonce : Nonce) {ciphertext : Bytes} (hne : ciphertext ≠ []) :
    parseVersioned (0x01 :: UInt8.ofNat (utf8 text).length ::
        (utf8 text ++ (nonce.1 ++ ciphertext))) = some (utf8 text, nonce, ciphertext) := by
  have hlen : (UInt8.ofNat (utf8 text).length).toNat = (utf8 text).length := by
    rw [UInt8.toNat_ofNat']
    omega
  have hsome : 0 < ciphertext.length := List.length_pos_of_ne_nil hne
  have hlong : (utf8 text).length + 12 + 1 ≤ (utf8 text ++ (nonce.1 ++ ciphertext)).length := by
    have hnonce := nonce.2
    simp only [List.length_append]
    omega
  simp only [parseVersioned, hlen, List.take_left, List.drop_left, isValidUTF8_utf8, if_true]
  rw [dif_pos ⟨hpos, hle, hlong⟩, splitNonce_append]

theorem byId_primary : keys.byId (utf8 keys.primaryId) = some keys.primary := by
  simp [Keys.byId, Keys.entries]

theorem primary_idLength (keys : Keys κ) :
    1 ≤ (utf8 keys.primaryId).length ∧ (utf8 keys.primaryId).length ≤ 32 :=
  keys.idLength _ List.mem_cons_self

/-- What is sealed is sealed under the primary key, and opened with it. -/
theorem encrypt_spec (h : encrypt aead (some keys) nonce plaintext = .ok sealed) :
    UnderPrimary keys sealed ∧ decrypt aead (some keys) sealed = .ok plaintext := by
  obtain rfl := Except.ok.inj h
  have hparse := parseVersioned_encode keys.primaryId (primary_idLength keys).1
    (primary_idLength keys).2 nonce (aead.encrypt_ne_nil keys.primary nonce plaintext)
  constructor
  · rw [UnderPrimary, hparse]
    rfl
  · simp only [decrypt, hparse, byId_primary, Option.bind_some, aead.decrypt_encrypt]

theorem encrypt_ok (aead : Aead κ) (keys : Keys κ) (nonce : Nonce) (plaintext : Bytes) :
    ∃ sealed, encrypt aead (some keys) nonce plaintext = .ok sealed := ⟨_, rfl⟩

theorem reencrypt_of_decrypt (h : decrypt aead (some keys) stored = .ok plaintext) :
    reencrypt aead (some keys) nonce stored = encrypt aead (some keys) nonce plaintext := by
  simp only [reencrypt, h]

end RoundTrip

end Edda.Auth.SecretBox
