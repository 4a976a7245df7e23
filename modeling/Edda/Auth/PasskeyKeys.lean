import Edda.Support.RustText

/-!
# The keys of passkeys

A registration keeps the public key that an authenticator attests as bytes, in an encoding for each
algorithm, and an assertion is verified with the key that these bytes are read back as. The libraries
that know the algorithms are a parameter. `exists_extract` says which attested keys are
taken, and `kept_of_extract` that what is kept of a key verifies exactly what the key verifies.
-/

set_option autoImplicit false

namespace Edda.Auth.Passkeys

open Edda.Support.RustText

def coseAlgEs256 : Int := -7

def coseAlgEddsa : Int := -8

def coseAlgRs256 : Int := -257

/-- `coset::cbor::value::Value`. -/
inductive CborValue where
  | integer (value : Int)
  | bytes (value : Bytes)
  | text (value : String)
  | bool (value : Bool)
  | map (entries : List (CborValue × CborValue))
  | other

inductive Label where
  | int (value : Int)
  | text (value : String)
  deriving DecidableEq, Repr

inductive KeyType where
  | ec2
  | okp
  | rsa
  | other
  deriving DecidableEq, Repr

structure CoseKey where
  kty : KeyType
  params : List (Label × CborValue)

/-- What the libraries of the three algorithms know: the point of a key on a curve, which keys are
keys, and which signatures of which data a key verifies. -/
structure KeyLibraries where
  sec1 : CoseKey → Option Bytes
  p256Key : Bytes → Bool
  p256Verifies : Bytes → Bytes → Bytes → Bool
  ed25519Key : Bytes → Bool
  ed25519Verifies : Bytes → Bytes → Bytes → Bool
  rsaKey : Nat → Nat → Bool
  rsaVerifies : Nat → Nat → Bytes → Bytes → Bool

/-- The value of a parameter, where it is a byte string. -/
def coseBstrParam (key : CoseKey) (label : Int) : Option Bytes :=
  key.params.findSome? fun
    | (.int i, .bytes value) => if i = label then some value else none
    | _ => none

/-- `iana::OkpKeyParameter::X`. -/
def okpX : Int := -2

/-- `iana::RsaKeyParameter::N`. -/
def rsaN : Int := -1

/-- `iana::RsaKeyParameter::E`. -/
def rsaE : Int := -2

/-! ## Big-endian numbers -/

/-- `BigUint::from_bytes_be`. -/
def fromBytesBe (bytes : Bytes) : Nat := bytes.foldl (fun n byte => n * 256 + byte.toNat) 0

def trimLeadingZeros (bytes : Bytes) : Bytes := bytes.dropWhile (· = 0)

theorem fromBytesBe_trim (bytes : Bytes) : fromBytesBe (trimLeadingZeros bytes) = fromBytesBe bytes := by
  induction bytes with
  | nil => rfl
  | cons byte bytes ih =>
    by_cases hzero : byte = 0
    · subst hzero
      exact ih
    · rw [trimLeadingZeros, List.dropWhile_cons_of_neg (by simpa using hzero)]

theorem foldl_be (bytes : Bytes) (n : Nat) :
    bytes.foldl (fun n byte => n * 256 + byte.toNat) n = n * 256 ^ bytes.length + fromBytesBe bytes := by
  induction bytes generalizing n with
  | nil => simp [fromBytesBe]
  | cons byte bytes ih =>
    rw [fromBytesBe, List.foldl_cons, List.foldl_cons, ih, ih (0 * 256 + byte.toNat), List.length_cons,
      Nat.pow_succ]
    ring

theorem fromBytesBe_cons (byte : UInt8) (bytes : Bytes) :
    fromBytesBe (byte :: bytes) = byte.toNat * 256 ^ bytes.length + fromBytesBe bytes := by
  rw [fromBytesBe, List.foldl_cons, foldl_be, Nat.zero_mul, Nat.zero_add]

theorem fromBytesBe_lt (bytes : Bytes) : fromBytesBe bytes < 256 ^ bytes.length := by
  induction bytes with
  | nil => exact Nat.one_pos
  | cons byte bytes ih =>
    have hbyte := byte.toNat_lt
    calc fromBytesBe (byte :: bytes)
        = byte.toNat * 256 ^ bytes.length + fromBytesBe bytes := fromBytesBe_cons byte bytes
      _ < byte.toNat * 256 ^ bytes.length + 256 ^ bytes.length := by omega
      _ = (byte.toNat + 1) * 256 ^ bytes.length := by ring
      _ ≤ 256 * 256 ^ bytes.length := Nat.mul_le_mul_right _ (by omega)
      _ = 256 ^ (byte :: bytes).length := by rw [List.length_cons, Nat.pow_succ, Nat.mul_comm]

/-- The bytes without leading zeros are as many as the number needs. -/
theorem length_trim_le_iff (bytes : Bytes) (k : Nat) :
    (trimLeadingZeros bytes).length ≤ k ↔ fromBytesBe bytes < 256 ^ k := by
  induction bytes with
  | nil => exact ⟨fun _ => Nat.pow_pos (by omega), fun _ => Nat.zero_le k⟩
  | cons byte bytes ih =>
    by_cases hzero : byte = 0
    · subst hzero
      exact ih
    · have hpos : 0 < byte.toNat :=
        Nat.pos_of_ne_zero fun htoNat => hzero (UInt8.toNat_inj.1 htoNat)
      rw [trimLeadingZeros, List.dropWhile_cons_of_neg (by simpa using hzero)]
      constructor
      · intro hlen
        exact Nat.lt_of_lt_of_le (fromBytesBe_lt _) (Nat.pow_le_pow_right (by omega) hlen)
      · intro hvalue
        by_contra hlong
        -- the first byte alone is worth more than fits
        have hfirst : 256 ^ k ≤ byte.toNat * 256 ^ bytes.length := by
          rw [List.length_cons] at hlong
          exact (Nat.pow_le_pow_right (by omega) (by omega)).trans (Nat.le_mul_of_pos_left _ hpos)
        rw [fromBytesBe_cons] at hvalue
        omega

/-- Nothing is left of the bytes of zero only. -/
theorem trim_eq_nil_iff {bytes : Bytes} : trimLeadingZeros bytes = [] ↔ fromBytesBe bytes = 0 := by
  have hlen := length_trim_le_iff bytes 0
  rw [Nat.le_zero, List.length_eq_zero_iff, Nat.pow_zero] at hlen
  rw [hlen]
  omega

/-! ## The encoding of RSA keys -/

/-- The length of the modulus in two bytes, the modulus and the exponent. -/
def encodeRsaPublicKey (modulus exponent : Bytes) : Option Bytes :=
  let n := trimLeadingZeros modulus
  let e := trimLeadingZeros exponent
  if n.length < 2 ^ 16 then
    some (UInt8.ofNat (n.length / 256) :: UInt8.ofNat (n.length % 256) :: (n ++ e))
  else none

def decodeRsaPublicKey (lib : KeyLibraries) : Bytes → Option (Nat × Nat)
  | high :: low :: rest =>
    let nLen := high.toNat * 256 + low.toNat
    if rest.length ≤ nLen then none
    else
      let n := fromBytesBe (rest.take nLen)
      let e := fromBytesBe (rest.drop nLen)
      if lib.rsaKey n e then some (n, e) else none
  | _ => none

variable (lib : KeyLibraries)

/-- The numbers are read back, unless the exponent is zero or they are no key. -/
theorem decode_encodeRsa {modulus exponent encoded : Bytes}
    (h : encodeRsaPublicKey modulus exponent = some encoded) :
    decodeRsaPublicKey lib encoded =
      if fromBytesBe exponent ≠ 0 ∧ lib.rsaKey (fromBytesBe modulus) (fromBytesBe exponent) = true then
        some (fromBytesBe modulus, fromBytesBe exponent)
      else none := by
  rw [encodeRsaPublicKey] at h
  split at h
  · rename_i hlen
    obtain rfl := Option.some.inj h
    have hnLen : (UInt8.ofNat ((trimLeadingZeros modulus).length / 256)).toNat * 256 +
        (UInt8.ofNat ((trimLeadingZeros modulus).length % 256)).toNat =
          (trimLeadingZeros modulus).length := by
      rw [UInt8.toNat_ofNat', UInt8.toNat_ofNat', Nat.mod_eq_of_lt (by omega),
        Nat.mod_eq_of_lt (by omega)]
      omega
    simp only [decodeRsaPublicKey, hnLen, List.take_left, List.drop_left, fromBytesBe_trim,
      List.length_append]
    by_cases hzero : fromBytesBe exponent = 0
    · rw [if_pos (by rw [trim_eq_nil_iff.2 hzero]; exact Nat.le_refl _),
        if_neg (fun hboth => hboth.1 hzero)]
    · have hlong : 0 < (trimLeadingZeros exponent).length :=
        List.length_pos_of_ne_nil fun hnil => hzero (trim_eq_nil_iff.1 hnil)
      rw [if_neg (by omega)]
      simp only [ne_eq, hzero, not_false_eq_true, true_and]
  · cases h

/-! ## Attested keys -/

/-- The bytes that are kept of an attested key, which has to be one. -/
def extractPublicKey (alg : Int) (key : CoseKey) : Option Bytes :=
  if alg = coseAlgEs256 then
    if key.kty ≠ .ec2 then none
    else do
      let sec1 ← lib.sec1 key
      if lib.p256Key sec1 then some sec1 else none
  else if alg = coseAlgEddsa then
    if key.kty ≠ .okp then none
    else do
      let x ← coseBstrParam key okpX
      if x.length = 32 then
        if lib.ed25519Key x then some x else none
      else none
  else if alg = coseAlgRs256 then
    if key.kty ≠ .rsa then none
    else do
      let n ← coseBstrParam key rsaN
      let e ← coseBstrParam key rsaE
      let encoded ← encodeRsaPublicKey n e
      let _ ← decodeRsaPublicKey lib encoded
      some encoded
  else none

/-- Whether a signature is one of the data under a key as it is kept. -/
def verifyAssertionSignature (alg : Int) (publicKey signedData signature : Bytes) : Bool :=
  if alg = coseAlgEs256 then lib.p256Key publicKey && lib.p256Verifies publicKey signedData signature
  else if alg = coseAlgEddsa then
    decide (publicKey.length = 32) && lib.ed25519Key publicKey &&
      lib.ed25519Verifies publicKey signedData signature
  else if alg = coseAlgRs256 then
    match decodeRsaPublicKey lib publicKey with
    | some (n, e) => lib.rsaVerifies n e signedData signature
    | none => false
  else false

/-- A public key as it is meant. -/
inductive PublicKey where
  | p256 (point : Bytes)
  | ed25519 (x : Bytes)
  | rsa (modulus exponent : Nat)
  deriving DecidableEq, Repr

/-- The key that is attested, none where it is not one of the algorithm. -/
def CoseKey.publicKey (key : CoseKey) (alg : Int) : Option PublicKey :=
  if alg = coseAlgEs256 ∧ key.kty = .ec2 then (lib.sec1 key).map .p256
  else if alg = coseAlgEddsa ∧ key.kty = .okp then (coseBstrParam key okpX).map .ed25519
  else if alg = coseAlgRs256 ∧ key.kty = .rsa then
    match coseBstrParam key rsaN, coseBstrParam key rsaE with
    | some n, some e => some (.rsa (fromBytesBe n) (fromBytesBe e))
    | _, _ => none
  else none

def PublicKey.verifies : PublicKey → Bytes → Bytes → Bool
  | .p256 point => lib.p256Verifies point
  | .ed25519 x => lib.ed25519Verifies x
  | .rsa modulus exponent => lib.rsaVerifies modulus exponent

/-- The key is one of its algorithm, and an RSA modulus has less than 2^16 bytes. -/
def PublicKey.Accepted : PublicKey → Prop
  | .p256 point => lib.p256Key point = true
  | .ed25519 x => x.length = 32 ∧ lib.ed25519Key x = true
  | .rsa modulus exponent =>
    modulus < 256 ^ (2 ^ 16 - 1) ∧ exponent ≠ 0 ∧ lib.rsaKey modulus exponent = true

variable {lib} {alg : Int} {key : CoseKey} {encoded : Bytes}

/-- The kept bytes are the key's. -/
def KeptAs (lib : KeyLibraries) (alg : Int) (encoded : Bytes) (publicKey : PublicKey) : Prop :=
  ∀ signedData signature, verifyAssertionSignature lib alg encoded signedData signature =
    publicKey.verifies lib signedData signature

theorem extract_es256 (hkty : key.kty = .ec2) :
    extractPublicKey lib coseAlgEs256 key = (lib.sec1 key).filter fun sec1 => lib.p256Key sec1 := by
  rw [extractPublicKey, if_pos rfl, if_neg (by simp [hkty])]
  cases lib.sec1 key <;> rfl

theorem extract_eddsa (hkty : key.kty = .okp) :
    extractPublicKey lib coseAlgEddsa key =
      (coseBstrParam key okpX).filter fun x => decide (x.length = 32) && lib.ed25519Key x := by
  rw [extractPublicKey, if_neg (by decide), if_pos rfl, if_neg (by simp [hkty])]
  cases coseBstrParam key okpX with
  | none => rfl
  | some x => by_cases hlen : x.length = 32 <;> simp [hlen, Option.filter]

theorem extract_rs256 (hkty : key.kty = .rsa) :
    extractPublicKey lib coseAlgRs256 key = (coseBstrParam key rsaN).bind fun n =>
      (coseBstrParam key rsaE).bind fun e => (encodeRsaPublicKey n e).filter fun encoded =>
        (decodeRsaPublicKey lib encoded).isSome := by
  rw [extractPublicKey, if_neg (by decide), if_neg (by decide), if_pos rfl, if_neg (by simp [hkty])]
  cases coseBstrParam key rsaN with
  | none => rfl
  | some n => cases coseBstrParam key rsaE with
    | none => rfl
    | some e => cases hencode : encodeRsaPublicKey n e with
      | none => simp [hencode]
      | some encoded => cases hdecode : decodeRsaPublicKey lib encoded <;>
          simp [hencode, hdecode, Option.filter]

/-- The key has the type of its algorithm, which is one of three. -/
def Supported (alg : Int) (key : CoseKey) : Prop :=
  (alg = coseAlgEs256 ∧ key.kty = .ec2) ∨ (alg = coseAlgEddsa ∧ key.kty = .okp) ∨
    (alg = coseAlgRs256 ∧ key.kty = .rsa)

theorem supported_of_extract (h : extractPublicKey lib alg key = some encoded) : Supported alg key := by
  rw [extractPublicKey] at h
  split_ifs at h with hes hkty hed hkty hrs hkty
  · exact Or.inl ⟨hes, not_not.1 hkty⟩
  · exact Or.inr (Or.inl ⟨hed, not_not.1 hkty⟩)
  · exact Or.inr (Or.inr ⟨hrs, not_not.1 hkty⟩)

theorem supported_of_publicKey {publicKey : PublicKey} (h : key.publicKey lib alg = some publicKey) :
    Supported alg key := by
  rw [CoseKey.publicKey] at h
  split_ifs at h with hes hed hrs
  · exact Or.inl hes
  · exact Or.inr (Or.inl hed)
  · exact Or.inr (Or.inr hrs)

theorem publicKey_es256 (hkty : key.kty = .ec2) :
    key.publicKey lib coseAlgEs256 = (lib.sec1 key).map .p256 := by
  rw [CoseKey.publicKey, if_pos ⟨rfl, hkty⟩]

theorem publicKey_eddsa (hkty : key.kty = .okp) :
    key.publicKey lib coseAlgEddsa = (coseBstrParam key okpX).map .ed25519 := by
  rw [CoseKey.publicKey, if_neg (by simp [hkty]), if_pos ⟨rfl, hkty⟩]

theorem publicKey_rs256 (hkty : key.kty = .rsa) :
    key.publicKey lib coseAlgRs256 = (coseBstrParam key rsaN).bind fun n =>
      (coseBstrParam key rsaE).map fun e => .rsa (fromBytesBe n) (fromBytesBe e) := by
  rw [CoseKey.publicKey, if_neg (by simp [hkty]), if_neg (by simp [hkty]), if_pos ⟨rfl, hkty⟩]
  cases coseBstrParam key rsaN <;> cases coseBstrParam key rsaE <;> rfl

theorem verify_rs256 (encoded signedData signature : Bytes) :
    verifyAssertionSignature lib coseAlgRs256 encoded signedData signature =
      (decodeRsaPublicKey lib encoded).any fun numbers =>
        lib.rsaVerifies numbers.1 numbers.2 signedData signature := by
  rw [verifyAssertionSignature, if_neg (by decide), if_neg (by decide), if_pos rfl]
  cases decodeRsaPublicKey lib encoded <;> rfl

/-- What is kept of an attested key verifies exactly what the key verifies. -/
theorem kept_of_extract (h : extractPublicKey lib alg key = some encoded) :
    ∃ publicKey, key.publicKey lib alg = some publicKey ∧ publicKey.Accepted lib ∧
      KeptAs lib alg encoded publicKey := by
  rcases supported_of_extract h with ⟨rfl, hkty⟩ | ⟨rfl, hkty⟩ | ⟨rfl, hkty⟩
  · rw [extract_es256 hkty, Option.filter_eq_some_iff] at h
    obtain ⟨hpoint, hkey⟩ := h
    refine ⟨.p256 encoded, by rw [publicKey_es256 hkty, hpoint]; rfl, hkey, ?_⟩
    intro signedData signature
    rw [verifyAssertionSignature, if_pos rfl, hkey, Bool.true_and, PublicKey.verifies]
  · rw [extract_eddsa hkty, Option.filter_eq_some_iff, Bool.and_eq_true, decide_eq_true_eq] at h
    obtain ⟨hx, hlen, hkey⟩ := h
    refine ⟨.ed25519 encoded, by rw [publicKey_eddsa hkty, hx]; rfl, ⟨hlen, hkey⟩, ?_⟩
    intro signedData signature
    rw [verifyAssertionSignature, if_neg (by decide), if_pos rfl, hkey, decide_eq_true hlen,
      Bool.true_and, Bool.true_and, PublicKey.verifies]
  · rw [extract_rs256 hkty, Option.bind_eq_some_iff] at h
    obtain ⟨n, hn, h⟩ := h
    obtain ⟨e, he, h⟩ := Option.bind_eq_some_iff.1 h
    obtain ⟨hencode, hdecode⟩ := Option.filter_eq_some_iff.1 h
    rw [decode_encodeRsa lib hencode] at hdecode
    split at hdecode
    · rename_i hkey
      have hlen : (trimLeadingZeros n).length < 2 ^ 16 := by
        by_contra hlong
        rw [encodeRsaPublicKey, if_neg hlong] at hencode
        cases hencode
      have hmodulus := (length_trim_le_iff n (2 ^ 16 - 1)).1 (by omega)
      refine ⟨.rsa (fromBytesBe n) (fromBytesBe e), ?_, ⟨hmodulus, hkey⟩, ?_⟩
      · rw [publicKey_rs256 hkty, hn, he]
        rfl
      · intro signedData signature
        rw [verify_rs256, decode_encodeRsa lib hencode, if_pos hkey, Option.any_some,
          PublicKey.verifies]
    · cases hdecode

/-- Every accepted key of its algorithm is taken. -/
theorem exists_extract {publicKey : PublicKey} (h : key.publicKey lib alg = some publicKey)
    (haccepted : publicKey.Accepted lib) : ∃ encoded, extractPublicKey lib alg key = some encoded := by
  rcases supported_of_publicKey h with ⟨rfl, hkty⟩ | ⟨rfl, hkty⟩ | ⟨rfl, hkty⟩
  · rw [publicKey_es256 hkty] at h
    obtain ⟨point, hpoint, rfl⟩ := Option.map_eq_some_iff.1 h
    exact ⟨point, by rw [extract_es256 hkty]; exact Option.filter_eq_some_iff.2 ⟨hpoint, haccepted⟩⟩
  · rw [publicKey_eddsa hkty] at h
    obtain ⟨x, hx, rfl⟩ := Option.map_eq_some_iff.1 h
    obtain ⟨hlen, hkey⟩ := haccepted
    refine ⟨x, ?_⟩
    rw [extract_eddsa hkty, Option.filter_eq_some_iff, Bool.and_eq_true]
    exact ⟨hx, decide_eq_true hlen, hkey⟩
  · rw [publicKey_rs256 hkty] at h
    obtain ⟨n, hn, h⟩ := Option.bind_eq_some_iff.1 h
    obtain ⟨e, he, rfl⟩ := Option.map_eq_some_iff.1 h
    obtain ⟨hmodulus, hkey⟩ := haccepted
    have hlen : (trimLeadingZeros n).length < 2 ^ 16 := by
      have hle := (length_trim_le_iff n (2 ^ 16 - 1)).2 hmodulus
      omega
    obtain ⟨encoded, hencode⟩ : ∃ encoded, encodeRsaPublicKey n e = some encoded := by
      rw [encodeRsaPublicKey, if_pos hlen]
      exact ⟨_, rfl⟩
    refine ⟨encoded, ?_⟩
    rw [extract_rs256 hkty, hn, Option.bind_some, he, Option.bind_some, Option.filter_eq_some_iff,
      decode_encodeRsa lib hencode, if_pos hkey]
    exact ⟨hencode, rfl⟩

end Edda.Auth.Passkeys
