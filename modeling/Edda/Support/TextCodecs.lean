import Edda.Support.RustText

/-!
# Bytes and identifiers as text

Base64 in its URL-safe alphabet without padding, and the hyphenated text of a UUID. `decode_encode`
reads the encoded bytes back, and `uuidText_inj` tells that no two identifiers have the same text.
-/

set_option autoImplicit false

namespace Edda.Support.TextCodecs

open Edda.Support.RustText

/-! ## Base64 -/

/-- A digit of the URL-safe alphabet. -/
def urlSafe (digit : Nat) : Char :=
  if digit < 26 then Char.ofNat (65 + digit)
  else if digit < 52 then Char.ofNat (71 + digit)
  else if digit < 62 then Char.ofNat (digit - 4)
  else if digit = 62 then '-'
  else '_'

def urlSafeValue (c : Char) : Option Nat :=
  if 'A' ≤ c ∧ c ≤ 'Z' then some (c.toNat - 65)
  else if 'a' ≤ c ∧ c ≤ 'z' then some (c.toNat - 71)
  else if '0' ≤ c ∧ c ≤ '9' then some (c.toNat + 4)
  else if c = '-' then some 62
  else if c = '_' then some 63
  else none

theorem urlSafeValue_urlSafe : ∀ digit, digit < 64 → urlSafeValue (urlSafe digit) = some digit := by
  decide

/-- Three bytes are four digits, and one or two at the end are two or three. -/
def encodeChars : Bytes → List Char
  | a :: b :: c :: rest =>
    urlSafe (a.toNat / 4) :: urlSafe (a.toNat % 4 * 16 + b.toNat / 16) ::
      urlSafe (b.toNat % 16 * 4 + c.toNat / 64) :: urlSafe (c.toNat % 64) :: encodeChars rest
  | [a, b] =>
    [urlSafe (a.toNat / 4), urlSafe (a.toNat % 4 * 16 + b.toNat / 16), urlSafe (b.toNat % 16 * 4)]
  | [a] => [urlSafe (a.toNat / 4), urlSafe (a.toNat % 4 * 16)]
  | [] => []

/-- The bits behind the last byte have to be zero. -/
def decodeChars : List Char → Option Bytes
  | w :: x :: y :: z :: rest => do
    let w ← urlSafeValue w
    let x ← urlSafeValue x
    let y ← urlSafeValue y
    let z ← urlSafeValue z
    let bytes ← decodeChars rest
    some (UInt8.ofNat (w * 4 + x / 16) :: UInt8.ofNat (x % 16 * 16 + y / 4) ::
      UInt8.ofNat (y % 4 * 64 + z) :: bytes)
  | [w, x, y] => do
    let w ← urlSafeValue w
    let x ← urlSafeValue x
    let y ← urlSafeValue y
    if y % 4 = 0 then some [UInt8.ofNat (w * 4 + x / 16), UInt8.ofNat (x % 16 * 16 + y / 4)] else none
  | [w, x] => do
    let w ← urlSafeValue w
    let x ← urlSafeValue x
    if x % 16 = 0 then some [UInt8.ofNat (w * 4 + x / 16)] else none
  | [_] => none
  | [] => some []

/-- `URL_SAFE_NO_PAD.encode`. -/
def encode (bytes : Bytes) : String := String.ofList (encodeChars bytes)

/-- `URL_SAFE_NO_PAD.decode`. -/
def decode (text : String) : Option Bytes := decodeChars text.toList

theorem ofNat_of_eq {byte : UInt8} {n : Nat} (h : n = byte.toNat) : UInt8.ofNat n = byte := by
  rw [h, UInt8.ofNat_toNat]

theorem decodeChars_encodeChars (bytes : Bytes) : decodeChars (encodeChars bytes) = some bytes := by
  induction bytes using encodeChars.induct with
  | case1 a b c rest ih =>
    have ha := a.toNat_lt
    have hb := b.toNat_lt
    have hc := c.toNat_lt
    simp only [encodeChars, decodeChars, ih]
    rw [urlSafeValue_urlSafe _ (by omega), urlSafeValue_urlSafe _ (by omega),
      urlSafeValue_urlSafe _ (by omega), urlSafeValue_urlSafe _ (by omega)]
    simp only [Option.bind_eq_bind, Option.bind_some]
    rw [@ofNat_of_eq a _ (by omega), @ofNat_of_eq b _ (by omega), @ofNat_of_eq c _ (by omega)]
  | case2 a b =>
    have ha := a.toNat_lt
    have hb := b.toNat_lt
    simp only [encodeChars, decodeChars]
    rw [urlSafeValue_urlSafe _ (by omega), urlSafeValue_urlSafe _ (by omega),
      urlSafeValue_urlSafe _ (by omega)]
    simp only [Option.bind_eq_bind, Option.bind_some]
    rw [if_pos (by omega), @ofNat_of_eq a _ (by omega), @ofNat_of_eq b _ (by omega)]
  | case3 a =>
    have ha := a.toNat_lt
    simp only [encodeChars, decodeChars]
    rw [urlSafeValue_urlSafe _ (by omega), urlSafeValue_urlSafe _ (by omega)]
    simp only [Option.bind_eq_bind, Option.bind_some]
    rw [if_pos (by omega), @ofNat_of_eq a _ (by omega)]
  | case4 => rfl

theorem decode_encode (bytes : Bytes) : decode (encode bytes) = some bytes := by
  rw [decode, encode, String.toList_ofList, decodeChars_encodeChars]

theorem encode_inj {bytes bytes' : Bytes} (h : encode bytes = encode bytes') : bytes = bytes' :=
  Option.some.inj ((decode_encode bytes).symm.trans ((congrArg decode h).trans (decode_encode bytes')))

example : encode [0xFB, 0xFF, 0x01, 0x80] = "-_8BgA" := by decide +kernel

/-! ## UUIDs -/

/-- The last hexadecimal digits of a number, as many as are asked for. -/
def hexText : Nat → Nat → List Char
  | 0, _ => []
  | count + 1, n => hexText count (n / 16) ++ [Char.ofNat (hexDigit (n % 16)).toNat]

/-- `Uuid::to_string`: five groups of digits between hyphens. -/
def uuidText (id : BitVec 128) : String :=
  let digits := hexText 32 id.toNat
  String.ofList (digits.take 8 ++ '-' :: ((digits.drop 8).take 4 ++ '-' :: ((digits.drop 12).take 4 ++
    '-' :: ((digits.drop 16).take 4 ++ '-' :: digits.drop 20))))

theorem hexChar_ne_hyphen : ∀ digit, digit < 16 → Char.ofNat (hexDigit digit).toNat ≠ '-' := by
  decide

theorem hexChar_inj : ∀ digit, digit < 16 → ∀ digit', digit' < 16 →
    Char.ofNat (hexDigit digit).toNat = Char.ofNat (hexDigit digit').toNat → digit = digit' := by
  decide

theorem hyphen_notMem_hexText (count n : Nat) : '-' ∉ hexText count n := by
  induction count generalizing n with
  | zero => exact List.not_mem_nil
  | succ count ih =>
    rw [hexText, List.mem_append, not_or, List.mem_singleton]
    exact ⟨ih (n / 16), Ne.symm (hexChar_ne_hyphen _ (Nat.mod_lt _ (by omega)))⟩

theorem hexText_inj {count n n' : Nat} (hn : n < 16 ^ count) (hn' : n' < 16 ^ count)
    (h : hexText count n = hexText count n') : n = n' := by
  induction count generalizing n n' with
  | zero => omega
  | succ count ih =>
    obtain ⟨hrest, hlast⟩ := List.append_inj' h rfl
    have hhigh : n / 16 = n' / 16 := by
      apply ih _ _ hrest
      · exact Nat.div_lt_of_lt_mul (by rwa [Nat.mul_comm, ← Nat.pow_succ])
      · exact Nat.div_lt_of_lt_mul (by rwa [Nat.mul_comm, ← Nat.pow_succ])
    have hlow : n % 16 = n' % 16 :=
      hexChar_inj _ (Nat.mod_lt _ (by omega)) _ (Nat.mod_lt _ (by omega)) (List.cons.inj hlast).1
    omega

theorem regroup (digits : List Char) :
    digits.take 8 ++ ((digits.drop 8).take 4 ++ ((digits.drop 12).take 4 ++
      ((digits.drop 16).take 4 ++ digits.drop 20))) = digits := by
  have hnext (n : Nat) : (digits.drop n).take 4 ++ digits.drop (n + 4) = digits.drop n := by
    rw [← List.drop_drop, List.take_append_drop]
  rw [hnext 16, hnext 12, hnext 8, List.take_append_drop]

/-- The digits are what is left without the hyphens. -/
theorem digits_uuidText (id : BitVec 128) :
    (uuidText id).toList.filter (fun c => c ≠ '-') = hexText 32 id.toNat := by
  have hhyphen (chars : List Char) :
      ('-' :: chars).filter (fun c => c ≠ '-') = chars.filter (fun c => c ≠ '-') := rfl
  rw [uuidText, String.toList_ofList]
  simp only [List.filter_append, hhyphen]
  rw [← List.filter_append, ← List.filter_append, ← List.filter_append, ← List.filter_append, regroup]
  apply List.filter_eq_self.2
  intro c hc
  apply decide_eq_true
  rintro rfl
  exact hyphen_notMem_hexText _ _ hc

theorem uuidText_inj {id id' : BitVec 128} (h : uuidText id = uuidText id') : id = id' := by
  have hdigits : hexText 32 id.toNat = hexText 32 id'.toNat := by
    rw [← digits_uuidText, ← digits_uuidText, h]
  exact BitVec.eq_of_toNat_eq (hexText_inj id.isLt id'.isLt hdigits)

end Edda.Support.TextCodecs
