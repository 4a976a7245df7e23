import Mathlib

/-!
# Byte strings and text, as the Rust standard library reads them

The functions of `str`, `String` and the integer parsers that the wire code calls: lossy UTF-8
decoding, Unicode trimming, splitting, and radix parsing and printing. Text is handled as a list
of characters; `String` values cross the boundary with `String.ofList` and `String.toList`.
-/

set_option autoImplicit false

namespace Edda.Support.RustText

/-- A byte buffer. -/
abbrev Bytes := List UInt8

/-! ## UTF-8 -/

/-- The UTF-8 bytes of a text (`str::as_bytes`). -/
def utf8 (s : String) : Bytes := s.toList.flatMap String.utf8EncodeChar

theorem utf8_append (s t : String) : utf8 (s ++ t) = utf8 s ++ utf8 t := by
  simp only [utf8, String.toList_append, List.flatMap_append]

/-- A character takes four bytes at most. -/
theorem length_utf8_le (s : String) : (utf8 s).length ≤ 4 * s.toList.length := by
  simp only [utf8]
  induction s.toList with
  | nil => exact Nat.le_refl 0
  | cons c chars ih =>
    have hfour := c.utf8Size_le_four
    rw [← String.length_utf8EncodeChar] at hfour
    simp only [List.flatMap_cons, List.length_append, List.length_cons]
    omega

/-- No encoded character starts another one. -/
theorem utf8EncodeChar_append_inj {c d : Char} {xs ys : Bytes}
    (h : String.utf8EncodeChar c ++ xs = String.utf8EncodeChar d ++ ys) : c = d ∧ xs = ys := by
  have hc := @ByteArray.utf8DecodeChar?_utf8EncodeChar_append xs.toByteArray c
  have hd := @ByteArray.utf8DecodeChar?_utf8EncodeChar_append ys.toByteArray d
  rw [← List.toByteArray_append, h, List.toByteArray_append, hd] at hc
  obtain rfl := Option.some.inj hc
  exact ⟨rfl, List.append_cancel_left h⟩

theorem flatMap_utf8_eq_append {head chars : List Char} {text : Bytes}
    (h : chars.flatMap String.utf8EncodeChar = head.flatMap String.utf8EncodeChar ++ text) :
    ∃ rest, chars = head ++ rest ∧ rest.flatMap String.utf8EncodeChar = text := by
  induction head generalizing chars with
  | nil => exact ⟨chars, rfl, h⟩
  | cons d head ih =>
    cases chars with
    | nil =>
      simp only [List.flatMap_nil, List.flatMap_cons, List.append_assoc] at h
      exact absurd (List.append_eq_nil_iff.1 h.symm).1 String.utf8EncodeChar_ne_nil
    | cons c chars =>
      simp only [List.flatMap_cons, List.append_assoc] at h
      obtain ⟨rfl, htail⟩ := utf8EncodeChar_append_inj h
      obtain ⟨rest, rfl, hrest⟩ := ih htail
      exact ⟨rest, rfl, hrest⟩

/-- A text whose bytes start with those of `head` starts with `head`. -/
theorem utf8_eq_append {head s : String} {text : Bytes} (h : utf8 s = utf8 head ++ text) :
    ∃ rest, s = head ++ rest ∧ utf8 rest = text := by
  obtain ⟨rest, hchars, hrest⟩ := flatMap_utf8_eq_append h
  refine ⟨String.ofList rest, ?_, by simpa [utf8] using hrest⟩
  apply String.toList_inj.1
  rw [String.toList_append, String.toList_ofList, hchars]

theorem utf8_inj {s t : String} (h : utf8 s = utf8 t) : s = t := by
  obtain ⟨rest, rfl, hrest⟩ := utf8_eq_append (h.trans (List.append_nil _).symm)
  have hnil : rest.toList = [] := by
    cases hchars : rest.toList with
    | nil => rfl
    | cons c chars =>
      rw [utf8, hchars, List.flatMap_cons] at hrest
      exact absurd (List.append_eq_nil_iff.1 hrest).1 String.utf8EncodeChar_ne_nil
  apply String.toList_inj.1
  rw [String.toList_append, hnil, List.append_nil]

/-- U+FFFD, which stands for each maximal ill-formed sequence. -/
def replacement : Char := '\uFFFD'

/-- `byte` lies between `lo` and `hi`. -/
def within (lo hi byte : UInt8) : Bool := lo ≤ byte && byte ≤ hi

/-- A sequence whose first bytes were read: the code point bits so far, the number of bytes still
needed, and the range of the next byte. -/
structure Pending where
  bits : Nat
  needed : Nat
  lower : UInt8
  upper : UInt8

/-- The first byte of a sequence: a character, the start of a longer sequence, or a byte that no
sequence starts with. The second byte of `E0`, `ED`, `F0` and `F4` has a range of its own, which
keeps out over-long forms, surrogates and code points past U+10FFFF. -/
def leadByte (b : UInt8) : Char ⊕ Pending :=
  if b < 0x80 then .inl (Char.ofNat b.toNat)
  else if within 0xC2 0xDF b then .inr ⟨b.toNat % 32, 1, 0x80, 0xBF⟩
  else if b = 0xE0 then .inr ⟨0, 2, 0xA0, 0xBF⟩
  else if b = 0xED then .inr ⟨13, 2, 0x80, 0x9F⟩
  else if within 0xE1 0xEF b then .inr ⟨b.toNat % 16, 2, 0x80, 0xBF⟩
  else if b = 0xF0 then .inr ⟨0, 3, 0x90, 0xBF⟩
  else if b = 0xF4 then .inr ⟨4, 3, 0x80, 0x8F⟩
  else if within 0xF1 0xF3 b then .inr ⟨b.toNat % 8, 3, 0x80, 0xBF⟩
  else .inl replacement

/-- Decodes the buffer from inside a sequence, or from between two. -/
def decodeLossy : Option Pending → Bytes → List Char
  | none, [] => []
  | some _, [] => [replacement]
  | none, b :: bs => match leadByte b with
    | .inl c => c :: decodeLossy none bs
    | .inr p => decodeLossy (some p) bs
  | some p, b :: bs =>
    if within p.lower p.upper b then
      let bits := p.bits * 64 + b.toNat % 64
      if p.needed = 1 then Char.ofNat bits :: decodeLossy none bs
      else decodeLossy (some ⟨bits, p.needed - 1, 0x80, 0xBF⟩) bs
    else
      -- the sequence ends here, and this byte starts afresh
      replacement :: match leadByte b with
        | .inl c => c :: decodeLossy none bs
        | .inr p => decodeLossy (some p) bs

/-- The characters of the buffer, with U+FFFD for each maximal ill-formed sequence
(`String::from_utf8_lossy`). -/
def fromUtf8Lossy (bytes : Bytes) : List Char := decodeLossy none bytes

example : fromUtf8Lossy (utf8 "aé€𝄞") = "aé€𝄞".toList := by decide

/-! ## Trimming and splitting -/

/-- The Unicode `White_Space` property (`char::is_whitespace`). -/
def isWhitespace (c : Char) : Bool :=
  let n := c.toNat
  (9 ≤ n && n ≤ 13) || n == 0x20 || n == 0x85 || n == 0xA0 || n == 0x1680 ||
    (0x2000 ≤ n && n ≤ 0x200A) || n == 0x2028 || n == 0x2029 || n == 0x202F || n == 0x205F ||
    n == 0x3000

/-- `str::trim_start`. -/
def trimStart (text : List Char) : List Char := text.dropWhile isWhitespace

/-- `str::trim_end`. -/
def trimEnd (text : List Char) : List Char := (text.reverse.dropWhile isWhitespace).reverse

/-- `str::trim`. -/
def trim (text : List Char) : List Char := trimStart (trimEnd text)

/-- The text before the first `sep`, and the text after it, if it occurs (`str::split_once`). -/
def splitOnce (sep : Char) : List Char → Option (List Char × List Char)
  | [] => none
  | c :: cs =>
    if c = sep then some ([], cs)
    else (splitOnce sep cs).map fun (before, after) => (c :: before, after)

/-- The first piece of `str::split`. -/
def beforeFirst (sep : Char) (text : List Char) : List Char := text.takeWhile (· ≠ sep)

/-- `str::strip_prefix`. -/
def stripPrefix : List Char → List Char → Option (List Char)
  | [], text => some text
  | _ :: _, [] => none
  | p :: ps, c :: cs => if p = c then stripPrefix ps cs else none

/-- The words of a text (`str::split_whitespace`). -/
def splitWhitespace (text : List Char) : List (List Char) :=
  (text.splitOnP isWhitespace).filter fun word => !word.isEmpty

/-- Reads lines; `line` holds the characters of the current line, the last one first. -/
def linesFrom (line : List Char) : List Char → List (List Char)
  | [] => if line.isEmpty then [] else [line.reverse]
  | c :: cs =>
    if c = '\n' then
      -- a carriage return belongs to the line end only where a newline follows it
      (match line with
        | '\r' :: line => line.reverse
        | line => line.reverse) :: linesFrom [] cs
    else linesFrom (c :: line) cs

/-- The lines of a text, without their ends (`str::lines`). -/
def lines (text : List Char) : List (List Char) := linesFrom [] text

example : lines "a\r\n\nb\r".toList = ["a".toList, [], "b\r".toList] := by decide

/-- Whether `word` occurs in the text (`str::contains`). -/
def contains (text word : List Char) : Bool := text.tails.any fun rest => word.isPrefixOf rest

/-! ## Numbers -/

/-- `n as u32`. -/
def asU32 (n : Nat) : Nat := n % 2 ^ 32

/-- The value of a hexadecimal digit, in either case. -/
def hexValue (byte : UInt8) : Option Nat :=
  if within 0x30 0x39 byte then some (byte.toNat - 0x30)
  else if within 0x61 0x66 byte then some (byte.toNat - 0x57)
  else if within 0x41 0x46 byte then some (byte.toNat - 0x37)
  else none

/-- Reads hexadecimal digits, the most significant first. -/
def hexDigits (acc : Nat) : Bytes → Option Nat
  | [] => some acc
  | b :: bs => match hexValue b with
    | some d => hexDigits (acc * 16 + d) bs
    | none => none

/-- `usize::from_str_radix(_, 16)`: digits in either case, after an optional plus sign. -/
def fromStrRadix16 : Bytes → Option Nat
  | [] => none
  | 0x2B :: [] => none
  | 0x2B :: digits => hexDigits 0 digits
  | digits => hexDigits 0 digits

/-- A lower-case hexadecimal digit. -/
def hexDigit (d : Nat) : UInt8 := if d < 10 then UInt8.ofNat (0x30 + d) else UInt8.ofNat (0x57 + d)

/-- `{:x}`. -/
def lowerHex (n : Nat) : Bytes := (Nat.toDigits 16 n).map fun c => UInt8.ofNat c.toNat

/-- `{:04x}`: at least four lower-case digits. -/
def lowerHex4 (n : Nat) : Bytes :=
  (if n < 0x10000 then [] else lowerHex (n / 0x10000)) ++
    [hexDigit (n / 4096 % 16), hexDigit (n / 256 % 16), hexDigit (n / 16 % 16), hexDigit (n % 16)]

example : lowerHex4 0x3f = utf8 "003f" ∧ lowerHex4 0x12345 = utf8 "12345" := by decide

/-- Reads decimal digits, the most significant first. -/
def decDigits (acc : Nat) : List Char → Option Nat
  | [] => some acc
  | c :: cs => if c.isDigit then decDigits (acc * 10 + (c.toNat - 48)) cs else none

/-- `parse::<u32>()`: decimal digits after an optional plus sign, below 2^32. -/
def parseU32 (text : List Char) : Option Nat :=
  let digits := match text with
    | '+' :: rest => rest
    | _ => text
  if digits.isEmpty then none
  else (decDigits 0 digits).filter (· < 2 ^ 32)

/-- `parse::<i64>()`: decimal digits after an optional sign, within the range of `i64`. -/
def parseI64 (text : List Char) : Option Int :=
  let (negative, digits) := match text with
    | '+' :: rest => (false, rest)
    | '-' :: rest => (true, rest)
    | _ => (false, text)
  if digits.isEmpty then none
  else match decDigits 0 digits with
    | none => none
    | some n =>
      let value : Int := if negative then -(n : Int) else n
      if -(2 ^ 63 : Int) ≤ value ∧ value < 2 ^ 63 then some value else none

theorem hexValue_hexDigit : ∀ d, d < 16 → hexValue (hexDigit d) = some d := by decide

theorem hexDigit_ne_plus : ∀ d, d < 16 → hexDigit d ≠ 0x2B := by decide

theorem hexDigits_lowerHex4 {n : Nat} (hn : n < 0x10000) : hexDigits 0 (lowerHex4 n) = some n := by
  have h3 := hexValue_hexDigit (n / 4096 % 16) (by omega)
  have h2 := hexValue_hexDigit (n / 256 % 16) (by omega)
  have h1 := hexValue_hexDigit (n / 16 % 16) (by omega)
  have h0 := hexValue_hexDigit (n % 16) (by omega)
  simp only [lowerHex4, hn, if_true, List.nil_append, hexDigits, h3, h2, h1, h0,
    Option.some.injEq]
  omega

theorem hexValue_lt {byte : UInt8} {d : Nat} (h : hexValue byte = some d) : d < 16 := by
  have hall : ∀ n, n < 256 → ∀ d, hexValue (UInt8.ofNat n) = some d → d < 16 := by decide +kernel
  exact hall byte.toNat byte.toNat_lt d (by rwa [UInt8.ofNat_toNat])

theorem hexDigits_lt {acc n : Nat} {digits : Bytes} (h : hexDigits acc digits = some n) :
    n < (acc + 1) * 16 ^ digits.length := by
  induction digits generalizing acc with
  | nil =>
    obtain rfl := Option.some.inj h
    simp
  | cons byte digits ih =>
    simp only [hexDigits] at h
    split at h
    · rename_i d hd
      have hdigit := hexValue_lt hd
      have hrest := ih h
      have hacc : acc * 16 + d + 1 ≤ (acc + 1) * 16 := by omega
      calc n < (acc * 16 + d + 1) * 16 ^ digits.length := hrest
        _ ≤ (acc + 1) * 16 * 16 ^ digits.length := Nat.mul_le_mul_right _ hacc
        _ = (acc + 1) * 16 ^ (digits.length + 1) := by rw [Nat.pow_succ', Nat.mul_assoc]
    · exact absurd h (by simp)

/-- A plus sign is no digit. -/
theorem hexDigits_plus (acc : Nat) (rest : Bytes) : hexDigits acc (0x2B :: rest) = none := by
  have hplus : hexValue 0x2B = none := by decide
  simp only [hexDigits, hplus]

theorem fromStrRadix16_plus {digits : Bytes} (hdigits : digits ≠ []) :
    fromStrRadix16 (0x2B :: digits) = hexDigits 0 digits := by
  cases digits with
  | nil => exact absurd rfl hdigits
  | cons byte rest => rfl

theorem fromStrRadix16_of_ne_plus {byte : UInt8} (hbyte : byte ≠ 0x2B) (rest : Bytes) :
    fromStrRadix16 (byte :: rest) = hexDigits 0 (byte :: rest) := by
  unfold fromStrRadix16
  split
  · rename_i h
    exact absurd h (by simp)
  · rename_i h
    exact absurd (List.cons.inj h).1 hbyte
  · rename_i h
    exact absurd (List.cons.inj h).1 hbyte
  · rfl

/-- Four printed digits read back as the number they print. -/
theorem fromStrRadix16_lowerHex4 {n : Nat} (hn : n < 0x10000) :
    fromStrRadix16 (lowerHex4 n) = some n := by
  have hplus := hexDigit_ne_plus (n / 4096 % 16) (by omega)
  have hread := hexDigits_lowerHex4 hn
  have hcons : lowerHex4 n = hexDigit (n / 4096 % 16) ::
      [hexDigit (n / 256 % 16), hexDigit (n / 16 % 16), hexDigit (n % 16)] := by
    simp [lowerHex4, hn]
  rw [hcons] at hread ⊢
  rw [fromStrRadix16_of_ne_plus hplus]
  exact hread

theorem fromStrRadix16_lt {n : Nat} {digits : Bytes} (h : fromStrRadix16 digits = some n) :
    n < 16 ^ digits.length := by
  cases digits with
  | nil => exact absurd h (by simp [fromStrRadix16])
  | cons byte rest =>
    by_cases hplus : byte = 0x2B
    · subst hplus
      cases rest with
      | nil => exact absurd h (by simp [fromStrRadix16])
      | cons next rest =>
        rw [fromStrRadix16_plus (List.cons_ne_nil next rest)] at h
        have hlt := hexDigits_lt h
        rw [Nat.zero_add, Nat.one_mul] at hlt
        exact hlt.trans_le (Nat.pow_le_pow_right (by decide) (Nat.le_succ _))
    · rw [fromStrRadix16_of_ne_plus hplus] at h
      have hlt := hexDigits_lt h
      rwa [Nat.zero_add, Nat.one_mul] at hlt

theorem length_lowerHex4 {n : Nat} (hn : n < 0x10000) : (lowerHex4 n).length = 4 := by
  simp [lowerHex4, hn]

/-- The digits of a length are hexadecimal digits. -/
theorem hexValue_lowerHex {n : Nat} {b : UInt8} (h : b ∈ lowerHex n) : (hexValue b).isSome := by
  have hdigit : ∀ d < 16, (hexValue (UInt8.ofNat (Nat.digitChar d).toNat)).isSome := by decide
  induction n using Nat.strongRecOn with
  | ind n ih =>
    simp only [lowerHex] at h ih
    rw [Nat.toDigits_eq_if (by omega)] at h
    split at h
    · rename_i hsmall
      simp only [List.map_cons, List.map_nil, List.mem_singleton] at h
      rw [h]
      exact hdigit n hsmall
    · rw [List.map_append, List.mem_append] at h
      rcases h with h | h
      · exact ih (n / 16) (by omega) h
      · simp only [List.map_cons, List.map_nil, List.mem_singleton] at h
        rw [h]
        exact hdigit (n % 16) (by omega)

theorem hexValue_lowerHex4 {n : Nat} {b : UInt8} (h : b ∈ lowerHex4 n) : (hexValue b).isSome := by
  have hdigit : ∀ d < 16, (hexValue (hexDigit d)).isSome := by
    intro d hd
    rw [hexValue_hexDigit d hd]
    rfl
  simp only [lowerHex4, List.mem_append, List.mem_cons, List.not_mem_nil, or_false] at h
  rcases h with h | rfl | rfl | rfl | rfl
  · split at h
    · simp at h
    · exact hexValue_lowerHex h
  all_goals exact hdigit _ (by omega)

/-- A length past four digits takes five at least. -/
theorem five_le_length_lowerHex4 {n : Nat} (hn : ¬ n < 0x10000) : 5 ≤ (lowerHex4 n).length := by
  have hpos : 0 < (lowerHex (n / 0x10000)).length := by
    simp only [lowerHex, List.length_map]
    exact Nat.length_toDigits_pos
  simp only [lowerHex4, if_neg hn, List.length_append, List.length_cons, List.length_nil]
  omega

/-! ## Decoding what was encoded -/

theorem within_iff {lo hi byte : UInt8} :
    within lo hi byte = true ↔ lo.toNat ≤ byte.toNat ∧ byte.toNat ≤ hi.toNat := by
  rw [within, Bool.and_eq_true, decide_eq_true_iff, decide_eq_true_iff, UInt8.le_iff_toNat_le,
    UInt8.le_iff_toNat_le]

theorem within_ofNat {lo hi : UInt8} {n : Nat} (hbyte : n < 256) (hlo : lo.toNat ≤ n)
    (hhi : n ≤ hi.toNat) : within lo hi (UInt8.ofNat n) = true := by
  rw [within_iff, UInt8.toNat_ofNat', Nat.mod_eq_of_lt hbyte]
  exact ⟨hlo, hhi⟩

/-- The last byte of a sequence. -/
theorem decodeLossy_last {bits n : Nat} {lower upper : UInt8} (hbyte : n < 256)
    (hlower : lower.toNat ≤ n) (hupper : n ≤ upper.toNat) (bytes : Bytes) :
    decodeLossy (some ⟨bits, 1, lower, upper⟩) (UInt8.ofNat n :: bytes) =
      Char.ofNat (bits * 64 + n % 64) :: decodeLossy none bytes := by
  have hvalue : (UInt8.ofNat n).toNat = n := by rw [UInt8.toNat_ofNat', Nat.mod_eq_of_lt hbyte]
  simp only [decodeLossy, within_ofNat hbyte hlower hupper, if_true, hvalue]

/-- A byte of a sequence with more to come. -/
theorem decodeLossy_more {bits needed n : Nat} {lower upper : UInt8} (hbyte : n < 256)
    (hlower : lower.toNat ≤ n) (hupper : n ≤ upper.toNat) (hneeded : needed ≠ 0) (bytes : Bytes) :
    decodeLossy (some ⟨bits, needed + 1, lower, upper⟩) (UInt8.ofNat n :: bytes) =
      decodeLossy (some ⟨bits * 64 + n % 64, needed, 0x80, 0xBF⟩) bytes := by
  have hvalue : (UInt8.ofNat n).toNat = n := by rw [UInt8.toNat_ofNat', Nat.mod_eq_of_lt hbyte]
  have hone : needed + 1 ≠ 1 := by omega
  simp only [decodeLossy, within_ofNat hbyte hlower hupper, if_true, hvalue, if_neg hone,
    Nat.add_sub_cancel]

theorem decodeLossy_lead {b : UInt8} {p : Pending} (hlead : leadByte b = .inr p) (bytes : Bytes) :
    decodeLossy none (b :: bytes) = decodeLossy (some p) bytes := by
  simp only [decodeLossy, hlead]

theorem leadByte_two : ∀ n, 2 ≤ n → n < 32 →
    leadByte (UInt8.ofNat (n + 0xC0)) = .inr ⟨n, 1, 0x80, 0xBF⟩ := by
  intro n hlow hhigh
  interval_cases n <;> rfl

theorem leadByte_three : ∀ n, n < 16 →
    leadByte (UInt8.ofNat (n + 0xE0)) =
      .inr ⟨n, 2, if n = 0 then 0xA0 else 0x80, if n = 13 then 0x9F else 0xBF⟩ := by
  intro n hhigh
  interval_cases n <;> rfl

theorem leadByte_four : ∀ n, n < 5 →
    leadByte (UInt8.ofNat (n + 0xF0)) =
      .inr ⟨n, 3, if n = 0 then 0x90 else 0x80, if n = 4 then 0x8F else 0xBF⟩ := by
  intro n hhigh
  interval_cases n <;> rfl

/-- A character is decoded from its bytes. The first byte narrows the range of the second just as
far as the characters of its length do. -/
theorem decodeLossy_encodeChar (c : Char) (bytes : Bytes) :
    decodeLossy none (String.utf8EncodeChar c ++ bytes) = c :: decodeLossy none bytes := by
  have hvalid : c.val.toNat < 0xD800 ∨ 0xDFFF < c.val.toNat ∧ c.val.toNat < 0x110000 := c.valid
  have hchar : Char.ofNat c.val.toNat = c := Char.ofNat_toNat c
  generalize hv : c.val.toNat = v at hvalid hchar
  simp only [String.utf8EncodeChar, hv]
  by_cases hone : v ≤ 0x7f
  · have hvalue : (UInt8.ofNat v).toNat = v := by
      rw [UInt8.toNat_ofNat', Nat.mod_eq_of_lt (by omega)]
    have hascii : UInt8.ofNat v < 0x80 := by
      rw [UInt8.lt_iff_toNat_lt, hvalue]
      exact Nat.lt_succ_of_le hone
    have hlead : leadByte (UInt8.ofNat v) = .inl c := by
      rw [leadByte, if_pos hascii, hvalue, hchar]
    rw [if_pos hone, List.singleton_append, decodeLossy]
    simp only [hlead]
  rw [if_neg hone]
  -- every byte behind the first one has six bits
  have hsix : ∀ n, n % 0x40 + 0x80 < 256 ∧ (0x80 : UInt8).toNat ≤ n % 0x40 + 0x80 ∧
      n % 0x40 + 0x80 ≤ (0xBF : UInt8).toNat := by
    intro n
    have hlower : (0x80 : UInt8).toNat = 0x80 := rfl
    have hupper : (0xBF : UInt8).toNat = 0xBF := rfl
    omega
  obtain ⟨hbyte, hlower, hupper⟩ := hsix v
  obtain ⟨hbyte₆, hlower₆, hupper₆⟩ := hsix (v / 64)
  by_cases htwo : v ≤ 0x7ff
  · have hlead := leadByte_two (v / 64 % 0x20) (by omega) (by omega)
    have hbits : v / 64 % 0x20 * 64 + (v % 0x40 + 0x80) % 64 = v := by omega
    rw [if_pos htwo, List.cons_append, decodeLossy_lead hlead, List.singleton_append,
      decodeLossy_last hbyte hlower hupper, hbits, hchar]
  rw [if_neg htwo]
  by_cases hthree : v ≤ 0xffff
  · have hlead := leadByte_three (v / 4096 % 0x10) (by omega)
    have hbits : (v / 4096 % 0x10 * 64 + (v / 64 % 0x40 + 0x80) % 64) * 64 +
        (v % 0x40 + 0x80) % 64 = v := by omega
    have hsecond : (if v / 4096 % 0x10 = 0 then 0xA0 else 0x80 : UInt8).toNat ≤
          v / 64 % 0x40 + 0x80 ∧
        v / 64 % 0x40 + 0x80 ≤ (if v / 4096 % 0x10 = 13 then 0x9F else 0xBF : UInt8).toNat := by
      constructor
      · split
        · show 0xA0 ≤ _
          omega
        · exact hlower₆
      · split
        · show _ ≤ 0x9F
          omega
        · exact hupper₆
    rw [if_pos hthree, List.cons_append, decodeLossy_lead hlead, List.cons_append,
      decodeLossy_more hbyte₆ hsecond.1 hsecond.2 (Nat.succ_ne_zero _), List.singleton_append,
      decodeLossy_last hbyte hlower hupper, hbits, hchar]
  · have hlead := leadByte_four (v / 262144 % 0x08) (by omega)
    obtain ⟨hbyte₁₂, hlower₁₂, hupper₁₂⟩ := hsix (v / 4096)
    have hbits : ((v / 262144 % 0x08 * 64 + (v / 4096 % 0x40 + 0x80) % 64) * 64 +
        (v / 64 % 0x40 + 0x80) % 64) * 64 + (v % 0x40 + 0x80) % 64 = v := by omega
    have hsecond : (if v / 262144 % 0x08 = 0 then 0x90 else 0x80 : UInt8).toNat ≤
          v / 4096 % 0x40 + 0x80 ∧
        v / 4096 % 0x40 + 0x80 ≤ (if v / 262144 % 0x08 = 4 then 0x8F else 0xBF : UInt8).toNat := by
      constructor
      · split
        · show 0x90 ≤ _
          omega
        · exact hlower₁₂
      · split
        · show _ ≤ 0x8F
          omega
        · exact hupper₁₂
    rw [if_neg hthree, List.cons_append, decodeLossy_lead hlead, List.cons_append,
      decodeLossy_more hbyte₁₂ hsecond.1 hsecond.2 (Nat.succ_ne_zero _), List.cons_append,
      decodeLossy_more hbyte₆ hlower₆ hupper₆ (Nat.succ_ne_zero _), List.singleton_append,
      decodeLossy_last hbyte hlower hupper, hbits, hchar]

/-- Text is decoded to itself, whatever follows it. -/
theorem decodeLossy_utf8 (text : String) (bytes : Bytes) :
    decodeLossy none (utf8 text ++ bytes) = text.toList ++ decodeLossy none bytes := by
  simp only [utf8]
  generalize text.toList = chars
  induction chars with
  | nil => rfl
  | cons c chars ih =>
    rw [List.flatMap_cons, List.append_assoc, decodeLossy_encodeChar, ih, List.cons_append]

/-- A byte that is no part of UTF-8 is decoded to U+FFFD, which takes three bytes. -/
theorem decodeLossy_invalid (n : Nat) :
    decodeLossy none (List.replicate n 0xFF) = List.replicate n replacement := by
  have hlead : leadByte 0xFF = .inl replacement := rfl
  induction n with
  | zero => rfl
  | succ n ih => simp only [List.replicate_succ, decodeLossy, hlead, ih]

/-! ## Trimming and splitting what was joined -/

/-- A text that does not end in whitespace has nothing to trim at its end. -/
theorem trimEnd_concat {c : Char} (hc : isWhitespace c = false) (text : List Char) :
    trimEnd (text ++ [c]) = text ++ [c] := by
  simp [trimEnd, hc]

/-- The first separator of a text. -/
theorem splitOnce_append {sep : Char} {head : List Char} (hhead : sep ∉ head) (rest : List Char) :
    splitOnce sep (head ++ sep :: rest) = some (head, rest) := by
  induction head with
  | nil => simp [splitOnce]
  | cons c head ih =>
    rw [List.mem_cons, not_or] at hhead
    simp only [List.cons_append, splitOnce, if_neg (Ne.symm hhead.1), ih hhead.2, Option.map_some]

end Edda.Support.RustText
