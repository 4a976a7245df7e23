import Edda.Domain.Validation
import Edda.Support.CommonMark
import Edda.Support.Segments
import Edda.Support.Utf8

/-!
# Cross-references

The `#5` and `owner/repo#5` tokens of a body, and those of them that a closing keyword governs. The
scanner goes through the bytes of the body and passes over what it takes for code: the lines from one
that begins like a fence to the next such line, and on the other lines what stands between two
backticks.

`tokens` are the references of a body with those in code. `marked_tokens` says that they follow each
other and that each is written as what it is taken for.
-/

set_option autoImplicit false

namespace Edda.Domain.CrossReferences

open Edda.Support Edda.Support.RustText Edda.Domain.Validation

/-! ## The scanner -/

/-- The repository is `none` in a bare `#5`. -/
structure CrossReference where
  repository : Option (String × String)
  number : Int
  deriving DecidableEq, Repr

/-- A reference with the offsets of its first byte and of the one behind it. -/
structure Ref where
  start : Nat
  stop : Nat
  cref : CrossReference
  deriving DecidableEq, Repr

def newline : UInt8 := 0x0A

def hash : UInt8 := 0x23

def slash : UInt8 := 0x2F

def underscore : UInt8 := 0x5F

def backtick : UInt8 := 0x60

def tilde : UInt8 := 0x7E

def isAsciiDigit (byte : UInt8) : Bool := within 0x30 0x39 byte

def isAsciiAlphabetic (byte : UInt8) : Bool := within 0x41 0x5A byte || within 0x61 0x7A byte

def isNameChar (byte : UInt8) : Bool :=
  isAlnum byte || byte = 0x2E || byte = 0x2D || byte = underscore

/-- `std::str::from_utf8`, of ASCII bytes. -/
def asciiText (bytes : Bytes) : List Char := bytes.map fun byte => Char.ofNat byte.toNat

/-- The number at the start of the text, and the length of its digits. -/
def parseNumber (text : Bytes) : Option (Int × Nat) :=
  let digits := text.takeWhile isAsciiDigit
  if digits.isEmpty || 18 < digits.length then none
  else if (text.dropWhile isAsciiDigit).head?.any fun next => isAlnum next || next = underscore then
    none
  else match parseI64 (asciiText digits) with
    | some number => if 1 ≤ number then some (number, digits.length) else none
    | none => none

/-- The `owner/repo#N` at the start of the text, and its length. -/
def parseQualified (text : Bytes) : Option (CrossReference × Nat) :=
  let owner := text.takeWhile isNameChar
  let behind := text.dropWhile isNameChar
  if owner.isEmpty || behind.head? ≠ some slash then none
  else
    let repo := behind.tail.takeWhile isNameChar
    let rest := behind.tail.dropWhile isNameChar
    if repo.isEmpty || rest.head? ≠ some hash then none
    else (parseNumber rest.tail).map fun (number, length) =>
      (⟨some (String.ofList (asciiText owner), String.ofList (asciiText repo)), number⟩,
        owner.length + 1 + (repo.length + 1 + length))

/-- The reference at the start of the text, and its length. -/
def readReference (before : Option UInt8) (text : Bytes) : Option (CrossReference × Nat) :=
  let precededByAlnum := before.any isAlnum
  let bare := if text.head? = some hash && !precededByAlnum then
      (parseNumber text.tail).map fun (number, length) => (⟨none, number⟩, 1 + length)
    else none
  bare.or
    (if text.head?.any isNameChar && !precededByAlnum && before ≠ some slash then
      parseQualified text
    else none)

/-- The line begins like a fence. -/
def beginsFence (line : Bytes) : Bool :=
  let text := CommonMark.outdent 3 line
  [backtick, backtick, backtick].isPrefixOf text || [tilde, tilde, tilde].isPrefixOf text

structure Scan where
  inFence : Bool
  inCodeSpan : Bool
  atLineStart : Bool
  deriving DecidableEq, Repr

def Scan.start : Scan := ⟨false, false, true⟩

/-- What the scanner does at a byte: how it goes on, how many more bytes it passes over, and the
reference that it found. -/
def scanStep (s : Scan) (before : Option UInt8) (byte : UInt8) (rest : Bytes) :
    Scan × Nat × Option CrossReference :=
  if byte = newline then ({ s with inCodeSpan := false, atLineStart := true }, 0, none)
  else if s.atLineStart && beginsFence (byte :: rest) then
    -- to the end of the line
    ({ s with inFence := !s.inFence }, (rest.takeWhile (· ≠ newline)).length, none)
  else if s.inFence then ({ s with atLineStart := false }, 0, none)
  else if byte = backtick then
    ({ s with inCodeSpan := !s.inCodeSpan, atLineStart := false }, 0, none)
  else if s.inCodeSpan then ({ s with atLineStart := false }, 0, none)
  else match readReference before (byte :: rest) with
    | some (cref, length) => ({ s with atLineStart := false }, length - 1, some cref)
    | none => ({ s with atLineStart := false }, 0, none)

/-- The scanner at an offset, with so many bytes to pass over first. -/
def scanFrom (s : Scan) (before : Option UInt8) (offset : Nat) : Nat → Bytes → List Ref
  | _, [] => []
  | passing + 1, byte :: rest => scanFrom s (some byte) (offset + 1) passing rest
  | 0, byte :: rest =>
    let next := scanStep s before byte rest
    let behind := scanFrom next.1 (some byte) (offset + 1) next.2.1 rest
    match next.2.2 with
    | some cref => ⟨offset, offset + 1 + next.2.1, cref⟩ :: behind
    | none => behind

def scanRefs (body : String) : List Ref := scanFrom Scan.start none 0 0 (utf8 body)

/-- Each reference once, in the order in which they are first seen. -/
def dedup (refs : List CrossReference) : List CrossReference := refs.eraseDups

def parseCrossReferences (body : String) : List CrossReference :=
  dedup ((scanRefs body).map Ref.cref)

def parseCrossReferenceSpans (body : String) : List (Nat × Nat × CrossReference) :=
  (scanRefs body).map fun ref => (ref.start, ref.stop, ref.cref)

/-! ## Closing keywords -/

def closingKeywords : List String :=
  ["close", "closes", "closed", "fix", "fixes", "fixed", "resolve", "resolves", "resolved"]

def isBlank (byte : UInt8) : Bool := byte = 0x20 || byte = 0x09

/-- Whether a closing keyword ends the text, up to blanks and a colon. The text is given backwards. -/
def closingKeywordEnds (reversed : Bytes) : Bool :=
  let text := reversed.dropWhile isBlank
  let text := if text.head? = some 0x3A then text.tail.dropWhile isBlank else text
  let word := text.takeWhile isAsciiAlphabetic
  if word.isEmpty then false
  else if (text.dropWhile isAsciiAlphabetic).head?.any isAlnum then false
  else closingKeywords.contains (String.ofList ((asciiText word.reverse).map Char.toLower))

def closingKeywordEndsAt (bytes : Bytes) (offset : Nat) : Bool :=
  closingKeywordEnds (bytes.take offset).reverse

/-- What may stand between two references of a list. -/
def continuesList (between : Bytes) : Bool :=
  ["," , "and", ", and"].contains
    (String.ofList ((trim (fromUtf8Lossy between)).map Char.toLower))

/-- Which references a keyword governs; `last` is the end of the one before if that is governed. -/
def governed (bytes : Bytes) (last : Option Nat) : List Ref → List Bool
  | [] => []
  | ref :: refs =>
    let closes := closingKeywordEndsAt bytes ref.start || last.any fun stop =>
      continuesList ((bytes.take ref.start).drop stop)
    closes :: governed bytes (if closes then some ref.stop else none) refs

def parseClosingReferences (body : String) : List CrossReference :=
  let refs := scanRefs body
  dedup ((refs.zip (governed (utf8 body) none refs)).filterMap fun (ref, closes) =>
    if closes then some ref.cref else none)

/-! ## References, in code or not -/

/-- What a reference is written with in front of its number. -/
def leadText (cref : CrossReference) : List Char :=
  match cref.repository with
  | none => ['#']
  | some (owner, repo) => owner.toList ++ '/' :: (repo.toList ++ ['#'])

def IsName (name : String) : Prop :=
  name ≠ "" ∧ ∀ c ∈ name.toList, isAsciiAlphanumeric c = true ∨ c = '.' ∨ c = '-' ∨ c = '_'

/-- The text is a way to write the reference. -/
structure Denotes (cref : CrossReference) (token : List Char) : Prop where
  written : ∃ digits, token = leadText cref ++ digits ∧ (∀ c ∈ digits, c.isDigit = true) ∧
    parseI64 digits = some cref.number
  positive : 1 ≤ cref.number
  named : ∀ names ∈ cref.repository, IsName names.1 ∧ IsName names.2

/-- The references follow each other in the text, which begins at the offset, and each stands where
it says. -/
def Marked (offset : Nat) (text : List Char) : List Ref → Prop
  | [] => True
  | ref :: refs => ∃ gap token tail, text = gap ++ (token ++ tail) ∧
    ref.start = offset + (gap.flatMap String.utf8EncodeChar).length ∧
      ref.stop = ref.start + (token.flatMap String.utf8EncodeChar).length ∧
        Denotes ref.cref token ∧ Marked ref.stop tail refs

/-- The scanner without its sense of code. -/
def tokensFrom (before : Option UInt8) (offset : Nat) : Nat → Bytes → List Ref
  | _, [] => []
  | passing + 1, byte :: rest => tokensFrom (some byte) (offset + 1) passing rest
  | 0, byte :: rest =>
    match readReference before (byte :: rest) with
    | some (cref, length) =>
      ⟨offset, offset + 1 + (length - 1), cref⟩ ::
        tokensFrom (some byte) (offset + 1) (length - 1) rest
    | none => tokensFrom (some byte) (offset + 1) 0 rest

/-- Every reference of a body, also where it is code. -/
def tokens (body : String) : List Ref := tokensFrom none 0 0 (utf8 body)

section Reading

variable {before : Option UInt8} {text : Bytes} {cref : CrossReference} {length : Nat}

/-- The bytes that references are written with. -/
def isTokenByte (byte : UInt8) : Bool := isNameChar byte || byte = slash || byte = hash

theorem toNat_ofNat_of_lt {n : Nat} (hn : n < 0x80) : (Char.ofNat n).toNat = n := by
  have hvalid : n.isValidChar := Or.inl (hn.trans (by decide))
  rw [Char.ofNat, dif_pos hvalid]
  rfl

/-- ASCII bytes are the code of their characters. -/
theorem utf8_asciiText {bytes : Bytes} (h : ∀ byte ∈ bytes, byte < 0x80) :
    (asciiText bytes).flatMap String.utf8EncodeChar = bytes := by
  induction bytes with
  | nil => rfl
  | cons byte bytes ih =>
    have hlow : byte.toNat < 0x80 := h byte List.mem_cons_self
    rw [asciiText, List.map_cons, List.flatMap_cons, ← asciiText,
      ih fun other hmem => h other (List.mem_cons_of_mem _ hmem), utf8EncodeChar_ascii]
    · rw [toNat_ofNat_of_lt hlow, UInt8.ofNat_toNat]
      rfl
    · rwa [toNat_ofNat_of_lt hlow]

theorem isTokenByte_of_digit {byte : UInt8} (h : isAsciiDigit byte = true) :
    isTokenByte byte = true := by
  have halnum : isAlnum byte = true := by simp [isAlnum, show within 0x30 0x39 byte = true from h]
  simp [isTokenByte, isNameChar, halnum]

theorem isTokenByte_of_nameChar {byte : UInt8} (h : isNameChar byte = true) :
    isTokenByte byte = true := by
  simp [isTokenByte, h]

theorem lt_of_within {lo hi byte : UInt8} (h : within lo hi byte = true) (hhi : hi < 0x80) :
    byte < 0x80 :=
  UInt8.lt_of_le_of_lt (of_decide_eq_true (Bool.and_eq_true_iff.1 h).2) hhi

theorem lt_of_isAlnum {byte : UInt8} (h : isAlnum byte = true) : byte < 0x80 := by
  rw [isAlnum, Bool.or_eq_true, Bool.or_eq_true] at h
  rcases h with (h | h) | h
  · exact lt_of_within h (by decide)
  · exact lt_of_within h (by decide)
  · exact lt_of_within h (by decide)

theorem lt_of_isTokenByte {byte : UInt8} (h : isTokenByte byte = true) : byte < 0x80 := by
  simp only [isTokenByte, isNameChar, Bool.or_eq_true, decide_eq_true_eq] at h
  rcases h with (((((h | rfl) | rfl) | rfl) | rfl) | rfl)
  · exact lt_of_isAlnum h
  all_goals decide

theorem isDigit_ofNat {byte : UInt8} (h : isAsciiDigit byte = true) :
    (Char.ofNat byte.toNat).isDigit = true := by
  have hall : ∀ n, n < 256 → isAsciiDigit (UInt8.ofNat n) = true →
      (Char.ofNat n).isDigit = true := by
    decide +kernel
  exact hall byte.toNat byte.toNat_lt (by rwa [UInt8.ofNat_toNat])

theorem isName_asciiText {bytes : Bytes} (hne : bytes ≠ [])
    (h : ∀ byte ∈ bytes, isNameChar byte = true) : IsName (String.ofList (asciiText bytes)) := by
  have hall : ∀ n, n < 256 → isNameChar (UInt8.ofNat n) = true →
      isAsciiAlphanumeric (Char.ofNat n) = true ∨ Char.ofNat n = '.' ∨ Char.ofNat n = '-' ∨
        Char.ofNat n = '_' := by
    decide +kernel
  constructor
  · intro heq
    have hnil := congrArg String.toList heq
    rw [String.toList_ofList] at hnil
    exact hne (List.map_eq_nil_iff.1 hnil)
  · intro c hc
    rw [String.toList_ofList] at hc
    obtain ⟨byte, hmem, rfl⟩ := List.mem_map.1 hc
    exact hall byte.toNat byte.toNat_lt (by rw [UInt8.ofNat_toNat]; exact h byte hmem)

theorem parseNumber_spec {number : Int} (h : parseNumber text = some (number, length)) :
    ∃ digits tail, text = digits ++ tail ∧ digits.length = length ∧
      (∀ byte ∈ digits, isAsciiDigit byte = true) ∧ parseI64 (asciiText digits) = some number ∧
        1 ≤ number := by
  rw [parseNumber] at h
  split at h
  · cases h
  split at h
  · cases h
  split at h
  · next value hvalue =>
    split at h
    · next hpositive =>
      obtain ⟨rfl, rfl⟩ := Prod.mk.inj (Option.some.inj h)
      refine ⟨_, _, List.takeWhile_append_dropWhile.symm, rfl, ?_, hvalue, hpositive⟩
      exact fun byte hmem => List.mem_takeWhile_imp hmem
    · cases h
  · cases h

theorem parseQualified_spec (h : parseQualified text = some (cref, length)) :
    ∃ token tail, text = token ++ tail ∧ token.length = length ∧ token ≠ [] ∧
      (∀ byte ∈ token, isTokenByte byte = true) ∧ Denotes cref (asciiText token) := by
  have hnames {bytes : Bytes} {byte : UInt8} (hmem : byte ∈ bytes.takeWhile isNameChar) :
      isNameChar byte = true := List.mem_takeWhile_imp hmem
  have howner := List.takeWhile_append_dropWhile (p := isNameChar) (l := text)
  simp only [parseQualified] at h
  generalize hownerName : text.takeWhile isNameChar = owner at h howner
  generalize text.dropWhile isNameChar = behind at h howner
  split at h
  · cases h
  next hfirst =>
  have hrepo := List.takeWhile_append_dropWhile (p := isNameChar) (l := behind.tail)
  generalize hrepoName : behind.tail.takeWhile isNameChar = repo at h hrepo
  generalize behind.tail.dropWhile isNameChar = rest at h hrepo
  split at h
  · cases h
  next hsecond =>
  simp only [Bool.or_eq_true, List.isEmpty_iff, decide_eq_true_eq, not_or, not_not] at hfirst hsecond
  obtain ⟨hownerNe, hslash⟩ := hfirst
  obtain ⟨hrepoNe, hhash⟩ := hsecond
  obtain ⟨⟨number, digitsLength⟩, hnumber, heq⟩ := Option.map_eq_some_iff.1 h
  obtain ⟨rfl, rfl⟩ := Prod.mk.inj heq
  obtain ⟨digits, tail, htail, rfl, hdigits, hvalue, hpositive⟩ := parseNumber_spec hnumber
  obtain ⟨behind, rfl⟩ := List.head?_eq_some_iff.1 hslash
  obtain ⟨rest, rfl⟩ := List.head?_eq_some_iff.1 hhash
  rw [List.tail_cons] at hrepo htail
  have hownerBytes : ∀ byte ∈ owner, isNameChar byte = true :=
    fun byte hmem => hnames (hownerName ▸ hmem)
  have hrepoBytes : ∀ byte ∈ repo, isNameChar byte = true :=
    fun byte hmem => hnames (hrepoName ▸ hmem)
  refine ⟨owner ++ slash :: (repo ++ hash :: digits), tail, ?_, ?_, ?_, ?_, ?_⟩
  · rw [← howner, ← hrepo, htail]
    simp
  · simp only [List.length_append, List.length_cons]
    omega
  · exact List.append_ne_nil_of_left_ne_nil hownerNe _
  · intro byte hmem
    simp only [List.mem_append, List.mem_cons] at hmem
    rcases hmem with hmem | rfl | hmem | rfl | hmem
    · exact isTokenByte_of_nameChar (hownerBytes byte hmem)
    · decide
    · exact isTokenByte_of_nameChar (hrepoBytes byte hmem)
    · decide
    · exact isTokenByte_of_digit (hdigits byte hmem)
  · refine ⟨⟨asciiText digits, ?_, ?_, hvalue⟩, hpositive, ?_⟩
    · have hslashText : Char.ofNat slash.toNat = '/' := by decide
      have hhashText : Char.ofNat hash.toNat = '#' := by decide
      simp [leadText, asciiText, hslashText, hhashText]
    · intro c hc
      obtain ⟨byte, hmem, rfl⟩ := List.mem_map.1 hc
      exact isDigit_ofNat (hdigits byte hmem)
    · intro names hmem
      obtain rfl := Option.some.inj hmem
      exact ⟨isName_asciiText hownerNe hownerBytes, isName_asciiText hrepoNe hrepoBytes⟩

/-- A reference that is read is written in the text. -/
theorem readReference_spec (h : readReference before text = some (cref, length)) :
    ∃ token tail, text = token ++ tail ∧ token.length = length ∧ token ≠ [] ∧
      (∀ byte ∈ token, isTokenByte byte = true) ∧ Denotes cref (asciiText token) := by
  rw [readReference, Option.or_eq_some_iff] at h
  rcases h with h | ⟨-, h⟩
  · -- a bare number behind a hash
    split at h
    · next hbare =>
      obtain ⟨⟨number, digitsLength⟩, hnumber, heq⟩ := Option.map_eq_some_iff.1 h
      obtain ⟨rfl, rfl⟩ := Prod.mk.inj heq
      have hhash : text.head? = some hash := by
        rw [Bool.and_eq_true, decide_eq_true_eq] at hbare
        exact hbare.1
      obtain ⟨digits, tail, htail, rfl, hdigits, hvalue, hpositive⟩ := parseNumber_spec hnumber
      obtain ⟨rest, rfl⟩ := List.head?_eq_some_iff.1 hhash
      rw [List.tail_cons] at htail
      refine ⟨hash :: digits, tail, by rw [htail]; rfl, by simp [Nat.add_comm],
        List.cons_ne_nil _ _, ?_, ?_⟩
      · intro byte hmem
        rcases List.mem_cons.1 hmem with rfl | hmem
        · decide
        · exact isTokenByte_of_digit (hdigits byte hmem)
      · refine ⟨⟨asciiText digits, rfl, ?_, hvalue⟩, hpositive, fun names hnames => by cases hnames⟩
        intro c hc
        obtain ⟨byte, hmem, rfl⟩ := List.mem_map.1 hc
        exact isDigit_ofNat (hdigits byte hmem)
    · cases h
  · split at h
    · exact parseQualified_spec h
    · cases h

theorem readReference_eq_none {byte : UInt8} (h : isTokenByte byte = false) (rest : Bytes) :
    readReference before (byte :: rest) = none := by
  rw [Option.eq_none_iff_forall_ne_some]
  rintro ⟨cref, length⟩ hsome
  obtain ⟨token, tail, htext, -, hne, htoken, -⟩ := readReference_spec hsome
  obtain ⟨first, others, rfl⟩ := List.exists_cons_of_ne_nil hne
  obtain ⟨rfl, -⟩ := List.cons.inj htext
  rw [htoken byte List.mem_cons_self] at h
  cases h

end Reading

/-! ## Where the references stand -/

section Marking

/-- `Marked`, by the bytes. -/
def MarkedBytes (offset : Nat) (text : Bytes) : List Ref → Prop
  | [] => True
  | ref :: refs => ∃ gap token tail, text = gap ++ (token ++ tail) ∧
    ref.start = offset + gap.length ∧ ref.stop = ref.start + token.length ∧ token ≠ [] ∧
      (∀ byte ∈ token, isTokenByte byte = true) ∧ Denotes ref.cref (asciiText token) ∧
        MarkedBytes ref.stop tail refs

theorem MarkedBytes.widen {front text : Bytes} {offset : Nat} {refs : List Ref}
    (h : MarkedBytes (offset + front.length) text refs) : MarkedBytes offset (front ++ text) refs := by
  cases refs with
  | nil => trivial
  | cons ref refs =>
    obtain ⟨gap, token, tail, rfl, hstart, hrest⟩ := h
    refine ⟨front ++ gap, token, tail, by simp, ?_, hrest⟩
    rw [hstart, List.length_append, Nat.add_assoc]

theorem MarkedBytes.filter {text : Bytes} {offset : Nat} {refs : List Ref} (p : Ref → Bool)
    (h : MarkedBytes offset text refs) : MarkedBytes offset text (refs.filter p) := by
  induction refs generalizing offset text with
  | nil => trivial
  | cons ref refs ih =>
    obtain ⟨gap, token, tail, rfl, hstart, hstop, hne, htoken, hdenotes, hrest⟩ := h
    rw [List.filter_cons]
    split
    · exact ⟨gap, token, tail, rfl, hstart, hstop, hne, htoken, hdenotes, ih hrest⟩
    · -- what is left out belongs to the gap of the next reference
      rw [← List.append_assoc]
      apply MarkedBytes.widen
      rw [List.length_append, ← Nat.add_assoc, ← hstart, ← hstop]
      exact ih hrest

/-- What a token leaves to pass over is the rest of it. -/
theorem tokensFrom_passing (front part rest : Bytes) :
    tokensFrom front.getLast? front.length part.length (part ++ rest) =
      tokensFrom (front ++ part).getLast? (front ++ part).length 0 rest := by
  induction part generalizing front with
  | nil => rw [List.append_nil, List.nil_append, List.length_nil]
  | cons byte part ih =>
    have hnext := ih (front ++ [byte])
    rw [List.getLast?_concat, List.length_append, List.length_singleton, List.append_assoc,
      List.singleton_append] at hnext
    rw [List.length_cons, List.cons_append, tokensFrom, hnext]

theorem scanFrom_passing (s : Scan) (front part rest : Bytes) :
    scanFrom s front.getLast? front.length part.length (part ++ rest) =
      scanFrom s (front ++ part).getLast? (front ++ part).length 0 rest := by
  induction part generalizing front with
  | nil => rw [List.append_nil, List.nil_append, List.length_nil]
  | cons byte part ih =>
    have hnext := ih (front ++ [byte])
    rw [List.getLast?_concat, List.length_append, List.length_singleton, List.append_assoc,
      List.singleton_append] at hnext
    rw [List.length_cons, List.cons_append, scanFrom, hnext]

/-- One step without a reference. -/
theorem tokensFrom_skip {front rest : Bytes} {byte : UInt8}
    (h : readReference front.getLast? (byte :: rest) = none) :
    tokensFrom front.getLast? front.length 0 (byte :: rest) =
      tokensFrom (front ++ [byte]).getLast? (front ++ [byte]).length 0 rest := by
  rw [tokensFrom, h, List.getLast?_concat, List.length_append, List.length_singleton]

/-- One step at a reference. -/
theorem tokensFrom_token {front token tail : Bytes} {cref : CrossReference} (hne : token ≠ [])
    (h : readReference front.getLast? (token ++ tail) = some (cref, token.length)) :
    tokensFrom front.getLast? front.length 0 (token ++ tail) =
      ⟨front.length, front.length + token.length, cref⟩ ::
        tokensFrom (front ++ token).getLast? (front ++ token).length 0 tail := by
  obtain ⟨byte, token, rfl⟩ := List.exists_cons_of_ne_nil hne
  have hpassing := tokensFrom_passing (front ++ [byte]) token tail
  rw [List.getLast?_concat, List.length_append, List.length_singleton, List.append_assoc,
    List.singleton_append] at hpassing
  rw [List.cons_append] at h ⊢
  rw [tokensFrom, h]
  simp only [List.length_cons, Nat.add_sub_cancel, hpassing]
  rw [Nat.add_assoc, Nat.add_comm 1]

theorem markedBytes_tokensFrom (front text : Bytes) :
    MarkedBytes front.length text (tokensFrom front.getLast? front.length 0 text) := by
  induction hn : text.length using Nat.strong_induction_on generalizing front text with
  | _ n ih =>
    subst hn
    cases text with
    | nil => trivial
    | cons byte rest =>
      cases hread : readReference front.getLast? (byte :: rest) with
      | none =>
        rw [tokensFrom_skip hread]
        have hrest := ih rest.length (by simp) (front ++ [byte]) rest rfl
        rw [List.length_append] at hrest ⊢
        exact hrest.widen
      | some found =>
        obtain ⟨cref, length⟩ := found
        obtain ⟨token, tail, htext, rfl, hne, htoken, hdenotes⟩ := readReference_spec hread
        rw [htext] at hread ih ⊢
        rw [tokensFrom_token hne hread]
        have hpos := List.length_pos_of_ne_nil hne
        have hrest := ih tail.length (by rw [List.length_append]; omega) (front ++ token) tail rfl
        refine ⟨[], token, tail, rfl, rfl, rfl, hne, htoken, hdenotes, ?_⟩
        rwa [List.length_append] at hrest ⊢

/-- References whose bytes are marked stand at characters. -/
theorem marked_of_bytes {offset : Nat} {text : List Char} {refs : List Ref}
    (h : MarkedBytes offset (text.flatMap String.utf8EncodeChar) refs) : Marked offset text refs := by
  induction refs generalizing offset text with
  | nil => trivial
  | cons ref refs ih =>
    obtain ⟨gap, token, tail, htext, hstart, hstop, hne, htoken, hdenotes, hrest⟩ := h
    have hascii := utf8_asciiText fun byte hmem => lt_of_isTokenByte (htoken byte hmem)
    obtain ⟨byte, others, rfl⟩ := List.exists_cons_of_ne_nil hne
    rw [asciiText, List.map_cons, ← asciiText, List.flatMap_cons] at hascii
    -- the first character of the token stands in the text, and then the others
    rw [← hascii, List.append_assoc] at htext
    obtain ⟨before, after, rfl, rfl, hafter⟩ := flatMap_utf8_eq_append_encode htext
    obtain ⟨behind, rfl, rfl⟩ := flatMap_utf8_eq_append hafter
    refine ⟨before, asciiText (byte :: others), behind, rfl, hstart, ?_, hdenotes, ih hrest⟩
    rw [hstop, asciiText, List.map_cons, ← asciiText, List.flatMap_cons, hascii]

end Marking

/-! ## What the scanner takes for code -/

/-- The line begins like a fence, an odd number of lines above do, or an odd number of backticks is
before on the line. -/
def takenAt (front rest : Bytes) : Bool :=
  let lines := front.splitOn newline
  let line := lines.getLastD []
  beginsFence (line ++ rest) || lines.dropLast.countP beginsFence % 2 = 1 ||
    line.count backtick % 2 = 1

def takenForCode (body : Bytes) (offset : Nat) : Bool :=
  takenAt (body.take offset) (body.drop offset)

section Taken

variable {front rest text line : Bytes} {previous : List Bytes}

theorem takenAt_eq (hlines : front.splitOn newline = previous ++ [line]) :
    takenAt front rest = (beginsFence (line ++ rest) || previous.countP beginsFence % 2 = 1 ||
      line.count backtick % 2 = 1) := by
  simp [takenAt, hlines]

theorem takenForCode_append : takenForCode (front ++ rest) front.length = takenAt front rest := by
  rw [takenForCode, List.take_left, List.drop_left]

/-- The text up to the end of the line. -/
theorem exists_line (text : Bytes) : ∃ line tail, text = line ++ tail ∧ newline ∉ line ∧
    (tail = [] ∨ ∃ more, tail = newline :: more) ∧ text.takeWhile (· ≠ newline) = line := by
  induction text with
  | nil => exact ⟨[], [], rfl, List.not_mem_nil, Or.inl rfl, rfl⟩
  | cons byte text ih =>
    by_cases hbyte : byte = newline
    · subst hbyte
      exact ⟨[], _, rfl, List.not_mem_nil, Or.inr ⟨text, rfl⟩, by simp⟩
    · obtain ⟨line, tail, rfl, hline, htail, htake⟩ := ih
      refine ⟨byte :: line, tail, rfl, ?_, htail, ?_⟩
      · rw [List.mem_cons, not_or]
        exact ⟨Ne.symm hbyte, hline⟩
      · rw [List.takeWhile_cons_of_pos (by simpa using hbyte), htake]

theorem splitOn_newline (hlines : front.splitOn newline = previous ++ [line]) :
    (front ++ [newline]).splitOn newline = (previous ++ [line]) ++ [[]] := by
  rw [List.splitOn_append_cons_self, hlines, List.splitOn_nil]

theorem splitOn_part (hlines : front.splitOn newline = previous ++ [line]) {part : Bytes}
    (hpart : newline ∉ part) : (front ++ part).splitOn newline = previous ++ [line ++ part] :=
  Segments.splitOn_append hlines (List.splitOn_eq_singleton hpart)

theorem fence_isPrefixOf_append {fence : UInt8} (hfence : fence ≠ newline) (text behind : Bytes) :
    [fence, fence, fence].isPrefixOf (text ++ newline :: behind) =
      [fence, fence, fence].isPrefixOf text := by
  rcases text with _ | ⟨a, _ | ⟨b, _ | ⟨c, text⟩⟩⟩
  · simp [List.isPrefixOf, hfence]
  · simp [List.isPrefixOf, hfence]
  · simp [List.isPrefixOf, hfence]
  · simp [List.isPrefixOf]

/-- The line break is no part of a fence. -/
theorem beginsFence_line {behind : Bytes} :
    beginsFence (line ++ newline :: behind) = beginsFence line := by
  by_cases hnil : CommonMark.outdent 3 line = []
  · simp only [beginsFence, CommonMark.outdent_of_spaces hnil (show newline ≠ 0x20 by decide), hnil]
    simp [List.isPrefixOf, show backtick ≠ newline by decide, show tilde ≠ newline by decide]
  · simp only [beginsFence, CommonMark.outdent_append hnil,
      fence_isPrefixOf_append (show backtick ≠ newline by decide),
      fence_isPrefixOf_append (show tilde ≠ newline by decide)]

theorem newline_notMem {token : Bytes} (h : ∀ byte ∈ token, isTokenByte byte = true) :
    newline ∉ token := fun hmem => absurd (h newline hmem) (by decide)

theorem backtick_notMem {token : Bytes} (h : ∀ byte ∈ token, isTokenByte byte = true) :
    backtick ∉ token := fun hmem => absurd (h backtick hmem) (by decide)

/-- References in a part of a line where all is taken for code are left out. -/
theorem filter_taken {body part tail : Bytes} (hbody : body = front ++ (part ++ tail))
    (htaken : ∀ a b, part = a ++ b → b ≠ [] → takenAt (front ++ a) (b ++ tail) = true)
    (htail : ∀ byte ∈ tail.head?, isTokenByte byte = false) :
    (tokensFrom front.getLast? front.length 0 (part ++ tail)).filter
        (fun ref => !takenForCode body ref.start) =
      (tokensFrom (front ++ part).getLast? (front ++ part).length 0 tail).filter
        fun ref => !takenForCode body ref.start := by
  induction hn : part.length using Nat.strong_induction_on generalizing front part with
  | _ n ih =>
    subst hn
    cases part with
    | nil => rw [List.nil_append, List.append_nil]
    | cons byte part =>
      cases hread : readReference front.getLast? (byte :: (part ++ tail)) with
      | none =>
        rw [List.cons_append, tokensFrom_skip hread]
        have hrest := @ih part.length (by simp) (front ++ [byte]) part (by simpa using hbody)
          (fun a b hab hb => by simpa using htaken (byte :: a) b (by rw [hab]; rfl) hb) rfl
        simpa using hrest
      | some found =>
        obtain ⟨cref, length⟩ := found
        obtain ⟨token, after, htext, rfl, hne, htoken, -⟩ := readReference_spec hread
        -- the token ends within the part
        obtain ⟨others, hpart, rfl⟩ : ∃ others, byte :: part = token ++ others ∧
            after = others ++ tail := by
          rw [← List.cons_append] at htext
          rcases List.append_eq_append_iff.1 htext with ⟨x, hx, htailEq⟩ | ⟨x, hx, hafter⟩
          · cases x with
            | nil => exact ⟨[], by simpa using hx.symm, by simpa using htailEq.symm⟩
            | cons b x =>
              have hb : isTokenByte b = true := htoken b (hx ▸ List.mem_append_right _ (by simp))
              rw [htail b (by rw [htailEq]; rfl)] at hb
              cases hb
          · exact ⟨x, hx, hafter⟩
        have hhead : takenForCode body front.length = true := by
          have htakenHere := htaken [] (byte :: part) rfl (List.cons_ne_nil _ _)
          rw [List.append_nil] at htakenHere
          rw [hbody, takenForCode_append]
          exact htakenHere
        have hpos := List.length_pos_of_ne_nil hne
        have hlengths := congrArg List.length hpart
        rw [List.length_append] at hlengths
        have hrest := @ih others.length (by omega) (front ++ token) others
          (by rw [hbody, List.cons_append, htext, List.append_assoc])
          (fun a b hab hb => by
            rw [List.append_assoc]
            exact htaken (token ++ a) b (by rw [hpart, hab, List.append_assoc]) hb) rfl
        rw [htext] at hread
        rw [hpart, List.append_assoc, tokensFrom_token hne hread, List.filter_cons, hhead,
          ← List.append_assoc]
        exact hrest

/-- Where the scanner is in code, it passes over a token. -/
theorem scanFrom_inCode {s : Scan} {token : Bytes} (hcode : s.inFence = true ∨ s.inCodeSpan = true)
    (hline : s.atLineStart = false) (htoken : ∀ byte ∈ token, isTokenByte byte = true) :
    scanFrom s front.getLast? front.length 0 (token ++ rest) =
      scanFrom s (front ++ token).getLast? (front ++ token).length 0 rest := by
  induction token generalizing front with
  | nil => rw [List.nil_append, List.append_nil]
  | cons byte token ih =>
    have hnext := @ih (front ++ [byte]) fun other hmem => htoken other (List.mem_cons_of_mem _ hmem)
    have hbyte := htoken byte List.mem_cons_self
    have hnewline : byte ≠ newline := by
      rintro rfl
      exact absurd hbyte (by decide)
    have hbacktick : byte ≠ backtick := by
      rintro rfl
      exact absurd hbyte (by decide)
    have hstep : scanStep s front.getLast? byte (token ++ rest) = (s, 0, none) := by
      have hsame : { s with atLineStart := false } = s := by rw [← hline]
      simp only [scanStep, if_neg hnewline, hline, Bool.false_and, Bool.false_eq_true, if_false,
        if_neg hbacktick]
      by_cases hfence : s.inFence = true
      · rw [if_pos hfence, hsame]
      · rw [if_neg hfence, if_pos (hcode.resolve_left hfence), hsame]
    rw [List.getLast?_concat, List.length_append, List.length_singleton, List.append_assoc,
      List.singleton_append] at hnext
    rw [List.cons_append, scanFrom, hstep]
    exact hnext

/-- What the scanner knows in front of a text: the lines above and the start of the line. -/
structure Knows (s : Scan) (previous : List Bytes) (line text : Bytes) : Prop where
  fence : s.inFence = decide (previous.countP beginsFence % 2 = 1)
  span : s.inFence = false → s.inCodeSpan = decide (line.count backtick % 2 = 1)
  lineStart : s.atLineStart = true ↔ line = []
  noFence : line ≠ [] → beginsFence (line ++ text) = false

/-- The step at the end of a line. -/
theorem scanFrom_newline {s : Scan} : scanFrom s front.getLast? front.length 0 (newline :: rest) =
    scanFrom ⟨s.inFence, false, true⟩ (front ++ [newline]).getLast? (front ++ [newline]).length 0
      rest := by
  rw [scanFrom, scanStep, if_pos rfl, List.getLast?_concat, List.length_append,
    List.length_singleton]

theorem Knows.newline {s : Scan} (h : Knows s previous line (newline :: rest)) :
    Knows ⟨s.inFence, false, true⟩ (previous ++ [line]) [] rest := by
  refine ⟨?_, fun _ => rfl, by simp, fun hne => absurd rfl hne⟩
  have hline : beginsFence line = false := by
    by_cases hne : line = []
    · subst hne
      decide
    · rw [← @beginsFence_line line rest]
      exact h.noFence hne
  simp only [List.countP_append, List.countP_singleton, hline, Bool.false_eq_true, if_false,
    Nat.add_zero]
  exact h.fence

theorem Knows.part {s : Scan} {part : Bytes} (h : Knows s previous line (part ++ text))
    (hno : beginsFence (line ++ (part ++ text)) = false) (hne : part ≠ [])
    (hspan : s.inFence = false → backtick ∉ part) :
    Knows { s with atLineStart := false } previous (line ++ part) text := by
  refine ⟨h.fence, fun hfence => ?_, ?_, fun _ => ?_⟩
  · rw [List.count_append, List.count_eq_zero.2 (hspan hfence)]
    exact h.span hfence
  · simp [hne]
  · rwa [List.append_assoc]

/-- Where the scanner is in code it does not see a reference, and passes over it byte by byte. -/
theorem scanFrom_code {s : Scan} {byte : UInt8} (hnewline : byte ≠ newline)
    (hline : (s.atLineStart && beginsFence (byte :: rest)) = false)
    (hcode : s.inFence = true ∨ byte ≠ backtick ∧ s.inCodeSpan = true) :
    scanFrom s front.getLast? front.length 0 (byte :: rest) =
      scanFrom { s with atLineStart := false } (front ++ [byte]).getLast? (front ++ [byte]).length 0
        rest := by
  have hstep : scanStep s front.getLast? byte rest =
      ({ s with atLineStart := false }, 0, none) := by
    rw [scanStep, if_neg hnewline, if_neg (by rw [hline]; exact Bool.false_ne_true)]
    by_cases hfence : s.inFence = true
    · rw [if_pos hfence]
    · obtain ⟨hbacktick, hspan⟩ := hcode.resolve_left hfence
      rw [if_neg hfence, if_neg hbacktick, if_pos hspan]
  rw [scanFrom, hstep, List.getLast?_concat, List.length_append, List.length_singleton]

theorem scanFrom_code_token {s : Scan} {token tail : Bytes} (hne : token ≠ [])
    (htoken : ∀ byte ∈ token, isTokenByte byte = true)
    (hline : (s.atLineStart && beginsFence (token ++ tail)) = false)
    (hcode : s.inFence = true ∨ s.inCodeSpan = true) :
    scanFrom s front.getLast? front.length 0 (token ++ tail) =
      scanFrom { s with atLineStart := false } (front ++ token).getLast? (front ++ token).length 0
        tail := by
  obtain ⟨byte, others, rfl⟩ := List.exists_cons_of_ne_nil hne
  have hnewline : byte ≠ newline := fun heq => newline_notMem htoken (by simp [heq])
  have hbacktick : byte ≠ backtick := fun heq => backtick_notMem htoken (by simp [heq])
  have hpast := @scanFrom_inCode (front ++ [byte]) tail { s with atLineStart := false } others hcode rfl
    fun other hmem => htoken other (List.mem_cons_of_mem _ hmem)
  rw [List.append_assoc, List.singleton_append] at hpast
  rw [List.cons_append] at hline ⊢
  rw [scanFrom_code hnewline hline (hcode.imp_right fun hspan => ⟨hbacktick, hspan⟩)]
  exact hpast

/-- Outside of code the scanner does what `tokensFrom` does. -/
theorem scanFrom_skip {s : Scan} {byte : UInt8} (hnewline : byte ≠ newline)
    (hbacktick : byte ≠ backtick) (hline : (s.atLineStart && beginsFence (byte :: rest)) = false)
    (hfence : s.inFence = false) (hspan : s.inCodeSpan = false)
    (hread : readReference front.getLast? (byte :: rest) = none) :
    scanFrom s front.getLast? front.length 0 (byte :: rest) =
      scanFrom { s with atLineStart := false } (front ++ [byte]).getLast? (front ++ [byte]).length 0
        rest := by
  have hstep : scanStep s front.getLast? byte rest =
      ({ s with atLineStart := false }, 0, none) := by
    simp only [scanStep, if_neg hnewline, hline, Bool.false_eq_true, if_false, hfence,
      if_neg hbacktick, hspan, hread]
  rw [scanFrom, hstep, List.getLast?_concat, List.length_append, List.length_singleton]

theorem scanFrom_token {s : Scan} {token tail : Bytes} {cref : CrossReference} (hne : token ≠ [])
    (htoken : ∀ byte ∈ token, isTokenByte byte = true)
    (hline : (s.atLineStart && beginsFence (token ++ tail)) = false) (hfence : s.inFence = false)
    (hspan : s.inCodeSpan = false)
    (hread : readReference front.getLast? (token ++ tail) = some (cref, token.length)) :
    scanFrom s front.getLast? front.length 0 (token ++ tail) =
      ⟨front.length, front.length + token.length, cref⟩ ::
        scanFrom { s with atLineStart := false } (front ++ token).getLast? (front ++ token).length 0
          tail := by
  obtain ⟨byte, others, rfl⟩ := List.exists_cons_of_ne_nil hne
  have hnewline : byte ≠ newline := fun heq => newline_notMem htoken (by simp [heq])
  have hbacktick : byte ≠ backtick := fun heq => backtick_notMem htoken (by simp [heq])
  have hpassing := scanFrom_passing { s with atLineStart := false } (front ++ [byte]) others tail
  rw [List.getLast?_concat, List.length_append, List.length_singleton, List.append_assoc,
    List.singleton_append] at hpassing
  rw [List.cons_append] at hline hread ⊢
  have hstep : scanStep s front.getLast? byte (others ++ tail) =
      ({ s with atLineStart := false }, others.length, some cref) := by
    simp only [scanStep, if_neg hnewline, hline, Bool.false_eq_true, if_false, hfence,
      if_neg hbacktick, hspan, hread, List.length_cons, Nat.add_sub_cancel]
  rw [scanFrom, hstep]
  simp only [hpassing, List.length_cons]
  rw [Nat.add_assoc, Nat.add_comm 1]

/-- The scanner reports the references that it does not take for code. -/
theorem scanFrom_eq {s : Scan} {body : Bytes} (hbody : body = front ++ text)
    (hlines : front.splitOn newline = previous ++ [line]) (hknows : Knows s previous line text) :
    scanFrom s front.getLast? front.length 0 text =
      (tokensFrom front.getLast? front.length 0 text).filter
        fun ref => !takenForCode body ref.start := by
  induction hn : text.length using Nat.strong_induction_on
    generalizing s front previous line text with
  | _ n ih =>
    subst hn
    cases text with
    | nil => rfl
    | cons byte rest =>
      by_cases hnewline : byte = newline
      · subst hnewline
        rw [scanFrom_newline, tokensFrom_skip (readReference_eq_none (by decide) rest)]
        exact ih rest.length (by simp) (by simpa using hbody) (splitOn_newline hlines)
          hknows.newline rfl
      by_cases hfenceLine : (s.atLineStart && beginsFence (byte :: rest)) = true
      · -- the whole line is passed over
        obtain ⟨hstart, hbegins⟩ := Bool.and_eq_true_iff.1 hfenceLine
        obtain rfl := hknows.lineStart.1 hstart
        obtain ⟨part, tail, rfl, hpart, htail, htake⟩ := exists_line rest
        have hstep : scanStep s front.getLast? byte (part ++ tail) =
            ({ s with inFence := !s.inFence }, part.length, none) := by
          rw [scanStep, if_neg hnewline, if_pos hfenceLine, htake]
        have hline : newline ∉ byte :: part := by
          rw [List.mem_cons, not_or]
          exact ⟨Ne.symm hnewline, hpart⟩
        have hpassing := scanFrom_passing { s with inFence := !s.inFence } (front ++ [byte]) part tail
        rw [List.getLast?_concat, List.length_append, List.length_singleton, List.append_assoc,
          List.singleton_append] at hpassing
        have htokens := @filter_taken front body (byte :: part) tail hbody
          (fun a b hab hb => by
            have ha : newline ∉ a := fun hmem => hline (hab ▸ List.mem_append_left _ hmem)
            rw [takenAt_eq (splitOn_part hlines ha), List.nil_append, ← List.append_assoc, ← hab,
              List.cons_append, hbegins]
            rfl)
          (by
            rintro b hb
            rcases htail with rfl | ⟨more, rfl⟩
            · cases hb
            · obtain rfl := Option.some.inj hb
              decide)
        rw [List.cons_append] at htokens
        rw [scanFrom, hstep, htokens]
        simp only [hpassing]
        rcases htail with rfl | ⟨more, rfl⟩
        · rfl
        · rw [scanFrom_newline, tokensFrom_skip (readReference_eq_none (by decide) more)]
          have hlines' := splitOn_newline (splitOn_part hlines hline)
          refine ih more.length (by simp; omega) (by simpa using hbody) hlines' ?_ rfl
          refine ⟨?_, fun _ => rfl, by simp, fun hne => absurd rfl hne⟩
          have hbeginsLine : beginsFence (byte :: part) = true := by
            rwa [← List.cons_append, beginsFence_line] at hbegins
          simp only [List.nil_append, List.countP_append, List.countP_singleton, hbeginsLine, if_true,
            hknows.fence]
          by_cases hodd : previous.countP beginsFence % 2 = 1
          · simp [hodd]
            omega
          · simp [hodd]
            omega
      · have hline := Bool.eq_false_of_not_eq_true hfenceLine
        have hno : beginsFence (line ++ byte :: rest) = false := by
          by_cases hempty : line = []
          · rwa [hknows.lineStart.2 hempty, Bool.true_and, ← List.nil_append (byte :: rest),
              ← hempty] at hline
          · exact hknows.noFence hempty
        have hone : newline ∉ [byte] := by simpa using Ne.symm hnewline
        have htakenAt : takenForCode body front.length = takenAt front (byte :: rest) := by
          rw [hbody, takenForCode_append]
        rw [takenAt_eq hlines, hno, Bool.false_or] at htakenAt
        -- the invariant behind a part of the line
        have hbehind {part tail : Bytes} (htext : byte :: rest = part ++ tail) (hne : part ≠ [])
            (hpart : newline ∉ part) (hspan : s.inFence = false → backtick ∉ part) :
            scanFrom { s with atLineStart := false } (front ++ part).getLast? (front ++ part).length
              0 tail = (tokensFrom (front ++ part).getLast? (front ++ part).length 0 tail).filter
                fun ref => !takenForCode body ref.start := by
          rw [htext] at hknows hno hbody ih
          have hpos := List.length_pos_of_ne_nil hne
          exact ih tail.length (by rw [List.length_append]; omega) (by rw [hbody, List.append_assoc])
            (splitOn_part hlines hpart) (hknows.part hno hne hspan) rfl
        have htoken {token tail : Bytes} (htext : byte :: rest = token ++ tail)
            (hbytes : ∀ b ∈ token, isTokenByte b = true) (hne : token ≠ []) :=
          hbehind htext hne (newline_notMem hbytes) fun _ => backtick_notMem hbytes
        by_cases hcode : s.inFence = true ∨ byte ≠ backtick ∧ s.inCodeSpan = true
        · have htaken : takenForCode body front.length = true := by
            rw [htakenAt, Bool.or_eq_true]
            by_cases hfence : s.inFence = true
            · exact Or.inl (hknows.fence ▸ hfence)
            · have hspan := (hcode.resolve_left hfence).2
              exact Or.inr (hknows.span (Bool.eq_false_of_not_eq_true hfence) ▸ hspan)
          cases hread : readReference front.getLast? (byte :: rest) with
          | none =>
            rw [scanFrom_code hnewline hline hcode, tokensFrom_skip hread]
            refine hbehind rfl (List.cons_ne_nil _ _) hone fun hfence => ?_
            have hbacktick := (hcode.resolve_left (by rw [hfence]; exact Bool.false_ne_true)).1
            simpa using Ne.symm hbacktick
          | some found =>
            obtain ⟨cref, length⟩ := found
            obtain ⟨token, tail, htext, rfl, hne, hbytes, -⟩ := readReference_spec hread
            have hrest := htoken htext hbytes hne
            rw [htext] at hline hread ⊢
            rw [scanFrom_code_token hne hbytes hline (hcode.imp_right And.right),
              tokensFrom_token hne hread, List.filter_cons, htaken]
            exact hrest
        · obtain ⟨hfence, hspan⟩ := not_or.1 hcode
          have hopen := Bool.eq_false_of_not_eq_true hfence
          by_cases hbacktick : byte = backtick
          · subst hbacktick
            have hstep : scanStep s front.getLast? backtick rest =
                ({ s with inCodeSpan := !s.inCodeSpan, atLineStart := false }, 0, none) := by
              rw [scanStep, if_neg hnewline, if_neg hfenceLine, if_neg hfence, if_pos rfl]
            have hnext := @ih rest.length (by simp) (front ++ [backtick]) rest
              (line ++ [backtick]) previous
              { s with inCodeSpan := !s.inCodeSpan, atLineStart := false } (by simpa using hbody)
              (splitOn_part hlines hone) ?_ rfl
            · rw [scanFrom, hstep, tokensFrom_skip (readReference_eq_none (by decide) rest), ← hnext,
                List.getLast?_concat, List.length_append, List.length_singleton]
            · refine ⟨hknows.fence, fun _ => ?_, by simp, fun _ => by rwa [List.append_assoc]⟩
              rw [hknows.span hopen, List.count_append, List.count_singleton_self]
              by_cases hodd : line.count backtick % 2 = 1
              · simp [hodd]
                omega
              · simp [hodd]
                omega
          · have hplain : s.inCodeSpan = false := by
              rw [← Bool.not_eq_true]
              exact fun hinside => hspan ⟨hbacktick, hinside⟩
            have htaken : takenForCode body front.length = false := by
              rw [htakenAt, ← hknows.fence, ← hknows.span hopen, hopen, hplain]
              rfl
            cases hread : readReference front.getLast? (byte :: rest) with
            | none =>
              rw [scanFrom_skip hnewline hbacktick hline hopen hplain hread, tokensFrom_skip hread]
              exact hbehind rfl (List.cons_ne_nil _ _) hone fun _ => by simpa using Ne.symm hbacktick
            | some found =>
              obtain ⟨cref, length⟩ := found
              obtain ⟨token, tail, htext, rfl, hne, hbytes, -⟩ := readReference_spec hread
              have hrest := htoken htext hbytes hne
              rw [htext] at hline hread ⊢
              rw [scanFrom_token hne hbytes hline hopen hplain hread, tokensFrom_token hne hread,
                List.filter_cons, htaken, hrest]
              rfl

end Taken

/-! ## The references of a body -/

section Bodies

variable {body : String}

theorem scanRefs_eq (body : String) :
    scanRefs body = (tokens body).filter fun ref => !takenForCode (utf8 body) ref.start := by
  have hstart : ([] : Bytes).splitOn newline = [] ++ [[]] := List.splitOn_nil _
  apply @scanFrom_eq [] _ _ _ _ _ rfl hstart
  exact ⟨rfl, fun _ => rfl, by simp [Scan.start], fun hne => absurd rfl hne⟩

theorem marked_tokens (body : String) : Marked 0 body.toList (tokens body) :=
  marked_of_bytes (markedBytes_tokensFrom [] (utf8 body))

theorem marked_scanRefs (body : String) : Marked 0 body.toList (scanRefs body) := by
  rw [scanRefs_eq]
  apply marked_of_bytes
  exact (markedBytes_tokensFrom [] (utf8 body)).filter _

theorem Marked.start_le {offset : Nat} {text : List Char} {refs : List Ref}
    (h : Marked offset text refs) : ∀ ref ∈ refs, offset ≤ ref.start := by
  induction refs generalizing offset text with
  | nil => exact fun ref hmem => absurd hmem List.not_mem_nil
  | cons first refs ih =>
    obtain ⟨gap, token, tail, -, hstart, hstop, -, hrest⟩ := h
    intro ref hmem
    rcases List.mem_cons.1 hmem with rfl | hmem
    · omega
    · have hle := ih hrest ref hmem
      omega

theorem Marked.pairwise {offset : Nat} {text : List Char} {refs : List Ref}
    (h : Marked offset text refs) : refs.Pairwise fun first second => first.stop ≤ second.start := by
  induction refs generalizing offset text with
  | nil => exact List.Pairwise.nil
  | cons first refs ih =>
    obtain ⟨gap, token, tail, -, -, -, -, hrest⟩ := h
    exact List.pairwise_cons.2 ⟨hrest.start_le, ih hrest⟩

theorem Denotes.ne_nil {cref : CrossReference} {token : List Char} (h : Denotes cref token) :
    token ≠ [] := by
  obtain ⟨digits, rfl, -⟩ := h.written
  apply List.append_ne_nil_of_left_ne_nil
  rw [leadText]
  split
  · exact List.cons_ne_nil _ _
  · exact List.append_ne_nil_of_right_ne_nil _ (List.cons_ne_nil _ _)

/-- A reference stands in the text between its offsets. -/
def StandsIn (body : String) (ref : Ref) : Prop :=
  ref.start < ref.stop ∧ ∃ front token tail : String, body = front ++ token ++ tail ∧
    ref.start = (utf8 front).length ∧ ref.stop = (utf8 (front ++ token)).length ∧
      Denotes ref.cref token.toList

theorem Marked.standsIn {front tail : List Char} {refs : List Ref}
    (h : Marked (front.flatMap String.utf8EncodeChar).length tail refs) :
    ∀ ref ∈ refs, StandsIn (String.ofList (front ++ tail)) ref := by
  induction refs generalizing front tail with
  | nil => exact fun ref hmem => absurd hmem List.not_mem_nil
  | cons first refs ih =>
    obtain ⟨gap, token, behind, rfl, hstart, hstop, hdenotes, hrest⟩ := h
    have hbytes : (front ++ (gap ++ token)).flatMap String.utf8EncodeChar =
        front.flatMap String.utf8EncodeChar ++ (gap.flatMap String.utf8EncodeChar ++
          token.flatMap String.utf8EncodeChar) := by
      rw [List.flatMap_append, List.flatMap_append]
    have hfirst : first.stop =
        ((front ++ (gap ++ token)).flatMap String.utf8EncodeChar).length := by
      rw [hstop, hstart, hbytes, List.length_append, List.length_append, Nat.add_assoc]
    intro ref hmem
    rcases List.mem_cons.1 hmem with rfl | hmem
    · refine ⟨?_, String.ofList (front ++ gap), String.ofList token, String.ofList behind, ?_, ?_, ?_,
        by rwa [String.toList_ofList]⟩
      · obtain ⟨c, others, rfl⟩ := List.exists_cons_of_ne_nil hdenotes.ne_nil
        have hpos := List.length_pos_of_ne_nil (String.utf8EncodeChar_ne_nil (c := c))
        rw [hstop, List.flatMap_cons, List.length_append]
        omega
      · simp [← String.toList_inj]
      · rw [hstart, utf8, String.toList_ofList, List.flatMap_append, List.length_append]
      · rw [hfirst, utf8, String.toList_append, String.toList_ofList, String.toList_ofList,
          List.append_assoc]
    · rw [hfirst] at hrest
      have hbehind := ih hrest ref hmem
      simpa using hbehind

theorem standsIn_of_mem {ref : Ref} (h : ref ∈ tokens body) : StandsIn body ref := by
  have hstands := @Marked.standsIn [] body.toList (tokens body) (marked_tokens body) ref h
  rwa [List.nil_append, String.ofList_toList] at hstands

/-- The references that are reported are those that are not taken for code. -/
theorem mem_scanRefs {ref : Ref} : ref ∈ scanRefs body ↔
    ref ∈ tokens body ∧ takenForCode (utf8 body) ref.start = false := by
  rw [scanRefs_eq, List.mem_filter, Bool.not_eq_true']

/-- What a closing keyword governs is one of the references. -/
theorem mem_of_mem_closing {cref : CrossReference} (h : cref ∈ parseClosingReferences body) :
    cref ∈ parseCrossReferences body := by
  simp only [parseClosingReferences, dedup, List.mem_eraseDups, List.mem_filterMap] at h
  obtain ⟨⟨ref, closes⟩, hmem, hcref⟩ := h
  rw [parseCrossReferences, dedup, List.mem_eraseDups]
  split at hcref
  · obtain rfl := Option.some.inj hcref
    exact List.mem_map_of_mem (List.of_mem_zip hmem).1
  · cases hcref

end Bodies

end Edda.Domain.CrossReferences
