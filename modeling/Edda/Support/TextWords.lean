import Edda.Support.Affixes

/-!
# Words and numbers in a text

A line is printed as words with one space between them, and numbers among the words in decimal
digits. `splitWhitespace_joined` and `parseU32_toString`, `parseI64_toString` read back what was
printed; `isWord_of_mem_splitWhitespace` says what is read from any text.
-/

set_option autoImplicit false

namespace Edda.Support.RustText

/-! ## Words -/

/-- A word has characters, and none of them is white space. -/
structure IsWord (word : List Char) : Prop where
  ne_nil : word ≠ []
  solid : ∀ c ∈ word, isWhitespace c = false

/-- Words behind a text, with a space in front of each. -/
def spaced (words : List (List Char)) : List Char := words.flatMap fun word => ' ' :: word

theorem isWhitespace_space : isWhitespace ' ' = true := by decide

theorem IsWord.isEmpty_eq_false {word : List Char} (h : IsWord word) : word.isEmpty = false :=
  List.isEmpty_eq_false_iff.2 h.ne_nil

theorem IsWord.splitWhitespace {word : List Char} (h : IsWord word) :
    splitWhitespace word = [word] := by
  rw [RustText.splitWhitespace, List.splitOnP_eq_singleton h.solid]
  simp only [List.filter_cons, h.isEmpty_eq_false, Bool.not_false, if_true, List.filter_nil]

/-- A word and a space are split off. -/
theorem IsWord.splitWhitespace_append {word : List Char} (h : IsWord word) (rest : List Char) :
    RustText.splitWhitespace (word ++ ' ' :: rest) = word :: RustText.splitWhitespace rest := by
  rw [RustText.splitWhitespace, List.splitOnP_append_cons_of_forall_mem h.solid ' '
    isWhitespace_space, RustText.splitWhitespace]
  simp only [List.filter_cons, h.isEmpty_eq_false, Bool.not_false, if_true]

theorem splitWhitespace_joined {first : List Char} {words : List (List Char)} (hfirst : IsWord first)
    (hwords : ∀ word ∈ words, IsWord word) :
    splitWhitespace (first ++ spaced words) = first :: words := by
  induction words generalizing first with
  | nil => rw [spaced, List.flatMap_nil, List.append_nil, hfirst.splitWhitespace]
  | cons word words ih =>
    have hrest := ih (hwords word List.mem_cons_self)
      (fun other hmem => hwords other (List.mem_cons_of_mem _ hmem))
    rw [spaced, List.flatMap_cons, List.cons_append, hfirst.splitWhitespace_append]
    exact congrArg (first :: ·) hrest

/-- No piece between separators has a separator. -/
theorem not_of_mem_splitOnP {p : Char → Bool} {text piece : List Char}
    (h : piece ∈ text.splitOnP p) : ∀ c ∈ piece, p c = false := by
  induction text generalizing piece with
  | nil =>
    rw [List.splitOnP_nil, List.mem_singleton] at h
    rw [h]
    exact fun c hc => absurd hc List.not_mem_nil
  | cons d text ih =>
    rw [List.splitOnP_cons_eq_if_modifyHead] at h
    by_cases hd : p d = true
    · rw [if_pos hd] at h
      rcases List.mem_cons.1 h with rfl | h
      · exact fun c hc => absurd hc List.not_mem_nil
      · exact ih h
    · -- the character belongs to the first piece of the rest
      rw [if_neg hd] at h
      obtain ⟨first, rest, hsplit⟩ := List.exists_cons_of_ne_nil (List.splitOnP_ne_nil p text)
      rw [hsplit] at h ih
      rw [List.modifyHead_cons, List.mem_cons] at h
      rcases h with rfl | h
      · intro c hc
        rcases List.mem_cons.1 hc with rfl | hc
        · exact Bool.eq_false_iff.2 hd
        · exact ih List.mem_cons_self c hc
      · exact ih (List.mem_cons_of_mem _ h)

/-- What is split off is a word. -/
theorem isWord_of_mem_splitWhitespace {text word : List Char} (h : word ∈ splitWhitespace text) :
    IsWord word := by
  obtain ⟨hmem, hkept⟩ := List.mem_filter.1 h
  rw [Bool.not_eq_true', List.isEmpty_eq_false_iff] at hkept
  exact ⟨hkept, not_of_mem_splitOnP hmem⟩

/-- A text that ends in a word is not trimmed at its end. -/
theorem IsWord.trimEnd_append {word : List Char} (h : IsWord word) (text : List Char) :
    trimEnd (text ++ word) = text ++ word := by
  have hsplit : text ++ word = (text ++ word.dropLast) ++ [word.getLast h.ne_nil] := by
    rw [List.append_assoc, List.dropLast_append_getLast h.ne_nil]
  rw [hsplit]
  exact trimEnd_concat (h.solid _ (List.getLast_mem h.ne_nil)) _

theorem IsWord.trim {word : List Char} (h : IsWord word) : trim word = word := by
  obtain ⟨first, rest, rfl⟩ := List.exists_cons_of_ne_nil h.ne_nil
  have hend := h.trimEnd_append []
  rw [List.nil_append] at hend
  rw [RustText.trim, hend, trimStart, List.dropWhile_cons_of_neg]
  simp [h.solid first List.mem_cons_self]

/-! ## Decimal digits -/

theorem decDigits_append (acc : Nat) (xs ys : List Char) :
    decDigits acc (xs ++ ys) = (decDigits acc xs).bind fun value => decDigits value ys := by
  induction xs generalizing acc with
  | nil => rfl
  | cons c xs ih =>
    simp only [List.cons_append, decDigits]
    split
    · exact ih _
    · rfl

theorem decDigits_digitChar (acc : Nat) {digit : Nat} (hdigit : digit < 10) :
    decDigits acc [digit.digitChar] = some (acc * 10 + digit) := by
  interval_cases digit <;> rfl

theorem decDigits_toDigits (n : Nat) : decDigits 0 (Nat.toDigits 10 n) = some n := by
  induction n using Nat.strongRecOn with
  | ind n ih =>
    rw [Nat.toDigits_eq_if (by omega)]
    by_cases hsmall : n < 10
    · rw [if_pos hsmall, decDigits_digitChar 0 hsmall]
      simp
    · have hrest := ih (n / 10) (by omega)
      have hlast : n % 10 < 10 := Nat.mod_lt _ (by decide)
      rw [if_neg hsmall, decDigits_append, hrest, Option.bind_some, decDigits_digitChar _ hlast]
      congr 1
      omega

theorem toList_toString (n : Nat) : (toString n).toList = Nat.toDigits 10 n := String.toList_ofList

theorem isDigit_of_mem_toString {n : Nat} {c : Char} (h : c ∈ (toString n).toList) :
    c.isDigit = true := by
  rw [toList_toString] at h
  exact Nat.isDigit_of_mem_toDigits (by decide) (by decide) h

theorem not_isWhitespace_of_isDigit {c : Char} (h : c.isDigit = true) : isWhitespace c = false := by
  have hrange : 48 ≤ c.toNat ∧ c.toNat ≤ 57 := by
    simp only [Char.isDigit, Bool.and_eq_true, decide_eq_true_eq, ge_iff_le, UInt32.le_iff_toNat_le]
      at h
    exact h
  have hcode : ∀ n, 48 ≤ n → n ≤ 57 → isWhitespace (Char.ofNat n) = false := by decide
  have hchar := hcode c.toNat hrange.1 hrange.2
  rwa [Char.ofNat_toNat] at hchar

theorem isWord_toString (n : Nat) : IsWord (toString n).toList where
  ne_nil := by
    rw [toList_toString]
    exact List.ne_nil_of_length_pos Nat.length_toDigits_pos
  solid := fun _ hc => not_isWhitespace_of_isDigit (isDigit_of_mem_toString hc)

/-- The digits of a number start with no sign. -/
theorem exists_digit_cons (n : Nat) : ∃ c rest, (toString n).toList = c :: rest ∧ c ≠ '+' ∧ c ≠ '-' := by
  obtain ⟨c, rest, heq⟩ := List.exists_cons_of_ne_nil (isWord_toString n).ne_nil
  have hdigit := isDigit_of_mem_toString (heq ▸ List.mem_cons_self : c ∈ (toString n).toList)
  refine ⟨c, rest, heq, ?_, ?_⟩
  · rintro rfl
    exact absurd hdigit (by decide)
  · rintro rfl
    exact absurd hdigit (by decide)

theorem parseU32_of_ne_plus {c : Char} (hplus : c ≠ '+') (rest : List Char) :
    parseU32 (c :: rest) = (decDigits 0 (c :: rest)).filter (· < 2 ^ 32) := by
  unfold parseU32
  split
  · rename_i h
    exact absurd (List.cons.inj h).1 hplus
  · rfl

theorem parseU32_toString {n : Nat} (hn : n < 2 ^ 32) : parseU32 (toString n).toList = some n := by
  obtain ⟨c, rest, heq, hplus, -⟩ := exists_digit_cons n
  have hread := decDigits_toDigits n
  rw [← toList_toString, heq] at hread
  rw [heq, parseU32_of_ne_plus hplus, hread, Option.filter_some, if_pos (decide_eq_true hn)]

/-- Whatever is read as a `u32` is below 2^32. -/
theorem lt_of_parseU32 {text : List Char} {n : Nat} (h : parseU32 text = some n) : n < 2 ^ 32 := by
  unfold parseU32 at h
  extract_lets digits at h
  split at h
  · exact absurd h (by simp)
  · exact of_decide_eq_true (Option.filter_eq_some_iff.1 h).2

/-- The number that digits with or without a minus sign stand for, within the range of `i64`. -/
def signedValue (negative : Bool) (digits : List Char) : Option Int :=
  (decDigits 0 digits).bind fun n =>
    let value : Int := if negative then -(n : Int) else n
    if -(2 ^ 63 : Int) ≤ value ∧ value < 2 ^ 63 then some value else none

theorem range_of_signedValue {negative : Bool} {digits : List Char} {i : Int}
    (h : signedValue negative digits = some i) : -(2 ^ 63 : Int) ≤ i ∧ i < 2 ^ 63 := by
  obtain ⟨n, -, hvalue⟩ := Option.bind_eq_some_iff.1 h
  extract_lets value at hvalue
  by_cases hrange : -(2 ^ 63 : Int) ≤ value ∧ value < 2 ^ 63
  · rw [if_pos hrange] at hvalue
    rw [← Option.some.inj hvalue]
    exact hrange
  · rw [if_neg hrange] at hvalue
    exact absurd hvalue (by simp)

/-- A sign is read, and then digits. -/
theorem parseI64_eq (text : List Char) :
    ∃ negative digits, parseI64 text = (if digits.isEmpty then none else signedValue negative digits) ∧
      (∀ c rest, text = c :: rest → c ≠ '+' → c ≠ '-' → negative = false ∧ digits = text) ∧
      ∀ rest, text = '-' :: rest → negative = true ∧ digits = rest := by
  unfold parseI64
  split
  rename_i negative digits heq
  refine ⟨negative, digits, ?_, ?_⟩
  · unfold signedValue
    cases decDigits 0 digits <;> rfl
  split at heq
  · obtain ⟨rfl, rfl⟩ := Prod.mk.inj heq
    refine ⟨fun c rest h hplus _ => absurd (List.cons.inj h).1.symm hplus, fun rest h => ?_⟩
    exact absurd (List.cons.inj h).1 (by decide)
  · obtain ⟨rfl, rfl⟩ := Prod.mk.inj heq
    refine ⟨fun c rest h _ hminus => absurd (List.cons.inj h).1.symm hminus, fun rest h => ?_⟩
    exact ⟨rfl, (List.cons.inj h).2⟩
  · rename_i hnoMinus
    obtain ⟨rfl, rfl⟩ := Prod.mk.inj heq
    exact ⟨fun _ _ _ _ _ => ⟨rfl, rfl⟩, fun rest h => absurd h (hnoMinus rest)⟩

theorem toList_toString_negSucc (n : Nat) :
    (toString (Int.negSucc n)).toList = '-' :: (toString (n + 1)).toList := by
  have hminus : "-".toList = ['-'] := by decide +kernel
  have happend : toString (Int.negSucc n) = "-" ++ toString (n + 1) := rfl
  rw [happend, String.toList_append, hminus, List.singleton_append]

theorem isWord_toString_int (i : Int) : IsWord (toString i).toList := by
  cases i with
  | ofNat n => exact isWord_toString n
  | negSucc n =>
    rw [toList_toString_negSucc]
    refine ⟨List.cons_ne_nil _ _, ?_⟩
    intro c hc
    rcases List.mem_cons.1 hc with rfl | hc
    · decide
    · exact (isWord_toString (n + 1)).solid c hc

theorem parseI64_toString {i : Int} (hlow : -(2 ^ 63 : Int) ≤ i) (hhigh : i < 2 ^ 63) :
    parseI64 (toString i).toList = some i := by
  obtain ⟨negative, digits, hparse, hplain, hsigned⟩ := parseI64_eq (toString i).toList
  rw [hparse]
  cases i with
  | ofNat n =>
    obtain ⟨c, rest, heq, hplus, hminus⟩ := exists_digit_cons n
    obtain ⟨rfl, rfl⟩ := hplain c rest heq hplus hminus
    have hread := decDigits_toDigits n
    have hprinted : toString (Int.ofNat n) = toString n := rfl
    rw [hprinted, (isWord_toString n).isEmpty_eq_false, if_neg Bool.false_ne_true, signedValue,
      toList_toString, hread, Option.bind_some]
    exact if_pos ⟨hlow, hhigh⟩
  | negSucc n =>
    obtain ⟨rfl, rfl⟩ := hsigned _ (toList_toString_negSucc n)
    have hread := decDigits_toDigits (n + 1)
    rw [(isWord_toString (n + 1)).isEmpty_eq_false, if_neg Bool.false_ne_true, signedValue,
      toList_toString, hread, Option.bind_some]
    exact if_pos ⟨hlow, hhigh⟩

/-- Whatever is read as an `i64` is within its range. -/
theorem range_of_parseI64 {text : List Char} {i : Int} (h : parseI64 text = some i) :
    -(2 ^ 63 : Int) ≤ i ∧ i < 2 ^ 63 := by
  obtain ⟨negative, digits, hparse, -⟩ := parseI64_eq text
  rw [hparse] at h
  split at h
  · exact absurd h (by simp)
  · exact range_of_signedValue h

end Edda.Support.RustText
