import Mathlib

/-!
# Patterns with wildcards

A pattern is a list of tokens: a letter, one symbol, or any number of symbols. It is matched against
symbols into which letters are encoded, so that a wildcard counts symbols and not letters. Between
the letters of a pattern are gaps, which say how many symbols stand there at least or exactly, and a
text matches if it is laid out along them (`matches_iff_laidOut`).

Where the encoding is self-synchronizing, a code is matched as its letters are laid out by the
lengths of their codes (`laidOut_encode`). `patterns_agree_iff` says which patterns match the same
texts by symbols as by letters; the texts that match the same patterns are those whose letters are
one symbol each (`matches_agree_of_short`, `ones_agree_iff`).
-/

set_option autoImplicit false

namespace Edda.Support.Wildcards

universe u v

inductive Token (α : Type u) where
  | many
  | one
  | letter (a : α)
  deriving DecidableEq, Repr

section Matching

variable {α : Type u} {β : Type v} (encode : α → List β)

/-- What a pattern stands for. -/
def Matches : List (Token α) → List β → Prop
  | [], text => text = []
  | .many :: pattern, text => ∃ skipped rest, text = skipped ++ rest ∧ Matches pattern rest
  | .one :: pattern, text => ∃ b rest, text = b :: rest ∧ Matches pattern rest
  | .letter a :: pattern, text => ∃ rest, text = encode a ++ rest ∧ Matches pattern rest

/-- Room for at least so many symbols, or for exactly so many. -/
structure Gap where
  least : Nat
  unbounded : Bool
  deriving DecidableEq, Repr

/-- The first gap of a pattern, and its letters with the gaps behind them. -/
def gaps : List (Token α) → Gap × List (α × Gap)
  | [] => (⟨0, false⟩, [])
  | .many :: pattern => (⟨(gaps pattern).1.least, true⟩, (gaps pattern).2)
  | .one :: pattern =>
    (⟨(gaps pattern).1.least + 1, (gaps pattern).1.unbounded⟩, (gaps pattern).2)
  | .letter a :: pattern => (⟨0, false⟩, (a, (gaps pattern).1) :: (gaps pattern).2)

/-- A part of a text fits into a gap. -/
def Gap.Fits (size : List β → Nat) (gap : Gap) (part : List β) : Prop :=
  if gap.unbounded then gap.least ≤ size part else size part = gap.least

/-- A text is laid out along gaps and letters. -/
def LaidOut (size : List β → Nat) : Gap → List (α × Gap) → List β → Prop
  | gap, [], text => gap.Fits size text
  | gap, (a, next) :: rest, text => ∃ part tail, text = part ++ (encode a ++ tail) ∧
    gap.Fits size part ∧ LaidOut size next rest tail

/-- What follows a gap. -/
def Follows (size : List β → Nat) : List (α × Gap) → List β → Prop
  | [], text => text = []
  | (a, next) :: rest, text => ∃ tail, text = encode a ++ tail ∧ LaidOut encode size next rest tail

variable {encode} {size : List β → Nat} {gap : Gap} {rest : List (α × Gap)} {text : List β}

theorem laidOut_iff : LaidOut encode size gap rest text ↔
    ∃ part tail, text = part ++ tail ∧ gap.Fits size part ∧ Follows encode size rest tail := by
  cases rest with
  | nil =>
    constructor
    · exact fun h => ⟨text, [], (List.append_nil text).symm, h, rfl⟩
    · rintro ⟨part, tail, rfl, hfits, rfl⟩
      rwa [List.append_nil]
  | cons head rest =>
    obtain ⟨a, next⟩ := head
    constructor
    · rintro ⟨part, tail, rfl, hfits, hlaid⟩
      exact ⟨part, _, rfl, hfits, tail, rfl, hlaid⟩
    · rintro ⟨part, _, rfl, hfits, tail, rfl, hlaid⟩
      exact ⟨part, tail, rfl, hfits, hlaid⟩

theorem laidOut_many : LaidOut encode List.length ⟨gap.least, true⟩ rest text ↔
    ∃ skipped tail, text = skipped ++ tail ∧ LaidOut encode List.length gap rest tail := by
  constructor
  · intro h
    obtain ⟨part, tail, rfl, hfits, hfollows⟩ := laidOut_iff.1 h
    have hle : gap.least ≤ part.length := hfits
    -- the gap takes the last symbols of the part
    refine ⟨part.take (part.length - gap.least), part.drop (part.length - gap.least) ++ tail, ?_,
      laidOut_iff.2 ⟨_, tail, rfl, ?_, hfollows⟩⟩
    · rw [← List.append_assoc, List.take_append_drop]
    · have hlength : (part.drop (part.length - gap.least)).length = gap.least := by
        rw [List.length_drop]
        omega
      rw [Gap.Fits, hlength]
      split
      · exact Nat.le_refl _
      · rfl
  · rintro ⟨skipped, tail, rfl, h⟩
    obtain ⟨part, tail, rfl, hfits, hfollows⟩ := laidOut_iff.1 h
    refine laidOut_iff.2 ⟨skipped ++ part, tail, (List.append_assoc _ _ _).symm, ?_, hfollows⟩
    have hle : gap.least ≤ part.length := by
      rw [Gap.Fits] at hfits
      split at hfits
      · exact hfits
      · exact Nat.le_of_eq hfits.symm
    rw [Gap.Fits, if_pos rfl, List.length_append]
    exact Nat.le_trans hle (Nat.le_add_left _ _)

theorem laidOut_one : LaidOut encode List.length ⟨gap.least + 1, gap.unbounded⟩ rest text ↔
    ∃ b tail, text = b :: tail ∧ LaidOut encode List.length gap rest tail := by
  have hfits (b : β) (part : List β) :
      (Gap.mk (gap.least + 1) gap.unbounded).Fits List.length (b :: part) ↔
        gap.Fits List.length part := by
    simp only [Gap.Fits, List.length_cons, Nat.add_le_add_iff_right, Nat.add_right_cancel_iff]
  constructor
  · intro h
    obtain ⟨part, tail, rfl, hpart, hfollows⟩ := laidOut_iff.1 h
    cases part with
    | nil =>
      rw [Gap.Fits] at hpart
      split at hpart
      · exact absurd hpart (Nat.not_succ_le_zero _)
      · exact absurd hpart.symm (Nat.succ_ne_zero _)
    | cons b part =>
      exact ⟨b, part ++ tail, rfl, laidOut_iff.2 ⟨part, tail, rfl, (hfits b part).1 hpart, hfollows⟩⟩
  · rintro ⟨b, tail, rfl, h⟩
    obtain ⟨part, tail, rfl, hpart, hfollows⟩ := laidOut_iff.1 h
    exact laidOut_iff.2 ⟨b :: part, tail, rfl, (hfits b part).2 hpart, hfollows⟩

/-- A text matches a pattern exactly if it is laid out along its gaps. -/
theorem matches_iff_laidOut {pattern : List (Token α)} : Matches encode pattern text ↔
    LaidOut encode List.length (gaps pattern).1 (gaps pattern).2 text := by
  induction pattern generalizing text with
  | nil => simp [Matches, gaps, LaidOut, Gap.Fits]
  | cons token pattern ih =>
    cases token with
    | many => simp only [Matches, gaps, laidOut_many, ih]
    | one => simp only [Matches, gaps, laidOut_one, ih]
    | letter a =>
      simp only [Matches, gaps, LaidOut, ih]
      constructor
      · rintro ⟨rest, rfl, h⟩
        exact ⟨[], rest, rfl, rfl, h⟩
      · rintro ⟨part, rest, rfl, hpart, h⟩
        obtain rfl := List.eq_nil_of_length_eq_zero hpart
        exact ⟨rest, rfl, h⟩

end Matching

/-! ## Codes of letters -/

section Codes

variable {α : Type u} {β : Type v}

/-- The code of a letter stands in a code only where the letter stands in the text. -/
def Synchronizes (encode : α → List β) : Prop :=
  ∀ (letters : List α) (a : α) (front tail : List β),
    letters.flatMap encode = front ++ (encode a ++ tail) →
    ∃ before after, letters = before ++ a :: after ∧ before.flatMap encode = front ∧
      after.flatMap encode = tail

/-- The length of a code. -/
def codeLength (encode : α → List β) (letters : List α) : Nat := (letters.flatMap encode).length

/-- A letter by itself. -/
def single (a : α) : List α := [a]

variable {encode : α → List β} {gap : Gap} {rest : List (α × Gap)} {letters : List α}

theorem laidOut_encode (hsync : Synchronizes encode) :
    LaidOut encode List.length gap rest (letters.flatMap encode) ↔
      LaidOut single (codeLength encode) gap rest letters := by
  induction rest generalizing gap letters with
  | nil => rfl
  | cons head rest ih =>
    obtain ⟨a, next⟩ := head
    constructor
    · rintro ⟨part, tail, htext, hfits, hlaid⟩
      obtain ⟨before, after, rfl, rfl, rfl⟩ := hsync letters a part tail htext
      exact ⟨before, after, rfl, hfits, ih.1 hlaid⟩
    · rintro ⟨part, tail, rfl, hfits, hlaid⟩
      refine ⟨part.flatMap encode, tail.flatMap encode, ?_, hfits, ih.2 hlaid⟩
      rw [List.flatMap_append, List.flatMap_append, single, List.flatMap_singleton]

/-- Sizes that agree on the parts of a text lay it out alike. -/
theorem laidOut_congr {size size' : List α → Nat}
    (hsize : ∀ part, part.IsInfix letters → size part = size' part) :
    LaidOut single size gap rest letters ↔ LaidOut single size' gap rest letters := by
  induction rest generalizing gap letters with
  | nil => simp only [LaidOut, Gap.Fits, hsize letters (List.infix_refl letters)]
  | cons head rest ih =>
    obtain ⟨a, next⟩ := head
    simp only [LaidOut]
    refine exists_congr fun part => exists_congr fun tail => and_congr_right fun htext => ?_
    have hpart : part.IsInfix letters := by
      rw [htext]
      exact (List.prefix_append _ _).isInfix
    have htail : tail.IsInfix letters := by
      rw [htext, ← List.append_assoc]
      exact (List.suffix_append _ _).isInfix
    rw [ih fun other h => hsize other (h.trans htail)]
    simp only [Gap.Fits, hsize part hpart]

/-- Sizes that agree about the gaps of a pattern lay every text out alike. -/
theorem laidOut_congr_gaps {size size' : List α → Nat}
    (hgap : ∀ part, gap.Fits size part ↔ gap.Fits size' part)
    (hgaps : ∀ piece ∈ rest, ∀ part, piece.2.Fits size part ↔ piece.2.Fits size' part) :
    LaidOut single size gap rest letters ↔ LaidOut single size' gap rest letters := by
  induction rest generalizing gap letters with
  | nil => exact hgap letters
  | cons head rest ih =>
    obtain ⟨a, next⟩ := head
    have hnext := hgaps (a, next) List.mem_cons_self
    have hrest := fun piece hpiece => hgaps piece (List.mem_cons_of_mem _ hpiece)
    simp only [LaidOut, hgap]
    exact exists_congr fun part => exists_congr fun tail => and_congr_right fun _ =>
      and_congr_right fun _ => ih hnext hrest

theorem codeLength_replicate (n : Nat) (e : α) :
    codeLength encode (List.replicate n e) = n * (encode e).length := by
  simp [codeLength]

theorem length_le_codeLength (hpos : ∀ a, 0 < (encode a).length) (letters : List α) :
    letters.length ≤ codeLength encode letters := by
  induction letters with
  | nil => exact Nat.le_refl _
  | cons a letters ih =>
    have hhead := hpos a
    simp only [codeLength, List.flatMap_cons, List.length_append, List.length_cons] at ih ⊢
    omega

/-- A text is as long as its code exactly if all its letters are one symbol. -/
theorem codeLength_eq_iff (hpos : ∀ a, 0 < (encode a).length) :
    codeLength encode letters = letters.length ↔ ∀ a ∈ letters, (encode a).length = 1 := by
  induction letters with
  | nil => simp [codeLength]
  | cons a letters ih =>
    have hhead := hpos a
    have hle := length_le_codeLength hpos letters
    rw [List.forall_mem_cons, ← ih]
    simp only [codeLength, List.flatMap_cons, List.length_append, List.length_cons] at hle ⊢
    omega

/-- Whether a part fits into the gap does not depend on what is counted. -/
def Gap.Agrees (gap : Gap) : Prop := gap.least = 0 ∨ gap.unbounded = true ∧ gap.least = 1

instance (gap : Gap) : Decidable gap.Agrees := inferInstanceAs (Decidable (_ ∨ _))

theorem Gap.Agrees.fits_iff (h : gap.Agrees) (hpos : ∀ a, 0 < (encode a).length) (part : List α) :
    gap.Fits (codeLength encode) part ↔ gap.Fits List.length part := by
  have hzero : codeLength encode part = 0 ↔ part.length = 0 := by
    constructor
    · intro hcode
      exact Nat.le_zero.1 (hcode ▸ length_le_codeLength hpos part)
    · intro hlength
      rw [List.eq_nil_of_length_eq_zero hlength]
      rfl
  simp only [Gap.Fits]
  rcases h with hleast | ⟨hunbounded, hleast⟩
  · rw [hleast]
    split
    · exact iff_of_true (Nat.zero_le _) (Nat.zero_le _)
    · exact hzero
  · rw [hleast, if_pos hunbounded, if_pos hunbounded, Nat.succ_le_iff, Nat.succ_le_iff,
      Nat.pos_iff_ne_zero, Nat.pos_iff_ne_zero]
    exact not_congr hzero

end Codes

/-! ## Texts that tell gaps apart -/

section Fillings

variable {α : Type u} [DecidableEq α] {size : List α → Nat} {gap g : Gap}
  {rest before after : List (α × Gap)} {letters : List α} {e a : α} {count : Gap → Nat}

/-- The letters of a pattern, with some copies of one letter in each gap. -/
def fill (e : α) (count : Gap → Nat) : Gap → List (α × Gap) → List α
  | gap, [] => List.replicate (count gap) e
  | gap, (a, next) :: rest => List.replicate (count gap) e ++ a :: fill e count next rest

/-- The number of letters that are not `e`. -/
def others (e : α) (letters : List α) : Nat := letters.countP fun a => a ≠ e

theorem others_append (e : α) (front tail : List α) :
    others e (front ++ tail) = others e front + others e tail := List.countP_append

theorem others_cons_of_ne (h : a ≠ e) (letters : List α) :
    others e (a :: letters) = others e letters + 1 := by
  rw [others, List.countP_cons_of_pos (by simpa using h), others]

theorem others_replicate (e : α) (n : Nat) : others e (List.replicate n e) = 0 := by
  simp [others, List.countP_replicate]

omit [DecidableEq α] in
theorem laidOut_fill (h : ∀ g ∈ gap :: rest.map Prod.snd, g.Fits size (List.replicate (count g) e)) :
    LaidOut single size gap rest (fill e count gap rest) := by
  induction rest generalizing gap with
  | nil => exact h gap List.mem_cons_self
  | cons head rest ih =>
    obtain ⟨a, next⟩ := head
    exact ⟨_, _, rfl, h gap List.mem_cons_self, ih fun g hg => h g (List.mem_cons_of_mem _ hg)⟩

theorem others_fill : others e (fill e count gap rest) = others e (rest.map Prod.fst) := by
  induction rest generalizing gap with
  | nil => exact others_replicate e _
  | cons head rest ih =>
    obtain ⟨a, next⟩ := head
    rw [fill, others_append, others_replicate, Nat.zero_add, List.map_cons]
    simp only [others, List.countP_cons] at ih ⊢
    rw [ih]

/-- Every text of a pattern has the letters of the pattern. -/
theorem others_le (h : LaidOut single size gap rest letters) :
    others e (rest.map Prod.fst) ≤ others e letters := by
  induction rest generalizing gap letters with
  | nil => exact Nat.zero_le _
  | cons head rest ih =>
    obtain ⟨a, next⟩ := head
    obtain ⟨part, tail, rfl, -, hlaid⟩ := h
    have htail := ih hlaid
    rw [others_append]
    simp only [single, List.singleton_append, List.map_cons, others, List.countP_cons] at htail ⊢
    omega

omit [DecidableEq α] in
theorem laidOut_append : LaidOut single size gap (before ++ (a, g) :: after) letters ↔
    ∃ front tail, letters = front ++ a :: tail ∧ LaidOut single size gap before front ∧
      LaidOut single size g after tail := by
  induction before generalizing gap letters with
  | nil => exact Iff.rfl
  | cons head before ih =>
    obtain ⟨b, next⟩ := head
    simp only [List.cons_append, LaidOut, ih]
    constructor
    · rintro ⟨part, _, rfl, hfits, front, tail, rfl, hfront, htail⟩
      exact ⟨part ++ (single b ++ front), tail, by simp, ⟨part, front, rfl, hfits, hfront⟩, htail⟩
    · rintro ⟨_, tail, rfl, ⟨part, front, rfl, hfits, hfront⟩, htail⟩
      exact ⟨part, front ++ a :: tail, by simp, hfits, front, tail, rfl, hfront, htail⟩

omit [DecidableEq α] in
theorem fill_append : fill e count gap (before ++ (a, g) :: after) =
    fill e count gap before ++ a :: fill e count g after := by
  induction before generalizing gap with
  | nil => rfl
  | cons head before ih =>
    obtain ⟨b, next⟩ := head
    simp only [List.cons_append, fill, ih, List.append_assoc]

/-- A letter that is not `e` is told by how many of these are before it. -/
theorem append_cons_inj {front front' tail tail' : List α} (ha : a ≠ e)
    (hcount : others e front = others e front')
    (heq : front ++ a :: tail = front' ++ a :: tail') : front = front' ∧ tail = tail' := by
  rcases List.append_eq_append_iff.1 heq with ⟨between, rfl, hbetween⟩ | ⟨between, rfl, hbetween⟩
  · cases between with
    | nil =>
      rw [List.nil_append] at hbetween
      exact ⟨(List.append_nil _).symm, (List.cons.inj hbetween).2⟩
    | cons b between =>
      obtain ⟨rfl, -⟩ := List.cons.inj hbetween
      rw [others_append, others_cons_of_ne ha] at hcount
      omega
  · cases between with
    | nil =>
      rw [List.nil_append] at hbetween
      exact ⟨List.append_nil _, (List.cons.inj hbetween).2.symm⟩
    | cons b between =>
      obtain ⟨rfl, -⟩ := List.cons.inj hbetween
      rw [others_append, others_cons_of_ne ha] at hcount
      omega

/-- The copies of `e` before a letter that is another one. -/
theorem takeWhile_eq {part tail : List α} (hpart : others e part = 0)
    (htail : ∀ b ∈ tail.head?, b ≠ e) : (part ++ tail).takeWhile (fun b => b = e) = part := by
  have hall : ∀ b ∈ part, decide (b = e) = true := by
    intro b hb
    have hnone := (List.countP_eq_zero.1 hpart) b hb
    simpa using hnone
  rw [List.takeWhile_append_of_pos hall]
  cases tail with
  | nil => rw [List.takeWhile_nil, List.append_nil]
  | cons b tail =>
    have hb : b ≠ e := htail b rfl
    rw [List.takeWhile_cons_of_neg (by simpa using hb), List.append_nil]

/-- The first gap takes all copies of `e` that are in front. -/
theorem fits_of_laidOut_fill (hhead : ∀ piece ∈ rest.head?, piece.1 ≠ e)
    (h : LaidOut single size gap rest (fill e count gap rest)) :
    gap.Fits size (List.replicate (count gap) e) := by
  cases rest with
  | nil => exact h
  | cons head rest =>
    obtain ⟨a, next⟩ := head
    have ha : a ≠ e := hhead (a, next) rfl
    obtain ⟨part, tail, htext, hfits, hlaid⟩ := h
    have htext : List.replicate (count gap) e ++ a :: fill e count next rest = part ++ a :: tail :=
      htext
    -- all other letters are those of the pattern
    have hnone : others e part = 0 := by
      have hcount := congrArg (others e) htext
      have htail : others e (rest.map Prod.fst) ≤ others e tail := others_le hlaid
      rw [others_append, others_append, others_replicate, others_cons_of_ne ha,
        others_cons_of_ne ha, others_fill] at hcount
      omega
    have hstops : ∀ (letters : List α), ∀ b ∈ (a :: letters).head?, b ≠ e := by
      intro letters b hb
      rwa [← Option.some.inj hb]
    have hsame := congrArg (List.takeWhile fun b => b = e) htext
    rw [takeWhile_eq (others_replicate e _) (hstops _), takeWhile_eq hnone (hstops _)] at hsame
    rwa [hsame]

/-- For every gap of a pattern there is a letter whose copies stay in the gap, however a text that
is filled with them is laid out. -/
theorem exists_telling (long : α → Prop) (hlong : ∀ a b : α, ∃ e, e ≠ a ∧ e ≠ b ∧ long e)
    [Nonempty α] (hg : g ∈ gap :: rest.map Prod.snd) : ∃ e, long e ∧
      ∀ (count : Gap → Nat) (size : List α → Nat),
        LaidOut single size gap rest (fill e count gap rest) →
          g.Fits size (List.replicate (count g) e) := by
  -- a letter next to the gap on its right
  have hright (pieces : List (α × Gap)) : ∃ b, ∀ e, e ≠ b → ∀ piece ∈ pieces.head?, piece.1 ≠ e := by
    cases pieces with
    | nil => exact ⟨Classical.arbitrary α, fun e _ piece hpiece => by cases hpiece⟩
    | cons head pieces =>
      refine ⟨head.1, fun e he piece hpiece => ?_⟩
      rw [← Option.some.inj hpiece]
      exact he.symm
  rcases List.mem_cons.1 hg with rfl | hmem
  · obtain ⟨b, hb⟩ := hright rest
    obtain ⟨e, he, -, hcode⟩ := hlong b b
    exact ⟨e, hcode, fun count size h => fits_of_laidOut_fill (hb e he) h⟩
  · obtain ⟨⟨a, _⟩, hpiece, rfl⟩ := List.mem_map.1 hmem
    obtain ⟨before, after, rfl⟩ := List.append_of_mem hpiece
    obtain ⟨b, hb⟩ := hright after
    obtain ⟨e, hea, heb, hcode⟩ := hlong a b
    refine ⟨e, hcode, fun count size h => ?_⟩
    obtain ⟨front, tail, htext, hfront, htail⟩ := laidOut_append.1 h
    have hcounts := congrArg (others e) htext
    have hfrontLe : others e (before.map Prod.fst) ≤ others e front := others_le hfront
    have htailLe : others e (after.map Prod.fst) ≤ others e tail := others_le htail
    rw [fill_append] at htext hcounts
    rw [others_append, others_append, others_cons_of_ne hea.symm, others_cons_of_ne hea.symm,
      others_fill, others_fill] at hcounts
    have hfrontEq : others e (fill e count gap before) = others e front := by
      rw [others_fill]
      omega
    obtain ⟨-, rfl⟩ := append_cons_inj hea.symm hfrontEq htext
    exact fits_of_laidOut_fill (hb e heb) htail

end Fillings

/-! ## Symbols and letters -/

section Agreement

variable {α : Type u} {β : Type v} [DecidableEq α] [Nonempty α] {encode : α → List β}

/-- All gaps of a pattern. -/
def allGaps (pattern : List (Token α)) : List Gap :=
  (gaps pattern).1 :: (gaps pattern).2.map Prod.snd

omit [DecidableEq α] [Nonempty α] in
theorem matches_encode_iff (hsync : Synchronizes encode) {pattern : List (Token α)}
    {letters : List α} : Matches encode pattern (letters.flatMap encode) ↔
      LaidOut single (codeLength encode) (gaps pattern).1 (gaps pattern).2 letters := by
  rw [matches_iff_laidOut, laidOut_encode hsync]

/-- A pattern matches the same texts by symbols as by letters exactly if all its gaps are nothing,
any number of symbols, or at least one symbol. -/
theorem patterns_agree_iff (hsync : Synchronizes encode) (hpos : ∀ a, 0 < (encode a).length)
    (hlong : ∀ a b : α, ∃ e, e ≠ a ∧ e ≠ b ∧ 2 ≤ (encode e).length) (pattern : List (Token α)) :
    (∀ letters : List α,
      Matches encode pattern (letters.flatMap encode) ↔ Matches single pattern letters) ↔
      ∀ gap ∈ allGaps pattern, gap.Agrees := by
  simp only [matches_encode_iff hsync, matches_iff_laidOut]
  constructor
  · intro h
    by_contra hbad
    by_cases hexact : ∃ gap ∈ allGaps pattern, gap.unbounded = false ∧ 0 < gap.least
    · -- as many long letters as there is room for symbols
      obtain ⟨gap, hgap, hbounded, hleast⟩ := hexact
      obtain ⟨e, he, htells⟩ := exists_telling (fun e => 2 ≤ (encode e).length) hlong hgap
      have hfill := htells Gap.least (codeLength encode) ((h _).2 (laidOut_fill fun g _ => by
        simp [Gap.Fits]))
      simp only [Gap.Fits, hbounded, Bool.false_eq_true, if_false, codeLength_replicate] at hfill
      have htwice : gap.least * 2 ≤ gap.least * (encode e).length := Nat.mul_le_mul_left _ he
      omega
    · -- one long letter less than there is room for letters
      push Not at hbad hexact
      obtain ⟨gap, hgap, hgapBad⟩ := hbad
      have hunbounded : gap.unbounded = true ∧ 2 ≤ gap.least := by
        rw [Gap.Agrees] at hgapBad
        by_cases hbounded : gap.unbounded = true
        · refine ⟨hbounded, ?_⟩
          have hne : gap.least ≠ 0 ∧ gap.least ≠ 1 := by
            constructor
            · exact fun hzero => hgapBad (Or.inl hzero)
            · exact fun hone => hgapBad (Or.inr ⟨hbounded, hone⟩)
          omega
        · have hzero := hexact gap hgap (Bool.eq_false_of_not_eq_true hbounded)
          exact absurd (Or.inl (Nat.le_zero.1 hzero)) hgapBad
      obtain ⟨e, he, htells⟩ := exists_telling (fun e => 2 ≤ (encode e).length) hlong hgap
      have hcode : ∀ g ∈ allGaps pattern, g.Fits (codeLength encode)
          (List.replicate (if 2 ≤ g.least then g.least - 1 else g.least) e) := by
        intro g hg
        simp only [Gap.Fits, codeLength_replicate]
        split
        · split
          · have htwice : (g.least - 1) * 2 ≤ (g.least - 1) * (encode e).length :=
              Nat.mul_le_mul_left _ he
            omega
          · exact Nat.le_mul_of_pos_right _ (hpos e)
        · rename_i hbounded
          have hzero : g.least = 0 :=
            Nat.le_zero.1 (hexact g hg (Bool.eq_false_of_not_eq_true hbounded))
          simp [hzero]
      have hfill := htells _ List.length ((h _).1 (laidOut_fill hcode))
      simp only [Gap.Fits, hunbounded.1, if_true, if_pos hunbounded.2, List.length_replicate] at hfill
      omega
  · intro h letters
    refine laidOut_congr_gaps (fun part => ?_) fun piece hpiece part => ?_
    · exact (h _ List.mem_cons_self).fits_iff hpos part
    · exact (h _ (List.mem_cons_of_mem _ (List.mem_map_of_mem hpiece))).fits_iff hpos part

omit [DecidableEq α] [Nonempty α] in
theorem matches_ones {text : List β} (n : Nat) :
    Matches encode (List.replicate n .one) text ↔ text.length = n := by
  induction n generalizing text with
  | zero => simp [Matches]
  | succ n ih =>
    simp only [List.replicate_succ, Matches, ih]
    constructor
    · rintro ⟨b, rest, rfl, rfl⟩
      rfl
    · intro h
      cases text with
      | nil => cases h
      | cons b text => exact ⟨b, text, rfl, Nat.succ.inj h⟩

omit [DecidableEq α] [Nonempty α] in
/-- As many wildcards for one as a text has letters. -/
theorem ones_agree_iff (hpos : ∀ a, 0 < (encode a).length) (letters : List α) :
    (Matches encode (List.replicate letters.length .one) (letters.flatMap encode) ↔
      Matches single (List.replicate letters.length .one) letters) ↔
      ∀ a ∈ letters, (encode a).length = 1 := by
  rw [← codeLength_eq_iff hpos, matches_ones, matches_ones]
  exact iff_true_right rfl

omit [DecidableEq α] [Nonempty α] in
/-- A text whose letters are one symbol each matches the same patterns by symbols as by letters. -/
theorem matches_agree_of_short (hsync : Synchronizes encode) (hpos : ∀ a, 0 < (encode a).length)
    {letters : List α} (h : ∀ a ∈ letters, (encode a).length = 1) (pattern : List (Token α)) :
    Matches encode pattern (letters.flatMap encode) ↔ Matches single pattern letters := by
  rw [matches_encode_iff hsync, matches_iff_laidOut]
  refine laidOut_congr fun part hpart => ?_
  exact (codeLength_eq_iff hpos).2 fun a ha => h a (hpart.subset ha)

end Agreement

end Edda.Support.Wildcards
