import Edda.Support.RustText

/-!
# Branch protection rules

A rule protects the branches its glob pattern matches: `*` stands for any run of bytes, path
separators included, `?` for one byte, and every other byte for itself. The matcher is the
backtracking one of the source; `globMatch_iff` says which texts it accepts.
-/

set_option autoImplicit false

namespace Edda.Domain

open Edda.Support.RustText

abbrev UserId := BitVec 128
abbrev TeamId := BitVec 128
abbrev RepositoryId := BitVec 128

instance : LawfulBEq UserId := instLawfulBEq

instance : LawfulBEq (TeamId × UserId) := Prod.instLawfulBEq

/-- Who a grant is made to. -/
inductive AccessSubject where
  | user (id : UserId)
  | team (id : TeamId)
  deriving DecidableEq, Repr

structure BranchProtectionRule where
  pattern : String
  requiredApprovals : Int
  requireLinearHistory : Bool
  requireSignedCommits : Bool
  dismissStaleReviews : Bool
  requireUpToDate : Bool
  requiredStatusChecks : List String
  pushAllowlist : List AccessSubject
  deriving DecidableEq, Repr

def BranchProtectionRule.allowsDirectPush (rule : BranchProtectionRule)
    (subject : AccessSubject) : Bool :=
  decide (subject ∈ rule.pushAllowlist)

/-! ## Globs -/

/-- The byte `*`. -/
def star : UInt8 := 0x2A

/-- The byte `?`. -/
def question : UInt8 := 0x3F

/-- A star in front of a pattern: the rest of the pattern matches here, or after some bytes. -/
def starMatch (rest : Bytes → Bool) : Bytes → Bool
  | [] => rest []
  | byte :: text => rest (byte :: text) || starMatch rest text

def globMatch : Bytes → Bytes → Bool
  | [], text => text.isEmpty
  | p :: rest, text =>
    if p = star then starMatch (globMatch rest) text
    else match text with
      | [] => false
      | byte :: text => (p = question || p = byte) && globMatch rest text

def branchPatternMatches (pattern branch : String) : Bool := globMatch (utf8 pattern) (utf8 branch)

/-- The two ways a star matches, as the source tries them. -/
theorem globMatch_star (rest text : Bytes) :
    globMatch (star :: rest) text =
      (globMatch rest text || (!text.isEmpty && globMatch (star :: rest) text.tail)) := by
  cases text with
  | nil => simp [globMatch, starMatch]
  | cons byte text => simp [globMatch, starMatch]

/-- What a glob stands for. -/
inductive GlobMatches : Bytes → Bytes → Prop
  | done : GlobMatches [] []
  | run (rest skipped text : Bytes) : GlobMatches rest text →
      GlobMatches (star :: rest) (skipped ++ text)
  | any (rest text : Bytes) (byte : UInt8) : GlobMatches rest text →
      GlobMatches (question :: rest) (byte :: text)
  | literal (rest text : Bytes) (byte : UInt8) : byte ≠ star → byte ≠ question →
      GlobMatches rest text → GlobMatches (byte :: rest) (byte :: text)

theorem starMatch_iff (rest : Bytes → Bool) (text : Bytes) :
    starMatch rest text = true ↔ ∃ skipped tail, text = skipped ++ tail ∧ rest tail = true := by
  induction text with
  | nil =>
    constructor
    · intro h
      exact ⟨[], [], rfl, h⟩
    · rintro ⟨skipped, tail, heq, h⟩
      obtain ⟨-, rfl⟩ := List.append_eq_nil_iff.1 heq.symm
      exact h
  | cons byte text ih =>
    simp only [starMatch, Bool.or_eq_true, ih]
    constructor
    · rintro (h | ⟨skipped, tail, rfl, h⟩)
      · exact ⟨[], byte :: text, rfl, h⟩
      · exact ⟨byte :: skipped, tail, rfl, h⟩
    · rintro ⟨skipped, tail, heq, h⟩
      cases skipped with
      | nil =>
        obtain rfl : byte :: text = tail := heq
        exact Or.inl h
      | cons b skipped =>
        obtain ⟨rfl, htext⟩ := List.cons.inj heq
        exact Or.inr ⟨skipped, tail, htext, h⟩

/-- The matcher accepts exactly what the glob stands for. -/
theorem globMatch_iff (pattern text : Bytes) :
    globMatch pattern text = true ↔ GlobMatches pattern text := by
  induction pattern generalizing text with
  | nil =>
    constructor
    · intro h
      obtain rfl := List.isEmpty_iff.1 h
      exact .done
    · intro h
      cases h
      rfl
  | cons p rest ih =>
    by_cases hstar : p = star
    · subst hstar
      simp only [globMatch, if_true, starMatch_iff, ih]
      constructor
      · rintro ⟨skipped, tail, rfl, h⟩
        exact .run rest skipped tail h
      · intro h
        generalize hp : star :: rest = pattern at h
        cases h with
        | done => cases hp
        | run rest' skipped tail h =>
          obtain ⟨-, rfl⟩ := List.cons.inj hp
          exact ⟨skipped, tail, rfl, h⟩
        | any rest' tail byte h => exact absurd (List.cons.inj hp).1 (by decide)
        | literal rest' tail byte hbyte _ h => exact absurd (List.cons.inj hp).1.symm hbyte
    · cases text with
      | nil =>
        simp only [globMatch, if_neg hstar, Bool.false_eq_true, false_iff]
        intro h
        generalize hp : p :: rest = pattern at h
        generalize ht : ([] : Bytes) = whole at h
        cases h with
        | done => cases hp
        | run rest' skipped tail h => exact hstar (List.cons.inj hp).1
        | any rest' tail byte h => cases ht
        | literal rest' tail byte _ _ h => cases ht
      | cons byte text =>
        simp only [globMatch, if_neg hstar, Bool.and_eq_true, Bool.or_eq_true, decide_eq_true_eq,
          ih]
        constructor
        · rintro ⟨rfl | rfl, h⟩
          · exact .any rest text byte h
          · by_cases hq : p = question
            · subst hq
              exact .any rest text question h
            · exact .literal rest text p hstar hq h
        · intro h
          generalize hp : p :: rest = pattern at h
          generalize ht : byte :: text = whole at h
          cases h with
          | done => cases hp
          | run rest' skipped tail h => exact absurd (List.cons.inj hp).1 hstar
          | any rest' tail byte' h =>
            obtain ⟨rfl, rfl⟩ := List.cons.inj hp
            obtain ⟨rfl, rfl⟩ := List.cons.inj ht
            exact ⟨Or.inl rfl, h⟩
          | literal rest' tail byte' _ _ h =>
            obtain ⟨rfl, rfl⟩ := List.cons.inj hp
            obtain ⟨rfl, rfl⟩ := List.cons.inj ht
            exact ⟨Or.inr rfl, h⟩

/-- A pattern without wildcards matches only itself. -/
theorem globMatch_of_literal {pattern : Bytes} (hstar : star ∉ pattern)
    (hquestion : question ∉ pattern) (text : Bytes) :
    globMatch pattern text = true ↔ text = pattern := by
  induction pattern generalizing text with
  | nil => simp [globMatch]
  | cons p rest ih =>
    simp only [List.mem_cons, not_or] at hstar hquestion
    have hp : p ≠ star := fun h => hstar.1 h.symm
    have hq : p ≠ question := fun h => hquestion.1 h.symm
    cases text with
    | nil => simp [globMatch, hp]
    | cons byte text =>
      simp only [globMatch, if_neg hp, hq, decide_false, Bool.false_or, Bool.and_eq_true,
        decide_eq_true_eq, ih hstar.2 hquestion.2, List.cons.injEq]
      exact and_congr_left' eq_comm

/-- Bytes in front of a pattern that are no wildcards are matched by themselves. -/
theorem globMatch_literal_append {lead : Bytes} (hstar : star ∉ lead) (hquestion : question ∉ lead)
    (pattern text : Bytes) :
    globMatch (lead ++ pattern) text = true ↔
      ∃ rest, text = lead ++ rest ∧ globMatch pattern rest = true := by
  induction lead generalizing text with
  | nil => simp
  | cons p lead ih =>
    simp only [List.mem_cons, not_or] at hstar hquestion
    have hp : p ≠ star := fun h => hstar.1 h.symm
    have hq : p ≠ question := fun h => hquestion.1 h.symm
    cases text with
    | nil => simp [globMatch, hp]
    | cons byte text =>
      simp only [List.cons_append, globMatch, if_neg hp, hq, decide_false, Bool.false_or,
        Bool.and_eq_true, decide_eq_true_eq, ih hstar.2 hquestion.2, List.cons.injEq]
      constructor
      · rintro ⟨rfl, rest, rfl, hmatch⟩
        exact ⟨rest, ⟨rfl, rfl⟩, hmatch⟩
      · rintro ⟨rest, ⟨rfl, rfl⟩, hmatch⟩
        exact ⟨rfl, rest, rfl, hmatch⟩

/-- A pattern below a directory matches what lies below it and matches the pattern. -/
theorem branchPatternMatches_append {lead : String} (hstar : star ∉ utf8 lead)
    (hquestion : question ∉ utf8 lead) (pattern name : String) :
    branchPatternMatches (lead ++ pattern) name = true ↔
      ∃ branch, name = lead ++ branch ∧ branchPatternMatches pattern branch = true := by
  rw [branchPatternMatches, utf8_append, globMatch_literal_append hstar hquestion]
  constructor
  · rintro ⟨rest, htext, hmatch⟩
    obtain ⟨branch, rfl, rfl⟩ := utf8_eq_append htext
    exact ⟨branch, rfl, hmatch⟩
  · rintro ⟨branch, rfl, hmatch⟩
    exact ⟨utf8 branch, utf8_append lead branch, hmatch⟩

example : branchPatternMatches "release/*" "release/1.2/rc1" = true ∧
    branchPatternMatches "v?.?" "v1.22" = false := by decide

end Edda.Domain
