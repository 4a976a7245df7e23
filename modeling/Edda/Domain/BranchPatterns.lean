import Edda.Domain.BranchProtection
import Edda.Support.Utf8
import Edda.Support.Wildcards

/-!
# Branch patterns by character

The matcher of branch patterns goes through bytes, so that `?` stands for one byte. The documentation
and the tests say that it stands for one character.

`match_by_character_iff` says for which patterns, and for which names, it makes no difference.
-/

set_option autoImplicit false

namespace Edda.Domain

open Edda.Support.RustText Edda.Support.Wildcards

def patternToken (c : Char) : Token Char :=
  if c = '*' then .many else if c = '?' then .one else .letter c

def patternTokens (pattern : String) : List (Token Char) := pattern.toList.map patternToken

/-- The language of a pattern: `*` is any sequence of characters, `?` one character, and every other
character itself. -/
def InLanguage (pattern name : String) : Prop := Matches single (patternTokens pattern) name.toList

/-- The name is matched exactly if it belongs to the language of the pattern. -/
def MatchesByCharacter (pattern name : String) : Prop :=
  branchPatternMatches pattern name = true ↔ InLanguage pattern name

/-! ## Characters and their bytes -/

section Characters

theorem utf8_synchronizes : Synchronizes String.utf8EncodeChar := fun _ _ _ _ h =>
  flatMap_utf8_eq_append_encode h

theorem utf8EncodeChar_pos (c : Char) : 0 < (String.utf8EncodeChar c).length :=
  List.length_pos_of_ne_nil String.utf8EncodeChar_ne_nil

/-- There is always another character that is not ASCII. -/
theorem exists_long_char (a b : Char) :
    ∃ e, e ≠ a ∧ e ≠ b ∧ 2 ≤ (String.utf8EncodeChar e).length := by
  by_cases hfirst : 'é' ≠ a ∧ 'é' ≠ b
  · exact ⟨'é', hfirst.1, hfirst.2, by decide⟩
  by_cases hsecond : 'ü' ≠ a ∧ 'ü' ≠ b
  · exact ⟨'ü', hsecond.1, hsecond.2, by decide⟩
  refine ⟨'ö', ?_, ?_, by decide⟩
  · rintro rfl
    rw [not_and_not_right] at hfirst hsecond
    exact absurd ((hfirst (by decide)).trans (hsecond (by decide)).symm) (by decide)
  · rintro rfl
    have ha : 'é' = a := by
      by_contra hne
      exact hfirst ⟨hne, by decide⟩
    have ha' : 'ü' = a := by
      by_contra hne
      exact hsecond ⟨hne, by decide⟩
    exact absurd (ha.trans ha'.symm) (by decide)

theorem length_utf8EncodeChar_eq_one_iff (c : Char) :
    (String.utf8EncodeChar c).length = 1 ↔ c.toNat < 0x80 := by
  rw [String.length_utf8EncodeChar, Char.utf8Size_eq_one_iff]
  exact Nat.lt_succ_iff.symm

/-- The bytes of a character that is no wildcard are none. -/
theorem wildcards_notMem {c : Char} (hstar : c ≠ '*') (hquestion : c ≠ '?') :
    star ∉ String.utf8EncodeChar c ∧ question ∉ String.utf8EncodeChar c := by
  constructor
  · intro hmem
    exact hstar (eq_of_mem_utf8EncodeChar (d := '*') (by decide) hmem)
  · intro hmem
    exact hquestion (eq_of_mem_utf8EncodeChar (d := '?') (by decide) hmem)

/-- The matcher goes through the tokens of the pattern and the bytes of the name. -/
theorem globMatch_tokens (pattern : List Char) (text : Bytes) :
    globMatch (pattern.flatMap String.utf8EncodeChar) text = true ↔
      Matches String.utf8EncodeChar (pattern.map patternToken) text := by
  induction pattern generalizing text with
  | nil => simp [globMatch, Matches]
  | cons c pattern ih =>
    rw [List.flatMap_cons, List.map_cons]
    by_cases hstar : c = '*'
    · subst hstar
      have hcode : String.utf8EncodeChar '*' = [star] := by decide
      rw [hcode, List.singleton_append]
      simp only [globMatch, if_true, starMatch_iff, ih]
      rfl
    by_cases hquestion : c = '?'
    · subst hquestion
      have hcode : String.utf8EncodeChar '?' = [question] := by decide
      have htoken : patternToken '?' = .one := by decide
      rw [hcode, List.singleton_append, htoken]
      cases text with
      | nil => simp [globMatch, Matches, question, star]
      | cons byte text =>
        have hne : question ≠ star := by decide
        simp only [globMatch, if_neg hne, decide_true, Bool.true_or, Bool.true_and, ih, Matches]
        constructor
        · exact fun h => ⟨byte, text, rfl, h⟩
        · rintro ⟨b, rest, heq, h⟩
          rwa [(List.cons.inj heq).2]
    · obtain ⟨hnoStar, hnoQuestion⟩ := wildcards_notMem hstar hquestion
      have htoken : patternToken c = .letter c := by
        rw [patternToken, if_neg hstar, if_neg hquestion]
      rw [globMatch_literal_append hnoStar hnoQuestion, htoken]
      simp only [Matches, ih]

theorem branchPatternMatches_iff (pattern name : String) :
    branchPatternMatches pattern name = true ↔ Matches String.utf8EncodeChar (patternTokens pattern)
      (name.toList.flatMap String.utf8EncodeChar) := globMatch_tokens _ _

end Characters

/-! ## Patterns and names -/

/-- A pattern matches all names by character exactly if each run of wildcards between two of its
other characters has no `?`, or one `?` and a `*`; and a name is matched by character by all patterns
exactly if it is ASCII. A pattern matches one name by character exactly if the name can be laid out
along the wildcards by its bytes and by its characters, or by neither. -/
theorem match_by_character_iff (pattern name : String) :
    ((∀ name, MatchesByCharacter pattern name) ↔
      ∀ gap ∈ allGaps (patternTokens pattern), gap.Agrees) ∧
    ((∀ pattern, MatchesByCharacter pattern name) ↔ ∀ c ∈ name.toList, c.toNat < 0x80) ∧
    (MatchesByCharacter pattern name ↔
      (LaidOut single (codeLength String.utf8EncodeChar) (gaps (patternTokens pattern)).1
          (gaps (patternTokens pattern)).2 name.toList ↔
        LaidOut single List.length (gaps (patternTokens pattern)).1
          (gaps (patternTokens pattern)).2 name.toList)) := by
  have hmatches (pattern name : String) : MatchesByCharacter pattern name ↔
      (Matches String.utf8EncodeChar (patternTokens pattern)
          (name.toList.flatMap String.utf8EncodeChar) ↔
        Matches single (patternTokens pattern) name.toList) := by
    rw [MatchesByCharacter, branchPatternMatches_iff, InLanguage]
  refine ⟨?_, ?_, ?_⟩
  · rw [← patterns_agree_iff utf8_synchronizes utf8EncodeChar_pos exists_long_char]
    constructor
    · intro h letters
      have hname := (hmatches pattern (String.ofList letters)).1 (h _)
      rwa [String.toList_ofList] at hname
    · exact fun h name => (hmatches pattern name).2 (h _)
  · constructor
    · intro h c hc
      -- as many `?` as the name has characters
      have hones := (hmatches (String.ofList (List.replicate name.toList.length '?')) name).1 (h _)
      have htokens : patternTokens (String.ofList (List.replicate name.toList.length '?')) =
          List.replicate name.toList.length .one := by
        rw [patternTokens, String.toList_ofList, List.map_replicate]
        rfl
      rw [htokens, ones_agree_iff utf8EncodeChar_pos] at hones
      exact (length_utf8EncodeChar_eq_one_iff c).1 (hones c hc)
    · intro h pattern
      refine (hmatches pattern name).2 ?_
      exact matches_agree_of_short utf8_synchronizes utf8EncodeChar_pos
        (fun c hc => (length_utf8EncodeChar_eq_one_iff c).2 (h c hc)) _
  · rw [hmatches, matches_encode_iff utf8_synchronizes, matches_iff_laidOut]

/-- `?` does not match a character of two bytes, and `??` does. -/
theorem question_mark_is_one_byte :
    ¬ MatchesByCharacter "v?" "vé" ∧ ¬ MatchesByCharacter "v??" "vé" := by
  constructor
  · intro h
    have hmatch : branchPatternMatches "v?" "vé" = true :=
      h.2 ⟨['é'], by decide +kernel, 'é', [], rfl, rfl⟩
    revert hmatch
    decide +kernel
  · intro h
    -- three tokens for two characters
    have hlaid : Matches single [.letter 'v', .one, .one] ['v', 'é'] := h.1 (by decide +kernel)
    obtain ⟨_, hfirst, _, _, rfl, _, _, rfl, _⟩ := hlaid
    simp [single] at hfirst

end Edda.Domain
