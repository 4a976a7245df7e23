import Edda.Domain.BranchPatterns
import Edda.Domain.CodeOwners
import Edda.Support.Segments

/-!
# Code owners by segments

A pattern of a `CODEOWNERS` file is documented to go through the segments of a path: a star stays
within a segment, and a segment of two stars stands for any number of whole segments (`Covers`). The
matcher goes through bytes, and the two stars skip any of them (`Reads`, `globSegmented_iff`).

`documented_iff` says for which files the owners are those of the last pattern that covers a path.
-/

set_option autoImplicit false

namespace Edda.Domain.OwnerPatterns

open Edda.Support Edda.Support.RustText

/-! ## What a pattern covers -/

@[irreducible]
def segmentsOf (text : String) : List Bytes := (utf8 text).splitOn slash

/-- A pattern without the slashes at its ends. -/
def patternCore (pattern : String) : String :=
  String.ofList (trimEndMatches '/' (trimStartMatches '/' pattern.toList))

def Anchored (pattern : String) : Prop := pattern.toList.head? = some '/'

def DirPattern (pattern : String) : Prop := pattern.toList.getLast? = some '/'

instance (pattern : String) : Decidable (DirPattern pattern) :=
  inferInstanceAs (Decidable (_ = _))

/-- The segment ends in two stars. -/
def EndsInStars (segment : Bytes) : Prop := [star, star] <:+ segment

instance (segment : Bytes) : Decidable (EndsInStars segment) :=
  inferInstanceAs (Decidable ([star, star] <:+ segment))

/-- What the segments of a pattern stand for: two stars are any number of segments, and at the end
of the pattern the rest of the path; every other segment is one, by its own wildcards. -/
def MatchesSegments : List Bytes → List Bytes → Prop
  | [], path => path = []
  | [last], path =>
    if EndsInStars last then ∃ first rest, path = first :: rest ∧ GlobMatches last first
    else ∃ first, path = [first] ∧ GlobMatches last first
  | segment :: next :: segments, path =>
    if segment = [star, star] then
      ∃ skipped rest, path = skipped ++ rest ∧ MatchesSegments (next :: segments) rest
    else ∃ first rest, path = first :: rest ∧ GlobMatches segment first ∧
      MatchesSegments (next :: segments) rest

/-- A pattern covers the path that it names, from the root if it is anchored and otherwise from any
segment; the pattern of a directory covers what is below, too. -/
def Covers (pattern path : String) : Prop :=
  ∃ above named below, segmentsOf path = above ++ (named ++ below) ∧
    (Anchored pattern → above = []) ∧ (DirPattern pattern ∨ below = []) ∧
      MatchesSegments (segmentsOf (patternCore pattern)) named

/-- The owners are those of the last rule whose pattern covers the path. -/
def LastCovering (rules : List CodeOwnersRule) (path : String) (owners : List String) : Prop :=
  (∃ before rule after, rules = before ++ rule :: after ∧ Covers rule.pattern path ∧
      (∀ later ∈ after, ¬ Covers later.pattern path) ∧ owners = rule.owners) ∨
    (∀ rule ∈ rules, ¬ Covers rule.pattern path) ∧ owners = []

/-- The path is matched by the patterns that cover it, and owned as these say. -/
structure Documented (codeOwners : CodeOwners) (path : String) : Prop where
  matched : ∀ rule ∈ codeOwners.rules,
    patternMatches rule.pattern path = true ↔ Covers rule.pattern path
  owned : LastCovering codeOwners.rules path (codeOwners.ownersFor path)

/-! ## The patterns that are matched as documented -/

/-- Wildcards are in front, one of them a star. -/
def LeadsWithStar : Bytes → Prop
  | [] => False
  | p :: rest => p = star ∨ p = question ∧ LeadsWithStar rest

/-- Before the last one, two stars are a segment by themselves, and what is behind them begins with
a star that takes up the start of a segment. -/
def CrossesWhole : List Bytes → Prop
  | segment :: next :: segments =>
    (EndsInStars segment → segment = [star, star] ∧ LeadsWithStar next) ∧
      CrossesWhole (next :: segments)
  | _ => True

/-- A segment is empty that is not directly behind two stars. -/
def Hollow : Bool → List Bytes → Prop
  | _, [] => False
  | crossed, segment :: segments =>
    crossed = false ∧ segment = [] ∨ Hollow (decide (EndsInStars segment)) segments

/-- The pattern of a directory has no wildcards; another one crosses whole segments. Or the pattern
has an empty segment, so that it neither matches nor covers anything. -/
def Fits (pattern : String) : Prop :=
  if DirPattern pattern then
    [] ∈ segmentsOf (patternCore pattern) ∨
      '*' ∉ (patternCore pattern).toList ∧ '?' ∉ (patternCore pattern).toList
  else Hollow false (segmentsOf (patternCore pattern)) ∨
    CrossesWhole (segmentsOf (patternCore pattern))

/-! ## Wildcards within a segment -/

section Globs

variable {rest text : Bytes}

theorem globMatches_nil : GlobMatches [] text ↔ text = [] := by
  rw [← globMatch_iff, globMatch, List.isEmpty_iff]

theorem globMatches_star : GlobMatches (star :: rest) text ↔
    ∃ skipped tail, text = skipped ++ tail ∧ GlobMatches rest tail := by
  rw [← globMatch_iff]
  simp only [globMatch, if_true, starMatch_iff, globMatch_iff]

theorem globMatches_cons {p : UInt8} (hp : p ≠ star) : GlobMatches (p :: rest) text ↔
    ∃ byte tail, text = byte :: tail ∧ (p = question ∨ p = byte) ∧ GlobMatches rest tail := by
  rw [← globMatch_iff]
  cases text with
  | nil => simp [globMatch, hp]
  | cons byte text =>
    simp only [globMatch, if_neg hp, Bool.and_eq_true, Bool.or_eq_true, decide_eq_true_eq, globMatch_iff, List.cons.injEq]
    constructor
    · rintro ⟨hbyte, h⟩
      exact ⟨byte, text, ⟨rfl, rfl⟩, hbyte, h⟩
    · rintro ⟨_, _, ⟨rfl, rfl⟩, hbyte, h⟩
      exact ⟨hbyte, h⟩

theorem globMatches_append {front back : Bytes} : GlobMatches (front ++ back) text ↔
    ∃ first tail, text = first ++ tail ∧ GlobMatches front first ∧ GlobMatches back tail := by
  induction front generalizing text with
  | nil =>
    simp only [List.nil_append, globMatches_nil]
    constructor
    · exact fun h => ⟨[], text, rfl, rfl, h⟩
    · rintro ⟨_, tail, rfl, rfl, h⟩
      exact h
  | cons p front ih =>
    rw [List.cons_append]
    by_cases hp : p = star
    · subst hp
      simp only [globMatches_star, ih]
      constructor
      · rintro ⟨skipped, _, rfl, first, tail, rfl, hfront, hback⟩
        exact ⟨skipped ++ first, tail, by simp, ⟨skipped, first, rfl, hfront⟩, hback⟩
      · rintro ⟨_, tail, rfl, ⟨skipped, first, rfl, hfront⟩, hback⟩
        exact ⟨skipped, first ++ tail, by simp, first, tail, rfl, hfront, hback⟩
    · simp only [globMatches_cons hp, ih]
      constructor
      · rintro ⟨byte, _, rfl, hbyte, first, tail, rfl, hfront, hback⟩
        exact ⟨byte :: first, tail, rfl, ⟨byte, first, rfl, hbyte, hfront⟩, hback⟩
      · rintro ⟨_, tail, rfl, ⟨byte, first, rfl, hbyte, hfront⟩, hback⟩
        exact ⟨byte, first ++ tail, rfl, hbyte, first, tail, rfl, hfront, hback⟩

theorem globMatches_stars : GlobMatches [star, star] text := by
  rw [globMatches_star]
  refine ⟨text, [], (List.append_nil _).symm, ?_⟩
  rw [globMatches_star]
  exact ⟨[], [], rfl, .done⟩

/-- A star in front takes up what is in front. -/
theorem globMatches_absorb {segment : Bytes} (hlead : LeadsWithStar segment)
    (h : GlobMatches segment text) (front : Bytes) : GlobMatches segment (front ++ text) := by
  induction segment generalizing front text with
  | nil => exact hlead.elim
  | cons p segment ih =>
    by_cases hp : p = star
    · subst hp
      obtain ⟨skipped, tail, rfl, hmatch⟩ := globMatches_star.1 h
      exact globMatches_star.2 ⟨front ++ skipped, tail, by simp, hmatch⟩
    · obtain ⟨rfl, hrest⟩ := hlead.resolve_left hp
      obtain ⟨byte, tail, rfl, -, h⟩ := (globMatches_cons hp).1 h
      -- the wildcard takes the first byte, and its own one is left for those behind
      cases front with
      | nil => exact (globMatches_cons hp).2 ⟨byte, tail, rfl, Or.inl rfl, h⟩
      | cons b front =>
        refine (globMatches_cons hp).2 ⟨b, front ++ byte :: tail, rfl, Or.inl rfl, ?_⟩
        have habsorbed := ih hrest h (front ++ [byte])
        rwa [List.append_assoc] at habsorbed

end Globs

/-! ## How the matcher reads a pattern -/

/-- A segment that ends in two stars is matched at its start, then any bytes are skipped. -/
def Reads : List Bytes → Bytes → Prop
  | [], text => text = []
  | [last], text => MatchesSegments [last] (text.splitOn slash)
  | segment :: next :: segments, text =>
    if EndsInStars segment then
      ∃ lead first skipped rest, segment = lead ++ [star, star] ∧
        text = first ++ (skipped ++ rest) ∧ slash ∉ first ∧ GlobMatches lead first ∧
          Reads (next :: segments) rest
    else ∃ first rest, text = first ++ slash :: rest ∧ slash ∉ first ∧ GlobMatches segment first ∧
      Reads (next :: segments) rest

section Reading

variable {text rest : Bytes}

theorem segmentMatch_iff (rest : Bytes → Bool) : segmentMatch rest text = true ↔
    ∃ skipped tail, text = skipped ++ tail ∧ slash ∉ skipped ∧ rest tail = true := by
  induction text with
  | nil =>
    constructor
    · exact fun h => ⟨[], [], rfl, List.not_mem_nil, h⟩
    · rintro ⟨skipped, tail, heq, -, h⟩
      obtain ⟨-, rfl⟩ := List.append_eq_nil_iff.1 heq.symm
      exact h
  | cons byte text ih =>
    simp only [segmentMatch, Bool.or_eq_true, Bool.and_eq_true, decide_eq_true_eq, ih]
    constructor
    · rintro (h | ⟨hbyte, skipped, tail, rfl, hslash, h⟩)
      · exact ⟨[], byte :: text, rfl, List.not_mem_nil, h⟩
      · refine ⟨byte :: skipped, tail, rfl, ?_, h⟩
        rw [List.mem_cons, not_or]
        exact ⟨Ne.symm hbyte, hslash⟩
    · rintro ⟨skipped, tail, heq, hslash, h⟩
      cases skipped with
      | nil =>
        obtain rfl : byte :: text = tail := heq
        exact Or.inl h
      | cons b skipped =>
        obtain ⟨rfl, rfl⟩ := List.cons.inj heq
        rw [List.mem_cons, not_or] at hslash
        exact Or.inr ⟨Ne.symm hslash.1, skipped, tail, rfl, hslash.2, h⟩

theorem globSegmented_segmentMatch (hcrossing : ¬ [star, slash] <+: rest) (hlast : rest ≠ [star]) :
    globSegmented (star :: rest) text = segmentMatch (globSegmented rest) text := by
  rw [star, globSegmented]
  · rintro rest' rfl
    exact hcrossing ⟨rest', rfl⟩
  · rintro rfl
    exact hlast rfl

theorem globSegmented_literal {p : UInt8} (hp : p ≠ star) (hquestion : p ≠ question) :
    globSegmented (p :: rest) text = true ↔
      ∃ tail, text = p :: tail ∧ globSegmented rest tail = true := by
  cases text with
  | nil =>
    rw [globSegmented]
    · simp
    · exact fun _ heq _ => hp heq
    · exact fun heq _ => hp heq
    · exact hp
    · exact hquestion
  | cons byte text =>
    rw [globSegmented]
    · simp
    · exact fun _ heq _ => hp heq
    · exact fun heq _ => hp heq
    · exact hp
    · exact hquestion

theorem globSegmented_slash : globSegmented (slash :: rest) text = true ↔
    ∃ tail, text = slash :: tail ∧ globSegmented rest tail = true :=
  globSegmented_literal (by decide) (by decide)

theorem globSegmented_one {p : UInt8} (hp : p ≠ star) (hslash : p ≠ slash) :
    globSegmented (p :: rest) text = true ↔
      ∃ byte tail, text = byte :: tail ∧ byte ≠ slash ∧ (p = question ∨ p = byte) ∧
        globSegmented rest tail = true := by
  by_cases hquestion : p = question
  · subst hquestion
    cases text with
    | nil => simp [question, globSegmented]
    | cons byte text => simp [question, globSegmented]
  · rw [globSegmented_literal hp hquestion]
    constructor
    · rintro ⟨tail, rfl, h⟩
      exact ⟨p, tail, rfl, hslash, Or.inr rfl, h⟩
    · rintro ⟨byte, tail, rfl, -, hbyte, h⟩
      obtain rfl := hbyte.resolve_left hquestion
      exact ⟨tail, rfl, h⟩

/-- The bytes before a slash or a pair of stars are matched within a segment. -/
theorem globSegmented_append {lead : Bytes} (hslash : slash ∉ lead)
    (hlead : ∀ tail, tail <:+ lead → tail ≠ [] →
      ¬ [star, star, slash] <+: tail ++ rest ∧ tail ++ rest ≠ [star, star]) :
    globSegmented (lead ++ rest) text = true ↔
      ∃ first tail, text = first ++ tail ∧ slash ∉ first ∧ GlobMatches lead first ∧
        globSegmented rest tail = true := by
  induction lead generalizing text with
  | nil =>
    simp only [List.nil_append, globMatches_nil]
    constructor
    · exact fun h => ⟨[], text, rfl, List.not_mem_nil, rfl, h⟩
    · rintro ⟨_, tail, rfl, -, rfl, h⟩
      exact h
  | cons p lead ih =>
    obtain ⟨hp, hslashBehind⟩ := not_or.1 (mt List.mem_cons.2 hslash)
    have hbehind : ∀ tail, tail <:+ lead → tail ≠ [] →
        ¬ [star, star, slash] <+: tail ++ rest ∧ tail ++ rest ≠ [star, star] :=
      fun tail htail => hlead tail (htail.trans (List.suffix_cons p lead))
    rw [List.cons_append]
    by_cases hstar : p = star
    · subst hstar
      obtain ⟨hcrossing, hlast⟩ := hlead _ List.suffix_rfl (List.cons_ne_nil _ _)
      rw [globSegmented_segmentMatch, segmentMatch_iff]
      · simp only [ih hslashBehind hbehind, globMatches_star]
        constructor
        · rintro ⟨skipped, _, rfl, hskipped, first, tail, rfl, hfirst, hmatch, h⟩
          refine ⟨skipped ++ first, tail, by simp, ?_, ⟨skipped, first, rfl, hmatch⟩, h⟩
          rw [List.mem_append, not_or]
          exact ⟨hskipped, hfirst⟩
        · rintro ⟨_, tail, rfl, hfirst, ⟨skipped, first, rfl, hmatch⟩, h⟩
          rw [List.mem_append, not_or] at hfirst
          exact ⟨skipped, first ++ tail, by simp, hfirst.1, first, tail, rfl, hfirst.2, hmatch, h⟩
      · rintro ⟨tail, htail⟩
        exact hcrossing ⟨tail, congrArg (star :: ·) htail⟩
      · intro hone
        exact hlast (congrArg (star :: ·) hone)
    · rw [globSegmented_one hstar (Ne.symm hp)]
      simp only [ih hslashBehind hbehind, globMatches_cons hstar]
      constructor
      · rintro ⟨byte, _, rfl, hbyte, hmatches, first, tail, rfl, hfirst, hmatch, h⟩
        refine ⟨byte :: first, tail, rfl, ?_, ⟨byte, first, rfl, hmatches, hmatch⟩, h⟩
        rw [List.mem_cons, not_or]
        exact ⟨Ne.symm hbyte, hfirst⟩
      · rintro ⟨_, tail, rfl, hfirst, ⟨byte, first, rfl, hmatches, hmatch⟩, h⟩
        rw [List.mem_cons, not_or] at hfirst
        exact ⟨byte, first ++ tail, rfl, Ne.symm hfirst.1, hmatches, first, tail, rfl, hfirst.2,
          hmatch, h⟩

theorem globSegmented_stars : globSegmented [star, star] text = true := by
  rw [star, globSegmented]

theorem globSegmented_skip : globSegmented (star :: star :: slash :: rest) text = true ↔
    ∃ skipped tail, text = skipped ++ tail ∧ globSegmented rest tail = true := by
  rw [star, slash, globSegmented, starMatch_iff]

/-- Within a segment no crossing begins, unless the segment ends in two stars. -/
theorem lead_of_plain {lead tail : Bytes} (hslash : slash ∉ lead) (hplain : ¬ EndsInStars lead)
    (htail : tail <:+ lead) (hne : tail ≠ []) (hrest : rest = [] ∨ ∃ behind, rest = slash :: behind) :
    ¬ [star, star, slash] <+: tail ++ rest ∧ tail ++ rest ≠ [star, star] := by
  have hstars : tail ≠ [star, star] := by
    rintro rfl
    exact hplain htail
  have hslash : slash ∉ tail := fun hmem => hslash (htail.subset hmem)
  have hstar : star ≠ slash := by decide
  constructor
  · rintro ⟨after, heq⟩
    rcases tail with _ | ⟨a, _ | ⟨b, _ | ⟨c, tail⟩⟩⟩
    · exact hne rfl
    · rcases hrest with rfl | ⟨behind, rfl⟩
      · simp at heq
      · simp at heq
        exact hstar heq.2.1
    · simp at heq
      exact hstars (by rw [← heq.1, ← heq.2.1])
    · simp at heq
      exact hslash (by simp [heq.2.2.1])
  · intro heq
    rcases hrest with rfl | ⟨behind, rfl⟩
    · rw [List.append_nil] at heq
      exact hstars heq
    · have hmem : slash ∈ [star, star] := heq ▸ List.mem_append_right tail List.mem_cons_self
      exact absurd hmem (by decide)

/-- Nor does one begin before the last two stars. -/
theorem lead_of_stars {lead tail : Bytes} (hslash : slash ∉ lead) (htail : tail <:+ lead)
    (hne : tail ≠ []) : ¬ [star, star, slash] <+: tail ++ star :: star :: rest ∧
      tail ++ star :: star :: rest ≠ [star, star] := by
  have hslash : slash ∉ tail := fun hmem => hslash (htail.subset hmem)
  have hstar : star ≠ slash := by decide
  constructor
  · rintro ⟨after, heq⟩
    rcases tail with _ | ⟨a, _ | ⟨b, _ | ⟨c, tail⟩⟩⟩
    · exact hne rfl
    · simp at heq
      exact hstar heq.2.1.symm
    · simp at heq
      exact hstar heq.2.2.1.symm
    · simp at heq
      exact hslash (by simp [heq.2.2.1])
  · intro heq
    have hlength := congrArg List.length heq
    have hpos := List.length_pos_of_ne_nil hne
    simp at hlength
    omega

theorem exists_append_of_splitOn {first : Bytes} {segments : List Bytes}
    (h : text.splitOn slash = first :: segments) : ∃ tail, text = first ++ tail := by
  rw [← @List.intercalate_splitOn _ text _ _ slash, h]
  cases segments with
  | nil => exact ⟨[], by simp⟩
  | cons next segments =>
    rw [List.intercalate_cons_cons, List.append_assoc]
    exact ⟨_, rfl⟩

theorem splitOn_eq_singleton_iff {first : Bytes} :
    text.splitOn slash = [first] ↔ text = first ∧ slash ∉ first := by
  constructor
  · intro h
    refine ⟨?_, Segments.notMem_of_mem_splitOn (h ▸ List.mem_singleton_self first)⟩
    rw [← @List.intercalate_splitOn _ text _ _ slash, h, List.intercalate_singleton]
  · rintro ⟨rfl, hslash⟩
    exact List.splitOn_eq_singleton hslash

/-- The end of a pattern is matched as documented. -/
theorem globSegmented_last {last : Bytes} (hslash : slash ∉ last) :
    globSegmented last text = true ↔ MatchesSegments [last] (text.splitOn slash) := by
  rw [MatchesSegments]
  by_cases hstars : EndsInStars last
  · rw [if_pos hstars]
    obtain ⟨lead, rfl⟩ := hstars
    have hlead : slash ∉ lead := fun hmem => hslash (List.mem_append_left _ hmem)
    rw [globSegmented_append hlead fun tail => lead_of_stars hlead]
    constructor
    · rintro ⟨first, tail, rfl, hfirst, hmatch, -⟩
      obtain ⟨start, after, htail⟩ := List.exists_cons_of_ne_nil (List.splitOn_ne_nil slash tail)
      refine ⟨first ++ start, after, ?_, ?_⟩
      · exact @Segments.splitOn_append _ _ _ _ _ _ _ [] _ (List.splitOn_eq_singleton hfirst) htail
      · exact globMatches_append.2 ⟨first, start, rfl, hmatch, globMatches_stars⟩
    · rintro ⟨whole, after, hsplit, hmatch⟩
      have hwhole : slash ∉ whole := Segments.notMem_of_mem_splitOn (hsplit ▸ List.mem_cons_self)
      obtain ⟨first, start, rfl, hmatch, -⟩ := globMatches_append.1 hmatch
      obtain ⟨tail, rfl⟩ := exists_append_of_splitOn hsplit
      refine ⟨first, start ++ tail, by simp, ?_, hmatch, globSegmented_stars⟩
      exact fun hmem => hwhole (List.mem_append_left _ hmem)
  · rw [if_neg hstars]
    have happend := @globSegmented_append text [] last hslash
      fun tail htail hne => lead_of_plain hslash hstars htail hne (Or.inl rfl)
    rw [List.append_nil] at happend
    rw [happend]
    constructor
    · rintro ⟨first, tail, rfl, hfirst, hmatch, htail⟩
      obtain rfl := List.isEmpty_iff.1 htail
      exact ⟨first, splitOn_eq_singleton_iff.2 ⟨List.append_nil _, hfirst⟩, hmatch⟩
    · rintro ⟨first, hsplit, hmatch⟩
      obtain ⟨rfl, hfirst⟩ := splitOn_eq_singleton_iff.1 hsplit
      exact ⟨text, [], (List.append_nil _).symm, hfirst, hmatch, rfl⟩

theorem intercalate_cons {segment next : Bytes} {segments : List Bytes} :
    [slash].intercalate (segment :: next :: segments) =
      segment ++ slash :: [slash].intercalate (next :: segments) := by
  rw [List.intercalate_cons_cons]
  simp

/-- The matcher goes through the segments of a pattern as `Reads` says. -/
theorem globSegmented_iff {segments : List Bytes} (hne : segments ≠ [])
    (hslash : ∀ segment ∈ segments, slash ∉ segment) :
    globSegmented ([slash].intercalate segments) text = true ↔ Reads segments text := by
  induction segments generalizing text with
  | nil => exact absurd rfl hne
  | cons segment segments ih =>
    have hsegment := hslash segment List.mem_cons_self
    cases segments with
    | nil =>
      rw [List.intercalate_singleton, Reads]
      exact globSegmented_last hsegment
    | cons next segments =>
      have ih (text : Bytes) : globSegmented ([slash].intercalate (next :: segments)) text = true ↔
          Reads (next :: segments) text :=
        ih (List.cons_ne_nil _ _) fun other hmem => hslash other (List.mem_cons_of_mem _ hmem)
      rw [intercalate_cons, Reads]
      by_cases hstars : EndsInStars segment
      · rw [if_pos hstars]
        obtain ⟨lead, rfl⟩ := hstars
        have hlead : slash ∉ lead := fun hmem => hsegment (List.mem_append_left _ hmem)
        rw [List.append_assoc, List.cons_append, List.cons_append, List.nil_append,
          globSegmented_append hlead fun tail => lead_of_stars hlead]
        simp only [globSegmented_skip, ih]
        constructor
        · rintro ⟨first, _, rfl, hfirst, hmatch, skipped, tail, rfl, h⟩
          exact ⟨lead, first, skipped, tail, rfl, rfl, hfirst, hmatch, h⟩
        · rintro ⟨lead', first, skipped, tail, heq, rfl, hfirst, hmatch, h⟩
          obtain rfl := List.append_cancel_right heq
          exact ⟨first, _, rfl, hfirst, hmatch, skipped, tail, rfl, h⟩
      · rw [if_neg hstars, globSegmented_append hsegment
          fun tail htail hne => lead_of_plain hsegment hstars htail hne (Or.inr ⟨_, rfl⟩)]
        simp only [globSegmented_slash, ih]
        constructor
        · rintro ⟨first, _, rfl, hfirst, hmatch, tail, rfl, h⟩
          exact ⟨first, tail, rfl, hfirst, hmatch, h⟩
        · rintro ⟨first, tail, rfl, hfirst, hmatch, h⟩
          exact ⟨first, _, rfl, hfirst, hmatch, tail, rfl, h⟩

end Reading

/-! ## Patterns that cross whole segments -/

section Whole

variable {text : Bytes}

theorem matchesSegments_ne_nil {segments path : List Bytes} (hne : segments ≠ [])
    (h : MatchesSegments segments path) : path ≠ [] := by
  induction segments generalizing path with
  | nil => exact absurd rfl hne
  | cons segment segments ih =>
    cases segments with
    | nil =>
      rw [MatchesSegments] at h
      split at h
      · obtain ⟨first, rest, rfl, -⟩ := h
        exact List.cons_ne_nil _ _
      · obtain ⟨first, rfl, -⟩ := h
        exact List.cons_ne_nil _ _
    | cons next segments =>
      rw [MatchesSegments] at h
      split at h
      · obtain ⟨skipped, rest, rfl, h⟩ := h
        exact List.append_ne_nil_of_right_ne_nil _ (ih (List.cons_ne_nil _ _) h)
      · obtain ⟨first, rest, rfl, -⟩ := h
        exact List.cons_ne_nil _ _

/-- What is in front of a segment is taken up by a star in front of the pattern. -/
theorem matchesSegments_absorb {next : Bytes} {segments after : List Bytes} {first : Bytes}
    (hlead : LeadsWithStar next) (hwhole : CrossesWhole (next :: segments))
    (h : MatchesSegments (next :: segments) (first :: after)) (front : Bytes) :
    MatchesSegments (next :: segments) ((front ++ first) :: after) := by
  induction segments generalizing next with
  | nil =>
    rw [MatchesSegments] at h ⊢
    split at h
    · next hstars =>
      obtain ⟨_, _, heq, hmatch⟩ := h
      obtain ⟨rfl, rfl⟩ := List.cons.inj heq
      rw [if_pos hstars]
      exact ⟨_, _, rfl, globMatches_absorb hlead hmatch front⟩
    · next hplain =>
      obtain ⟨_, heq, hmatch⟩ := h
      obtain ⟨rfl, rfl⟩ := List.cons.inj heq
      rw [if_neg hplain]
      exact ⟨_, rfl, globMatches_absorb hlead hmatch front⟩
  | cons following segments ih =>
    obtain ⟨hcross, hrest⟩ := hwhole
    rw [MatchesSegments] at h ⊢
    split at h
    · next hstars =>
      rw [if_pos hstars]
      obtain ⟨skipped, rest, hpath, h⟩ := h
      cases skipped with
      | nil =>
        -- the stars stand for no segment, and what follows begins with a star, too
        obtain rfl : first :: after = rest := hpath
        have hfollowing := (hcross (hstars ▸ List.suffix_rfl)).2
        exact ⟨[], _, rfl, ih hfollowing hrest h⟩
      | cons segment skipped =>
        obtain ⟨rfl, rfl⟩ := List.cons.inj hpath
        exact ⟨(front ++ first) :: skipped, rest, rfl, h⟩
    · next hplain =>
      rw [if_neg hplain]
      obtain ⟨_, _, hpath, hmatch, h⟩ := h
      obtain ⟨rfl, rfl⟩ := List.cons.inj hpath
      exact ⟨_, _, rfl, globMatches_absorb hlead hmatch front, h⟩

/-- Where whole segments are crossed, the matcher reads a pattern as documented. -/
theorem reads_iff {segments : List Bytes} (hne : segments ≠ []) (hwhole : CrossesWhole segments) :
    Reads segments text ↔ MatchesSegments segments (text.splitOn slash) := by
  induction segments generalizing text with
  | nil => exact absurd rfl hne
  | cons segment segments ih =>
    cases segments with
    | nil => rw [Reads]
    | cons next segments =>
      obtain ⟨hcross, hrest⟩ := hwhole
      have hnext := List.cons_ne_nil next segments
      have ih (text : Bytes) : Reads (next :: segments) text ↔
          MatchesSegments (next :: segments) (text.splitOn slash) := ih hnext hrest
      rw [Reads, MatchesSegments]
      simp only [ih]
      by_cases hstars : EndsInStars segment
      · obtain ⟨rfl, hlead⟩ := hcross hstars
        rw [if_pos hstars, if_pos rfl]
        constructor
        · rintro ⟨lead, first, skipped, rest, heq, rfl, -, hmatch, h⟩
          obtain rfl : lead = [] := by simpa using heq
          obtain rfl := globMatches_nil.1 hmatch
          obtain ⟨before, joined, hsplit⟩ := @Segments.exists_splitOn_append _ _ slash skipped rest
          obtain ⟨start, after, htail⟩ :=
            List.exists_cons_of_ne_nil (List.splitOn_ne_nil slash rest)
          rw [htail] at h
          exact ⟨before, _, (hsplit start after htail).2,
            matchesSegments_absorb hlead hrest h joined⟩
        · rintro ⟨skipped, rest, hsplit, h⟩
          cases skipped with
          | nil =>
            obtain rfl : text.splitOn slash = rest := hsplit
            exact ⟨[], [], [], text, rfl, rfl, List.not_mem_nil, .done, h⟩
          | cons other skipped =>
            obtain ⟨front, tail, rfl, -, rfl⟩ := (Segments.splitOn_eq_append_iff
              (List.cons_ne_nil _ _) (matchesSegments_ne_nil hnext h)).1 hsplit
            exact ⟨[], [], front ++ [slash], tail, rfl, by simp, List.not_mem_nil, .done, h⟩
      · have hne : segment ≠ [star, star] := by
          rintro rfl
          exact hstars List.suffix_rfl
        rw [if_neg hstars, if_neg hne]
        constructor
        · rintro ⟨first, rest, rfl, hfirst, hmatch, h⟩
          exact ⟨first, _, List.splitOn_append_cons_self_of_not_mem hfirst _, hmatch, h⟩
        · rintro ⟨first, rest, hsplit, hmatch, h⟩
          obtain ⟨front, tail, rfl, hfront, rfl⟩ := (@Segments.splitOn_eq_append_iff _ _ _ _ [first]
            rest (List.cons_ne_nil _ _) (matchesSegments_ne_nil hnext h)).1 hsplit
          obtain ⟨rfl, hfirst⟩ := splitOn_eq_singleton_iff.1 hfront
          exact ⟨front, tail, rfl, hfirst, hmatch, h⟩

end Whole

/-! ## Empty segments -/

section Hollow

variable {segments path : List Bytes} {crossed : Bool}

theorem nil_mem_of_matches (hmem : [] ∈ segments) (h : MatchesSegments segments path) :
    [] ∈ path := by
  induction segments generalizing path with
  | nil => exact absurd hmem List.not_mem_nil
  | cons segment segments ih =>
    cases segments with
    | nil =>
      obtain rfl := List.mem_singleton.1 hmem
      rw [MatchesSegments, if_neg (by decide)] at h
      obtain ⟨first, rfl, hmatch⟩ := h
      rw [globMatches_nil.1 hmatch]
      exact List.mem_cons_self
    | cons next segments =>
      rw [MatchesSegments] at h
      split at h
      · next hstars =>
        obtain ⟨skipped, rest, rfl, h⟩ := h
        rcases List.mem_cons.1 hmem with rfl | hmem
        · exact absurd hstars (by decide)
        · exact List.mem_append_right _ (ih hmem h)
      · obtain ⟨first, rest, rfl, hmatch, h⟩ := h
        rcases List.mem_cons.1 hmem with rfl | hmem
        · rw [globMatches_nil.1 hmatch]
          exact List.mem_cons_self
        · exact List.mem_cons_of_mem _ (ih hmem h)

theorem nil_mem_of_hollow (h : Hollow crossed segments) : [] ∈ segments := by
  induction segments generalizing crossed with
  | nil => exact h.elim
  | cons segment segments ih =>
    rcases h with ⟨-, rfl⟩ | h
    · exact List.mem_cons_self
    · exact List.mem_cons_of_mem _ (ih h)

/-- The text that a pattern with an empty segment is matched with has one, too. -/
theorem hollow_reads {text : Bytes} (hhollow : Hollow crossed segments) (h : Reads segments text) :
    [] ∈ if crossed then (text.splitOn slash).tail else text.splitOn slash := by
  -- behind a crossing, the first segment of the text may have been joined
  have hweaken (crossed : Bool) {text : Bytes} (hmem : [] ∈ (text.splitOn slash).tail) :
      [] ∈ if crossed then (text.splitOn slash).tail else text.splitOn slash := by
    split
    · exact hmem
    · exact List.mem_of_mem_tail hmem
  induction segments generalizing crossed text with
  | nil => exact hhollow.elim
  | cons segment segments ih =>
    cases segments with
    | nil =>
      rcases hhollow with ⟨rfl, rfl⟩ | hnone
      · rw [Reads] at h
        exact nil_mem_of_matches (List.mem_singleton_self []) h
      · exact hnone.elim
    | cons next segments =>
      rw [Reads] at h
      split at h
      · next hstars =>
        obtain ⟨lead, first, skipped, rest, rfl, rfl, -, -, h⟩ := h
        rcases hhollow with ⟨-, heq⟩ | hhollow
        · exact absurd (congrArg List.length heq) (by simp)
        · have hcrossed : decide (EndsInStars (lead ++ [star, star])) = true :=
            decide_eq_true ⟨lead, rfl⟩
          rw [hcrossed] at hhollow
          have hmem := ih hhollow h
          obtain ⟨before, joined, hsplit⟩ :=
            @Segments.exists_splitOn_append _ _ slash (first ++ skipped) rest
          obtain ⟨start, after, htail⟩ :=
            List.exists_cons_of_ne_nil (List.splitOn_ne_nil slash rest)
          rw [if_pos rfl, htail, List.tail_cons] at hmem
          apply hweaken crossed
          rw [← List.append_assoc, (hsplit start after htail).2]
          cases before with
          | nil => exact hmem
          | cons other before => exact List.mem_append_right _ (List.mem_cons_of_mem _ hmem)
      · next hplain =>
        obtain ⟨first, rest, rfl, hfirst, hmatch, h⟩ := h
        have hsplit := List.splitOn_append_cons_self_of_not_mem hfirst rest
        rcases hhollow with ⟨rfl, rfl⟩ | hhollow
        · obtain rfl := globMatches_nil.1 hmatch
          rw [hsplit]
          exact List.mem_cons_self
        · rw [decide_eq_false hplain] at hhollow
          apply hweaken crossed
          rw [hsplit, List.tail_cons]
          exact ih hhollow h

end Hollow

/-! ## A path for a pattern

For every pattern there is a path that the matcher takes for one of it: each wildcard is `#`, which
no pattern has, and so is what is skipped. -/

/-- The byte `#`. -/
def fresh : UInt8 := 0x23

def sample (segment : Bytes) : Bytes :=
  segment.map fun byte => if byte = star ∨ byte = question then fresh else byte

/-- The segments of the path. Stars at the end of a segment join it to the next one. -/
def witness : List Bytes → List Bytes
  | [] => []
  | [last] => [sample last]
  | segment :: next :: segments =>
    if EndsInStars segment then (witness (next :: segments)).modifyHead (sample segment ++ ·)
    else sample segment :: witness (next :: segments)

section Witness

variable {segments path : List Bytes}

theorem globMatches_sample (segment : Bytes) : GlobMatches segment (sample segment) := by
  induction segment with
  | nil => exact .done
  | cons p segment ih =>
    rw [sample, List.map_cons, ← sample]
    by_cases hstar : p = star
    · subst hstar
      exact globMatches_star.2 ⟨[fresh], sample segment, by simp, ih⟩
    · refine (globMatches_cons hstar).2 ⟨_, sample segment, rfl, ?_, ih⟩
      by_cases hquestion : p = question
      · exact Or.inl hquestion
      · exact Or.inr (if_neg (not_or.2 ⟨hstar, hquestion⟩)).symm

theorem slash_notMem_sample {segment : Bytes} (h : slash ∉ segment) : slash ∉ sample segment := by
  intro hmem
  obtain ⟨byte, hbyte, heq⟩ := List.mem_map.1 hmem
  split at heq
  · exact absurd heq (by decide)
  · exact h (heq ▸ hbyte)

theorem witness_ne_nil (hne : segments ≠ []) : witness segments ≠ [] := by
  induction segments with
  | nil => exact hne
  | cons segment segments ih =>
    cases segments with
    | nil =>
      rw [witness]
      exact List.cons_ne_nil _ _
    | cons next segments =>
      rw [witness]
      split
      · exact mt List.modifyHead_eq_nil_iff.1 (ih (List.cons_ne_nil _ _))
      · exact List.cons_ne_nil _ _

theorem slash_notMem_witness (hslash : ∀ segment ∈ segments, slash ∉ segment) :
    ∀ segment ∈ witness segments, slash ∉ segment := by
  induction segments with
  | nil => exact fun segment hmem => absurd hmem List.not_mem_nil
  | cons segment segments ih =>
    have hsample := slash_notMem_sample (hslash segment List.mem_cons_self)
    have ih := ih fun other hmem => hslash other (List.mem_cons_of_mem _ hmem)
    cases segments with
    | nil =>
      rw [witness]
      intro other hmem
      rwa [List.mem_singleton.1 hmem]
    | cons next segments =>
      obtain ⟨first, rest, hwitness⟩ :=
        List.exists_cons_of_ne_nil (witness_ne_nil (List.cons_ne_nil next segments))
      rw [witness]
      rw [hwitness] at ih ⊢
      split
      · intro other hmem
        rcases List.mem_cons.1 hmem with rfl | hmem
        · rw [List.mem_append, not_or]
          exact ⟨hsample, ih first List.mem_cons_self⟩
        · exact ih other (List.mem_cons_of_mem _ hmem)
      · intro other hmem
        rcases List.mem_cons.1 hmem with rfl | hmem
        · exact hsample
        · exact ih other hmem

/-- The matcher takes the path for one of the pattern. -/
theorem reads_witness (hne : segments ≠ []) (hslash : ∀ segment ∈ segments, slash ∉ segment) :
    Reads segments ([slash].intercalate (witness segments)) := by
  induction segments with
  | nil => exact absurd rfl hne
  | cons segment segments ih =>
    have hsample := slash_notMem_sample (hslash segment List.mem_cons_self)
    cases segments with
    | nil =>
      rw [Reads, witness, List.intercalate_singleton, List.splitOn_eq_singleton hsample,
        MatchesSegments]
      split
      · exact ⟨_, [], rfl, globMatches_sample segment⟩
      · exact ⟨_, rfl, globMatches_sample segment⟩
    | cons next segments =>
      have ih := ih (List.cons_ne_nil _ _) fun other hmem =>
        hslash other (List.mem_cons_of_mem _ hmem)
      obtain ⟨first, rest, hwitness⟩ :=
        List.exists_cons_of_ne_nil (witness_ne_nil (List.cons_ne_nil next segments))
      rw [Reads, witness]
      rw [hwitness] at ih ⊢
      split
      · next hstars =>
        obtain ⟨lead, rfl⟩ := hstars
        refine ⟨lead, sample lead, [fresh, fresh], _, rfl, ?_, ?_, globMatches_sample lead, ih⟩
        · have hstars : sample (lead ++ [star, star]) = sample lead ++ [fresh, fresh] := by
            rw [sample, List.map_append, ← sample]
            rfl
          rw [hstars, List.modifyHead_cons]
          cases rest with
          | nil => simp
          | cons other rest => simp
        · rw [sample, List.map_append, ← sample] at hsample
          exact fun hmem => hsample (List.mem_append_left _ hmem)
      · exact ⟨sample segment, _, intercalate_cons, hsample, globMatches_sample segment, ih⟩

/-- Without empty segments in the pattern there are none in the path. -/
theorem nil_notMem_witness {crossed : Bool} (h : ¬ Hollow crossed segments) :
    [] ∉ if crossed then (witness segments).tail else witness segments := by
  induction segments generalizing crossed with
  | nil =>
    split
    · exact List.not_mem_nil
    · exact List.not_mem_nil
  | cons segment segments ih =>
    obtain ⟨hsegment, hrest⟩ := not_or.1 h
    have hsample (hcrossed : crossed = false) : [] ≠ sample segment := by
      intro heq
      exact hsegment ⟨hcrossed, List.map_eq_nil_iff.1 heq.symm⟩
    have ih := ih hrest
    cases segments with
    | nil =>
      rw [witness]
      split
      · exact List.not_mem_nil
      · next hcrossed =>
        rw [List.mem_singleton]
        exact hsample (Bool.eq_false_of_not_eq_true hcrossed)
    | cons next segments =>
      obtain ⟨first, rest, hwitness⟩ :=
        List.exists_cons_of_ne_nil (witness_ne_nil (List.cons_ne_nil next segments))
      rw [witness]
      rw [hwitness] at ih ⊢
      by_cases hstars : EndsInStars segment
      · rw [decide_eq_true hstars, if_pos rfl, List.tail_cons] at ih
        rw [if_pos hstars, List.modifyHead_cons]
        split
        · exact ih
        · next hcrossed =>
          rw [List.mem_cons, not_or]
          refine ⟨?_, ih⟩
          intro heq
          exact hsample (Bool.eq_false_of_not_eq_true hcrossed)
            (List.append_eq_nil_iff.1 heq.symm).1.symm
      · rw [decide_eq_false hstars, if_neg Bool.false_ne_true] at ih
        rw [if_neg hstars]
        split
        · exact ih
        · next hcrossed =>
          rw [List.mem_cons, not_or]
          exact ⟨hsample (Bool.eq_false_of_not_eq_true hcrossed), ih⟩

end Witness

/-! ## Why the path is not covered

It has no more segments than the pattern asks for, so that nothing is left for two stars to skip. -/

/-- The number of segments that the paths of a pattern have at least. -/
def needed : List Bytes → Nat
  | [] => 0
  | [_] => 1
  | segment :: next :: segments =>
    (if segment = [star, star] then 0 else 1) + needed (next :: segments)

section Needed

variable {segments path : List Bytes}

theorem needed_le_length (h : MatchesSegments segments path) : needed segments ≤ path.length := by
  induction segments generalizing path with
  | nil => exact Nat.zero_le _
  | cons segment segments ih =>
    cases segments with
    | nil => exact List.length_pos_of_ne_nil (matchesSegments_ne_nil (List.cons_ne_nil _ _) h)
    | cons next segments =>
      rw [MatchesSegments] at h
      rw [needed]
      split at h
      · next hstars =>
        obtain ⟨skipped, rest, rfl, h⟩ := h
        have hle := ih h
        rw [if_pos hstars, List.length_append]
        omega
      · next hplain =>
        obtain ⟨first, rest, rfl, -, h⟩ := h
        have hle := ih h
        rw [if_neg hplain, List.length_cons]
        omega

theorem length_witness_le (segments : List Bytes) :
    (witness segments).length ≤ needed segments := by
  induction segments with
  | nil => exact Nat.le_refl 0
  | cons segment segments ih =>
    cases segments with
    | nil => exact Nat.le_refl 1
    | cons next segments =>
      rw [witness, needed]
      split
      · rw [List.length_modifyHead]
        omega
      · next hplain =>
        have hne : segment ≠ [star, star] := by
          rintro rfl
          exact hplain List.suffix_rfl
        rw [if_neg hne, List.length_cons]
        omega

/-- Only a star takes up a further `#`. -/
theorem leadsWithStar_of_matches {segment : Bytes} (hfresh : fresh ∉ segment) {n : Nat} (hn : 0 < n)
    (h : GlobMatches segment (List.replicate n fresh ++ sample segment)) :
    LeadsWithStar segment := by
  induction segment with
  | nil =>
    have hnil := globMatches_nil.1 h
    rw [List.append_eq_nil_iff, List.replicate_eq_nil_iff] at hnil
    omega
  | cons p segment ih =>
    obtain ⟨hp, hrest⟩ := not_or.1 (mt List.mem_cons.2 hfresh)
    obtain ⟨n, rfl⟩ := Nat.exists_eq_succ_of_ne_zero hn.ne'
    by_cases hstar : p = star
    · exact Or.inl hstar
    · obtain ⟨byte, tail, heq, hbyte, h⟩ := (globMatches_cons hstar).1 h
      rw [List.replicate_succ, List.cons_append] at heq
      obtain ⟨rfl, rfl⟩ := List.cons.inj heq
      have hquestion := hbyte.resolve_right (Ne.symm hp)
      refine Or.inr ⟨hquestion, ih hrest ?_⟩
      have hshift : List.replicate n fresh ++ sample (p :: segment) =
          List.replicate (n + 1) fresh ++ sample segment := by
        rw [sample, List.map_cons, ← sample, if_pos (Or.inr hquestion), List.replicate_succ']
        simp
      rwa [hshift] at h

/-- If the path is covered, the pattern crosses whole segments. -/
theorem crossesWhole_of_matches (hfresh : ∀ segment ∈ segments, fresh ∉ segment) {n : Nat}
    (h : MatchesSegments segments ((witness segments).modifyHead (List.replicate n fresh ++ ·))) :
    CrossesWhole segments ∧ (0 < n → ∀ first ∈ segments.head?, LeadsWithStar first) := by
  induction segments generalizing n with
  | nil => exact ⟨trivial, fun _ first hmem => absurd hmem (by simp)⟩
  | cons segment segments ih =>
    have hsegment := hfresh segment List.mem_cons_self
    cases segments with
    | nil =>
      refine ⟨trivial, fun hn first hfirst => ?_⟩
      obtain rfl : segment = first := by simpa using hfirst
      apply leadsWithStar_of_matches hsegment hn
      rw [witness, List.modifyHead_cons, MatchesSegments] at h
      split at h
      · obtain ⟨_, _, heq, hmatch⟩ := h
        rwa [(List.cons.inj heq).1]
      · obtain ⟨_, heq, hmatch⟩ := h
        rwa [(List.cons.inj heq).1]
    | cons next segments =>
      have ih := @ih fun other hmem => hfresh other (List.mem_cons_of_mem _ hmem)
      have hlength := length_witness_le (next :: segments)
      rw [witness, MatchesSegments] at h
      split at h
      · next hstars =>
        subst hstars
        obtain ⟨skipped, rest, hpath, h⟩ := h
        have hends : EndsInStars [star, star] := List.suffix_rfl
        rw [if_pos hends, List.modifyHead_modifyHead] at hpath
        have hle := needed_le_length h
        have hlengths := congrArg List.length hpath
        rw [List.length_modifyHead, List.length_append] at hlengths
        obtain rfl : skipped = [] := List.eq_nil_of_length_eq_zero (by omega)
        rw [List.nil_append] at hpath
        rw [← hpath] at h
        have hshift : ((List.replicate n fresh ++ ·) ∘ (sample [star, star] ++ ·)) =
            (List.replicate (n + 2) fresh ++ ·) := by
          funext first
          have hstars : sample [star, star] = List.replicate 2 fresh := by decide
          rw [Function.comp_apply, hstars, List.replicate_add, List.append_assoc]
        rw [hshift] at h
        obtain ⟨hrest, hlead⟩ := ih h
        refine ⟨⟨fun _ => ⟨rfl, hlead (Nat.succ_pos _) next rfl⟩, hrest⟩, fun _ first hfirst => ?_⟩
        obtain rfl : [star, star] = first := by simpa using hfirst
        exact Or.inl rfl
      · next hne =>
        obtain ⟨first, rest, hpath, hmatch, h⟩ := h
        by_cases hstars : EndsInStars segment
        · -- a segment that is joined to the next one leaves one too few
          have hle := needed_le_length h
          have hlengths := congrArg List.length hpath
          rw [if_pos hstars, List.length_modifyHead, List.length_modifyHead,
            List.length_cons] at hlengths
          omega
        · rw [if_neg hstars, List.modifyHead_cons] at hpath
          obtain ⟨rfl, rfl⟩ := List.cons.inj hpath
          have hsame : (witness (next :: segments)).modifyHead (List.replicate 0 fresh ++ ·) =
              witness (next :: segments) := congrFun List.modifyHead_id _
          rw [← hsame] at h
          refine ⟨⟨fun hends => absurd hends hstars, (ih h).1⟩, fun hn first hfirst => ?_⟩
          obtain rfl : segment = first := by simpa using hfirst
          exact leadsWithStar_of_matches hsegment hn hmatch

end Needed

/-! ## Segments of texts -/

section Texts

/-- The bytes are those of a text. -/
def IsText (bytes : Bytes) : Prop := ∃ text : String, utf8 text = bytes

theorem IsText.append {front back : Bytes} (hfront : IsText front) (hback : IsText back) :
    IsText (front ++ back) := by
  obtain ⟨head, rfl⟩ := hfront
  obtain ⟨tail, rfl⟩ := hback
  exact ⟨head ++ tail, utf8_append head tail⟩

theorem isText_intercalate {segments : List Bytes} (h : ∀ segment ∈ segments, IsText segment) :
    IsText ([slash].intercalate segments) := by
  induction segments with
  | nil => exact ⟨"", rfl⟩
  | cons segment segments ih =>
    have hsegment := h segment List.mem_cons_self
    cases segments with
    | nil =>
      rw [List.intercalate_singleton]
      exact hsegment
    | cons next segments =>
      have hslash : IsText [slash] := ⟨"/", by decide⟩
      rw [List.intercalate_cons_cons]
      exact (hsegment.append hslash).append (ih fun other hmem => h other (List.mem_cons_of_mem _ hmem))

/-- A pattern with `#` for each wildcard. -/
def filled (text : String) : String :=
  String.ofList (text.toList.map fun c => if c = '*' ∨ c = '?' then '#' else c)

theorem utf8_filled (text : String) : utf8 (filled text) = sample (utf8 text) := by
  rw [filled, utf8, utf8, sample, String.toList_ofList, List.flatMap_map, List.map_flatMap]
  apply List.flatMap_congr
  intro c _
  by_cases hwild : c = '*' ∨ c = '?'
  · rw [if_pos hwild]
    rcases hwild with rfl | rfl
    · decide
    · decide
  · obtain ⟨hstar, hquestion⟩ := not_or.1 hwild
    obtain ⟨hnoStar, hnoQuestion⟩ := wildcards_notMem hstar hquestion
    rw [if_neg hwild]
    refine ((List.map_congr_left fun byte hbyte => if_neg ?_).trans (List.map_id' _)).symm
    rintro (rfl | rfl)
    · exact hnoStar hbyte
    · exact hnoQuestion hbyte

/-- The segments of a text are the codes of those of its characters. -/
theorem segmentsOf_eq_map (text : String) : segmentsOf text =
    (text.toList.splitOn '/').map fun segment => utf8 (String.ofList segment) := by
  have hother (c : Char) (hc : c ≠ '/') : slash ∉ String.utf8EncodeChar c := by
    intro hmem
    exact hc (eq_of_mem_utf8EncodeChar (d := '/') (by decide) hmem)
  rw [segmentsOf, utf8,
    @Segments.splitOn_flatMap _ _ '/' _ _ String.utf8EncodeChar slash (by decide) hother]
  simp only [utf8, String.toList_ofList]

theorem slash_notMem_segments {text : String} : ∀ segment ∈ segmentsOf text, slash ∉ segment := by
  rw [segmentsOf]
  exact fun _ => Segments.notMem_of_mem_splitOn

theorem segmentsOf_ne_nil (text : String) : segmentsOf text ≠ [] := by
  rw [segmentsOf]
  exact List.splitOn_ne_nil _ _

theorem segmentsOf_filled (text : String) : segmentsOf (filled text) = (segmentsOf text).map sample := by
  have hother (byte : UInt8) (hbyte : byte ≠ slash) :
      slash ∉ [if byte = star ∨ byte = question then fresh else byte] := by
    rw [List.mem_singleton]
    split
    · decide
    · exact hbyte.symm
  have hsingle (bytes : Bytes) : sample bytes =
      bytes.flatMap fun byte => [if byte = star ∨ byte = question then fresh else byte] :=
    List.map_eq_flatMap
  rw [segmentsOf, utf8_filled, hsingle, Segments.splitOn_flatMap (by decide) hother, segmentsOf]
  exact List.map_congr_left fun segment _ => (hsingle segment).symm

theorem isText_sample {text : String} : ∀ segment ∈ segmentsOf text, IsText (sample segment) := by
  rw [segmentsOf_eq_map]
  intro segment hmem
  obtain ⟨chars, -, rfl⟩ := List.mem_map.1 hmem
  exact ⟨filled (String.ofList chars), utf8_filled _⟩

theorem isText_witness {segments : List Bytes} (h : ∀ segment ∈ segments, IsText (sample segment)) :
    ∀ segment ∈ witness segments, IsText segment := by
  induction segments with
  | nil => exact fun segment hmem => absurd hmem List.not_mem_nil
  | cons segment segments ih =>
    have hsample := h segment List.mem_cons_self
    have ih := ih fun other hmem => h other (List.mem_cons_of_mem _ hmem)
    cases segments with
    | nil =>
      rw [witness]
      intro other hmem
      rwa [List.mem_singleton.1 hmem]
    | cons next segments =>
      obtain ⟨first, rest, hwitness⟩ :=
        List.exists_cons_of_ne_nil (witness_ne_nil (List.cons_ne_nil next segments))
      rw [witness]
      rw [hwitness] at ih ⊢
      split
      · intro other hmem
        rcases List.mem_cons.1 hmem with rfl | hmem
        · exact hsample.append (ih first List.mem_cons_self)
        · exact ih other (List.mem_cons_of_mem _ hmem)
      · intro other hmem
        rcases List.mem_cons.1 hmem with rfl | hmem
        · exact hsample
        · exact ih other hmem

/-- There is a path with the segments of `witness`. -/
theorem exists_witness (text : String) :
    ∃ path, utf8 path = [slash].intercalate (witness (segmentsOf text)) ∧
      segmentsOf path = witness (segmentsOf text) := by
  obtain ⟨path, hpath⟩ := isText_intercalate (isText_witness (@isText_sample text))
  refine ⟨path, hpath, ?_⟩
  rw [segmentsOf, hpath]
  exact List.splitOn_intercalate slash (slash_notMem_witness slash_notMem_segments)
    (witness_ne_nil (segmentsOf_ne_nil text))

theorem byte_notMem_segments {text : String} {c : Char} (hc : c.toNat < 0x80) (h : c ∉ text.toList) :
    ∀ segment ∈ segmentsOf text, UInt8.ofNat c.toNat ∉ segment := by
  intro segment hmem hbyte
  rw [segmentsOf] at hmem
  have hbytes : UInt8.ofNat c.toNat ∈ utf8 text := Segments.subset_of_mem_splitOn hmem hbyte
  obtain ⟨d, hd, hcode⟩ := List.mem_flatMap.1 hbytes
  obtain rfl := eq_of_mem_utf8EncodeChar hc hcode
  exact h hd

theorem notMem_patternCore {c : Char} {pattern : String} (h : c ∉ pattern.toList) :
    c ∉ (patternCore pattern).toList := by
  intro hmem
  rw [patternCore, String.toList_ofList, trimEndMatches, List.mem_reverse] at hmem
  have hstart := List.mem_reverse.1 ((List.dropWhile_sublist _).subset hmem)
  exact h ((List.dropWhile_sublist _).subset hstart)

end Texts

/-! ## Patterns of files -/

section Files

variable {pattern path : String}

theorem afterSlash_iff {rest : Bytes → Bool} {text : Bytes} : afterSlash rest text = true ↔
    ∃ front tail, text = front ++ slash :: tail ∧ rest tail = true := by
  induction text with
  | nil => simp [afterSlash]
  | cons byte text ih =>
    simp only [afterSlash, Bool.or_eq_true, Bool.and_eq_true, decide_eq_true_eq, ih]
    constructor
    · rintro (⟨rfl, h⟩ | ⟨front, tail, rfl, h⟩)
      · exact ⟨[], text, rfl, h⟩
      · exact ⟨byte :: front, tail, rfl, h⟩
    · rintro ⟨front, tail, heq, h⟩
      cases front with
      | nil =>
        obtain ⟨rfl, rfl⟩ := List.cons.inj heq
        exact Or.inl ⟨rfl, h⟩
      | cons b front =>
        obtain ⟨rfl, rfl⟩ := List.cons.inj heq
        exact Or.inr ⟨front, tail, rfl, h⟩

/-- A match may start at the root, and unless it is anchored behind any slash. -/
def StartsAt (pattern path : String) (tail : Bytes) : Prop :=
  utf8 path = tail ∨ ¬ Anchored pattern ∧ ∃ front, utf8 path = front ++ slash :: tail

theorem StartsAt.subset {tail : Bytes} (h : StartsAt pattern path tail) :
    tail.splitOn slash ⊆ segmentsOf path := by
  rw [segmentsOf]
  rcases h with rfl | ⟨-, front, heq⟩
  · exact List.Subset.refl _
  · rw [heq, List.splitOn_append_cons_self]
    exact List.subset_append_right _ _

theorem patternMatches_iff_reads (hdir : ¬ DirPattern pattern) : patternMatches pattern path = true ↔
    ∃ tail, StartsAt pattern path tail ∧ Reads (segmentsOf (patternCore pattern)) tail := by
  have hcore (text : Bytes) :
      globSegmented (utf8 (String.ofList (trimEndMatches '/' (trimStartMatches '/' pattern.toList))))
        text = true ↔ Reads (segmentsOf (patternCore pattern)) text := by
    rw [← patternCore, ← globSegmented_iff (segmentsOf_ne_nil _) slash_notMem_segments, segmentsOf,
      List.intercalate_splitOn]
  rw [DirPattern] at hdir
  simp only [patternMatches, if_neg hdir]
  by_cases hanchored : Anchored pattern
  · rw [Anchored] at hanchored
    rw [if_pos hanchored, hcore]
    constructor
    · exact fun h => ⟨utf8 path, Or.inl rfl, h⟩
    · rintro ⟨tail, rfl | ⟨hroot, -⟩, h⟩
      · exact h
      · exact absurd hanchored hroot
  · have hfree := hanchored
    rw [Anchored] at hfree
    rw [if_neg hfree, Bool.or_eq_true, hcore, afterSlash_iff]
    simp only [hcore]
    constructor
    · rintro (h | ⟨front, tail, htext, h⟩)
      · exact ⟨utf8 path, Or.inl rfl, h⟩
      · exact ⟨tail, Or.inr ⟨hanchored, front, htext⟩, h⟩
    · rintro ⟨tail, rfl | ⟨-, front, htext⟩, h⟩
      · exact Or.inl h
      · exact Or.inr ⟨front, tail, htext, h⟩

theorem covers_iff_matches (hdir : ¬ DirPattern pattern) : Covers pattern path ↔
    ∃ tail, StartsAt pattern path tail ∧
      MatchesSegments (segmentsOf (patternCore pattern)) (tail.splitOn slash) := by
  constructor
  · rintro ⟨above, named, below, hpath, hanchored, hbelow, h⟩
    obtain rfl := hbelow.resolve_left hdir
    rw [segmentsOf, List.append_nil] at hpath
    cases above with
    | nil =>
      refine ⟨utf8 path, Or.inl rfl, ?_⟩
      rw [hpath]
      exact h
    | cons segment above =>
      obtain ⟨front, tail, htext, -, rfl⟩ := (Segments.splitOn_eq_append_iff (List.cons_ne_nil _ _)
        (matchesSegments_ne_nil (segmentsOf_ne_nil _) h)).1 hpath
      refine ⟨tail, Or.inr ⟨fun hroot => ?_, front, htext⟩, h⟩
      exact absurd (hanchored hroot) (List.cons_ne_nil _ _)
  · rintro ⟨tail, rfl | ⟨hroot, front, htext⟩, h⟩
    · exact ⟨[], _, [], by simp [segmentsOf], fun _ => rfl, Or.inr rfl, h⟩
    · refine ⟨front.splitOn slash, _, [], ?_, fun hanchored => absurd hanchored hroot, Or.inr rfl, h⟩
      rw [segmentsOf, htext, List.splitOn_append_cons_self, List.append_nil]

/-- A pattern of files is matched as documented if it crosses whole segments, and only then. -/
theorem matched_iff_of_file (hdir : ¬ DirPattern pattern) (hhash : '#' ∉ pattern.toList) :
    (∀ path, [] ∉ segmentsOf path → (patternMatches pattern path = true ↔ Covers pattern path)) ↔
      Fits pattern := by
  rw [Fits, if_neg hdir]
  simp only [patternMatches_iff_reads hdir, covers_iff_matches hdir]
  have hne := segmentsOf_ne_nil (patternCore pattern)
  constructor
  · intro h
    rw [or_iff_not_imp_left]
    intro hhollow
    obtain ⟨path, hbytes, hpath⟩ := exists_witness (patternCore pattern)
    have hnil : [] ∉ segmentsOf path := by
      rw [hpath]
      exact nil_notMem_witness hhollow
    have hreads := reads_witness hne (@slash_notMem_segments (patternCore pattern))
    obtain ⟨tail, hstarts, hmatches⟩ := (h path hnil).1 ⟨_, Or.inl hbytes, hreads⟩
    have hfresh : ∀ segment ∈ segmentsOf (patternCore pattern), fresh ∉ segment :=
      byte_notMem_segments (by decide) (notMem_patternCore hhash)
    have hwhole : tail.splitOn slash = witness (segmentsOf (patternCore pattern)) := by
      rw [segmentsOf] at hpath
      rcases hstarts with rfl | ⟨-, front, htext⟩
      · exact hpath
      · -- a match that starts further down has too few segments
        exfalso
        have hlengths := congrArg List.length hpath
        rw [htext, List.splitOn_append_cons_self, List.length_append] at hlengths
        have hfront := List.length_pos_of_ne_nil (List.splitOn_ne_nil slash front)
        have hneeded := needed_le_length hmatches
        have hwitness := length_witness_le (segmentsOf (patternCore pattern))
        omega
    have hsame : (witness (segmentsOf (patternCore pattern))).modifyHead
        (List.replicate 0 fresh ++ ·) = witness (segmentsOf (patternCore pattern)) :=
      congrFun List.modifyHead_id _
    rw [hwhole, ← hsame] at hmatches
    exact (crossesWhole_of_matches hfresh hmatches).1
  · rintro (hhollow | hwhole) path hnil
    · apply iff_of_false
      · rintro ⟨tail, hstarts, h⟩
        exact hnil (hstarts.subset (hollow_reads hhollow h))
      · rintro ⟨tail, hstarts, h⟩
        exact hnil (hstarts.subset (nil_mem_of_matches (nil_mem_of_hollow hhollow) h))
    · simp only [reads_iff hne hwhole]

end Files

/-! ## Patterns of directories -/

section Directories

variable {pattern path : String}

/-- Segments without wildcards name themselves. -/
theorem matchesSegments_literal {segments named : List Bytes}
    (hplain : ∀ segment ∈ segments, star ∉ segment ∧ question ∉ segment) :
    MatchesSegments segments named ↔ named = segments := by
  have hglob {segment : Bytes} (hsegment : star ∉ segment ∧ question ∉ segment) (text : Bytes) :
      GlobMatches segment text ↔ text = segment := by
    rw [← globMatch_iff]
    exact globMatch_of_literal hsegment.1 hsegment.2 text
  induction segments generalizing named with
  | nil => exact Iff.rfl
  | cons segment segments ih =>
    have hsegment := hplain segment List.mem_cons_self
    have hends : ¬ EndsInStars segment := fun hends => hsegment.1 (hends.subset List.mem_cons_self)
    cases segments with
    | nil =>
      rw [MatchesSegments, if_neg hends]
      simp [hglob hsegment]
    | cons next segments =>
      have hne : segment ≠ [star, star] := by
        rintro rfl
        exact hends List.suffix_rfl
      have ih (named : List Bytes) : MatchesSegments (next :: segments) named ↔
          named = next :: segments := ih fun other hmem => hplain other (List.mem_cons_of_mem _ hmem)
      rw [MatchesSegments, if_neg hne]
      simp [hglob hsegment, ih]

theorem matchesSegments_sample (segments : List Bytes) :
    MatchesSegments segments (segments.map sample) := by
  induction segments with
  | nil => rfl
  | cons segment segments ih =>
    cases segments with
    | nil =>
      rw [MatchesSegments]
      split
      · exact ⟨_, [], rfl, globMatches_sample segment⟩
      · exact ⟨_, rfl, globMatches_sample segment⟩
    | cons next segments =>
      rw [MatchesSegments]
      split
      · exact ⟨[sample segment], _, rfl, ih⟩
      · exact ⟨_, _, rfl, globMatches_sample segment, ih⟩

/-- The segments of a directory stand somewhere among those of the path. -/
def Contains (pattern path : String) : Prop :=
  ∃ above below, segmentsOf path = above ++ (segmentsOf (patternCore pattern) ++ below) ∧
    (Anchored pattern → above = [])

theorem contains_iff (text word : List Char) : contains text word = true ↔ word <:+: text := by
  rw [contains, List.any_eq_true, List.infix_iff_prefix_suffix]
  simp only [List.mem_tails, List.isPrefixOf_iff_prefix]
  exact exists_congr fun rest => and_comm

/-- Codes of segments stand among codes of segments where the segments do. -/
theorem exists_map_iff {α β : Type} {f : α → β} (hf : Function.Injective f) {whole part : List α}
    {anchored : Prop} :
    (∃ above below, whole.map f = above ++ (part.map f ++ below) ∧ (anchored → above = [])) ↔
      ∃ above below, whole = above ++ (part ++ below) ∧ (anchored → above = []) := by
  constructor
  · rintro ⟨above, below, h, hanchored⟩
    obtain ⟨front, rest, rfl, rfl, hrest⟩ := List.map_eq_append_iff.1 h
    obtain ⟨same, tail, rfl, hsame, rfl⟩ := List.map_eq_append_iff.1 hrest
    obtain rfl := List.map_injective_iff.2 hf hsame
    exact ⟨front, tail, rfl, fun hroot => List.map_eq_nil_iff.1 (hanchored hroot)⟩
  · rintro ⟨above, below, rfl, hanchored⟩
    refine ⟨above.map f, below.map f, by simp, fun hroot => ?_⟩
    rw [hanchored hroot, List.map_nil]

/-- The search in the text of a path finds the segments of a directory. -/
theorem patternMatches_iff_contains (hdir : DirPattern pattern) :
    patternMatches pattern path = true ↔ Contains pattern path := by
  have hcode : Function.Injective fun segment => utf8 (String.ofList segment) :=
    fun _ _ h => String.ofList_injective (utf8_inj h)
  rw [Contains, segmentsOf_eq_map, segmentsOf_eq_map, exists_map_iff hcode, patternCore,
    String.toList_ofList]
  rw [DirPattern] at hdir
  simp only [patternMatches, if_pos hdir]
  generalize trimEndMatches '/' (trimStartMatches '/' pattern.toList) = core
  by_cases hanchored : Anchored pattern
  · have hroot := hanchored
    rw [Anchored] at hroot
    rw [if_pos hroot, Bool.or_eq_true, decide_eq_true_eq, List.isPrefixOf_iff_prefix,
      ← Segments.segments_lead_iff]
    constructor
    · rintro ⟨below, h⟩
      exact ⟨[], below, h, fun _ => rfl⟩
    · rintro ⟨above, below, h, habove⟩
      obtain rfl := habove hanchored
      exact ⟨below, h⟩
  · have hfree := hanchored
    rw [Anchored] at hfree
    rw [if_neg hfree]
    simp only [Bool.or_eq_true, decide_eq_true_eq, List.isPrefixOf_iff_prefix, contains_iff,
      List.isSuffixOf_iff_suffix]
    have hinfix := @Segments.segments_infix_iff _ _ '/' path.toList core
    constructor
    · intro h
      obtain ⟨above, below, hpath⟩ := hinfix.2 (by
        rcases h with (hlead | ⟨front, tail, htext⟩) | ⟨front, htext⟩
        · exact Or.inl hlead
        · exact Or.inr ⟨front, core ++ ['/'] ++ tail, by simp [← htext], Or.inr ⟨tail, rfl⟩⟩
        · exact Or.inr ⟨front, core, htext.symm, Or.inl rfl⟩)
      exact ⟨above, below, hpath, fun hroot => absurd hroot hanchored⟩
    · rintro ⟨above, below, hpath, -⟩
      rcases hinfix.1 ⟨above, below, hpath⟩ with hlead | ⟨front, tail, htext, rfl | ⟨rest, rfl⟩⟩
      · exact Or.inl (Or.inl hlead)
      · exact Or.inr ⟨front, htext.symm⟩
      · exact Or.inl (Or.inr ⟨front, rest, by simp [htext]⟩)

theorem covers_iff_of_dir (hdir : DirPattern pattern) : Covers pattern path ↔
    ∃ above named below, segmentsOf path = above ++ (named ++ below) ∧
      (Anchored pattern → above = []) ∧
        MatchesSegments (segmentsOf (patternCore pattern)) named := by
  simp only [Covers, hdir, true_or, true_and]

/-- A pattern of directories is matched as documented if it has no wildcards, and only then. -/
theorem matched_iff_of_dir (hdir : DirPattern pattern) :
    (∀ path, [] ∉ segmentsOf path → (patternMatches pattern path = true ↔ Covers pattern path)) ↔
      Fits pattern := by
  rw [Fits, if_pos hdir]
  simp only [patternMatches_iff_contains hdir, covers_iff_of_dir hdir]
  constructor
  · intro h
    rw [or_iff_not_imp_left]
    intro hnil
    have hfilled := segmentsOf_filled (patternCore pattern)
    have hnone : [] ∉ segmentsOf (filled (patternCore pattern)) := by
      rw [hfilled, List.mem_map]
      rintro ⟨segment, hmem, heq⟩
      rw [List.map_eq_nil_iff.1 heq] at hmem
      exact hnil hmem
    obtain ⟨above, below, hpath, -⟩ := (h (filled (patternCore pattern)) hnone).2
      ⟨[], _, [], by rw [List.nil_append, List.append_nil]; exact hfilled, fun _ => rfl,
        matchesSegments_sample _⟩
    -- no segment is left before or behind
    have hlengths := congrArg List.length hpath
    rw [hfilled, List.length_map, List.length_append, List.length_append] at hlengths
    obtain rfl : above = [] := List.eq_nil_of_length_eq_zero (by omega)
    obtain rfl : below = [] := List.eq_nil_of_length_eq_zero (by omega)
    rw [List.nil_append, List.append_nil, segmentsOf, segmentsOf] at hpath
    have hsame := congrArg String.toList (utf8_inj (Segments.splitOn_inj hpath))
    rw [filled, String.toList_ofList] at hsame
    constructor
    · intro hmem
      rw [← hsame] at hmem
      obtain ⟨c, -, hc⟩ := List.mem_map.1 hmem
      split at hc
      · exact absurd hc (by decide)
      · next hwild => exact hwild (Or.inl hc)
    · intro hmem
      rw [← hsame] at hmem
      obtain ⟨c, -, hc⟩ := List.mem_map.1 hmem
      split at hc
      · exact absurd hc (by decide)
      · next hwild => exact hwild (Or.inr hc)
  · rintro (hnil | ⟨hstar, hquestion⟩) path hnone
    · apply iff_of_false
      · rintro ⟨above, below, hpath, -⟩
        apply hnone
        rw [hpath]
        exact List.mem_append_right _ (List.mem_append_left _ hnil)
      · rintro ⟨above, named, below, hpath, -, h⟩
        apply hnone
        rw [hpath]
        exact List.mem_append_right _ (List.mem_append_left _ (nil_mem_of_matches hnil h))
    · have hplain : ∀ segment ∈ segmentsOf (patternCore pattern),
          star ∉ segment ∧ question ∉ segment := fun segment hmem =>
        ⟨byte_notMem_segments (by decide) hstar segment hmem,
          byte_notMem_segments (by decide) hquestion segment hmem⟩
      simp only [matchesSegments_literal hplain, Contains]
      constructor
      · rintro ⟨above, below, hpath, hanchored⟩
        exact ⟨above, _, below, hpath, hanchored, rfl⟩
      · rintro ⟨above, _, below, hpath, hanchored, rfl⟩
        exact ⟨above, below, hpath, hanchored⟩

end Directories

/-! ## Files -/

section Owners

variable {codeOwners : CodeOwners} {path : String}

/-- The last rule that matches names the owners. -/
theorem lastCovering_of_matched (h : ∀ rule ∈ codeOwners.rules,
    patternMatches rule.pattern path = true ↔ Covers rule.pattern path) :
    LastCovering codeOwners.rules path (codeOwners.ownersFor path) := by
  rw [CodeOwners.ownersFor]
  cases hfind : codeOwners.rules.reverse.find? fun rule => patternMatches rule.pattern path with
  | none =>
    refine Or.inr ⟨fun rule hrule hcovers => ?_, rfl⟩
    exact List.find?_eq_none.1 hfind rule (List.mem_reverse.2 hrule) ((h rule hrule).2 hcovers)
  | some rule =>
    obtain ⟨hmatches, front, rest, heq, hfront⟩ := List.find?_eq_some_iff_append.1 hfind
    have hrules : codeOwners.rules = rest.reverse ++ rule :: front.reverse := by
      rw [← List.reverse_reverse codeOwners.rules, heq]
      simp
    have hrule : rule ∈ codeOwners.rules :=
      hrules ▸ List.mem_append_right _ List.mem_cons_self
    refine Or.inl ⟨_, rule, _, hrules, (h rule hrule).1 hmatches, fun later hlater hcovers => ?_, rfl⟩
    have hmem : later ∈ codeOwners.rules :=
      hrules ▸ List.mem_append_right _ (List.mem_cons_of_mem _ hlater)
    have hnone := hfront later (List.mem_reverse.1 hlater)
    rw [(h later hmem).2 hcovers] at hnone
    exact absurd hnone (by decide)

theorem subset_of_mem_splitOnP {p : Char → Bool} {text word : List Char}
    (h : word ∈ text.splitOnP p) : word ⊆ text := by
  induction text generalizing word with
  | nil =>
    rw [List.splitOnP_nil, List.mem_singleton] at h
    rw [h]
    exact List.nil_subset _
  | cons c text ih =>
    rw [List.splitOnP_cons_eq_if_modifyHead] at h
    split at h
    · rcases List.mem_cons.1 h with rfl | h
      · exact List.nil_subset _
      · exact List.subset_cons_of_subset c (ih h)
    · obtain ⟨first, rest, hsplit⟩ := List.exists_cons_of_ne_nil (List.splitOnP_ne_nil p text)
      rw [hsplit, List.modifyHead_cons, List.mem_cons] at h
      rw [hsplit] at ih
      rcases h with rfl | h
      · exact List.cons_subset_cons c (ih List.mem_cons_self)
      · exact List.subset_cons_of_subset c (ih (List.mem_cons_of_mem _ h))

/-- A pattern that is read from a file has no `#`, which begins a comment. -/
theorem hash_notMem_of_parse {text : String} {rule : CodeOwnersRule}
    (h : rule ∈ (CodeOwners.parse text).rules) : '#' ∉ rule.pattern.toList := by
  obtain ⟨raw, -, hrule⟩ := List.mem_filterMap.1 h
  simp only [parseRule] at hrule
  split at hrule
  · cases hrule
  · split at hrule
    · cases hrule
    · next pattern tokens hwords =>
      split at hrule
      · cases hrule
      · obtain rfl := Option.some.inj hrule
        rw [String.toList_ofList]
        intro hmem
        have hword : pattern ∈ splitWhitespace (trim (beforeFirst '#' raw)) :=
          hwords ▸ List.mem_cons_self
        have htrimmed := subset_of_mem_splitOnP (List.mem_filter.1 hword).1 hmem
        have htrim : trim (beforeFirst '#' raw) ⊆ beforeFirst '#' raw := by
          intro c hc
          have hend := (List.dropWhile_sublist _).subset hc
          exact List.mem_reverse.1 ((List.dropWhile_sublist _).subset (List.mem_reverse.1 hend))
        have hbefore := List.mem_takeWhile_imp (htrim htrimmed)
        exact absurd hbefore (by decide)

/-- The owners of every path are those of the last pattern that covers it, if the patterns of the
file cross whole segments and those of its directories have no wildcards, and only then. -/
theorem documented_iff (text : String) :
    (∀ path, [] ∉ segmentsOf path → Documented (CodeOwners.parse text) path) ↔
      ∀ rule ∈ (CodeOwners.parse text).rules, Fits rule.pattern := by
  have hmatched {rule : CodeOwnersRule} (hrule : rule ∈ (CodeOwners.parse text).rules) :
      (∀ path, [] ∉ segmentsOf path →
        (patternMatches rule.pattern path = true ↔ Covers rule.pattern path)) ↔
          Fits rule.pattern := by
    by_cases hdir : DirPattern rule.pattern
    · exact matched_iff_of_dir hdir
    · exact matched_iff_of_file hdir (hash_notMem_of_parse hrule)
  constructor
  · intro h rule hrule
    exact (hmatched hrule).1 fun path hpath => (h path hpath).matched rule hrule
  · intro h path hpath
    have hall : ∀ rule ∈ (CodeOwners.parse text).rules,
        patternMatches rule.pattern path = true ↔ Covers rule.pattern path :=
      fun rule hrule => (hmatched hrule).2 (h rule hrule) path hpath
    exact ⟨hall, lastCovering_of_matched hall⟩

/-- The two stars skip a part of a segment: `a/**/b` is matched with `a/xb`, where no segment is
`b`. -/
theorem stars_skip_part_of_segment :
    (CodeOwners.parse "a/**/b @ops").ownersFor "a/xb" = ["ops"] ∧ [] ∉ segmentsOf "a/xb" ∧
      ¬ Documented (CodeOwners.parse "a/**/b @ops") "a/xb" := by
  have hpath : segmentsOf "a/xb" = [utf8 "a", utf8 "xb"] := by
    rw [segmentsOf]
    decide +kernel
  have hpattern : segmentsOf (patternCore "a/**/b") = [utf8 "a", [star, star], utf8 "b"] := by
    rw [segmentsOf]
    decide +kernel
  refine ⟨by decide +kernel, by rw [hpath]; decide +kernel, ?_⟩
  intro h
  have hmatched := h.matched ⟨"a/**/b", ["ops"]⟩ (by decide +kernel)
  obtain ⟨above, named, below, hsegments, -, hbelow, hmatches⟩ := hmatched.1 (by decide +kernel)
  have hdir : ¬ DirPattern "a/**/b" := by decide +kernel
  obtain rfl := hbelow.resolve_left hdir
  -- the last segment of the path would be `b`
  rw [hpattern, MatchesSegments, if_neg (by decide +kernel)] at hmatches
  obtain ⟨first, rest, rfl, -, hmatches⟩ := hmatches
  rw [MatchesSegments, if_pos rfl] at hmatches
  obtain ⟨skipped, last, rfl, hmatches⟩ := hmatches
  rw [MatchesSegments, if_neg (by decide +kernel)] at hmatches
  obtain ⟨segment, rfl, hmatches⟩ := hmatches
  rw [← globMatch_iff, globMatch_of_literal (by decide +kernel) (by decide +kernel)] at hmatches
  rw [hpath, hmatches] at hsegments
  have hlast := congrArg List.getLast? hsegments
  rw [List.append_nil, ← List.cons_append, ← List.append_assoc, List.getLast?_concat] at hlast
  exact absurd hlast (by decide +kernel)

end Owners

end Edda.Domain.OwnerPatterns
