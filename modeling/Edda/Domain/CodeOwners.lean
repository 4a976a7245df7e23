import Edda.Domain.BranchProtection

/-!
# Code owners

A `CODEOWNERS` file maps patterns of paths to the accounts that are responsible for them. The last
rule whose pattern matches a path names its owners. In a pattern `*` and `?` stay within a segment
of the path and `**` crosses segments; `globSegmented_crossing` and `globSegmented_star` are the two
ways that the source tries for each kind of star.

`mem_ownersForPaths` and `nodup_ownersForPaths` say whom a change of some paths concerns.
-/

set_option autoImplicit false

namespace Edda.Domain

open Edda.Support.RustText

/-- A line of the file. The owners are without their `@`. -/
structure CodeOwnersRule where
  pattern : String
  owners : List String
  deriving DecidableEq, Repr

structure CodeOwners where
  rules : List CodeOwnersRule
  deriving DecidableEq, Repr

/-! ## Patterns -/

/-- The byte `/`. -/
def slash : UInt8 := 0x2F

/-- A star that stays within a segment. -/
def segmentMatch (rest : Bytes → Bool) : Bytes → Bool
  | [] => rest []
  | byte :: text => rest (byte :: text) || (byte ≠ slash && segmentMatch rest text)

def globSegmented : Bytes → Bytes → Bool
  | [], text => text.isEmpty
  -- `**/` stands for any bytes, also for none
  | 0x2A :: 0x2A :: 0x2F :: rest, text => starMatch (globSegmented rest) text
  | [0x2A, 0x2A], _ => true
  | 0x2A :: rest, text => segmentMatch (globSegmented rest) text
  | 0x3F :: rest, text => match text with
    | [] => false
    | byte :: text => byte ≠ slash && globSegmented rest text
  | literal :: rest, text => match text with
    | [] => false
    | byte :: text => byte = literal && globSegmented rest text

/-- The ways `**/` matches, as the source tries them. -/
theorem globSegmented_crossing (rest text : Bytes) :
    globSegmented (star :: star :: slash :: rest) text =
      (globSegmented rest text ||
        (!text.isEmpty && globSegmented (star :: star :: slash :: rest) text.tail)) := by
  cases text with
  | nil => simp [star, slash, globSegmented, starMatch]
  | cons byte text => simp [star, slash, globSegmented, starMatch]

/-- The ways a star within a segment matches. -/
theorem globSegmented_star (rest text : Bytes) (hcrossing : ¬ [star, slash] <+: rest)
    (hlast : rest ≠ [star]) :
    globSegmented (star :: rest) text =
      (globSegmented rest text ||
        (text.head?.any (· ≠ slash) && globSegmented (star :: rest) text.tail)) := by
  have hsegment (text : Bytes) :
      globSegmented (star :: rest) text = segmentMatch (globSegmented rest) text := by
    rw [star, globSegmented]
    · rintro rest' rfl
      exact hcrossing ⟨rest', rfl⟩
    · rintro rfl
      exact hlast rfl
  cases text with
  | nil => simp [hsegment, segmentMatch]
  | cons byte text => simp [hsegment, segmentMatch]

/-- Whether the rest behind some slash of the text matches. -/
def afterSlash (rest : Bytes → Bool) : Bytes → Bool
  | [] => false
  | byte :: text => (byte = slash && rest text) || afterSlash rest text

def trimStartMatches (c : Char) (text : List Char) : List Char := text.dropWhile (· = c)

def trimEndMatches (c : Char) (text : List Char) : List Char :=
  (text.reverse.dropWhile (· = c)).reverse

def patternMatches (pattern path : String) : Bool :=
  let anchored := pattern.toList.head? = some '/'
  let dirPattern := pattern.toList.getLast? = some '/'
  let core := trimEndMatches '/' (trimStartMatches '/' pattern.toList)
  let path' := path.toList
  if dirPattern then
    -- the directory and everything under it
    if anchored then path' = core || (core ++ ['/']).isPrefixOf path'
    else path' = core || (core ++ ['/']).isPrefixOf path' ||
      contains path' ('/' :: core ++ ['/']) || ('/' :: core).isSuffixOf path'
  else if anchored then globSegmented (utf8 (String.ofList core)) (utf8 path)
  else
    let core := globSegmented (utf8 (String.ofList core))
    core (utf8 path) || afterSlash core (utf8 path)

/-! ## Files -/

/-- The rule of a line, unless it is empty, a comment, or names no owner. -/
def parseRule (raw : List Char) : Option CodeOwnersRule :=
  let line := trim (beforeFirst '#' raw)
  if line.isEmpty then none
  else match splitWhitespace line with
    | [] => none
    | pattern :: tokens =>
      let owners := tokens.filterMap (stripPrefix ['@'])
      if owners.isEmpty then none
      else some ⟨String.ofList pattern, owners.map String.ofList⟩

namespace CodeOwners

def parse (text : String) : CodeOwners := ⟨(lines text.toList).filterMap parseRule⟩

variable (codeOwners : CodeOwners)

def isEmpty : Bool := codeOwners.rules.isEmpty

def ownersFor (path : String) : List String :=
  match codeOwners.rules.reverse.find? fun rule => patternMatches rule.pattern path with
  | some rule => rule.owners
  | none => []

/-- Notes the owners that were not seen before. -/
def noteOwners (seen owners : List String) : List String :=
  owners.foldl (fun seen owner => if seen.contains owner then seen else seen ++ [owner]) seen

/-- The owners of some paths, each once, in the order in which they are first seen. -/
def ownersForPaths (paths : List String) : List String :=
  paths.foldl (fun seen path => noteOwners seen (codeOwners.ownersFor path)) []

end CodeOwners

example : (CodeOwners.parse "* @default-owner\n/docs/ @tech @alice # both\nsrc/*.rs @rust"
    ).ownersForPaths ["docs/guide.md", "src/net/main.rs", "src/main.rs", "docs/x"] =
      ["tech", "alice", "default-owner", "rust"] := by decide +kernel

/-! ## Whom a change concerns -/

namespace CodeOwners

theorem mem_noteOwners {seen owners : List String} {owner : String} :
    owner ∈ noteOwners seen owners ↔ owner ∈ seen ∨ owner ∈ owners := by
  induction owners generalizing seen with
  | nil => simp [noteOwners]
  | cons head owners ih =>
    rw [noteOwners, List.foldl_cons, ← noteOwners, ih]
    by_cases hhead : seen.contains head
    · rw [if_pos hhead, List.mem_cons]
      constructor
      · exact Or.imp_right Or.inr
      · rintro (hseen | rfl | howner)
        · exact Or.inl hseen
        · exact Or.inl (List.contains_iff_mem.1 hhead)
        · exact Or.inr howner
    · rw [if_neg hhead, List.mem_append, List.mem_singleton, List.mem_cons, or_assoc]

theorem nodup_noteOwners {seen : List String} (owners : List String) (h : seen.Nodup) :
    (noteOwners seen owners).Nodup := by
  induction owners generalizing seen with
  | nil => exact h
  | cons head owners ih =>
    apply ih
    show (if seen.contains head then seen else seen ++ [head]).Nodup
    split
    · exact h
    · next hnew =>
      refine List.nodup_append.2 ⟨h, List.nodup_singleton _, ?_⟩
      rintro owner howner head' hhead rfl
      rw [List.mem_singleton.1 hhead] at howner
      exact hnew (List.contains_iff_mem.2 howner)

variable (codeOwners : CodeOwners)

/-- An owner is asked exactly if one of the paths is theirs. -/
theorem mem_ownersForPaths {paths : List String} {owner : String} :
    owner ∈ codeOwners.ownersForPaths paths ↔ ∃ path ∈ paths, owner ∈ codeOwners.ownersFor path := by
  -- over the paths, for any owners seen before
  have hseen (seen : List String) :
      owner ∈ paths.foldl (fun seen path => noteOwners seen (codeOwners.ownersFor path)) seen ↔
        owner ∈ seen ∨ ∃ path ∈ paths, owner ∈ codeOwners.ownersFor path := by
    induction paths generalizing seen with
    | nil => simp
    | cons path paths ih =>
      rw [List.foldl_cons, ih, mem_noteOwners, List.exists_mem_cons_iff, or_assoc]
  rw [ownersForPaths, hseen]
  exact or_iff_right List.not_mem_nil

theorem nodup_ownersForPaths (paths : List String) : (codeOwners.ownersForPaths paths).Nodup := by
  have hseen (seen : List String) (h : seen.Nodup) :
      (paths.foldl (fun seen path => noteOwners seen (codeOwners.ownersFor path)) seen).Nodup := by
    induction paths generalizing seen with
    | nil => exact h
    | cons path paths ih => exact ih _ (nodup_noteOwners _ h)
  exact hseen [] List.nodup_nil

end CodeOwners

end Edda.Domain
