import Edda.Domain.CodeOwners
import Edda.Git.HistoryExact
import Edda.Git.Resolve
import Edda.Support.Affixes
import Edda.Support.Sections

/-!
# The changelog of a release

The commits that a release adds over the previous tag, grouped by their kind, as Markdown. The text
is read back by `bullets`: the items of the lists, each with the heading it is under. A changelog is
exact (`Lists`) where its items are those of the added commits that are no merges, each once.

A revision can lead to an annotated tag. Such an id is no commit, and the walk over the history does
not look behind it: `changelog_exact_iff` says when the changelog is exact nevertheless.
-/

set_option autoImplicit false

namespace Edda.Git.Changelog

open Edda.Domain Edda.Support Edda.Support.RustText Edda.Support.Worklist

/-! ## The source -/

/-- One line of a changelog. -/
structure ChangelogEntry where
  group : String
  summary : List Char
  shortId : List Char
deriving DecidableEq, Repr

/-- The headings, in their order. -/
def groupOrder : List String :=
  ["Features", "Bug Fixes", "Performance", "Documentation", "Refactoring", "Tests", "Chores",
    "Other Changes"]

/-- The heading of a kind of commit. -/
def headingOf : String → Option String
  | "feat" => some "Features"
  | "fix" => some "Bug Fixes"
  | "perf" => some "Performance"
  | "docs" => some "Documentation"
  | "refactor" => some "Refactoring"
  | "test" => some "Tests"
  | "chore" | "build" | "ci" | "style" => some "Chores"
  | _ => none

/-- `group_for`: the heading of a summary, and the summary without its kind. -/
def groupFor (summary : List Char) : String × List Char :=
  match splitOnce ':' summary with
  | none => ("Other Changes", summary)
  | some (before, rest) =>
    let kind := (splitOnce '(' before).elim before Prod.fst
    match headingOf (String.ofList ((trim (trimEndMatches '!' kind)).map Char.toLower)) with
    | some heading => (heading, trim rest)
    | none => ("Other Changes", summary)

/-- The reader of commit messages. A summary is one line. -/
structure Messages where
  summary : String → List Char
  oneLine : ∀ message, '\n' ∉ summary message

section Source

variable (messages : Messages) (content : ObjectId → Object)

/-- The line of a commit with this message. -/
def entryOf (id : ObjectId) (message : String) : ChangelogEntry :=
  let (group, cleaned) := groupFor (messages.summary message)
  ⟨group, cleaned, id.toHex.toList.take 9⟩

/-- The line of an added id: what is no readable commit has none, and neither has a merge. -/
def entryFor (store : Store) (id : ObjectId) : Option ChangelogEntry :=
  match findObject content store id with
  | .ok (.commit (some commit)) =>
    if 1 < commit.parents.length then none else some (entryOf messages id commit.message)
  | _ => none

/-- The object a revision leads to; the text of an error is the revision parser's. -/
def revParseSingle (revParse : String → Except String ObjectId) (rev : String) :
    Except GitError ObjectId :=
  match revParse rev with
  | .ok id => .ok id
  | .error text => .error (.git text)

/-- `changelog_entries`, in the order of the walk. -/
def changelogEntries (revParse : String → Except String ObjectId) (store : Store)
    (fromRev : Option String) (toRev : String) : Except GitError (List ChangelogEntry) := do
  let toId ← revParseSingle revParse toRev
  let fromHex ← match fromRev with
    | some rev => (revParseSingle revParse rev).map ObjectId.toHex
    | none => .ok ""
  let added ← addedCommits content store fromHex toId.toHex
  return added.commits.filterMap (entryFor messages content store)

/-- The item of a line. -/
def itemText (entry : ChangelogEntry) : List Char :=
  entry.summary ++ " (\x60".toList ++ entry.shortId ++ "\x60)".toList

/-- The line of an item. -/
def itemLine (entry : ChangelogEntry) : List Char := "- ".toList ++ itemText entry ++ ['\n']

/-- Adds the section of a heading, if it has any lines. -/
def addSection (entries : List ChangelogEntry) (out : List Char) (heading : String) : List Char :=
  let group := entries.filter fun entry => entry.group = heading
  if group.isEmpty then out
  else (if out.isEmpty then out else out ++ ['\n']) ++ "### ".toList ++ heading.toList ++
    "\n\n".toList ++ group.flatMap itemLine

/-- `changelog_markdown`. -/
def changelogMarkdown (revParse : String → Except String ObjectId) (store : Store)
    (fromRev : Option String) (toRev : String) : Except GitError String := do
  let entries ← changelogEntries messages content revParse store fromRev toRev
  if entries.isEmpty then return ""
  return String.ofList (groupOrder.foldl (addSection entries) [])

end Source

/-! ## What a changelog is to list -/

/-- The text of a heading. -/
def readHeading (line : List Char) : Option String :=
  (stripPrefix "### ".toList line).map String.ofList

/-- The text of a list item. -/
def readItem (line : List Char) : Option (List Char) := stripPrefix "- ".toList line

/-- The items of a Markdown text, each with the heading it is under. -/
def bullets (markdown : String) : List (String × List Char) :=
  Sections.read readHeading readItem "" (markdown.toList.splitOn '\n')

section Exact

variable (messages : Messages) (content : ObjectId → Object)

/-- The message of the commit that the id names. -/
def messageOf (id : ObjectId) : String :=
  match content id with
  | .commit (some commit) => commit.message
  | _ => ""

/-- The item of a commit, under the heading of its kind. -/
def bulletOf (id : ObjectId) : String × List Char :=
  let entry := entryOf messages id (messageOf content id)
  (entry.group, itemText entry)

/-- The text has one item for each commit that the new value adds and that is no merge, and no
other. -/
def Lists (old : Option ObjectId) (new : ObjectId) (markdown : String) : Prop :=
  ∃ listed : List ObjectId, listed.Nodup ∧
    (∀ id, id ∈ listed ↔ Added content old new id ∧ ¬ IsMerge content id) ∧
      (bullets markdown).Perm (listed.map (bulletOf messages content))

end Exact

/-! ## The text is read back -/

section Text

theorem mem_of_mem_trim {c : Char} {text : List Char} (h : c ∈ trim text) : c ∈ text := by
  have hend : c ∈ trimEnd text := (List.dropWhile_sublist _).mem h
  exact List.mem_reverse.1 ((List.dropWhile_sublist _).mem (List.mem_reverse.1 hend))

/-- A summary loses only what is in front of it, and white space. -/
theorem mem_of_mem_groupFor {c : Char} {summary : List Char} (h : c ∈ (groupFor summary).2) :
    c ∈ summary := by
  unfold groupFor at h
  split at h
  · exact h
  · next before rest hsplit =>
    simp only at h
    split at h
    · rw [splitOnce_eq_some hsplit]
      exact List.mem_append_right _ (List.mem_cons_of_mem _ (mem_of_mem_trim h))
    · exact h

theorem headingOf_mem {kind heading : String} (h : headingOf kind = some heading) :
    heading ∈ groupOrder := by
  unfold headingOf at h
  split at h
  all_goals first
    | (obtain rfl := Option.some.inj h; decide)
    | cases h

/-- Every heading has its place in the changelog. -/
theorem groupFor_mem (summary : List Char) : (groupFor summary).1 ∈ groupOrder := by
  have hother : "Other Changes" ∈ groupOrder := by decide
  unfold groupFor
  split
  · exact hother
  · simp only
    split
    · next heading hheading => exact headingOf_mem hheading
    · exact hother

theorem newline_notMem_hexText (width n : Nat) : '\n' ∉ hexText width n := by
  induction width generalizing n with
  | zero => exact List.not_mem_nil
  | succ width ih =>
    rw [hexText, List.mem_append, List.mem_singleton, not_or]
    have hdigit : ∀ d < 16, '\n' ≠ Char.ofNat (hexDigit d).toNat := by decide
    exact ⟨ih _, hdigit _ (Nat.mod_lt n (by decide))⟩

variable (messages : Messages)

/-- An item is one line. -/
theorem newline_notMem_itemText (id : ObjectId) (message : String) :
    '\n' ∉ itemText (entryOf messages id message) := by
  simp only [itemText, entryOf, List.mem_append, not_or]
  refine ⟨⟨⟨?_, by decide⟩, ?_⟩, by decide⟩
  · exact fun h => messages.oneLine message (mem_of_mem_groupFor h)
  · intro h
    have hhex := List.mem_of_mem_take h
    rw [ObjectId.toHex, String.toList_ofList] at hhex
    exact newline_notMem_hexText _ _ hhex

end Text

section Rendering

variable (entries : List ChangelogEntry)

/-- The lines of the sections of these headings; an empty line stands before each section but the
first. -/
def sectionLines : Bool → List String → List (List Char)
  | _, [] => []
  | first, heading :: headings =>
    let group := entries.filter fun entry => entry.group = heading
    if group.isEmpty then sectionLines first headings
    else (if first then [] else [[]]) ++ ("### ".toList ++ heading.toList) :: [] ::
      (group.map itemText).map ("- ".toList ++ ·) ++ sectionLines false headings

theorem flatMap_itemLine (group : List ChangelogEntry) : group.flatMap itemLine =
    Sections.joinLines '\n' ((group.map itemText).map ("- ".toList ++ ·)) := by
  induction group with
  | nil => rfl
  | cons entry group ih => simp [itemLine, ih]

/-- The sections are put behind the text there is. -/
theorem foldl_addSection (headings : List String) (out : List Char) :
    headings.foldl (addSection entries) out =
      out ++ Sections.joinLines '\n' (sectionLines entries out.isEmpty headings) := by
  induction headings generalizing out with
  | nil => simp [sectionLines]
  | cons heading headings ih =>
    rw [List.foldl_cons, ih, addSection, sectionLines]
    split
    · rfl
    · cases out with
      | nil => simp [flatMap_itemLine]
      | cons c out => simp [flatMap_itemLine]

/-- The reader finds the items of each section under its heading. -/
theorem read_sectionLines (headings : List String) (first : Bool) (current : String) :
    Sections.read readHeading readItem current (sectionLines entries first headings ++ [[]]) =
      headings.flatMap fun heading => (entries.filter fun entry => entry.group = heading).map
        fun entry => (heading, itemText entry) := by
  induction headings generalizing first current with
  | nil => rfl
  | cons heading headings ih =>
    rw [sectionLines, List.flatMap_cons]
    split
    · next hempty => rw [ih, List.isEmpty_iff.1 hempty, List.map_nil, List.nil_append]
    · have hheading : readHeading ("### ".toList ++ heading.toList) = some heading := by
        rw [readHeading, stripPrefix_append, Option.map_some, String.ofList_toList]
      have hnone (text : List Char) : readHeading ("- ".toList ++ text) = none := rfl
      have hitem (text : List Char) : readItem ("- ".toList ++ text) = some text :=
        stripPrefix_append _ _
      have hsection (current : String) : Sections.read readHeading readItem current
          (("### ".toList ++ heading.toList) :: [] ::
            ((entries.filter fun entry => entry.group = heading).map itemText).map
              ("- ".toList ++ ·) ++ sectionLines entries false headings ++ [[]]) =
          (entries.filter fun entry => entry.group = heading).map
            (fun entry => (heading, itemText entry)) ++
          headings.flatMap fun heading => (entries.filter fun entry => entry.group = heading).map
            fun entry => (heading, itemText entry) := by
        rw [List.cons_append, List.cons_append, List.cons_append, List.cons_append,
          Sections.read_heading hheading, Sections.read_skip rfl rfl, List.append_assoc,
          Sections.read_section _ (fun text _ => hnone text) (fun text _ => hitem text), ih,
          List.map_map]
        rfl
      -- the line in front of a section is empty
      cases first with
      | true => exact hsection current
      | false =>
        rw [← hsection current]
        exact Sections.read_skip rfl rfl

theorem newline_notMem_sectionLines {headings : List String} {first : Bool}
    (hheadings : ∀ heading ∈ headings, '\n' ∉ heading.toList)
    (hlines : ∀ entry ∈ entries, '\n' ∉ itemText entry) :
    ∀ line ∈ sectionLines entries first headings, '\n' ∉ line := by
  induction headings generalizing first with
  | nil => exact fun line hline => absurd hline List.not_mem_nil
  | cons heading headings ih =>
    have hrest (first : Bool) := @ih first fun other hother =>
      hheadings other (List.mem_cons_of_mem _ hother)
    rw [sectionLines]
    split
    · exact hrest first
    · intro line hline
      rw [List.mem_append, List.mem_append, List.mem_cons, List.mem_cons, List.mem_map] at hline
      rcases hline with (hempty | rfl | rfl | ⟨text, htext, rfl⟩) | hline
      · cases first with
        | true => cases hempty
        | false => exact List.mem_singleton.1 hempty ▸ List.not_mem_nil
      · rw [List.mem_append, not_or]
        exact ⟨by decide, hheadings heading List.mem_cons_self⟩
      · exact List.not_mem_nil
      · obtain ⟨entry, hentry, rfl⟩ := List.mem_map.1 htext
        rw [List.mem_append, not_or]
        exact ⟨by decide, hlines entry (List.mem_filter.1 hentry).1⟩
      · exact hrest false line hline

variable {entries}

/-- The changelog of entries has their items, each under its heading. -/
theorem bullets_of_entries (hgroups : ∀ entry ∈ entries, entry.group ∈ groupOrder)
    (hlines : ∀ entry ∈ entries, '\n' ∉ itemText entry) :
    (bullets (String.ofList (groupOrder.foldl (addSection entries) []))).Perm
      (entries.map fun entry => (entry.group, itemText entry)) := by
  have hheadings : ∀ heading ∈ groupOrder, '\n' ∉ heading.toList := by decide
  rw [bullets, String.toList_ofList, foldl_addSection, List.nil_append,
    Sections.splitOn_joinLines (newline_notMem_sectionLines entries hheadings hlines),
    read_sectionLines]
  have hgroup : ∀ heading ∈ groupOrder, ((entries.filter fun entry => entry.group = heading).map
      fun entry => (heading, itemText entry)) = (entries.filter fun entry => entry.group = heading
        ).map fun entry => (entry.group, itemText entry) := by
    intro heading _
    apply List.map_congr_left
    intro entry hentry
    rw [of_decide_eq_true (List.mem_filter.1 hentry).2]
  rw [List.flatMap_congr hgroup, ← List.map_flatMap]
  exact (Sections.perm_flatMap_filter ChangelogEntry.group (by decide) hgroups).map _

end Rendering

/-! ## The range of a changelog -/

section Range

variable (gix : Gix) (messages : Messages) (revParse : String → Except String ObjectId)
  (store : Store)

/-- A revision leads to an object, from which tags lead on to the commit. -/
structure Leads (rev : String) (id commit : ObjectId) : Prop where
  parsed : revParse rev = .ok id
  peeled : peelToCommit gix store (store.length + 1) id = .ok commit

/-- The object that the previous tag names, and the commit behind it, if there is a previous tag. -/
inductive Previous : Option String → Option ObjectId → Option ObjectId → Prop
  | first : Previous none none none
  | tag {rev : String} {id commit : ObjectId} : Leads gix revParse store rev id commit →
      Previous (some rev) (some id) (some commit)

/-- A history of stored commits, no more of them than a walk visits. -/
structure WithinBound (tip : ObjectId) : Prop where
  graph : CommitGraph gix.content store tip
  few : AtMost maxWalk fun id => Ancestor gix.content id tip

/-- When the changelog is exact. Where the target is a commit, the previous tag is none or names its
commit itself, or it leads to nothing that the target's history lists. Where the target names a tag,
nothing is to be listed. The id of all zeros counts as no previous tag. -/
def Fits (tag prev : Option ObjectId) (toId target : ObjectId) : Prop :=
  if toId = target then (tag = prev ∧ tag ≠ some 0) ∨
    ∀ id, Ancestor gix.content id target → ¬ IsMerge gix.content id →
      Added gix.content prev target id
  else ∀ id, Added gix.content prev target id → IsMerge gix.content id

variable {gix messages revParse store} {id commit tip : ObjectId} {old : Option ObjectId}

/-- What is peeled is the commit itself, or a tag. -/
theorem peeled_cases {depth : Nat} (h : peelToCommit gix store depth id = .ok commit) :
    id = commit ∨ (gix.content id).kind = .tag := by
  cases depth with
  | zero => exact absurd h (by simp [peelToCommit])
  | succ depth =>
    rw [peelToCommit] at h
    split at h
    · cases h
    · exact .inl (Except.ok.inj h)
    · cases h
    · next body hfind =>
      rw [← (mem_of_findObject gix.content hfind).2]
      exact .inr rfl
    · cases h

/-- A tag has no history but itself. -/
theorem ancestor_of_tag (htag : (gix.content tip).kind = .tag)
    (h : Ancestor gix.content id tip) : id = tip := by
  rcases Relation.ReflTransGen.cases_head h with heq | ⟨parent, hparent, -⟩
  · exact heq.symm
  · unfold parentsOf at hparent
    split at hparent
    · next hcontent =>
      rw [hcontent] at htag
      cases htag
    · exact absurd hparent List.not_mem_nil

theorem isNoValue_toHex : isNoValue id.toHex = true ↔ id = 0 := by
  constructor
  · intro h
    have hzeros : id.toHex = String.ofList (List.replicate 40 '0') := by
      rw [← String.toList_inj, String.toList_ofList, List.eq_replicate_iff]
      refine ⟨by rw [ObjectId.toHex, String.toList_ofList, length_hexText], ?_⟩
      exact fun c hc => of_decide_eq_true (List.all_eq_true.1 h c hc)
    have hread := ObjectId.fromHex_toHex id
    rw [hzeros] at hread
    exact (Option.some.inj hread).symm
  · rintro rfl
    decide +kernel

/-! ## The walks -/

/-- Below the bound, no walk over the history is cut short. -/
theorem WithinBound.failure (h : WithinBound gix store tip) (skip : ObjectId → Bool) :
    (walkHistory gix.content store skip tip).failure = none := by
  apply walkHistory_failure
  intro ids hnodup hids
  exact h.few ids hnodup fun id hid => ancestor_of_reaches gix.content store (hids id hid)

theorem WithinBound.inspected_iff (h : WithinBound gix store tip) :
    id ∈ inspected gix.content store (some tip) ↔ Ancestor gix.content id tip := by
  constructor
  · exact ancestor_of_mem_walkHistory gix.content store
  · intro hanc
    rcases mem_walkHistory gix.content store h.graph.stored (h.failure fun _ => false) hanc with
      hvisited | ⟨_, hskip, -⟩
    · exact hvisited
    · cases hskip

/-- The walk from the target lists its history up to what was inspected, where that is closed under
ancestors. -/
theorem WithinBound.listed_iff (h : WithinBound gix store tip)
    (hclosed : ∀ b ∈ inspected gix.content store old, ∀ a, Ancestor gix.content a b →
      a ∈ inspected gix.content store old) :
    id ∈ (newWalk gix.content store old tip).order ↔
      Ancestor gix.content id tip ∧ id ∉ inspected gix.content store old := by
  rw [State.order, List.mem_reverse]
  constructor
  · intro hmem
    refine ⟨ancestor_of_mem_walkHistory gix.content store hmem, ?_⟩
    exact of_decide_eq_false ((run_sound _ [tip] _).reached id hmem).skip_eq_false
  · rintro ⟨hanc, hnew⟩
    rcases mem_walkHistory gix.content store h.graph.stored (h.failure _) hanc with
      hvisited | ⟨b, hskip, hbelow⟩
    · exact hvisited
    · exact absurd (hclosed b (of_decide_eq_true hskip) id hbelow) hnew

/-- The previous value that the walk stops at. -/
def boundary (tag : Option ObjectId) : Option ObjectId := tag.filter (· ≠ 0)

/-- The walks of a changelog. -/
theorem addedCommits_texts (tag : Option ObjectId) (toId : ObjectId) :
    ∃ fastForward truncated, addedCommits gix.content store (tag.elim "" ObjectId.toHex) toId.toHex =
      .ok ⟨(newWalk gix.content store (boundary tag) toId).order, fastForward, truncated⟩ := by
  cases tag with
  | none =>
    rw [addedCommits, ObjectId.fromHex_toHex]
    exact ⟨_, _, rfl⟩
  | some id =>
    by_cases hzero : id = 0
    · have hvalue : isNoValue id.toHex = true := isNoValue_toHex.2 hzero
      have hnone : boundary (some id) = none := Option.filter_some_neg (by simpa using hzero)
      simp only [Option.elim_some, addedCommits, ObjectId.fromHex_toHex, hvalue, if_true, hnone]
      exact ⟨_, _, rfl⟩
    · have hvalue : isNoValue id.toHex = false :=
        Bool.eq_false_iff.2 fun h => hzero (isNoValue_toHex.1 h)
      have hsome : boundary (some id) = some id := Option.filter_some_pos (by simpa using hzero)
      simp only [Option.elim_some, addedCommits, ObjectId.fromHex_toHex, hvalue,
        Bool.false_eq_true, if_false, hsome]
      exact ⟨_, _, rfl⟩

/-- The ids that the changelog is made from. -/
theorem changelogEntries_eq {fromRev : Option String} {toRev : String} {tag prev : Option ObjectId}
    {toId target : ObjectId} (hto : Leads gix revParse store toRev toId target)
    (hprev : Previous gix revParse store fromRev tag prev) :
    changelogEntries messages gix.content revParse store fromRev toRev =
      .ok ((newWalk gix.content store (boundary tag) toId).order.filterMap
        (entryFor messages gix.content store)) := by
  obtain ⟨fastForward, truncated, hadded⟩ := @addedCommits_texts gix store tag toId
  have hparsed : revParseSingle revParse toRev = .ok toId := by
    rw [revParseSingle, hto.parsed]
  cases hprev with
  | first =>
    simp only [changelogEntries, hparsed, bind, Except.bind]
    rw [Option.elim_none] at hadded
    rw [hadded]
    rfl
  | @tag rev id commit hleads =>
    have hprevious : revParseSingle revParse rev = .ok id := by
      rw [revParseSingle, hleads.parsed]
    simp only [changelogEntries, hparsed, hprevious, bind, Except.bind, Except.map]
    rw [Option.elim_some] at hadded
    rw [hadded]
    rfl

/-- The changelog of entries; without any it is empty. -/
theorem changelogMarkdown_eq {fromRev : Option String} {toRev : String}
    {entries : List ChangelogEntry}
    (h : changelogEntries messages gix.content revParse store fromRev toRev = .ok entries) :
    changelogMarkdown messages gix.content revParse store fromRev toRev =
      .ok (String.ofList (groupOrder.foldl (addSection entries) [])) := by
  simp only [changelogMarkdown, h, bind, Except.bind]
  cases entries with
  | nil => rfl
  | cons entry entries => rfl

/-- The lines of listed commits are those of the commits that are no merges. -/
theorem filterMap_entryFor {ids : List ObjectId} (hgraph : CommitGraph gix.content store tip)
    (hids : ∀ id ∈ ids, Ancestor gix.content id tip) :
    ids.filterMap (entryFor messages gix.content store) =
      (ids.filter fun id => ¬ 1 < (parentsOf gix.content id).length).map fun id =>
        entryOf messages id (messageOf gix.content id) := by
  induction ids with
  | nil => rfl
  | cons id ids ih =>
    obtain ⟨commit, hcommit⟩ := hgraph.commit id (hids id List.mem_cons_self)
    have hfind := findObject_of_mem gix.content (hgraph.stored id (hids id List.mem_cons_self))
    have hrest := ih fun other hother => hids other (List.mem_cons_of_mem _ hother)
    have hparents : parentsOf gix.content id = commit.parents := by
      rw [parentsOf, hcommit]
    have hmessage : messageOf gix.content id = commit.message := by
      rw [messageOf, hcommit]
    rw [hcommit] at hfind
    by_cases hmerge : 1 < commit.parents.length
    · have hnone : entryFor messages gix.content store id = none := by
        simp only [entryFor, hfind, if_pos hmerge]
      rw [List.filterMap_cons_none hnone, hrest, List.filter_cons_of_neg (by simpa [hparents] using hmerge)]
    · have hsome : entryFor messages gix.content store id =
          some (entryOf messages id (messageOf gix.content id)) := by
        simp only [entryFor, hfind, if_neg hmerge, hmessage]
      rw [List.filterMap_cons_some hsome, hrest, List.filter_cons_of_pos (by simpa [hparents] using hmerge),
        List.map_cons]

/-- The items of a changelog are those of the commits it is made from. -/
theorem bullets_of_ids (ids : List ObjectId) :
    (bullets (String.ofList (groupOrder.foldl (addSection (ids.map fun id =>
      entryOf messages id (messageOf gix.content id))) []))).Perm
        (ids.map (bulletOf messages gix.content)) := by
  have h : (ids.map (bulletOf messages gix.content)) =
      (ids.map fun id => entryOf messages id (messageOf gix.content id)).map
        fun entry => (entry.group, itemText entry) := by
    rw [List.map_map]
    rfl
  rw [h]
  apply bullets_of_entries
  · intro entry hentry
    obtain ⟨id, -, rfl⟩ := List.mem_map.1 hentry
    exact groupFor_mem _
  · intro entry hentry
    obtain ⟨id, -, rfl⟩ := List.mem_map.1 hentry
    exact newline_notMem_itemText messages id _

/-- A changelog that has all items that it is to have is exact where it has no other. -/
theorem lists_iff {ids : List ObjectId} {new : ObjectId} {markdown : String} (hnodup : ids.Nodup)
    (hbullets : (bullets markdown).Perm (ids.map (bulletOf messages gix.content)))
    (hall : ∀ id, Added gix.content old new id → ¬ IsMerge gix.content id → id ∈ ids) :
    Lists messages gix.content old new markdown ↔
      ∀ id ∈ ids, Added gix.content old new id ∧ ¬ IsMerge gix.content id := by
  constructor
  · rintro ⟨listed, hlisted, hmem, hperm⟩
    have hlength : ids.length ≤ listed.length := by
      have := (hbullets.symm.trans hperm).length_eq
      rw [List.length_map, List.length_map] at this
      exact this.le
    have hsub : listed ⊆ ids := fun id hid => hall id ((hmem id).1 hid).1 ((hmem id).1 hid).2
    -- as many commits as there are items, so that no other is left
    have hsame := (hlisted.subperm hsub).perm_of_length_le hlength
    exact fun id hid => (hmem id).1 (hsame.mem_iff.2 hid)
  · intro h
    exact ⟨ids, hnodup, fun id => ⟨h id, fun hid => hall id hid.1 hid.2⟩, hbullets⟩

/-! ## When a changelog is exact -/

/-- The commits that a changelog is made from where its target is a commit. -/
def kept (gix : Gix) (store : Store) (tag : Option ObjectId) (target : ObjectId) : List ObjectId :=
  (newWalk gix.content store (boundary tag) target).order.filter
    fun id => ¬ 1 < (parentsOf gix.content id).length

section Kept

variable {tag prev : Option ObjectId} {target : ObjectId} {markdown : String}

theorem boundary_of_stops (hstops : tag = prev ∧ tag ≠ some 0) : boundary tag = prev := by
  obtain ⟨rfl, hne⟩ := hstops
  cases tag with
  | none => rfl
  | some id => exact Option.filter_some_pos (by simpa using hne)

/-- Where the walk stops at the previous commit, its history is inspected. -/
theorem inspected_of_stops (hstops : tag = prev ∧ tag ≠ some 0)
    (hprev : ∀ commit, prev = some commit → WithinBound gix store commit) :
    id ∈ inspected gix.content store (boundary tag) ↔
      ∃ commit, prev = some commit ∧ Ancestor gix.content id commit := by
  rw [boundary_of_stops hstops]
  cases prev with
  | none => simp [inspected]
  | some commit =>
    rw [(hprev commit rfl).inspected_iff]
    simp

/-- Where it does not, no more is inspected than the object of a tag. -/
theorem tag_of_inspected (htag : tag = prev ∨ ∃ id, tag = some id ∧ (gix.content id).kind = .tag)
    (hstops : ¬ (tag = prev ∧ tag ≠ some 0))
    (hid : id ∈ inspected gix.content store (boundary tag)) :
    boundary tag = some id ∧ (gix.content id).kind = .tag := by
  by_cases hzero : tag = some 0
  · have hnone : boundary tag = none := by
      rw [hzero]
      rfl
    rw [hnone] at hid
    exact absurd hid List.not_mem_nil
  · obtain ⟨tagId, rfl, hkind⟩ := htag.resolve_left fun heq => hstops ⟨heq, hzero⟩
    have hsome : boundary (some tagId) = some tagId :=
      Option.filter_some_pos (by simpa using hzero)
    rw [hsome] at hid ⊢
    rw [ancestor_of_tag hkind (ancestor_of_mem_walkHistory gix.content store hid)]
    exact ⟨rfl, hkind⟩

/-- Nothing inspected then is a commit. -/
theorem not_inspected_of_commit (htarget : WithinBound gix store target)
    (htag : tag = prev ∨ ∃ id, tag = some id ∧ (gix.content id).kind = .tag)
    (hstops : ¬ (tag = prev ∧ tag ≠ some 0)) (hanc : Ancestor gix.content id target) :
    id ∉ inspected gix.content store (boundary tag) := by
  intro hid
  have hkind := (tag_of_inspected htag hstops hid).2
  obtain ⟨commit, hcommit⟩ := htarget.graph.commit id hanc
  rw [hcommit] at hkind
  cases hkind

theorem inspected_closed (htag : tag = prev ∨ ∃ id, tag = some id ∧ (gix.content id).kind = .tag)
    (hprev : ∀ commit, prev = some commit → WithinBound gix store commit) :
    ∀ b ∈ inspected gix.content store (boundary tag), ∀ a, Ancestor gix.content a b →
      a ∈ inspected gix.content store (boundary tag) := by
  intro b hb a hab
  by_cases hstops : tag = prev ∧ tag ≠ some 0
  · rw [inspected_of_stops hstops hprev] at hb ⊢
    obtain ⟨commit, hcommit, hbelow⟩ := hb
    exact ⟨commit, hcommit, Relation.ReflTransGen.trans hbelow hab⟩
  · -- below a tag is only the tag
    rw [ancestor_of_tag (tag_of_inspected htag hstops hb).2 hab]
    exact hb

theorem mem_kept (htarget : WithinBound gix store target)
    (htag : tag = prev ∨ ∃ id, tag = some id ∧ (gix.content id).kind = .tag)
    (hprev : ∀ commit, prev = some commit → WithinBound gix store commit) :
    id ∈ kept gix store tag target ↔
      (Ancestor gix.content id target ∧ id ∉ inspected gix.content store (boundary tag)) ∧
        ¬ IsMerge gix.content id := by
  rw [kept, List.mem_filter, htarget.listed_iff (inspected_closed htag hprev), decide_eq_true_eq]
  exact Iff.rfl

/-- The changelog of a commit is exact if and only if the walk stops at the previous commit, or all
that the history of the target lists is added. -/
theorem lists_kept_iff (htarget : WithinBound gix store target)
    (htag : tag = prev ∨ ∃ id, tag = some id ∧ (gix.content id).kind = .tag)
    (hprev : ∀ commit, prev = some commit → WithinBound gix store commit)
    (hbullets : (bullets markdown).Perm
      ((kept gix store tag target).map (bulletOf messages gix.content))) :
    Lists messages gix.content prev target markdown ↔
      ((tag = prev ∧ tag ≠ some 0) ∨ ∀ id, Ancestor gix.content id target →
        ¬ IsMerge gix.content id → Added gix.content prev target id) := by
  have hmem (id : ObjectId) := @mem_kept gix store id tag prev target htarget htag hprev
  have hnodup : (kept gix store tag target).Nodup :=
    (nodup_order (historyWalk gix.content store _) rfl [target] _).filter _
  by_cases hstops : tag = prev ∧ tag ≠ some 0
  · have hadded : ∀ id, id ∈ kept gix store tag target ↔
        Added gix.content prev target id ∧ ¬ IsMerge gix.content id := by
      intro id
      rw [hmem, inspected_of_stops hstops hprev, Added]
      simp only [not_exists, not_and]
    rw [lists_iff hnodup hbullets fun id hadd hmerge => (hadded id).2 ⟨hadd, hmerge⟩]
    exact ⟨fun _ => .inl hstops, fun _ id hid => (hadded id).1 hid⟩
  · have hfree : ∀ id, id ∈ kept gix store tag target ↔
        Ancestor gix.content id target ∧ ¬ IsMerge gix.content id := by
      intro id
      rw [hmem]
      constructor
      · exact fun h => ⟨h.1.1, h.2⟩
      · exact fun h => ⟨⟨h.1, not_inspected_of_commit htarget htag hstops h.1⟩, h.2⟩
    rw [lists_iff hnodup hbullets fun id hadd hmerge => (hfree id).2 ⟨hadd.1, hmerge⟩,
      or_iff_right hstops]
    constructor
    · exact fun h id hanc hmerge => (h id ((hfree id).2 ⟨hanc, hmerge⟩)).1
    · intro h id hid
      obtain ⟨hanc, hmerge⟩ := (hfree id).1 hid
      exact ⟨h id hanc hmerge, hmerge⟩

end Kept

/-- What is listed of a tag is nothing. -/
theorem filterMap_tag {old : Option ObjectId} {toId : ObjectId}
    (htag : (gix.content toId).kind = .tag) :
    (newWalk gix.content store old toId).order.filterMap (entryFor messages gix.content store) =
      [] := by
  rw [List.filterMap_eq_nil_iff]
  intro id hid
  rw [State.order, List.mem_reverse] at hid
  rw [ancestor_of_tag htag (ancestor_of_mem_walkHistory gix.content store hid), entryFor]
  split
  · next commit hfind =>
    rw [← (mem_of_findObject gix.content hfind).2] at htag
    cases htag
  · rfl

theorem lists_nil_iff {new : ObjectId} : Lists messages gix.content old new "" ↔
    ∀ id, Added gix.content old new id → IsMerge gix.content id := by
  have hbullets : bullets "" = [] := rfl
  rw [Lists, hbullets]
  constructor
  · rintro ⟨listed, -, hmem, hperm⟩ id hadded
    have hnil : listed = [] := List.map_eq_nil_iff.1 (List.nil_perm.1 hperm)
    by_contra hmerge
    have hid := (hmem id).2 ⟨hadded, hmerge⟩
    rw [hnil] at hid
    exact absurd hid List.not_mem_nil
  · intro h
    refine ⟨[], List.nodup_nil, fun id => ?_, List.Perm.nil⟩
    exact ⟨fun hid => absurd hid List.not_mem_nil, fun hid => absurd (h id hid.1) hid.2⟩

/-- A changelog is written for every range. It lists each added commit that is no merge once, under
the heading of its kind, and nothing else, exactly where `Fits` says. -/
theorem changelog_exact_iff (fromRev : Option String) (toRev : String)
    (tag prev : Option ObjectId) (toId target : ObjectId)
    (hto : Leads gix revParse store toRev toId target)
    (hprev : Previous gix revParse store fromRev tag prev)
    (hbound : WithinBound gix store target)
    (hbound' : ∀ commit, prev = some commit → WithinBound gix store commit) :
    ∃ markdown, changelogMarkdown messages gix.content revParse store fromRev toRev = .ok markdown ∧
      (Lists messages gix.content prev target markdown ↔ Fits gix tag prev toId target) := by
  refine ⟨_, changelogMarkdown_eq (changelogEntries_eq hto hprev), ?_⟩
  have htag : tag = prev ∨ ∃ id, tag = some id ∧ (gix.content id).kind = .tag := by
    cases hprev with
    | first => exact .inl rfl
    | tag hleads =>
      rcases peeled_cases hleads.peeled with rfl | hkind
      · exact .inl rfl
      · exact .inr ⟨_, rfl, hkind⟩
  rw [Fits]
  by_cases hsame : toId = target
  · rw [if_pos hsame, hsame, filterMap_entryFor hbound.graph]
    · exact lists_kept_iff hbound htag hbound' (bullets_of_ids _)
    · intro id hid
      rw [State.order, List.mem_reverse] at hid
      exact ancestor_of_mem_walkHistory gix.content store hid
  · have hkind := (peeled_cases hto.peeled).resolve_left hsame
    rw [if_neg hsame, filterMap_tag hkind]
    exact lists_nil_iff

end Range

/-! ## The notes of a release -/

section Release

variable (gix : Gix) (messages : Messages) (revParse : String → Except String ObjectId)
  (store : Store)

/-- The tag of the newest other release whose tag still resolves; the releases are given newest
first. -/
def previousTag (resolveTag : String → Option ObjectId) (tagName : String)
    (releases : List String) : Option String :=
  releases.find? fun tag => tag ≠ tagName ∧ (resolveTag tag).isSome

/-- The body of a new release: the text that was given, or the changelog if that is asked for. -/
def releaseBody (resolveTag : String → Option ObjectId) (tagName : String)
    (releases : List String) (body : Option (List Char)) (generateNotes : Bool)
    (targetCommit : ObjectId) : Except GitError (Option String) :=
  match (body.map trim).filter fun text => !text.isEmpty with
  | some text => .ok (some (String.ofList text))
  | none =>
    if generateNotes then do
      let generated ← changelogMarkdown messages gix.content revParse store
        (previousTag resolveTag tagName releases) targetCommit.toHex
      return if generated.isEmpty then none else some generated
    else .ok none

variable {gix messages revParse store}

/-- The releases cut here have annotated tags. The notes of the release after one are exact only
where the history of the target has no commit of the earlier release, merges aside. -/
theorem notes_after_annotated {tagName previous : String} {releases : List String}
    {resolveTag : String → Option ObjectId} {tag commit target : ObjectId}
    (hprevious : previousTag resolveTag tagName releases = some previous)
    (hleads : Leads gix revParse store previous tag commit)
    (hannotated : (gix.content tag).kind = .tag)
    (htarget : Leads gix revParse store target.toHex target target)
    (hbound : WithinBound gix store target) (hbound' : WithinBound gix store commit) :
    ∃ markdown, releaseBody gix messages revParse store resolveTag tagName releases none true target =
        .ok (if markdown.isEmpty then none else some markdown) ∧
      (Lists messages gix.content (some commit) target markdown ↔
        ∀ id, Ancestor gix.content id target → ¬ IsMerge gix.content id →
          ¬ Ancestor gix.content id commit) := by
  have hne : tag ≠ commit := by
    rintro rfl
    obtain ⟨body, hbody⟩ := hbound'.graph.commit tag Relation.ReflTransGen.refl
    rw [hbody] at hannotated
    cases hannotated
  have hprev : Previous gix revParse store (some previous) (some tag) (some commit) := .tag hleads
  obtain ⟨markdown, hmarkdown, hexact⟩ :=
    @changelog_exact_iff gix messages revParse store _ _ _ _ _ _ htarget hprev hbound
      fun other hother => Option.some.inj hother ▸ hbound'
  refine ⟨markdown, ?_, hexact.trans ?_⟩
  · simp only [releaseBody, hprevious, hmarkdown]
    rfl
  · rw [Fits, if_pos rfl, or_iff_right (fun h => hne (Option.some.inj h.1))]
    simp only [Added, Option.some.injEq, forall_eq']
    exact ⟨fun h id hanc hmerge => (h id hanc hmerge).2,
      fun h id hanc hmerge => ⟨hanc, h id hanc hmerge⟩⟩

end Release

/-! ## A release after an annotated tag -/

/-- A commit with this message. -/
def written (message : String) (parents : List ObjectId) : Object :=
  .commit (some ⟨4, parents, none, none, none, message, []⟩)

/-- The commit 1, which the tag 3 names, and the commit 2 behind it. -/
def taggedGix : Gix where
  content := fun id =>
    if id = 1 then written "feat: one" []
    else if id = 2 then written "fix: two" [1]
    else if id = 3 then .tag (some ⟨1, "v1", "The first"⟩)
    else .tree (some [])
  packObjects := fun _ => []
  writeToDirectory := fun _ _ => .error "bad header"
  validateRefName := fun _ => none
  debug := fun text => "\"" ++ text ++ "\""
  transactionError := fun _ _ => "the reference has moved"
  ioError := "input/output error"

/-- `v1` is an annotated tag, and `v1-light` a lightweight one. -/
def taggedRevs (rev : String) : Except String ObjectId :=
  if rev = "v1" then .ok 3 else if rev = "v1-light" then .ok 1
  else if rev = ObjectId.toHex 2 then .ok 2 else .error "not found"

/-- Summaries are the first lines. -/
def firstLines : Messages where
  summary := fun message => message.toList.takeWhile (· ≠ '\n')
  oneLine := fun message h => absurd (List.mem_takeWhile_imp h) (by decide)

def taggedChangelog : String :=
  "### Features\n\n- one (\x60000000000\x60)\n\n### Bug Fixes\n\n- two (\x60000000000\x60)\n"

theorem parentsOf_tagged {id parent : ObjectId} (h : parent ∈ parentsOf taggedGix.content id) :
    id = 2 ∧ parent = 1 := by
  rw [parentsOf] at h
  split at h
  · next commit hcommit =>
    simp only [taggedGix, written] at hcommit
    split_ifs at hcommit with hone htwo hthree
    · simp [← Option.some.inj (Object.commit.inj hcommit)] at h
    · rw [← Option.some.inj (Object.commit.inj hcommit)] at h
      exact ⟨htwo, List.mem_singleton.1 h⟩
  · exact absurd h List.not_mem_nil

/-- The history of both commits is within the bound. -/
theorem tagged_bound {tip : ObjectId} (htip : tip ∈ [(1 : ObjectId), 2]) :
    WithinBound taggedGix [1, 2, 3, 4] tip := by
  have hmem : ∀ id, Ancestor taggedGix.content id tip → id ∈ [(1 : ObjectId), 2] := by
    intro id hid
    induction hid with
    | refl => exact htip
    | tail _ hparent _ =>
      rw [(parentsOf_tagged hparent).2]
      exact List.mem_cons_self
  refine ⟨⟨?_, ?_⟩, AtMost.of_forall_mem [1, 2] hmem (by decide)⟩
  · intro id hid
    exact List.mem_append_left [3, 4] (hmem id hid)
  · intro id hid
    rcases List.mem_cons.1 (hmem id hid) with rfl | hid
    · exact ⟨_, rfl⟩
    · obtain rfl := List.mem_singleton.1 hid
      exact ⟨_, rfl⟩

/-- After the lightweight tag, the changelog is exact. -/
theorem changelog_exact_lightweight :
    ∃ markdown, changelogMarkdown firstLines taggedGix.content taggedRevs [1, 2, 3, 4]
        (some "v1-light") (ObjectId.toHex 2) = .ok markdown ∧
      (Lists firstLines taggedGix.content (some 1) 2 markdown ↔
        Fits taggedGix (some 1) (some 1) 2 2) := by
  apply changelog_exact_iff
  · exact ⟨by decide +kernel, by decide +kernel⟩
  · exact .tag ⟨by decide +kernel, by decide +kernel⟩
  · exact tagged_bound (by decide)
  · intro commit hcommit
    exact tagged_bound (by simp [← Option.some.inj hcommit])

/-- After the annotated tag of the commit 1, the changelog of the commit 2 lists the commit 1
again. -/
theorem released_commit_listed :
    Previous taggedGix taggedRevs [1, 2, 3, 4] (some "v1") (some 3) (some 1) ∧
      changelogMarkdown firstLines taggedGix.content taggedRevs [1, 2, 3, 4] (some "v1")
        (ObjectId.toHex 2) = .ok taggedChangelog ∧
      ¬ Lists firstLines taggedGix.content (some 1) 2 taggedChangelog := by
  refine ⟨.tag ⟨by decide +kernel, by decide +kernel⟩, by decide +kernel, ?_⟩
  rintro ⟨listed, hlisted, hmem, hperm⟩
  have hbullets : (bullets taggedChangelog).length = 2 := by decide +kernel
  have hlength : listed.length = 2 := by
    rw [← hbullets, hperm.length_eq, List.length_map]
  -- the commit 2 is the only one to be listed
  have hsub : listed ⊆ [2] := by
    intro id hid
    obtain ⟨⟨hanc, hfresh⟩, -⟩ := (hmem id).1 hid
    rcases Relation.ReflTransGen.cases_head hanc with rfl | ⟨parent, hparent, hrest⟩
    · exact List.mem_singleton_self _
    · rw [(parentsOf_tagged hparent).2] at hrest
      exact absurd hrest (hfresh 1 rfl)
  have := (hlisted.subperm hsub).length_le
  rw [hlength, List.length_singleton] at this
  omega

end Edda.Git.Changelog
