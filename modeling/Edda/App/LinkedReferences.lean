import Edda.Domain.CrossReferences
import Edda.Support.Affixes
import Edda.Support.Slices

/-!
# Linked references

A pass over rendered HTML puts a link around each reference of its texts. It cuts the HTML into tags
and the texts between them, and leaves alone what stands within a link or code.

`linkify_pieces` says what the pass writes, for every text: the HTML it was given, with links around
references of the texts that are neither in a link nor in code, and nothing else. `relink_iff` says
when a second pass writes nothing more.
-/

set_option autoImplicit false

namespace Edda.App.LinkedReferences

open Edda.Support Edda.Support.RustText Edda.Domain.CrossReferences

/-! ## The pass -/

/-- The repository that the text belongs to. -/
structure RefContext where
  owner : String
  repo : String
  deriving DecidableEq, Repr

@[irreducible] def hrefFor (cref : CrossReference) (ctx : RefContext) : String :=
  let names := cref.repository.getD (ctx.owner, ctx.repo)
  "/" ++ names.1 ++ "/" ++ names.2 ++ "/issues/" ++ toString cref.number

/-- `str::trim_end_matches`, of one character. -/
def trimEndMatches (sep : Char) (text : List Char) : List Char :=
  (text.reverse.dropWhile (· = sep)).reverse

/-- How a tag changes the number of links and codes that the text behind it stands in. -/
def skipTagEffect (tag : List Char) : Int :=
  let inner := trim (trimEndMatches '/' (trimEndMatches '>' (tag.dropWhile (· = '<'))))
  let (closing, rest) := match stripPrefix ['/'] inner with
    | some rest => (true, trim rest)
    | none => (false, inner)
  let name := (rest.takeWhile fun c => !isWhitespace c).map Char.toLower
  if name ∈ [['a'], ['c', 'o', 'd', 'e'], ['p', 'r', 'e']] then if closing then -1 else 1 else 0

@[irreducible] def linkStart (ctx : RefContext) (cref : CrossReference) : List Char :=
  "<a href=\"".toList ++ (hrefFor cref ctx).toList ++ "\">".toList

def linkEnd : List Char := "</a>".toList

/-- The text from the cursor on, with a link around each span. -/
def linkifySpans (ctx : RefContext) (text : List Char) (cursor : Nat) :
    List (Nat × Nat × CrossReference) → Option (List Char)
  | [] => slice text cursor (byteLength text)
  | (start, stop, cref) :: spans => do
    let before ← slice text cursor start
    let token ← slice text start stop
    let behind ← linkifySpans ctx text stop spans
    some (before ++ (linkStart ctx cref ++ token ++ linkEnd ++ behind))

def linkifyTextRun (text : List Char) (ctx : RefContext) : Option (List Char) :=
  let spans := parseCrossReferenceSpans (String.ofList text)
  if spans.isEmpty then some text else linkifySpans ctx text 0 spans

/-- The depth behind a tag. -/
def depthBehind (skipDepth : Int) (tag : List Char) : Int := max (skipDepth + skipTagEffect tag) 0

/-- The pass, from a place in the HTML on. -/
def linkifyFrom (ctx : RefContext) (skipDepth : Int) : List Char → Option (List Char)
  | [] => some []
  | c :: rest =>
    if c = '<' then
      if '>' ∈ rest then do
        let tag := '<' :: (rest.takeWhile (· ≠ '>') ++ ['>'])
        let behind ← linkifyFrom ctx (depthBehind skipDepth tag) (rest.dropWhile (· ≠ '>')).tail
        some (tag ++ behind)
      else some (c :: rest)
    else do
      let text := c :: rest.takeWhile (· ≠ '<')
      let run ← if skipDepth = 0 then linkifyTextRun text ctx else some text
      let behind ← linkifyFrom ctx skipDepth (rest.dropWhile (· ≠ '<'))
      some (run ++ behind)
  termination_by html => html.length
  decreasing_by
    · have hle := (List.dropWhile_suffix (l := rest) (· ≠ '>')).length_le
      simp only [List.length_tail, List.length_cons]
      omega
    · have hle := (List.dropWhile_suffix (l := rest) (· ≠ '<')).length_le
      simp only [List.length_cons]
      omega

def linkifyCrossReferences (html : List Char) (ctx : RefContext) : Option (List Char) :=
  linkifyFrom ctx 0 html

/-! ## What it writes -/

/-- A link, and the text up to the next one. -/
structure Link where
  cref : CrossReference
  token : List Char
  behind : List Char

/-- What the HTML and the result of the pass are put together from. The last is what begins like a tag
and does not end. -/
inductive Piece where
  | tag (text : List Char)
  | run (first : List Char) (links : List Link)
  | cut (text : List Char)

def Link.shown (ctx : RefContext) (link : Link) : List Char :=
  linkStart ctx link.cref ++ link.token ++ linkEnd ++ link.behind

def Link.plain (link : Link) : List Char := link.token ++ link.behind

def Piece.shown (ctx : RefContext) : Piece → List Char
  | .tag text => text
  | .run first links => first ++ links.flatMap (Link.shown ctx)
  | .cut text => text

/-- Without the links that were put around references. -/
def Piece.plain : Piece → List Char
  | .tag text => text
  | .run first links => first ++ links.flatMap Link.plain
  | .cut text => text

def Piece.isRun : Piece → Bool
  | .run _ _ => true
  | _ => false

/-- The spans of the links within their text; `offset` is where the first of them starts. -/
def linkSpans (offset : Nat) : List Link → List (Nat × Nat × CrossReference)
  | [] => []
  | link :: links =>
    (offset, offset + byteLength link.token, link.cref) ::
      linkSpans (offset + byteLength link.token + byteLength link.behind) links

/-- The links stand around the references of those texts that are neither in a link nor in code. -/
def Placed (depth : Int) : List Piece → Prop
  | [] => True
  | .tag text :: pieces =>
    (∃ body, text = '<' :: (body ++ ['>']) ∧ '>' ∉ body) ∧ Placed (depthBehind depth text) pieces
  | .run first links :: pieces =>
    '<' ∉ first ++ links.flatMap Link.plain ∧ (∀ piece ∈ pieces.head?, piece.isRun = false) ∧
      linkSpans (byteLength first) links = (if depth = 0 then
        parseCrossReferenceSpans (String.ofList (first ++ links.flatMap Link.plain)) else []) ∧
      (∀ link ∈ links, Denotes link.cref link.token) ∧ Placed depth pieces
  | .cut text :: pieces => (∃ rest, text = '<' :: rest ∧ '>' ∉ rest) ∧ pieces = []

/-- The stretches of a text between its references. -/
def stretchesFrom (text : List Char) (cursor : Nat) :
    List (Nat × Nat × CrossReference) → List (List Char)
  | [] => (slice text cursor (byteLength text)).toList
  | (start, stop, _) :: spans => (slice text cursor start).toList ++ stretchesFrom text stop spans

def stretches (text : List Char) : List (List Char) :=
  stretchesFrom text 0 (parseCrossReferenceSpans (String.ofList text))

section Texts

variable {ctx : RefContext} {text : List Char}

/-- The links around the references that are marked in a text. -/
theorem exists_links (ctx : RefContext) {front tail : List Char} {refs : List Ref}
    (h : Marked (byteLength front) tail refs) :
    ∃ first links, tail = first ++ links.flatMap Link.plain ∧
      linkSpans (byteLength front + byteLength first) links =
        refs.map (fun ref => (ref.start, ref.stop, ref.cref)) ∧
      (∀ link ∈ links, Denotes link.cref link.token) ∧
      linkifySpans ctx (front ++ tail) (byteLength front)
        (refs.map fun ref => (ref.start, ref.stop, ref.cref)) =
          some (first ++ links.flatMap (Link.shown ctx)) ∧
      stretchesFrom (front ++ tail) (byteLength front)
        (refs.map fun ref => (ref.start, ref.stop, ref.cref)) = first :: links.map Link.behind := by
  induction refs generalizing front tail with
  | nil =>
    have hslice := slice_append front tail []
    rw [List.append_nil, ← byteLength_append] at hslice
    refine ⟨tail, [], (List.append_nil _).symm, rfl, fun link hmem => absurd hmem List.not_mem_nil,
      ?_, ?_⟩
    · rw [List.map_nil, linkifySpans, hslice, List.flatMap_nil, List.append_nil]
    · rw [List.map_nil, stretchesFrom, hslice]
      rfl
  | cons ref refs ih =>
    obtain ⟨gap, token, behind, rfl, hstart, hstop, hdenotes, hrest⟩ := h
    change ref.start = byteLength front + byteLength gap at hstart
    change ref.stop = ref.start + byteLength token at hstop
    have hgap := slice_append front gap (token ++ behind)
    have htoken := slice_append (front ++ gap) token behind
    rw [byteLength_append, ← hstart, ← hstop, List.append_assoc] at htoken
    rw [← hstart] at hgap
    have hfront : byteLength (front ++ (gap ++ token)) = ref.stop := by
      rw [byteLength_append, byteLength_append, hstop, hstart, Nat.add_assoc]
    rw [← hfront] at hrest
    obtain ⟨first, links, rfl, hspans, hlinks, hshown, hstretches⟩ := ih hrest
    rw [hfront] at hspans hshown hstretches
    rw [List.append_assoc, List.append_assoc] at hshown hstretches
    refine ⟨gap, ⟨ref.cref, token, first⟩ :: links, ?_, ?_, ?_, ?_, ?_⟩
    · rw [List.flatMap_cons, Link.plain, List.append_assoc]
    · rw [linkSpans, List.map_cons, ← hstart, ← hstop, hspans]
    · intro link hmem
      rcases List.mem_cons.1 hmem with rfl | hmem
      · exact hdenotes
      · exact hlinks link hmem
    · simp only [List.map_cons, linkifySpans, hgap, htoken, hshown, Option.bind_eq_bind,
        Option.bind_some, List.flatMap_cons, Link.shown, List.append_assoc]
    · rw [List.map_cons, stretchesFrom, hgap, hstretches]
      rfl

/-- The pass over a text. -/
theorem linkifyTextRun_spec (ctx : RefContext) (text : List Char) :
    ∃ first links, text = first ++ links.flatMap Link.plain ∧
      linkSpans (byteLength first) links = parseCrossReferenceSpans (String.ofList text) ∧
      (∀ link ∈ links, Denotes link.cref link.token) ∧
      linkifyTextRun text ctx = some (first ++ links.flatMap (Link.shown ctx)) ∧
      stretches text = first :: links.map Link.behind := by
  have hmarked := marked_scanRefs (String.ofList text)
  rw [String.toList_ofList] at hmarked
  obtain ⟨first, links, htext, hspans, hlinks, hshown, hstretches⟩ := @exists_links ctx [] _ _ hmarked
  rw [show byteLength [] = 0 from rfl, Nat.zero_add] at hspans
  refine ⟨first, links, htext, hspans, hlinks, ?_, hstretches⟩
  rw [linkifyTextRun]
  by_cases hnone : (parseCrossReferenceSpans (String.ofList text)).isEmpty = true
  · -- a text without references is not cut
    rw [if_pos hnone]
    have hnil := hspans.trans (List.isEmpty_iff.1 hnone)
    cases links with
    | nil => rw [htext, List.flatMap_nil, List.flatMap_nil]
    | cons link links => cases hnil
  · rw [if_neg hnone]
    exact hshown

end Texts

/-! ## The pieces of HTML -/

/-- A text goes up to a place like this one. -/
def Opens (html : List Char) : Prop := html = [] ∨ ∃ rest, html = '<' :: rest

section Steps

variable {ctx : RefContext} {depth : Int} {text body rest : List Char}

theorem takeWhile_append_of_notMem {sep : Char} (htext : sep ∉ text)
    (hrest : rest = [] ∨ ∃ more, rest = sep :: more) :
    (text ++ rest).takeWhile (· ≠ sep) = text ∧ (text ++ rest).dropWhile (· ≠ sep) = rest := by
  have hall : ∀ c ∈ text, decide (c ≠ sep) = true :=
    fun c hmem => decide_eq_true fun heq => htext (heq ▸ hmem)
  rw [List.takeWhile_append_of_pos hall, List.dropWhile_append_of_pos hall]
  rcases hrest with rfl | ⟨more, rfl⟩
  · simp
  · simp

/-- What the pass makes of a text. -/
def linkifyRun (ctx : RefContext) (depth : Int) (text : List Char) : Option (List Char) :=
  if depth = 0 then linkifyTextRun text ctx else some text

theorem linkifyFrom_text (htext : '<' ∉ text) (hrest : Opens rest) :
    linkifyFrom ctx depth (text ++ rest) = (linkifyRun ctx depth text).bind fun run =>
      (linkifyFrom ctx depth rest).map (run ++ ·) := by
  cases text with
  | nil =>
    have hnil : linkifyRun ctx depth [] = some [] := by
      have hnone : parseCrossReferenceSpans (String.ofList []) = [] := by decide +kernel
      simp [linkifyRun, linkifyTextRun, hnone]
    rw [hnil, List.nil_append, Option.bind_some]
    simp
  | cons c text =>
    rw [List.mem_cons, not_or] at htext
    obtain ⟨htake, hdrop⟩ := takeWhile_append_of_notMem htext.2 hrest
    rw [List.cons_append, linkifyFrom, if_neg (Ne.symm htext.1), htake, hdrop, linkifyRun]
    simp only [Option.bind_eq_bind, Option.map_eq_bind]
    by_cases hopen : depth = 0
    · rw [if_pos hopen, if_pos hopen]
      rfl
    · rw [if_neg hopen, if_neg hopen]
      rfl

theorem linkifyFrom_tag (hbody : '>' ∉ body) :
    linkifyFrom ctx depth ('<' :: (body ++ '>' :: rest)) =
      (linkifyFrom ctx (depthBehind depth ('<' :: (body ++ ['>']))) rest).map
        (('<' :: (body ++ ['>'])) ++ ·) := by
  obtain ⟨htake, hdrop⟩ := takeWhile_append_of_notMem hbody (Or.inr ⟨rest, rfl⟩)
  rw [linkifyFrom, if_pos rfl, if_pos (by simp), htake, hdrop, List.tail_cons]
  simp only [Option.bind_eq_bind, Option.map_eq_bind]
  rfl

theorem linkifyFrom_cut (hrest : '>' ∉ rest) :
    linkifyFrom ctx depth ('<' :: rest) = some ('<' :: rest) := by
  rw [linkifyFrom, if_pos rfl, if_neg hrest]

/-- HTML from its end: texts, tags, and at last what begins like a tag and does not end. -/
@[elab_as_elim]
theorem html_induction {P : List Char → Prop} (html : List Char) (hnil : P [])
    (htext : ∀ text rest, text ≠ [] → '<' ∉ text → Opens rest → P rest → P (text ++ rest))
    (htag : ∀ body rest, '>' ∉ body → P rest → P ('<' :: (body ++ '>' :: rest)))
    (hcut : ∀ rest, '>' ∉ rest → P ('<' :: rest)) : P html := by
  induction hn : html.length using Nat.strong_induction_on generalizing html with
  | _ n ih =>
    subst hn
    cases html with
    | nil => exact hnil
    | cons c rest =>
      by_cases hopen : c = '<'
      · subst hopen
        by_cases hclosed : '>' ∈ rest
        · obtain ⟨body, behind, rfl, hbody⟩ := List.eq_append_cons_of_mem hclosed
          exact htag body behind hbody (ih behind.length (by simp; omega) behind rfl)
        · exact hcut rest hclosed
      · have hsplit := List.takeWhile_append_dropWhile (p := (· ≠ '<')) (l := rest)
        have hopens : Opens (rest.dropWhile (· ≠ '<')) := by
          cases hdrop : rest.dropWhile (· ≠ '<') with
          | nil => exact Or.inl rfl
          | cons d more =>
            have hhead := List.head?_dropWhile_not (· ≠ '<') rest
            rw [hdrop] at hhead
            simp only [List.head?_cons, decide_eq_false_iff_not, not_not] at hhead
            exact Or.inr ⟨more, by rw [hhead]⟩
        have hlength := congrArg List.length hsplit
        rw [List.length_append] at hlength
        rw [← hsplit, ← List.cons_append]
        apply htext _ _ (List.cons_ne_nil _ _) _ hopens
        · exact ih _ (by simp only [List.length_cons]; omega) _ rfl
        · rw [List.mem_cons, not_or]
          refine ⟨Ne.symm hopen, fun hmem => ?_⟩
          have hne := List.mem_takeWhile_imp hmem
          simp at hne

end Steps

theorem linkifyFrom_pieces (ctx : RefContext) (depth : Int) (html : List Char) :
    ∃ pieces, linkifyFrom ctx depth html = some (pieces.flatMap (Piece.shown ctx)) ∧
      pieces.flatMap Piece.plain = html ∧ Placed depth pieces ∧
        (Opens html → ∀ piece ∈ pieces.head?, piece.isRun = false) := by
  induction html using html_induction generalizing depth with
  | hnil =>
    refine ⟨[], ?_, rfl, trivial, fun _ piece hmem => by cases hmem⟩
    rw [linkifyFrom]
    rfl
  | htext text rest hne htext hopens ih =>
    obtain ⟨pieces, hout, rfl, hplaced, hhead⟩ := ih depth
    rw [linkifyFrom_text htext hopens, hout]
    obtain ⟨first, links, hplain, hspans, hlinks, hrun⟩ : ∃ first links,
        text = first ++ links.flatMap Link.plain ∧
        linkSpans (byteLength first) links = (if depth = 0 then
          parseCrossReferenceSpans (String.ofList text) else []) ∧
        (∀ link ∈ links, Denotes link.cref link.token) ∧
        linkifyRun ctx depth text = some (first ++ links.flatMap (Link.shown ctx)) := by
      by_cases hdepth : depth = 0
      · obtain ⟨first, links, hplain, hspans, hlinks, hrun, -⟩ := linkifyTextRun_spec ctx text
        exact ⟨first, links, hplain, by rw [if_pos hdepth, hspans], hlinks,
          by rw [linkifyRun, if_pos hdepth, hrun]⟩
      · refine ⟨text, [], (List.append_nil _).symm, by rw [if_neg hdepth, linkSpans],
          fun link hmem => absurd hmem List.not_mem_nil, ?_⟩
        rw [linkifyRun, if_neg hdepth, List.flatMap_nil, List.append_nil]
    refine ⟨.run first links :: pieces, ?_, ?_, ?_, ?_⟩
    · rw [hrun, Option.bind_some, Option.map_some, List.flatMap_cons, Piece.shown]
    · rw [List.flatMap_cons, Piece.plain, ← hplain]
    · rw [Placed, ← hplain]
      exact ⟨htext, hhead hopens, hspans, hlinks, hplaced⟩
    · -- a text with a character of its own does not begin like a tag
      rintro (hnil | ⟨more, hmore⟩)
      · exact absurd (List.append_eq_nil_iff.1 hnil).1 hne
      · obtain ⟨c, others, rfl⟩ := List.exists_cons_of_ne_nil hne
        rw [List.cons_append] at hmore
        obtain ⟨rfl, -⟩ := List.cons.inj hmore
        exact absurd List.mem_cons_self htext
  | htag body rest hbody ih =>
    obtain ⟨pieces, hout, rfl, hplaced, -⟩ := ih (depthBehind depth ('<' :: (body ++ ['>'])))
    refine ⟨.tag ('<' :: (body ++ ['>'])) :: pieces, ?_, ?_, ⟨⟨body, rfl, hbody⟩, hplaced⟩, ?_⟩
    · rw [linkifyFrom_tag hbody, hout, Option.map_some, List.flatMap_cons, Piece.shown]
    · rw [List.flatMap_cons, Piece.plain]
      simp
    · rintro - piece hmem
      obtain rfl := Option.some.inj hmem
      rfl
  | hcut rest hrest =>
    refine ⟨[.cut ('<' :: rest)], ?_, by simp [Piece.plain], ⟨⟨rest, rfl, hrest⟩, rfl⟩, ?_⟩
    · rw [linkifyFrom_cut hrest]
      simp [Piece.shown]
    · rintro - piece hmem
      obtain rfl := Option.some.inj hmem
      rfl

/-- The pass never fails, and writes the HTML it was given with links around exactly the references of
the texts that are neither in a link nor in code. -/
theorem linkify_pieces (html : List Char) (ctx : RefContext) :
    ∃ pieces, linkifyCrossReferences html ctx = some (pieces.flatMap (Piece.shown ctx)) ∧
      pieces.flatMap Piece.plain = html ∧ Placed 0 pieces := by
  obtain ⟨pieces, hout, hplain, hplaced, -⟩ := linkifyFrom_pieces ctx 0 html
  exact ⟨pieces, hout, hplain, hplaced⟩

/-! ## A second pass -/

/-- The texts that are neither in a link nor in code. -/
def openRunsFrom (skipDepth : Int) : List Char → List (List Char)
  | [] => []
  | c :: rest =>
    if c = '<' then
      if '>' ∈ rest then
        openRunsFrom (depthBehind skipDepth ('<' :: (rest.takeWhile (· ≠ '>') ++ ['>'])))
          (rest.dropWhile (· ≠ '>')).tail
      else []
    else
      (if skipDepth = 0 then [c :: rest.takeWhile (· ≠ '<')] else []) ++
        openRunsFrom skipDepth (rest.dropWhile (· ≠ '<'))
  termination_by html => html.length
  decreasing_by
    · have hle := (List.dropWhile_suffix (l := rest) (· ≠ '>')).length_le
      simp only [List.length_tail, List.length_cons]
      omega
    · have hle := (List.dropWhile_suffix (l := rest) (· ≠ '<')).length_le
      simp only [List.length_cons]
      omega

/-- No stretch between the references of a text holds a reference when it is read by itself. -/
def Settled (html : List Char) : Prop :=
  ∀ text ∈ openRunsFrom 0 html, ∀ stretch ∈ stretches text, scanRefs (String.ofList stretch) = []

/-- The names of the repository do not break the tag of a link. -/
def RefContext.Clean (ctx : RefContext) : Prop :=
  '<' ∉ ctx.owner.toList ++ ctx.repo.toList ∧ '>' ∉ ctx.owner.toList ++ ctx.repo.toList

section Again

variable {ctx : RefContext} {depth : Int} {text body rest : List Char} {link : Link}

theorem openRunsFrom_text (hne : text ≠ []) (htext : '<' ∉ text) (hrest : Opens rest) :
    openRunsFrom depth (text ++ rest) =
      (if depth = 0 then [text] else []) ++ openRunsFrom depth rest := by
  obtain ⟨c, text, rfl⟩ := List.exists_cons_of_ne_nil hne
  rw [List.mem_cons, not_or] at htext
  obtain ⟨htake, hdrop⟩ := takeWhile_append_of_notMem htext.2 hrest
  rw [List.cons_append, openRunsFrom, if_neg (Ne.symm htext.1), htake, hdrop]

theorem openRunsFrom_tag (hbody : '>' ∉ body) :
    openRunsFrom depth ('<' :: (body ++ '>' :: rest)) =
      openRunsFrom (depthBehind depth ('<' :: (body ++ ['>']))) rest := by
  obtain ⟨htake, hdrop⟩ := takeWhile_append_of_notMem hbody (Or.inr ⟨rest, rfl⟩)
  rw [openRunsFrom, if_pos rfl, if_pos (by simp), htake, hdrop, List.tail_cons]

theorem openRunsFrom_cut (hrest : '>' ∉ rest) : openRunsFrom depth ('<' :: rest) = [] := by
  rw [openRunsFrom, if_pos rfl, if_neg hrest]

/-- What is in the tag that starts a link. -/
def linkBody (ctx : RefContext) (cref : CrossReference) : List Char :=
  'a' :: ' ' :: (['h', 'r', 'e', 'f', '=', '"'] ++ (hrefFor cref ctx).toList ++ ['"'])

theorem linkStart_eq (ctx : RefContext) (cref : CrossReference) :
    linkStart ctx cref = '<' :: (linkBody ctx cref ++ ['>']) := by
  have hopen : "<a href=\"".toList = ['<', 'a', ' ', 'h', 'r', 'e', 'f', '=', '"'] := by
    decide +kernel
  have hclose : "\">".toList = ['"', '>'] := by decide +kernel
  simp only [linkStart, hopen, hclose, linkBody, List.cons_append, List.nil_append,
    List.append_assoc]

theorem linkEnd_eq : linkEnd = ['<', '/', 'a', '>'] := by decide +kernel

/-- A tag `a` with attributes, the last of which ends in a quote. -/
theorem skipTagEffect_attributes (attributes : List Char) :
    skipTagEffect ('<' :: ('a' :: ' ' :: (attributes ++ ['"']) ++ ['>'])) = 1 := by
  have hdrop : ('<' :: ('a' :: ' ' :: (attributes ++ ['"']) ++ ['>'])).dropWhile (· = '<') =
      'a' :: ' ' :: (attributes ++ ['"']) ++ ['>'] := by
    simp
  have hclose : trimEndMatches '>' ('a' :: ' ' :: (attributes ++ ['"']) ++ ['>']) =
      'a' :: ' ' :: (attributes ++ ['"']) := by
    simp [trimEndMatches]
  have hslash : trimEndMatches '/' ('a' :: ' ' :: (attributes ++ ['"'])) =
      'a' :: ' ' :: (attributes ++ ['"']) := by
    simp [trimEndMatches]
  have htrim : trim ('a' :: ' ' :: (attributes ++ ['"'])) = 'a' :: ' ' :: (attributes ++ ['"']) := by
    refine @trim_of_ends 'a' '"' _ _ rfl ?_ (by decide) (by decide)
    rw [← List.cons_append, ← List.cons_append, List.getLast?_concat]
  have hname : (('a' :: ' ' :: (attributes ++ ['"'])).takeWhile fun c => !isWhitespace c) = ['a'] := by
    have hspace : isWhitespace ' ' = true := by decide
    have hletter : isWhitespace 'a' = false := by decide
    simp [hspace, hletter]
  have hopen : stripPrefix ['/'] ('a' :: ' ' :: (attributes ++ ['"'])) = none := by
    simp [stripPrefix]
  simp only [skipTagEffect, hdrop, hclose, hslash, htrim, hopen, hname]
  decide

theorem skipTagEffect_linkStart (ctx : RefContext) (cref : CrossReference) :
    skipTagEffect ('<' :: (linkBody ctx cref ++ ['>'])) = 1 :=
  skipTagEffect_attributes _

/-- Characters that neither open nor close a tag. -/
theorem plain_of_isName {name : String} (h : IsName name) {c : Char} (hc : c ∈ name.toList) :
    c ≠ '<' ∧ c ≠ '>' := by
  have hall := h.2 c hc
  constructor
  · rintro rfl
    revert hall
    decide
  · rintro rfl
    revert hall
    decide

theorem notMem_linkBody (hctx : ctx.Clean) {cref : CrossReference} {token : List Char}
    (h : Denotes cref token) : '>' ∉ linkBody ctx cref := by
  have hnumber : '>' ∉ (toString cref.number).toList := by
    obtain ⟨n, hn⟩ := Int.eq_ofNat_of_zero_le (Int.le_trans (by decide) h.positive)
    rw [hn]
    intro hmem
    have hdigit : ('>' : Char).isDigit = true := by
      apply Nat.isDigit_of_mem_toDigits (b := 10) (n := n) (by decide) (by decide)
      rw [← Nat.toList_repr]
      exact hmem
    revert hdigit
    decide
  have hnames : '>' ∉ ((cref.repository.getD (ctx.owner, ctx.repo)).1.toList ++
      (cref.repository.getD (ctx.owner, ctx.repo)).2.toList) := by
    cases hrepository : cref.repository with
    | none => exact hctx.2
    | some names =>
      have hnamed := h.named names hrepository
      rw [Option.getD_some, List.mem_append, not_or]
      exact ⟨fun hmem => (plain_of_isName hnamed.1 hmem).2 rfl,
        fun hmem => (plain_of_isName hnamed.2 hmem).2 rfl⟩
  rw [List.mem_append, not_or] at hnames
  have hslash : '>' ∉ "/".toList := by decide +kernel
  have hissues : '>' ∉ "/issues/".toList := by decide +kernel
  have hhref : '>' ∉ (hrefFor cref ctx).toList := by
    simp only [hrefFor, String.toList_append, List.mem_append, hnames.1, hnames.2, hnumber, hslash,
      hissues, or_self, not_false_eq_true]
  simp [linkBody, hhref]

theorem notMem_token {cref : CrossReference} {token : List Char} (h : Denotes cref token) :
    '<' ∉ token := by
  obtain ⟨digits, rfl, hdigits, -⟩ := h.written
  have hlast : '<' ∉ digits := by
    intro hmem
    have hdigit := hdigits _ hmem
    revert hdigit
    decide
  have hlead : '<' ∉ leadText cref := by
    rw [leadText]
    cases hrepository : cref.repository with
    | none => decide
    | some names =>
      have hnamed := h.named names hrepository
      obtain ⟨owner, repo⟩ := names
      have howner : '<' ∉ owner.toList := fun hmem => (plain_of_isName hnamed.1 hmem).1 rfl
      have hrepo : '<' ∉ repo.toList := fun hmem => (plain_of_isName hnamed.2 hmem).1 rfl
      simp [howner, hrepo]
  rw [List.mem_append, not_or]
  exact ⟨hlead, hlast⟩

/-- The pass goes through a link and is outside of links again. -/
theorem linkifyFrom_link (hctx : ctx.Clean) (h : Denotes link.cref link.token) :
    linkifyFrom ctx 0 (linkStart ctx link.cref ++ link.token ++ linkEnd ++ rest) =
      (linkifyFrom ctx 0 rest).map ((linkStart ctx link.cref ++ link.token ++ linkEnd) ++ ·) := by
  have hdepth : depthBehind 0 ('<' :: (linkBody ctx link.cref ++ ['>'])) = 1 := by
    rw [depthBehind, skipTagEffect_linkStart]
    rfl
  have hback : depthBehind 1 ('<' :: (['/', 'a'] ++ ['>'])) = 0 := by decide
  have hend : linkifyFrom ctx 1 ('<' :: (['/', 'a'] ++ '>' :: rest)) =
      (linkifyFrom ctx 0 rest).map (('<' :: (['/', 'a'] ++ ['>'])) ++ ·) := by
    rw [linkifyFrom_tag (by decide), hback]
  have hhtml : linkStart ctx link.cref ++ link.token ++ linkEnd ++ rest =
      '<' :: (linkBody ctx link.cref ++ '>' ::
        (link.token ++ '<' :: (['/', 'a'] ++ '>' :: rest))) := by
    rw [linkStart_eq, linkEnd_eq]
    simp only [List.cons_append, List.nil_append, List.append_assoc]
  rw [hhtml, linkifyFrom_tag (notMem_linkBody hctx h), hdepth,
    linkifyFrom_text (notMem_token h) (Or.inr ⟨_, rfl⟩), linkifyRun, if_neg (by decide), hend,
    Option.bind_some, Option.map_map, Option.map_map, linkStart_eq]
  simp only [linkEnd_eq, Function.comp_def, List.cons_append, List.nil_append, List.append_assoc]

/-- Texts that only grow are both as they were if the whole is. -/
theorem append_eq_iff_of_length_le {front front' back back' : List Char}
    (hfront : front.length ≤ front'.length) (hback : back.length ≤ back'.length) :
    front' ++ back' = front ++ back ↔ front' = front ∧ back' = back := by
  constructor
  · intro heq
    have hlength := congrArg List.length heq
    rw [List.length_append, List.length_append] at hlength
    exact List.append_inj heq (by omega)
  · rintro ⟨rfl, rfl⟩
    rfl

theorem length_plain_lt (ctx : RefContext) (link : Link) :
    link.plain.length < (link.shown ctx).length := by
  simp only [Link.plain, Link.shown, linkStart_eq, List.length_append, List.length_cons]
  omega

theorem length_plain_le (ctx : RefContext) (links : List Link) :
    (links.flatMap Link.plain).length ≤ (links.flatMap (Link.shown ctx)).length := by
  induction links with
  | nil => exact Nat.le_refl _
  | cons link links ih =>
    have hlt := length_plain_lt ctx link
    simp only [List.flatMap_cons, List.length_append]
    omega

/-- The pass over a text adds to it unless there is no reference in it. -/
theorem linkifyTextRun_length (ctx : RefContext) (text : List Char) :
    ∃ out, linkifyTextRun text ctx = some out ∧ text.length ≤ out.length ∧
      (out = text ↔ scanRefs (String.ofList text) = []) := by
  obtain ⟨first, links, hplain, hspans, -, hout, -⟩ := linkifyTextRun_spec ctx text
  have hle := length_plain_le ctx links
  refine ⟨_, hout, ?_, ?_⟩
  · rw [hplain, List.length_append, List.length_append]
    omega
  cases links with
  | nil =>
    rw [linkSpans, parseCrossReferenceSpans] at hspans
    have hnone := List.map_eq_nil_iff.1 hspans.symm
    simp only [hnone, iff_true]
    rw [hplain]
    rfl
  | cons link links =>
    constructor
    · intro heq
      have hlt := length_plain_lt ctx link
      have hrest := length_plain_le ctx links
      have hlength := congrArg List.length (heq.trans hplain)
      simp only [List.flatMap_cons, List.length_append] at hlength
      omega
    · intro hnone
      rw [parseCrossReferenceSpans, hnone] at hspans
      cases hspans

/-- The pass over a text with links in it passes over each stretch between them. -/
theorem linkifyFrom_shown (hctx : ctx.Clean) {first behind : List Char} {links : List Link}
    (hplain : '<' ∉ first ++ links.flatMap Link.plain)
    (hlinks : ∀ link ∈ links, Denotes link.cref link.token) (hopens : Opens rest)
    (hrest : linkifyFrom ctx 0 rest = some behind) :
    ∃ again, linkifyFrom ctx 0 (first ++ (links.flatMap (Link.shown ctx) ++ rest)) =
        some (again ++ behind) ∧
      (first ++ links.flatMap (Link.shown ctx)).length ≤ again.length ∧
      (again = first ++ links.flatMap (Link.shown ctx) ↔
        ∀ stretch ∈ first :: links.map Link.behind, scanRefs (String.ofList stretch) = []) := by
  obtain ⟨out, hout, hle, heq⟩ := linkifyTextRun_length ctx first
  rw [List.mem_append, not_or] at hplain
  induction links generalizing first out with
  | nil =>
    refine ⟨out, ?_, ?_, ?_⟩
    · rw [List.flatMap_nil, List.nil_append, linkifyFrom_text hplain.1 hopens, linkifyRun,
        if_pos rfl, hout, hrest]
      rfl
    · rwa [List.flatMap_nil, List.append_nil]
    · rw [List.flatMap_nil, List.append_nil, heq]
      simp
  | cons link links ih =>
    have htexts := hplain.2
    rw [List.flatMap_cons, Link.plain, List.mem_append, List.mem_append, not_or, not_or] at htexts
    obtain ⟨next, hnext, hnextLe, hnextEq⟩ := linkifyTextRun_length ctx link.behind
    obtain ⟨again, hagain, hagainLe, hagainEq⟩ :=
      ih ⟨htexts.1.2, htexts.2⟩ (fun other hmem => hlinks other (List.mem_cons_of_mem _ hmem)) next
        hnext hnextLe hnextEq
    have hlink := hlinks link List.mem_cons_self
    have htag := linkStart_eq ctx link.cref
    refine ⟨out ++ (linkStart ctx link.cref ++ link.token ++ linkEnd ++ again), ?_, ?_, ?_⟩
    · have hhtml : (link :: links).flatMap (Link.shown ctx) ++ rest =
          linkStart ctx link.cref ++ link.token ++ linkEnd ++
            (link.behind ++ (links.flatMap (Link.shown ctx) ++ rest)) := by
        simp only [List.flatMap_cons, Link.shown, List.append_assoc]
      have hbegins : Opens (linkStart ctx link.cref ++ link.token ++ linkEnd ++
          (link.behind ++ (links.flatMap (Link.shown ctx) ++ rest))) := by
        rw [htag]
        exact Or.inr ⟨_, rfl⟩
      rw [hhtml, linkifyFrom_text hplain.1 hbegins, linkifyRun, if_pos rfl, hout,
        linkifyFrom_link hctx hlink, hagain, Option.bind_some, Option.map_some, Option.map_some]
      simp only [List.append_assoc]
    · simp only [List.flatMap_cons, Link.shown, List.length_append] at hagainLe ⊢
      omega
    · have hcut : first ++ (link :: links).flatMap (Link.shown ctx) =
          first ++ (linkStart ctx link.cref ++ link.token ++ linkEnd ++
            (link.behind ++ links.flatMap (Link.shown ctx))) := by
        simp only [List.flatMap_cons, Link.shown, List.append_assoc]
      rw [hcut, append_eq_iff_of_length_le hle (by
        simp only [List.length_append] at hagainLe ⊢
        omega), List.append_cancel_left_eq, heq, hagainEq]
      simp

/-- Once more, from a place in the HTML on. -/
theorem relinkFrom (hctx : ctx.Clean) (depth : Int) (html : List Char) :
    ∃ out again, linkifyFrom ctx depth html = some out ∧ linkifyFrom ctx depth out = some again ∧
      out.length ≤ again.length ∧ (Opens html → Opens out) ∧
      (again = out ↔ ∀ text ∈ openRunsFrom depth html, ∀ stretch ∈ stretches text,
        scanRefs (String.ofList stretch) = []) := by
  induction html using html_induction generalizing depth with
  | hnil =>
    have hnil : linkifyFrom ctx depth [] = some [] := by rw [linkifyFrom]
    refine ⟨[], [], hnil, hnil, Nat.le_refl _, id, ?_⟩
    rw [openRunsFrom]
    simp
  | htext text rest hne htext hopens ih =>
    obtain ⟨out, again, hout, hagain, hle, hkept, hiff⟩ := ih depth
    have hopensOut := hkept hopens
    have hstart : ¬ Opens (text ++ rest) := by
      rintro (hnil | ⟨more, hmore⟩)
      · exact hne (List.append_eq_nil_iff.1 hnil).1
      · obtain ⟨c, others, rfl⟩ := List.exists_cons_of_ne_nil hne
        rw [List.cons_append] at hmore
        obtain ⟨rfl, -⟩ := List.cons.inj hmore
        exact htext List.mem_cons_self
    by_cases hdepth : depth = 0
    · subst hdepth
      obtain ⟨first, links, hplain, -, hlinks, hrun, hstretches⟩ := linkifyTextRun_spec ctx text
      rw [hplain] at htext
      obtain ⟨more, hmore, hmoreLe, hmoreIff⟩ :=
        linkifyFrom_shown hctx htext hlinks hopensOut hagain
      refine ⟨first ++ links.flatMap (Link.shown ctx) ++ out, more ++ again, ?_, ?_, ?_,
        fun h => absurd h hstart, ?_⟩
      · rw [linkifyFrom_text (hplain ▸ htext) hopens, linkifyRun, if_pos rfl, hrun, hout]
        rfl
      · rw [List.append_assoc, hmore]
      · simp only [List.length_append] at hmoreLe ⊢
        omega
      · rw [append_eq_iff_of_length_le hmoreLe hle, hmoreIff, hiff,
          openRunsFrom_text hne (hplain ▸ htext) hopens, if_pos rfl, ← hstretches]
        simp
    · refine ⟨text ++ out, text ++ again, ?_, ?_, ?_, fun h => absurd h hstart, ?_⟩
      · rw [linkifyFrom_text htext hopens, linkifyRun, if_neg hdepth, hout]
        rfl
      · rw [linkifyFrom_text htext hopensOut, linkifyRun, if_neg hdepth, hagain]
        rfl
      · rw [List.length_append, List.length_append]
        omega
      · rw [List.append_cancel_left_eq, hiff, openRunsFrom_text hne htext hopens, if_neg hdepth,
          List.nil_append]
  | htag body rest hbody ih =>
    obtain ⟨out, again, hout, hagain, hle, -, hiff⟩ :=
      ih (depthBehind depth ('<' :: (body ++ ['>'])))
    refine ⟨'<' :: (body ++ '>' :: out), '<' :: (body ++ '>' :: again), ?_, ?_, ?_,
      fun _ => Or.inr ⟨_, rfl⟩, ?_⟩
    · rw [linkifyFrom_tag hbody, hout]
      simp
    · rw [linkifyFrom_tag hbody, hagain]
      simp
    · simp only [List.length_cons, List.length_append]
      omega
    · rw [openRunsFrom_tag hbody, ← hiff]
      simp
  | hcut rest hrest =>
    refine ⟨'<' :: rest, '<' :: rest, linkifyFrom_cut hrest, linkifyFrom_cut hrest, Nat.le_refl _,
      id, ?_⟩
    rw [openRunsFrom_cut hrest]
    simp

/-- A second pass changes nothing if and only if no stretch of text between two links that the first
one put in holds a reference when it is read by itself. -/
theorem relink_iff (hctx : ctx.Clean) (html : List Char) :
    (linkifyCrossReferences html ctx).bind (fun out => linkifyCrossReferences out ctx) =
      linkifyCrossReferences html ctx ↔ Settled html := by
  obtain ⟨out, again, hout, hagain, -, -, hiff⟩ := relinkFrom hctx 0 html
  rw [linkifyCrossReferences, hout, Option.bind_some, linkifyCrossReferences, hagain,
    Option.some.injEq, hiff, Settled]

end Again

/-- The `#2` is no reference behind the `1`, and is one behind the link. -/
theorem adjacent_references_are_linked_later :
    (linkifyCrossReferences "#1#2".toList ⟨"octo", "core"⟩).bind
        (fun out => linkifyCrossReferences out ⟨"octo", "core"⟩) ≠
      linkifyCrossReferences "#1#2".toList ⟨"octo", "core"⟩ := by
  rw [Ne, relink_iff ⟨by decide +kernel, by decide +kernel⟩ "#1#2".toList]
  intro hsettled
  have hruns : openRunsFrom 0 "#1#2".toList = ["#1#2".toList] := by
    have htext := @openRunsFrom_text 0 "#1#2".toList [] (by decide +kernel) (by decide +kernel)
      (Or.inl rfl)
    rwa [List.append_nil, if_pos rfl, openRunsFrom, List.append_nil] at htext
  have hstretch : ['#', '2'] ∈ stretches "#1#2".toList := by decide +kernel
  have hnone := hsettled "#1#2".toList (by rw [hruns]; exact List.mem_cons_self) _ hstretch
  have hsome : scanRefs (String.ofList ['#', '2']) ≠ [] := by decide +kernel
  exact hsome hnone

end Edda.App.LinkedReferences
