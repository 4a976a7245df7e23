import Edda.Git.Diff
import Edda.Support.Affixes

/-!
# Lines of diffs

A file that is added or deleted as a whole is decoded and then cut into lines. A file that is
modified is cut into tokens by the library, each a line with its end, and every token of a hunk is
decoded by itself. Bytes below `0x80` end every sequence of bytes that is being decoded, so that both
ways give the same lines (`splitLines_eq_tokens`), and the same hunks (`whole_file_like_modification`).
-/

set_option autoImplicit false

namespace Edda.Git.DiffLines

open Edda.Support.RustText

/-- The byte that ends a line. -/
def newline : UInt8 := 0x0A

/-- Cuts behind every newline; `token` holds the bytes of the current token, the last one first. -/
def tokensFrom (token : Bytes) : Bytes → List Bytes
  | [] => if token.isEmpty then [] else [token.reverse]
  | b :: bs => if b = newline then (b :: token).reverse :: tokensFrom [] bs
    else tokensFrom (b :: token) bs

/-- The tokens of a file: its lines with their ends. -/
def lineTokens (data : Bytes) : List Bytes := tokensFrom [] data

/-- `line_token_to_string`. -/
def lineTokenToString (token : Bytes) : String :=
  let text := fromUtf8Lossy token
  String.ofList (match stripSuffix ['\n'] text with
    | some rest => (stripSuffix ['\r'] rest).getD rest
    | none => text)

/-! ## Decoding up to the end of a line -/

section Decoding

/-- A sequence that goes on with bytes from `0x80` to `0xBF` only, and whose character is past the
ASCII characters. -/
def Long (p : Pending) : Prop :=
  0x80 ≤ p.lower.toNat ∧ p.upper.toNat ≤ 0xBF ∧ p.needed ≠ 0 ∧
    0x80 ≤ (p.bits * 64 + p.lower.toNat % 64) * 64 ^ (p.needed - 1)

instance (p : Pending) : Decidable (Long p) := inferInstanceAs (Decidable (_ ∧ _))

theorem leadByte_all : ∀ n, n < 256 → (leadByte (UInt8.ofNat n)).elim
    (fun c => decide (c = '\n' → n = 0x0A)) (fun p => decide (Long p)) = true := by
  decide +kernel

/-- Only the newline is decoded to one, and every longer sequence is past the ASCII characters. -/
theorem leadByte_cases (b : UInt8) : (∃ c, leadByte b = .inl c ∧ (c = '\n' → b = newline)) ∨
    ∃ p, leadByte b = .inr p ∧ Long p := by
  have h := leadByte_all b.toNat b.toNat_lt
  rw [UInt8.ofNat_toNat] at h
  cases hlead : leadByte b with
  | inl c =>
    rw [hlead, Sum.elim_inl, decide_eq_true_iff] at h
    exact Or.inl ⟨c, rfl, fun hc => UInt8.toNat_inj.1 (h hc)⟩
  | inr p =>
    rw [hlead, Sum.elim_inr, decide_eq_true_iff] at h
    exact Or.inr ⟨p, rfl, h⟩

theorem ofNat_ne_newline {n : Nat} (h : 0x80 ≤ n) : Char.ofNat n ≠ '\n' := by
  intro heq
  have hvalue := congrArg Char.toNat heq
  rw [Char.toNat_ofNat] at hvalue
  split at hvalue
  · have hnewline : ('\n' : Char).toNat = 0x0A := rfl
    omega
  · exact absurd hvalue (by decide)

/-- The next byte of a long sequence ends it with a character that is no newline, or it goes on. -/
theorem Long.next {p : Pending} {b : UInt8} (h : Long p) (hb : within p.lower p.upper b = true) :
    (p.needed = 1 → Char.ofNat (p.bits * 64 + b.toNat % 64) ≠ '\n') ∧
      (p.needed ≠ 1 → Long ⟨p.bits * 64 + b.toNat % 64, p.needed - 1, 0x80, 0xBF⟩) := by
  obtain ⟨hlower, hupper, hneeded, hvalue⟩ := h
  obtain ⟨hlo, hhi⟩ := within_iff.1 hb
  have hbits : p.bits * 64 + p.lower.toNat % 64 ≤ p.bits * 64 + b.toNat % 64 := by omega
  constructor
  · intro hone
    rw [hone, Nat.sub_self, Nat.pow_zero, Nat.mul_one] at hvalue
    exact ofNat_ne_newline (hvalue.trans hbits)
  · intro hmore
    have hleft : p.needed - 1 ≠ 0 := by omega
    refine ⟨Nat.le_refl _, Nat.le_refl _, hleft, ?_⟩
    have hpow : p.needed - 1 = (p.needed - 1 - 1) + 1 := by omega
    calc 0x80 ≤ (p.bits * 64 + p.lower.toNat % 64) * 64 ^ (p.needed - 1) := hvalue
      _ ≤ (p.bits * 64 + b.toNat % 64) * 64 ^ (p.needed - 1) := Nat.mul_le_mul_right _ hbits
      _ = ((p.bits * 64 + b.toNat % 64) * 64 + (0x80 : UInt8).toNat % 64) *
          64 ^ (p.needed - 1 - 1) := by
        rw [hpow, Nat.pow_succ, Nat.add_sub_cancel]
        show _ = (_ + 0) * _
        ring

/-- A newline ends what is being decoded, and stands for itself. -/
theorem decodeLossy_newline {state : Option Pending} (hstate : ∀ p ∈ state, Long p) (bytes : Bytes) :
    decodeLossy state (newline :: bytes) = decodeLossy state [] ++ '\n' :: decodeLossy none bytes := by
  have hlead : leadByte newline = .inl '\n' := rfl
  cases state with
  | none => simp only [decodeLossy, hlead, List.nil_append]
  | some p =>
    have hout : ¬ within p.lower p.upper newline = true := by
      intro hwithin
      have hlower := (hstate p rfl).1
      have hlo := (within_iff.1 hwithin).1
      have hvalue : newline.toNat = 0x0A := rfl
      omega
    simp only [decodeLossy, if_neg hout, hlead, List.cons_append, List.nil_append]

/-- What stands before a newline is decoded by itself, and to a text without newlines. -/
theorem decodeLossy_line {state : Option Pending} (hstate : ∀ p ∈ state, Long p) {front : Bytes}
    (hfront : newline ∉ front) : '\n' ∉ decodeLossy state front ∧ ∀ bytes,
      decodeLossy state (front ++ newline :: bytes) =
        decodeLossy state front ++ '\n' :: decodeLossy none bytes := by
  induction front generalizing state with
  | nil =>
    refine ⟨?_, decodeLossy_newline hstate⟩
    cases state with
    | none => exact List.not_mem_nil
    | some p => exact List.not_mem_cons_of_ne_of_not_mem (by decide) List.not_mem_nil
  | cons b front ih =>
    rw [List.mem_cons, not_or] at hfront
    have hstart := @ih none (fun p hp => absurd hp (by simp)) hfront.2
    have hnewline : b ≠ newline := fun heq => hfront.1 heq.symm
    -- a first byte, from where nothing is pending
    have hlead : '\n' ∉ decodeLossy none (b :: front) ∧ ∀ bytes,
        decodeLossy none (b :: front ++ newline :: bytes) =
          decodeLossy none (b :: front) ++ '\n' :: decodeLossy none bytes := by
      rcases leadByte_cases b with ⟨c, hb, hc⟩ | ⟨p, hb, hlong⟩
      · have hcons (bytes : Bytes) : decodeLossy none (b :: bytes) = c :: decodeLossy none bytes := by
          simp only [decodeLossy, hb]
        rw [hcons, List.mem_cons, not_or]
        refine ⟨⟨fun heq => hnewline (hc heq.symm), hstart.1⟩, fun bytes => ?_⟩
        rw [List.cons_append, hcons, hstart.2, List.cons_append]
      · have hrest := @ih (some p) (fun q hq => Option.some.inj hq ▸ hlong) hfront.2
        rw [decodeLossy_lead hb]
        refine ⟨hrest.1, fun bytes => ?_⟩
        rw [List.cons_append, decodeLossy_lead hb, hrest.2]
    cases state with
    | none => exact hlead
    | some p =>
      have hlong := hstate p rfl
      by_cases hwithin : within p.lower p.upper b = true
      · obtain ⟨hlast, hmore⟩ := hlong.next hwithin
        by_cases hone : p.needed = 1
        · -- the character is complete
          have hcons (bytes : Bytes) : decodeLossy (some p) (b :: bytes) =
              Char.ofNat (p.bits * 64 + b.toNat % 64) :: decodeLossy none bytes := by
            simp only [decodeLossy, if_pos hwithin, if_pos hone]
          rw [hcons, List.mem_cons, not_or]
          refine ⟨⟨(hlast hone).symm, hstart.1⟩, fun bytes => ?_⟩
          rw [List.cons_append, hcons, hstart.2, List.cons_append]
        · have hstep (bytes : Bytes) : decodeLossy (some p) (b :: bytes) =
              decodeLossy (some ⟨p.bits * 64 + b.toNat % 64, p.needed - 1, 0x80, 0xBF⟩) bytes := by
            simp only [decodeLossy, if_pos hwithin, if_neg hone]
          have hrest := @ih (some ⟨p.bits * 64 + b.toNat % 64, p.needed - 1, 0x80, 0xBF⟩)
            (fun q hq => Option.some.inj hq ▸ hmore hone) hfront.2
          rw [hstep]
          refine ⟨hrest.1, fun bytes => ?_⟩
          rw [List.cons_append, hstep, hrest.2]
      · -- the sequence breaks off, and the byte starts afresh
        have hcons (bytes : Bytes) : decodeLossy (some p) (b :: bytes) =
            replacement :: decodeLossy none (b :: bytes) := by
          simp only [decodeLossy, if_neg hwithin]
        rw [hcons, List.mem_cons, not_or]
        refine ⟨⟨by decide, hlead.1⟩, fun bytes => ?_⟩
        rw [List.cons_append, hcons, ← List.cons_append, hlead.2, List.cons_append]

end Decoding

/-! ## Lines and tokens -/

theorem tokensFrom_line {front : Bytes} (hfront : newline ∉ front) (token bytes : Bytes) :
    tokensFrom token (front ++ newline :: bytes) =
      (token.reverse ++ front ++ [newline]) :: tokensFrom [] bytes := by
  induction front generalizing token with
  | nil => simp [tokensFrom]
  | cons b front ih =>
    rw [List.mem_cons, not_or] at hfront
    rw [List.cons_append, tokensFrom, if_neg (Ne.symm hfront.1), ih hfront.2]
    simp

theorem tokensFrom_rest {front : Bytes} (hfront : newline ∉ front) (token : Bytes) :
    tokensFrom token front =
      if (token.reverse ++ front).isEmpty then [] else [token.reverse ++ front] := by
  induction front generalizing token with
  | nil => simp [tokensFrom]
  | cons b front ih =>
    rw [List.mem_cons, not_or] at hfront
    rw [tokensFrom, if_neg (Ne.symm hfront.1), ih hfront.2]
    simp

/-- The end of a line taken off. -/
def withoutReturn (line : List Char) : List Char := (stripSuffix ['\r'] line).getD line

theorem linesFrom_newline (line text : List Char) :
    linesFrom line ('\n' :: text) = withoutReturn line.reverse :: linesFrom [] text := by
  rw [withoutReturn, stripSuffix, List.reverse_reverse]
  cases line with
  | nil => rfl
  | cons c line =>
    by_cases hc : c = '\r'
    · subst hc
      cases line <;> rfl
    · have hne : ¬ '\r' = c := Ne.symm hc
      simp [linesFrom, stripPrefix, hne, hc]

theorem linesFrom_other {c : Char} (hc : c ≠ '\n') (line text : List Char) :
    linesFrom line (c :: text) = linesFrom (c :: line) text := by
  simp [linesFrom, hc]

theorem linesFrom_line {front : List Char} (hfront : '\n' ∉ front) (line text : List Char) :
    linesFrom line (front ++ '\n' :: text) =
      withoutReturn (line.reverse ++ front) :: linesFrom [] text := by
  induction front generalizing line with
  | nil => rw [List.nil_append, linesFrom_newline, List.append_nil]
  | cons c front ih =>
    rw [List.mem_cons, not_or] at hfront
    rw [List.cons_append, linesFrom_other (Ne.symm hfront.1), ih hfront.2]
    simp

theorem linesFrom_rest {front : List Char} (hfront : '\n' ∉ front) (line : List Char) :
    linesFrom line front =
      if (line.reverse ++ front).isEmpty then [] else [line.reverse ++ front] := by
  induction front generalizing line with
  | nil => simp [linesFrom]
  | cons c front ih =>
    rw [List.mem_cons, not_or] at hfront
    rw [linesFrom_other (Ne.symm hfront.1), ih hfront.2]
    simp

theorem fromUtf8Lossy_eq_nil_iff {data : Bytes} : fromUtf8Lossy data = [] ↔ data = [] := by
  constructor
  · intro h
    cases data with
    | nil => rfl
    | cons b data =>
      -- every byte is of a character, or of a sequence that leaves one
      have hsome (bytes : Bytes) : ∀ p, decodeLossy (some p) bytes ≠ [] := by
        induction bytes with
        | nil => exact fun p => List.cons_ne_nil _ _
        | cons b bytes ih =>
          intro p
          simp only [decodeLossy]
          split
          · split
            · exact List.cons_ne_nil _ _
            · exact ih _
          · exact List.cons_ne_nil _ _
      rw [fromUtf8Lossy, decodeLossy] at h
      cases hlead : leadByte b with
      | inl c =>
        rw [hlead] at h
        exact absurd h (List.cons_ne_nil _ _)
      | inr p =>
        rw [hlead] at h
        exact absurd h (hsome data p)
  · rintro rfl
    rfl

/-- A token with its newline is the line in front of it. -/
theorem lineTokenToString_line {front : Bytes} (hfront : newline ∉ front) :
    lineTokenToString (front ++ [newline]) = String.ofList (withoutReturn (fromUtf8Lossy front)) := by
  have hdecode : fromUtf8Lossy (front ++ [newline]) = fromUtf8Lossy front ++ ['\n'] :=
    (decodeLossy_line (fun p hp => absurd hp (by simp)) hfront).2 []
  simp only [lineTokenToString, hdecode, stripSuffix_append, withoutReturn]

/-- The last line, if it has no newline, is kept as it is. -/
theorem lineTokenToString_rest {front : Bytes} (hfront : newline ∉ front) :
    lineTokenToString front = String.ofList (fromUtf8Lossy front) := by
  have hline : '\n' ∉ fromUtf8Lossy front :=
    (decodeLossy_line (fun p hp => absurd hp (by simp)) hfront).1
  have hnone : stripSuffix ['\n'] (fromUtf8Lossy front) = none :=
    stripSuffix_eq_none fun hsuffix => hline (hsuffix.subset List.mem_cons_self)
  simp only [lineTokenToString, hnone]

/-- Decoding the whole file and cutting it into lines is cutting it into tokens and decoding each. -/
theorem splitLines_eq_tokens (data : Bytes) :
    splitLines data = (lineTokens data).map lineTokenToString := by
  induction hlength : data.length using Nat.strongRecOn generalizing data with
  | ind n ih =>
    by_cases hmem : newline ∈ data
    · -- the first line, and the lines behind it
      obtain ⟨front, bytes, rfl, hfront⟩ := List.eq_append_cons_of_mem hmem
      have hdecode := @decodeLossy_line none (fun p hp => absurd hp (by simp)) front hfront
      have hrest := ih bytes.length (by
        rw [← hlength, List.length_append, List.length_cons]
        omega) bytes rfl
      rw [lineTokens, tokensFrom_line hfront, List.reverse_nil, List.nil_append, List.map_cons,
        lineTokenToString_line hfront, ← lineTokens, ← hrest, splitLines, fromUtf8Lossy, hdecode.2,
        lines, linesFrom_line hdecode.1, List.map_cons]
      rfl
    · have hline : '\n' ∉ fromUtf8Lossy data :=
        (decodeLossy_line (fun p hp => absurd hp (by simp)) hmem).1
      rw [lineTokens, tokensFrom_rest hmem, splitLines, lines, linesFrom_rest hline]
      by_cases hnil : data = []
      · subst hnil
        rfl
      · have hne : fromUtf8Lossy data ≠ [] := fun h => hnil (fromUtf8Lossy_eq_nil_iff.1 h)
        simp [hnil, hne, lineTokenToString_rest hmem]

/-! ## Hunks -/

inductive DiffLineKind where
  | context
  | add
  | remove
  deriving DecidableEq, Repr

/-- A line of a comparison. -/
abbrev Compared := DiffLineKind × Bytes

/-- A hunk as the renderer of the library hands it over: its header, and its lines. -/
structure RenderedHunk where
  beforeHunkStart : Nat
  beforeHunkLen : Nat
  afterHunkStart : Nat
  afterHunkLen : Nat
  lines : List Compared
  deriving DecidableEq, Repr

/-- The renderer: compares the tokens of two files. -/
abbrev Renderer := List Bytes → List Bytes → List RenderedHunk

def diffLine : Compared → DiffLine
  | (.context, token) => .context (lineTokenToString token)
  | (.add, token) => .added (lineTokenToString token)
  | (.remove, token) => .removed (lineTokenToString token)

/-- `Collector::consume_hunk`. -/
def consumeHunk (hunk : RenderedHunk) : DiffHunk :=
  ⟨hunk.beforeHunkStart, hunk.beforeHunkLen, hunk.afterHunkStart, hunk.afterHunkLen,
    hunk.lines.map diffLine⟩

def histogramHunks (render : Renderer) (oldData newData : Bytes) : List DiffHunk :=
  (render (lineTokens oldData) (lineTokens newData)).map consumeHunk

/-! ### What a renderer shows -/

/-- The tokens of one side of a comparison: what is unchanged, and what only this side has. -/
def side (kind : DiffLineKind) (lines : List Compared) : List Bytes :=
  (lines.filter fun line => line.1 = .context ∨ line.1 = kind).map Prod.snd

/-- The hunks of a comparison: what is left out is unchanged, no hunk is empty, something is left out
between two hunks, and each header has the numbers of lines of its hunk. -/
inductive CutInto : List Compared → List RenderedHunk → Prop where
  | last (gap : List Compared) : (∀ line ∈ gap, line.1 = .context) → CutInto gap []
  | hunk (lines gap rest : List Compared) (hunk : RenderedHunk) (hunks : List RenderedHunk) :
    lines = gap ++ (hunk.lines ++ rest) → (∀ line ∈ gap, line.1 = .context) → hunk.lines ≠ [] →
    hunk.beforeHunkLen = asU32 (side .remove hunk.lines).length →
    hunk.afterHunkLen = asU32 (side .add hunk.lines).length →
    (hunks ≠ [] → ∃ line ∈ rest, line.1 = .context) → CutInto rest hunks →
    CutInto lines (hunk :: hunks)

/-- The hunks show how the one file becomes the other. -/
def Shows (before after : List Bytes) (hunks : List RenderedHunk) : Prop :=
  ∃ lines, side .remove lines = before ∧ side .add lines = after ∧ CutInto lines hunks

/-- Where nothing is unchanged, a comparison is one hunk, or none if it is empty. -/
theorem CutInto.of_changed {lines : List Compared} {hunks : List RenderedHunk}
    (h : CutInto lines hunks) (hchanged : ∀ line ∈ lines, line.1 ≠ .context) :
    lines = [] ∧ hunks = [] ∨ ∃ hunk, hunks = [hunk] ∧ hunk.lines = lines ∧
      hunk.beforeHunkLen = asU32 (side .remove lines).length ∧
      hunk.afterHunkLen = asU32 (side .add lines).length := by
  have hempty {gap : List Compared} (hgap : ∀ line ∈ gap, line.1 = .context)
      (hsub : gap ⊆ lines) : gap = [] :=
    List.eq_nil_iff_forall_not_mem.2 fun line hline => hchanged line (hsub hline) (hgap line hline)
  cases h with
  | last gap hgap => exact Or.inl ⟨hempty hgap fun _ h => h, rfl⟩
  | hunk lines gap rest hunk hunks hlines hgap hne hbefore hafter hbetween hrest =>
    obtain rfl := hempty hgap (hlines ▸ List.subset_append_left _ _)
    have hsub : rest ⊆ lines := by
      rw [hlines, List.nil_append]
      exact List.subset_append_right _ _
    have hhunks : hunks = [] := by
      by_contra hmore
      obtain ⟨line, hline, hcontext⟩ := hbetween hmore
      exact hchanged line (hsub hline) hcontext
    subst hhunks
    cases hrest with
    | last _ hgap' =>
      obtain rfl := hempty hgap' hsub
      rw [List.nil_append, List.append_nil] at hlines
      subst hlines
      exact Or.inr ⟨hunk, rfl, rfl, hbefore, hafter⟩

/-- Where one side is empty, every line is of the other side alone. -/
theorem eq_map_of_side_eq_nil {other kind : DiffLineKind} (hne : kind ≠ .context)
    (hkinds : ∀ third : DiffLineKind, third = .context ∨ third = other ∨ third = kind)
    {lines : List Compared} (h : side other lines = []) :
    lines = (side kind lines).map (fun token => (kind, token)) ∧
      ∀ line ∈ lines, line.1 ≠ .context := by
  have hkind (line : Compared) (hline : line ∈ lines) : line.1 = kind := by
    rw [side, List.map_eq_nil_iff, List.filter_eq_nil_iff] at h
    have hneither := h line hline
    simp only [decide_eq_true_eq, not_or] at hneither
    exact ((hkinds line.1).resolve_left hneither.1).resolve_left hneither.2
  have hside : side kind lines = lines.map Prod.snd := by
    rw [side, List.filter_eq_self.2]
    intro line hline
    simp [hkind line hline]
  constructor
  · calc lines = lines.map id := (List.map_id lines).symm
      _ = lines.map fun line => (kind, line.2) :=
        List.map_congr_left fun line hline => by rw [id, ← hkind line hline]
      _ = (side kind lines).map fun token => (kind, token) := by
        rw [hside, List.map_map]
        rfl
  · intro line hline
    rw [hkind line hline]
    exact hne

/-- The hunks of a comparison with the empty file. -/
theorem Shows.one_sided {kind other : DiffLineKind} {before after : List Bytes}
    {hunks : List RenderedHunk} (h : Shows before after hunks)
    (hkinds : kind = .add ∧ other = .remove ∧ before = [] ∨
      kind = .remove ∧ other = .add ∧ after = []) :
    before ++ after = [] ∧ hunks = [] ∨ ∃ hunk, hunks = [hunk] ∧
      hunk.lines = (before ++ after).map (fun token => (kind, token)) ∧
      hunk.beforeHunkLen = asU32 before.length ∧ hunk.afterHunkLen = asU32 after.length := by
  obtain ⟨lines, rfl, rfl, hcut⟩ := h
  have hthird : kind ≠ .context ∧
      ∀ third : DiffLineKind, third = .context ∨ third = other ∨ third = kind := by
    rcases hkinds with ⟨rfl, rfl, -⟩ | ⟨rfl, rfl, -⟩
    · exact ⟨by decide, fun third => by cases third <;> decide⟩
    · exact ⟨by decide, fun third => by cases third <;> decide⟩
  have hother : side other lines = [] := by
    rcases hkinds with ⟨-, rfl, h⟩ | ⟨-, rfl, h⟩
    · exact h
    · exact h
  have hboth : side .remove lines ++ side .add lines = side kind lines := by
    rcases hkinds with ⟨rfl, rfl, h⟩ | ⟨rfl, rfl, h⟩
    · rw [h, List.nil_append]
    · rw [h, List.append_nil]
  obtain ⟨hlines, hchanged⟩ := eq_map_of_side_eq_nil hthird.1 hthird.2 hother
  rw [hboth]
  rcases hcut.of_changed hchanged with ⟨hnil, hhunks⟩ | ⟨hunk, hhunks, hshown, hlens⟩
  · subst hnil
    exact Or.inl ⟨rfl, hhunks⟩
  · exact Or.inr ⟨hunk, hhunks, hshown.trans hlines, hlens⟩

/-- What the hunks of a file show: the lines, and their numbers on the two sides. -/
def shown (hunks : List DiffHunk) : List DiffLine × Nat × Nat :=
  (hunks.flatMap DiffHunk.lines, (hunks.map DiffHunk.oldLines).sum,
    (hunks.map DiffHunk.newLines).sum)

/-- The hunks one by one, without the positions of their first lines. -/
def withoutStarts (hunks : List DiffHunk) : List (List DiffLine × Nat × Nat) :=
  hunks.map fun hunk => (hunk.lines, hunk.oldLines, hunk.newLines)

section Files

variable (render : Renderer) (diff : GixDiff)

/-- The library with a renderer for its hunks. -/
def withRenderer : GixDiff := { diff with histogramHunks := histogramHunks render }

/-- Two diffs show the same: the same lines with the same numbers and, where the file is not empty,
the same hunks. -/
def ShowAlike (data : Bytes) (whole modified : FileDiff) : Prop :=
  shown whole.hunks = shown modified.hunks ∧
    (data ≠ [] → withoutStarts whole.hunks = withoutStarts modified.hunks) ∧
    whole.isBinary = modified.isBinary ∧ whole.isTooLarge = modified.isTooLarge

theorem lineTokens_eq_nil_iff {data : Bytes} : lineTokens data = [] ↔ data = [] := by
  constructor
  · intro h
    have hsplit := splitLines_eq_tokens data
    rw [h, List.map_nil, splitLines, List.map_eq_nil_iff, lines] at hsplit
    by_contra hne
    -- some character is decoded, and is of some line
    obtain ⟨c, text, htext⟩ :=
      List.exists_cons_of_ne_nil (mt fromUtf8Lossy_eq_nil_iff.1 hne)
    rw [htext] at hsplit
    by_cases hmem : '\n' ∈ c :: text
    · obtain ⟨front, rest, hline, hfront⟩ := List.eq_append_cons_of_mem hmem
      rw [hline, linesFrom_line hfront] at hsplit
      exact absurd hsplit (List.cons_ne_nil _ _)
    · rw [linesFrom_rest hmem] at hsplit
      exact absurd hsplit (by simp)
  · rintro rfl
    rfl

/-- One hunk of all lines shows what the renderer shows of a comparison with the empty file. -/
theorem shown_alike {data : Bytes} {before after : List Bytes} {kind : DiffLineKind}
    {hunks : List RenderedHunk} (toLine : String → DiffLine)
    (htoLine : ∀ token, diffLine (kind, token) = toLine (lineTokenToString token))
    (htokens : before ++ after = lineTokens data)
    (h : before ++ after = [] ∧ hunks = [] ∨ ∃ hunk, hunks = [hunk] ∧
      hunk.lines = (before ++ after).map (fun token => (kind, token)) ∧
      hunk.beforeHunkLen = asU32 before.length ∧ hunk.afterHunkLen = asU32 after.length)
    (start newStart : Nat) :
    shown [⟨start, asU32 before.length, newStart, asU32 after.length,
        (splitLines data).map toLine⟩] = shown (hunks.map consumeHunk) ∧
      (data ≠ [] → withoutStarts [⟨start, asU32 before.length, newStart, asU32 after.length,
        (splitLines data).map toLine⟩] = withoutStarts (hunks.map consumeHunk)) := by
  have hlines : (splitLines data).map toLine = (before ++ after).map fun token =>
      diffLine (kind, token) := by
    rw [splitLines_eq_tokens, htokens, List.map_map]
    exact List.map_congr_left fun token _ => (htoLine token).symm
  rcases h with ⟨hnil, rfl⟩ | ⟨hunk, rfl, hshown, hbefore, hafter⟩
  · have hdata : data = [] := lineTokens_eq_nil_iff.1 (htokens.symm.trans hnil)
    obtain ⟨rfl, rfl⟩ := List.append_eq_nil_iff.1 hnil
    rw [hlines]
    exact ⟨rfl, fun hne => absurd hdata hne⟩
  · have hconsumed : (consumeHunk hunk).lines = (splitLines data).map toLine := by
      rw [hlines, consumeHunk, hshown, List.map_map]
      rfl
    have hlens : (consumeHunk hunk).oldLines = asU32 before.length ∧
        (consumeHunk hunk).newLines = asU32 after.length := ⟨hbefore, hafter⟩
    constructor
    · simp [shown, hconsumed, hlens]
    · intro _
      simp [withoutStarts, hconsumed, hlens]

variable (hshows : ∀ before after, Shows before after (render before after))

include hshows in
theorem addition_alike (path : String) (data : Bytes) :
    ShowAlike data (fileDiffForAddition path data)
      (fileDiffForModification (withRenderer render diff) none path [] data false) := by
  have hempty : isBinaryData [] = false := rfl
  simp only [fileDiffForAddition, fileDiffForModification, hempty, Bool.false_eq_true, false_or,
    List.length_nil, Nat.not_lt_zero, ShowAlike]
  split
  · exact ⟨rfl, fun _ => rfl, rfl, rfl⟩
  split
  · exact ⟨rfl, fun _ => rfl, rfl, rfl⟩
  have hone := (hshows [] (lineTokens data)).one_sided (Or.inl ⟨rfl, rfl, rfl⟩)
  have hcount : asU32 (splitLines data).length = asU32 (lineTokens data).length := by
    rw [splitLines_eq_tokens, List.length_map]
  have halike := shown_alike .added (fun _ => rfl) (List.nil_append _) hone 0
    (if (splitLines data).isEmpty then 0 else 1)
  rw [hcount]
  exact ⟨halike.1, halike.2, rfl, rfl⟩

include hshows in
theorem deletion_alike (path : String) (data : Bytes) :
    ShowAlike data (fileDiffForDeletion path data)
      (fileDiffForModification (withRenderer render diff) (some path) path data [] false) := by
  have hempty : isBinaryData [] = false := rfl
  simp only [fileDiffForDeletion, fileDiffForModification, hempty, Bool.false_eq_true, or_false,
    List.length_nil, Nat.not_lt_zero, ShowAlike]
  split
  · exact ⟨rfl, fun _ => rfl, rfl, rfl⟩
  split
  · exact ⟨rfl, fun _ => rfl, rfl, rfl⟩
  have hone := (hshows (lineTokens data) []).one_sided (Or.inr ⟨rfl, rfl, rfl⟩)
  have hcount : asU32 (splitLines data).length = asU32 (lineTokens data).length := by
    rw [splitLines_eq_tokens, List.length_map]
  have halike := shown_alike .removed (fun _ => rfl) (List.append_nil _) hone
    (if (splitLines data).isEmpty then 0 else 1) 0
  rw [hcount]
  exact ⟨halike.1, halike.2, rfl, rfl⟩

end Files

/-- Whatever the bytes, the lines of a whole file are its tokens without their ends, and the diff of
an added or a deleted file shows what that of a modification from or to the empty file does. -/
theorem lines_split_alike (render : Renderer)
    (hshows : ∀ before after, Shows before after (render before after)) (diff : GixDiff)
    (path : String) (data : Bytes) :
    splitLines data = (lineTokens data).map lineTokenToString ∧
      ShowAlike data (fileDiffForAddition path data)
        (fileDiffForModification (withRenderer render diff) none path [] data false) ∧
      ShowAlike data (fileDiffForDeletion path data)
        (fileDiffForModification (withRenderer render diff) (some path) path data [] false) :=
  ⟨splitLines_eq_tokens data, addition_alike render diff hshows path data,
    deletion_alike render diff hshows path data⟩

/-! ### A renderer without alignment -/

/-- Removes all lines and adds all lines, in one hunk. -/
def replaceAll : Renderer := fun before after =>
  if before ++ after = [] then []
  else [⟨if before = [] then 0 else 1, asU32 before.length, if after = [] then 0 else 1,
    asU32 after.length,
    before.map (fun token => (.remove, token)) ++ after.map fun token => (.add, token)⟩]

theorem shows_replaceAll (before after : List Bytes) :
    Shows before after (replaceAll before after) := by
  have hremove : side .remove (before.map (fun token => (.remove, token)) ++
      after.map fun token => (.add, token)) = before := by
    simp [side, List.filter_map, Function.comp_def]
  have hadd : side .add (before.map (fun token => (.remove, token)) ++
      after.map fun token => (.add, token)) = after := by
    simp [side, List.filter_map, Function.comp_def]
  refine ⟨_, hremove, hadd, ?_⟩
  rw [replaceAll]
  split
  · next hnil =>
    obtain ⟨rfl, rfl⟩ := List.append_eq_nil_iff.1 hnil
    exact .last [] fun line hline => absurd hline List.not_mem_nil
  · next hne =>
    refine .hunk _ [] [] _ [] (by simp) (fun line hline => absurd hline List.not_mem_nil) ?_ ?_ ?_
      (fun h => absurd rfl h) (.last [] fun line hline => absurd hline List.not_mem_nil)
    · simpa using hne
    · rw [hremove]
    · rw [hadd]

/-- A library that compares no trees. -/
def noTrees : GixDiff := ⟨fun _ _ _ => .ok [], fun _ _ _ => none, fun _ _ => [], fun _ => []⟩

/-- Two lines, the first with a byte that is no UTF-8, the last with a bare carriage return. -/
def mixedLines : Bytes := [0x61, 0xFF, 0x0D, 0x0A, 0x62, 0x0D]

theorem lines_split_alike_mixed :
    splitLines mixedLines = (lineTokens mixedLines).map lineTokenToString ∧
      ShowAlike mixedLines (fileDiffForAddition "notes" mixedLines)
        (fileDiffForModification (withRenderer replaceAll noTrees) none "notes" [] mixedLines
          false) ∧
      ShowAlike mixedLines (fileDiffForDeletion "notes" mixedLines)
        (fileDiffForModification (withRenderer replaceAll noTrees) (some "notes") "notes"
          mixedLines [] false) :=
  lines_split_alike replaceAll shows_replaceAll noTrees "notes" mixedLines

example : splitLines mixedLines = ["a\uFFFD", "b\r"] := by decide +kernel

end Edda.Git.DiffLines
