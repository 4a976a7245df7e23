import Edda.Support.RustText

/-!
# Lists in a text

The items between the separators of a text, trimmed and without the blank ones. White space around
the whole text makes no difference to them (`items_trim`), and there are none only where the text is
all white space and separators (`items_eq_nil_iff`).
-/

set_option autoImplicit false

namespace Edda.Support.TextList

open Edda.Support.RustText

/-- `split(sep).map(str::trim).filter(|s| !s.is_empty())`. -/
def items (sep : Char) (text : List Char) : List (List Char) :=
  ((text.splitOn sep).map trim).filter fun item => !item.isEmpty

variable {sep c : Char} {text spaces : List Char}

/-! ## White space at the ends -/

/-- Nothing but white space. -/
def Blank (text : List Char) : Prop := ∀ c ∈ text, isWhitespace c = true

theorem Blank.reverse (h : Blank text) : Blank text.reverse :=
  fun c hc => h c (List.mem_reverse.1 hc)

theorem trimEnd_append (hspaces : Blank spaces) (text : List Char) :
    trimEnd (text ++ spaces) = trimEnd text := by
  rw [trimEnd, List.reverse_append, List.dropWhile_append_of_pos hspaces.reverse, trimEnd]

theorem trimStart_append (hspaces : Blank spaces) (text : List Char) :
    trimStart (spaces ++ text) = trimStart text :=
  List.dropWhile_append_of_pos hspaces

theorem trim_append (hspaces : Blank spaces) (text : List Char) :
    trim (text ++ spaces) = trim text := by
  rw [trim, trimEnd_append hspaces, trim]

theorem trim_append_left (hspaces : Blank spaces) (text : List Char) :
    trim (spaces ++ text) = trim text := by
  rw [trim, trim, trimEnd, trimEnd, List.reverse_append, List.dropWhile_append]
  split
  · -- the text is blank, so that the end to be trimmed goes through it
    rename_i hblank
    rw [List.isEmpty_iff.1 hblank, List.dropWhile_eq_nil_iff.2 hspaces.reverse]
  · rw [List.reverse_append, List.reverse_reverse, trimStart_append hspaces]

/-- What is trimmed off is white space. -/
theorem exists_append_trim (text : List Char) :
    ∃ before after, Blank before ∧ Blank after ∧ text = before ++ trim text ++ after := by
  refine ⟨(trimEnd text).takeWhile isWhitespace, (text.reverse.takeWhile isWhitespace).reverse,
    ?_, ?_, ?_⟩
  · exact fun c hc => List.mem_takeWhile_imp hc
  · exact fun c hc => List.mem_takeWhile_imp (List.mem_reverse.1 hc)
  · rw [trim, trimStart, List.takeWhile_append_dropWhile, trimEnd, ← List.reverse_append,
      List.takeWhile_append_dropWhile, List.reverse_reverse]

theorem trim_eq_nil_iff : trim text = [] ↔ Blank text := by
  constructor
  · intro htrim
    obtain ⟨before, after, hbefore, hafter, htext⟩ := exists_append_trim text
    rw [htrim, List.append_nil] at htext
    rw [htext]
    intro c hc
    exact (List.mem_append.1 hc).elim (hbefore c) (hafter c)
  · intro hblank
    rw [← List.append_nil text, trim_append_left hblank]
    rfl

/-! ## The pieces between separators -/

/-- Without a separator, a text belongs to the last piece of what it follows. -/
theorem splitOn_append (hspaces : sep ∉ spaces) (text : List Char) :
    ∃ pieces last, text.splitOn sep = pieces ++ [last] ∧
      (text ++ spaces).splitOn sep = pieces ++ [last ++ spaces] := by
  induction text with
  | nil => exact ⟨[], [], List.splitOn_nil sep, by simpa using List.splitOn_eq_singleton hspaces⟩
  | cons c text ih =>
    obtain ⟨pieces, last, htext, happend⟩ := ih
    rw [List.cons_append, List.splitOn_cons_eq_if_modifyHead, List.splitOn_cons_eq_if_modifyHead,
      htext, happend]
    split
    · exact ⟨[] :: pieces, last, rfl, rfl⟩
    · cases pieces with
      | nil => exact ⟨[], c :: last, rfl, rfl⟩
      | cons piece pieces => exact ⟨(c :: piece) :: pieces, last, rfl, rfl⟩

/-- And to the first piece of what it stands in front of. -/
theorem splitOn_append_left (hspaces : sep ∉ spaces) (text : List Char) :
    ∃ first pieces, text.splitOn sep = first :: pieces ∧
      (spaces ++ text).splitOn sep = (spaces ++ first) :: pieces := by
  induction spaces with
  | nil =>
    obtain ⟨first, pieces, htext⟩ := List.exists_cons_of_ne_nil (List.splitOn_ne_nil sep text)
    exact ⟨first, pieces, htext, htext⟩
  | cons c spaces ih =>
    obtain ⟨hc, hrest⟩ := not_or.1 (mt List.mem_cons.2 hspaces)
    obtain ⟨first, pieces, htext, happend⟩ := ih hrest
    refine ⟨first, pieces, htext, ?_⟩
    rw [List.cons_append, List.splitOn_cons_eq_if_modifyHead, happend,
      if_neg (by simpa using Ne.symm hc)]
    rfl

theorem exists_mem_splitOn_iff :
    (∃ piece ∈ text.splitOn sep, c ∈ piece) ↔ c ∈ text ∧ c ≠ sep := by
  induction text with
  | nil => simp [List.splitOn_nil]
  | cons d text ih =>
    obtain ⟨first, pieces, htext⟩ := List.exists_cons_of_ne_nil (List.splitOn_ne_nil sep text)
    rw [htext] at ih
    rw [List.splitOn_cons_eq_if_modifyHead, htext]
    by_cases hd : d = sep
    · rw [if_pos (by simpa using hd), List.exists_mem_cons_iff, ih, List.mem_cons]
      grind
    · rw [if_neg (by simpa using hd)]
      simp only [List.modifyHead_cons, List.mem_cons, exists_eq_or_imp] at ih ⊢
      rw [or_assoc, ih]
      grind

/-! ## Items -/

/-- White space is no separator, so it belongs to the first piece and to the last one. -/
theorem items_append (hsep : isWhitespace sep = false) (hspaces : Blank spaces)
    (text : List Char) : items sep (text ++ spaces) = items sep text := by
  have hnot : sep ∉ spaces := fun hmem => by simp [hspaces sep hmem] at hsep
  obtain ⟨pieces, last, htext, happend⟩ := splitOn_append hnot text
  rw [items, items, htext, happend, List.map_append, List.map_append]
  simp only [List.map_cons, trim_append hspaces]

theorem items_append_left (hsep : isWhitespace sep = false) (hspaces : Blank spaces)
    (text : List Char) : items sep (spaces ++ text) = items sep text := by
  have hnot : sep ∉ spaces := fun hmem => by simp [hspaces sep hmem] at hsep
  obtain ⟨first, pieces, htext, happend⟩ := splitOn_append_left hnot text
  rw [items, items, htext, happend]
  simp only [List.map_cons, trim_append_left hspaces]

/-- Trimming the whole text first changes none of its items. -/
theorem items_trim (hsep : isWhitespace sep = false) (text : List Char) :
    items sep (trim text) = items sep text := by
  obtain ⟨before, after, hbefore, hafter, htext⟩ := exists_append_trim text
  calc items sep (trim text) = items sep (before ++ trim text) :=
        (items_append_left hsep hbefore _).symm
    _ = items sep (before ++ trim text ++ after) := (items_append hsep hafter _).symm
    _ = items sep text := by rw [← htext]

theorem items_eq_nil_iff :
    items sep text = [] ↔ ∀ c ∈ text, isWhitespace c = true ∨ c = sep := by
  have hpieces : items sep text = [] ↔ ∀ piece ∈ text.splitOn sep, Blank piece := by
    simp only [items, List.filter_eq_nil_iff, List.mem_map, forall_exists_index, and_imp,
      forall_apply_eq_imp_iff₂]
    apply forall₂_congr
    intro piece hpiece
    rw [← trim_eq_nil_iff]
    simp
  rw [hpieces]
  constructor
  · intro hblank c hc
    by_cases hceq : c = sep
    · exact .inr hceq
    · obtain ⟨piece, hpiece, hmem⟩ := exists_mem_splitOn_iff.2 ⟨hc, hceq⟩
      exact .inl (hblank piece hpiece c hmem)
  · intro hall piece hpiece c hmem
    obtain ⟨hc, hne⟩ := exists_mem_splitOn_iff.1 ⟨piece, hpiece, hmem⟩
    exact (hall c hc).resolve_right hne

end Edda.Support.TextList
