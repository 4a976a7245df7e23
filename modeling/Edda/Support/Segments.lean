import Mathlib

/-!
# Segments between separators

`List.splitOn` cuts a text at each separator. A run of the segments in front is cut off at a
separator (`splitOn_eq_append_iff`). Where two texts meet, the last segment of the one is joined to
the first of the other (`splitOn_append`). An encoding that keeps the separator apart encodes segment
by segment (`splitOn_flatMap`).

`segments_lead_iff` and `segments_infix_iff` say where the segments of a text begin with those of
another, or contain them, without cutting either.
-/

set_option autoImplicit false

namespace Edda.Support.Segments

universe u v

variable {α : Type u} [DecidableEq α] {sep : α}

omit [DecidableEq α] in
theorem intercalate_append {before after : List (List α)} (hbefore : before ≠ [])
    (hafter : after ≠ []) : [sep].intercalate (before ++ after) =
      [sep].intercalate before ++ sep :: [sep].intercalate after := by
  induction before with
  | nil => exact absurd rfl hbefore
  | cons segment before ih =>
    rw [List.cons_append, List.intercalate_cons_of_ne_nil (List.append_ne_nil_of_right_ne_nil _ hafter)]
    cases before with
    | nil => simp
    | cons next before =>
      rw [ih (List.cons_ne_nil _ _), List.intercalate_cons_cons]
      simp

theorem splitOn_inj {text other : List α} (h : text.splitOn sep = other.splitOn sep) :
    text = other := by
  rw [← @List.intercalate_splitOn _ text _ _ sep, h, List.intercalate_splitOn]

theorem notMem_of_mem_splitOn {text segment : List α} (h : segment ∈ text.splitOn sep) :
    sep ∉ segment := by
  induction text generalizing segment with
  | nil =>
    rw [List.splitOn_nil, List.mem_singleton] at h
    rw [h]
    exact List.not_mem_nil
  | cons a text ih =>
    rw [List.splitOn_cons_eq_if_modifyHead] at h
    split at h
    · rcases List.mem_cons.1 h with rfl | h
      · exact List.not_mem_nil
      · exact ih h
    · next hne =>
      obtain ⟨first, rest, hsplit⟩ := List.exists_cons_of_ne_nil (List.splitOn_ne_nil sep text)
      rw [hsplit, List.modifyHead_cons, List.mem_cons] at h
      rw [hsplit] at ih
      rcases h with rfl | h
      · -- the symbol in front is not the separator
        rw [List.mem_cons, not_or]
        exact ⟨fun heq => hne (by simp [heq]), ih List.mem_cons_self⟩
      · exact ih (List.mem_cons_of_mem _ h)

theorem subset_of_mem_splitOn {text segment : List α} (h : segment ∈ text.splitOn sep) :
    segment ⊆ text := by
  induction text generalizing segment with
  | nil =>
    rw [List.splitOn_nil, List.mem_singleton] at h
    rw [h]
    exact List.nil_subset _
  | cons a text ih =>
    rw [List.splitOn_cons_eq_if_modifyHead] at h
    split at h
    · rcases List.mem_cons.1 h with rfl | h
      · exact List.nil_subset _
      · exact List.subset_cons_of_subset a (ih h)
    · obtain ⟨first, rest, hsplit⟩ := List.exists_cons_of_ne_nil (List.splitOn_ne_nil sep text)
      rw [hsplit, List.modifyHead_cons, List.mem_cons] at h
      rw [hsplit] at ih
      rcases h with rfl | h
      · exact List.cons_subset_cons a (ih List.mem_cons_self)
      · exact List.subset_cons_of_subset a (ih (List.mem_cons_of_mem _ h))

/-- Segments in front, and segments behind, are those of the two sides of a separator. -/
theorem splitOn_eq_append_iff {text : List α} {before after : List (List α)} (hbefore : before ≠ [])
    (hafter : after ≠ []) : text.splitOn sep = before ++ after ↔
      ∃ front tail, text = front ++ sep :: tail ∧ front.splitOn sep = before ∧
        tail.splitOn sep = after := by
  constructor
  · intro h
    have hnotMem (segment : List α) (hmem : segment ∈ before ++ after) : sep ∉ segment :=
      notMem_of_mem_splitOn (h ▸ hmem)
    refine ⟨[sep].intercalate before, [sep].intercalate after, ?_, ?_, ?_⟩
    · rw [← intercalate_append hbefore hafter, ← h, List.intercalate_splitOn]
    · exact List.splitOn_intercalate sep
        (fun segment hmem => hnotMem segment (List.mem_append_left _ hmem)) hbefore
    · exact List.splitOn_intercalate sep
        (fun segment hmem => hnotMem segment (List.mem_append_right _ hmem)) hafter
  · rintro ⟨front, tail, rfl, rfl, rfl⟩
    exact List.splitOn_append_cons_self front tail

/-- Where two texts meet, a segment of the one is joined to a segment of the other. -/
theorem splitOn_append {front tail last first : List α} {before after : List (List α)}
    (hfront : front.splitOn sep = before ++ [last]) (htail : tail.splitOn sep = first :: after) :
    (front ++ tail).splitOn sep = before ++ (last ++ first) :: after := by
  induction front generalizing before last with
  | nil =>
    rw [List.splitOn_nil] at hfront
    obtain ⟨rfl, hlast⟩ := @List.append_inj' _ [] _ _ _ hfront rfl
    rw [List.nil_append, htail, ← (List.cons.inj hlast).1]
    rfl
  | cons a front ih =>
    obtain ⟨start, others, hsplit⟩ :=
      List.exists_cons_of_ne_nil (List.splitOn_ne_nil sep front)
    rw [List.splitOn_cons_eq_if_modifyHead] at hfront
    rw [List.cons_append, List.splitOn_cons_eq_if_modifyHead]
    split at hfront
    · next hsep =>
      rw [if_pos hsep]
      cases before with
      | nil =>
        rw [hsplit] at hfront
        exact absurd (List.cons.inj hfront).2 (List.cons_ne_nil _ _)
      | cons empty before =>
        obtain ⟨rfl, hrest⟩ := List.cons.inj hfront
        rw [ih hrest]
        rfl
    · next hsep =>
      rw [if_neg hsep]
      rw [hsplit, List.modifyHead_cons] at hfront
      cases before with
      | nil =>
        obtain ⟨rfl, rfl⟩ := List.cons.inj hfront
        rw [@ih start [] hsplit]
        rfl
      | cons segment before =>
        obtain ⟨rfl, rfl⟩ := List.cons.inj hfront
        rw [@ih _ (start :: before) hsplit]
        rfl

/-- A text in front adds to the first segment of what is behind it, or cuts it off. -/
theorem exists_splitOn_append (front tail : List α) :
    ∃ before joined, ∀ first after, tail.splitOn sep = first :: after →
      sep ∉ joined ∧ (front ++ tail).splitOn sep = before ++ (joined ++ first) :: after := by
  have hne := List.splitOn_ne_nil sep front
  have hfront := (List.dropLast_append_getLast hne).symm
  generalize (front.splitOn sep).dropLast = before, (front.splitOn sep).getLast hne = last at hfront
  refine ⟨before, last, fun first after htail => ⟨?_, splitOn_append hfront htail⟩⟩
  exact notMem_of_mem_splitOn (hfront ▸ List.mem_append_right before (List.mem_singleton_self last))

/-- The segments of a code are the codes of the segments. -/
theorem splitOn_flatMap {β : Type v} [DecidableEq β] {encode : α → List β} {sep' : β}
    (hsep : encode sep = [sep']) (hother : ∀ a, a ≠ sep → sep' ∉ encode a) (text : List α) :
    (text.flatMap encode).splitOn sep' = (text.splitOn sep).map (·.flatMap encode) := by
  induction text with
  | nil => rfl
  | cons a text ih =>
    rw [List.flatMap_cons, List.splitOn_cons_eq_if_modifyHead]
    by_cases ha : a = sep
    · rw [if_pos (by simp [ha]), ha, hsep, List.map_cons, ← ih]
      exact List.splitOn_append_cons_self_of_not_mem List.not_mem_nil _
    · rw [if_neg (by simp [ha])]
      obtain ⟨first, after, hsplit⟩ := List.exists_cons_of_ne_nil (List.splitOn_ne_nil sep text)
      rw [hsplit, List.map_cons] at ih
      rw [hsplit, List.modifyHead_cons, List.map_cons, List.flatMap_cons]
      exact @splitOn_append _ _ _ _ _ _ _ [] _ (List.splitOn_eq_singleton (hother a ha)) ih

section Runs

variable {text core : List α}

/-- The segments of a text begin with those of another. -/
theorem segments_lead_iff : (∃ below, text.splitOn sep = core.splitOn sep ++ below) ↔
    text = core ∨ core ++ [sep] <+: text := by
  have hcore := List.splitOn_ne_nil sep core
  constructor
  · rintro ⟨below, h⟩
    cases below with
    | nil =>
      rw [List.append_nil] at h
      exact Or.inl (splitOn_inj h)
    | cons segment below =>
      obtain ⟨front, tail, rfl, hfront, -⟩ :=
        (splitOn_eq_append_iff hcore (List.cons_ne_nil _ _)).1 h
      rw [splitOn_inj hfront]
      exact Or.inr ⟨tail, by simp⟩
  · rintro (rfl | ⟨tail, rfl⟩)
    · exact ⟨[], (List.append_nil _).symm⟩
    · refine ⟨tail.splitOn sep, ?_⟩
      rw [List.append_assoc, List.singleton_append, List.splitOn_append_cons_self]

/-- The segments of a text contain those of another. -/
theorem segments_infix_iff :
    (∃ above below, text.splitOn sep = above ++ (core.splitOn sep ++ below)) ↔
      (text = core ∨ core ++ [sep] <+: text) ∨
        ∃ front tail, text = front ++ sep :: tail ∧ (tail = core ∨ core ++ [sep] <+: tail) := by
  simp only [← segments_lead_iff]
  constructor
  · rintro ⟨above, below, h⟩
    cases above with
    | nil => exact Or.inl ⟨below, h⟩
    | cons segment above =>
      obtain ⟨front, tail, rfl, -, htail⟩ := (splitOn_eq_append_iff (List.cons_ne_nil _ _)
        (List.append_ne_nil_of_left_ne_nil (List.splitOn_ne_nil sep core) _)).1 h
      exact Or.inr ⟨front, tail, rfl, below, htail⟩
  · rintro (⟨below, h⟩ | ⟨front, tail, rfl, below, h⟩)
    · exact ⟨[], below, h⟩
    · refine ⟨front.splitOn sep, below, ?_⟩
      rw [List.splitOn_append_cons_self, h]

end Runs

end Edda.Support.Segments
