import Mathlib

/-!
# Sections under headings

Entries that are put under headings, one section for each heading that has any, and a reader of the
text that comes of it. Grouping puts the entries in another order and loses none
(`perm_flatMap_filter`), the lines of a text are read back where none of them holds the line end
(`splitOn_joinLines`), and the reader gives each section back under its heading
(`read_section`).
-/

set_option autoImplicit false

namespace Edda.Support.Sections

universe u v w

/-! ## Groups -/

section Groups

variable {α : Type u} {κ : Type v} [DecidableEq κ]

/-- The groups of the keys, one after the other, are the entries in another order. -/
theorem perm_flatMap_filter (key : α → κ) {keys : List κ} (hnodup : keys.Nodup)
    {entries : List α} (hkeys : ∀ entry ∈ entries, key entry ∈ keys) :
    (keys.flatMap fun k => entries.filter fun entry => key entry = k).Perm entries := by
  induction keys generalizing entries with
  | nil =>
    have hnone : entries = [] :=
      List.eq_nil_iff_forall_not_mem.2 fun entry hentry => List.not_mem_nil (hkeys entry hentry)
    rw [hnone, List.flatMap_nil]
  | cons k keys ih =>
    obtain ⟨hfresh, hnodup⟩ := List.nodup_cons.1 hnodup
    -- the later keys have nothing of the first group
    have hothers : (keys.flatMap fun k' => entries.filter fun entry => key entry = k') =
        keys.flatMap fun k' => (entries.filter fun entry => ¬ key entry = k).filter
          fun entry => key entry = k' := by
      apply List.flatMap_congr
      intro k' hk'
      rw [List.filter_filter]
      apply List.filter_congr
      intro entry _
      have hne : k' ≠ k := fun heq => hfresh (heq ▸ hk')
      by_cases hkey : key entry = k'
      · simp [hkey, hne]
      · simp [hkey]
    have hrest : ((keys.flatMap fun k' => entries.filter fun entry => key entry = k')).Perm
        (entries.filter fun entry => ¬ key entry = k) := by
      rw [hothers]
      apply ih hnodup
      intro entry hentry
      obtain ⟨hmem, hne⟩ := List.mem_filter.1 hentry
      exact (List.mem_cons.1 (hkeys entry hmem)).resolve_left (of_decide_eq_true hne)
    rw [List.flatMap_cons]
    apply (hrest.append_left _).trans
    simpa using List.filter_append_perm (fun entry => decide (key entry = k)) entries

end Groups

/-! ## Lines -/

section Lines

variable {α : Type u} {sep : α}

/-- The text of lines that each have an end. -/
def joinLines (sep : α) (lines : List (List α)) : List α := lines.flatMap (· ++ [sep])

@[simp] theorem joinLines_nil : joinLines sep [] = [] := rfl

@[simp] theorem joinLines_cons (line : List α) (lines : List (List α)) :
    joinLines sep (line :: lines) = line ++ sep :: joinLines sep lines := by
  simp [joinLines]

@[simp] theorem joinLines_append (lines others : List (List α)) :
    joinLines sep (lines ++ others) = joinLines sep lines ++ joinLines sep others :=
  List.flatMap_append

/-- Behind the last line end is one more line, which is empty. -/
theorem splitOn_joinLines [DecidableEq α] {lines : List (List α)} (hlines : ∀ line ∈ lines, sep ∉ line) :
    (joinLines sep lines).splitOn sep = lines ++ [[]] := by
  induction lines with
  | nil => rfl
  | cons line lines ih =>
    rw [joinLines_cons, List.splitOn_append_cons_self_of_not_mem
      (hlines line List.mem_cons_self), List.cons_append,
      ih fun other hother => hlines other (List.mem_cons_of_mem _ hother)]

end Lines

/-! ## The reader -/

section Reader

variable {α : Type u} {β : Type v} {γ : Type w} (heading : α → Option β) (item : α → Option γ)

/-- The items of the lines, each with the heading it is under. -/
def read (current : β) : List α → List (β × γ)
  | [] => []
  | line :: lines => match heading line with
    | some next => read next lines
    | none => match item line with
      | some found => (current, found) :: read current lines
      | none => read current lines

variable {heading item} {current next : β} {line : α} {lines : List α}

theorem read_heading (h : heading line = some next) :
    read heading item current (line :: lines) = read heading item next lines := by
  simp only [read, h]

theorem read_skip (h : heading line = none) (hitem : item line = none) :
    read heading item current (line :: lines) = read heading item current lines := by
  simp only [read, h, hitem]

/-- A section is read as its items, under its heading. -/
theorem read_section {items : List γ} (printed : γ → α)
    (hheading : ∀ found ∈ items, heading (printed found) = none)
    (hitem : ∀ found ∈ items, item (printed found) = some found) :
    read heading item current (items.map printed ++ lines) =
      items.map (fun found => (current, found)) ++ read heading item current lines := by
  induction items with
  | nil => rfl
  | cons found items ih =>
    have hrest := ih (fun other hother => hheading other (List.mem_cons_of_mem _ hother))
      fun other hother => hitem other (List.mem_cons_of_mem _ hother)
    simp only [List.map_cons, List.cons_append, read, hheading found List.mem_cons_self,
      hitem found List.mem_cons_self, hrest]

end Reader

end Edda.Support.Sections
