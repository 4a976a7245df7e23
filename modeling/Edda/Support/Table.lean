import Mathlib

/-!
# Tables with a key

A table is a list of rows, each with a key. `update` is the statement that changes the rows a
condition selects, and `affected` how many these are. The library gives what a lookup by key finds
after an update and after an insert (`lookup_update`, `lookup_append`), that a key selects at most
one row (`filter_eq_lookup`), that a condition that fixes the key selects at most the row that the
lookup finds (`affected_pos`), and when two selections list the same (`select_eq_iff`).
-/

set_option autoImplicit false

namespace Edda.Support.Table

universe u v

section Table

variable {ρ : Type u} {κ : Type v} [DecidableEq κ] (key : ρ → κ)

/-- The row with a key. -/
def lookup (rows : List ρ) (k : κ) : Option ρ := rows.find? fun row => key row = k

/-- `UPDATE … SET … WHERE …`. -/
def update (rows : List ρ) (selected : ρ → Bool) (set : ρ → ρ) : List ρ :=
  rows.map fun row => if selected row then set row else row

def affected (rows : List ρ) (selected : ρ → Bool) : Nat := rows.countP selected

/-- No two rows have the same key. -/
def Keyed (rows : List ρ) : Prop := (rows.map key).Nodup

instance (rows : List ρ) : Decidable (Keyed key rows) :=
  inferInstanceAs (Decidable (rows.map key).Nodup)

variable {key} {rows : List ρ} {k : κ} {row : ρ}

theorem mem_of_lookup (h : lookup key rows k = some row) : row ∈ rows ∧ key row = k :=
  ⟨List.mem_of_find?_eq_some h, by simpa using List.find?_some h⟩

theorem lookup_eq_none : lookup key rows k = none ↔ k ∉ rows.map key := by
  simp [lookup]

/-- The key tells the row. -/
theorem lookup_of_mem (hkeys : Keyed key rows) (hrow : row ∈ rows) :
    lookup key rows (key row) = some row := by
  cases hfind : lookup key rows (key row) with
  | none => exact absurd (List.mem_map_of_mem hrow) (lookup_eq_none.1 hfind)
  | some found =>
    obtain ⟨hfound, hkey⟩ := mem_of_lookup hfind
    rw [List.inj_on_of_nodup_map hkeys hfound hrow hkey]

/-- At most one row has a key. -/
theorem filter_eq_lookup (hkeys : Keyed key rows) (k : κ) :
    rows.filter (fun row => key row = k) = (lookup key rows k).toList := by
  induction rows with
  | nil => rfl
  | cons row rest ih =>
    obtain ⟨hnew, hrest⟩ := List.nodup_cons.1 hkeys
    by_cases hrow : key row = k
    · have hnone : rest.filter (fun row => key row = k) = [] := by
        refine List.filter_eq_nil_iff.2 fun other hother => ?_
        simp only [decide_eq_true_eq]
        intro hsame
        exact hnew (hrow.trans hsame.symm ▸ List.mem_map_of_mem hother)
      rw [List.filter_cons_of_pos (by simpa using hrow), hnone, lookup,
        List.find?_cons_of_pos (by simpa using hrow)]
      rfl
    · rw [List.filter_cons_of_neg (by simpa using hrow), ih hrest, lookup, lookup,
        List.find?_cons_of_neg (by simpa using hrow)]

theorem lookup_append (new : ρ) :
    lookup key (rows ++ [new]) k =
      (lookup key rows k).or (if key new = k then some new else none) := by
  simp only [lookup, List.find?_append]
  by_cases hkey : key new = k
  · simp [hkey]
  · simp [hkey]

theorem lookup_update {selected : ρ → Bool} {set : ρ → ρ} (hset : ∀ row, key (set row) = key row) :
    lookup key (update rows selected set) k =
      (lookup key rows k).map fun row => if selected row then set row else row := by
  have hkey : ∀ row, key (if selected row then set row else row) = key row := by
    intro row
    split
    · exact hset row
    · rfl
  induction rows with
  | nil => rfl
  | cons row rest ih =>
    simp only [lookup, update, List.map_cons] at ih ⊢
    by_cases hrow : key row = k
    · rw [List.find?_cons_of_pos (by simpa [hkey] using hrow),
        List.find?_cons_of_pos (by simpa using hrow)]
      rfl
    · rw [List.find?_cons_of_neg (by simpa [hkey] using hrow),
        List.find?_cons_of_neg (by simpa using hrow), ih]

omit [DecidableEq κ] in
theorem keys_update {selected : ρ → Bool} {set : ρ → ρ} (hset : ∀ row, key (set row) = key row) :
    (update rows selected set).map key = rows.map key := by
  simp only [update, List.map_map]
  refine List.map_congr_left fun row _ => ?_
  simp only [Function.comp]
  split
  · exact hset row
  · rfl

omit [DecidableEq κ] in
theorem Keyed.update {selected : ρ → Bool} {set : ρ → ρ} (hset : ∀ row, key (set row) = key row)
    (h : Keyed key rows) : Keyed key (Table.update rows selected set) := by
  rw [Keyed, keys_update hset]
  exact h

omit [DecidableEq κ] in
theorem Keyed.append {new : ρ} (h : Keyed key rows) (hnew : key new ∉ rows.map key) :
    Keyed key (rows ++ [new]) := by
  rw [Keyed, List.map_append]
  refine List.nodup_append.2 ⟨h, List.nodup_singleton _, ?_⟩
  rintro a ha b hb rfl
  rw [List.mem_singleton.1 hb] at ha
  exact hnew ha

/-- A condition that fixes the key selects the row with this key or none. -/
theorem affected_pos (hkeys : Keyed key rows) {selected : ρ → Bool}
    (hfixed : ∀ row, selected row = true → key row = k) :
    0 < affected rows selected ↔ ∃ row, lookup key rows k = some row ∧ selected row = true := by
  simp only [affected, List.countP_pos_iff]
  constructor
  · rintro ⟨row, hrow, hselected⟩
    exact ⟨row, hfixed row hselected ▸ lookup_of_mem hkeys hrow, hselected⟩
  · rintro ⟨row, hfind, hselected⟩
    exact ⟨row, (mem_of_lookup hfind).1, hselected⟩

omit [DecidableEq κ] in
/-- Two selections that show the key list the same exactly when they agree on every row. -/
theorem select_eq_iff {β : Type} (hkeys : Keyed key rows) (p q : ρ → Bool) (f g : ρ → β) :
    (rows.filter p).map (fun row => (key row, f row)) =
        (rows.filter q).map (fun row => (key row, g row)) ↔
      ∀ row ∈ rows, p row = q row ∧ (p row = true → f row = g row) := by
  constructor
  · intro heq row hrow
    -- a row that is in one of the lists is in the other, and its key tells which
    have hforward : p row = true → q row = true ∧ g row = f row := by
      intro hp
      have hmem : (key row, f row) ∈ (rows.filter q).map fun row => (key row, g row) := by
        rw [← heq]
        exact List.mem_map.2 ⟨row, List.mem_filter.2 ⟨hrow, hp⟩, rfl⟩
      obtain ⟨other, hother, hpair⟩ := List.mem_map.1 hmem
      obtain ⟨hin, hq⟩ := List.mem_filter.1 hother
      obtain ⟨hkey, hval⟩ := Prod.mk.inj hpair
      obtain rfl := List.inj_on_of_nodup_map hkeys hin hrow hkey
      exact ⟨hq, hval⟩
    have hbackward : q row = true → p row = true := by
      intro hq
      have hmem : (key row, g row) ∈ (rows.filter p).map fun row => (key row, f row) := by
        rw [heq]
        exact List.mem_map.2 ⟨row, List.mem_filter.2 ⟨hrow, hq⟩, rfl⟩
      obtain ⟨other, hother, hpair⟩ := List.mem_map.1 hmem
      obtain ⟨hin, hp⟩ := List.mem_filter.1 hother
      obtain rfl := List.inj_on_of_nodup_map hkeys hin hrow (Prod.mk.inj hpair).1
      exact hp
    exact ⟨Bool.eq_iff_iff.2 ⟨fun hp => (hforward hp).1, hbackward⟩,
      fun hp => (hforward hp).2.symm⟩
  · intro h
    rw [List.filter_congr fun row hrow => (h row hrow).1]
    refine List.map_congr_left fun row hrow => ?_
    obtain ⟨hin, hq⟩ := List.mem_filter.1 hrow
    rw [(h row hin).2 ((h row hin).1.trans hq)]

end Table

end Edda.Support.Table
