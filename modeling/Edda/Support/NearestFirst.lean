import Edda.Support.Worklist

/-!
# Breadth-first walks visit the nearest entry first

Entries with one key may differ in rank, and the walk visits the entry of a key that it meets
first. When the ranks along every edge grow by one fixed amount, when the start has one rank, and
when an entry of lower rank has every child of an entry of higher rank with the same key, then a
first-in first-out walk that does not fail visits, for everything it reaches, an entry of the same
key and of no higher rank (`exists_visited_le`).
-/

set_option autoImplicit false

namespace Edda.Support.Worklist

universe u v w

section Nearest

variable {α : Type u} {κ : Type v} {ε : Type w} [DecidableEq κ] (W : Walk α κ ε)

/-- A ranking of the entries that a walk from `start` reaches. -/
structure Ranked (start : List α) (rank : α → Nat) (weight : Nat) : Prop where
  discipline : W.discipline = .fifo
  start_rank : ∀ a ∈ start, ∀ b ∈ start, rank a = rank b
  child_rank : ∀ a, Reaches W start a → ∀ children, W.expand a = .ok children →
    ∀ b ∈ children, rank b = rank a + weight
  covers : ∀ a b, W.key a = W.key b → rank a ≤ rank b → ∀ as bs, W.expand a = .ok as →
    W.expand b = .ok bs → ∀ d ∈ bs, ∃ c ∈ as, W.key c = W.key d ∧ rank c ≤ rank d

/-- The key of `b` is skipped, or an entry of the same key and of no higher rank is visited or
queued. -/
def Covered (rank : α → Nat) (visited queue : List α) (b : α) : Prop :=
  W.skip (W.key b) = true ∨
    ∃ a, (a ∈ visited ∨ a ∈ queue) ∧ W.key a = W.key b ∧ rank a ≤ rank b

/-- The queue is in the order of the ranks, which differ by one edge at most, and lies behind the
visited entries; the start and the children of every visited entry are covered. -/
structure Nearest (start : List α) (rank : α → Nat) (weight : Nat) (visited queue : List α) :
    Prop where
  sorted : queue.Pairwise fun a b => rank a ≤ rank b ∧ rank b ≤ rank a + weight
  behind : ∀ a ∈ visited, ∀ b ∈ queue, rank a ≤ rank b
  start_covered : ∀ b ∈ start, Covered W rank visited queue b
  children_covered : ∀ a ∈ visited, ∀ children, W.expand a = .ok children →
    ∀ b ∈ children, Covered W rank visited queue b

variable {W} {start : List α} {rank : α → Nat} {weight : Nat} {visited queue : List α} {a : α}

omit [DecidableEq κ] in
/-- Dropping an entry that is skipped or was visited keeps what was covered. -/
theorem Covered.drop (hbehind : ∀ c ∈ visited, rank c ≤ rank a)
    (hseen : W.key a ∈ visited.map W.key ∨ W.skip (W.key a) = true) {b : α}
    (h : Covered W rank visited (a :: queue) b) : Covered W rank visited queue b := by
  rcases h with h | ⟨c, hc, hkey, hrank⟩
  · exact Or.inl h
  · rcases hc with hc | hc
    · exact Or.inr ⟨c, Or.inl hc, hkey, hrank⟩
    · rcases List.mem_cons.1 hc with rfl | hc
      · rcases hseen with hseen | hskip
        · obtain ⟨d, hd, hdkey⟩ := List.mem_map.1 hseen
          exact Or.inr ⟨d, Or.inl hd, hdkey.trans hkey, Nat.le_trans (hbehind d hd) hrank⟩
        · exact Or.inl (hkey ▸ hskip)
      · exact Or.inr ⟨c, Or.inr hc, hkey, hrank⟩

omit [DecidableEq κ] in
/-- Visiting an entry keeps what was covered. -/
theorem Covered.visit {children : List α} {b : α}
    (h : Covered W rank visited (a :: queue) b) :
    Covered W rank (a :: visited) (queue ++ children) b := by
  rcases h with h | ⟨c, hc, hkey, hrank⟩
  · exact Or.inl h
  · refine Or.inr ⟨c, ?_, hkey, hrank⟩
    rcases hc with hc | hc
    · exact Or.inl (List.mem_cons_of_mem _ hc)
    · rcases List.mem_cons.1 hc with rfl | hc
      · exact Or.inl (by simp)
      · exact Or.inr (List.mem_append_left _ hc)

omit [DecidableEq κ] in
theorem Nearest.drop (h : Nearest W start rank weight visited (a :: queue))
    (hseen : W.key a ∈ visited.map W.key ∨ W.skip (W.key a) = true) :
    Nearest W start rank weight visited queue where
  sorted := (List.pairwise_cons.1 h.sorted).2
  behind := fun c hc b hb => h.behind c hc b (List.mem_cons_of_mem _ hb)
  start_covered := fun b hb =>
    (h.start_covered b hb).drop (fun c hc => h.behind c hc a (by simp)) hseen
  children_covered := fun c hc children hchildren b hb =>
    (h.children_covered c hc children hchildren b hb).drop
      (fun c hc => h.behind c hc a (by simp)) hseen

omit [DecidableEq κ] in
theorem Nearest.visit {children : List α}
    (h : Nearest W start rank weight visited (a :: queue)) (hexpand : W.expand a = .ok children)
    (hchild : ∀ b ∈ children, rank b = rank a + weight) :
    Nearest W start rank weight (a :: visited) (queue ++ children) := by
  obtain ⟨hhead, htail⟩ := List.pairwise_cons.1 h.sorted
  refine ⟨?_, ?_, ?_, ?_⟩
  · refine List.pairwise_append.2 ⟨htail, ?_, ?_⟩
    · refine List.pairwise_of_forall_mem_list fun b hb c hc => ?_
      rw [hchild b hb, hchild c hc]
      omega
    · intro b hb c hc
      have hlow := hhead b hb
      rw [hchild c hc]
      omega
  · intro b hb c hc
    have hab : rank b ≤ rank a := by
      rcases List.mem_cons.1 hb with rfl | hb
      · exact Nat.le_refl _
      · exact h.behind b hb a (by simp)
    rcases List.mem_append.1 hc with hc | hc
    · exact Nat.le_trans hab (hhead c hc).1
    · rw [hchild c hc]
      omega
  · exact fun b hb => (h.start_covered b hb).visit
  · intro b hb cs hcs d hd
    rcases List.mem_cons.1 hb with rfl | hb
    · have : cs = children := Except.ok.inj (hcs.symm.trans hexpand)
      subst this
      exact Or.inr ⟨d, Or.inr (List.mem_append_right _ hd), rfl, Nat.le_refl _⟩
    · exact (h.children_covered b hb cs hcs d hd).visit

/-- A step keeps the order of the ranks and what is covered. -/
theorem Nearest.step {s : State α ε} (hranked : Ranked W start rank weight)
    (hsound : Sound W start s) (hf : (step W s).failure = none)
    (h : Nearest W start rank weight s.visited s.queue) :
    Nearest W start rank weight (step W s).visited (step W s).queue := by
  have hcase := step_cases W s
  generalize Worklist.step W s = t at hcase hf
  cases hcase with
  | halted _ => exact h
  | drop a queue _ hq hseen =>
    rw [hq] at h
    exact h.drop hseen
  | refuse a queue e _ _ _ _ _ => exact absurd hf (by simp)
  | overrun a queue children e _ _ _ _ _ _ _ => exact absurd hf (by simp)
  | visit a queue children _ hq _ hskip _ hexpand _ =>
    have hreach : Reaches W start a := hsound.queued a (by simp [hq]) hskip
    rw [hq] at h
    simp only [hranked.discipline, Discipline.enqueue]
    exact h.visit hexpand (hranked.child_rank a hreach children hexpand)

theorem run_nearest (hranked : Ranked W start rank weight) (n : Nat)
    (hf : (run W n (State.init start)).failure = none) :
    Nearest W start rank weight (run W n (State.init start)).visited
      (run W n (State.init start)).queue := by
  have hinv := run_induction W
    (P := fun s => Sound W start s ∧
      (s.failure = none → Nearest W start rank weight s.visited s.queue))
    (fun s hs => ⟨hs.1.step W, fun hf => Nearest.step hranked hs.1 hf
      (hs.2 (failure_of_step W hf))⟩) n (State.init start)
    ⟨.init W start, fun _ => ?_⟩
  · exact hinv.2 hf
  · refine ⟨?_, by simp [State.init], ?_, by simp [State.init]⟩
    · refine List.pairwise_of_forall_mem_list fun a ha b hb => ?_
      have := hranked.start_rank a ha b hb
      omega
    · exact fun b hb => Or.inr ⟨b, Or.inr hb, rfl, Nat.le_refl _⟩

/-- A walk that ended without failure visited, for everything it reaches, an entry of the same key
and of no higher rank. -/
theorem exists_visited_le (hranked : Ranked W start rank weight) {n : Nat}
    (hf : (run W n (State.init start)).failure = none)
    (hh : (run W n (State.init start)).Halted) {b : α} (hb : Reaches W start b) :
    ∃ a ∈ (run W n (State.init start)).visited, W.key a = W.key b ∧ rank a ≤ rank b := by
  have hq : (run W n (State.init start)).queue = [] := by simpa [State.Halted, hf] using hh
  have hnearest := run_nearest hranked n hf
  have hsound := run_sound W start n
  generalize run W n (State.init start) = s at hq hnearest hsound
  rw [hq] at hnearest
  obtain ⟨a, ha, hskip, hab⟩ := hb
  induction hab with
  | refl =>
    rcases hnearest.start_covered a ha with h | ⟨c, hc, hkey, hrank⟩
    · exact absurd h (by simp [hskip])
    · exact ⟨c, hc.resolve_right (by simp), hkey, hrank⟩
  | @tail c d _ hcd ih =>
    obtain ⟨c', hc', hkey, hrank⟩ := ih
    obtain ⟨ds, hds, hd, hskip'⟩ := hcd
    obtain ⟨as, has⟩ := hsound.expanded c' hc'
    obtain ⟨e, he, hekey, herank⟩ := hranked.covers c' c hkey hrank as ds has hds d hd
    rcases hnearest.children_covered c' hc' as has e he with h | ⟨f, hf, hfkey, hfrank⟩
    · exact absurd (hekey ▸ h) (by simp [hskip'])
    · exact ⟨f, hf.resolve_right (by simp), hfkey.trans hekey, Nat.le_trans hfrank herank⟩

end Nearest

end Edda.Support.Worklist
