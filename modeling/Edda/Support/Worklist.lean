import Mathlib

/-!
# Worklist walks over a graph

A worklist walk keeps a queue of entries and a list of the entries it has visited. One step pops
the head of the queue; an entry whose key was visited before, or which the walk was told to skip,
is dropped, and any other entry is expanded and its children are queued. The walk fails when an
expansion fails, or when a bound on the number of visits is crossed.

The library is parametric in the entries, their keys and the expansion. It gives the step and run
lemmas (`step_cases`, `run_induction`), termination within an explicit number of steps
(`run_halts`), soundness and closure of the visited entries (`run_sound`, `run_closed`), and the
exact reached set of a walk whose entries are their own keys (`mem_visited_iff_reaches`).
-/

set_option autoImplicit false

namespace Edda.Support.Worklist

universe u v w

/-- Where the children of a visited entry go: behind the queue, or on top of it with the last
child first. -/
inductive Discipline where
  | fifo
  | lifo

/-- The queue after the children of a visited entry were added. -/
def Discipline.enqueue {α : Type u} : Discipline → List α → List α → List α
  | .fifo, queue, children => queue ++ children
  | .lifo, queue, children => children.reverse ++ queue

theorem Discipline.mem_enqueue {α : Type u} (d : Discipline) (queue children : List α) (a : α) :
    a ∈ d.enqueue queue children ↔ a ∈ queue ∨ a ∈ children := by
  cases d <;> simp [Discipline.enqueue, or_comm]

theorem Discipline.length_enqueue {α : Type u} (d : Discipline) (queue children : List α) :
    (d.enqueue queue children).length = queue.length + children.length := by
  cases d <;> simp [Discipline.enqueue, Nat.add_comm]

/-- The parameters of a walk. `limit` is consulted with the number of entries visited so far,
before an entry is expanded; `settle` with the number of entries visited, after it was. -/
structure Walk (α : Type u) (κ : Type v) (ε : Type w) where
  key : α → κ
  skip : κ → Bool
  limit : Nat → Option ε
  expand : α → Except ε (List α)
  settle : Nat → Option ε
  discipline : Discipline

/-- The state of a walk: the visited entries, the last one first, the queue, and the failure that
stopped the walk. -/
structure State (α : Type u) (ε : Type w) where
  visited : List α
  queue : List α
  failure : Option ε

/-- The state a walk starts in. -/
def State.init {α : Type u} {ε : Type w} (start : List α) : State α ε := ⟨[], start, none⟩

/-- The visited entries in the order of their visits. -/
def State.order {α : Type u} {ε : Type w} (s : State α ε) : List α := s.visited.reverse

section Reach

variable {α : Type u} {κ : Type v} {ε : Type w} (W : Walk α κ ε)

/-- `b` is a child of `a` that the walk does not skip. -/
def Edge (a b : α) : Prop :=
  ∃ children, W.expand a = .ok children ∧ b ∈ children ∧ W.skip (W.key b) = false

/-- `b` is reached from `start` through entries the walk does not skip. -/
def Reaches (start : List α) (b : α) : Prop :=
  ∃ a ∈ start, W.skip (W.key a) = false ∧ Relation.ReflTransGen (Edge W) a b

theorem Reaches.of_mem {start : List α} {a : α} (ha : a ∈ start)
    (hskip : W.skip (W.key a) = false) : Reaches W start a :=
  ⟨a, ha, hskip, Relation.ReflTransGen.refl⟩

theorem Reaches.tail {start : List α} {b c : α} (hb : Reaches W start b) (hbc : Edge W b c) :
    Reaches W start c := by
  obtain ⟨a, ha, hskip, hab⟩ := hb
  exact ⟨a, ha, hskip, hab.tail hbc⟩

/-- A property of the start that every expansion hands on to the children holds of every reached
entry. -/
theorem Reaches.induct {P : α → Prop} {start : List α} (hstart : ∀ a ∈ start, P a)
    (hexpand : ∀ a children, P a → W.expand a = .ok children → ∀ b ∈ children, P b) {b : α}
    (hb : Reaches W start b) : P b := by
  obtain ⟨a, ha, -, hab⟩ := hb
  induction hab with
  | refl => exact hstart a ha
  | tail _ hcd ih =>
    obtain ⟨children, hchildren, hmem, -⟩ := hcd
    exact hexpand _ children ih hchildren _ hmem

/-- A property of the start that every expansion of a reached entry hands on to the children that
are not skipped holds of every reached entry. -/
theorem Reaches.induct_reached {P : α → Prop} {start : List α}
    (hstart : ∀ a ∈ start, W.skip (W.key a) = false → P a)
    (hexpand : ∀ a children, Reaches W start a → P a → W.expand a = .ok children →
      ∀ b ∈ children, W.skip (W.key b) = false → P b) {b : α}
    (hb : Reaches W start b) : P b := by
  obtain ⟨a, ha, hskip, hab⟩ := hb
  induction hab with
  | refl => exact hstart a ha hskip
  | tail hac hcd ih =>
    obtain ⟨children, hchildren, hmem, hskip'⟩ := hcd
    exact hexpand _ children ⟨a, ha, hskip, hac⟩ ih hchildren _ hmem hskip'

/-- A reached entry is not skipped. -/
theorem Reaches.skip_eq_false {start : List α} {b : α} (hb : Reaches W start b) :
    W.skip (W.key b) = false := by
  obtain ⟨a, -, hskip, hab⟩ := hb
  rcases Relation.ReflTransGen.cases_tail hab with rfl | ⟨c, -, children, -, -, hskip'⟩
  · exact hskip
  · exact hskip'

end Reach

section Walk

variable {α : Type u} {κ : Type v} {ε : Type w} [DecidableEq κ] (W : Walk α κ ε)

/-- One step of the walk; a failed walk and a walk with an empty queue stay where they are. -/
def step (s : State α ε) : State α ε :=
  match s.failure, s.queue with
  | some _, _ => s
  | none, [] => s
  | none, a :: queue =>
    if W.key a ∈ s.visited.map W.key ∨ W.skip (W.key a) = true then { s with queue }
    else match W.limit s.visited.length with
      | some e => { s with failure := some e }
      | none => match W.expand a with
        | .error e => { s with failure := some e }
        | .ok children => match W.settle (s.visited.length + 1) with
          | some e => ⟨a :: s.visited, queue, some e⟩
          | none => ⟨a :: s.visited, W.discipline.enqueue queue children, none⟩

/-- `n` steps of the walk. -/
def run : Nat → State α ε → State α ε
  | 0, s => s
  | n + 1, s => run n (step W s)

/-- A walk has halted when it failed or emptied its queue. -/
def State.Halted (s : State α ε) : Prop := s.failure.isSome = true ∨ s.queue = []

/-- What a step can do: nothing, drop the head of the queue, fail, or visit the head. -/
inductive StepCase (s : State α ε) : State α ε → Prop
  | halted : s.Halted → StepCase s s
  | drop (a : α) (queue : List α) : s.failure = none → s.queue = a :: queue →
      W.key a ∈ s.visited.map W.key ∨ W.skip (W.key a) = true →
      StepCase s { s with queue }
  | refuse (a : α) (queue : List α) (e : ε) : s.failure = none → s.queue = a :: queue →
      W.key a ∉ s.visited.map W.key → W.skip (W.key a) = false →
      W.limit s.visited.length = some e ∨ W.expand a = .error e →
      StepCase s { s with failure := some e }
  | overrun (a : α) (queue children : List α) (e : ε) : s.failure = none →
      s.queue = a :: queue → W.key a ∉ s.visited.map W.key → W.skip (W.key a) = false →
      W.limit s.visited.length = none → W.expand a = .ok children →
      W.settle (s.visited.length + 1) = some e →
      StepCase s ⟨a :: s.visited, queue, some e⟩
  | visit (a : α) (queue children : List α) : s.failure = none → s.queue = a :: queue →
      W.key a ∉ s.visited.map W.key → W.skip (W.key a) = false →
      W.limit s.visited.length = none → W.expand a = .ok children →
      W.settle (s.visited.length + 1) = none →
      StepCase s ⟨a :: s.visited, W.discipline.enqueue queue children, none⟩

/-- Every step is one of the five cases. -/
theorem step_cases (s : State α ε) : StepCase W s (step W s) := by
  rcases s with ⟨visited, queue, failure⟩
  cases failure with
  | some e => exact .halted (Or.inl rfl)
  | none =>
    cases queue with
    | nil => exact .halted (Or.inr rfl)
    | cons a queue =>
      by_cases hseen : W.key a ∈ visited.map W.key ∨ W.skip (W.key a) = true
      · have hstep : step W ⟨visited, a :: queue, none⟩ = ⟨visited, queue, none⟩ := if_pos hseen
        rw [hstep]
        exact .drop a queue rfl rfl hseen
      · have hnew : W.key a ∉ visited.map W.key := fun h => hseen (Or.inl h)
        have hskip : W.skip (W.key a) = false := by
          simpa using fun h => hseen (Or.inr h)
        simp only [step, if_neg hseen]
        cases hlimit : W.limit visited.length with
        | some e => exact .refuse a queue e rfl rfl hnew hskip (Or.inl hlimit)
        | none =>
          cases hexpand : W.expand a with
          | error e => exact .refuse a queue e rfl rfl hnew hskip (Or.inr hexpand)
          | ok children =>
            cases hsettle : W.settle (visited.length + 1) with
            | some e => exact .overrun a queue children e rfl rfl hnew hskip hlimit hexpand hsettle
            | none => exact .visit a queue children rfl rfl hnew hskip hlimit hexpand hsettle

/-- A property kept by every step is kept by every run. -/
theorem run_induction {P : State α ε → Prop} (hstep : ∀ s, P s → P (step W s)) :
    ∀ (n : Nat) (s : State α ε), P s → P (run W n s)
  | 0, _, hs => hs
  | n + 1, s, hs => run_induction hstep n (step W s) (hstep s hs)

/-- A walk that has not failed had not failed before. -/
theorem failure_of_step {s : State α ε} (h : (step W s).failure = none) : s.failure = none := by
  have hcase := step_cases W s
  generalize step W s = t at hcase h
  cases hcase with
  | halted _ => exact h
  | drop a queue hf _ _ => exact hf
  | refuse a queue e _ _ _ _ _ => exact absurd h (by simp)
  | overrun a queue children e _ _ _ _ _ _ _ => exact absurd h (by simp)
  | visit a queue children hf _ _ _ _ _ _ => exact hf

theorem step_of_halted {s : State α ε} (hs : s.Halted) : step W s = s := by
  rcases s with ⟨visited, queue, failure⟩
  cases failure with
  | some e => rfl
  | none =>
    have hq : queue = [] := by simpa [State.Halted] using hs
    subst hq
    rfl

theorem run_of_halted {s : State α ε} (hs : s.Halted) : ∀ n, run W n s = s
  | 0 => rfl
  | n + 1 => by
    show run W n (step W s) = s
    rw [step_of_halted W hs]
    exact run_of_halted hs n

/-- A run that has halted goes nowhere. -/
theorem run_eq_of_halted (s : State α ε) {k n : Nat} (hs : (run W k s).Halted) (hk : k ≤ n) :
    run W n s = run W k s := by
  induction k generalizing s n with
  | zero => exact run_of_halted W hs n
  | succ k ih =>
    obtain ⟨n, rfl⟩ : ∃ m, n = m + 1 := ⟨n - 1, by omega⟩
    exact ih (step W s) hs (by omega)

/-- What was visited stays visited. -/
theorem visited_subset_run (n : Nat) (s : State α ε) : s.visited ⊆ (run W n s).visited := by
  induction n generalizing s with
  | zero => exact List.Subset.refl _
  | succ n ih =>
    have hstep : s.visited ⊆ (step W s).visited := by
      have hcase := step_cases W s
      generalize step W s = t at hcase
      cases hcase <;> simp
    exact List.Subset.trans hstep (ih (step W s))

/-- Two walks that expand the visited entries of the one alike run alike. -/
theorem run_congr {expand : α → Except ε (List α)} (n : Nat) (s : State α ε)
    (hf : (run W n s).failure = none)
    (hexpand : ∀ a ∈ (run W n s).visited, expand a = W.expand a) :
    run { W with expand } n s = run W n s := by
  induction n generalizing s with
  | zero => rfl
  | succ n ih =>
    have hstep : step { W with expand } s = step W s := by
      have hfinal : (step W s).failure = none := by
        by_contra hfailed
        have hhalted : (step W s).Halted := Or.inl (Option.isSome_iff_ne_none.2 hfailed)
        rw [run, run_of_halted W hhalted] at hf
        exact hfailed hf
      have hvisited := visited_subset_run W n (step W s)
      rcases s with ⟨visited, queue, failure⟩
      cases failure with
      | some e => rfl
      | none =>
        cases queue with
        | nil => rfl
        | cons a queue =>
          by_cases hseen : W.key a ∈ visited.map W.key ∨ W.skip (W.key a) = true
          · simp only [step, if_pos hseen]
          · simp only [step, if_neg hseen] at hfinal hvisited ⊢
            cases hlimit : W.limit visited.length with
            | some e => rfl
            | none =>
              simp only [hlimit] at hfinal hvisited
              cases hchildren : W.expand a with
              | error e => simp [hchildren] at hfinal
              | ok children =>
                -- the head is visited by this step, so the walks expand it alike
                have hmem : a ∈ (run W (n + 1) ⟨visited, a :: queue, none⟩).visited := by
                  simp only [run, step, if_neg hseen, hlimit, hchildren]
                  simp only [hchildren] at hvisited hfinal
                  cases hsettle : W.settle (visited.length + 1) with
                  | some e => simp [hsettle] at hfinal
                  | none =>
                    simp only [hsettle] at hvisited
                    exact hvisited List.mem_cons_self
                rw [hexpand a hmem, hchildren]
    calc run { W with expand } n (step { W with expand } s)
        = run { W with expand } n (step W s) := by rw [hstep]
      _ = run W n (step W s) := ih (step W s) hf hexpand

/-! ## Termination -/

/-- A bound on the children of each key: only keys of `nodes` have any. -/
structure Bounded (nodes : List κ) (degree : κ → Nat) : Prop where
  mem_nodes : ∀ {a : α} {children : List α}, W.expand a = .ok children → children ≠ [] →
    W.key a ∈ nodes
  length_le : ∀ {a : α} {children : List α}, W.expand a = .ok children →
    children.length ≤ degree (W.key a)

/-- The children that the keys of `keys` outside `visited` may still queue. -/
def remaining (degree : κ → Nat) (keys visited : List κ) : Nat :=
  ((keys.filter fun k => k ∉ visited).map degree).sum

theorem remaining_eq_cons (degree : κ → Nat) (x : κ) (keys visited : List κ) :
    remaining degree (x :: keys) visited =
      (if x ∈ visited then 0 else degree x) + remaining degree keys visited := by
  by_cases hx : x ∈ visited <;> simp [remaining, hx]

theorem remaining_cons_le (degree : κ → Nat) (visited : List κ) (k : κ) :
    ∀ keys : List κ, remaining degree keys (k :: visited) ≤ remaining degree keys visited
  | [] => Nat.le_refl _
  | x :: keys => by
    have ih := remaining_cons_le degree visited k keys
    rw [remaining_eq_cons, remaining_eq_cons]
    by_cases hx : x ∈ visited
    · rw [if_pos hx, if_pos (List.mem_cons_of_mem k hx)]
      omega
    · rw [if_neg hx]
      split <;> omega

/-- Visiting a key of the graph for the first time pays for its children. -/
theorem remaining_visit (degree : κ → Nat) (visited : List κ) (k : κ) :
    ∀ keys : List κ, k ∈ keys → k ∉ visited →
      remaining degree keys (k :: visited) + degree k ≤ remaining degree keys visited
  | [], hk, _ => by simp at hk
  | x :: keys, hk, hnew => by
    rw [remaining_eq_cons, remaining_eq_cons]
    by_cases hxk : x = k
    · subst hxk
      have hle := remaining_cons_le degree visited x keys
      simp only [List.mem_cons, true_or, hnew, if_true, if_false]
      omega
    · have hk' : k ∈ keys := (List.mem_cons.1 hk).resolve_left fun h => hxk h.symm
      have ih := remaining_visit degree visited k keys hk' hnew
      simp only [List.mem_cons, hxk, false_or]
      omega

/-- The number of further steps a walk can take. -/
def potential (nodes : List κ) (degree : κ → Nat) (s : State α ε) : Nat :=
  s.queue.length + remaining degree nodes (s.visited.map W.key)

/-- The number of steps that suffices for a walk from `start`. -/
def fuel (nodes : List κ) (degree : κ → Nat) (start : List α) : Nat :=
  start.length + (nodes.map degree).sum

/-- A step that is not at a halted state halts the walk or lowers the potential. -/
theorem potential_step_lt {nodes : List κ} {degree : κ → Nat}
    (hb : Bounded W nodes degree) (s : State α ε) (hs : ¬ s.Halted) :
    (step W s).Halted ∨ potential W nodes degree (step W s) < potential W nodes degree s := by
  have hcase := step_cases W s
  generalize step W s = t at hcase
  cases hcase with
  | halted h => exact absurd h hs
  | drop a queue hf hq _ =>
    right
    simp [potential, hq]
  | refuse a queue e hf hq _ _ _ => exact Or.inl (Or.inl rfl)
  | overrun a queue children e hf hq _ _ _ _ _ => exact Or.inl (Or.inl rfl)
  | visit a queue children hf hq hnew hskip hlimit hexpand hsettle =>
    right
    simp only [potential, hq, List.length_cons, List.map_cons, Discipline.length_enqueue]
    have hlen := hb.length_le hexpand
    cases children with
    | nil =>
      have hle := remaining_cons_le degree (s.visited.map W.key) (W.key a) nodes
      simp only [List.length_nil]
      omega
    | cons c cs =>
      have hmem := hb.mem_nodes hexpand (by simp)
      have hpay := remaining_visit degree (s.visited.map W.key) (W.key a) nodes hmem hnew
      omega

/-- With at least as many steps as the potential of its start a walk halts. -/
theorem run_halts_of_potential_le {nodes : List κ} {degree : κ → Nat}
    (hb : Bounded W nodes degree) :
    ∀ (n : Nat) (s : State α ε), potential W nodes degree s ≤ n → (run W n s).Halted
  | 0, s, hn => by
    right
    have hq : s.queue.length = 0 := by
      simp only [potential] at hn
      omega
    exact List.length_eq_zero_iff.1 hq
  | n + 1, s, hn => by
    show (run W n (step W s)).Halted
    by_cases hs : s.Halted
    · rw [step_of_halted W hs, run_of_halted W hs]
      exact hs
    · rcases potential_step_lt W hb s hs with hh | hlt
      · rw [run_of_halted W hh]
        exact hh
      · exact run_halts_of_potential_le hb n (step W s) (by omega)

/-- The run of a walk from `start` for `fuel` steps has halted. -/
theorem run_halts {nodes : List κ} {degree : κ → Nat} (hb : Bounded W nodes degree)
    (start : List α) : (run W (fuel nodes degree start) (State.init start)).Halted := by
  refine run_halts_of_potential_le W hb _ _ ?_
  simp [potential, fuel, State.init, remaining]

/-! ## What a walk visits -/

/-- The visited entries have distinct keys, are reached from the start and were expanded; the
queue holds only reached and skipped entries. -/
structure Sound (start : List α) (s : State α ε) : Prop where
  nodup : (s.visited.map W.key).Nodup
  reached : ∀ a ∈ s.visited, Reaches W start a
  queued : ∀ a ∈ s.queue, W.skip (W.key a) = false → Reaches W start a
  expanded : ∀ a ∈ s.visited, ∃ children, W.expand a = .ok children

theorem Sound.step {start : List α} {s : State α ε} (hs : Sound W start s) :
    Sound W start (step W s) := by
  have hcase := step_cases W s
  generalize Worklist.step W s = t at hcase
  cases hcase with
  | halted _ => exact hs
  | drop a queue _ hq _ =>
    exact { hs with queued := fun b hb => hs.queued b (by rw [hq]; exact List.mem_cons_of_mem _ hb) }
  | refuse a queue e _ _ _ _ _ => exact { hs with }
  | overrun a queue children e _ hq hnew hskip _ hexpand _ =>
    have ha : Reaches W start a := hs.queued a (by simp [hq]) hskip
    refine ⟨?_, ?_, ?_, ?_⟩
    · exact List.nodup_cons.2 ⟨hnew, hs.nodup⟩
    · simpa [ha] using hs.reached
    · exact fun b hb => hs.queued b (by rw [hq]; exact List.mem_cons_of_mem _ hb)
    · simpa [hexpand] using hs.expanded
  | visit a queue children _ hq hnew hskip _ hexpand _ =>
    have ha : Reaches W start a := hs.queued a (by simp [hq]) hskip
    refine ⟨?_, ?_, ?_, ?_⟩
    · exact List.nodup_cons.2 ⟨hnew, hs.nodup⟩
    · simpa [ha] using hs.reached
    · intro b hb hb'
      rcases (Discipline.mem_enqueue _ _ _ _).1 hb with h | h
      · exact hs.queued b (by rw [hq]; exact List.mem_cons_of_mem _ h) hb'
      · exact ha.tail W ⟨children, hexpand, h, hb'⟩
    · simpa [hexpand] using hs.expanded

omit [DecidableEq κ] in
theorem Sound.init (start : List α) : Sound W start (State.init start : State α ε) where
  nodup := by simp [State.init]
  reached := by simp [State.init]
  queued := fun _ ha hskip => .of_mem W ha hskip
  expanded := by simp [State.init]

theorem run_sound (start : List α) (n : Nat) : Sound W start (run W n (State.init start)) :=
  run_induction W (P := Sound W start) (fun _ h => h.step W) n _ (.init W start)

/-- The key of `b` was visited. -/
def Visited (s : State α ε) (b : α) : Prop := W.key b ∈ s.visited.map W.key

/-- Nothing is lost: every entry of the start and every child of a visited entry is skipped,
visited or queued. -/
structure Closed (start : List α) (s : State α ε) : Prop where
  start_done : s.failure = none → ∀ b ∈ start,
    W.skip (W.key b) = true ∨ Visited W s b ∨ b ∈ s.queue
  children_done : s.failure = none → ∀ a ∈ s.visited, ∀ children, W.expand a = .ok children →
    ∀ b ∈ children, W.skip (W.key b) = true ∨ Visited W s b ∨ b ∈ s.queue

theorem Closed.step {start : List α} {s : State α ε} (hs : Closed W start s) :
    Closed W start (step W s) := by
  have hcase := step_cases W s
  generalize Worklist.step W s = t at hcase
  cases hcase with
  | halted _ => exact hs
  | drop a queue hf hq hseen =>
    have hkeep : ∀ b, W.skip (W.key b) = true ∨ Visited W s b ∨ b ∈ s.queue →
        W.skip (W.key b) = true ∨ Visited W s b ∨ b ∈ queue := by
      intro b hb
      rcases hb with h | h | h
      · exact Or.inl h
      · exact Or.inr (Or.inl h)
      · rw [hq] at h
        rcases List.mem_cons.1 h with rfl | h
        · rcases hseen with h' | h'
          · exact Or.inr (Or.inl h')
          · exact Or.inl h'
        · exact Or.inr (Or.inr h)
    exact ⟨fun _ b hb => hkeep b (hs.start_done hf b hb),
      fun _ c hc cs hcs b hb => hkeep b (hs.children_done hf c hc cs hcs b hb)⟩
  | refuse a queue e _ _ _ _ _ => exact ⟨fun h => by simp at h, fun h => by simp at h⟩
  | overrun a queue children e _ _ _ _ _ _ _ =>
    exact ⟨fun h => by simp at h, fun h => by simp at h⟩
  | visit a queue children hf hq _ _ _ hexpand _ =>
    have hkeep : ∀ b, W.skip (W.key b) = true ∨ Visited W s b ∨ b ∈ s.queue →
        W.skip (W.key b) = true ∨
          Visited W (⟨a :: s.visited, W.discipline.enqueue queue children, none⟩ : State α ε) b ∨
          b ∈ W.discipline.enqueue queue children := by
      intro b hb
      rcases hb with h | h | h
      · exact Or.inl h
      · exact Or.inr (Or.inl (List.mem_cons_of_mem _ h))
      · rw [hq] at h
        rcases List.mem_cons.1 h with rfl | h
        · exact Or.inr (Or.inl (by simp [Visited]))
        · exact Or.inr (Or.inr ((Discipline.mem_enqueue _ _ _ _).2 (Or.inl h)))
    refine ⟨fun _ b hb => hkeep b (hs.start_done hf b hb), fun _ c hc cs hcs b hb => ?_⟩
    rcases List.mem_cons.1 hc with rfl | hc
    · have : cs = children := by
        rw [hexpand] at hcs
        exact (Except.ok.inj hcs).symm
      subst this
      exact Or.inr (Or.inr ((Discipline.mem_enqueue _ _ _ _).2 (Or.inr hb)))
    · exact hkeep b (hs.children_done hf c hc cs hcs b hb)

omit [DecidableEq κ] in
theorem Closed.init (start : List α) : Closed W start (State.init start : State α ε) where
  start_done := fun _ _ hb => Or.inr (Or.inr hb)
  children_done := by simp [State.init]

theorem run_closed (start : List α) (n : Nat) : Closed W start (run W n (State.init start)) :=
  run_induction W (P := Closed W start) (fun _ h => h.step W) n _ (.init W start)

/-! ## Walks that end -/

/-- A bound on admissions bounds the visits: a walk refuses to go past `limit` entries. -/
theorem visited_length_le {limit : Nat} (hlimit : ∀ n, limit ≤ n → W.limit n ≠ none)
    {s : State α ε} (hs : s.visited.length ≤ limit) : (step W s).visited.length ≤ limit := by
  have hcase := step_cases W s
  generalize step W s = t at hcase
  have hroom : W.limit s.visited.length = none → s.visited.length < limit := by
    intro h
    by_contra hlt
    exact hlimit _ (by omega) h
  cases hcase with
  | halted _ => exact hs
  | drop a queue _ _ _ => exact hs
  | refuse a queue e _ _ _ _ _ => exact hs
  | overrun a queue children e _ _ _ _ ha _ _ => exact hroom ha
  | visit a queue children _ _ _ _ ha _ _ => exact hroom ha

/-- The bound on visits holds for the whole run. -/
theorem run_visited_length_le {limit : Nat} (hlimit : ∀ n, limit ≤ n → W.limit n ≠ none)
    (start : List α) (n : Nat) : (run W n (State.init start)).visited.length ≤ limit := by
  apply run_induction W (P := fun s => s.visited.length ≤ limit)
  · intro s hs
    exact visited_length_le W hlimit hs
  · exact Nat.zero_le limit

/-- Every visit takes a step. -/
theorem visited_length_le_add (n : Nat) (s : State α ε) :
    (run W n s).visited.length ≤ s.visited.length + n := by
  induction n generalizing s with
  | zero => exact Nat.le_refl _
  | succ n ih =>
    have hstep : (step W s).visited.length ≤ s.visited.length + 1 := by
      have hcase := step_cases W s
      generalize step W s = t at hcase
      cases hcase <;> simp
    have hrest := ih (step W s)
    change (run W n (step W s)).visited.length ≤ _
    omega

/-- A walk that did not fail settled its last visit. -/
theorem settle_eq_none {start : List α} {n : Nat}
    (hf : (run W n (State.init start)).failure = none) :
    (run W n (State.init start)).visited = [] ∨
      W.settle (run W n (State.init start)).visited.length = none := by
  revert hf
  apply run_induction W
    (P := fun s => s.failure = none → s.visited = [] ∨ W.settle s.visited.length = none)
  · intro s hs
    have hcase := step_cases W s
    generalize step W s = t at hcase
    cases hcase with
    | halted _ => exact hs
    | drop a queue _ _ _ => exact hs
    | refuse a queue e _ _ _ _ _ => intro h; simp at h
    | overrun a queue children e _ _ _ _ _ _ _ => intro h; simp at h
    | visit a queue children _ _ _ _ _ _ hsettle => exact fun _ => Or.inr hsettle
  · exact fun _ => Or.inl rfl

/-- Why a walk failed: a reached entry did not expand, or a bound was crossed by a visit. -/
structure Explained (start : List α) (s : State α ε) : Prop where
  cause : ∀ e, s.failure = some e →
    (∃ a, Reaches W start a ∧ W.expand a = .error e) ∨
    (∃ a, Reaches W start a ∧ W.key a ∉ s.visited.map W.key ∧
      W.limit s.visited.length = some e) ∨
    W.settle s.visited.length = some e

theorem Explained.step {start : List α} {s : State α ε} (hsound : Sound W start s)
    (hs : Explained W start s) : Explained W start (step W s) := by
  have hcase := step_cases W s
  generalize Worklist.step W s = t at hcase
  cases hcase with
  | halted _ => exact hs
  | drop a queue hf _ _ => exact ⟨fun e he => by simp [hf] at he⟩
  | refuse a queue e hf hq hnew hskip hwhy =>
    refine ⟨fun e' he' => ?_⟩
    obtain rfl : e = e' := by simpa using he'
    have ha : Reaches W start a := hsound.queued a (by simp [hq]) hskip
    rcases hwhy with h | h
    · exact Or.inr (Or.inl ⟨a, ha, hnew, h⟩)
    · exact Or.inl ⟨a, ha, h⟩
  | overrun a queue children e _ _ _ _ _ _ hsettle =>
    refine ⟨fun e' he' => ?_⟩
    obtain rfl : e = e' := by simpa using he'
    exact Or.inr (Or.inr hsettle)
  | visit a queue children _ _ _ _ _ _ _ => exact ⟨fun e he => by simp at he⟩

theorem run_explained (start : List α) (n : Nat) :
    Explained W start (run W n (State.init start)) := by
  have h := run_induction W (P := fun s => Sound W start s ∧ Explained W start s)
    (fun _ h => ⟨h.1.step W, h.2.step W h.1⟩) n (State.init start)
    ⟨.init W start, ⟨fun e he => by simp [State.init] at he⟩⟩
  exact h.2

/-- A walk without bounds does not fail where everything it reaches expands. -/
theorem failure_eq_none_of_expands {start : List α} (n : Nat)
    (hexpand : ∀ b, Reaches W start b → ∃ children, W.expand b = .ok children)
    (hlimit : ∀ k, W.limit k = none) (hsettle : ∀ k, W.settle k = none) :
    (run W n (State.init start)).failure = none := by
  cases hf : (run W n (State.init start)).failure with
  | none => rfl
  | some e =>
    exfalso
    rcases (run_explained W start n).cause e hf with ⟨a, ha, he⟩ | ⟨a, ha, hnew, he⟩ | he
    · obtain ⟨children, hc⟩ := hexpand a ha
      rw [he] at hc
      exact absurd hc (by simp)
    · rw [hlimit] at he
      simp at he
    · rw [hsettle] at he
      simp at he

end Walk

/-! ## Walks whose entries are their own keys -/

section SelfKeyed

variable {α : Type u} {ε : Type w} [DecidableEq α] (W : Walk α α ε) (hkey : W.key = id)

include hkey

omit [DecidableEq α] in
theorem visited_iff_mem {s : State α ε} {b : α} : Visited W s b ↔ b ∈ s.visited := by
  simp [Visited, hkey]

omit [DecidableEq α] in
/-- A walk that ended without failure visited everything it can reach. -/
theorem mem_visited_of_reaches {start : List α} {s : State α ε} (hs : Closed W start s)
    (hf : s.failure = none) (hq : s.queue = []) {b : α} (hb : Reaches W start b) :
    b ∈ s.visited := by
  obtain ⟨a, ha, hskip, hab⟩ := hb
  induction hab with
  | refl =>
    rcases hs.start_done hf a ha with h | h | h
    · simp [hskip] at h
    · exact (visited_iff_mem W hkey).1 h
    · simp [hq] at h
  | @tail c d _ hcd ih =>
    obtain ⟨children, hexpand, hd, hskip'⟩ := hcd
    rcases hs.children_done hf c ih children hexpand d hd with h | h | h
    · simp [hskip'] at h
    · exact (visited_iff_mem W hkey).1 h
    · simp [hq] at h

/-- A walk that ended without failure visited exactly what it can reach. -/
theorem mem_visited_iff_reaches {start : List α} {n : Nat}
    (hf : (run W n (State.init start)).failure = none)
    (hh : (run W n (State.init start)).Halted) (b : α) :
    b ∈ (run W n (State.init start)).visited ↔ Reaches W start b := by
  have hq : (run W n (State.init start)).queue = [] := by
    simpa [State.Halted, hf] using hh
  constructor
  · exact (run_sound W start n).reached b
  · exact mem_visited_of_reaches W hkey (run_closed W start n) hf hq

/-- No entry is visited twice. -/
theorem nodup_order (start : List α) (n : Nat) : (run W n (State.init start)).order.Nodup := by
  have hnodup := (run_sound W start n).nodup
  rw [hkey, List.map_id] at hnodup
  exact List.nodup_reverse.2 hnodup

/-- A walk that ended without failure expanded everything it can reach. -/
theorem exists_expand_of_reaches {start : List α} {n : Nat}
    (hf : (run W n (State.init start)).failure = none)
    (hh : (run W n (State.init start)).Halted) {b : α} (hb : Reaches W start b) :
    ∃ children, W.expand b = .ok children :=
  (run_sound W start n).expanded b ((mem_visited_iff_reaches W hkey hf hh b).2 hb)

/-- A walk over expandable entries that are fewer than its bounds does not fail. -/
theorem failure_eq_none {start : List α} {limit : Nat} (n : Nat)
    (hexpand : ∀ b, Reaches W start b → ∃ children, W.expand b = .ok children)
    (hcount : ∀ l : List α, l.Nodup → (∀ b ∈ l, Reaches W start b) → l.length ≤ limit)
    (hlimit : ∀ k, k < limit → W.limit k = none)
    (hsettle : ∀ k, k ≤ limit → W.settle k = none) :
    (run W n (State.init start)).failure = none := by
  have hsound := run_sound W start n
  have hnodup : (run W n (State.init start)).visited.Nodup := by
    simpa [hkey] using hsound.nodup
  have hlen := hcount _ hnodup hsound.reached
  cases hf : (run W n (State.init start)).failure with
  | none => rfl
  | some e =>
    exfalso
    rcases (run_explained W start n).cause e hf with ⟨a, ha, he⟩ | ⟨a, ha, hnew, he⟩ | he
    · obtain ⟨children, hc⟩ := hexpand a ha
      rw [he] at hc
      exact absurd hc (by simp)
    · -- the refused entry is one more reached entry
      have hnew' : a ∉ (run W n (State.init start)).visited := by simpa [hkey] using hnew
      have hmore := hcount (a :: (run W n (State.init start)).visited)
        (List.nodup_cons.2 ⟨hnew', hnodup⟩)
        (by simpa [ha] using hsound.reached)
      rw [hlimit _ (by simp only [List.length_cons] at hmore; omega)] at he
      simp at he
    · rw [hsettle _ hlen] at he
      simp at he

end SelfKeyed

end Edda.Support.Worklist
