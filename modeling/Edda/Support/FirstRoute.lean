import Edda.Support.Worklist

/-!
# Breadth-first walks arrive on the first route

A route to an entry says which entry of the start it begins at, and which child it goes on to at
every step. Routes are ordered by their lengths, and routes of one length by the first place where
they differ. A first-in first-out walk that skips nothing visits its entries in this order of their
routes. So when the keys of the children depend on the key alone, the entry that it visits for a
key is the one that the first of all routes to the key leads to (`exists_first_route`).

The walk is compared with a walk over entries that carry their routes (`traced`).
-/

set_option autoImplicit false

namespace Edda.Support.Worklist

universe u v w

/-! ## The order of routes -/

/-- The first route comes before the second one. -/
abbrev Earlier (r s : List Nat) : Prop := List.Shortlex (· < ·) r s

theorem lex_concat {r s : List Nat} (h : List.Lex (· < ·) r s) (hlength : r.length = s.length)
    (i j : Nat) : List.Lex (· < ·) (r ++ [i]) (s ++ [j]) := by
  induction h with
  | nil => simp at hlength
  | cons _ ih => exact .cons (ih (by simpa using hlength))
  | rel hab => exact .rel hab

/-- What goes on from an earlier route is earlier. -/
theorem Earlier.concat {r s : List Nat} (h : Earlier r s) (i j : Nat) :
    Earlier (r ++ [i]) (s ++ [j]) := by
  rcases List.shortlex_def.1 h with hlt | ⟨heq, hlex⟩
  · exact .of_length_lt (by simpa using hlt)
  · exact .of_lex (by simpa using heq) (lex_concat hlex heq i j)

/-- Of two ways to go on from a route, the lower one is earlier. -/
theorem earlier_concat_of_lt (r : List Nat) {i j : Nat} (h : i < j) :
    Earlier (r ++ [i]) (r ++ [j]) :=
  List.Shortlex.append_left ((List.shortlex_singleton_iff i j).2 h) r

theorem earlier_concat_self (r : List Nat) (i : Nat) : Earlier r (r ++ [i]) :=
  .of_length_lt (by simp)

theorem Earlier.trans {r s t : List Nat} (h : Earlier r s) (h' : Earlier s t) : Earlier r t := by
  rcases List.shortlex_def.1 h with hlt | ⟨heq, hlex⟩
  · rcases List.shortlex_def.1 h' with hlt' | ⟨heq', _⟩
    · exact .of_length_lt (by omega)
    · exact .of_length_lt (by omega)
  · rcases List.shortlex_def.1 h' with hlt' | ⟨heq', hlex'⟩
    · exact .of_length_lt (by omega)
    · exact .of_lex (heq.trans heq') (List.lex_trans (fun h h' => Nat.lt_trans h h') hlex hlex')

theorem Earlier.irrefl (r : List Nat) : ¬ Earlier r r := fun h => Std.Asymm.asymm _ _ h h

/-- Of two routes one is earlier, or they are the same. -/
theorem earlier_or_eq_or_earlier (r s : List Nat) : Earlier r s ∨ r = s ∨ Earlier s r := by
  by_cases hrs : Earlier r s
  · exact Or.inl hrs
  · by_cases hsr : Earlier s r
    · exact Or.inr (Or.inr hsr)
    · exact Or.inr (Or.inl (Std.Trichotomous.trichotomous r s hrs hsr))

/-! ## Walks over entries that carry their routes -/

section Traced

variable {α : Type u} {κ : Type v} {ε : Type w} [DecidableEq κ] (W : Walk α κ ε)

/-- The route leads from the start to the entry. -/
inductive Route (start : List α) : List Nat → α → Prop
  | start {i : Nat} {a : α} : start[i]? = some a → Route start [i] a
  | step {r : List Nat} {a b : α} {children : List α} {i : Nat} : Route start r a →
      W.expand a = .ok children → children[i]? = some b → Route start (r ++ [i]) b

omit [DecidableEq κ] in
theorem Route.length_pos {start : List α} {r : List Nat} {a : α} (h : Route W start r a) :
    0 < r.length := by
  cases h <;> simp

omit [DecidableEq κ] in
/-- A route leads to one entry. -/
theorem Route.unique {start : List α} {r s : List Nat} {a b : α} (h : Route W start r a)
    (h' : Route W start s b) (hrs : r = s) : a = b := by
  induction h generalizing s b with
  | start ha =>
    cases h' with
    | start hb =>
      obtain rfl : _ = _ := List.singleton_inj.1 hrs
      exact Option.some.inj (ha.symm.trans hb)
    | step hroute _ _ =>
      have hlength := congrArg List.length hrs
      have hpos := hroute.length_pos
      simp only [List.length_append, List.length_singleton] at hlength
      omega
  | step hroute hexpand hchild ih =>
    cases h' with
    | start _ =>
      have hlength := congrArg List.length hrs
      have hpos := hroute.length_pos
      simp only [List.length_append, List.length_singleton] at hlength
      omega
    | step hroute' hexpand' hchild' =>
      obtain ⟨hfront, hlast⟩ := List.append_inj' hrs rfl
      obtain rfl := ih hroute' hfront
      obtain rfl := Except.ok.inj (hexpand.symm.trans hexpand')
      obtain rfl : _ = _ := List.singleton_inj.1 hlast
      exact Option.some.inj (hchild.symm.trans hchild')

/-- The entries with the routes that go on from `r`. -/
def label (r : List Nat) (entries : List α) : List (α × List Nat) :=
  entries.mapIdx fun i a => (a, r ++ [i])

/-- The walk over entries that carry their routes. -/
def traced : Walk (α × List Nat) κ ε where
  key := fun e => W.key e.1
  skip := W.skip
  limit := W.limit
  expand := fun e => match W.expand e.1 with
    | .error err => .error err
    | .ok children => .ok (label e.2 children)
  settle := W.settle
  discipline := W.discipline

/-- The state of the walk without the routes. -/
def State.forget (s : State (α × List Nat) ε) : State α ε :=
  ⟨s.visited.map Prod.fst, s.queue.map Prod.fst, s.failure⟩

theorem map_fst_label (r : List Nat) (entries : List α) :
    (label r entries).map Prod.fst = entries := by
  simp [label, List.mapIdx_eq_zipIdx_map, Function.comp_def]

theorem mem_label {r : List Nat} {entries : List α} {e : α × List Nat} :
    e ∈ label r entries ↔ ∃ i, entries[i]? = some e.1 ∧ e.2 = r ++ [i] := by
  rw [label, List.mapIdx_eq_zipIdx_map, List.mem_map]
  constructor
  · rintro ⟨⟨a, i⟩, hmem, rfl⟩
    exact ⟨i, List.mem_zipIdx_iff_getElem?.1 hmem, rfl⟩
  · rintro ⟨i, hentry, hroute⟩
    exact ⟨(e.1, i), List.mem_zipIdx_iff_getElem?.2 hentry, Prod.ext rfl hroute.symm⟩

/-- The labels of a list are in the order of their routes. -/
theorem label_sorted (r : List Nat) (entries : List α) :
    (label r entries).Pairwise fun e e' => Earlier e.2 e'.2 := by
  rw [label, List.pairwise_iff_getElem]
  intro i j hi hj hij
  simpa using earlier_concat_of_lt r hij

theorem Discipline.map_enqueue {β : Type u} (d : Discipline) (f : β → α) (queue children : List β) :
    (d.enqueue queue children).map f = d.enqueue (queue.map f) (children.map f) := by
  cases d <;> simp [Discipline.enqueue]

/-- Without the routes, the walk takes the same step. -/
theorem forget_step (s : State (α × List Nat) ε) :
    (step (traced W) s).forget = step W s.forget := by
  rcases s with ⟨visited, queue, failure⟩
  cases failure with
  | some e => rfl
  | none =>
    cases queue with
    | nil => rfl
    | cons e queue =>
      have hkeys : (visited.map Prod.fst).map W.key = visited.map (traced W).key := by
        simp [traced, Function.comp_def]
      by_cases hseen : (traced W).key e ∈ visited.map (traced W).key ∨
          (traced W).skip ((traced W).key e) = true
      · have hseen' : W.key e.1 ∈ (visited.map Prod.fst).map W.key ∨ W.skip (W.key e.1) = true := by
          rw [hkeys]
          exact hseen
        simp only [step, State.forget, List.map_cons, if_pos hseen, if_pos hseen']
      · have hseen' : ¬ (W.key e.1 ∈ (visited.map Prod.fst).map W.key ∨
            W.skip (W.key e.1) = true) := by
          rw [hkeys]
          exact hseen
        simp only [step, State.forget, List.map_cons, if_neg hseen, if_neg hseen']
        simp only [traced, List.length_map]
        cases W.limit visited.length with
        | some err => rfl
        | none =>
          cases W.expand e.1 with
          | error err => rfl
          | ok children =>
            cases W.settle (visited.length + 1) with
            | some err => rfl
            | none => simp [Discipline.map_enqueue, map_fst_label]

theorem forget_run (n : Nat) (s : State (α × List Nat) ε) :
    (run (traced W) n s).forget = run W n s.forget := by
  induction n generalizing s with
  | zero => rfl
  | succ n ih =>
    calc (run (traced W) n (step (traced W) s)).forget
        = run W n (step (traced W) s).forget := ih _
      _ = run W n (step W s.forget) := by rw [forget_step]

/-! ## The order of the visits -/

/-- The entry is skipped, or one of its key is visited or queued on no later route. -/
def Met (visited queue : List (α × List Nat)) (b : α) (r : List Nat) : Prop :=
  W.skip (W.key b) = true ∨
    ∃ e, (e ∈ visited ∨ e ∈ queue) ∧ W.key e.1 = W.key b ∧ (e.2 = r ∨ Earlier e.2 r)

/-- The queue is in the order of the routes and lies behind the visited entries, whose children
are met. -/
structure OnRoutes (start : List α) (visited queue : List (α × List Nat)) : Prop where
  routes : ∀ e, e ∈ visited ∨ e ∈ queue → Route W start e.2 e.1
  sorted : queue.Pairwise fun e e' => Earlier e.2 e'.2
  behind : ∀ e ∈ visited, ∀ e' ∈ queue, Earlier e.2 e'.2
  parents : ∀ e ∈ queue, e.2.length = 1 ∨ ∃ v ∈ visited, ∃ i, e.2 = v.2 ++ [i]
  start_met : ∀ i a, start[i]? = some a → Met W visited queue a [i]
  children_met : ∀ e ∈ visited, ∀ children, W.expand e.1 = .ok children →
    ∀ i b, children[i]? = some b → Met W visited queue b (e.2 ++ [i])

variable {W} {start : List α} {visited queue : List (α × List Nat)} {e : α × List Nat}

omit [DecidableEq κ] in
/-- Dropping an entry that is skipped or was visited keeps what was met. -/
theorem Met.drop (hbehind : ∀ v ∈ visited, Earlier v.2 e.2)
    (hseen : W.key e.1 ∈ visited.map (traced W).key ∨ W.skip (W.key e.1) = true) {b : α}
    {r : List Nat} (h : Met W visited (e :: queue) b r) : Met W visited queue b r := by
  rcases h with hskip | ⟨c, hc, hkey, hroute⟩
  · exact Or.inl hskip
  · rcases hc with hc | hc
    · exact Or.inr ⟨c, Or.inl hc, hkey, hroute⟩
    · rcases List.mem_cons.1 hc with rfl | hc
      · rcases hseen with hseen | hskip
        · obtain ⟨v, hv, hvkey⟩ := List.mem_map.1 hseen
          refine Or.inr ⟨v, Or.inl hv, hvkey.trans hkey, Or.inr ?_⟩
          rcases hroute with rfl | hroute
          · exact hbehind v hv
          · exact (hbehind v hv).trans hroute
        · exact Or.inl (hkey ▸ hskip)
      · exact Or.inr ⟨c, Or.inr hc, hkey, hroute⟩

omit [DecidableEq κ] in
/-- Visiting an entry keeps what was met. -/
theorem Met.visit {children : List (α × List Nat)} {b : α} {r : List Nat}
    (h : Met W visited (e :: queue) b r) : Met W (e :: visited) (queue ++ children) b r := by
  rcases h with hskip | ⟨c, hc, hkey, hroute⟩
  · exact Or.inl hskip
  · refine Or.inr ⟨c, ?_, hkey, hroute⟩
    rcases hc with hc | hc
    · exact Or.inl (List.mem_cons_of_mem _ hc)
    · rcases List.mem_cons.1 hc with rfl | hc
      · exact Or.inl List.mem_cons_self
      · exact Or.inr (List.mem_append_left _ hc)

omit [DecidableEq κ] in
theorem OnRoutes.drop (h : OnRoutes W start visited (e :: queue))
    (hseen : W.key e.1 ∈ visited.map (traced W).key ∨ W.skip (W.key e.1) = true) :
    OnRoutes W start visited queue := by
  have hbehind : ∀ v ∈ visited, Earlier v.2 e.2 := fun v hv => h.behind v hv e List.mem_cons_self
  refine ⟨?_, ?_, ?_, ?_, ?_, ?_⟩
  · rintro c (hc | hc)
    · exact h.routes c (Or.inl hc)
    · exact h.routes c (Or.inr (List.mem_cons_of_mem _ hc))
  · exact (List.pairwise_cons.1 h.sorted).2
  · exact fun v hv c hc => h.behind v hv c (List.mem_cons_of_mem _ hc)
  · exact fun c hc => h.parents c (List.mem_cons_of_mem _ hc)
  · exact fun i a ha => (h.start_met i a ha).drop hbehind hseen
  · exact fun c hc children hchildren i b hb =>
      (h.children_met c hc children hchildren i b hb).drop hbehind hseen

omit [DecidableEq κ] in
/-- What is queued comes before the children of the head: it goes on from an earlier route, or from
none. -/
theorem OnRoutes.before_children (h : OnRoutes W start visited (e :: queue)) {c : α × List Nat}
    (hc : c ∈ queue) (i : Nat) : Earlier c.2 (e.2 ++ [i]) := by
  have hhead := (List.pairwise_cons.1 h.sorted).1 c hc
  rcases h.parents c (List.mem_cons_of_mem _ hc) with hone | ⟨v, hv, j, hroute⟩
  · apply List.Shortlex.of_length_lt
    rcases List.shortlex_def.1 hhead with hlt | ⟨heq, _⟩
    · -- the head is the shorter one, and no route is empty
      have hpos := (h.routes e (Or.inr List.mem_cons_self)).length_pos
      omega
    · simp only [List.length_append, List.length_singleton]
      omega
  · rw [hroute]
    exact (h.behind v hv e List.mem_cons_self).concat j i

omit [DecidableEq κ] in
theorem OnRoutes.visit {children : List α} (h : OnRoutes W start visited (e :: queue))
    (hexpand : W.expand e.1 = .ok children) :
    OnRoutes W start (e :: visited) (queue ++ label e.2 children) := by
  obtain ⟨hhead, htail⟩ := List.pairwise_cons.1 h.sorted
  have hroute : Route W start e.2 e.1 := h.routes e (Or.inr List.mem_cons_self)
  refine ⟨?_, ?_, ?_, ?_, ?_, ?_⟩
  · rintro c (hc | hc)
    · rcases List.mem_cons.1 hc with rfl | hc
      · exact hroute
      · exact h.routes c (Or.inl hc)
    · rcases List.mem_append.1 hc with hc | hc
      · exact h.routes c (Or.inr (List.mem_cons_of_mem _ hc))
      · obtain ⟨i, hchild, hlabel⟩ := mem_label.1 hc
        rw [hlabel]
        exact .step hroute hexpand hchild
  · refine List.pairwise_append.2 ⟨htail, label_sorted e.2 children, ?_⟩
    intro c hc d hd
    obtain ⟨i, -, hlabel⟩ := mem_label.1 hd
    rw [hlabel]
    exact h.before_children hc i
  · intro v hv c hc
    have hve : v = e ∨ Earlier v.2 e.2 := by
      rcases List.mem_cons.1 hv with rfl | hv
      · exact Or.inl rfl
      · exact Or.inr (h.behind v hv e List.mem_cons_self)
    have hec : Earlier e.2 c.2 := by
      rcases List.mem_append.1 hc with hc | hc
      · exact hhead c hc
      · obtain ⟨i, -, hlabel⟩ := mem_label.1 hc
        rw [hlabel]
        exact earlier_concat_self e.2 i
    rcases hve with rfl | hve
    · exact hec
    · exact hve.trans hec
  · intro c hc
    rcases List.mem_append.1 hc with hc | hc
    · rcases h.parents c (List.mem_cons_of_mem _ hc) with hone | ⟨v, hv, i, hi⟩
      · exact Or.inl hone
      · exact Or.inr ⟨v, List.mem_cons_of_mem _ hv, i, hi⟩
    · obtain ⟨i, -, hlabel⟩ := mem_label.1 hc
      exact Or.inr ⟨e, List.mem_cons_self, i, hlabel⟩
  · exact fun i a ha => (h.start_met i a ha).visit
  · intro v hv cs hcs i b hb
    rcases List.mem_cons.1 hv with rfl | hv
    · obtain rfl := Except.ok.inj (hcs.symm.trans hexpand)
      refine Or.inr ⟨(b, v.2 ++ [i]), Or.inr (List.mem_append_right _ ?_), rfl, Or.inl rfl⟩
      exact mem_label.2 ⟨i, hb, rfl⟩
    · exact (h.children_met v hv cs hcs i b hb).visit

theorem forget_traced (start : List α) (n : Nat) :
    (run (traced W) n (State.init (label [] start))).forget = run W n (State.init start) := by
  rw [forget_run]
  simp [State.forget, State.init, map_fst_label]

/-- A step that does not fail keeps the order of the routes. -/
theorem OnRoutes.step {s : State (α × List Nat) ε} (hfifo : W.discipline = .fifo)
    (hf : (Worklist.step (traced W) s).failure = none)
    (h : OnRoutes W start s.visited s.queue) :
    OnRoutes W start (Worklist.step (traced W) s).visited (Worklist.step (traced W) s).queue := by
  have hcase := step_cases (traced W) s
  generalize Worklist.step (traced W) s = t at hcase hf
  cases hcase with
  | halted _ => exact h
  | drop e queue _ hq hseen =>
    rw [hq] at h
    exact h.drop hseen
  | refuse e queue err _ _ _ _ _ => exact absurd hf (by simp)
  | overrun e queue children err _ _ _ _ _ _ _ => exact absurd hf (by simp)
  | visit e queue children _ hq _ _ _ hexpand _ =>
    rw [hq] at h
    simp only [traced] at hexpand
    split at hexpand
    · exact absurd hexpand (by simp)
    · rename_i cs hcs
      obtain rfl := Except.ok.inj hexpand
      simp only [traced, hfifo, Discipline.enqueue]
      exact h.visit hcs

theorem run_onRoutes (hfifo : W.discipline = .fifo) (n : Nat)
    (hf : (run (traced W) n (State.init (label [] start))).failure = none) :
    OnRoutes W start (run (traced W) n (State.init (label [] start))).visited
      (run (traced W) n (State.init (label [] start))).queue := by
  revert hf
  apply run_induction (traced W)
    (P := fun s => s.failure = none → OnRoutes W start s.visited s.queue)
  · intro s hs hf
    exact OnRoutes.step hfifo hf (hs (failure_of_step (traced W) hf))
  · intro _
    refine ⟨?_, label_sorted [] start, by simp [State.init], ?_, ?_, by simp [State.init]⟩
    · rintro e (he | he)
      · simp [State.init] at he
      · obtain ⟨i, hentry, hroute⟩ := mem_label.1 he
        rw [hroute]
        exact .start hentry
    · intro e he
      obtain ⟨i, -, hroute⟩ := mem_label.1 he
      exact Or.inl (by rw [hroute]; rfl)
    · intro i a ha
      exact Or.inr ⟨(a, [i]), Or.inr (mem_label.2 ⟨i, ha, rfl⟩), rfl, Or.inl rfl⟩

/-! ## The entry that is visited for a key -/

section First

variable (hfifo : W.discipline = .fifo) (hskip : ∀ k, W.skip k = false)
  (hkeys : ∀ a b as bs, W.key a = W.key b → W.expand a = .ok as → W.expand b = .ok bs →
    as.map W.key = bs.map W.key) {n : Nat}
  (hf : (run W n (State.init start)).failure = none)
  (hh : (run W n (State.init start)).Halted)

include hfifo hskip hkeys hf hh

/-- For everything that a route leads to, an entry of its key is visited on no later route. -/
theorem exists_visited_on_route {r : List Nat} {b : α} (hroute : Route W start r b) :
    ∃ e ∈ (run (traced W) n (State.init (label [] start))).visited,
      W.key e.1 = W.key b ∧ (e.2 = r ∨ Earlier e.2 r) := by
  rw [← forget_traced] at hf hh
  have hfailure : (run (traced W) n (State.init (label [] start))).failure = none := hf
  have hqueue : (run (traced W) n (State.init (label [] start))).queue = [] := by
    simpa [State.Halted, State.forget, hfailure] using hh
  have hon := run_onRoutes hfifo n hfailure
  have hexpanded := (run_sound (traced W) (label [] start) n).expanded
  rw [hqueue] at hon
  -- an entry that is met was visited, now that nothing is queued
  have hmet : ∀ {c s}, Met W (run (traced W) n (State.init (label [] start))).visited [] c s →
      ∃ e ∈ (run (traced W) n (State.init (label [] start))).visited,
        W.key e.1 = W.key c ∧ (e.2 = s ∨ Earlier e.2 s) := by
    rintro c s (h | ⟨e, he, hkey, hle⟩)
    · exact absurd h (by simp [hskip])
    · exact ⟨e, he.resolve_right (by simp), hkey, hle⟩
  induction hroute with
  | start ha => exact hmet (hon.start_met _ _ ha)
  | @step r a b children i _ hexpand hchild ih =>
    obtain ⟨e, he, hkey, hle⟩ := ih
    obtain ⟨labelled, hlabelled⟩ := hexpanded e he
    simp only [traced] at hlabelled
    split at hlabelled
    · exact absurd hlabelled (by simp)
    · rename_i cs hcs
      -- the visited entry has a child of the same key in the same place
      have hsame := hkeys e.1 a cs children hkey hcs hexpand
      have hplace : (cs.map W.key)[i]? = some (W.key b) := by
        rw [hsame, List.getElem?_map, hchild]
        rfl
      rw [List.getElem?_map, Option.map_eq_some_iff] at hplace
      obtain ⟨c, hc, hckey⟩ := hplace
      obtain ⟨f, hf, hfkey, hfle⟩ := hmet (hon.children_met e he cs hcs i c hc)
      refine ⟨f, hf, hfkey.trans hckey, ?_⟩
      rcases hle with rfl | hle
      · exact hfle
      · right
        rcases hfle with heq | hlt
        · rw [heq]
          exact hle.concat i i
        · exact hlt.trans (hle.concat i i)

/-- The entry that is visited for a key is the one that the first route to the key leads to. -/
theorem exists_first_route {a : α} (ha : a ∈ (run W n (State.init start)).visited) :
    ∃ r, Route W start r a ∧
      ∀ s b, Route W start s b → W.key b = W.key a → r = s ∨ Earlier r s := by
  have hfound := fun (s : List Nat) (b : α) (hroute : Route W start s b) =>
    exists_visited_on_route hfifo hskip hkeys hf hh hroute
  have hnodup := (run_sound (traced W) (label [] start) n).nodup
  rw [← forget_traced] at ha hf
  obtain ⟨⟨a, r⟩, he, rfl⟩ := List.mem_map.1 ha
  refine ⟨r, (run_onRoutes hfifo n hf).routes _ (Or.inl he), ?_⟩
  intro s b hroute hkey
  obtain ⟨e, he', hkey', hle⟩ := hfound s b hroute
  -- one entry is visited for each key
  have hsame := List.inj_on_of_nodup_map hnodup he' he (hkey'.trans hkey)
  rwa [hsame] at hle

/-- Every key that a route leads to is visited. -/
theorem exists_visited_of_route {r : List Nat} {b : α} (hroute : Route W start r b) :
    ∃ a ∈ (run W n (State.init start)).visited, W.key a = W.key b := by
  obtain ⟨e, he, hkey, -⟩ := exists_visited_on_route hfifo hskip hkeys hf hh hroute
  rw [← forget_traced]
  exact ⟨e.1, List.mem_map.2 ⟨e, he, rfl⟩, hkey⟩

end First

end Traced

end Edda.Support.Worklist
