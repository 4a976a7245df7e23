import Edda.Domain.InstanceSettings
import Edda.Support.Runs
import Edda.Support.Tasks

/-!
# The cache of the instance settings

Requests read the settings from a snapshot in memory. A save writes its rows in one transaction,
then reads all rows back, and puts what they resolve to in the place of the snapshot. Several saves
may be under way at once. The transactions exclude each other, but nothing orders the reads and the
swaps, and a save that fails behind its commit does not get to them.

`settings_converge` says which steps leave the snapshot behind the table. The rows themselves are
always those of one save.
-/

set_option autoImplicit false

namespace Edda.App.InstanceSettings

open Edda.Support Edda.Domain

/-! ## Saves -/

/-- What a save does next. -/
inductive Phase where
  | committing
  | querying
  | swapping (snapshot : Domain.InstanceSettings)
  | returned
  deriving DecidableEq, Repr

/-- A save, and whether it has been committed. -/
structure Call where
  settings : Domain.InstanceSettings
  committed : Bool
  phase : Phase
  deriving DecidableEq, Repr

/-- The rows of `instance_settings`, the snapshot in memory and the saves. -/
structure State where
  rows : List SettingRow
  cache : Domain.InstanceSettings
  calls : List Call
  deriving DecidableEq, Repr

section Service

variable (defaults : InstanceSettingsDefaults)

/-- A save that is invalid returns at once. -/
def save (s : State) (settings : Domain.InstanceSettings) : State :=
  match settings.validate with
  | .error _ => { s with calls := s.calls ++ [⟨settings, false, .returned⟩] }
  | .ok () => { s with calls := s.calls ++ [⟨settings, false, .committing⟩] }

/-- Puts a save into its place. -/
def State.put (s : State) (place : Nat) (call : Call) : State :=
  { s with calls := s.calls.set place call }

/-- The next step of a save. The audit record, which may fail, changes nothing here. -/
def proceed (s : State) (place : Nat) : State :=
  match s.calls[place]? with
  | none => s
  | some call => match call.phase with
    | .committing =>
      { s with rows := saveRows s.rows call.settings }.put place
        { call with committed := true, phase := .querying }
    | .querying =>
      s.put place { call with phase := .swapping (.resolve defaults s.rows) }
    | .swapping snapshot => { s with cache := snapshot }.put place { call with phase := .returned }
    | .returned => s

/-- A save ends early: a statement failed, or its request was dropped while it waited. Between the
read and the swap it does not wait. -/
def fail (s : State) (place : Nat) : State :=
  match s.calls[place]? with
  | none => s
  | some call => match call.phase with
    | .committing => s.put place { call with phase := .returned }
    | .querying => s.put place { call with phase := .returned }
    | .swapping _ => s
    | .returned => s

inductive Step where
  | save (settings : Domain.InstanceSettings)
  | proceed (place : Nat)
  | fail (place : Nat)
  deriving DecidableEq, Repr

def step (s : State) : Step → State
  | .save settings => save s settings
  | .proceed place => proceed defaults s place
  | .fail place => fail s place

/-- The snapshot that a server starts with. If the rows cannot be read, the defaults stand. -/
def bootstrap (rows : Except String (List SettingRow)) : Domain.InstanceSettings :=
  match rows with
  | .ok rows => .resolve defaults rows
  | .error _ => .resolve defaults []

/-- A server that has started over some rows, which it could read or not. -/
def start (rows : List SettingRow) (readable : Bool) : State :=
  ⟨rows, bootstrap defaults (if readable then .ok rows else .error "unreadable"), []⟩

/-! ## Convergence -/

/-- The snapshot is what the rows resolve to. -/
def Fresh (s : State) : Prop := s.cache = .resolve defaults s.rows

instance (s : State) : Decidable (Fresh defaults s) := inferInstanceAs (Decidable (_ = _))

/-- All saves have returned. -/
def Settled (s : State) : Prop := ∀ call ∈ s.calls, call.phase = .returned

/-- Once all saves have returned, the snapshot is what the rows resolve to. -/
def Converged (s : State) : Prop := Settled s → Fresh defaults s

/-- Once a save is committed, the rows are those of one committed save. -/
def Whole (s : State) : Prop :=
  (∃ call ∈ s.calls, call.committed = true) →
    ∃ call ∈ s.calls, call.committed = true ∧
      ∀ row ∈ call.settings.toRows, Table.lookup Prod.fst s.rows row.1 = some row

/-- The save has still to read the rows, or holds what they resolve to. -/
def Refreshes (rows : List SettingRow) (call : Call) : Prop :=
  match call.phase with
  | .committing => True
  | .querying => True
  | .swapping snapshot => snapshot = .resolve defaults rows
  | .returned => False

instance (rows : List SettingRow) : (call : Call) → Decidable (Refreshes defaults rows call)
  | ⟨_, _, .committing⟩ => inferInstanceAs (Decidable True)
  | ⟨_, _, .querying⟩ => inferInstanceAs (Decidable True)
  | ⟨_, _, .swapping _⟩ => inferInstanceAs (Decidable (_ = _))
  | ⟨_, _, .returned⟩ => inferInstanceAs (Decidable False)

/-- A save other than the one in the place refreshes the snapshot. -/
def OtherRefreshes (s : State) (place : Nat) : Prop :=
  ∃ call ∈ s.calls.eraseIdx place, Refreshes defaults s.rows call

instance (s : State) (place : Nat) : Decidable (OtherRefreshes defaults s place) :=
  inferInstanceAs (Decidable (∃ call ∈ _, _))

/-- A swap puts in what the rows resolve to, or another save does so later. -/
def SwapFits (s : State) (place : Nat) : Option Phase → Prop
  | some (.swapping snapshot) =>
    snapshot = .resolve defaults s.rows ∨ OtherRefreshes defaults s place
  | _ => True

/-- A save that ends early leaves a fresh snapshot, or another save refreshes it. -/
def EndFits (s : State) (place : Nat) : Option Phase → Prop
  | some .committing => Fresh defaults s ∨ OtherRefreshes defaults s place
  | some .querying => Fresh defaults s ∨ OtherRefreshes defaults s place
  | _ => True

/-- The step does not lose the settings that are stored. -/
def StepFits (s : State) : Step → Prop
  | .save _ => True
  | .proceed place => SwapFits defaults s place ((s.calls[place]?).map Call.phase)
  | .fail place => EndFits defaults s place ((s.calls[place]?).map Call.phase)

instance (s : State) (place : Nat) :
    (phase : Option Phase) → Decidable (SwapFits defaults s place phase)
  | none => inferInstanceAs (Decidable True)
  | some .committing => inferInstanceAs (Decidable True)
  | some .querying => inferInstanceAs (Decidable True)
  | some (.swapping _) => inferInstanceAs (Decidable (_ ∨ _))
  | some .returned => inferInstanceAs (Decidable True)

instance (s : State) (place : Nat) :
    (phase : Option Phase) → Decidable (EndFits defaults s place phase)
  | none => inferInstanceAs (Decidable True)
  | some .committing => inferInstanceAs (Decidable (_ ∨ _))
  | some .querying => inferInstanceAs (Decidable (_ ∨ _))
  | some (.swapping _) => inferInstanceAs (Decidable True)
  | some .returned => inferInstanceAs (Decidable True)

instance (s : State) : (a : Step) → Decidable (StepFits defaults s a)
  | .save _ => inferInstanceAs (Decidable True)
  | .proceed place =>
    inferInstanceAs (Decidable (SwapFits defaults s place ((s.calls[place]?).map Call.phase)))
  | .fail place =>
    inferInstanceAs (Decidable (EndFits defaults s place ((s.calls[place]?).map Call.phase)))

variable {defaults} {s : State} {place : Nat} {call next : Call}

/-! ## Steps -/

/-- The snapshot can still become what the rows resolve to: it is so, or a save refreshes it. -/
def Recovers (defaults : InstanceSettingsDefaults) (s : State) : Prop :=
  Fresh defaults s ∨ ∃ call ∈ s.calls, Refreshes defaults s.rows call

theorem recovers_put (s' : State) (next : Call) (h : s'.calls[place]? = some call) :
    Recovers defaults (s'.put place next) ↔
      Fresh defaults s' ∨ Refreshes defaults s'.rows next ∨ OtherRefreshes defaults s' place :=
  or_congr Iff.rfl (Tasks.exists_set _ h)

/-- What a step does to the recovery, for each phase of the save that it is a step of. -/
theorem recovers_step (h : Recovers defaults s) (a : Step) :
    Recovers defaults (step defaults s a) ↔ StepFits defaults s a := by
  cases a with
  | save settings =>
    refine iff_of_true ?_ trivial
    have hcalls : ∃ new,
        step defaults s (.save settings) = { s with calls := s.calls ++ [new] } := by
      simp only [step, save]
      split
      · exact ⟨_, rfl⟩
      · exact ⟨_, rfl⟩
    obtain ⟨new, hnew⟩ := hcalls
    rw [hnew]
    rcases h with hfresh | ⟨call, hcall, hrefreshes⟩
    · exact Or.inl hfresh
    · exact Or.inr ⟨call, List.mem_append_left _ hcall, hrefreshes⟩
  | proceed place =>
    simp only [step, proceed, StepFits]
    cases hplace : s.calls[place]? with
    | none => exact iff_of_true h trivial
    | some call =>
      cases hphase : call.phase with
      | committing =>
        simp only [Option.map_some, SwapFits, hphase, iff_true]
        exact (recovers_put { s with rows := saveRows s.rows call.settings } _ hplace).2
          (Or.inr (Or.inl trivial))
      | querying =>
        simp only [Option.map_some, SwapFits, hphase, iff_true]
        exact (recovers_put s _ hplace).2 (Or.inr (Or.inl rfl))
      | swapping snapshot =>
        simp only [Option.map_some, SwapFits, hphase]
        -- the save that swaps refreshes nothing any more
        rw [recovers_put { s with cache := snapshot } _ hplace]
        simp [Fresh, Refreshes, OtherRefreshes]
      | returned =>
        simp only [Option.map_some, SwapFits, hphase, iff_true]
        exact h
  | fail place =>
    simp only [step, fail, StepFits]
    cases hplace : s.calls[place]? with
    | none => exact iff_of_true h trivial
    | some call =>
      cases hphase : call.phase with
      | committing =>
        simp only [Option.map_some, EndFits, hphase, recovers_put s _ hplace]
        simp [Refreshes]
      | querying =>
        simp only [Option.map_some, EndFits, hphase, recovers_put s _ hplace]
        simp [Refreshes]
      | swapping snapshot =>
        simp only [Option.map_some, EndFits, hphase, iff_true]
        exact h
      | returned =>
        simp only [Option.map_some, EndFits, hphase, iff_true]
        exact h

/-- What is committed is a property of a save that its other steps leave alone. -/
theorem whole_step (h : Whole s) (a : Step) : Whole (step defaults s a) := by
  have hput : ∀ (cache : Domain.InstanceSettings) {place : Nat} {call : Call} (phase : Phase),
      s.calls[place]? = some call →
      Whole ({ s with cache }.put place { call with phase }) := by
    intro cache place call phase hplace
    unfold Whole State.put
    simp only
    have hcommitted := Tasks.exists_set_congr { call with phase }
      (fun other : Call => other.committed = true) hplace Iff.rfl
    have hrows := Tasks.exists_set_congr { call with phase }
      (fun other : Call => other.committed = true ∧
        ∀ row ∈ other.settings.toRows, Table.lookup Prod.fst s.rows row.1 = some row) hplace
      Iff.rfl
    exact fun hsome => hrows.2 (h (hcommitted.1 hsome))
  cases a with
  | save settings =>
    have hnew : ∀ new : Call, new.committed = false →
        Whole { s with calls := s.calls ++ [new] } := by
      rintro new hnew ⟨call, hcall, hcommitted⟩
      rcases List.mem_append.1 hcall with hold | hlast
      · obtain ⟨saved, hsaved, hrows⟩ := h ⟨call, hold, hcommitted⟩
        exact ⟨saved, List.mem_append_left _ hsaved, hrows⟩
      · rw [List.mem_singleton.1 hlast, hnew] at hcommitted
        exact absurd hcommitted (by simp)
    simp only [step, save]
    split
    · exact hnew _ rfl
    · exact hnew _ rfl
  | proceed place =>
    simp only [step, proceed]
    cases hplace : s.calls[place]? with
    | none => exact h
    | some call =>
      cases hphase : call.phase with
      | committing =>
        -- the rows are now those of this save
        simp only [hphase]
        intro _
        have hlt := (List.getElem?_eq_some_iff.1 hplace).1
        exact ⟨_, List.mem_set hlt _, rfl, lookup_saveRows s.rows call.settings⟩
      | querying =>
        simp only [hphase]
        exact hput s.cache _ hplace
      | swapping snapshot =>
        simp only [hphase]
        exact hput snapshot .returned hplace
      | returned =>
        simp only [hphase]
        exact h
  | fail place =>
    simp only [step, fail]
    cases hplace : s.calls[place]? with
    | none => exact h
    | some call =>
      cases hphase : call.phase with
      | committing =>
        simp only [hphase]
        exact hput s.cache .returned hplace
      | querying =>
        simp only [hphase]
        exact hput s.cache .returned hplace
      | swapping snapshot =>
        simp only [hphase]
        exact h
      | returned =>
        simp only [hphase]
        exact h

theorem keyed_step (h : Table.Keyed Prod.fst s.rows) (a : Step) :
    Table.Keyed Prod.fst (step defaults s a).rows := by
  cases a with
  | save settings =>
    simp only [step, save]
    split
    · exact h
    · exact h
  | proceed place =>
    simp only [step, proceed]
    cases s.calls[place]? with
    | none => exact h
    | some call =>
      simp only
      split
      · exact keyed_saveRows call.settings h
      · exact h
      · exact h
      · exact h
  | fail place =>
    simp only [step, fail]
    cases s.calls[place]? with
    | none => exact h
    | some call =>
      simp only
      split
      · exact h
      · exact h
      · exact h
      · exact h

/-! ## Runs -/

/-- Saves that all hold a stale snapshot leave one behind when they have all returned. -/
theorem exists_stale_end (h : ¬ Recovers defaults s) :
    ∃ finish : List Step, (∀ a ∈ finish, ∃ place, a = .proceed place) ∧
      Settled (Runs.run (step defaults) s finish) ∧
      ¬ Fresh defaults (Runs.run (step defaults) s finish) := by
  -- by induction on the number of saves that have not returned
  induction hcount : s.calls.countP (fun call => call.phase ≠ .returned) generalizing s with
  | zero =>
    refine ⟨[], by simp, ?_, fun hfresh => h (Or.inl hfresh)⟩
    intro call hcall
    simpa using List.countP_eq_zero.1 hcount call hcall
  | succ count ih =>
    have hpos : 0 < s.calls.countP (fun call => call.phase ≠ .returned) := by omega
    obtain ⟨call, hcall, hphase⟩ := List.countP_pos_iff.1 hpos
    obtain ⟨place, hplace⟩ := List.mem_iff_getElem?.1 hcall
    have hstale : ¬ Refreshes defaults s.rows call := fun hrefreshes =>
      h (Or.inr ⟨call, hcall, hrefreshes⟩)
    cases hnow : call.phase with
    | committing => exact absurd (by simp [Refreshes, hnow]) hstale
    | querying => exact absurd (by simp [Refreshes, hnow]) hstale
    | returned => exact absurd hnow (by simpa using hphase)
    | swapping snapshot =>
      have hnext : step defaults s (.proceed place) =
          { s with cache := snapshot }.put place { call with phase := .returned } := by
        simp only [step, proceed, hplace, hnow]
      have hstill : ¬ Recovers defaults (step defaults s (.proceed place)) := by
        rw [hnext, recovers_put { s with cache := snapshot } _ hplace]
        rintro (hfresh | hrefreshes | ⟨other, hother, hrefreshes⟩)
        · apply hstale
          simp only [Refreshes, hnow]
          exact hfresh
        · exact hrefreshes
        · exact h (Or.inr ⟨other, List.mem_of_mem_eraseIdx hother, hrefreshes⟩)
      have hless : (step defaults s (.proceed place)).calls.countP
          (fun call => call.phase ≠ .returned) = count := by
        have hset : (s.calls.set place { call with phase := .returned }).countP
            (fun call => call.phase ≠ .returned) + 1 =
            s.calls.countP (fun call => call.phase ≠ .returned) + 0 := by
          have hsame := @Tasks.countP_set Call s.calls place call { call with phase := .returned }
            (fun call => decide (call.phase ≠ .returned)) hplace
          simpa [hnow] using hsame
        rw [hnext]
        exact Nat.succ.inj (hset.trans hcount)
      obtain ⟨finish, hproceeds, hsettled, hend⟩ := ih hstill hless
      refine ⟨.proceed place :: finish, ?_, hsettled, hend⟩
      intro a ha
      rcases List.mem_cons.1 ha with rfl | ha
      · exact ⟨place, rfl⟩
      · exact hproceeds a ha

theorem whole_start (rows : List SettingRow) (readable : Bool) :
    Whole (start defaults rows readable) := by
  rintro ⟨call, hcall, -⟩
  exact absurd hcall List.not_mem_nil

/-- The rows are those of one save in every state that saves can get to. -/
theorem whole_run (h : Whole s) (steps : List Step) :
    Whole (Runs.run (step defaults) s steps) := by
  induction steps generalizing s with
  | nil => exact h
  | cons a steps ih => exact ih (whole_step h a)

theorem keyed_run (h : Table.Keyed Prod.fst s.rows) (steps : List Step) :
    Table.Keyed Prod.fst (Runs.run (step defaults) s steps).rows := by
  induction steps generalizing s with
  | nil => exact h
  | cons a steps ih => exact ih (keyed_step h a)

theorem Recovers.converged (h : Recovers defaults s) : Converged defaults s := by
  intro hsettled
  rcases h with hfresh | ⟨call, hcall, hrefreshes⟩
  · exact hfresh
  · simp [Refreshes, hsettled call hcall] at hrefreshes

/-- The state recovers all along the runs of fitting steps, and along no others. -/
theorem recovers_iff (h : Recovers defaults s) (steps : List Step) :
    (∀ earlier later, steps = earlier ++ later →
        Recovers defaults (Runs.run (step defaults) s earlier)) ↔
      Runs.Throughout (step defaults) (StepFits defaults) s steps := by
  apply Runs.always_iff_throughout (I := fun _ => True)
  · exact fun _ _ _ _ _ => trivial
  · exact fun s a _ hrecovers => recovers_step hrecovers a
  · trivial
  · exact h

end Service

/-- Over rows that could be read at the start, or say nothing else than the defaults, the snapshot
is what the rows resolve to whenever all saves have returned, in every run of fitting steps; from a
step that does not fit, the saves can go on to an end at which it is not. In every run the rows are
those of one committed save. -/
theorem settings_converge (defaults : InstanceSettingsDefaults) (rows : List SettingRow)
    (readable : Bool) (steps : List Step) :
    (Fresh defaults (start defaults rows readable) ∧
        Runs.Throughout (step defaults) (StepFits defaults) (start defaults rows readable) steps →
      ∀ earlier later, steps = earlier ++ later →
        Converged defaults (Runs.run (step defaults) (start defaults rows readable) earlier)) ∧
    (Fresh defaults (start defaults rows readable) →
      ¬ Runs.Throughout (step defaults) (StepFits defaults) (start defaults rows readable) steps →
      ∃ earlier later finish, steps = earlier ++ later ∧
        (∀ a ∈ finish, ∃ place, a = .proceed place) ∧
        ¬ Converged defaults
          (Runs.run (step defaults) (start defaults rows readable) (earlier ++ finish))) ∧
    ∀ earlier later, steps = earlier ++ later →
      Whole (Runs.run (step defaults) (start defaults rows readable) earlier) := by
  refine ⟨?_, ?_, ?_⟩
  · rintro ⟨hfresh, hfits⟩ earlier later heq
    exact ((recovers_iff (Or.inl hfresh) steps).2 hfits earlier later heq).converged
  · intro hfresh hfits
    rw [← recovers_iff (Or.inl hfresh)] at hfits
    simp only [not_forall] at hfits
    obtain ⟨earlier, later, heq, hlost⟩ := hfits
    obtain ⟨finish, hproceeds, hsettled, hstale⟩ := exists_stale_end hlost
    refine ⟨earlier, later, finish, heq, hproceeds, ?_⟩
    rw [Runs.run_append]
    exact fun hconverged => hstale (hconverged hsettled)
  · exact fun earlier _ _ => whole_run (whole_start rows readable) earlier

/-- When the snapshot is fresh and a save has been committed, the snapshot is what a committed save
asked for. -/
theorem cache_of_save {defaults : InstanceSettingsDefaults} {rows : List SettingRow}
    (hkeys : Table.Keyed Prod.fst rows) (readable : Bool) (steps : List Step) :
    let s := Runs.run (step defaults) (start defaults rows readable) steps
    Fresh defaults s → (∃ call ∈ s.calls, call.committed = true) →
      ∃ call ∈ s.calls, call.committed = true ∧
        s.cache = { call.settings with
          welcomeMessage := call.settings.welcomeMessage.bind shownMessage } := by
  intro s hfresh hcommitted
  obtain ⟨call, hcall, hsaved, hrows⟩ :=
    whole_run (whole_start rows readable) steps hcommitted
  have hkeys' : Table.Keyed Prod.fst s.rows :=
    keyed_run (s := start defaults rows readable) hkeys steps
  exact ⟨call, hcall, hsaved, hfresh.trans (resolve_of_rows hkeys' defaults hrows)⟩

/-! ## A slow reload -/

/-- Anyone may sign up. -/
def openDefaults : InstanceSettingsDefaults := ⟨.open, .private, false⟩

def welcoming : Domain.InstanceSettings := ⟨.open, .private, some "hello", false⟩

def closing : Domain.InstanceSettings := ⟨.closed, .private, none, false⟩

/-- The first save reads the rows before the second one commits, and swaps after it. -/
def slowReload : List Step :=
  [.save welcoming, .save closing, .proceed 0, .proceed 0, .proceed 1, .proceed 1, .proceed 1,
    .proceed 0]

/-- Sign-up is closed in the table, and open in the snapshot. -/
theorem slow_reload_is_stale :
    let s := Runs.run (step openDefaults) (start openDefaults [] true) slowReload
    Settled s ∧ s.cache.registrationMode = .open ∧
      (InstanceSettings.resolve openDefaults s.rows).registrationMode = .closed ∧
      ¬ Converged openDefaults s := by
  have hsettled :
      Settled (Runs.run (step openDefaults) (start openDefaults [] true) slowReload) := by
    unfold Settled
    decide +kernel
  have hstale : ¬ Fresh openDefaults
      (Runs.run (step openDefaults) (start openDefaults [] true) slowReload) := by
    decide +kernel
  exact ⟨hsettled, by decide +kernel, by decide +kernel, fun hconverged =>
    hstale (hconverged hsettled)⟩

/-- The saves take turns between their reads and swaps. -/
def promptReload : List Step :=
  [.save welcoming, .save closing, .proceed 0, .proceed 0, .proceed 0, .proceed 1, .proceed 1,
    .proceed 1]

theorem prompt_reload_converges :
    Converged openDefaults
        (Runs.run (step openDefaults) (start openDefaults [] true) promptReload) ∧
      Whole (Runs.run (step openDefaults) (start openDefaults [] true) promptReload) := by
  have hconverge := settings_converge openDefaults [] true promptReload
  have hend : promptReload = promptReload ++ [] := (List.append_nil _).symm
  exact ⟨hconverge.1 (by decide +kernel) promptReload [] hend, hconverge.2.2 promptReload [] hend⟩

end Edda.App.InstanceSettings
