import Edda.Git.ReceiveAtomicity

/-!
# Overlapping ref updates

Callers that update the refs of one repository at the same time are ordered by the commits of
their transactions. A caller whose locks stay contended gives up, and so does one whose
preconditions fail; neither writes anything. So any interleaving is a list of calls in commit
order.

`serialised_iff` says exactly when every call either applies all its updates, each to a ref that
held the value the caller named, or none. The old value zero names an absent ref, and two kinds of
update from zero are accepted over a ref that exists: one whose new value is zero as well, which
deletes the ref, and a creation of a ref that already holds the new value.
-/

set_option autoImplicit false

namespace Edda.Git

section Calls

variable (gix : Gix)

/-- One call of `updateRefs`, and whether the locks it needs stay contended. -/
structure RefCall where
  updates : List RefUpdate
  contended : Bool
  deriving DecidableEq, Repr

/-- The transaction of a call, taken as atomic. -/
def RefCall.run (call : RefCall) (refs : RefStore) : RefStore × Except GitError Unit :=
  updateRefs gix (if call.contended then some .prepare else none) refs call.updates

/-- The refs after some calls, in the order of their transactions. -/
def runCalls (refs : RefStore) : List RefCall → RefStore
  | [] => refs
  | call :: calls => runCalls (call.run gix refs).1 calls

/-- The calls that succeed, in the order of their transactions. -/
def successfulCalls (refs : RefStore) : List RefCall → List RefCall
  | [] => []
  | call :: calls =>
    let rest := successfulCalls (call.run gix refs).1 calls
    match (call.run gix refs).2 with
    | .ok () => call :: rest
    | .error _ => rest

/-! ## What a call should do -/

/-- A hex text names the value of a ref: zero names no value at all. -/
def NamedValue (hex : String) (value : Option Target) : Prop :=
  if hex = zeroId then value = none
  else ∃ id, ObjectId.fromHex hex = some id ∧ value = some (.object id)

/-- Every update was applied, to a ref that held what its caller named. -/
structure AppliesAll (before after : RefStore) (updates : List RefUpdate) : Prop where
  expected : ∀ update ∈ updates, NamedValue update.expectedOld (before.lookup update.name)
  written : ∀ update ∈ updates, NamedValue update.new (after.lookup update.name)
  others : ∀ name, name ∉ updates.map RefUpdate.name → after.lookup name = before.lookup name

/-- The call applies all its updates, or reports an error and applies none. -/
def AllOrNone (refs : RefStore) (call : RefCall) : Prop :=
  ((call.run gix refs).2 = .ok () ∧ AppliesAll refs (call.run gix refs).1 call.updates) ∨
    (call.run gix refs).2 ≠ .ok () ∧ (call.run gix refs).1 = refs

/-- What a ref loses or changes in a call is a value that the caller named for it. -/
def OverwritesNamed (refs : RefStore) (call : RefCall) : Prop :=
  ∀ name, (call.run gix refs).1.lookup name ≠ refs.lookup name →
    ∃ update ∈ call.updates, update.name = name ∧
      NamedValue update.expectedOld (refs.lookup name)

/-- Every call of a run applies all its updates or none, overwriting nothing that its caller had
not named, and the refs are in the end what the successful calls alone leave. -/
structure Serialised (refs : RefStore) (calls : List RefCall) : Prop where
  each : ∀ before call after, calls = before ++ call :: after →
    AllOrNone gix (runCalls gix refs before) call
  named : ∀ before call after, calls = before ++ call :: after →
    OverwritesNamed gix (runCalls gix refs before) call
  final : runCalls gix refs (successfulCalls gix refs calls) = runCalls gix refs calls

/-- The updates from zero name refs that do not exist, in a call whose transaction is accepted. -/
def CreatesOnlyAbsent (refs : RefStore) (call : RefCall) : Prop :=
  call.contended = false → UpdatesAccepted gix refs call.updates →
    ∀ update ∈ call.updates, update.expectedOld = zeroId → refs.lookup update.name = none

/-! ## One call -/

/-- What a call can do: apply all its edits, or give up without a write. -/
theorem RefCall.run_cases (call : RefCall) (refs : RefStore) :
    ((call.run gix refs).2 = .ok () ∧ ∃ edits, refEdits gix call.updates = .ok edits ∧
        Prepared refs edits ∧ (call.run gix refs).1 = refs.writeAll (commitOrder edits)) ∨
      (call.run gix refs).2 ≠ .ok () ∧ (call.run gix refs).1 = refs := by
  simp only [RefCall.run]
  have hcase := updateRefs_cases gix (if call.contended then some .prepare else none) refs
    call.updates
  generalize updateRefs gix (if call.contended then some .prepare else none) refs
    call.updates = out at hcase
  cases hcase with
  | applied edits hedits hprep => exact Or.inl ⟨rfl, edits, hedits, hprep, rfl⟩
  | refused err => exact Or.inr ⟨by simp, rfl⟩
  | interrupted edits written err hfault _ _ =>
    -- the only fault of a call is that it gets no lock
    cases hcontended : call.contended <;> simp [hcontended] at hfault

/-- A call with an update succeeds exactly when it gets its locks and its updates are accepted. -/
theorem RefCall.run_eq_ok_iff (call : RefCall) (refs : RefStore) (hne : call.updates ≠ []) :
    (call.run gix refs).2 = .ok () ↔
      call.contended = false ∧ UpdatesAccepted gix refs call.updates := by
  simp only [RefCall.run, updateRefs_ok_iff gix _ refs hne]
  cases call.contended <;> simp

/-- The updates of a written transaction left the values they name. -/
theorem namedValue_written {refs : RefStore} {updates : List RefUpdate} {edits : List RefEdit}
    (hedits : refEdits gix updates = .ok edits) (hprep : Prepared refs edits) {update : RefUpdate}
    (hmem : update ∈ updates) :
    NamedValue update.new ((refs.writeAll (commitOrder edits)).lookup update.name) := by
  obtain ⟨edit, hedit, heq⟩ := exists_edit_of_update gix hedits hmem
  obtain ⟨hname, -, hresult, -⟩ := refEdit_eq_ok gix heq
  have hlookup : (refs.writeAll (commitOrder edits)).lookup edit.name = edit.result :=
    lookup_writeAll_of_mem _ refs (nodup_names_commitOrder hprep.1) (mem_commitOrder.2 hedit)
  rw [← hname, hlookup]
  exact hresult

/-- An accepted update from a value names what its ref held. -/
theorem namedValue_expected {refs : RefStore} {updates : List RefUpdate} {edits : List RefEdit}
    (hedits : refEdits gix updates = .ok edits) (hprep : Prepared refs edits) {update : RefUpdate}
    (hmem : update ∈ updates) (hvalue : update.expectedOld ≠ zeroId) :
    NamedValue update.expectedOld (refs.lookup update.name) := by
  obtain ⟨edit, hedit, heq⟩ := exists_edit_of_update gix hedits hmem
  obtain ⟨hname, -, -, hexpected⟩ := refEdit_eq_ok gix heq
  rw [if_neg hvalue] at hexpected
  obtain ⟨id, hid, hexpected⟩ := hexpected
  have haccepts := hprep.2 edit hedit
  simp only [RefEdit.accepts, hexpected, beq_iff_eq] at haccepts
  rw [hname] at haccepts
  simp only [NamedValue, if_neg hvalue]
  exact ⟨id, hid, haccepts⟩

/-- The refs that no update names are left alone. -/
theorem lookup_others {refs : RefStore} {updates : List RefUpdate} {edits : List RefEdit}
    (hedits : refEdits gix updates = .ok edits) {name : String}
    (hother : name ∉ updates.map RefUpdate.name) :
    (refs.writeAll (commitOrder edits)).lookup name = refs.lookup name := by
  apply lookup_writeAll_of_not_mem
  intro h
  obtain ⟨edit, hedit, rfl⟩ := List.mem_map.1 h
  obtain ⟨update, hmem, heq⟩ := exists_update_of_edit gix hedits (mem_commitOrder.1 hedit)
  exact hother (List.mem_map.2 ⟨update, hmem, (name_of_refEdit gix heq).symm⟩)

/-- A call applies all its updates or none exactly when, if it is accepted, its updates from zero
name absent refs. -/
theorem allOrNone_iff (refs : RefStore) (call : RefCall) :
    AllOrNone gix refs call ↔ CreatesOnlyAbsent gix refs call := by
  constructor
  · intro h hcontended haccepted update hmem hzero
    have hok : (call.run gix refs).2 = .ok () :=
      (call.run_eq_ok_iff gix refs (List.ne_nil_of_mem hmem)).2 ⟨hcontended, haccepted⟩
    rcases h with ⟨-, happlies⟩ | ⟨hne, -⟩
    · have hexpected := happlies.expected update hmem
      simpa [NamedValue, hzero] using hexpected
    · exact absurd hok hne
  · intro h
    rcases call.run_cases gix refs with ⟨hok, edits, hedits, hprep, hrefs⟩ | hrefused
    · left
      refine ⟨hok, ?_, ?_, ?_⟩
      · intro update hmem
        by_cases hzero : update.expectedOld = zeroId
        · have hlocks := (call.run_eq_ok_iff gix refs (List.ne_nil_of_mem hmem)).1 hok
          simp only [NamedValue, if_pos hzero]
          exact h hlocks.1 hlocks.2 update hmem hzero
        · exact namedValue_expected gix hedits hprep hmem hzero
      · intro update hmem
        rw [hrefs]
        exact namedValue_written gix hedits hprep hmem
      · intro name hother
        rw [hrefs]
        exact lookup_others gix hedits hother
    · exact Or.inr hrefused

/-- A call that applies all its updates or none overwrites only what its caller named. -/
theorem AllOrNone.overwritesNamed {refs : RefStore} {call : RefCall}
    (h : AllOrNone gix refs call) : OverwritesNamed gix refs call := by
  intro name hchanged
  rcases h with ⟨-, happlies⟩ | ⟨-, hrefs⟩
  · have hmem : name ∈ call.updates.map RefUpdate.name := by
      by_contra hother
      exact hchanged (happlies.others name hother)
    obtain ⟨update, hupdate, rfl⟩ := List.mem_map.1 hmem
    exact ⟨update, hupdate, rfl, happlies.expected update hupdate⟩
  · exact absurd (by rw [hrefs]) hchanged

/-! ## Whole runs -/

/-- A call that does not succeed changes nothing, so the successful calls alone leave the same
refs. -/
theorem runCalls_successfulCalls (refs : RefStore) (calls : List RefCall) :
    runCalls gix refs (successfulCalls gix refs calls) = runCalls gix refs calls := by
  induction calls generalizing refs with
  | nil => rfl
  | cons call calls ih =>
    simp only [successfulCalls, runCalls]
    rcases call.run_cases gix refs with ⟨hok, -⟩ | ⟨hne, hrefs⟩
    · rw [hok]
      exact ih _
    · cases hout : (call.run gix refs).2 with
      | ok _ => exact absurd hout hne
      | error err => rw [hrefs]; exact ih refs

/-- Calls serialise by compare-and-swap exactly when no accepted call, at its place in the run,
has an update from zero for a ref that exists. -/
theorem serialised_iff (refs : RefStore) (calls : List RefCall) :
    Serialised gix refs calls ↔
      ∀ before call after, calls = before ++ call :: after →
        CreatesOnlyAbsent gix (runCalls gix refs before) call := by
  constructor
  · intro h before call after heq
    exact (allOrNone_iff gix _ call).1 (h.each before call after heq)
  · intro h
    have heach : ∀ before call after, calls = before ++ call :: after →
        AllOrNone gix (runCalls gix refs before) call := by
      intro before call after heq
      exact (allOrNone_iff gix _ call).2 (h before call after heq)
    refine ⟨heach, ?_, runCalls_successfulCalls gix refs calls⟩
    intro before call after heq
    exact (heach before call after heq).overwritesNamed

end Calls

/-- A call from nothing to nothing on a branch that exists. -/
def nothingToNothing : RefCall := ⟨[⟨"refs/heads/main", zeroId, zeroId⟩], false⟩

/-- The branch is at the commit 1, and the call, whose caller names no value, deletes it. -/
theorem nothing_to_nothing_deletes :
    ¬ Serialised onePackGix onePackRepo.refs [nothingToNothing] := by
  intro h
  have hexists : onePackRepo.refs.lookup "refs/heads/main" = some (.object 1) := by decide
  have hok : (nothingToNothing.run onePackGix onePackRepo.refs).2 = .ok () := by decide
  rcases h.each [] nothingToNothing [] rfl with ⟨-, happlies⟩ | ⟨hne, -⟩
  · have hexpected := happlies.expected ⟨"refs/heads/main", zeroId, zeroId⟩
      (by simp [nothingToNothing])
    simp only [NamedValue, if_true, runCalls] at hexpected
    rw [hexists] at hexpected
    exact absurd hexpected (by simp)
  · exact hne hok

end Edda.Git
