import Edda.Git.Gix

/-!
# Ref updates

`updateRefs` applies the commands of one push, or the one update of a merge, as a single
transaction with compare-and-swap preconditions: the expected old value of each command is
checked against the ref's effective value before anything is written.
-/

set_option autoImplicit false

namespace Edda.Git

/-- One ref update with compare-and-swap semantics. -/
structure RefUpdate where
  name : String
  expectedOld : String
  new : String
  deriving DecidableEq, Repr

section Updates

variable (gix : Gix)

def fullName (name : String) : Except GitError String :=
  match gix.validateRefName name with
  | some err => .error (.git ("invalid ref name " ++ gix.debug name ++ ": " ++ err))
  | none => .ok name

def parseOid (hex : String) : Except GitError ObjectId :=
  match ObjectId.fromHex hex with
  | some id => .ok id
  | none => .error (.git ("not a valid object id: " ++ gix.debug hex))

/-- What an update expects of its ref: a creation that the ref is absent, anything else that it
holds the old value. An update from nothing to nothing expects nothing. -/
def expectedValue (update : RefUpdate) : Except GitError PreviousValue :=
  if update.expectedOld = zeroId then
    if update.new = zeroId then .ok .any else .ok .mustNotExist
  else match parseOid gix update.expectedOld with
    | .ok id => .ok (.mustExistAndMatch (.object id))
    | .error err => .error err

/-- The change an update makes. -/
def changeOf (update : RefUpdate) (expected : PreviousValue) : Except GitError Change :=
  if update.new = zeroId then .ok (.delete expected)
  else match parseOid gix update.new with
    | .ok id => .ok (.update expected (.object id))
    | .error err => .error err

def refEdit (update : RefUpdate) : Except GitError RefEdit :=
  match expectedValue gix update with
  | .error err => .error err
  | .ok expected => match changeOf gix update expected with
    | .error err => .error err
    | .ok change => match fullName gix update.name with
      | .error err => .error err
      | .ok name => .ok ⟨change, name⟩

/-- The edits of all updates, or the error of the first update that has none. -/
def refEdits : List RefUpdate → Except GitError (List RefEdit)
  | [] => .ok []
  | update :: updates => match refEdit gix update with
    | .error err => .error err
    | .ok edit => match refEdits updates with
      | .error err => .error err
      | .ok edits => .ok (edit :: edits)

/-- `update_refs`: the refs afterwards, and whether every update was applied. -/
def updateRefs (fault : Option RefFault) (refs : RefStore) (updates : List RefUpdate) :
    RefStore × Except GitError Unit :=
  if updates.isEmpty then (refs, .ok ())
  else match refEdits gix updates with
    | .error err => (refs, .error err)
    | .ok edits => match prepare gix fault refs edits with
      | .error err => (refs, .error err)
      | .ok () => commit gix fault refs edits

theorem parseOid_eq_ok {hex : String} {id : ObjectId} :
    parseOid gix hex = .ok id ↔ ObjectId.fromHex hex = some id := by
  unfold parseOid
  cases ObjectId.fromHex hex <;> simp

/-- What the edit of an update is, when it has one. -/
theorem refEdit_eq_ok {update : RefUpdate} {edit : RefEdit} (h : refEdit gix update = .ok edit) :
    edit.name = update.name ∧ gix.validateRefName update.name = none ∧
      (if update.new = zeroId then edit.result = none
        else ∃ id, ObjectId.fromHex update.new = some id ∧ edit.result = some (.object id)) ∧
      (if update.expectedOld = zeroId then
          edit.expected = if update.new = zeroId then .any else .mustNotExist
        else ∃ id, ObjectId.fromHex update.expectedOld = some id ∧
          edit.expected = .mustExistAndMatch (.object id)) := by
  unfold refEdit at h
  split at h
  · exact absurd h (by simp)
  rename_i expected hexpected
  split at h
  · exact absurd h (by simp)
  rename_i change hchange
  unfold fullName at h
  cases hname : gix.validateRefName update.name with
  | some err => simp [hname] at h
  | none =>
    simp only [hname, Except.ok.injEq] at h
    subst h
    have hexp : RefEdit.expected ⟨change, update.name⟩ = expected ∧
        (if update.new = zeroId then RefEdit.result ⟨change, update.name⟩ = none
          else ∃ id, ObjectId.fromHex update.new = some id ∧
            RefEdit.result ⟨change, update.name⟩ = some (.object id)) := by
      unfold changeOf at hchange
      split at hchange
      · rename_i hnew
        obtain rfl := Except.ok.inj hchange
        exact ⟨rfl, by rw [if_pos hnew]; rfl⟩
      · rename_i hnew
        split at hchange
        · rename_i id hid
          obtain rfl := Except.ok.inj hchange
          exact ⟨rfl, by rw [if_neg hnew]; exact ⟨id, (parseOid_eq_ok gix).1 hid, rfl⟩⟩
        · exact absurd hchange (by simp)
    refine ⟨rfl, rfl, hexp.2, ?_⟩
    rw [hexp.1]
    unfold expectedValue at hexpected
    split at hexpected
    · rename_i hold
      rw [if_pos hold]
      split at hexpected <;> rename_i hnew <;> simp [hnew, Except.ok.inj hexpected.symm]
    · rename_i hold
      rw [if_neg hold]
      split at hexpected
      · rename_i id hid
        exact ⟨id, (parseOid_eq_ok gix).1 hid, (Except.ok.inj hexpected).symm⟩
      · exact absurd hexpected (by simp)

/-- The edit of an update names the ref of the update. -/
theorem name_of_refEdit {update : RefUpdate} {edit : RefEdit} (h : refEdit gix update = .ok edit) :
    edit.name = update.name := (refEdit_eq_ok gix h).1

theorem refEdits_cons_eq_ok {update : RefUpdate} {updates : List RefUpdate}
    {edits : List RefEdit} :
    refEdits gix (update :: updates) = .ok edits ↔
      ∃ edit rest, refEdit gix update = .ok edit ∧ refEdits gix updates = .ok rest ∧
        edits = edit :: rest := by
  simp only [refEdits]
  cases refEdit gix update with
  | error err => simp
  | ok edit => cases refEdits gix updates <;> simp [eq_comm]

/-- Every edit is the edit of an update. -/
theorem exists_update_of_edit {updates : List RefUpdate} {edits : List RefEdit}
    (h : refEdits gix updates = .ok edits) {edit : RefEdit} (hmem : edit ∈ edits) :
    ∃ update ∈ updates, refEdit gix update = .ok edit := by
  induction updates generalizing edits with
  | nil =>
    obtain rfl := Except.ok.inj h
    simp at hmem
  | cons update updates ih =>
    obtain ⟨first, rest, hfirst, hrest, rfl⟩ := (refEdits_cons_eq_ok gix).1 h
    rcases List.mem_cons.1 hmem with rfl | hmem
    · exact ⟨update, by simp, hfirst⟩
    · obtain ⟨other, hother, hedit⟩ := ih hrest hmem
      exact ⟨other, List.mem_cons_of_mem _ hother, hedit⟩

/-- Every update has its edit. -/
theorem exists_edit_of_update {updates : List RefUpdate} {edits : List RefEdit}
    (h : refEdits gix updates = .ok edits) {update : RefUpdate} (hmem : update ∈ updates) :
    ∃ edit ∈ edits, refEdit gix update = .ok edit := by
  induction updates generalizing edits with
  | nil => simp at hmem
  | cons first updates ih =>
    obtain ⟨edit, rest, hedit, hrest, rfl⟩ := (refEdits_cons_eq_ok gix).1 h
    rcases List.mem_cons.1 hmem with rfl | hmem
    · exact ⟨edit, by simp, hedit⟩
    · obtain ⟨other, hother, hedit'⟩ := ih hrest hmem
      exact ⟨other, List.mem_cons_of_mem _ hother, hedit'⟩

/-- What `updateRefs` can do: apply every update, refuse without a write, or stop in the middle of
a commit that was accepted. -/
inductive UpdateCase (fault : Option RefFault) (refs : RefStore) (updates : List RefUpdate) :
    RefStore × Except GitError Unit → Prop
  | applied (edits : List RefEdit) : refEdits gix updates = .ok edits → Prepared refs edits →
      UpdateCase fault refs updates (refs.writeAll (commitOrder edits), .ok ())
  | refused (err : GitError) : UpdateCase fault refs updates (refs, .error err)
  | interrupted (edits : List RefEdit) (written : Nat) (err : GitError) :
      fault = some (.commit written) → refEdits gix updates = .ok edits → Prepared refs edits →
      UpdateCase fault refs updates (refs.writeAll ((commitOrder edits).take written), .error err)

theorem updateRefs_cases (fault : Option RefFault) (refs : RefStore) (updates : List RefUpdate) :
    UpdateCase gix fault refs updates (updateRefs gix fault refs updates) := by
  unfold updateRefs
  split
  · rename_i hempty
    obtain rfl := List.isEmpty_iff.1 hempty
    exact .applied [] rfl ⟨List.nodup_nil, by simp⟩
  · split
    · exact .refused _
    · rename_i edits hedits
      split
      · exact .refused _
      · rename_i hprep
        unfold prepare at hprep
        split at hprep
        · exact absurd hprep (by simp)
        · rename_i hok
          have hprepared : Prepared refs edits := by
            by_contra hnot
            exact hok (Or.inr hnot)
          unfold commit
          split
          · exact .interrupted edits _ _ rfl hedits hprepared
          · exact .applied edits hedits hprepared

/-- Updates that have edits and whose preconditions hold. -/
def UpdatesAccepted (refs : RefStore) (updates : List RefUpdate) : Prop :=
  ∃ edits, refEdits gix updates = .ok edits ∧ Prepared refs edits

instance (refs : RefStore) (updates : List RefUpdate) :
    Decidable (UpdatesAccepted gix refs updates) :=
  match h : refEdits gix updates with
  | .error _ => isFalse fun ⟨_, hedits, _⟩ => absurd (h.symm.trans hedits) (by simp)
  | .ok edits =>
    decidable_of_iff (Prepared refs edits)
      ⟨fun hp => ⟨edits, h, hp⟩, fun ⟨_, heq, hp⟩ => Except.ok.inj (h.symm.trans heq) ▸ hp⟩

/-- Without a fault an update succeeds exactly when it is accepted. -/
theorem updateRefs_eq_ok_iff (refs : RefStore) (updates : List RefUpdate) :
    (updateRefs gix none refs updates).2 = .ok () ↔ UpdatesAccepted gix refs updates := by
  constructor
  · intro h
    have hcase := updateRefs_cases gix none refs updates
    generalize updateRefs gix none refs updates = out at hcase h
    cases hcase with
    | applied edits hedits hprep => exact ⟨edits, hedits, hprep⟩
    | refused err => exact absurd h (by simp)
    | interrupted edits written err hfault _ _ => exact absurd hfault (by simp)
  · rintro ⟨edits, hedits, hprep⟩
    unfold updateRefs
    split
    · rfl
    · simp [hedits, prepare, hprep, commit]

/-- Without a fault a refused update leaves the refs as they were. -/
theorem updateRefs_refs_of_error {refs : RefStore} {updates : List RefUpdate}
    (h : ¬ UpdatesAccepted gix refs updates) : (updateRefs gix none refs updates).1 = refs := by
  have hcase := updateRefs_cases gix none refs updates
  generalize updateRefs gix none refs updates = out at hcase
  cases hcase with
  | applied edits hedits hprep => exact absurd ⟨edits, hedits, hprep⟩ h
  | refused err => rfl
  | interrupted edits written err hfault _ _ => exact absurd hfault (by simp)

/-- After an applied update every ref holds the new value of the update that names it, or what it
held before. -/
theorem lookup_of_applied {refs : RefStore} {edits : List RefEdit}
    (hprep : Prepared refs edits) (name : String) :
    ((refs.writeAll (commitOrder edits)).lookup name = refs.lookup name ∧
        name ∉ edits.map RefEdit.name) ∨
      ∃ edit ∈ edits, edit.name = name ∧
        (refs.writeAll (commitOrder edits)).lookup name = edit.result := by
  by_cases hmem : name ∈ edits.map RefEdit.name
  · right
    obtain ⟨edit, hedit, rfl⟩ := List.mem_map.1 hmem
    exact ⟨edit, hedit, rfl, lookup_writeAll_of_mem _ refs (nodup_names_commitOrder hprep.1)
      (mem_commitOrder.2 hedit)⟩
  · left
    refine ⟨lookup_writeAll_of_not_mem _ refs ?_, hmem⟩
    intro h
    obtain ⟨edit, hedit, rfl⟩ := List.mem_map.1 h
    exact hmem (List.mem_map.2 ⟨edit, mem_commitOrder.1 hedit, rfl⟩)

end Updates

end Edda.Git
