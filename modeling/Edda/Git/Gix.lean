import Edda.Git.Object

/-!
# The git library under the server

What the model takes from the git library: the effective value of every ref, one transaction over
several refs, and the functions that are parameters of everything above (`Gix`). A ref has one
effective value, whether it is stored loose or packed.

A transaction is prepared, which checks every precondition and locks every ref, and is then
committed one edit after the other, updates before deletions. A failure while preparing writes
nothing. A failure while committing leaves the edits written so far.
-/

set_option autoImplicit false

namespace Edda.Git

open Edda.Support.RustText

/-- The value of a ref. -/
inductive Target where
  | object (id : ObjectId)
  | symbolic (name : String)
  deriving DecidableEq, Repr

/-- The effective value of every ref, `HEAD` among them. -/
abbrev RefStore := AList fun _ : String => Target

/-- What a ref must hold for an edit to be accepted. -/
inductive PreviousValue where
  | any
  | mustNotExist
  | mustExistAndMatch (target : Target)
  deriving DecidableEq, Repr

/-- One change of a ref. -/
inductive Change where
  | update (expected : PreviousValue) (new : Target)
  | delete (expected : PreviousValue)
  deriving DecidableEq, Repr

/-- One change of one ref. -/
structure RefEdit where
  change : Change
  name : String
  deriving DecidableEq, Repr

/-- What the edited ref holds afterwards. -/
def RefEdit.result (edit : RefEdit) : Option Target :=
  match edit.change with
  | .update _ new => some new
  | .delete _ => none

/-- What the edit expects of the ref. -/
def RefEdit.expected (edit : RefEdit) : PreviousValue :=
  match edit.change with
  | .update expected _ => expected
  | .delete expected => expected

/-- Whether an edit is accepted where the ref holds `current`. A ref that must not exist may
already hold the new value. -/
def RefEdit.accepts (edit : RefEdit) (current : Option Target) : Bool :=
  match edit.expected with
  | .any => true
  | .mustNotExist => current.isNone || current == edit.result
  | .mustExistAndMatch target => current == some target

/-- Where the file system can interrupt a transaction. -/
inductive RefFault where
  | prepare
  | commit (written : Nat)
  deriving DecidableEq, Repr

/-- The name of a pack file: the hash of the pack. -/
abbrev PackName := BitVec 160

/-- The parameters of the model. The object an id names and the objects of a pack are fixed by
their hashes. `writeToDirectory` indexes the pack section of a push, whose deltas may be against
the objects of the store, and names the pack it wrote, if that holds any object.
`validateRefName` gives the reason why a text is no full ref name, `debug` is the quoted form of
a text, and `transactionError` and `ioError` are the texts of failures. -/
structure Gix where
  content : ObjectId → Object
  packObjects : PackName → List ObjectId
  writeToDirectory : Bytes → Store → Except String (Option PackName)
  validateRefName : String → Option String
  debug : String → String
  transactionError : RefStore → List RefEdit → String
  ioError : String

/-! ## Transactions -/

/-- Writes one edit. -/
def RefStore.write (refs : RefStore) (edit : RefEdit) : RefStore :=
  match edit.change with
  | .update _ new => refs.insert edit.name new
  | .delete _ => refs.erase edit.name

/-- Writes edits one after the other. -/
def RefStore.writeAll (refs : RefStore) (edits : List RefEdit) : RefStore :=
  edits.foldl RefStore.write refs

/-- The order in which edits are written: updates before deletions. -/
def commitOrder (edits : List RefEdit) : List RefEdit :=
  edits.filter (fun edit => edit.result.isSome) ++ edits.filter (fun edit => edit.result.isNone)

/-- Every ref is named by one edit at most, and accepts it. -/
def Prepared (refs : RefStore) (edits : List RefEdit) : Prop :=
  (edits.map RefEdit.name).Nodup ∧ ∀ edit ∈ edits, edit.accepts (refs.lookup edit.name) = true

instance (refs : RefStore) (edits : List RefEdit) : Decidable (Prepared refs edits) :=
  inferInstanceAs (Decidable (_ ∧ _))

/-- `Transaction::prepare`. -/
def prepare (gix : Gix) (fault : Option RefFault) (refs : RefStore) (edits : List RefEdit) :
    Except GitError Unit :=
  if fault = some .prepare ∨ ¬ Prepared refs edits then
    .error (.git (gix.transactionError refs edits))
  else .ok ()

/-- `Transaction::commit`. -/
def commit (gix : Gix) (fault : Option RefFault) (refs : RefStore) (edits : List RefEdit) :
    RefStore × Except GitError Unit :=
  match fault with
  | some (.commit written) =>
    (refs.writeAll ((commitOrder edits).take written),
      .error (.git (gix.transactionError refs edits)))
  | _ => (refs.writeAll (commitOrder edits), .ok ())

theorem mem_commitOrder {edits : List RefEdit} {edit : RefEdit} :
    edit ∈ commitOrder edits ↔ edit ∈ edits := by
  cases h : edit.result <;> simp [commitOrder, h]

theorem commitOrder_perm (edits : List RefEdit) : (commitOrder edits).Perm edits := by
  have h := List.filter_append_perm (fun edit : RefEdit => edit.result.isSome) edits
  simpa [commitOrder] using h

theorem nodup_names_commitOrder {edits : List RefEdit} (h : (edits.map RefEdit.name).Nodup) :
    ((commitOrder edits).map RefEdit.name).Nodup :=
  ((commitOrder_perm edits).map RefEdit.name).nodup_iff.2 h

/-- A written edit leaves its result in its ref. -/
theorem lookup_write_self (refs : RefStore) (edit : RefEdit) :
    (refs.write edit).lookup edit.name = edit.result := by
  unfold RefStore.write RefEdit.result
  cases edit.change with
  | update _ new => exact AList.lookup_insert refs
  | delete _ => exact AList.lookup_erase _ refs

/-- A written edit leaves every other ref alone. -/
theorem lookup_write_ne {refs : RefStore} {edit : RefEdit} {name : String}
    (h : name ≠ edit.name) : (refs.write edit).lookup name = refs.lookup name := by
  unfold RefStore.write
  cases edit.change with
  | update _ new => exact AList.lookup_insert_ne h
  | delete _ => exact AList.lookup_erase_ne h

/-- Edits leave the refs they do not name alone. -/
theorem lookup_writeAll_of_not_mem {name : String} :
    ∀ (edits : List RefEdit) (refs : RefStore), name ∉ edits.map RefEdit.name →
      (refs.writeAll edits).lookup name = refs.lookup name
  | [], _, _ => rfl
  | edit :: edits, refs, h => by
    have hne : name ≠ edit.name := fun heq => h (by simp [heq])
    have hrest : name ∉ edits.map RefEdit.name := fun hmem => h (List.mem_cons_of_mem _ hmem)
    calc (refs.writeAll (edit :: edits)).lookup name
        = ((refs.write edit).writeAll edits).lookup name := rfl
      _ = (refs.write edit).lookup name := lookup_writeAll_of_not_mem edits _ hrest
      _ = refs.lookup name := lookup_write_ne hne

/-- Edits with distinct names leave their results. -/
theorem lookup_writeAll_of_mem {edit : RefEdit} :
    ∀ (edits : List RefEdit) (refs : RefStore), (edits.map RefEdit.name).Nodup → edit ∈ edits →
      (refs.writeAll edits).lookup edit.name = edit.result
  | [], _, _, h => by simp at h
  | first :: edits, refs, hnodup, h => by
    obtain ⟨hnew, hrest⟩ := List.nodup_cons.1 hnodup
    rcases List.mem_cons.1 h with rfl | h
    · calc (refs.writeAll (edit :: edits)).lookup edit.name
          = ((refs.write edit).writeAll edits).lookup edit.name := rfl
        _ = (refs.write edit).lookup edit.name := lookup_writeAll_of_not_mem edits _ hnew
        _ = edit.result := lookup_write_self refs edit
    · exact lookup_writeAll_of_mem edits (refs.write first) hrest h

/-- A ref holds what it held, or the result of an edit that names it. -/
theorem lookup_writeAll_cases (edits : List RefEdit) (refs : RefStore) (name : String) :
    (refs.writeAll edits).lookup name = refs.lookup name ∨
      ∃ edit ∈ edits, edit.name = name ∧ (refs.writeAll edits).lookup name = edit.result := by
  induction edits generalizing refs with
  | nil => exact Or.inl rfl
  | cons edit edits ih =>
    rcases ih (refs.write edit) with h | ⟨other, hmem, hname, h⟩
    · by_cases hne : name = edit.name
      · right
        refine ⟨edit, by simp, hne.symm, ?_⟩
        subst hne
        exact h.trans (lookup_write_self refs edit)
      · exact Or.inl (h.trans (lookup_write_ne hne))
    · exact Or.inr ⟨other, List.mem_cons_of_mem _ hmem, hname, h⟩

/-- Edits with distinct names change nothing exactly when each ref holds its result before. -/
theorem lookup_writeAll_eq_iff {edits : List RefEdit} {refs : RefStore}
    (hnodup : (edits.map RefEdit.name).Nodup) :
    (∀ name, (refs.writeAll edits).lookup name = refs.lookup name) ↔
      ∀ edit ∈ edits, refs.lookup edit.name = edit.result := by
  constructor
  · intro h edit hmem
    rw [← h edit.name]
    exact lookup_writeAll_of_mem edits refs hnodup hmem
  · intro h name
    rcases lookup_writeAll_cases edits refs name with heq | ⟨edit, hmem, rfl, heq⟩
    · exact heq
    · rw [heq, h edit hmem]

end Edda.Git
