import Edda.Auth.SecretBox
import Edda.Support.Runs
import Edda.Support.Tasks

/-!
# The rotation of stored secrets

The command reads every stored secret, table by table, and then writes each back sealed under the
primary key, by its id. The server goes on enrolling, creating and deleting meanwhile, with the same
keys. A rotation can stop at any statement and be run again.

`losesNothing_iff` says in which runs every stored secret stays the one that was stored last.
-/

set_option autoImplicit false

namespace Edda.Cli.SecretRotation

open Edda.Auth.SecretBox Edda.Support Edda.Support.RustText

/-- The tables that store secrets. -/
inductive Kind where
  | totp
  | webhook
  deriving DecidableEq, Repr

abbrev SecretId := BitVec 128

/-- A row of `totp_secrets`, by its user, or of `webhooks`. -/
structure Row where
  id : SecretId
  ciphertext : Bytes
  deriving DecidableEq, Repr

/-- A row as the rotation has loaded it. -/
structure StoredSecret where
  kind : Kind
  id : SecretId
  ciphertext : Bytes
  deriving DecidableEq, Repr

/-- What the server has stored in a row. -/
structure Written where
  kind : Kind
  id : SecretId
  plaintext : Bytes
  deriving DecidableEq, Repr

/-- A rotation by the statement that it makes next. -/
inductive Task where
  | loadTotp
  | loadWebhooks (loaded : List StoredSecret)
  | store (remaining : List StoredSecret)
  | rotated
  | failed (secret : StoredSecret) (err : SecretBoxError)
  | crashed
  deriving DecidableEq, Repr

/-- The tables and the rotations, and what the server has stored, the last first. -/
structure State where
  rows : Kind → List Row
  written : List Written
  tasks : List Task

def State.set (s : State) (place : Nat) (task : Task) : State :=
  { s with tasks := s.tasks.set place task }

def State.setRows (s : State) (kind : Kind) (rows : List Row) : State :=
  { s with rows := Function.update s.rows kind rows }

def State.write (s : State) (kind : Kind) (id : SecretId) (plaintext : Bytes) : State :=
  { s with written := ⟨kind, id, plaintext⟩ :: s.written }

/-- What the server has stored in a row most recently. -/
def State.lastWritten (s : State) (kind : Kind) (id : SecretId) : Option Written :=
  s.written.find? fun written => written.kind = kind ∧ written.id = id

def State.load (s : State) (kind : Kind) : List StoredSecret :=
  (s.rows kind).map fun row => ⟨kind, row.id, row.ciphertext⟩

/-- The table has a row with an id. -/
def HasRow (id : SecretId) (rows : List Row) : Prop := ∃ row ∈ rows, row.id = id

instance (id : SecretId) (rows : List Row) : Decidable (HasRow id rows) :=
  inferInstanceAs (Decidable (∃ _ ∈ _, _))

/-- `UPDATE … SET secret_ciphertext = … WHERE id = …`. -/
def updateRow (id : SecretId) (ciphertext : Bytes) (rows : List Row) : List Row :=
  rows.map fun row => if row.id = id then ⟨id, ciphertext⟩ else row

/-- `TotpRepo::upsert_secret`. -/
def upsertRow (id : SecretId) (ciphertext : Bytes) (rows : List Row) : List Row :=
  if HasRow id rows then updateRow id ciphertext rows else rows ++ [⟨id, ciphertext⟩]

section Steps

variable {κ : Type} (aead : Aead κ) (keys : Keys κ)

/-- `totp::enroll`. -/
def enroll (s : State) (userId : SecretId) (secret : Bytes) (nonce : Nonce) : State :=
  match encrypt aead (some keys) nonce secret with
  | .error _ => s
  | .ok ciphertext =>
    (s.setRows .totp (upsertRow userId ciphertext (s.rows .totp))).write .totp userId secret

/-- The insert of a webhook; the table refuses an id that it has. -/
def createWebhook (s : State) (id : SecretId) (secret : Bytes) (nonce : Nonce) : State :=
  match encrypt aead (some keys) nonce secret with
  | .error _ => s
  | .ok ciphertext =>
    if HasRow id (s.rows .webhook) then s
    else (s.setRows .webhook (s.rows .webhook ++ [⟨id, ciphertext⟩])).write .webhook id secret

def delete (s : State) (kind : Kind) (id : SecretId) : State :=
  s.setRows kind ((s.rows kind).filter fun row => row.id ≠ id)

/-- The next statement of a rotation. -/
def proceed (s : State) (place : Nat) (nonce : Nonce) : Task → State
  | .loadTotp => s.set place (.loadWebhooks (s.load .totp))
  | .loadWebhooks loaded => s.set place (.store (loaded ++ s.load .webhook))
  | .store [] => s.set place .rotated
  | .store (secret :: remaining) =>
    match reencrypt aead (some keys) nonce secret.ciphertext with
    | .error err => s.set place (.failed secret err)
    -- whatever the row holds by now
    | .ok ciphertext =>
      (s.setRows secret.kind (updateRow secret.id ciphertext (s.rows secret.kind))).set place
        (.store remaining)
  | .rotated => s
  | .failed _ _ => s
  | .crashed => s

/-- The steps that name a rotation do so by its place. -/
inductive Step where
  | enroll (userId : SecretId) (secret : Bytes) (nonce : Nonce)
  | createWebhook (id : SecretId) (secret : Bytes) (nonce : Nonce)
  | delete (kind : Kind) (id : SecretId)
  | rotate
  | proceed (place : Nat) (nonce : Nonce)
  | crash (place : Nat)
  deriving DecidableEq, Repr

def step (s : State) : Step → State
  | .enroll userId secret nonce => enroll aead keys s userId secret nonce
  | .createWebhook id secret nonce => createWebhook aead keys s id secret nonce
  | .delete kind id => delete s kind id
  | .rotate => { s with tasks := s.tasks ++ [.loadTotp] }
  | .proceed place nonce => match s.tasks[place]? with
    | none => s
    | some task => proceed aead keys s place nonce task
  -- a rotation that has ended does not crash any more
  | .crash place => match s.tasks[place]? with
    | some (.loadTotp) | some (.loadWebhooks _) | some (.store _) => s.set place .crashed
    | _ => s

/-! ## What has to hold -/

/-- Every stored secret is the one that the server has stored last. -/
def Decrypts (s : State) : Prop :=
  ∀ kind, ∀ row ∈ s.rows kind, ∃ written, s.lastWritten kind row.id = some written ∧
    decrypt aead (some keys) row.ciphertext = .ok written.plaintext

def AllUnderPrimary (s : State) : Prop :=
  ∀ kind, ∀ row ∈ s.rows kind, UnderPrimary keys row.ciphertext

/-- A rotation that is started and left alone. -/
def rotateAlone (s : State) (nonces : List Nonce) : List Step :=
  .rotate :: nonces.map (.proceed s.tasks.length)

/-- A rotation that is run again gets to its end, with all secrets under the primary key. -/
def Completes (s : State) : Prop :=
  ∀ nonces : List Nonce, nonces.length = (s.rows .totp).length + (s.rows .webhook).length + 3 →
    let after := Runs.run (step aead keys) s (rotateAlone s nonces)
    after.tasks[s.tasks.length]? = some .rotated ∧ AllUnderPrimary keys after

/-- Nothing is lost: every secret is there, a rotation that has got to its end has left none under
another key, and one that has not can be run again. -/
structure Kept (s : State) : Prop where
  decrypts : Decrypts aead keys s
  rotated : .rotated ∈ s.tasks → AllUnderPrimary keys s
  completes : Completes aead keys s

/-- A row is written back while it still holds the secret that was loaded. -/
def StepFits (s : State) : Step → Prop
  | .proceed place _ => ∀ task, s.tasks[place]? = some task → match task with
    | .store (secret :: _) => ∀ row ∈ s.rows secret.kind, row.id = secret.id →
      decrypt aead (some keys) row.ciphertext = decrypt aead (some keys) secret.ciphertext
    | _ => True
  | _ => True

end Steps

/-- The tables as they are before any rotation. -/
def stored (rows : Kind → List Row) (written : List Written) : State := ⟨rows, written, []⟩

/-! ## What the statements do to the rows -/

section Rows

variable {κ : Type} {aead : Aead κ} {keys : Keys κ} {s s' : State} {place : Nat} {task next : Task}
  {nonce : Nonce} {kind : Kind} {id : SecretId} {ciphertext : Bytes} {rows : List Row} {row : Row}

theorem mem_updateRow (h : row ∈ updateRow id ciphertext rows) :
    (row ∈ rows ∧ row.id ≠ id) ∨ (row = ⟨id, ciphertext⟩ ∧ HasRow id rows) := by
  obtain ⟨old, hold, rfl⟩ := List.mem_map.1 h
  by_cases hid : old.id = id
  · rw [if_pos hid]
    exact .inr ⟨rfl, old, hold, hid⟩
  · rw [if_neg hid]
    exact .inl ⟨hold, hid⟩

theorem mem_upsertRow (h : row ∈ upsertRow id ciphertext rows) :
    (row ∈ rows ∧ row.id ≠ id) ∨ row = ⟨id, ciphertext⟩ := by
  rw [upsertRow] at h
  split at h
  · exact (mem_updateRow h).imp_right And.left
  · rename_i hnew
    rcases List.mem_append.1 h with hold | hlast
    · exact .inl ⟨hold, fun hid => hnew ⟨row, hold, hid⟩⟩
    · exact .inr (List.mem_singleton.1 hlast)

@[simp] theorem setRows_rows_self (rows : List Row) : (s.setRows kind rows).rows kind = rows := by
  simp [State.setRows]

theorem setRows_rows_of_ne {other : Kind} (h : other ≠ kind) (rows : List Row) :
    (s.setRows kind rows).rows other = s.rows other := by
  simp [State.setRows, h]

/-- One row has got a ciphertext; all others are as they were, or gone. -/
def Puts (kind : Kind) (id : SecretId) (ciphertext : Bytes) (s s' : State) : Prop :=
  ∀ other, ∀ row ∈ s'.rows other,
    (row ∈ s.rows other ∧ ¬ (other = kind ∧ row.id = id)) ∨
      (other = kind ∧ row = ⟨id, ciphertext⟩)

theorem Puts.setRows
    (h : ∀ row ∈ rows, (row ∈ s.rows kind ∧ row.id ≠ id) ∨ row = ⟨id, ciphertext⟩) :
    Puts kind id ciphertext s (s.setRows kind rows) := by
  intro other row hrow
  by_cases hother : other = kind
  · subst hother
    rw [setRows_rows_self] at hrow
    rcases h row hrow with ⟨hold, hid⟩ | hnew
    · exact .inl ⟨hold, fun hsame => hid hsame.2⟩
    · exact .inr ⟨rfl, hnew⟩
  · rw [setRows_rows_of_ne hother] at hrow
    exact .inl ⟨hrow, fun hsame => hother hsame.1⟩

theorem puts_update (s : State) (kind : Kind) (id : SecretId) (ciphertext : Bytes) :
    Puts kind id ciphertext s (s.setRows kind (updateRow id ciphertext (s.rows kind))) :=
  .setRows fun _ hrow => (mem_updateRow hrow).imp_right And.left

theorem puts_upsert (s : State) (kind : Kind) (id : SecretId) (ciphertext : Bytes) :
    Puts kind id ciphertext s (s.setRows kind (upsertRow id ciphertext (s.rows kind))) :=
  .setRows fun _ hrow => mem_upsertRow hrow

theorem puts_insert (s : State) {kind : Kind} {id : SecretId} (ciphertext : Bytes)
    (hnew : ¬ HasRow id (s.rows kind)) :
    Puts kind id ciphertext s (s.setRows kind (s.rows kind ++ [⟨id, ciphertext⟩])) := by
  apply Puts.setRows
  intro row hrow
  rcases List.mem_append.1 hrow with hold | hlast
  · exact .inl ⟨hold, fun hid => hnew ⟨row, hold, hid⟩⟩
  · exact .inr (List.mem_singleton.1 hlast)

theorem mem_delete {other : Kind} (h : row ∈ (delete s kind id).rows other) :
    row ∈ s.rows other := by
  rw [delete] at h
  by_cases hother : other = kind
  · subst hother
    rw [setRows_rows_self] at h
    exact (List.mem_filter.1 h).1
  · rwa [setRows_rows_of_ne hother] at h

/-- A row can be read, with whatever in it. -/
def Readable (aead : Aead κ) (keys : Keys κ) (ciphertext : Bytes) : Prop :=
  ∃ plaintext, decrypt aead (some keys) ciphertext = .ok plaintext

/-! ## What every run keeps -/

/-- The secrets that a rotation has still to write can be read, and whatever is not under the
primary key is among them, once the table has been loaded. -/
def TaskInv (aead : Aead κ) (keys : Keys κ) (s : State) : Task → Prop
  | .loadWebhooks loaded => (∀ secret ∈ loaded, Readable aead keys secret.ciphertext) ∧
    ∀ row ∈ s.rows .totp, UnderPrimary keys row.ciphertext ∨
      ∃ secret ∈ loaded, secret.kind = .totp ∧ secret.id = row.id
  | .store remaining => (∀ secret ∈ remaining, Readable aead keys secret.ciphertext) ∧
    ∀ kind, ∀ row ∈ s.rows kind, UnderPrimary keys row.ciphertext ∨
      ∃ secret ∈ remaining, secret.kind = kind ∧ secret.id = row.id
  | .rotated => AllUnderPrimary keys s
  | .failed _ _ => False
  | _ => True

structure Inv (aead : Aead κ) (keys : Keys κ) (s : State) : Prop where
  readable : ∀ kind, ∀ row ∈ s.rows kind, Readable aead keys row.ciphertext
  tasks : ∀ task ∈ s.tasks, TaskInv aead keys s task

/-- Every row is an old one, or under the primary key and readable. -/
def Refreshes (aead : Aead κ) (keys : Keys κ) (s s' : State) : Prop :=
  ∀ kind, ∀ row ∈ s'.rows kind, row ∈ s.rows kind ∨
    (UnderPrimary keys row.ciphertext ∧ Readable aead keys row.ciphertext)

theorem Puts.refreshes {plaintext : Bytes} (h : Puts kind id ciphertext s s')
    (hsealed : encrypt aead (some keys) nonce plaintext = .ok ciphertext) :
    Refreshes aead keys s s' := by
  intro other row hrow
  rcases h other row hrow with ⟨hold, -⟩ | ⟨-, rfl⟩
  · exact .inl hold
  · have hspec := encrypt_spec hsealed
    exact .inr ⟨hspec.1, plaintext, hspec.2⟩

theorem TaskInv.refreshes (hrefreshes : Refreshes aead keys s s')
    (h : TaskInv aead keys s task) : TaskInv aead keys s' task := by
  cases task with
  | loadWebhooks loaded =>
    refine ⟨h.1, fun row hrow => ?_⟩
    rcases hrefreshes .totp row hrow with hold | hnew
    · exact h.2 row hold
    · exact .inl hnew.1
  | store remaining =>
    refine ⟨h.1, fun kind row hrow => ?_⟩
    rcases hrefreshes kind row hrow with hold | hnew
    · exact h.2 kind row hold
    · exact .inl hnew.1
  | rotated =>
    intro kind row hrow
    rcases hrefreshes kind row hrow with hold | hnew
    · exact h kind row hold
    · exact hnew.1
  | failed secret err => exact h
  | _ => trivial

/-- Refreshing the rows keeps the invariant of every rotation. -/
theorem Inv.refreshes (hinv : Inv aead keys s) (hrefreshes : Refreshes aead keys s s')
    (hsame : s'.tasks = s.tasks) : Inv aead keys s' := by
  constructor
  · intro kind row hrow
    rcases hrefreshes kind row hrow with hold | hnew
    · exact hinv.readable kind row hold
    · exact hnew.2
  · intro task htask
    rw [hsame] at htask
    exact (hinv.tasks task htask).refreshes hrefreshes

theorem Inv.set (hinv : Inv aead keys s) (hnext : TaskInv aead keys s next) :
    Inv aead keys (s.set place next) :=
  ⟨hinv.readable, Tasks.forall_set (TaskInv aead keys s) hinv.tasks hnext⟩

theorem readable_load (hinv : Inv aead keys s) (kind : Kind) :
    ∀ secret ∈ s.load kind, Readable aead keys secret.ciphertext := by
  intro secret hsecret
  obtain ⟨row, hrow, rfl⟩ := List.mem_map.1 hsecret
  exact hinv.readable kind row hrow

/-- A loaded table has all its rows to be written. -/
theorem mem_load (hrow : row ∈ s.rows kind) :
    ∃ secret ∈ s.load kind, secret.kind = kind ∧ secret.id = row.id :=
  ⟨_, List.mem_map_of_mem hrow, rfl, rfl⟩

theorem inv_loadWebhooks (hinv : Inv aead keys s) {loaded : List StoredSecret}
    (htask : TaskInv aead keys s (.loadWebhooks loaded)) :
    TaskInv aead keys s (.store (loaded ++ s.load .webhook)) := by
  constructor
  · intro secret hsecret
    rcases List.mem_append.1 hsecret with hbefore | hnow
    · exact htask.1 secret hbefore
    · exact readable_load hinv .webhook secret hnow
  · intro kind row hrow
    cases kind with
    | totp =>
      rcases htask.2 row hrow with hprimary | ⟨secret, hsecret, hsame⟩
      · exact .inl hprimary
      · exact .inr ⟨secret, List.mem_append_left _ hsecret, hsame⟩
    | webhook =>
      obtain ⟨secret, hsecret, hsame⟩ := mem_load hrow
      exact .inr ⟨secret, List.mem_append_right _ hsecret, hsame⟩

/-- A secret that can be read is written back under the primary key. -/
theorem reencrypt_of_readable (hreadable : Readable aead keys ciphertext) (nonce : Nonce) :
    ∃ plaintext sealed, decrypt aead (some keys) ciphertext = .ok plaintext ∧
      encrypt aead (some keys) nonce plaintext = .ok sealed ∧
      reencrypt aead (some keys) nonce ciphertext = .ok sealed := by
  obtain ⟨plaintext, hplaintext⟩ := hreadable
  obtain ⟨sealed, hsealed⟩ := encrypt_ok aead keys nonce plaintext
  exact ⟨plaintext, sealed, hplaintext, hsealed, (reencrypt_of_decrypt hplaintext).trans hsealed⟩

theorem inv_store (hinv : Inv aead keys s) {secret : StoredSecret} {remaining : List StoredSecret}
    (htask : TaskInv aead keys s (.store (secret :: remaining))) {sealed plaintext : Bytes}
    (hsealed : encrypt aead (some keys) nonce plaintext = .ok sealed) :
    Inv aead keys ((s.setRows secret.kind
      (updateRow secret.id sealed (s.rows secret.kind))).set place (.store remaining)) := by
  have hputs := puts_update s secret.kind secret.id sealed
  apply (hinv.refreshes (hputs.refreshes hsealed) rfl).set
  refine ⟨fun other hother => htask.1 other (List.mem_cons_of_mem _ hother), ?_⟩
  intro kind row hrow
  rcases hputs kind row hrow with ⟨hold, hother⟩ | ⟨-, rfl⟩
  · rcases htask.2 kind row hold with hprimary | ⟨found, hfound, hkind, hid⟩
    · exact .inl hprimary
    · -- the row is not the one that has been written
      rcases List.mem_cons.1 hfound with rfl | hrest
      · exact absurd ⟨hkind.symm, hid.symm⟩ hother
      · exact .inr ⟨found, hrest, hkind, hid⟩
  · exact .inl (encrypt_spec hsealed).1

theorem inv_proceed (hinv : Inv aead keys s) (htask : TaskInv aead keys s task) :
    Inv aead keys (proceed aead keys s place nonce task) := by
  cases task with
  | loadTotp =>
    apply hinv.set
    exact ⟨readable_load hinv .totp, fun row hrow => .inr (mem_load hrow)⟩
  | loadWebhooks loaded => exact hinv.set (inv_loadWebhooks hinv htask)
  | store remaining =>
    cases remaining with
    | nil =>
      apply hinv.set
      intro kind row hrow
      rcases htask.2 kind row hrow with hprimary | ⟨secret, hsecret, -⟩
      · exact hprimary
      · cases hsecret
    | cons secret remaining =>
      obtain ⟨plaintext, sealed, -, hsealed, hreencrypt⟩ :=
        reencrypt_of_readable (htask.1 secret List.mem_cons_self) nonce
      simp only [proceed, hreencrypt]
      exact inv_store hinv htask hsealed
  | rotated => exact hinv
  | failed secret err => exact hinv
  | crashed => exact hinv

/-- Every step keeps every rotation on its way, and every row readable. -/
theorem inv_step (hinv : Inv aead keys s) (a : Step) : Inv aead keys (step aead keys s a) := by
  cases a with
  | enroll userId secret nonce =>
    obtain ⟨sealed, hsealed⟩ := encrypt_ok aead keys nonce secret
    simp only [step, enroll, hsealed]
    exact hinv.refreshes ((puts_upsert s .totp userId sealed).refreshes hsealed) rfl
  | createWebhook id secret nonce =>
    obtain ⟨sealed, hsealed⟩ := encrypt_ok aead keys nonce secret
    simp only [step, createWebhook, hsealed]
    split
    · exact hinv
    · rename_i hnew
      exact hinv.refreshes ((puts_insert s sealed hnew).refreshes hsealed) rfl
  | delete kind id => exact hinv.refreshes (fun _ _ hrow => .inl (mem_delete hrow)) rfl
  | rotate => exact ⟨hinv.readable, Tasks.forall_append_one _ hinv.tasks trivial⟩
  | crash place =>
    simp only [step]
    split
    · exact hinv.set trivial
    · exact hinv.set trivial
    · exact hinv.set trivial
    · exact hinv
  | proceed place nonce =>
    simp only [step]
    cases htask : s.tasks[place]? with
    | none => exact hinv
    | some task => exact inv_proceed hinv (hinv.tasks task (List.mem_of_getElem? htask))

/-! ### A rotation that is left alone -/

theorem step_proceed (htask : s.tasks[place]? = some task) :
    step aead keys s (.proceed place nonce) = proceed aead keys s place nonce task := by
  simp only [step, htask]

theorem set_tasks_self (h : s.tasks[place]? = some task) :
    (s.set place next).tasks[place]? = some next := by
  obtain ⟨hlt, -⟩ := List.getElem?_eq_some_iff.1 h
  simp [State.set, hlt]

/-- It writes one row after the other. -/
theorem run_store {remaining : List StoredSecret} (hinv : Inv aead keys s)
    (htask : s.tasks[place]? = some (.store remaining)) {nonces : List Nonce}
    (hnonces : nonces.length = remaining.length + 1) :
    (Runs.run (step aead keys) s (nonces.map (.proceed place))).tasks[place]? = some .rotated ∧
      Inv aead keys (Runs.run (step aead keys) s (nonces.map (.proceed place))) := by
  induction remaining generalizing s nonces with
  | nil =>
    obtain ⟨nonce, rfl⟩ := List.length_eq_one_iff.1 hnonces
    simp only [List.map_cons, List.map_nil, Runs.run]
    refine ⟨?_, inv_step hinv _⟩
    rw [step_proceed htask]
    exact set_tasks_self htask
  | cons secret remaining ih =>
    obtain ⟨nonce, rest, rfl⟩ := List.exists_cons_of_length_eq_add_one hnonces
    simp only [List.map_cons, Runs.run]
    apply ih (inv_step hinv _)
    · have hflight := hinv.tasks _ (List.mem_of_getElem? htask)
      obtain ⟨plaintext, sealed, -, -, hreencrypt⟩ :=
        reencrypt_of_readable (hflight.1 secret List.mem_cons_self) nonce
      rw [step_proceed htask]
      simp only [proceed, hreencrypt]
      exact set_tasks_self (s := s.setRows _ _) htask
    · simpa using hnonces

theorem completes_of_inv (hinv : Inv aead keys s) : Completes aead keys s := by
  intro nonces hnonces
  obtain ⟨first, rest, rfl⟩ := List.exists_cons_of_length_eq_add_one hnonces
  simp only [List.length_cons, Nat.add_right_cancel_iff] at hnonces
  obtain ⟨second, rest, rfl⟩ := List.exists_cons_of_length_eq_add_one hnonces
  simp only [List.length_cons, Nat.add_right_cancel_iff] at hnonces
  have hstarted : (step aead keys s .rotate).tasks[s.tasks.length]? = some .loadTotp := by
    simp [step]
  have hloaded : (step aead keys (step aead keys s .rotate)
      (.proceed s.tasks.length first)).tasks[s.tasks.length]? =
        some (.loadWebhooks (s.load .totp)) := by
    rw [step_proceed hstarted]
    exact set_tasks_self hstarted
  have hstoring : (step aead keys (step aead keys (step aead keys s .rotate)
      (.proceed s.tasks.length first)) (.proceed s.tasks.length second)).tasks[s.tasks.length]? =
        some (.store (s.load .totp ++ s.load .webhook)) := by
    rw [step_proceed hloaded, proceed, set_tasks_self hloaded, step_proceed hstarted]
    rfl
  have hdone := run_store (inv_step (inv_step (inv_step hinv _) _) _) hstoring
    (by simpa [State.load] using hnonces)
  refine ⟨hdone.1, ?_⟩
  exact hdone.2.tasks _ (List.mem_of_getElem? hdone.1)

/-- Only that the secrets are the last ones is in question. -/
theorem kept_iff_decrypts (hinv : Inv aead keys s) :
    Kept aead keys s ↔ Decrypts aead keys s :=
  ⟨Kept.decrypts, fun hdecrypts =>
    ⟨hdecrypts, hinv.tasks .rotated, completes_of_inv hinv⟩⟩

theorem inv_stored {written : List Written} {table : Kind → List Row}
    (h : Decrypts aead keys (stored table written)) : Inv aead keys (stored table written) where
  readable kind row hrow := by
    obtain ⟨written, -, hdecrypt⟩ := h kind row hrow
    exact ⟨_, hdecrypt⟩
  tasks _ htask := absurd htask List.not_mem_nil

/-! ### Which secret a row holds -/

theorem lastWritten_write_self (s : State) (kind : Kind) (id : SecretId) (plaintext : Bytes) :
    (s.write kind id plaintext).lastWritten kind id = some ⟨kind, id, plaintext⟩ := by
  simp [State.lastWritten, State.write]

theorem lastWritten_write_of_ne {other : Kind} {otherId : SecretId}
    (h : ¬ (other = kind ∧ otherId = id)) (plaintext : Bytes) :
    (s.write kind id plaintext).lastWritten other otherId = s.lastWritten other otherId := by
  have hne : ¬ (kind = other ∧ id = otherId) := fun hsame => h ⟨hsame.1.symm, hsame.2.symm⟩
  simp only [State.lastWritten, State.write]
  rw [List.find?_cons_of_neg (by simpa using hne)]

/-- What the server stores is in its row, and the other rows are as they were. -/
theorem decrypts_write {plaintext : Bytes} (hdecrypts : Decrypts aead keys s)
    (hputs : Puts kind id ciphertext s s') (hwritten : s'.written = s.written)
    (hsealed : encrypt aead (some keys) nonce plaintext = .ok ciphertext) :
    Decrypts aead keys (s'.write kind id plaintext) := by
  intro other row hrow
  rcases hputs other row hrow with ⟨hold, hother⟩ | ⟨rfl, rfl⟩
  · obtain ⟨written, hlast, hdecrypt⟩ := hdecrypts other row hold
    refine ⟨written, ?_, hdecrypt⟩
    rw [lastWritten_write_of_ne hother, ← hlast, State.lastWritten, State.lastWritten, hwritten]
  · exact ⟨_, lastWritten_write_self s' other id plaintext, (encrypt_spec hsealed).2⟩

/-- A row that is written back is the last one stored exactly when it still holds what was
loaded. -/
theorem decrypts_store (hdecrypts : Decrypts aead keys s) {secret : StoredSecret}
    {sealed plaintext : Bytes} {remaining : List StoredSecret}
    (hplaintext : decrypt aead (some keys) secret.ciphertext = .ok plaintext)
    (hsealed : encrypt aead (some keys) nonce plaintext = .ok sealed) :
    Decrypts aead keys ((s.setRows secret.kind
        (updateRow secret.id sealed (s.rows secret.kind))).set place (.store remaining)) ↔
      ∀ row ∈ s.rows secret.kind, row.id = secret.id →
        decrypt aead (some keys) row.ciphertext = decrypt aead (some keys) secret.ciphertext := by
  have hopened := (encrypt_spec hsealed).2
  constructor
  · intro hafter row hrow hid
    have hnew : (⟨secret.id, sealed⟩ : Row) ∈
        updateRow secret.id sealed (s.rows secret.kind) := by
      refine List.mem_map.2 ⟨row, hrow, ?_⟩
      rw [if_pos hid]
    obtain ⟨written, hlast, hdecrypt⟩ := hafter secret.kind ⟨secret.id, sealed⟩ (by
      show _ ∈ (s.setRows secret.kind _).rows secret.kind
      rwa [setRows_rows_self])
    obtain ⟨before, hbefore, hrowDecrypt⟩ := hdecrypts secret.kind row hrow
    -- the two were written last in the same row
    have hsame : some before = some written := by
      rw [← hbefore, ← hlast, hid]
      rfl
    rw [hrowDecrypt, hplaintext, Option.some.inj hsame, ← hdecrypt, hopened]
  · intro h kind row hrow
    rcases puts_update s secret.kind secret.id sealed kind row hrow with ⟨hold, -⟩ | ⟨rfl, rfl⟩
    · exact hdecrypts kind row hold
    · have hmem : HasRow secret.id (s.rows secret.kind) := by
        have hrow : (⟨secret.id, sealed⟩ : Row) ∈
            (s.setRows secret.kind (updateRow secret.id sealed (s.rows secret.kind))).rows
              secret.kind := hrow
        rw [setRows_rows_self] at hrow
        rcases mem_updateRow hrow with ⟨-, hne⟩ | ⟨-, hmem⟩
        · exact absurd rfl hne
        · exact hmem
      obtain ⟨old, hold, hid⟩ := hmem
      obtain ⟨written, hlast, hdecrypt⟩ := hdecrypts secret.kind old hold
      refine ⟨written, hid ▸ hlast, ?_⟩
      rw [hopened, ← hplaintext, ← h old hold hid, hdecrypt]

/-- A step leaves every secret the last one stored exactly when it fits. -/
theorem decrypts_step (hinv : Inv aead keys s) (hdecrypts : Decrypts aead keys s) (a : Step) :
    Decrypts aead keys (step aead keys s a) ↔ StepFits aead keys s a := by
  cases a with
  | enroll userId secret nonce =>
    refine iff_of_true ?_ trivial
    obtain ⟨sealed, hsealed⟩ := encrypt_ok aead keys nonce secret
    simp only [step, enroll, hsealed]
    exact decrypts_write hdecrypts (puts_upsert s .totp userId sealed) rfl hsealed
  | createWebhook id secret nonce =>
    refine iff_of_true ?_ trivial
    obtain ⟨sealed, hsealed⟩ := encrypt_ok aead keys nonce secret
    simp only [step, createWebhook, hsealed]
    split
    · exact hdecrypts
    · rename_i hnew
      exact decrypts_write hdecrypts (puts_insert s sealed hnew) rfl hsealed
  | delete kind id =>
    exact iff_of_true (fun other row hrow => hdecrypts other row (mem_delete hrow)) trivial
  | rotate => exact iff_of_true hdecrypts trivial
  | crash place =>
    refine iff_of_true ?_ trivial
    simp only [step]
    split <;> exact hdecrypts
  | proceed place nonce =>
    simp only [step, StepFits]
    cases htask : s.tasks[place]? with
    | none => exact iff_of_true hdecrypts nofun
    | some task =>
      simp only [Option.some.injEq, forall_eq']
      cases task with
      | store remaining =>
        cases remaining with
        | nil => exact iff_of_true hdecrypts trivial
        | cons secret remaining =>
          have hflight := hinv.tasks _ (List.mem_of_getElem? htask)
          obtain ⟨plaintext, sealed, hplaintext, hsealed, hreencrypt⟩ :=
            reencrypt_of_readable (hflight.1 secret List.mem_cons_self) nonce
          simp only [proceed, hreencrypt]
          exact decrypts_store hdecrypts hplaintext hsealed
      | _ => exact iff_of_true hdecrypts trivial

end Rows

/-- Rotations lose nothing exactly when every secret is the last one stored to begin with, and every
row that a rotation writes back still holds what the rotation has loaded. -/
theorem losesNothing_iff {κ : Type} (aead : Aead κ) (keys : Keys κ) (rows : Kind → List Row)
    (written : List Written) (steps : List Step) :
    (∀ earlier later, steps = earlier ++ later →
        Kept aead keys (Runs.run (step aead keys) (stored rows written) earlier)) ↔
      Decrypts aead keys (stored rows written) ∧
        Runs.Throughout (step aead keys) (StepFits aead keys) (stored rows written) steps := by
  rw [Runs.always_iff]
  have hiff (hstart : Decrypts aead keys (stored rows written)) :
      Runs.Throughout (step aead keys) (fun s a => Kept aead keys (step aead keys s a))
          (stored rows written) steps ↔
        Runs.Throughout (step aead keys) (StepFits aead keys) (stored rows written) steps := by
    apply Runs.throughout_iff (I := fun s : State => Inv aead keys s ∧ Decrypts aead keys s)
    · rintro s a ⟨hinv, -⟩ hafter
      exact ⟨inv_step hinv a, hafter.decrypts⟩
    · rintro s a ⟨hinv, hdecrypts⟩
      rw [kept_iff_decrypts (inv_step hinv a)]
      exact decrypts_step hinv hdecrypts a
    · exact ⟨inv_stored hstart, hstart⟩
  constructor
  · rintro ⟨hstart, hsteps⟩
    exact ⟨hstart.decrypts, (hiff hstart.decrypts).1 hsteps⟩
  · rintro ⟨hstart, hsteps⟩
    exact ⟨(kept_iff_decrypts (inv_stored hstart)).2 hstart, (hiff hstart).2 hsteps⟩

/-! ### A secret that is overwritten -/

/-- A cipher with a tag of sixteen bytes. -/
def taggedXor : Aead UInt8 where
  encrypt key _ plaintext := plaintext.map (· ^^^ key) ++ List.replicate 16 key
  decrypt key _ ciphertext :=
    let masked := ciphertext.take (ciphertext.length - 16)
    if ciphertext = masked ++ List.replicate 16 key then some (masked.map (· ^^^ key)) else none
  decrypt_encrypt key _ plaintext := by simp [Function.comp_def]
  encrypt_ne_nil key _ plaintext := by simp

/-- A new primary key before the old one. -/
def twoKeys : Keys UInt8 where
  primaryId := "v2"
  primary := 0xBB
  others := [("v1", 0xAA)]
  idLength := by decide
  distinct := by decide

def zeroNonce : Nonce := ⟨List.replicate 12 0, rfl⟩

/-- Ada's secret, sealed under the old key. -/
def adasSecret : Bytes :=
  0x01 :: 2 :: (utf8 "v1" ++ (zeroNonce.1 ++ taggedXor.encrypt 0xAA zeroNonce [1, 2, 3]))

def adasRows : Kind → List Row
  | .totp => [⟨7, adasSecret⟩]
  | .webhook => []

def adasWritten : List Written := [⟨.totp, 7, [1, 2, 3]⟩]

/-- Ada enrolls again between the reads of a rotation and its write. -/
def enrollWhileRotating : List Step :=
  [.rotate, .proceed 0 zeroNonce, .proceed 0 zeroNonce, .enroll 7 [9, 9, 9] zeroNonce,
    .proceed 0 zeroNonce, .proceed 0 zeroNonce]

/-- The rotation gets to its end, and Ada's row holds the secret that she had before. -/
theorem enrollment_is_overwritten :
    let after := Runs.run (step taggedXor twoKeys) (stored adasRows adasWritten) enrollWhileRotating
    after.tasks = [.rotated] ∧ after.lastWritten .totp 7 = some ⟨.totp, 7, [9, 9, 9]⟩ ∧
      ((after.rows .totp).map fun row =>
        (row.id, decrypt taggedXor (some twoKeys) row.ciphertext)) = [(7, .ok [1, 2, 3])] ∧
      ¬ Kept taggedXor twoKeys after := by
  intro after
  have hlast : after.lastWritten .totp 7 = some ⟨.totp, 7, [9, 9, 9]⟩ := by decide +kernel
  have hrows : ((after.rows .totp).map fun row =>
      (row.id, decrypt taggedXor (some twoKeys) row.ciphertext)) = [(7, .ok [1, 2, 3])] := by
    decide +kernel
  refine ⟨by decide +kernel, hlast, hrows, fun h => ?_⟩
  obtain ⟨row, hrow, hheld⟩ := List.map_eq_singleton_iff.1 hrows
  obtain ⟨hid, hdecrypt⟩ := Prod.mk.inj hheld
  obtain ⟨written, hwritten, hsame⟩ := h.decrypts .totp row (by rw [hrow]; exact List.mem_cons_self)
  rw [hid, hlast] at hwritten
  obtain rfl := Option.some.inj hwritten
  rw [hdecrypt] at hsame
  cases hsame

end Edda.Cli.SecretRotation
