import Edda.Domain.Access
import Edda.Domain.Registration
import Edda.Support.RustText
import Edda.Support.Table

/-!
# Instance settings

What an administrator can change of an instance while it runs. Each setting has a default, and a
row of the table `instance_settings` overrides it. A row that is not understood is ignored.

The settings that are in effect do not depend on the order of the rows (`resolve_perm`), and are
those of a save whose rows are in the table, whatever else is stored (`resolve_of_rows`).
-/

set_option autoImplicit false

namespace Edda.Domain

open Edda.Support Edda.Support.RustText

/-! ## Values -/

def parseBool (value : String) : Option Bool :=
  let text := trimmedLower value
  if text ∈ ["true", "1", "yes", "on"] then some true
  else if text ∈ ["false", "0", "no", "off"] then some false
  else none

def boolStr (flag : Bool) : String := if flag then "true" else "false"

/-! ## Settings -/

/-- A row of `instance_settings`: its key and its value. -/
abbrev SettingRow := String × String

def registrationModeKey : String := "registration_mode"

def defaultRepoVisibilityKey : String := "default_repo_visibility"

def welcomeMessageKey : String := "welcome_message"

def requireSigninToViewKey : String := "require_signin_to_view"

def maxWelcomeMessageLen : Nat := 4000

structure InstanceSettingsDefaults where
  registrationMode : RegistrationMode
  defaultRepoVisibility : Visibility
  requireSigninToView : Bool
  deriving DecidableEq, Repr

structure InstanceSettings where
  registrationMode : RegistrationMode
  defaultRepoVisibility : Visibility
  welcomeMessage : Option String
  requireSigninToView : Bool
  deriving DecidableEq, Repr

/-- A message that is shown: without the white space around it, and none if nothing is left. -/
def shownMessage (value : String) : Option String :=
  let trimmed := trim value.toList
  if trimmed.isEmpty then none else some (String.ofList trimmed)

/-- The settings after one more row. -/
def InstanceSettings.override (settings : InstanceSettings) (row : SettingRow) :
    InstanceSettings :=
  if row.1 = registrationModeKey then
    { settings with
      registrationMode := (RegistrationMode.parse row.2).getD settings.registrationMode }
  else if row.1 = defaultRepoVisibilityKey then
    { settings with
      defaultRepoVisibility :=
        (Visibility.fromDbStr (String.ofList (trim row.2.toList))).getD
          settings.defaultRepoVisibility }
  else if row.1 = welcomeMessageKey then
    { settings with welcomeMessage := shownMessage row.2 }
  else if row.1 = requireSigninToViewKey then
    { settings with
      requireSigninToView := (parseBool row.2).getD settings.requireSigninToView }
  else settings

def InstanceSettingsDefaults.settings (defaults : InstanceSettingsDefaults) : InstanceSettings :=
  ⟨defaults.registrationMode, defaults.defaultRepoVisibility, none, defaults.requireSigninToView⟩

def InstanceSettings.resolve (defaults : InstanceSettingsDefaults) (overrides : List SettingRow) :
    InstanceSettings :=
  overrides.foldl InstanceSettings.override defaults.settings

def InstanceSettings.toRows (settings : InstanceSettings) : List SettingRow :=
  [(registrationModeKey, settings.registrationMode.asDbStr),
    (defaultRepoVisibilityKey, settings.defaultRepoVisibility.asDbStr),
    (welcomeMessageKey, settings.welcomeMessage.getD ""),
    (requireSigninToViewKey, boolStr settings.requireSigninToView)]

def InstanceSettings.validate (settings : InstanceSettings) : Except String Unit :=
  match settings.welcomeMessage with
  | none => .ok ()
  | some message =>
    if message.length > maxWelcomeMessageLen then
      .error ("welcome message is " ++ toString message.length ++ " characters; the maximum is " ++
        toString maxWelcomeMessageLen)
    else .ok ()

/-! ## The table -/

/-- `InstanceSettingsRepo::upsert`. -/
def upsert (rows : List SettingRow) (row : SettingRow) : List SettingRow :=
  if row.1 ∈ rows.map Prod.fst then
    Table.update rows (fun old => old.1 = row.1) fun old => (old.1, row.2)
  else rows ++ [row]

/-- The rows of a save, in one transaction. -/
def saveRows (rows : List SettingRow) (settings : InstanceSettings) : List SettingRow :=
  settings.toRows.foldl upsert rows

theorem keys_distinct :
    registrationModeKey ≠ defaultRepoVisibilityKey ∧ registrationModeKey ≠ welcomeMessageKey ∧
      registrationModeKey ≠ requireSigninToViewKey ∧
      defaultRepoVisibilityKey ≠ welcomeMessageKey ∧
      defaultRepoVisibilityKey ≠ requireSigninToViewKey ∧
      welcomeMessageKey ≠ requireSigninToViewKey := by
  decide

section Rows

variable {rows : List SettingRow}

theorem lookup_upsert (rows : List SettingRow) (row : SettingRow) (key : String) :
    Table.lookup Prod.fst (upsert rows row) key =
      if key = row.1 then some row else Table.lookup Prod.fst rows key := by
  have hset : ∀ old : SettingRow, (old.1, row.2).1 = old.1 := fun _ => rfl
  unfold upsert
  split
  · rename_i hmem
    rw [Table.lookup_update hset]
    by_cases hkey : key = row.1
    · cases hfind : Table.lookup Prod.fst rows key with
      | none => exact absurd (hkey ▸ hmem) (Table.lookup_eq_none.1 hfind)
      | some old =>
        have hold : old.1 = row.1 := (Table.mem_of_lookup hfind).2.trans hkey
        simp [hkey, hold]
    · rw [if_neg hkey]
      cases hfind : Table.lookup Prod.fst rows key with
      | none => rfl
      | some old =>
        have hold : old.1 ≠ row.1 := fun heq => hkey ((Table.mem_of_lookup hfind).2.symm.trans heq)
        simp [hold]
  · rename_i hnew
    rw [Table.lookup_append]
    by_cases hkey : key = row.1
    · have hnone : Table.lookup Prod.fst rows key = none :=
        Table.lookup_eq_none.2 (hkey ▸ hnew)
      rw [hnone, if_pos hkey, if_pos hkey.symm]
      rfl
    · rw [if_neg hkey, if_neg (Ne.symm hkey), Option.or_none]

theorem keyed_upsert (row : SettingRow) (h : Table.Keyed Prod.fst rows) :
    Table.Keyed Prod.fst (upsert rows row) := by
  unfold upsert
  split
  · exact h.update fun _ => rfl
  · rename_i hnew
    exact h.append hnew

theorem keyed_saveRows (settings : InstanceSettings) (h : Table.Keyed Prod.fst rows) :
    Table.Keyed Prod.fst (saveRows rows settings) :=
  keyed_upsert _ (keyed_upsert _ (keyed_upsert _ (keyed_upsert _ h)))

/-- After a save each of its rows is in the table. -/
theorem lookup_saveRows (rows : List SettingRow) (settings : InstanceSettings) :
    ∀ row ∈ settings.toRows, Table.lookup Prod.fst (saveRows rows settings) row.1 = some row := by
  obtain ⟨hvisibility, hmode, hmode', hmessage, hmessage', hsignin⟩ := keys_distinct
  intro row hrow
  simp only [InstanceSettings.toRows, List.mem_cons, List.not_mem_nil, or_false] at hrow
  simp only [saveRows, InstanceSettings.toRows, List.foldl_cons, List.foldl_nil, lookup_upsert]
  rcases hrow with rfl | rfl | rfl | rfl
  · simp [hvisibility, hmode, hmode']
  · simp [hmessage, hmessage']
  · simp [hsignin]
  · simp

/-! ## What is in effect -/

/-- Settings with the rows that a lookup finds. -/
def InstanceSettings.overriddenBy (settings : InstanceSettings)
    (find : String → Option SettingRow) : InstanceSettings where
  registrationMode := ((find registrationModeKey).bind fun row =>
    RegistrationMode.parse row.2).getD settings.registrationMode
  defaultRepoVisibility := ((find defaultRepoVisibilityKey).bind fun row =>
    Visibility.fromDbStr (String.ofList (trim row.2.toList))).getD settings.defaultRepoVisibility
  welcomeMessage := match find welcomeMessageKey with
    | none => settings.welcomeMessage
    | some row => shownMessage row.2
  requireSigninToView := ((find requireSigninToViewKey).bind fun row =>
    parseBool row.2).getD settings.requireSigninToView

/-- Overriding row by row is overriding by lookups, as no two rows have a key. -/
theorem foldl_override (hkeys : Table.Keyed Prod.fst rows) (settings : InstanceSettings) :
    rows.foldl InstanceSettings.override settings =
      settings.overriddenBy (Table.lookup Prod.fst rows) := by
  obtain ⟨hvisibility, hmode, hmode', hmessage, hmessage', hsignin⟩ := keys_distinct
  induction rows generalizing settings with
  | nil => rfl
  | cons row rest ih =>
    obtain ⟨hnew, hrest⟩ := List.nodup_cons.1 hkeys
    have hnone : Table.lookup Prod.fst rest row.1 = none := Table.lookup_eq_none.2 hnew
    have hcons : ∀ key, Table.lookup Prod.fst (row :: rest) key =
        if row.1 = key then some row else Table.lookup Prod.fst rest key := by
      intro key
      by_cases hkey : row.1 = key <;> simp [Table.lookup, hkey]
    rw [List.foldl_cons, ih hrest]
    simp only [InstanceSettings.overriddenBy, hcons, InstanceSettings.override]
    -- the row is of one of the four keys, which the rest does not have, or of none of them
    by_cases hrow : row.1 = registrationModeKey
    · rw [hrow] at hnone
      simp [hrow, hnone, hvisibility, hmode, hmode']
    · by_cases hrow₂ : row.1 = defaultRepoVisibilityKey
      · rw [hrow₂] at hnone
        simp [hrow₂, hnone, hvisibility.symm, hmessage, hmessage']
      · by_cases hrow₃ : row.1 = welcomeMessageKey
        · rw [hrow₃] at hnone
          simp [hrow₃, hnone, hmode.symm, hmessage.symm, hsignin]
        · by_cases hrow₄ : row.1 = requireSigninToViewKey
          · rw [hrow₄] at hnone
            simp [hrow₄, hnone, hmode'.symm, hmessage'.symm, hsignin.symm]
          · simp [hrow, hrow₂, hrow₃, hrow₄]

/-- The order of the rows does not matter. -/
theorem resolve_perm {rows' : List SettingRow} (hkeys : Table.Keyed Prod.fst rows)
    (hperm : rows.Perm rows') (defaults : InstanceSettingsDefaults) :
    InstanceSettings.resolve defaults rows' = .resolve defaults rows := by
  have hkeys' : Table.Keyed Prod.fst rows' := (hperm.map Prod.fst).nodup_iff.1 hkeys
  have hlookup : Table.lookup Prod.fst rows' = Table.lookup Prod.fst rows := by
    funext key
    cases hfind : Table.lookup Prod.fst rows key with
    | none =>
      have hnone := Table.lookup_eq_none.1 hfind
      exact Table.lookup_eq_none.2 fun hmem => hnone ((hperm.map Prod.fst).mem_iff.2 hmem)
    | some row =>
      obtain ⟨hmem, rfl⟩ := Table.mem_of_lookup hfind
      exact Table.lookup_of_mem hkeys' (hperm.mem_iff.1 hmem)
  simp only [InstanceSettings.resolve, foldl_override hkeys, foldl_override hkeys', hlookup]

theorem parse_asDbStr (mode : RegistrationMode) :
    RegistrationMode.parse mode.asDbStr = some mode := by
  cases mode <;> decide +kernel

theorem fromDbStr_asDbStr (visibility : Visibility) :
    Visibility.fromDbStr (String.ofList (trim visibility.asDbStr.toList)) = some visibility := by
  cases visibility <;> decide +kernel

theorem parseBool_boolStr (flag : Bool) : parseBool (boolStr flag) = some flag := by
  cases flag <;> decide +kernel

/-- Settings whose rows are in the table are in effect, whatever else is stored and whatever the
defaults are. The message is shown without the white space around it. -/
theorem resolve_of_rows (hkeys : Table.Keyed Prod.fst rows) (defaults : InstanceSettingsDefaults)
    {settings : InstanceSettings}
    (hrows : ∀ row ∈ settings.toRows, Table.lookup Prod.fst rows row.1 = some row) :
    InstanceSettings.resolve defaults rows =
      { settings with welcomeMessage := settings.welcomeMessage.bind shownMessage } := by
  simp only [InstanceSettings.toRows, List.forall_mem_cons] at hrows
  obtain ⟨hmode, hvisibility, hmessage, hsignin, -⟩ := hrows
  have hempty : shownMessage "" = none := by decide
  simp only [InstanceSettings.resolve, foldl_override hkeys, InstanceSettings.overriddenBy, hmode,
    hvisibility, hmessage, hsignin, Option.bind_some, parse_asDbStr, fromDbStr_asDbStr,
    parseBool_boolStr, Option.getD_some]
  cases settings.welcomeMessage with
  | none => simp [hempty]
  | some message => rfl

end Rows

end Edda.Domain
