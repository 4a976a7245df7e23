import Edda.App.SecretKeys

/-!
# The secret keys, as the command line reads them

Before it rotates the stored secrets, `edda-cli` reads `EDDA_SECRET_KEYS` itself. It stops at the
first error, and it neither looks at the length of an id nor for an id that is listed twice. So it
takes lists which the server refuses; `keys_are_read_alike_iff` says which ones.
-/

set_option autoImplicit false

namespace Edda.Cli

open Edda.Support.RustText
open Edda.Support.TextList
open Edda.App
open Edda.App.Config (SecretKey nameEntry entryOf IdFits GoodIds Entries)
open Edda.Auth.SecretBox (Aead KeySet Nonce)

/-- `decode_hex_32` of the command line. -/
def decodeHex32 (input : List Char) : Option SecretKey := Config.decodeHex32 input

/-- The body of the loop. `debug` prints a text the way `{:?}` does. -/
def readItem (debug : String → String) (sole : Bool) (item : List Char) :
    Except String (String × SecretKey) :=
  match nameEntry sole item with
  | none => .error "every EDDA_SECRET_KEYS entry must be `id:hex`"
  | some (id, hex) =>
    match decodeHex32 hex with
    | some key => .ok (id, key)
    | none => .error ("key " ++ debug id ++ " must be 64 hex characters (32 bytes)")

/-- `parse_secret_keys` of the command line: the keys and the primary id. -/
def parseSecretKeys (debug : String → String) (value : Option (List Char)) :
    Except String (List (String × SecretKey) × String) :=
  match value.filter fun raw => !(trim raw).isEmpty with
  | none => .error "EDDA_SECRET_KEYS is not set — nothing to rotate to"
  | some raw => do
    let items := items ',' raw
    let entries ← items.mapM (readItem debug (items.length == 1))
    match entries.head? with
    | some (primaryId, _) => .ok (entries, primaryId)
    | none => .error "EDDA_SECRET_KEYS has no entries"

/-! ## Reading the keys alike -/

/-- The value is not all blanks and commas. -/
def NamesEntry (value : List Char) : Prop := ∃ c ∈ value, isWhitespace c = false ∧ c ≠ ','

/-- What the server makes of the value. -/
def served (debug : String → String) (value : List Char) : Config.SecretKeys × Config.Env :=
  Config.parseSecretKeys debug (some value) .new

/-- Both refuse the value, or they take the same keys with the same primary one from it, with ids
that a stored secret can carry. Then what the command line seals, the server opens. -/
structure ReadAlike (debug : String → String) (value : List Char) : Prop where
  refused_iff : (∃ problem, parseSecretKeys debug (some value) = .error problem) ↔
    (served debug value).2.errors ≠ []
  accepted : ∀ {entries primaryId}, parseSecretKeys debug (some value) = .ok (entries, primaryId) →
    (served debug value).1.entries = entries ∧
      (served debug value).1.primaryId = some primaryId ∧ GoodIds (entries.map Prod.fst)
  opened : ∀ {entries primaryId}, parseSecretKeys debug (some value) = .ok (entries, primaryId) →
    ∃ rotating serving : KeySet SecretKey,
      Auth.SecretBox.init entries (some primaryId) = .ok (some rotating) ∧
      Auth.SecretBox.init (served debug value).1.entries (served debug value).1.primaryId =
        .ok (some serving) ∧
      ∀ (aead : Aead SecretKey) (nonce : Nonce) (plaintext : Bytes),
        ∃ stored, rotating.encrypt aead nonce plaintext = .ok stored ∧
          serving.decrypt aead stored = .ok plaintext

section ReadAlike

variable {debug : String → String} {sole : Bool} {item value : List Char}
  {items' : List (List Char)} {entry : String × SecretKey} {entries : List (String × SecretKey)}
  {primaryId : String}

theorem readItem_eq_ok_iff :
    readItem debug sole item = .ok entry ↔ entryOf sole item = some entry := by
  unfold readItem entryOf decodeHex32
  cases nameEntry sole item with
  | none => simp
  | some named =>
    simp only [Option.bind_some]
    cases Config.decodeHex32 named.2 with
    | none => simp
    | some key => simp

variable (debug) in
theorem mapM_readItem_eq_ok_iff :
    items'.mapM (readItem debug sole) = .ok entries ↔ Entries sole items' entries := by
  induction items' generalizing entries with
  | nil =>
    rw [List.mapM_nil, Entries, List.forall₂_nil_left_iff]
    exact ⟨fun h => (Except.ok.inj h).symm, fun h => congrArg Except.ok h.symm⟩
  | cons item items' ih =>
    rw [List.mapM_cons, Entries, List.forall₂_cons_left_iff]
    constructor
    · intro h
      cases hitem : readItem debug sole item with
      | error problem =>
        rw [hitem] at h
        exact absurd h (by simp [bind, Except.bind])
      | ok entry =>
        cases htail : items'.mapM (readItem debug sole) with
        | error problem =>
          rw [hitem, htail] at h
          exact absurd h (by simp [bind, Except.bind])
        | ok tail =>
          rw [hitem, htail] at h
          exact ⟨entry, tail, readItem_eq_ok_iff.1 hitem, ih.1 htail, (Except.ok.inj h).symm⟩
    · rintro ⟨entry, tail, hentry, htail, rfl⟩
      rw [readItem_eq_ok_iff.2 hentry, ih.2 htail]
      rfl

theorem namesEntry_iff : NamesEntry value ↔ items ',' value ≠ [] := by
  rw [Ne, items_eq_nil_iff, NamesEntry]
  push Not
  apply exists_congr
  intro c
  rw [← Bool.not_eq_true]

/-- A value that names an entry is not blank. -/
theorem trim_ne_nil (hnames : NamesEntry value) : trim value ≠ [] := by
  obtain ⟨c, hc, hspace, -⟩ := hnames
  intro htrim
  rw [trim_eq_nil_iff.1 htrim c hc] at hspace
  exact absurd hspace (by decide)

/-- The command line takes any list of entries. -/
theorem parseSecretKeys_eq_ok_iff (hnames : NamesEntry value) :
    parseSecretKeys debug (some value) = .ok (entries, primaryId) ↔
      Entries ((items ',' value).length == 1) (items ',' value) entries ∧
        entries.head?.map Prod.fst = some primaryId := by
  have hset : (some value).filter (fun raw => !(trim raw).isEmpty) = some value :=
    Option.filter_eq_some_iff.2 ⟨rfl, by simpa using trim_ne_nil hnames⟩
  rw [← mapM_readItem_eq_ok_iff debug, parseSecretKeys, hset]
  simp only
  cases hread : (items ',' value).mapM (readItem debug ((items ',' value).length == 1)) with
  | error problem => simp [bind, Except.bind]
  | ok read =>
    simp only [bind, Except.bind, Except.ok.injEq]
    cases read with
    | nil =>
      simp only [List.head?_nil, reduceCtorEq, false_iff]
      rintro ⟨rfl, hhead⟩
      exact absurd hhead (by simp)
    | cons first rest =>
      simp only [List.head?_cons, Except.ok.injEq, Prod.mk.injEq]
      constructor
      · rintro ⟨rfl, rfl⟩
        exact ⟨rfl, rfl⟩
      · rintro ⟨rfl, hhead⟩
        exact ⟨rfl, Option.some.inj hhead⟩

/-- The server goes through the same items, as it is no matter that it trims the value. -/
theorem served_eq (hnames : NamesEntry value) :
    served debug value =
      (⟨((items ',' value).foldl (Config.readItem debug ((items ',' value).length == 1))
          ⟨[], [], .new⟩).entries⟩,
        ((items ',' value).foldl (Config.readItem debug ((items ',' value).length == 1))
          ⟨[], [], .new⟩).env) := by
  have hget : Config.Env.get (some value) = some (trim value) := by
    simp only [Config.Env.get, if_neg (trim_ne_nil hnames)]
  simp only [served, Config.parseSecretKeys, hget, items_trim (show isWhitespace ',' = false by decide) value]

/-! ## Which values are read alike -/

/-- The id in front of an entry. -/
def idOf (item : List Char) : String :=
  match splitOnce ':' item with
  | some (id, _) => String.ofList (trim id)
  | none => "default"

/-- Every entry is an id with a key of 64 digits, or there is one entry only and it is such a key. -/
def AllKeys (value : List Char) : Prop :=
  ∀ item ∈ items ',' value, (entryOf ((items ',' value).length == 1) item).isSome

instance (value : List Char) : Decidable (AllKeys value) :=
  inferInstanceAs (Decidable (∀ item ∈ items ',' value, _))

theorem idOf_of_entryOf (h : entryOf sole item = some entry) : idOf item = entry.1 := by
  obtain ⟨⟨id, hex⟩, hname, hkey⟩ := Option.bind_eq_some_iff.1 h
  obtain ⟨key, -, rfl⟩ := Option.map_eq_some_iff.1 hkey
  simp only [nameEntry] at hname
  simp only [idOf]
  cases hsplit : splitOnce ':' item with
  | some parts =>
    simp only [hsplit] at hname ⊢
    exact congrArg Prod.fst (Option.some.inj hname)
  | none =>
    simp only [hsplit] at hname ⊢
    split at hname
    · exact congrArg Prod.fst (Option.some.inj hname)
    · exact absurd hname (by simp)

theorem map_idOf (h : Entries sole items' entries) :
    items'.map idOf = entries.map Prod.fst := by
  induction h with
  | nil => rfl
  | cons hentry _ ih => rw [List.map_cons, List.map_cons, idOf_of_entryOf hentry, ih]

theorem exists_entries_iff :
    (∃ entries, Entries sole items' entries) ↔ ∀ item ∈ items', (entryOf sole item).isSome := by
  constructor
  · rintro ⟨entries, hentries⟩ item hitem
    induction hentries with
    | nil => exact absurd hitem List.not_mem_nil
    | cons hentry _ ih =>
      rcases List.mem_cons.1 hitem with rfl | hitem
      · exact Option.isSome_of_mem hentry
      · exact ih hitem
  · intro hall
    induction items' with
    | nil => exact ⟨[], .nil⟩
    | cons item items' ih =>
      obtain ⟨entry, hentry⟩ := Option.isSome_iff_exists.1 (hall item List.mem_cons_self)
      obtain ⟨entries, hentries⟩ := ih fun item hitem => hall item (List.mem_cons_of_mem _ hitem)
      exact ⟨entry :: entries, .cons hentry hentries⟩

/-- The keys of a list of entries that the server has no error about. -/
theorem served_of_entries (hnames : NamesEntry value)
    (hentries : Entries ((items ',' value).length == 1) (items ',' value) entries)
    (hgood : GoodIds (entries.map Prod.fst)) :
    served debug value = (⟨entries⟩, Config.Env.new) := by
  obtain ⟨hkeys, henv⟩ := @Config.foldl_of_entries debug _ ⟨[], [], .new⟩ _ _ hentries hgood
    fun _ _ => List.not_mem_nil
  rw [served_eq hnames, hkeys, henv]
  rfl

/-- Where the server has no error, there is an entry for each item, with good ids. -/
theorem entries_of_served (hnames : NamesEntry value) (h : (served debug value).2.errors = []) :
    ∃ entries, Entries ((items ',' value).length == 1) (items ',' value) entries ∧
      GoodIds (entries.map Prod.fst) := by
  rw [served_eq hnames] at h
  obtain ⟨entries, hentries, hgood, -⟩ := Config.entries_of_errors h
  exact ⟨entries, hentries, hgood⟩

variable (debug) in
theorem parseSecretKeys_of_entries (hnames : NamesEntry value)
    (hentries : Entries ((items ',' value).length == 1) (items ',' value) entries) :
    ∃ primaryId, parseSecretKeys debug (some value) = .ok (entries, primaryId) := by
  cases entries with
  | nil => exact absurd (List.forall₂_nil_right_iff.1 hentries) (namesEntry_iff.1 hnames)
  | cons first rest =>
    exact ⟨first.1, (parseSecretKeys_eq_ok_iff hnames).2 ⟨hentries, rfl⟩⟩

/-- What is sealed with keys of good ids, is opened with the same keys. -/
theorem exists_opened (hgood : GoodIds (entries.map Prod.fst))
    (hprimary : primaryId ∈ entries.map Prod.fst) :
    ∃ keys : KeySet SecretKey, Auth.SecretBox.init entries (some primaryId) = .ok (some keys) ∧
      ∀ (aead : Aead SecretKey) (nonce : Nonce) (plaintext : Bytes),
        ∃ stored, keys.encrypt aead nonce plaintext = .ok stored ∧
          keys.decrypt aead stored = .ok plaintext := by
  obtain ⟨keys, hinit, rfl⟩ := Auth.SecretBox.exists_init hprimary
  obtain ⟨hpos, hle⟩ := hgood.2 keys.primaryId hprimary
  refine ⟨keys, hinit, fun aead nonce plaintext => ?_⟩
  have hwritten : keys.encrypt aead nonce plaintext = .ok (0x01 ::
      UInt8.ofNat (utf8 keys.primaryId).length ::
        (utf8 keys.primaryId ++ (nonce.1 ++ aead.encrypt keys.primary nonce plaintext))) := by
    simp only [KeySet.encrypt, if_pos (show (utf8 keys.primaryId).length < 256 by omega)]
  exact ⟨_, hwritten, Auth.SecretBox.decrypt_written hwritten keys.primary_eq hpos hle⟩

end ReadAlike

/-- A value is read alike exactly if one of its entries is none, or the ids are distinct and have 1
to 32 bytes. -/
theorem keys_are_read_alike_iff (debug : String → String) (value : List Char)
    (hnames : NamesEntry value) :
    ReadAlike debug value ↔ (AllKeys value → GoodIds ((items ',' value).map idOf)) := by
  constructor
  · intro halike hall
    obtain ⟨entries, hentries⟩ := exists_entries_iff.2 hall
    obtain ⟨primaryId, hread⟩ := parseSecretKeys_of_entries debug hnames hentries
    rw [map_idOf hentries]
    exact (halike.accepted hread).2.2
  · intro hgood
    have hgoodIds : ∀ {entries}, Entries ((items ',' value).length == 1) (items ',' value) entries →
        GoodIds (entries.map Prod.fst) := by
      intro entries hentries
      rw [← map_idOf hentries]
      exact hgood (exists_entries_iff.1 ⟨entries, hentries⟩)
    refine ⟨?_, ?_, ?_⟩
    · constructor
      · rintro ⟨problem, hproblem⟩ herrors
        obtain ⟨entries, hentries, -⟩ := entries_of_served hnames herrors
        obtain ⟨primaryId, hread⟩ := parseSecretKeys_of_entries debug hnames hentries
        rw [hread] at hproblem
        exact absurd hproblem (by simp)
      · intro herrors
        cases hread : parseSecretKeys debug (some value) with
        | error problem => exact ⟨problem, rfl⟩
        | ok read =>
          obtain ⟨entries, primaryId⟩ := read
          have hentries := ((parseSecretKeys_eq_ok_iff hnames).1 hread).1
          rw [served_of_entries hnames hentries (hgoodIds hentries)] at herrors
          exact absurd rfl herrors
    · intro entries primaryId hread
      obtain ⟨hentries, hprimary⟩ := (parseSecretKeys_eq_ok_iff hnames).1 hread
      rw [served_of_entries hnames hentries (hgoodIds hentries)]
      exact ⟨rfl, hprimary, hgoodIds hentries⟩
    · intro entries primaryId hread
      obtain ⟨hentries, hprimary⟩ := (parseSecretKeys_eq_ok_iff hnames).1 hread
      have hlisted : primaryId ∈ entries.map Prod.fst := by
        obtain ⟨entry, hentry, rfl⟩ := Option.map_eq_some_iff.1 hprimary
        exact List.mem_map_of_mem (List.mem_of_head? hentry)
      obtain ⟨keys, hinit, hopened⟩ := exists_opened (hgoodIds hentries) hlisted
      rw [served_of_entries hnames hentries (hgoodIds hentries)]
      refine ⟨keys, keys, hinit, ?_, hopened⟩
      rw [show (Config.SecretKeys.mk entries).primaryId = some primaryId from hprimary]
      exact hinit

/-! ## An id of no bytes -/

/-- How `{:?}` prints a text of letters and digits. -/
def quoted (text : String) : String := "\"" ++ text ++ "\""

/-- 64 digits. -/
def zeros : List Char := List.replicate 64 '0'

def zeroKey : SecretKey := ⟨List.replicate 32 0, rfl⟩

theorem two_keys_are_read_alike :
    NamesEntry ("v2:".toList ++ zeros ++ ", v1:".toList ++ zeros) ∧
      ReadAlike quoted ("v2:".toList ++ zeros ++ ", v1:".toList ++ zeros) := by
  have hnames : NamesEntry ("v2:".toList ++ zeros ++ ", v1:".toList ++ zeros) :=
    ⟨'v', by simp, by decide, by decide⟩
  exact ⟨hnames, (keys_are_read_alike_iff quoted _ hnames).2 fun _ => by decide +kernel⟩

/-- The command line takes a key without a name in front of the colon as the primary one, so that
it seals what no key set opens. The server refuses it. -/
theorem nameless_key_is_taken :
    NamesEntry (':' :: zeros) ∧
      parseSecretKeys quoted (some (':' :: zeros)) = .ok ([("", zeroKey)], "") ∧
      (served quoted (':' :: zeros)).2.errors =
        [⟨"EDDA_SECRET_KEYS", "key id \"\" must be 1-32 characters"⟩] ∧
      ¬ ReadAlike quoted (':' :: zeros) := by
  have hnames : NamesEntry (':' :: zeros) := ⟨':', List.mem_cons_self, by decide, by decide⟩
  have hread : parseSecretKeys quoted (some (':' :: zeros)) = .ok ([("", zeroKey)], "") := by
    decide +kernel
  have herrors : (served quoted (':' :: zeros)).2.errors =
      [⟨"EDDA_SECRET_KEYS", "key id \"\" must be 1-32 characters"⟩] := by decide +kernel
  refine ⟨hnames, hread, herrors, fun halike => ?_⟩
  exact absurd (halike.accepted hread).2.2 (by decide)

end Edda.Cli
