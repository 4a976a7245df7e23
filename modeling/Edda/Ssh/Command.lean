import Edda.App.RepositoryRoutes
import Edda.App.SignIn
import Edda.Domain.Identities

/-!
# The repository of a request

A client that comes over SSH names a service and a repository in one command, in one of a few
spellings. A client that comes over HTTP names the owner and the repository in the path of the URL.
`transports_name_alike` says that both arrive at the same identity.
-/

set_option autoImplicit false

namespace Edda.Ssh.Command

open Edda.App Edda.App.RepositoryRoutes Edda.Domain.Validation Edda.Support Edda.Support.RustText
open Edda.App.SignIn (fromUtf8 fromUtf8_utf8)

/-! ## The command of a client -/

inductive GitService where
  | uploadPack
  | receivePack
  deriving DecidableEq, Repr

/-- The identity is already split. -/
structure GitCommand where
  service : GitService
  owner : String
  name : String
  deriving DecidableEq, Repr

def singleQuote : Char := '\x27'

def doubleQuote : Char := '\x22'

/-- Takes off a matching pair of quotes. -/
def unquote (path : List Char) : List Char :=
  let quotedBy (quote : Char) : Bool := path.head? = some quote && path.getLast? = some quote
  if (quotedBy singleQuote || quotedBy doubleQuote) && 2 ≤ path.length then path.tail.dropLast
  else path

def serviceAndRest (text : List Char) : Option (GitService × List Char) :=
  match stripPrefix "git-upload-pack".toList text with
  | some rest => some (.uploadPack, rest)
  | none => (stripPrefix "git-receive-pack".toList text).map fun rest => (.receivePack, rest)

def parse (data : Bytes) : Option GitCommand := do
  let text ← fromUtf8 data
  let (service, rest) ← serviceAndRest (trim text.toList)
  let path := unquote (trim rest)
  let path := (stripPrefix ['/'] path).getD path
  let path := (stripSuffix ".git".toList path).getD path
  let (owner, name) ← splitOnce '/' path
  if owner.isEmpty ∨ name.isEmpty ∨ '/' ∈ name then none
  else some ⟨service, String.ofList owner, String.ofList name⟩

/-- `repo_names`: the identity of the repository, and its name, by the two segments of a URL. -/
def repoNames (owner repo : String) : Option (String × String) :=
  (repoName repo).map fun name => (gitIdentity owner name, name)

/-! ## What clients send -/

inductive Quote where
  | bare
  | single
  | double
  deriving DecidableEq, Repr

/-- How a client writes the repository behind the name of the service. -/
structure Spelling where
  service : GitService
  quote : Quote
  leadingSlash : Bool
  gitSuffix : Bool
  deriving DecidableEq, Repr

def GitService.text : GitService → String
  | .uploadPack => "git-upload-pack"
  | .receivePack => "git-receive-pack"

def Quote.text : Quote → String
  | .bare => ""
  | .single => String.singleton singleQuote
  | .double => String.singleton doubleQuote

namespace Spelling

variable (spelling : Spelling)

/-- The path as it is spelt. -/
def path (identity : String) : String :=
  (if spelling.leadingSlash then "/" else "") ++ identity ++
    (if spelling.gitSuffix then ".git" else "")

/-- The bytes of the command. -/
def command (identity : String) : Bytes :=
  utf8 (spelling.service.text ++ " " ++
    (spelling.quote.text ++ spelling.path identity ++ spelling.quote.text))

end Spelling

/-! ## Reading a command -/

theorem serviceAndRest_append (service : GitService) (rest : List Char) :
    serviceAndRest (service.text.toList ++ rest) = some (service, rest) := by
  cases service with
  | uploadPack => simp only [serviceAndRest, GitService.text, stripPrefix_append]
  | receivePack =>
    have hother : stripPrefix "git-upload-pack".toList ("git-receive-pack".toList ++ rest) = none :=
      rfl
    simp only [serviceAndRest, GitService.text, hother, stripPrefix_append, Option.map_some]

/-- A path between the quotes of a spelling, or one that no quote begins. -/
theorem unquote_quoted (quote : Quote) {first : Char} {path mid : List Char}
    (hpath : path = first :: mid) (hsingle : first ≠ singleQuote) (hdouble : first ≠ doubleQuote) :
    unquote (quote.text.toList ++ path ++ quote.text.toList) = path := by
  have hquoted (c : Char) (hc : c = singleQuote ∨ c = doubleQuote) :
      unquote ([c] ++ path ++ [c]) = path := by
    have hhead : ([c] ++ path ++ [c]).head? = some c := rfl
    have hlast : ([c] ++ path ++ [c]).getLast? = some c := List.getLast?_concat
    have hlength : 2 ≤ ([c] ++ path ++ [c]).length := by
      simp only [List.length_append, List.length_singleton]
      omega
    have hmid : ([c] ++ path ++ [c]).tail.dropLast = path := by simp
    simp only [unquote, hhead, hlast, hlength, hmid, Bool.and_self, decide_true, Bool.and_true,
      Option.some.injEq]
    rcases hc with rfl | rfl
    · simp
    · simp
  cases quote with
  | bare =>
    have hhead : path.head? = some first := by rw [hpath, List.head?_cons]
    simp [unquote, Quote.text, hhead, hsingle, hdouble]
  | single => exact hquoted singleQuote (Or.inl rfl)
  | double => exact hquoted doubleQuote (Or.inr rfl)

section Identity

variable (identity : RepositoryIdentity)

/-- The first character of an identity is one of its owner. -/
theorem exists_first : ∃ first rest, identity.text.toList = first :: rest ∧ IsNameChar first := by
  obtain ⟨first, rest, howner⟩ := List.exists_cons_of_ne_nil identity.owner_ne_nil
  refine ⟨first, rest ++ '/' :: identity.name.toList, ?_, ?_⟩
  · rw [identity.toList_text, howner, List.cons_append]
  · exact identity.owner_isNameChar (howner ▸ List.mem_cons_self)

theorem exists_last : ∃ last, identity.text.toList.getLast? = some last ∧ IsNameChar last := by
  refine ⟨identity.name.toList.getLast identity.name_ne_nil, ?_,
    identity.name_isNameChar (List.getLast_mem identity.name_ne_nil)⟩
  rw [identity.toList_text, List.getLast?_append_of_ne_nil _ (List.cons_ne_nil _ _),
    List.getLast?_cons_of_ne_nil identity.name_ne_nil,
    List.getLast?_eq_some_getLast identity.name_ne_nil]

/-- The suffix of the directories ends no identity. -/
theorem not_suffix_text : ¬ ".git".toList <:+ identity.text.toList := by
  rw [identity.toList_text]
  intro hsuffix
  rcases List.suffix_or_suffix_of_suffix hsuffix (List.suffix_append _ _) with hwithin | hacross
  · -- the suffix lies behind the slash or begins with it
    rcases List.suffix_cons_iff.1 hwithin with heq | hname
    · exact absurd (List.cons.inj heq).1 (by decide)
    · exact identity.not_suffix_name hname
  · exact absurd (hacross.subset List.mem_cons_self) (by decide)

variable (spelling : Spelling)

theorem stripped_slash :
    (stripPrefix ['/'] (spelling.path identity.text).toList).getD (spelling.path identity.text).toList =
      identity.text.toList ++ (if spelling.gitSuffix then ".git" else "").toList := by
  obtain ⟨first, rest, htext, hfirst⟩ := exists_first identity
  cases hslash : spelling.leadingSlash with
  | true =>
    simp only [Spelling.path, hslash, if_true, String.toList_append, List.append_assoc]
    rfl
  | false =>
    have hne : '/' ≠ first := hfirst.ne_slash.symm
    simp only [Spelling.path, hslash, Bool.false_eq_true, if_false, String.toList_append,
      String.toList_empty, List.nil_append, htext, List.cons_append, stripPrefix, if_neg hne,
      Option.getD_none]

theorem stripped_suffix (gitSuffix : Bool) :
    (stripSuffix ".git".toList
        (identity.text.toList ++ (if gitSuffix then ".git" else "").toList)).getD
      (identity.text.toList ++ (if gitSuffix then ".git" else "").toList) =
        identity.text.toList := by
  cases gitSuffix with
  | true => simp only [if_true, stripSuffix_append, Option.getD_some]
  | false =>
    simp only [Bool.false_eq_true, if_false, String.toList_empty, List.append_nil,
      stripSuffix_eq_none (not_suffix_text identity), Option.getD_none]

/-- The quoted path has no white space at its ends. -/
theorem exists_path : ∃ first mid last, (spelling.path identity.text).toList = first :: mid ∧
    (first :: mid).getLast? = some last ∧ (first = '/' ∨ IsNameChar first) ∧ IsNameChar last := by
  obtain ⟨first, rest, htext, hfirst⟩ := exists_first identity
  obtain ⟨last, hlast, hend⟩ := exists_last identity
  have hsuffix : ∃ last, (first :: rest ++ (if spelling.gitSuffix then ".git" else "").toList
      ).getLast? = some last ∧ IsNameChar last := by
    cases spelling.gitSuffix with
    | true =>
      refine ⟨'t', ?_, Or.inl (by decide)⟩
      rw [if_pos rfl, List.getLast?_append_of_ne_nil _ (by decide)]
      decide
    | false =>
      refine ⟨last, ?_, hend⟩
      rw [← hlast, htext]
      simp
  obtain ⟨last, hlast, hend⟩ := hsuffix
  cases hslash : spelling.leadingSlash with
  | true =>
    refine ⟨'/', first :: rest ++ (if spelling.gitSuffix then ".git" else "").toList, last, ?_, ?_,
      Or.inl rfl, hend⟩
    · simp only [Spelling.path, hslash, if_true, String.toList_append, htext]
      rfl
    · rw [List.cons_append, List.getLast?_cons_cons, ← List.cons_append, hlast]
  | false =>
    refine ⟨first, rest ++ (if spelling.gitSuffix then ".git" else "").toList, last, ?_, hlast,
      Or.inr hfirst, hend⟩
    simp only [Spelling.path, hslash, Bool.false_eq_true, if_false, String.toList_append, htext,
      String.toList_empty, List.nil_append, List.cons_append]

/-- What a client sends behind the name of the service. -/
def Spelling.quoted : List Char :=
  spelling.quote.text.toList ++ (spelling.path identity.text).toList ++ spelling.quote.text.toList

theorem exists_quoted : ∃ first mid last, spelling.quoted identity = first :: mid ∧
    (first :: mid).getLast? = some last ∧ isWhitespace first = false ∧
    isWhitespace last = false := by
  obtain ⟨first, mid, last, hpath, hlast, hfirst, hend⟩ := exists_path identity spelling
  cases hquote : spelling.quote with
  | bare =>
    refine ⟨first, mid, last, ?_, hlast, ?_, hend.not_isWhitespace⟩
    · simp only [Spelling.quoted, hquote, Quote.text, String.toList_empty, List.nil_append,
        List.append_nil, hpath]
    · rcases hfirst with rfl | hfirst
      · decide
      · exact hfirst.not_isWhitespace
  | single =>
    refine ⟨singleQuote, (spelling.path identity.text).toList ++ [singleQuote], singleQuote, ?_, ?_,
      by decide, by decide⟩
    · simp [Spelling.quoted, hquote, Quote.text]
    · rw [← List.cons_append, List.getLast?_concat]
  | double =>
    refine ⟨doubleQuote, (spelling.path identity.text).toList ++ [doubleQuote], doubleQuote, ?_, ?_,
      by decide, by decide⟩
    · simp [Spelling.quoted, hquote, Quote.text]
    · rw [← List.cons_append, List.getLast?_concat]

theorem trim_quoted : trim (' ' :: spelling.quoted identity) = spelling.quoted identity := by
  obtain ⟨first, mid, last, hquoted, hlast, hfirst, hend⟩ := exists_quoted identity spelling
  have hblank : TextList.Blank [' '] := by
    intro c hc
    rw [List.mem_singleton.1 hc]
    decide
  rw [← List.singleton_append, TextList.trim_append_left hblank]
  exact trim_of_ends hquoted (hquoted ▸ hlast) hfirst hend

theorem trim_command : trim (spelling.service.text.toList ++ ' ' :: spelling.quoted identity) =
    spelling.service.text.toList ++ ' ' :: spelling.quoted identity := by
  obtain ⟨first, mid, last, hquoted, hlast, -, hend⟩ := exists_quoted identity spelling
  have hservice : ∃ rest, spelling.service.text.toList = 'g' :: rest := by
    cases spelling.service with
    | uploadPack => exact ⟨_, rfl⟩
    | receivePack => exact ⟨_, rfl⟩
  obtain ⟨rest, hservice⟩ := hservice
  have hfirst : isWhitespace 'g' = false := by decide
  have htext : spelling.service.text.toList ++ ' ' :: spelling.quoted identity =
      'g' :: (rest ++ ' ' :: spelling.quoted identity) := by rw [hservice, List.cons_append]
  apply trim_of_ends htext _ hfirst hend
  rw [List.getLast?_append_of_ne_nil _ (List.cons_ne_nil _ _), hquoted,
    List.getLast?_cons_cons, hlast]

theorem unquote_spelt : unquote (spelling.quoted identity) =
    (spelling.path identity.text).toList := by
  obtain ⟨first, mid, last, hpath, -, hfirst, -⟩ := exists_path identity spelling
  have hquote : first ≠ singleQuote ∧ first ≠ doubleQuote := by
    rcases hfirst with rfl | hfirst
    · decide
    · constructor
      · rintro rfl
        exact absurd hfirst (by decide)
      · rintro rfl
        exact absurd hfirst (by decide)
  exact unquote_quoted spelling.quote hpath hquote.1 hquote.2

/-- Every spelling is read back. -/
theorem parse_command : parse (spelling.command identity.text) =
    some ⟨spelling.service, identity.owner, identity.name⟩ := by
  have htext : (spelling.service.text ++ " " ++ (spelling.quote.text ++
      spelling.path identity.text ++ spelling.quote.text)).toList =
      spelling.service.text.toList ++ ' ' :: spelling.quoted identity := by
    simp [Spelling.quoted]
  simp only [parse, Spelling.command, fromUtf8_utf8, htext, trim_command, serviceAndRest_append,
    trim_quoted, unquote_spelt, stripped_slash, stripped_suffix, identity.splitOnce_text,
    Option.bind_eq_bind, Option.bind_some, List.isEmpty_iff, identity.owner_ne_nil,
    identity.name_ne_nil, identity.slash_notMem_name, or_self, if_false, String.ofList_toList]

theorem repoNames_url : repoNames identity.owner (identity.name ++ ".git") =
    some (identity.text, identity.name) := by
  have hname : repoName (identity.name ++ ".git") = some identity.name := by
    rw [repoName, String.toList_append, List.reverse_append, stripPrefix_append, Option.map_some,
      List.reverse_reverse, String.ofList_toList]
  rw [repoNames, hname, Option.map_some, gitIdentity, RepositoryIdentity.text]

end Identity

/-- Whatever the name, and however a client spells it, the command is read as its owner, its name
and the service, and the URL as the same identity. -/
theorem transports_name_alike {identity : String} (h : isValidRepositoryIdentity identity = true)
    (spelling : Spelling) : ∃ owner name, splitOwnerRepo identity = some (owner, name) ∧
      parse (spelling.command identity) = some ⟨spelling.service, owner, name⟩ ∧
      repoNames owner (name ++ ".git") = some (identity, name) := by
  obtain ⟨parts, rfl⟩ := isValidRepositoryIdentity_iff.1 h
  exact ⟨parts.owner, parts.name, parts.splitOwnerRepo_text, parse_command parts spelling,
    repoNames_url parts⟩

/-- A name with dots, and with the suffix inside, in a push with quotes. -/
theorem transports_name_dotted : ∃ owner name,
    splitOwnerRepo "alice/my.git.repo" = some (owner, name) ∧
      parse ((Spelling.mk .receivePack .single true true).command "alice/my.git.repo") =
        some ⟨.receivePack, owner, name⟩ ∧
      repoNames owner (name ++ ".git") = some ("alice/my.git.repo", name) :=
  transports_name_alike (by decide +kernel) _

example : parse (utf8 "git-upload-pack '/alice/my.git.repo.git'") =
    some ⟨.uploadPack, "alice", "my.git.repo"⟩ := by decide +kernel

end Edda.Ssh.Command
