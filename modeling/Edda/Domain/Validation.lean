import Edda.Support.RustText

/-!
# Repository identities

The names of owners and repositories, and the identities `{owner}/{repo}` under which repositories
are kept on disk.
-/

set_option autoImplicit false

namespace Edda.Domain.Validation

open Edda.Support.RustText

def isAlnum (c : UInt8) : Bool := within 0x30 0x39 c || within 0x41 0x5A c || within 0x61 0x7A c

/-- One to 39 ASCII letters, digits, `-` or `_`, the first and the last a letter or a digit. -/
def isValidUsername (name : String) : Bool :=
  let bytes := utf8 name
  match bytes.head?, bytes.getLast? with
  | some first, some last =>
    bytes.length ≤ 39 && isAlnum first && isAlnum last &&
      bytes.all fun b => isAlnum b || b == 0x2D || b == 0x5F
  | _, _ => false

def isAsciiAlphanumeric (c : Char) : Bool :=
  ('0' ≤ c && c ≤ '9') || ('A' ≤ c && c ≤ 'Z') || ('a' ≤ c && c ≤ 'z')

/-- What may name the directory of a repository: neither a part of a path nor the `.git` suffix. -/
def isValidRepositoryName (name : String) : Bool :=
  let chars := name.toList
  !chars.isEmpty && (utf8 name).length ≤ 100 && name != "." && name != ".." &&
    !(chars.head? == some '.') && !(".git".toList.isSuffixOf chars) &&
    chars.all fun c => isAsciiAlphanumeric c || c == '-' || c == '_' || c == '.'

/-- The two segments around the only `/`. -/
def splitOwnerRepo (identity : String) : Option (String × String) :=
  match splitOnce '/' identity.toList with
  | none => none
  | some (owner, repo) =>
    if '/' ∈ repo then none else some (String.ofList owner, String.ofList repo)

def isValidRepositoryIdentity (identity : String) : Bool :=
  match splitOwnerRepo identity with
  | some (owner, repo) => isValidUsername owner && isValidRepositoryName repo
  | none => false

example : isValidRepositoryIdentity "alice/my.repo_1" = true := by decide +kernel

example : isValidRepositoryIdentity "alice/repo.git" = false := by decide +kernel

end Edda.Domain.Validation
