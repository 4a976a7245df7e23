import Edda.Support.RustText

/-!
# Git objects and the ids that name them

An object id is the hash of the object's kind and content, so an id determines the object it
names: `content : ObjectId → Object` is fixed, and a store is the list of the ids whose objects it
holds. Reading a store (`findObject`) returns the named object exactly when the id is stored.

`references` lists what an object refers to: a commit its tree and parents, a tree the ids of its
entries, an annotated tag its target. `Reachable` follows them.
-/

set_option autoImplicit false

namespace Edda.Git

open Edda.Support.RustText

/-- The errors of the git layer. -/
inductive GitError where
  | invalidName (name : String)
  | alreadyExists (name : String)
  | notFound (name : String)
  | io (message : String)
  | git (message : String)
  | conflict (count : Nat)
  | notFastForward
  deriving DecidableEq, Repr

/-- The text of an error. -/
def GitError.display : GitError → String
  | .invalidName name => "\"" ++ name ++ "\" isn't a valid repository name"
  | .alreadyExists name => "a repository named \"" ++ name ++ "\" already exists"
  | .notFound name => "no repository named \"" ++ name ++ "\""
  | .io message => message
  | .git message => message
  | .conflict count => "the merge has " ++ toString count ++ " unresolved conflict(s)"
  | .notFastForward => "the target branch cannot fast-forward to the source"

/-! ## Object ids -/

/-- A SHA-1 object id. -/
abbrev ObjectId := BitVec 160

instance : LawfulBEq ObjectId := instLawfulBEq

/-- The last `width` hexadecimal digits of `n`. -/
def hexText : Nat → Nat → List Char
  | 0, _ => []
  | width + 1, n => hexText width (n / 16) ++ [Char.ofNat (hexDigit (n % 16)).toNat]

/-- The 40 digits of an id (`ObjectId::to_string`). -/
def ObjectId.toHex (id : ObjectId) : String := String.ofList (hexText 40 id.toNat)

/-- The value of a hexadecimal digit, in either case. -/
def hexCharValue (c : Char) : Option Nat :=
  if c.toNat < 128 then hexValue (UInt8.ofNat c.toNat) else none

/-- Reads hexadecimal digits, the most significant first. -/
def hexTextValue (acc : Nat) : List Char → Option Nat
  | [] => some acc
  | c :: cs => match hexCharValue c with
    | some d => hexTextValue (acc * 16 + d) cs
    | none => none

/-- `ObjectId::from_hex`: exactly 40 hexadecimal digits, in either case. -/
def ObjectId.fromHex (hex : String) : Option ObjectId :=
  if hex.toList.length = 40 then (hexTextValue 0 hex.toList).map (BitVec.ofNat 160) else none

/-- The all-zeros id of the wire protocol: "no such object". -/
def zeroId : String := "0000000000000000000000000000000000000000"

theorem hexTextValue_append (acc : Nat) (xs ys : List Char) :
    hexTextValue acc (xs ++ ys) = (hexTextValue acc xs).bind fun n => hexTextValue n ys := by
  induction xs generalizing acc with
  | nil => rfl
  | cons c cs ih =>
    simp only [List.cons_append, hexTextValue]
    cases hexCharValue c with
    | none => rfl
    | some d => exact ih _

theorem hexCharValue_hexDigit : ∀ d, d < 16 →
    hexCharValue (Char.ofNat (hexDigit d).toNat) = some d := by decide

theorem hexTextValue_hexText (width n : Nat) :
    hexTextValue 0 (hexText width n) = some (n % 16 ^ width) := by
  induction width generalizing n with
  | zero => simp [hexText, hexTextValue, Nat.mod_one]
  | succ width ih =>
    have hd := hexCharValue_hexDigit (n % 16) (Nat.mod_lt n (by decide))
    simp only [hexText, hexTextValue_append, ih, Option.bind_some, hexTextValue, hd,
      Option.some.injEq]
    have hsplit : n % 16 ^ (width + 1) = n % (16 * 16 ^ width) := by rw [Nat.pow_succ']
    rw [hsplit, Nat.mod_mul]
    omega

theorem length_hexText (width n : Nat) : (hexText width n).length = width := by
  induction width generalizing n with
  | zero => rfl
  | succ width ih => simp [hexText, ih]

/-- An id is read back from the digits it is printed with. -/
theorem ObjectId.fromHex_toHex (id : ObjectId) : ObjectId.fromHex id.toHex = some id := by
  have hlt : id.toNat < 16 ^ 40 := id.isLt
  simp only [fromHex, toHex, String.toList_ofList, length_hexText, if_true,
    hexTextValue_hexText, Option.map_some, Nat.mod_eq_of_lt hlt,
    BitVec.ofNat_toNat, BitVec.setWidth_eq]

/-! ## Objects -/

/-- The kinds of objects. -/
inductive Kind where
  | commit
  | tree
  | blob
  | tag
  deriving DecidableEq, Repr

/-- The modes of tree entries; `commit` is a submodule link. -/
inductive EntryKind where
  | tree
  | blob
  | blobExecutable
  | link
  | commit
  deriving DecidableEq, Repr

/-- An author or committer line. `seconds` is missing when the time does not parse. -/
structure Signature where
  name : String
  email : String
  seconds : Option Int
  deriving DecidableEq, Repr

/-- A decoded commit. `author` and `committer` are missing when their lines do not parse. -/
structure Commit where
  tree : ObjectId
  parents : List ObjectId
  author : Option Signature
  committer : Option Signature
  encoding : Option String
  message : String
  extraHeaders : List (String × String)
  deriving DecidableEq, Repr

/-- One entry of a tree. -/
structure TreeEntry where
  mode : EntryKind
  filename : String
  oid : ObjectId
  deriving DecidableEq, Repr

/-- A decoded annotated tag. -/
structure Tag where
  target : ObjectId
  name : String
  message : String
  deriving DecidableEq, Repr

/-- An object as the store returns it. The body of a commit, tree or tag is missing when its
bytes do not decode as that kind. -/
inductive Object where
  | commit (body : Option Commit)
  | tree (body : Option (List TreeEntry))
  | blob (data : Bytes)
  | tag (body : Option Tag)
  deriving DecidableEq, Repr

/-- A commit with no text and no signature lines. -/
def plainCommit (tree : ObjectId) (parents : List ObjectId) : Object :=
  .commit (some ⟨tree, parents, none, none, none, "", []⟩)

/-- The kind of an object. -/
def Object.kind : Object → Kind
  | .commit _ => .commit
  | .tree _ => .tree
  | .blob _ => .blob
  | .tag _ => .tag

/-- The error of a decoder. -/
def decodeError : GitError := .git "object parsing failed"

/-- What an object refers to: a commit's tree and parents, a tree's entries, an annotated tag's
target. -/
def references : Object → Except GitError (List ObjectId)
  | .commit (some commit) => .ok (commit.tree :: commit.parents)
  | .tree (some entries) => .ok (entries.map fun entry => entry.oid)
  | .tag (some tag) => .ok [tag.target]
  | .blob _ => .ok []
  | .commit none | .tree none | .tag none => .error decodeError

/-! ## Stores and reachability -/

/-- No more than `n` objects have the property. -/
def AtMost (n : Nat) (P : ObjectId → Prop) : Prop :=
  ∀ ids : List ObjectId, ids.Nodup → (∀ id ∈ ids, P id) → ids.length ≤ n

/-- A list that holds every object with the property bounds their number. -/
theorem AtMost.of_forall_mem {n : Nat} {P : ObjectId → Prop} (all : List ObjectId)
    (hall : ∀ id, P id → id ∈ all) (hlength : all.length ≤ n) : AtMost n P := by
  intro ids hnodup hids
  have hsubset : ids ⊆ all := fun id hid => hall id (hids id hid)
  calc ids.length ≤ all.length := (List.subperm_of_subset hnodup hsubset).length_le
    _ ≤ n := hlength

/-- The ids of the objects a store holds. -/
abbrev Store := List ObjectId

section Content

variable (content : ObjectId → Object)

/-- `gix::Repository::find_object`. -/
def findObject (store : Store) (id : ObjectId) : Except GitError Object :=
  if id ∈ store then .ok (content id)
  else .error (.git ("An object with id " ++ id.toHex ++ " could not be found"))

@[simp] theorem findObject_of_mem {store : Store} {id : ObjectId} (h : id ∈ store) :
    findObject content store id = .ok (content id) := if_pos h

theorem findObject_of_not_mem {store : Store} {id : ObjectId} (h : id ∉ store) :
    findObject content store id =
      .error (.git ("An object with id " ++ id.toHex ++ " could not be found")) := if_neg h

theorem mem_of_findObject {store : Store} {id : ObjectId} {object : Object}
    (h : findObject content store id = .ok object) : id ∈ store ∧ object = content id := by
  by_cases hid : id ∈ store
  · rw [findObject_of_mem content hid] at h
    exact ⟨hid, (Except.ok.inj h).symm⟩
  · rw [findObject_of_not_mem content hid] at h
    exact absurd h (by simp)

/-- The number of references of an object. -/
def referenceCount (id : ObjectId) : Nat :=
  match references (content id) with
  | .ok ids => ids.length
  | .error _ => 0

/-- The object named `a` refers to the object named `b`. -/
def Refers (a b : ObjectId) : Prop := ∃ ids, references (content a) = .ok ids ∧ b ∈ ids

/-- `b` is reached from `a` by following references. -/
def Reachable : ObjectId → ObjectId → Prop := Relation.ReflTransGen (Refers content)

theorem Reachable.refl (a : ObjectId) : Reachable content a a := Relation.ReflTransGen.refl

/-- `b` is reached from one of the tips. -/
def ReachableFrom (tips : List ObjectId) (b : ObjectId) : Prop :=
  ∃ tip ∈ tips, Reachable content tip b

/-- Everything reached from `a` is stored, and decodes. -/
def ClosureStored (store : Store) (a : ObjectId) : Prop :=
  ∀ b, Reachable content a b → b ∈ store

theorem ClosureStored.mono {store store' : Store} {a : ObjectId} (hsub : store ⊆ store')
    (h : ClosureStored content store a) : ClosureStored content store' a :=
  fun b hb => hsub (h b hb)

/-- The parents of the commit `id` names; an id that names no readable commit has none. -/
def parentsOf (id : ObjectId) : List ObjectId :=
  match content id with
  | .commit (some commit) => commit.parents
  | _ => []

/-- `b` is `a` or an ancestor of `a`. -/
def Ancestor (b a : ObjectId) : Prop :=
  Relation.ReflTransGen (fun x y => y ∈ parentsOf content x) a b

/-- A parent is referred to by its child. -/
theorem refers_of_mem_parentsOf {a b : ObjectId} (h : b ∈ parentsOf content a) :
    Refers content a b := by
  unfold parentsOf at h
  split at h
  · rename_i commit hc
    exact ⟨commit.tree :: commit.parents, by rw [hc]; rfl, List.mem_cons_of_mem _ h⟩
  · simp at h

/-- Ancestors are reached. -/
theorem Ancestor.reachable {a b : ObjectId} (h : Ancestor content b a) : Reachable content a b :=
  Relation.ReflTransGen.lift id (fun _ _ hxy => refers_of_mem_parentsOf content hxy) _ _ h

end Content

end Edda.Git
