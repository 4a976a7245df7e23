import Edda.Domain.CrossReferences

/-!
# Mentions

The `@name` of a comment. A mention begins at an `@` that no letter or digit stands before, and goes on
as far as the characters of a name do. `resolve` is who is told of the comment.
-/

set_option autoImplicit false

namespace Edda.Domain.Mentions

open Edda.Support Edda.Support.RustText Edda.Domain.Validation Edda.Domain.CrossReferences

def atSign : UInt8 := 0x40

def isMentionByte (byte : UInt8) : Bool := isAlnum byte || byte = 0x2D || byte = underscore

/-- `str::to_lowercase`, of ASCII bytes. -/
def lowercase (bytes : Bytes) : List Char := (asciiText bytes).map Char.toLower

/-- The names of the mentions from a place in the text on, with so many bytes to pass over first. -/
def mentionsFrom (before : Option UInt8) : Nat → Bytes → List (List Char)
  | _, [] => []
  | passing + 1, byte :: rest => mentionsFrom (some byte) passing rest
  | 0, byte :: rest =>
    let name := rest.takeWhile isMentionByte
    if byte = atSign && !before.any isAlnum && !name.isEmpty then
      lowercase name :: mentionsFrom (some byte) name.length rest
    else mentionsFrom (some byte) 0 rest

/-- Each name once, in the order in which they are first seen. -/
def parseMentions (text : String) : List String :=
  ((mentionsFrom none 0 (utf8 text)).eraseDups).map String.ofList

section Resolving

variable {ι ε : Type} [DecidableEq ι] (findByUsername : String → Except ε (Option ι)) (commenter : ι)

/-- The loop over the names, with the accounts that it has so far. -/
def resolveFrom (resolved : List ι) : List String → Except ε (List ι)
  | [] => .ok resolved
  | username :: usernames => match findByUsername username with
    | .error err => .error err
    | .ok none => resolveFrom resolved usernames
    | .ok (some user) =>
      resolveFrom (if user ≠ commenter ∧ user ∉ resolved then resolved ++ [user] else resolved)
        usernames

/-- The accounts that are mentioned in a comment, without the commenter; `findByUsername` looks a name
up among the accounts. -/
def resolve (body : String) : Except ε (List ι) :=
  resolveFrom findByUsername commenter [] (parseMentions body)

end Resolving

/-- The text has the mention somewhere. -/
def Mentioned (text : Bytes) (name : List Char) : Prop :=
  ∃ front behind, text = front ++ atSign :: behind ∧ front.getLast?.any isAlnum = false ∧
    behind.takeWhile isMentionByte ≠ [] ∧ name = lowercase (behind.takeWhile isMentionByte)

section Scan

variable {front text rest : Bytes} {name : List Char}

/-- A mention in the rest of a text. -/
def MentionedBehind (front text : Bytes) (name : List Char) : Prop :=
  ∃ between behind, text = between ++ atSign :: behind ∧
    (front ++ between).getLast?.any isAlnum = false ∧ behind.takeWhile isMentionByte ≠ [] ∧
      name = lowercase (behind.takeWhile isMentionByte)

/-- A mention stands at the next byte, or behind it. -/
theorem mentionedBehind_cons {byte : UInt8} :
    MentionedBehind front (byte :: rest) name ↔
      (byte = atSign ∧ front.getLast?.any isAlnum = false ∧ rest.takeWhile isMentionByte ≠ [] ∧
        name = lowercase (rest.takeWhile isMentionByte)) ∨
      MentionedBehind (front ++ [byte]) rest name := by
  constructor
  · rintro ⟨between, behind, htext, hbefore, hrun, hname⟩
    cases between with
    | nil =>
      obtain ⟨rfl, rfl⟩ := List.cons.inj htext
      rw [List.append_nil] at hbefore
      exact Or.inl ⟨rfl, hbefore, hrun, hname⟩
    | cons first between =>
      obtain ⟨rfl, rfl⟩ := List.cons.inj htext
      exact Or.inr ⟨between, behind, rfl, by rwa [List.append_assoc, List.singleton_append], hrun,
        hname⟩
  · rintro (⟨rfl, hbefore, hrun, hname⟩ | ⟨between, behind, rfl, hbefore, hrun, hname⟩)
    · exact ⟨[], rest, rfl, by rwa [List.append_nil], hrun, hname⟩
    · exact ⟨byte :: between, behind, rfl,
        by rwa [List.append_assoc, List.singleton_append] at hbefore, hrun, hname⟩

/-- No mention begins within a name. -/
theorem mentionedBehind_append {part : Bytes} (hpart : ∀ byte ∈ part, isMentionByte byte = true) :
    MentionedBehind front (part ++ rest) name ↔ MentionedBehind (front ++ part) rest name := by
  induction part generalizing front with
  | nil => rw [List.nil_append, List.append_nil]
  | cons byte part ih =>
    have hbyte := hpart byte List.mem_cons_self
    have hne : byte ≠ atSign := by
      rintro rfl
      exact absurd hbyte (by decide)
    rw [List.cons_append, mentionedBehind_cons,
      ih fun other hmem => hpart other (List.mem_cons_of_mem _ hmem), List.append_assoc,
      List.singleton_append]
    exact or_iff_right fun h => hne h.1

/-- What is left to pass over is the rest of a name. -/
theorem mentionsFrom_passing (front part rest : Bytes) :
    mentionsFrom front.getLast? part.length (part ++ rest) =
      mentionsFrom (front ++ part).getLast? 0 rest := by
  induction part generalizing front with
  | nil => rw [List.append_nil, List.nil_append, List.length_nil]
  | cons byte part ih =>
    have hnext := ih (front ++ [byte])
    rw [List.getLast?_concat, List.append_assoc, List.singleton_append] at hnext
    rw [List.length_cons, List.cons_append, mentionsFrom, hnext]

/-- The scan finds the mentions. -/
theorem mem_mentionsFrom_iff (front text : Bytes) :
    name ∈ mentionsFrom front.getLast? 0 text ↔ MentionedBehind front text name := by
  induction hn : text.length using Nat.strong_induction_on generalizing front text with
  | _ n ih =>
    subst hn
    cases text with
    | nil =>
      refine ⟨fun hmem => absurd hmem List.not_mem_nil, ?_⟩
      rintro ⟨between, behind, htext, -⟩
      simp at htext
    | cons byte rest =>
      have hsplit := List.takeWhile_append_dropWhile (p := isMentionByte) (l := rest)
      have hlength := congrArg List.length hsplit
      rw [List.length_append] at hlength
      rw [mentionedBehind_cons, mentionsFrom]
      by_cases hhere : byte = atSign ∧ front.getLast?.any isAlnum = false ∧
          rest.takeWhile isMentionByte ≠ []
      · obtain ⟨rfl, hbefore, hrun⟩ := hhere
        have hpassing := mentionsFrom_passing (front ++ [atSign]) (rest.takeWhile isMentionByte)
          (rest.dropWhile isMentionByte)
        rw [hsplit, List.getLast?_concat] at hpassing
        have hrest := ih (rest.dropWhile isMentionByte).length (by rw [List.length_cons]; omega)
          (front ++ [atSign] ++ rest.takeWhile isMentionByte) _ rfl
        rw [← mentionedBehind_append fun b hmem => List.mem_takeWhile_imp hmem, hsplit] at hrest
        have htest : (decide (atSign = atSign) && !front.getLast?.any isAlnum &&
            !(rest.takeWhile isMentionByte).isEmpty) = true := by
          simp [hbefore, hrun]
        rw [if_pos htest, List.mem_cons, hpassing, hrest]
        simp [hbefore, hrun]
      · have htest : ¬ (decide (byte = atSign) && !front.getLast?.any isAlnum &&
            !(rest.takeWhile isMentionByte).isEmpty) = true := by
          simpa [and_assoc] using hhere
        have hrest := ih rest.length (by simp) (front ++ [byte]) rest rfl
        rw [List.getLast?_concat] at hrest
        rw [if_neg htest, hrest]
        exact (or_iff_right fun h => hhere ⟨h.1, h.2.1, h.2.2.1⟩).symm

end Scan

theorem mem_parseMentions_iff {text name : String} :
    name ∈ parseMentions text ↔ Mentioned (utf8 text) name.toList := by
  have hscan := @mem_mentionsFrom_iff name.toList [] (utf8 text)
  rw [parseMentions, List.mem_map]
  constructor
  · rintro ⟨found, hmem, rfl⟩
    rw [List.mem_eraseDups] at hmem
    rw [String.toList_ofList] at hscan ⊢
    exact hscan.1 hmem
  · intro h
    exact ⟨name.toList, List.mem_eraseDups.2 (hscan.2 h), String.ofList_toList⟩

/-! ## The accounts -/

section Accounts

variable {ι ε : Type} [DecidableEq ι] {findByUsername : String → Except ε (Option ι)}
  {commenter : ι} {resolved users : List ι} {usernames : List String}

/-- One more account, unless it is the commenter or there already. -/
theorem mem_added_iff {found user : ι} :
    user ∈ (if found ≠ commenter ∧ found ∉ resolved then resolved ++ [found] else resolved) ↔
      user ∈ resolved ∨ user ≠ commenter ∧ user = found := by
  by_cases hnew : found ≠ commenter ∧ found ∉ resolved
  · rw [if_pos hnew, List.mem_append, List.mem_singleton]
    constructor
    · rintro (hold | rfl)
      · exact Or.inl hold
      · exact Or.inr ⟨hnew.1, rfl⟩
    · rintro (hold | ⟨-, rfl⟩)
      · exact Or.inl hold
      · exact Or.inr rfl
  · rw [if_neg hnew]
    constructor
    · exact Or.inl
    · rintro (hold | ⟨hne, rfl⟩)
      · exact hold
      · exact not_not.1 fun hold => hnew ⟨hne, hold⟩

theorem nodup_added {found : ι} (h : resolved.Nodup) :
    (if found ≠ commenter ∧ found ∉ resolved then resolved ++ [found] else resolved).Nodup := by
  split
  · next hnew =>
    apply List.nodup_append.2 ⟨h, List.nodup_singleton _, _⟩
    intro a ha b hb
    rw [List.mem_singleton.1 hb]
    rintro rfl
    exact hnew.2 ha
  · exact h

theorem resolveFrom_ok (hnodup : resolved.Nodup)
    (h : resolveFrom findByUsername commenter resolved usernames = .ok users) :
    users.Nodup ∧ ∀ user, user ∈ users ↔ user ∈ resolved ∨
      user ≠ commenter ∧ ∃ name ∈ usernames, findByUsername name = .ok (some user) := by
  induction usernames generalizing resolved with
  | nil =>
    obtain rfl := Except.ok.inj h
    exact ⟨hnodup, fun user => by simp⟩
  | cons username usernames ih =>
    rw [resolveFrom] at h
    cases hfind : findByUsername username with
    | error err =>
      rw [hfind] at h
      cases h
    | ok found =>
      rw [hfind] at h
      cases found with
      | none =>
        obtain ⟨hresult, hmem⟩ := ih hnodup h
        refine ⟨hresult, fun user => ?_⟩
        rw [hmem]
        simp [hfind]
      | some found =>
        obtain ⟨hresult, hmem⟩ := ih (nodup_added hnodup) h
        refine ⟨hresult, fun user => ?_⟩
        rw [hmem, mem_added_iff, or_assoc, ← and_or_left, List.exists_mem_cons_iff, hfind,
          Except.ok.injEq, Option.some.injEq, eq_comm]

theorem resolveFrom_error {err : ε}
    (h : resolveFrom findByUsername commenter resolved usernames = .error err) :
    ∃ name ∈ usernames, findByUsername name = .error err := by
  induction usernames generalizing resolved with
  | nil => cases h
  | cons username usernames ih =>
    rw [resolveFrom] at h
    cases hfind : findByUsername username with
    | error err' =>
      rw [hfind] at h
      obtain rfl := Except.error.inj h
      exact ⟨username, List.mem_cons_self, hfind⟩
    | ok found =>
      rw [hfind] at h
      obtain ⟨name, hmem, hname⟩ : ∃ name ∈ usernames, findByUsername name = .error err := by
        cases found with
        | none => exact ih h
        | some found => exact ih h
      exact ⟨name, List.mem_cons_of_mem _ hmem, hname⟩

variable (findByUsername commenter)

/-- Who is told of a comment: each account once that the comment mentions under its name, and not the
commenter. It fails only where looking up a mentioned name does. -/
theorem resolve_exact (body : String) :
    (∀ users, resolve findByUsername commenter body = .ok users → users.Nodup ∧
      ∀ user, user ∈ users ↔ user ≠ commenter ∧
        ∃ name, Mentioned (utf8 body) name.toList ∧ findByUsername name = .ok (some user)) ∧
    ∀ err, resolve findByUsername commenter body = .error err →
      ∃ name, Mentioned (utf8 body) name.toList ∧ findByUsername name = .error err := by
  constructor
  · intro users h
    obtain ⟨hnodup, hmem⟩ := resolveFrom_ok List.nodup_nil h
    refine ⟨hnodup, fun user => ?_⟩
    rw [hmem]
    simp only [mem_parseMentions_iff, List.not_mem_nil, false_or]
  · intro err h
    obtain ⟨name, hmem, herror⟩ := resolveFrom_error h
    exact ⟨name, mem_parseMentions_iff.1 hmem, herror⟩

end Accounts

/-- Ada, mentioned twice in two spellings, is told once, and the commenter is not told. -/
theorem resolve_exact_twice :
    ([1].Nodup ∧ ∀ user, user ∈ [1] ↔ user ≠ 2 ∧ ∃ name,
      Mentioned (utf8 "@Ada and @bob, see ada@example.com: @ada") name.toList ∧
        (fun name => if name = "ada" then Except.ok (some 1) else if name = "bob" then .ok (some 2)
          else .ok none : String → Except String (Option Nat)) name = .ok (some user)) :=
  (resolve_exact (fun name => if name = "ada" then .ok (some 1) else if name = "bob" then .ok (some 2)
    else .ok none : String → Except String (Option Nat)) 2
    "@Ada and @bob, see ada@example.com: @ada").1 [1] (by decide +kernel)

end Edda.Domain.Mentions
