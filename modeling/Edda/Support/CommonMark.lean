import Edda.Support.RustText

/-!
# Code in CommonMark text

Which bytes of a text are code: the fenced code blocks, and the code spans of its paragraphs and
headings. A fenced block goes from its opening fence to a fence of the same byte that is at least as
long, or to the end of the text. A code span goes from a run of backticks to the next run of the same
length in the same paragraph; a run without such a partner is text.

Lists and block quotes are read as paragraphs.
-/

set_option autoImplicit false

namespace Edda.Support.CommonMark

open Edda.Support.RustText

/-! ## Lines -/

def isSpaceOrTab (byte : UInt8) : Bool := byte = 0x20 || byte = 0x09

def isLineEnd (byte : UInt8) : Bool := byte = 0x0A || byte = 0x0D

def isBlank (bytes : Bytes) : Bool := bytes.all fun byte => isSpaceOrTab byte || isLineEnd byte

/-- The lines of a text, each with its line ending; `line` is what has been read of the first. -/
def linesFrom (line : Bytes) : Bytes → List Bytes
  | [] => [line]
  | byte :: rest =>
    -- a carriage return ends the line unless the line feed of the same ending follows
    if byte = 0x0A || byte = 0x0D && rest.head? ≠ some 0x0A then
      (line ++ [byte]) :: linesFrom [] rest
    else linesFrom (line ++ [byte]) rest

/-- The line without an indentation of up to so many spaces. -/
def outdent : Nat → Bytes → Bytes
  | n + 1, 0x20 :: line => outdent n line
  | _, line => line

section Outdent

variable {n : Nat} {line : Bytes}

theorem subset_outdent (n : Nat) (line : Bytes) : outdent n line ⊆ line := by
  induction n generalizing line with
  | zero => simp only [outdent, List.Subset.refl]
  | succ n ih =>
    cases line with
    | nil => exact List.Subset.refl _
    | cons byte line =>
      by_cases hspace : byte = 0x20
      · subst hspace
        exact List.subset_cons_of_subset _ (ih line)
      · simp [outdent, hspace]

theorem outdent_append {behind : Bytes} (h : outdent n line ≠ []) :
    outdent n (line ++ behind) = outdent n line ++ behind := by
  induction n generalizing line with
  | zero => simp only [outdent]
  | succ n ih =>
    cases line with
    | nil => exact absurd rfl h
    | cons byte line =>
      by_cases hspace : byte = 0x20
      · subst hspace
        exact ih h
      · simp [outdent, hspace]

/-- A line of spaces only leaves what stands behind it. -/
theorem outdent_of_spaces {next : UInt8} {behind : Bytes} (h : outdent n line = [])
    (hnext : next ≠ 0x20) : outdent n (line ++ next :: behind) = next :: behind := by
  induction n generalizing line with
  | zero =>
    obtain rfl : line = [] := h
    rfl
  | succ n ih =>
    cases line with
    | nil => simp [outdent, hnext]
    | cons byte line =>
      by_cases hspace : byte = 0x20
      · subst hspace
        exact ih h
      · simp [outdent, hspace] at h

end Outdent

/-! ## Fences -/

structure Fence where
  byte : UInt8
  length : Nat
  deriving DecidableEq, Repr

/-- A line that begins with a fence, and what stands behind the fence. -/
def readFence (line : Bytes) : Option (Fence × Bytes) :=
  match outdent 3 line with
  | [] => none
  | byte :: text =>
    let length := 1 + (text.takeWhile (· = byte)).length
    if (byte = 0x60 || byte = 0x7E) && 3 ≤ length then
      some (⟨byte, length⟩, text.dropWhile (· = byte))
    else none

/-- The info string of a fence of backticks has none. -/
def opensFence (line : Bytes) : Option Fence :=
  match readFence line with
  | some (fence, info) => if fence.byte = 0x60 && info.contains 0x60 then none else some fence
  | none => none

def closesFence (fence : Fence) (line : Bytes) : Bool :=
  match readFence line with
  | some (other, behind) => other.byte = fence.byte && fence.length ≤ other.length && isBlank behind
  | none => false

/-! ## Lines that end a paragraph -/

/-- An ATX heading, whose text is on its line. -/
def isHeading (line : Bytes) : Bool :=
  let text := outdent 3 line
  let level := (text.takeWhile (· = 0x23)).length
  1 ≤ level && level ≤ 6 && isBlank ((text.drop level).take 1)

/-- A thematic break. -/
def isBreak (line : Bytes) : Bool :=
  match outdent 3 line with
  | [] => false
  | byte :: text =>
    (byte = 0x2A || byte = 0x2D || byte = 0x5F) && 2 ≤ text.count byte &&
      isBlank (text.filter (· ≠ byte))

/-- The underline of a setext heading. -/
def isUnderline (line : Bytes) : Bool :=
  match outdent 3 line with
  | [] => false
  | byte :: text => (byte = 0x3D || byte = 0x2D) && isBlank (text.dropWhile (· = byte))

/-- The line is no part of the paragraph above it. -/
def standsAlone (line : Bytes) : Bool :=
  isBlank line || isHeading line || isBreak line || isUnderline line

/-! ## Code -/

/-- The length of the text up to the end of the next run of `n` backticks, where `run` backticks stand
in front of the text. -/
def closing (n run : Nat) : Bytes → Option Nat
  | [] => if run = n then some 0 else none
  | byte :: rest =>
    if byte = 0x60 then (closing n (run + 1) rest).map (· + 1)
    else if run = n then some 0
    else (closing n 0 rest).map (· + 1)

/-- For every byte of a paragraph, whether it is in a code span. So many bytes first are as said. -/
def spansFrom (code : Bool) : Nat → Bytes → List Bool
  | _, [] => []
  | passing + 1, _ :: rest => code :: spansFrom code passing rest
  | 0, byte :: rest =>
    -- an escaped backtick opens no span
    if byte = 0x5C then false :: spansFrom false 1 rest
    else if byte = 0x60 then
      let more := (rest.takeWhile (· = 0x60)).length
      match closing (more + 1) 0 (rest.drop more) with
      | some length => true :: spansFrom true (more + length) rest
      | none => false :: spansFrom false more rest
    else false :: spansFrom false 0 rest

def spans (paragraph : Bytes) : List Bool := spansFrom false 0 paragraph

/-- For every byte of the paragraph and of the lines below, whether it is code. -/
def codeFrom : Option Fence → Bytes → List Bytes → List Bool
  | _, paragraph, [] => spans paragraph
  | some fence, paragraph, line :: lines =>
    spans paragraph ++ (List.replicate line.length true ++
      codeFrom (if closesFence fence line then none else some fence) [] lines)
  | none, paragraph, line :: lines =>
    match opensFence line with
    | some fence =>
      spans paragraph ++ (List.replicate line.length true ++ codeFrom (some fence) [] lines)
    | none =>
      if standsAlone line then spans paragraph ++ (spans line ++ codeFrom none [] lines)
      else codeFrom none (paragraph ++ line) lines

/-- For every byte of the text, whether it is code. -/
def code (text : Bytes) : List Bool := codeFrom none [] (linesFrom [] text)

theorem length_spansFrom (code : Bool) (passing : Nat) (text : Bytes) :
    (spansFrom code passing text).length = text.length := by
  induction text generalizing code passing with
  | nil => cases passing <;> rfl
  | cons byte rest ih =>
    cases passing with
    | succ passing => rw [spansFrom, List.length_cons, ih, List.length_cons]
    | zero =>
      rw [spansFrom]
      split
      · rw [List.length_cons, ih, List.length_cons]
      split
      · simp only
        cases closing ((rest.takeWhile (· = 0x60)).length + 1) 0
            (rest.drop (rest.takeWhile (· = 0x60)).length) with
        | none => rw [List.length_cons, ih, List.length_cons]
        | some length => rw [List.length_cons, ih, List.length_cons]
      · rw [List.length_cons, ih, List.length_cons]

theorem flatten_linesFrom (line text : Bytes) : (linesFrom line text).flatten = line ++ text := by
  induction text generalizing line with
  | nil => rw [linesFrom, List.flatten_singleton, List.append_nil]
  | cons byte rest ih =>
    rw [linesFrom]
    split
    · rw [List.flatten_cons, ih, List.nil_append, List.append_assoc, List.singleton_append]
    · rw [ih, List.append_assoc, List.singleton_append]

theorem length_codeFrom (fence : Option Fence) (paragraph : Bytes) (lines : List Bytes) :
    (codeFrom fence paragraph lines).length = paragraph.length + lines.flatten.length := by
  induction lines generalizing fence paragraph with
  | nil =>
    rw [codeFrom, spans, length_spansFrom]
    rfl
  | cons line lines ih =>
    cases fence with
    | some fence =>
      rw [codeFrom, List.length_append, List.length_append, List.length_replicate, spans,
        length_spansFrom, ih, List.flatten_cons, List.length_append, List.length_nil, Nat.zero_add]
    | none =>
      rw [codeFrom]
      cases opensFence line with
      | some fence =>
        simp only [List.length_append, List.length_replicate, spans, length_spansFrom, ih,
          List.flatten_cons, List.length_nil, Nat.zero_add]
      | none =>
        by_cases halone : standsAlone line = true
        · simp only [halone, if_true, List.length_append, spans, length_spansFrom, ih,
            List.flatten_cons, List.length_nil, Nat.zero_add]
        · simp only [halone, Bool.false_eq_true, if_false, ih, List.length_append,
            List.flatten_cons]
          omega

/-- Every byte of the text is told to be code or not. -/
theorem length_code (text : Bytes) : (code text).length = text.length := by
  rw [code, length_codeFrom, flatten_linesFrom]
  simp

section Plain

/-- Neither a backtick nor a tilde. -/
def Plain (text : Bytes) : Prop := ∀ byte ∈ text, byte ≠ 0x60 ∧ byte ≠ 0x7E

theorem Plain.append {front behind : Bytes} (hfront : Plain front) (hbehind : Plain behind) :
    Plain (front ++ behind) := by
  intro byte hmem
  rcases List.mem_append.1 hmem with hmem | hmem
  · exact hfront byte hmem
  · exact hbehind byte hmem

theorem spansFrom_of_plain {text : Bytes} (h : Plain text) (passing : Nat) :
    true ∉ spansFrom false passing text := by
  induction text generalizing passing with
  | nil => cases passing <;> exact List.not_mem_nil
  | cons byte rest ih =>
    have hrest := ih fun other hmem => h other (List.mem_cons_of_mem _ hmem)
    cases passing with
    | succ passing => simpa [spansFrom] using hrest passing
    | zero =>
      have hbyte := (h byte List.mem_cons_self).1
      rw [spansFrom, if_neg hbyte]
      split
      · simpa using hrest 1
      · simpa using hrest 0

theorem opensFence_of_plain {line : Bytes} (h : Plain line) : opensFence line = none := by
  have hread : readFence line = none := by
    have hsub := subset_outdent 3 line
    rw [readFence]
    cases hline : outdent 3 line with
    | nil => rfl
    | cons byte text =>
      rw [hline] at hsub
      have hbyte := h byte (hsub List.mem_cons_self)
      simp [hbyte.1, hbyte.2]
  rw [opensFence, hread]

/-- Without backticks and tildes there is no code. -/
theorem code_of_plain {text : Bytes} (h : Plain text) : true ∉ code text := by
  have hlines {paragraph : Bytes} {lines : List Bytes} (hparagraph : Plain paragraph)
      (hplain : ∀ line ∈ lines, Plain line) : true ∉ codeFrom none paragraph lines := by
    induction lines generalizing paragraph with
    | nil => exact spansFrom_of_plain hparagraph 0
    | cons line lines ih =>
      have hline := hplain line List.mem_cons_self
      have hrest := fun other hmem => hplain other (List.mem_cons_of_mem _ hmem)
      rw [codeFrom, opensFence_of_plain hline]
      by_cases halone : standsAlone line = true
      · simp only [halone, if_true, List.mem_append, not_or]
        refine ⟨spansFrom_of_plain hparagraph 0, spansFrom_of_plain hline 0, ?_⟩
        exact @ih [] (fun byte hmem => absurd hmem List.not_mem_nil) hrest
      · simp only [halone, Bool.false_eq_true, if_false]
        exact ih (hparagraph.append hline) hrest
  apply hlines fun byte hmem => absurd hmem List.not_mem_nil
  intro line hline byte hmem
  have hflat := List.mem_flatten.2 ⟨line, hline, hmem⟩
  rw [flatten_linesFrom, List.nil_append] at hflat
  exact h byte hflat

end Plain

end Edda.Support.CommonMark
