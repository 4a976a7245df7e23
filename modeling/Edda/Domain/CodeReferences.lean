import Edda.Domain.CrossReferences
import Edda.Support.CommonMark

/-!
# References in code

A renderer shows what CommonMark takes for code as it is written, and so no reference there is one. The
scanner has its own sense of code, which is a line's: a line that begins like a fence, an odd number of
such lines above, or an odd number of backticks before on the line. `wellFormed_iff` says that the
references of a body are the right ones exactly if the two agree at each of them.
-/

set_option autoImplicit false

namespace Edda.Domain.CodeReferences

open Edda.Support Edda.Support.RustText Edda.Domain.CrossReferences

/-- Every byte of the reference is in a code span or in a fenced block. -/
def InCode (body : String) (ref : Ref) : Prop :=
  ∀ offset < ref.stop, ref.start ≤ offset → (CommonMark.code (utf8 body))[offset]? = some true

instance (body : String) (ref : Ref) : Decidable (InCode body ref) :=
  inferInstanceAs (Decidable (∀ offset < ref.stop, ref.start ≤ offset →
    (CommonMark.code (utf8 body))[offset]? = some true))

/-- The scanner's sense of code is CommonMark's at every reference of the body. -/
def Fits (body : String) : Prop :=
  ∀ ref ∈ tokens body, takenForCode (utf8 body) ref.start = true ↔ InCode body ref

structure WellFormed (body : String) : Prop where
  ordered : (parseCrossReferenceSpans body).Pairwise fun first second => first.2.1 ≤ second.1
  placed : ∀ start stop cref, (start, stop, cref) ∈ parseCrossReferenceSpans body →
    StandsIn body ⟨start, stop, cref⟩
  outsideCode : ∀ start stop cref, (start, stop, cref) ∈ parseCrossReferenceSpans body →
    ¬ InCode body ⟨start, stop, cref⟩
  /-- What is outside of code is not left out. -/
  complete : ∀ ref ∈ tokens body, ¬ InCode body ref →
    (ref.start, ref.stop, ref.cref) ∈ parseCrossReferenceSpans body
  closing : ∀ cref ∈ parseClosingReferences body, cref ∈ parseCrossReferences body

section

variable {body : String}

theorem mem_spans {start stop : Nat} {cref : CrossReference} :
    (start, stop, cref) ∈ parseCrossReferenceSpans body ↔ ⟨start, stop, cref⟩ ∈ scanRefs body := by
  rw [parseCrossReferenceSpans, List.mem_map]
  constructor
  · rintro ⟨ref, hmem, heq⟩
    obtain ⟨rfl, hrest⟩ := Prod.mk.inj heq
    obtain ⟨rfl, rfl⟩ := Prod.mk.inj hrest
    exact hmem
  · exact fun hmem => ⟨_, hmem, rfl⟩

/-- Without backticks and tildes the scanner takes nothing for code. -/
theorem takenAt_of_plain {front rest : Bytes} (hfront : CommonMark.Plain front)
    (hrest : CommonMark.Plain rest) : takenAt front rest = false := by
  have hbegins {line : Bytes} (hline : CommonMark.Plain line) : beginsFence line = false := by
    have hsub := CommonMark.subset_outdent 3 line
    rw [beginsFence]
    cases htext : CommonMark.outdent 3 line with
    | nil => rfl
    | cons byte text =>
      rw [htext] at hsub
      obtain ⟨hbacktick, htilde⟩ := hline byte (hsub List.mem_cons_self)
      simp [List.isPrefixOf, backtick, tilde, Ne.symm hbacktick, Ne.symm htilde]
  obtain ⟨previous, line, hlines⟩ : ∃ previous line, front.splitOn newline = previous ++ [line] :=
    ⟨_, _, (List.dropLast_append_getLast (List.splitOn_ne_nil _ _)).symm⟩
  have hplain {part : Bytes} (hmem : part ∈ previous ++ [line]) : CommonMark.Plain part :=
    fun byte hbyte => hfront byte (Segments.subset_of_mem_splitOn (hlines ▸ hmem) hbyte)
  have hline := hplain (List.mem_append_right _ List.mem_cons_self)
  have habove : previous.countP beginsFence = 0 := by
    apply List.countP_eq_zero.2
    intro above hmem
    rw [hbegins (hplain (List.mem_append_left _ hmem))]
    exact Bool.false_ne_true
  have hnone : line.count backtick = 0 := List.count_eq_zero.2 fun hmem => (hline _ hmem).1 rfl
  rw [takenAt_eq hlines, hbegins (hline.append hrest), habove, hnone]
  rfl

/-- And neither does CommonMark. -/
theorem fits_of_plain (h : CommonMark.Plain (utf8 body)) : Fits body := by
  intro ref hmem
  have htaken : takenForCode (utf8 body) ref.start = false := by
    apply takenAt_of_plain
    · exact fun byte hbyte => h byte (List.mem_of_mem_take hbyte)
    · exact fun byte hbyte => h byte (List.mem_of_mem_drop hbyte)
  have hcode : ¬ InCode body ref := fun hin =>
    CommonMark.code_of_plain h
      (List.mem_of_getElem? (hin ref.start (standsIn_of_mem hmem).1 (Nat.le_refl _)))
  exact ⟨fun htrue => absurd htrue (by rw [htaken]; exact Bool.false_ne_true),
    fun hin => absurd hin hcode⟩

/-- The references of a body are the right ones if and only if the scanner's sense of code is
CommonMark's at every reference. -/
theorem wellFormed_iff (body : String) : WellFormed body ↔ Fits body := by
  constructor
  · intro h ref hmem
    constructor
    · intro htaken
      by_contra hplain
      have hreported := mem_scanRefs.1 (mem_spans.1 (h.complete ref hmem hplain))
      rw [hreported.2] at htaken
      cases htaken
    · intro hcode
      by_contra htaken
      have hreported := mem_scanRefs.2 ⟨hmem, Bool.eq_false_of_not_eq_true htaken⟩
      exact h.outsideCode _ _ _ (mem_spans.2 hreported) hcode
  · intro h
    refine ⟨?_, ?_, ?_, ?_, fun cref hmem => mem_of_mem_closing hmem⟩
    · rw [parseCrossReferenceSpans, List.pairwise_map]
      exact (marked_scanRefs body).pairwise
    · exact fun start stop cref hmem => standsIn_of_mem (mem_scanRefs.1 (mem_spans.1 hmem)).1
    · intro start stop cref hmem hcode
      obtain ⟨htoken, htaken⟩ := mem_scanRefs.1 (mem_spans.1 hmem)
      rw [(h _ htoken).2 hcode] at htaken
      cases htaken
    · intro ref hmem hplain
      have htaken := mt (h ref hmem).1 hplain
      exact mem_spans.2 (mem_scanRefs.2 ⟨hmem, Bool.eq_false_of_not_eq_true htaken⟩)

end

/-- A span between two backticks on each side is code, but the scanner leaves it again at the second
of them. -/
theorem double_backticks_hide_nothing : ¬ WellFormed "``#5``" := by
  intro h
  have hspan : (2, 4, ⟨none, 5⟩) ∈ parseCrossReferenceSpans "``#5``" := by decide +kernel
  exact h.outsideCode 2 4 ⟨none, 5⟩ hspan (by decide +kernel)

end Edda.Domain.CodeReferences
