import Edda.Domain.Access

/-!
# Approvals and the order of the rows

Reviews are listed by a timestamp of whole seconds, and rows of one second come in any order. As long
as the rows are sorted, the reduction to the latest reviews keeps the last row of each reviewer
(`activeApprovals_of_sorted`), so that the count of approvals depends on the order of a tie exactly
where the newest reviews of one reviewer do not agree (`approvals_are_counted_iff`).
-/

set_option autoImplicit false

namespace Edda.Domain

/-- The rows are in the order of their timestamps. -/
def SortedByTime (reviews : List PrReview) : Prop :=
  reviews.Pairwise fun earlier later => earlier.createdAt ≤ later.createdAt

instance (reviews : List PrReview) : Decidable (SortedByTime reviews) :=
  inferInstanceAs (Decidable (List.Pairwise _ reviews))

/-- The reviews of a pull request in the order in which they were submitted, each with the time of
its submission. -/
structure Submissions where
  reviews : List PrReview
  sorted : SortedByTime reviews

/-- What `ORDER BY created_at` may return. -/
structure Returned (submitted : Submissions) (rows : List PrReview) : Prop where
  perm : rows.Perm submitted.reviews
  sorted : SortedByTime rows

/-- The last review of a reviewer. -/
def lastReview (reviews : List PrReview) (reviewer : UserId) : Option PrReview :=
  reviews.reverse.find? fun review => decide (review.reviewerId = reviewer)

/-- The reviewers whose last review is an approval that was not dismissed. -/
def approvingReviewers (reviews : List PrReview) : Finset UserId :=
  (reviews.map PrReview.reviewerId).toFinset.filter fun reviewer =>
    (lastReview reviews reviewer).any PrReview.isActiveApproval

/-- No review of the same reviewer has a later timestamp. -/
def Newest (reviews : List PrReview) (review : PrReview) : Prop :=
  review ∈ reviews ∧ ∀ other ∈ reviews, other.reviewerId = review.reviewerId →
    other.createdAt ≤ review.createdAt

variable {submitted : Submissions} {reviews rows : List PrReview} {review : PrReview}
  {reviewer : UserId}

/-! ## The last review -/

theorem lastReview_eq_some_iff :
    lastReview reviews reviewer = some review ↔ review.reviewerId = reviewer ∧
      ∃ before after, reviews = before ++ review :: after ∧
        ∀ other ∈ after, other.reviewerId ≠ reviewer := by
  simp only [lastReview, List.find?_eq_some_iff_append, decide_eq_true_eq, Bool.not_eq_eq_eq_not,
    Bool.not_true, decide_eq_false_iff_not]
  apply and_congr_right
  intro _
  constructor
  · rintro ⟨after, before, hreverse, hafter⟩
    refine ⟨before.reverse, after.reverse, ?_, ?_⟩
    · rw [← List.reverse_reverse reviews, hreverse]
      simp
    · exact fun other hother => hafter other (List.mem_reverse.1 hother)
  · rintro ⟨before, after, rfl, hafter⟩
    refine ⟨after.reverse, before.reverse, by simp, ?_⟩
    exact fun other hother => hafter other (List.mem_reverse.1 hother)

theorem exists_lastReview (h : reviewer ∈ reviews.map PrReview.reviewerId) :
    ∃ review, lastReview reviews reviewer = some review := by
  obtain ⟨review, hreview, rfl⟩ := List.mem_map.1 h
  cases hlast : lastReview reviews review.reviewerId with
  | some last => exact ⟨last, rfl⟩
  | none =>
    rw [lastReview, List.find?_eq_none] at hlast
    exact absurd (hlast review (List.mem_reverse.2 hreview)) (by simp)

theorem mem_approvingReviewers_iff :
    reviewer ∈ approvingReviewers reviews ↔
      ∃ review, lastReview reviews reviewer = some review ∧ review.isActiveApproval = true := by
  rw [approvingReviewers, Finset.mem_filter, List.mem_toFinset, Option.any_eq_true]
  constructor
  · rintro ⟨-, review, hlast, hactive⟩
    exact ⟨review, hlast, hactive⟩
  · rintro ⟨review, hlast, hactive⟩
    obtain ⟨rfl, before, after, rfl, -⟩ := lastReview_eq_some_iff.1 hlast
    exact ⟨by simp, review, hlast, hactive⟩

/-- In sorted rows the last review of a reviewer is a newest one. -/
theorem newest_of_lastReview (hsorted : SortedByTime reviews)
    (hlast : lastReview reviews reviewer = some review) : Newest reviews review := by
  obtain ⟨rfl, before, after, rfl, hafter⟩ := lastReview_eq_some_iff.1 hlast
  refine ⟨by simp, fun other hother hsame => ?_⟩
  rcases List.mem_append.1 hother with hbefore | hrest
  · exact (List.pairwise_append.1 hsorted).2.2 other hbefore review List.mem_cons_self
  · rcases List.mem_cons.1 hrest with rfl | hlater
    · exact le_refl _
    · exact absurd hsame (hafter other hlater)

/-- And it is what the reduction to the latest reviews keeps. -/
theorem isLatest_iff_lastReview (hsorted : SortedByTime reviews) :
    IsLatest reviews review ↔ lastReview reviews review.reviewerId = some review := by
  constructor
  · rintro ⟨before, after, rfl, -, hafter⟩
    refine lastReview_eq_some_iff.2 ⟨rfl, before, after, rfl, fun other hother hsame => ?_⟩
    have hle : review.createdAt ≤ other.createdAt :=
      (List.pairwise_cons.1 (List.pairwise_append.1 hsorted).2.1).1 other hother
    exact absurd (hafter other hother hsame) (not_lt.2 hle)
  · intro hlast
    obtain ⟨-, hnewest⟩ := newest_of_lastReview hsorted hlast
    obtain ⟨-, before, after, rfl, hafter⟩ := lastReview_eq_some_iff.1 hlast
    refine ⟨before, after, rfl, fun other hother => hnewest other (by simp [hother]), ?_⟩
    exact fun other hother hsame => absurd hsame (hafter other hother)

/-- The approvals that a merge is compared by, of sorted rows. -/
theorem activeApprovals_of_sorted (hsorted : SortedByTime reviews) :
    activeApprovals reviews = (approvingReviewers reviews).card := by
  obtain ⟨approvers, hnodup, hlength, hmem⟩ := exists_approvers reviews
  have hset : approvers.toFinset = approvingReviewers reviews := by
    ext reviewer
    rw [List.mem_toFinset, hmem, mem_approvingReviewers_iff]
    constructor
    · rintro ⟨review, hlatest, rfl, hactive⟩
      exact ⟨review, (isLatest_iff_lastReview hsorted).1 hlatest, hactive⟩
    · rintro ⟨review, hlast, hactive⟩
      obtain rfl := (lastReview_eq_some_iff.1 hlast).1
      exact ⟨review, (isLatest_iff_lastReview hsorted).2 hlast, rfl, hactive⟩
  rw [← hlength, ← hset, List.toFinset_card_of_nodup hnodup]

/-! ## Ties -/

theorem Newest.perm (h : Newest reviews review) (hperm : rows.Perm reviews) : Newest rows review :=
  ⟨hperm.mem_iff.2 h.1, fun other hother => h.2 other (hperm.mem_iff.1 hother)⟩

theorem Newest.createdAt_eq {other : PrReview} (h : Newest reviews review)
    (hother : Newest reviews other) (hsame : other.reviewerId = review.reviewerId) :
    other.createdAt = review.createdAt :=
  le_antisymm (h.2 other hother.1 hsame) (hother.2 review h.1 hsame.symm)

/-- A newest review can be returned as the last one of its reviewer, and all the others in the order
in which they were submitted. -/
theorem exists_returned (hnewest : Newest submitted.reviews review) :
    ∃ rows, Returned submitted rows ∧ lastReview rows review.reviewerId = some review ∧
      ∀ reviewer, reviewer ≠ review.reviewerId →
        lastReview rows reviewer = lastReview submitted.reviews reviewer := by
  obtain ⟨before, after, hreviews⟩ := List.append_of_mem hnewest.1
  have hsorted := submitted.sorted
  rw [hreviews] at hnewest hsorted
  obtain ⟨hbefore, hrest, hacross⟩ := List.pairwise_append.1 hsorted
  obtain ⟨hfirst, hafter⟩ := List.pairwise_cons.1 hrest
  -- the reviews of the same second go in front of it
  let tied := fun other : PrReview => decide (other.createdAt ≤ review.createdAt)
  have hsplit : after.takeWhile tied ++ after.dropWhile tied = after :=
    List.takeWhile_append_dropWhile
  generalize hties : after.takeWhile tied = ties at hsplit
  generalize hlater : after.dropWhile tied = later at hsplit
  have htie : ∀ other ∈ ties, other.createdAt ≤ review.createdAt := by
    intro other hother
    rw [← hties] at hother
    have htied : tied other = true := List.mem_takeWhile_imp hother
    exact of_decide_eq_true htied
  subst hsplit
  obtain ⟨htiesSorted, hlaterSorted, htiesLater⟩ := List.pairwise_append.1 hafter
  have hlaterLt : ∀ other ∈ later, review.createdAt < other.createdAt := by
    intro other hother
    cases hcons : later with
    | nil => exact absurd hother (hcons ▸ List.not_mem_nil)
    | cons first rest =>
      have hheadLt : review.createdAt < first.createdAt := by
        have hhead := List.head?_dropWhile_not tied (ties ++ later)
        rw [hlater, hcons, List.head?_cons] at hhead
        simpa [tied] using hhead
      rw [hcons] at hother hlaterSorted
      rcases List.mem_cons.1 hother with rfl | hmem
      · exact hheadLt
      · exact hheadLt.trans_le ((List.pairwise_cons.1 hlaterSorted).1 other hmem)
  refine ⟨before ++ (ties ++ review :: later), ⟨?_, ?_⟩, ?_, ?_⟩
  · rw [hreviews]
    exact List.Perm.append_left before List.perm_middle
  · refine List.pairwise_append.2 ⟨hbefore, List.pairwise_append.2 ⟨htiesSorted, ?_, ?_⟩, ?_⟩
    · exact List.pairwise_cons.2 ⟨fun other hother => (hlaterLt other hother).le, hlaterSorted⟩
    · intro tie htieMem other hother
      rcases List.mem_cons.1 hother with rfl | hmem
      · exact htie tie htieMem
      · exact htiesLater tie htieMem other hmem
    · intro earlier hearlier other hother
      apply hacross earlier hearlier other
      simp only [List.mem_append, List.mem_cons] at hother ⊢
      tauto
  · refine lastReview_eq_some_iff.2 ⟨rfl, before ++ ties, later, by simp, ?_⟩
    intro other hother hsame
    have hle := hnewest.2 other (by simp [hother]) hsame
    exact absurd (hlaterLt other hother) (not_lt.2 hle)
  · intro reviewer hne
    rw [hreviews, lastReview, lastReview]
    simp only [List.reverse_append, List.reverse_cons, List.find?_append, List.find?_cons,
      List.find?_nil, decide_eq_false (Ne.symm hne), Option.or_none, Option.or_assoc]

/-- Rows are counted right and alike in any order exactly if the newest reviews of each reviewer,
where several have one timestamp, are all active approvals or none of them is. -/
theorem approvals_are_counted_iff (submitted : Submissions) :
    ((∀ rows, Returned submitted rows →
        activeApprovals rows = (approvingReviewers submitted.reviews).card) ∧
      ∀ rows others, Returned submitted rows → Returned submitted others →
        activeApprovals rows = activeApprovals others) ↔
    ∀ review other, Newest submitted.reviews review → Newest submitted.reviews other →
      other.reviewerId = review.reviewerId → other.isActiveApproval = review.isActiveApproval := by
  constructor
  · rintro ⟨hcount, -⟩
    -- the newest review of a reviewer agrees with the one that was submitted last
    have hlast : ∀ review last, Newest submitted.reviews review →
        lastReview submitted.reviews review.reviewerId = some last →
        review.isActiveApproval = last.isActiveApproval := by
      intro review last hnewest hlast
      obtain ⟨rows, hreturned, hrow, hothers⟩ := exists_returned hnewest
      have hcard := hcount rows hreturned
      rw [activeApprovals_of_sorted hreturned.sorted] at hcard
      have hrest : ∀ reviewer, reviewer ≠ review.reviewerId →
          (reviewer ∈ approvingReviewers rows ↔
            reviewer ∈ approvingReviewers submitted.reviews) := by
        intro reviewer hne
        rw [mem_approvingReviewers_iff, mem_approvingReviewers_iff, hothers reviewer hne]
      have hrows : review.reviewerId ∈ approvingReviewers rows ↔
          review.isActiveApproval = true := by
        rw [mem_approvingReviewers_iff, hrow]
        simp
      have hsubmitted : review.reviewerId ∈ approvingReviewers submitted.reviews ↔
          last.isActiveApproval = true := by
        rw [mem_approvingReviewers_iff, hlast]
        simp
      rw [Bool.eq_iff_iff, ← hrows, ← hsubmitted]
      constructor
      · intro hmem
        by_contra hnot
        have hsubset : approvingReviewers submitted.reviews ⊂ approvingReviewers rows := by
          refine (Finset.ssubset_iff_of_subset fun reviewer h => ?_).2 ⟨_, hmem, hnot⟩
          exact (hrest reviewer fun heq => hnot (heq ▸ h)).2 h
        exact absurd hcard (Finset.card_lt_card hsubset).ne'
      · intro hmem
        by_contra hnot
        have hsubset : approvingReviewers rows ⊂ approvingReviewers submitted.reviews := by
          refine (Finset.ssubset_iff_of_subset fun reviewer h => ?_).2 ⟨_, hmem, hnot⟩
          exact (hrest reviewer fun heq => hnot (heq ▸ h)).1 h
        exact absurd hcard (Finset.card_lt_card hsubset).ne
    intro review other hreview hother hsame
    obtain ⟨last, heq⟩ := exists_lastReview (List.mem_map_of_mem hreview.1)
    rw [hlast review last hreview heq, hlast other last hother (hsame ▸ heq)]
  · intro hties
    have hcount : ∀ rows, Returned submitted rows →
        activeApprovals rows = (approvingReviewers submitted.reviews).card := by
      intro rows hreturned
      rw [activeApprovals_of_sorted hreturned.sorted]
      congr 1
      ext reviewer
      rw [mem_approvingReviewers_iff, mem_approvingReviewers_iff]
      by_cases hmem : reviewer ∈ submitted.reviews.map PrReview.reviewerId
      · obtain ⟨last, hlast⟩ := exists_lastReview hmem
        obtain ⟨row, hrow⟩ := exists_lastReview
          ((hreturned.perm.map PrReview.reviewerId).mem_iff.2 hmem)
        have hnewest := (newest_of_lastReview hreturned.sorted hrow).perm hreturned.perm.symm
        have hsame : row.reviewerId = last.reviewerId :=
          (lastReview_eq_some_iff.1 hrow).1.trans (lastReview_eq_some_iff.1 hlast).1.symm
        have hagree := hties last row (newest_of_lastReview submitted.sorted hlast) hnewest hsame
        simp [hlast, hrow, hagree]
      · have hnone : ∀ reviews : List PrReview, reviewer ∉ reviews.map PrReview.reviewerId →
            lastReview reviews reviewer = none := by
          intro reviews hnot
          rw [lastReview, List.find?_eq_none]
          intro review hreview
          have hne : review.reviewerId ≠ reviewer := fun heq =>
            hnot (heq ▸ List.mem_map_of_mem (List.mem_reverse.1 hreview))
          simpa using hne
        rw [hnone _ hmem, hnone _ fun h => hmem ((hreturned.perm.map _).mem_iff.1 h)]
    refine ⟨hcount, fun rows others hrows hothers => ?_⟩
    rw [hcount rows hrows, hcount others hothers]

/-! ## Two reviews of one second -/

/-- A review of one reviewer at one time. -/
def reviewAt (state : ReviewState) : PrReview := ⟨1, 7, state, 1700000000, none⟩

/-- Changes are requested and, within the same second, the pull request is approved. -/
def changedMind : Submissions :=
  ⟨[reviewAt .changesRequested, reviewAt .approved], by decide⟩

/-- The rows may come back the other way round, and then the approval is not counted. -/
theorem approval_of_same_second_is_lost :
    Returned changedMind [reviewAt .approved, reviewAt .changesRequested] ∧
      activeApprovals [reviewAt .approved, reviewAt .changesRequested] = 0 ∧
      (approvingReviewers changedMind.reviews).card = 1 := by
  exact ⟨⟨List.Perm.swap _ _ _, by decide⟩, by decide, by decide⟩

end Edda.Domain
