import Edda.Domain.BranchProtection

/-!
# Pull requests, reviews and commit statuses

The data of a pull request, and the two counts its merge depends on: the approvals among the
latest reviews of its reviewers, and the required checks among the statuses of a commit.

`mem_latestReviews_iff` says which reviews the reduction to the latest ones keeps, and
`exists_approvers` that the count is one of reviewers.
-/

set_option autoImplicit false

namespace Edda.Domain

abbrev PullRequestId := BitVec 128

/-- How a merged pull request's changes are combined into the target branch. -/
inductive MergeStrategy where
  | merge
  | squash
  | rebase
  | fastForwardOnly
  deriving DecidableEq, Repr

inductive CloseReason where
  | completed
  | notPlanned
  deriving DecidableEq, Repr

/-- A branch of a repository. -/
structure PrRef where
  repositoryId : RepositoryId
  branch : String
  deriving DecidableEq, Repr

inductive PrState where
  | «open»
  | draft
  | merged (mergedAt : Int) (mergeCommit : String) (strategy : MergeStrategy)
  | closed (closedAt : Int) (reason : CloseReason)
  deriving DecidableEq, Repr

def PrState.isOpen : PrState → Bool
  | .open => true
  | .draft => true
  | .merged _ _ _ => false
  | .closed _ _ => false

structure PullRequest where
  id : PullRequestId
  repositoryId : RepositoryId
  number : Int
  title : String
  body : Option String
  source : PrRef
  target : String
  state : PrState
  deriving DecidableEq, Repr

/-! ## Reviews -/

inductive ReviewState where
  | approved
  | changesRequested
  | commented
  deriving DecidableEq, Repr

structure PrReview where
  pullRequestId : PullRequestId
  reviewerId : UserId
  state : ReviewState
  createdAt : Int
  dismissedAt : Option Int
  deriving DecidableEq, Repr

/-- An approval that no push has dismissed. -/
def PrReview.isActiveApproval (review : PrReview) : Bool :=
  decide (review.state = .approved) && review.dismissedAt.isNone

/-- The review that is kept of a new review and the entry of its reviewer. -/
def laterReview (current review : PrReview) : PrReview :=
  -- of two reviews of one second the one that is listed last wins
  if current.createdAt ≤ review.createdAt then review else current

/-- Enters a review in a table with one entry a reviewer. -/
def noteReview (review : PrReview) : List PrReview → List PrReview
  | [] => [review]
  | current :: rest =>
    if current.reviewerId = review.reviewerId then laterReview current review :: rest
    else current :: noteReview review rest

/-- One entry a reviewer, in the order in which the reviewers first appear. -/
def latestReviews (reviews : List PrReview) : List PrReview :=
  reviews.foldl (fun latest review => noteReview review latest) []

/-- How many reviewers approve. -/
def activeApprovals (reviews : List PrReview) : Nat :=
  ((latestReviews reviews).filter PrReview.isActiveApproval).length

/-- No review of the same reviewer is newer, and among those of the same time it is the last one. -/
def IsLatest (reviews : List PrReview) (review : PrReview) : Prop :=
  ∃ before after, reviews = before ++ review :: after ∧
    (∀ other ∈ before, other.reviewerId = review.reviewerId →
      other.createdAt ≤ review.createdAt) ∧
    ∀ other ∈ after, other.reviewerId = review.reviewerId → other.createdAt < review.createdAt

theorem reviewerId_laterReview {current review : PrReview}
    (h : current.reviewerId = review.reviewerId) :
    (laterReview current review).reviewerId = current.reviewerId := by
  simp only [laterReview]
  split
  · exact h.symm
  · rfl

theorem latestReviews_append (reviews : List PrReview) (review : PrReview) :
    latestReviews (reviews ++ [review]) = noteReview review (latestReviews reviews) := by
  simp only [latestReviews, List.foldl_append, List.foldl_cons, List.foldl_nil]

/-- The reviewers of a table after a review was entered. -/
theorem reviewers_noteReview (review : PrReview) (latest : List PrReview) :
    (noteReview review latest).map PrReview.reviewerId =
      if review.reviewerId ∈ latest.map PrReview.reviewerId then latest.map PrReview.reviewerId
      else latest.map PrReview.reviewerId ++ [review.reviewerId] := by
  induction latest with
  | nil => rfl
  | cons current rest ih =>
    simp only [noteReview]
    by_cases hsame : current.reviewerId = review.reviewerId
    · rw [if_pos hsame, if_pos (by simp [hsame])]
      simp only [List.map_cons, reviewerId_laterReview hsame]
    · rw [if_neg hsame]
      simp only [List.map_cons, ih, List.mem_cons, Ne.symm hsame, false_or]
      split <;> rfl

theorem nodup_reviewers (reviews : List PrReview) :
    ((latestReviews reviews).map PrReview.reviewerId).Nodup := by
  induction reviews using List.reverseRecOn with
  | nil => exact List.nodup_nil
  | append_singleton reviews review ih =>
    rw [latestReviews_append, reviewers_noteReview]
    split
    · exact ih
    · rename_i hnew
      exact List.nodup_append.2 ⟨ih, List.nodup_singleton _, by
        intro a ha b hb heq
        rw [List.mem_singleton.1 hb] at heq
        exact hnew (heq ▸ ha)⟩

/-- The entries of a table after a review was entered: those of the other reviewers, and the later
one of the review and the old entry of its reviewer. -/
theorem mem_noteReview {review entry : PrReview} {latest : List PrReview}
    (hnodup : (latest.map PrReview.reviewerId).Nodup) :
    entry ∈ noteReview review latest ↔
      (entry ∈ latest ∧ entry.reviewerId ≠ review.reviewerId) ∨
      (∃ current ∈ latest, current.reviewerId = review.reviewerId ∧
        entry = laterReview current review) ∨
      (review.reviewerId ∉ latest.map PrReview.reviewerId ∧ entry = review) := by
  induction latest with
  | nil => simp [noteReview]
  | cons current rest ih =>
    obtain ⟨hnew, hrest⟩ := List.nodup_cons.1 hnodup
    simp only [noteReview]
    by_cases hsame : current.reviewerId = review.reviewerId
    · rw [if_pos hsame]
      have hothers : ∀ other ∈ rest, other.reviewerId ≠ review.reviewerId := by
        intro other hother heq
        exact hnew (List.mem_map.2 ⟨other, hother, heq.trans hsame.symm⟩)
      constructor
      · intro h
        rcases List.mem_cons.1 h with rfl | h
        · exact Or.inr (Or.inl ⟨current, by simp, hsame, rfl⟩)
        · exact Or.inl ⟨List.mem_cons_of_mem _ h, hothers entry h⟩
      · rintro (⟨h, hne⟩ | ⟨other, hother, heq, rfl⟩ | ⟨hnone, -⟩)
        · rcases List.mem_cons.1 h with rfl | h
          · exact absurd hsame hne
          · exact List.mem_cons_of_mem _ h
        · rcases List.mem_cons.1 hother with rfl | hother
          · exact List.mem_cons_self
          · exact absurd heq (hothers other hother)
        · exact absurd (by simp [hsame]) hnone
    · rw [if_neg hsame]
      have hskip : (∃ other ∈ current :: rest, other.reviewerId = review.reviewerId ∧
            entry = laterReview other review) ↔
          ∃ other ∈ rest, other.reviewerId = review.reviewerId ∧
            entry = laterReview other review := by
        simp [hsame]
      rw [hskip]
      simp only [List.mem_cons, ih hrest, List.map_cons, Ne.symm hsame, false_or]
      constructor
      · rintro (rfl | ⟨h, hne⟩ | h | h)
        · exact Or.inl ⟨Or.inl rfl, hsame⟩
        · exact Or.inl ⟨Or.inr h, hne⟩
        · exact Or.inr (Or.inl h)
        · exact Or.inr (Or.inr h)
      · rintro (⟨rfl | h, hne⟩ | h | h)
        · exact Or.inl rfl
        · exact Or.inr (Or.inl ⟨h, hne⟩)
        · exact Or.inr (Or.inr (Or.inl h))
        · exact Or.inr (Or.inr (Or.inr h))

/-- A reviewer of some review has an entry. -/
theorem mem_reviewers_latestReviews (reviews : List PrReview) (reviewer : UserId) :
    reviewer ∈ (latestReviews reviews).map PrReview.reviewerId ↔
      reviewer ∈ reviews.map PrReview.reviewerId := by
  induction reviews using List.reverseRecOn with
  | nil => rfl
  | append_singleton reviews review ih =>
    rw [latestReviews_append, reviewers_noteReview]
    split
    · rename_i hold
      rw [ih]
      constructor
      · intro h
        simp only [List.map_append, List.mem_append]
        exact Or.inl h
      · intro h
        simp only [List.map_append, List.mem_append, List.map_cons, List.map_nil,
          List.mem_singleton] at h
        rcases h with h | rfl
        · exact h
        · exact ih.1 hold
    · simp only [List.mem_append, ih, List.map_append, List.map_cons, List.map_nil,
        List.mem_singleton]

theorem isLatest_append {reviews : List PrReview} {review entry : PrReview} :
    IsLatest (reviews ++ [review]) entry ↔
      (IsLatest reviews entry ∧
        (review.reviewerId = entry.reviewerId → review.createdAt < entry.createdAt)) ∨
      (entry = review ∧ ∀ other ∈ reviews, other.reviewerId = review.reviewerId →
        other.createdAt ≤ review.createdAt) := by
  constructor
  · rintro ⟨before, after, heq, hbefore, hafter⟩
    rcases List.eq_nil_or_concat after with rfl | ⟨after, last, rfl⟩
    · obtain ⟨rfl, hlast⟩ := List.append_inj' heq rfl
      obtain rfl := (List.cons.inj hlast).1
      exact Or.inr ⟨rfl, hbefore⟩
    · rw [List.concat_eq_append, ← List.cons_append, ← List.append_assoc] at heq
      obtain ⟨rfl, hlast⟩ := List.append_inj' heq rfl
      obtain rfl := (List.cons.inj hlast).1
      refine Or.inl ⟨⟨before, after, rfl, hbefore, ?_⟩, hafter review (by simp)⟩
      intro other hother
      exact hafter other (by simp [hother])
  · rintro (⟨⟨before, after, rfl, hbefore, hafter⟩, hlast⟩ | ⟨rfl, hall⟩)
    · refine ⟨before, after ++ [review], by simp, hbefore, ?_⟩
      intro other hother
      rcases List.mem_append.1 hother with hother | hother
      · exact hafter other hother
      · obtain rfl := List.mem_singleton.1 hother
        exact hlast
    · exact ⟨reviews, [], rfl, hall, by simp⟩

/-- A latest review is one of the reviews, and no review of its reviewer is newer. -/
theorem IsLatest.newest {reviews : List PrReview} {review other : PrReview}
    (h : IsLatest reviews review) (hother : other ∈ reviews)
    (hsame : other.reviewerId = review.reviewerId) : other.createdAt ≤ review.createdAt := by
  obtain ⟨before, after, rfl, hbefore, hafter⟩ := h
  rcases List.mem_append.1 hother with hother | hother
  · exact hbefore other hother hsame
  · rcases List.mem_cons.1 hother with rfl | hother
    · exact le_refl _
    · exact (hafter other hother hsame).le

theorem IsLatest.mem {reviews : List PrReview} {review : PrReview} (h : IsLatest reviews review) :
    review ∈ reviews := by
  obtain ⟨before, after, rfl, -, -⟩ := h
  simp

/-- The table holds the latest review of every reviewer. -/
theorem mem_latestReviews_iff (reviews : List PrReview) (entry : PrReview) :
    entry ∈ latestReviews reviews ↔ IsLatest reviews entry := by
  induction reviews using List.reverseRecOn generalizing entry with
  | nil =>
    constructor
    · intro h
      exact absurd h (by simp [latestReviews])
    · intro h
      exact absurd h.mem (by simp)
  | append_singleton reviews review ih =>
    rw [latestReviews_append, mem_noteReview (nodup_reviewers reviews), isLatest_append]
    constructor
    · rintro (⟨h, hne⟩ | ⟨current, hcurrent, hsame, rfl⟩ | ⟨hnew, rfl⟩)
      · exact Or.inl ⟨(ih entry).1 h, fun heq => absurd heq.symm hne⟩
      · have hlatest := (ih current).1 hcurrent
        by_cases hle : current.createdAt ≤ review.createdAt
        · rw [laterReview, if_pos hle]
          refine Or.inr ⟨rfl, fun other hother heq => ?_⟩
          exact (hlatest.newest hother (heq.trans hsame.symm)).trans hle
        · rw [laterReview, if_neg hle]
          exact Or.inl ⟨hlatest, fun _ => not_le.1 hle⟩
      · refine Or.inr ⟨rfl, fun other hother heq => ?_⟩
        rw [mem_reviewers_latestReviews] at hnew
        exact absurd (List.mem_map.2 ⟨other, hother, heq⟩) hnew
    · rintro (⟨hlatest, hlast⟩ | ⟨rfl, hall⟩)
      · have hmem := (ih entry).2 hlatest
        by_cases hsame : entry.reviewerId = review.reviewerId
        · refine Or.inr (Or.inl ⟨entry, hmem, hsame, ?_⟩)
          rw [laterReview, if_neg (not_le.2 (hlast hsame.symm))]
        · exact Or.inl ⟨hmem, hsame⟩
      · by_cases hknown : entry.reviewerId ∈ (latestReviews reviews).map PrReview.reviewerId
        · obtain ⟨current, hcurrent, hsame⟩ := List.mem_map.1 hknown
          have hle := hall current ((ih current).1 hcurrent).mem hsame
          refine Or.inr (Or.inl ⟨current, hcurrent, hsame, ?_⟩)
          rw [laterReview, if_pos hle]
        · exact Or.inr (Or.inr ⟨hknown, rfl⟩)

/-- The approvals are counted by reviewer: the count is the number of reviewers whose latest review
is an approval that was not dismissed. -/
theorem exists_approvers (reviews : List PrReview) :
    ∃ approvers : List UserId, approvers.Nodup ∧ approvers.length = activeApprovals reviews ∧
      ∀ reviewer, reviewer ∈ approvers ↔
        ∃ review, IsLatest reviews review ∧ review.reviewerId = reviewer ∧
          review.isActiveApproval = true := by
  refine ⟨((latestReviews reviews).filter PrReview.isActiveApproval).map PrReview.reviewerId,
    ?_, ?_, ?_⟩
  · have hsublist := (List.filter_sublist (p := PrReview.isActiveApproval)
      (l := latestReviews reviews)).map PrReview.reviewerId
    exact hsublist.nodup (nodup_reviewers reviews)
  · simp only [List.length_map, activeApprovals]
  · intro reviewer
    simp only [List.mem_map, List.mem_filter, mem_latestReviews_iff]
    constructor
    · rintro ⟨review, ⟨hlatest, hactive⟩, rfl⟩
      exact ⟨review, hlatest, rfl, hactive⟩
    · rintro ⟨review, hlatest, rfl, hactive⟩
      exact ⟨review, ⟨hlatest, hactive⟩, rfl⟩

/-! ## Commit statuses -/

inductive CommitStatusState where
  | pending
  | success
  | failure
  | error
  deriving DecidableEq, Repr

def CommitStatusState.isSuccess (state : CommitStatusState) : Bool := decide (state = .success)

structure CommitStatus where
  repositoryId : RepositoryId
  commitSha : String
  context : String
  state : CommitStatusState
  updatedAt : Int
  deriving DecidableEq, Repr

/-- Every required context has a successful status. -/
def requiredChecksSatisfied (required : List String) (statuses : List CommitStatus) : Bool :=
  required.all fun context =>
    statuses.any fun status => decide (status.context = context) && status.state.isSuccess

theorem requiredChecksSatisfied_iff {required : List String} {statuses : List CommitStatus} :
    requiredChecksSatisfied required statuses = true ↔
      ∀ context ∈ required, ∃ status ∈ statuses,
        status.context = context ∧ status.state = .success := by
  simp [requiredChecksSatisfied, CommitStatusState.isSuccess]

end Edda.Domain
