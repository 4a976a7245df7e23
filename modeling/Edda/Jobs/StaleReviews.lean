import Edda.App.PullRequestService

/-!
# Stale reviews

A push is recorded after it has landed, as an event in the outbox for each branch. A dispatcher that
has read an event lists the open pull requests that come from the branch, dismisses the reviews of
one after the other where the matching rule asks for it, and claims the event at the end. Reviews,
pushes, merges and any number of dispatchers interleave, and a dispatcher can stop at any point. A
pull request that is not open yet is one that is closed and has no reviews.

`approvalsKept_iff` says which runs count exactly the approvals that were given since the last push.
-/

set_option autoImplicit false

namespace Edda.Jobs

open Edda.Domain Edda.Db Edda.Git Edda.App Edda.Support Edda.Support.RustText

/-! ## Events -/

/-- A push of a branch. `given` is how many reviews there were when the push landed; the code does
not know it. -/
structure BranchPushed where
  repositoryId : RepositoryId
  refName : String
  new : String
  given : Nat
  deriving DecidableEq, Repr

/-- The branch that a ref name names. -/
def branchOf (refName : String) : String :=
  ((stripPrefix "refs/heads/".toList refName.toList).map String.ofList).getD refName

def BranchPushed.source (event : BranchPushed) : PrRef :=
  ⟨event.repositoryId, branchOf event.refName⟩

/-- The events of a push, one for each branch that it updates to a value. -/
def branchEvents (repositoryId : RepositoryId) (updatedRefs : List (String × String))
    (given : Nat) : List BranchPushed :=
  (updatedRefs.filter fun update => (stripPrefix "refs/heads/".toList update.1.toList).isSome).map
    fun update => ⟨repositoryId, update.1, update.2, given⟩

structure EventRecord where
  event : BranchPushed
  processed : Bool
  deriving DecidableEq, Repr

/-- An event that a dispatcher has read, with the pull requests that its fan-out still goes over
once they are listed. -/
structure Dispatch where
  id : Nat
  event : BranchPushed
  remaining : Option (List PullRequest)
  deriving DecidableEq, Repr

/-! ## The tables -/

section Tables

variable (db : Database)

def insertReview (review : PrReview) : Database :=
  { db with prReviews := db.prReviews ++ [review] }

/-- Moves a pull request to another state. -/
def setPullState (id : PullRequestId) (state : PrState) : Database :=
  { db with pullRequests := db.pullRequests.map fun pr =>
      if pr.id = id then { pr with state := state } else pr }

def listOpenWithSourceBranch (source : PrRef) : List PullRequest :=
  (db.pullRequests.filter fun pr => decide (pr.source = source) && pr.state.isOpen).insertionSort
    fun a b => a.number ≤ b.number

def dismissReview (id : PullRequestId) (now : Int) (review : PrReview) : PrReview :=
  if review.pullRequestId = id ∧ review.dismissedAt = none then
    { review with dismissedAt := some now }
  else review

/-- `UPDATE pr_reviews SET dismissed_at = … WHERE pull_request_id = … AND dismissed_at IS NULL`. -/
def dismissAllForPullRequest (id : PullRequestId) (now : Int) : Database :=
  { db with prReviews := db.prReviews.map (dismissReview id now) }

/-- What the fan-out of an event does about one pull request. -/
def dismissStale (event : BranchPushed) (pr : PullRequest) (now : Int) : Database :=
  -- the deletion of a branch dismisses nothing
  if event.new = zeroId then db
  else if (db.matchingRule pr.repositoryId pr.target).any
      BranchProtectionRule.dismissStaleReviews then
    dismissAllForPullRequest db pr.id now
  else db

end Tables

/-! ## Runs -/

/-- `recording` are the events of the pushes that have landed and are not recorded yet. `lastPush`
is how many reviews there were at the last push to a branch, and `visited` how many there were when
a fan-out last came to a pull request. -/
structure State where
  db : Database
  recording : List (List BranchPushed)
  outbox : List EventRecord
  held : List Dispatch
  lastPush : PrRef → Nat
  visited : PullRequestId → Nat

def State.start (db : Database) : State := ⟨db, [], [], [], fun _ => 0, fun _ => 0⟩

/-- A request to merge, with the repositories on disk that its gate sees. -/
structure MergeAttempt where
  actor : ActorContext
  owner : String
  name : String
  number : Int
  repos : Repos

/-- `record` and `lose` name one of the pushes that are not recorded yet, `fetch` a place in the
outbox, and the steps after it a dispatcher. -/
inductive Step where
  | review (pullRequestId : PullRequestId) (reviewerId : UserId) (state : ReviewState) (now : Int)
  | setState (id : PullRequestId) (state : PrState)
  | push (repositoryId : RepositoryId) (updatedRefs : List (String × String))
  | record (place : Nat)
  | lose (place : Nat)
  | fetch (id : Nat)
  | list (place : Nat)
  | visit (place : Nat) (now : Int)
  | claim (place : Nat)
  | drop (place : Nat)
  | merge (attempt : MergeAttempt)

def step (s : State) : Step → State
  | .review pullRequestId reviewerId state now =>
    { s with db := insertReview s.db ⟨pullRequestId, reviewerId, state, now, none⟩ }
  | .setState id state => { s with db := setPullState s.db id state }
  | .push repositoryId updatedRefs =>
    let events := branchEvents repositoryId updatedRefs s.db.prReviews.length
    { s with
      recording := s.recording ++ [events]
      lastPush := fun source =>
        if ∃ event ∈ events, event.source = source then s.db.prReviews.length
        else s.lastPush source }
  | .record place => match s.recording[place]? with
    | none => s
    | some events =>
      { s with
        recording := s.recording.eraseIdx place
        outbox := s.outbox ++ events.map fun event => ⟨event, false⟩ }
  -- the process stops between the push and its record
  | .lose place => { s with recording := s.recording.eraseIdx place }
  | .fetch id => match s.outbox[id]? with
    | some ⟨event, false⟩ => { s with held := s.held ++ [⟨id, event, none⟩] }
    | _ => s
  | .list place => match s.held[place]? with
    | some ⟨id, event, none⟩ =>
      let prs := listOpenWithSourceBranch s.db event.source
      { s with held := s.held.set place ⟨id, event, some prs⟩ }
    | _ => s
  | .visit place now => match s.held[place]? with
    | some ⟨id, event, some (pr :: rest)⟩ =>
      { s with
        db := dismissStale s.db event pr now
        held := s.held.set place ⟨id, event, some rest⟩
        visited := if event.new = zeroId then s.visited
          else Function.update s.visited pr.id s.db.prReviews.length }
    | _ => s
  | .claim place => match s.held[place]? with
    | some ⟨id, _, some []⟩ =>
      { s with
        outbox := s.outbox.modify id fun record => { record with processed := true }
        held := s.held.eraseIdx place }
    | _ => s
  -- a query fails, or the dispatcher stops: the event stays in the outbox
  | .drop place => { s with held := s.held.eraseIdx place }
  | .merge _ => s

/-! ## The approvals that count -/

/-- A review of a pull request, with its place in the table. -/
def Given (db : Database) (id : PullRequestId) (index : Nat) (review : PrReview) : Prop :=
  db.prReviews[index]? = some review ∧ review.pullRequestId = id

/-- The order of the reviews in time; those of one second are in the order of the table. -/
def Earlier (a b : PrReview × Nat) : Prop :=
  a.1.createdAt < b.1.createdAt ∨ a.1.createdAt = b.1.createdAt ∧ a.2 < b.2

/-- The same reviewer has reviewed the pull request after this review. -/
def Superseded (db : Database) (id : PullRequestId) (index : Nat) (review : PrReview) : Prop :=
  ∃ index' review', Given db id index' review' ∧ review'.reviewerId = review.reviewerId ∧
    Earlier (review, index) (review', index')

/-- The latest review of its reviewer on the pull request. -/
def LatestGiven (db : Database) (id : PullRequestId) (index : Nat) (review : PrReview) : Prop :=
  Given db id index review ∧ ¬ Superseded db id index review

/-- The approvals that a merge counts: `activeApprovals` is their number. -/
def countedApprovals (db : Database) (id : PullRequestId) : List PrReview :=
  (latestReviews (db.reviewsOf id)).filter PrReview.isActiveApproval

/-- The approvals that are counted are the latest reviews that approve, of those given since. -/
def CountsSince (db : Database) (id : PullRequestId) (since : Nat) : Prop :=
  ∀ review, review ∈ countedApprovals db id ↔
    ∃ index, LatestGiven db id index review ∧ review.state = .approved ∧ since ≤ index

section Kept

variable (gix : Gix) (pr : PullRequest)

/-- The merge is allowed, and is one of the pull request. -/
def Allowed (s : State) (attempt : MergeAttempt) : Prop :=
  ∃ gate, mergeGate gix s.db attempt.repos attempt.actor attempt.owner attempt.name attempt.number =
    .ok gate ∧ gate.pr.id = pr.id

/-- A merge that is allowed counts the approvals given since the last push to the source branch, and
the fan-out of a push leaves the approvals alone that were given after the push. -/
def StepKept (s : State) : Step → Prop
  | .merge attempt => Allowed gix pr s attempt →
    CountsSince s.db pr.id (s.lastPush pr.source)
  | .visit place now => ∀ id event rest, s.held[place]? = some ⟨id, event, some rest⟩ →
    ∀ index review, Given s.db pr.id index review → review.state = .approved →
      event.given ≤ index → Given (step s (.visit place now)).db pr.id index review
  | _ => True

/-- A merge comes after a fan-out that has come to the pull request since the last approval from
before the last push, or every such approval is superseded. A fan-out comes to the pull request
while no approval from after its push stands. -/
def StepFits (s : State) : Step → Prop
  | .merge attempt => Allowed gix pr s attempt →
    s.lastPush pr.source ≤ s.visited pr.id ∨
      ∀ index review, Given s.db pr.id index review → review.isActiveApproval = true →
        index < s.lastPush pr.source → Superseded s.db pr.id index review
  | .visit place _ => ∀ id event next rest,
    s.held[place]? = some ⟨id, event, some (next :: rest)⟩ → next.id = pr.id →
      event.new ≠ zeroId → ∀ index review, Given s.db pr.id index review →
        review.isActiveApproval = true → index < event.given
  | _ => True

end Kept

/-! ## The listing of the reviews -/

section Listing

variable {db : Database} {id : PullRequestId}

/-- The reviews of a pull request with their places, oldest first. -/
def givenOf (db : Database) (id : PullRequestId) : List (PrReview × Nat) :=
  (db.prReviews.zipIdx.filter fun entry => entry.1.pullRequestId = id).insertionSort
    fun a b => a.1.createdAt ≤ b.1.createdAt

theorem map_givenOf : (givenOf db id).map Prod.fst = db.reviewsOf id := by
  rw [givenOf, List.map_insertionSort (fun a b : PrReview × Nat => a.1.createdAt ≤ b.1.createdAt)
    (fun a b : PrReview => a.createdAt ≤ b.createdAt) Prod.fst _ fun a _ b _ => Iff.rfl]
  have hfilter : (db.prReviews.zipIdx.filter fun entry => entry.1.pullRequestId = id).map
        Prod.fst =
      (db.prReviews.zipIdx.map Prod.fst).filter fun review => review.pullRequestId = id := by
    rw [List.filter_map]
    rfl
  rw [hfilter, List.zipIdx_map_fst]
  rfl

theorem mem_givenOf {review : PrReview} {index : Nat} :
    (review, index) ∈ givenOf db id ↔ Given db id index review := by
  simp only [givenOf, List.mem_insertionSort, List.mem_filter, List.mem_zipIdx_iff_getElem?,
    decide_eq_true_eq, Given]

theorem Earlier.asymm {a b : PrReview × Nat} (h : Earlier a b) : ¬ Earlier b a := by
  intro h'
  simp only [Earlier] at h h'
  omega

theorem Earlier.total {a b : PrReview × Nat} (hne : a.2 ≠ b.2) : Earlier a b ∨ Earlier b a := by
  simp only [Earlier]
  omega

/-- A sort that is stable keeps the order of the table among the reviews of one second. -/
theorem pairwise_earlier_orderedInsert {entry : PrReview × Nat} {entries : List (PrReview × Nat)}
    (hsorted : entries.Pairwise Earlier) (hfirst : ∀ other ∈ entries, entry.2 < other.2) :
    (entries.orderedInsert (fun a b => a.1.createdAt ≤ b.1.createdAt) entry).Pairwise Earlier := by
  induction entries with
  | nil => exact List.pairwise_singleton _ _
  | cons head rest ih =>
    obtain ⟨hhead, hrest⟩ := List.pairwise_cons.1 hsorted
    by_cases hle : entry.1.createdAt ≤ head.1.createdAt
    · simp only [List.orderedInsert, if_pos hle]
      refine List.pairwise_cons.2 ⟨?_, hsorted⟩
      intro other hother
      have hplace := hfirst other hother
      have htime : entry.1.createdAt ≤ other.1.createdAt := by
        rcases List.mem_cons.1 hother with rfl | hother
        · exact hle
        · have := hhead other hother
          simp only [Earlier] at this
          omega
      simp only [Earlier]
      omega
    · simp only [List.orderedInsert, if_neg hle]
      refine List.pairwise_cons.2 ⟨?_, ih hrest fun other hother =>
        hfirst other (List.mem_cons_of_mem _ hother)⟩
      intro other hother
      rcases (List.mem_orderedInsert _).1 hother with rfl | hother
      · exact Or.inl (not_le.1 hle)
      · exact hhead other hother

theorem pairwise_earlier_insertionSort {entries : List (PrReview × Nat)}
    (h : entries.Pairwise fun a b => a.2 < b.2) :
    (entries.insertionSort fun a b => a.1.createdAt ≤ b.1.createdAt).Pairwise Earlier := by
  induction entries with
  | nil => exact List.Pairwise.nil
  | cons entry entries ih =>
    obtain ⟨hfirst, hrest⟩ := List.pairwise_cons.1 h
    rw [List.insertionSort_cons]
    apply pairwise_earlier_orderedInsert (ih hrest)
    intro other hother
    exact hfirst other ((List.mem_insertionSort _).1 hother)

theorem pairwise_givenOf (db : Database) (id : PullRequestId) :
    (givenOf db id).Pairwise Earlier := by
  apply pairwise_earlier_insertionSort
  apply List.Pairwise.filter
  have hplaces : (db.prReviews.zipIdx.map Prod.snd).Pairwise (· < ·) := by
    rw [List.zipIdx_map_snd]
    exact List.pairwise_lt_range'
  exact List.pairwise_map.1 hplaces

/-- What the code keeps as the latest reviews are the reviews that no later one supersedes. -/
theorem isLatest_reviewsOf_iff {review : PrReview} :
    IsLatest (db.reviewsOf id) review ↔ ∃ index, LatestGiven db id index review := by
  constructor
  · rintro ⟨before, after, heq, hbefore, hafter⟩
    rw [← map_givenOf] at heq
    obtain ⟨earlier, others, hsplit, rfl, hothers⟩ := List.map_eq_append_iff.1 heq
    obtain ⟨⟨review', index⟩, later, rfl, rfl, rfl⟩ := List.map_eq_cons_iff.1 hothers
    have hsorted := hsplit ▸ pairwise_givenOf db id
    refine ⟨index, mem_givenOf.1 (by rw [hsplit]; simp), ?_⟩
    rintro ⟨index', other, hgiven, hsame, hearlier⟩
    have hmem := mem_givenOf.2 hgiven
    rw [hsplit] at hmem
    rcases List.mem_append.1 hmem with hmem | hmem
    · exact hearlier.asymm ((List.pairwise_append.1 hsorted).2.2 _ hmem _ List.mem_cons_self)
    · rcases List.mem_cons.1 hmem with hmem | hmem
      · rw [hmem] at hearlier
        exact hearlier.asymm hearlier
      · have hlt : other.createdAt < review'.createdAt :=
          hafter other (List.mem_map_of_mem hmem) hsame
        simp only [Earlier] at hearlier
        omega
  · rintro ⟨index, hgiven, hlatest⟩
    obtain ⟨earlier, later, hsplit⟩ := List.append_of_mem (mem_givenOf.2 hgiven)
    have hsorted := hsplit ▸ pairwise_givenOf db id
    refine ⟨earlier.map Prod.fst, later.map Prod.fst, by rw [← map_givenOf, hsplit]; simp, ?_, ?_⟩
    · intro other hother _
      obtain ⟨entry, hentry, rfl⟩ := List.mem_map.1 hother
      have hbefore := (List.pairwise_append.1 hsorted).2.2 _ hentry _ List.mem_cons_self
      simp only [Earlier] at hbefore
      omega
    · intro other hother hsame
      obtain ⟨⟨other, index'⟩, hentry, rfl⟩ := List.mem_map.1 hother
      have hafter := (List.pairwise_cons.1 (List.pairwise_append.1 hsorted).2.1).1 _ hentry
      have hmem : (other, index') ∈ givenOf db id := by
        rw [hsplit]
        simp [hentry]
      exact absurd ⟨index', other, mem_givenOf.1 hmem, hsame, hafter⟩ hlatest

theorem mem_countedApprovals {review : PrReview} :
    review ∈ countedApprovals db id ↔
      ∃ index, LatestGiven db id index review ∧ review.isActiveApproval = true := by
  rw [countedApprovals, List.mem_filter, mem_latestReviews_iff, isLatest_reviewsOf_iff]
  simp only [exists_and_right]

theorem LatestGiven.unique {a b : PrReview} {i j : Nat} (ha : LatestGiven db id i a)
    (hb : LatestGiven db id j b) (hsame : a.reviewerId = b.reviewerId) : i = j := by
  by_contra hne
  rcases Earlier.total (a := (a, i)) (b := (b, j)) hne with h | h
  · exact ha.2 ⟨j, b, hb.1, hsame.symm, h⟩
  · exact hb.2 ⟨i, a, ha.1, hsame, h⟩

end Listing

/-! ## What a step can do -/

section Steps

variable {s : State} {a : Step}

/-- An event that is not recorded yet, or in the outbox, or held by a dispatcher. -/
def Carried (s : State) (event : BranchPushed) : Prop :=
  (∃ events ∈ s.recording, event ∈ events) ∨ (∃ record ∈ s.outbox, record.event = event) ∨
    ∃ dispatch ∈ s.held, dispatch.event = event

theorem recording_step {events : List BranchPushed} (h : events ∈ (step s a).recording) :
    events ∈ s.recording ∨ ∃ repositoryId updatedRefs, a = .push repositoryId updatedRefs ∧
      events = branchEvents repositoryId updatedRefs s.db.prReviews.length := by
  cases a with
  | review _ _ _ _ | setState _ _ | drop _ | merge _ => exact Or.inl h
  | push repositoryId updatedRefs =>
    rcases List.mem_append.1 h with h | h
    · exact Or.inl h
    · exact Or.inr ⟨repositoryId, updatedRefs, rfl, List.mem_singleton.1 h⟩
  | record place =>
    simp only [step] at h
    split at h
    · exact Or.inl h
    · exact Or.inl (List.mem_of_mem_eraseIdx h)
  | lose place => exact Or.inl (List.mem_of_mem_eraseIdx h)
  | fetch _ | list _ | visit _ _ | claim _ =>
    simp only [step] at h
    split at h <;> exact Or.inl h

theorem event_of_mem_modify {records : List EventRecord} {id : Nat} {record : EventRecord}
    (h : record ∈ records.modify id fun record => { record with processed := true }) :
    ∃ old ∈ records, old.event = record.event := by
  obtain ⟨i, hi⟩ := List.mem_iff_getElem?.1 h
  rw [List.getElem?_modify] at hi
  obtain ⟨old, hold, rfl⟩ := Option.map_eq_some_iff.1 hi
  refine ⟨old, List.mem_of_getElem? hold, ?_⟩
  split <;> rfl

theorem outbox_step {record : EventRecord} (h : record ∈ (step s a).outbox) :
    (∃ old ∈ s.outbox, old.event = record.event) ∨ ∃ events ∈ s.recording, record.event ∈ events := by
  cases a with
  | review _ _ _ _ | setState _ _ | push _ _ | lose _ | drop _ | merge _ =>
    exact Or.inl ⟨record, h, rfl⟩
  | record place =>
    simp only [step] at h
    split at h
    · exact Or.inl ⟨record, h, rfl⟩
    · rename_i events hevents
      rcases List.mem_append.1 h with h | h
      · exact Or.inl ⟨record, h, rfl⟩
      · obtain ⟨event, hevent, rfl⟩ := List.mem_map.1 h
        exact Or.inr ⟨events, List.mem_of_getElem? hevents, hevent⟩
  | claim place =>
    simp only [step] at h
    split at h
    · exact Or.inl (event_of_mem_modify h)
    · exact Or.inl ⟨record, h, rfl⟩
  | fetch _ | list _ | visit _ _ =>
    simp only [step] at h
    split at h <;> exact Or.inl ⟨record, h, rfl⟩

/-- A dispatcher reads an event without pull requests, lists them, and goes over what it has
listed. -/
theorem held_step {dispatch : Dispatch} (h : dispatch ∈ (step s a).held) :
    (∃ record ∈ s.outbox, record.event = dispatch.event ∧ dispatch.remaining = none) ∨
      ∃ old ∈ s.held, old.event = dispatch.event ∧ ∀ rest, dispatch.remaining = some rest →
        rest = listOpenWithSourceBranch s.db old.event.source ∨
          ∃ all, old.remaining = some all ∧ ∀ row ∈ rest, row ∈ all := by
  have hkept : dispatch ∈ s.held → ∃ old ∈ s.held, old.event = dispatch.event ∧
      ∀ rest, dispatch.remaining = some rest →
        rest = listOpenWithSourceBranch s.db old.event.source ∨
          ∃ all, old.remaining = some all ∧ ∀ row ∈ rest, row ∈ all :=
    fun hold => ⟨dispatch, hold, rfl, fun rest hrest => Or.inr ⟨rest, hrest, fun _ hrow => hrow⟩⟩
  cases a with
  | review _ _ _ _ | setState _ _ | push _ _ | lose _ | merge _ => exact Or.inr (hkept h)
  | record place =>
    simp only [step] at h
    split at h <;> exact Or.inr (hkept h)
  | fetch id =>
    simp only [step] at h
    split at h
    · rename_i event hevent
      rcases List.mem_append.1 h with h | h
      · exact Or.inr (hkept h)
      · obtain rfl := List.mem_singleton.1 h
        exact Or.inl ⟨_, List.mem_of_getElem? hevent, rfl, rfl⟩
    · exact Or.inr (hkept h)
  | list place =>
    simp only [step] at h
    split at h
    · rename_i id event hheld
      rcases List.mem_or_eq_of_mem_set h with h | rfl
      · exact Or.inr (hkept h)
      · refine Or.inr ⟨_, List.mem_of_getElem? hheld, rfl, fun rest hrest => ?_⟩
        exact Or.inl (Option.some.inj hrest).symm
    · exact Or.inr (hkept h)
  | visit place now =>
    simp only [step] at h
    split at h
    · rename_i id event next rest hheld
      rcases List.mem_or_eq_of_mem_set h with h | rfl
      · exact Or.inr (hkept h)
      · refine Or.inr ⟨_, List.mem_of_getElem? hheld, rfl, fun later hlater => ?_⟩
        obtain rfl := Option.some.inj hlater
        exact Or.inr ⟨next :: rest, rfl, fun _ hrow => List.mem_cons_of_mem _ hrow⟩
    · exact Or.inr (hkept h)
  | claim place =>
    simp only [step] at h
    split at h
    · exact Or.inr (hkept (List.mem_of_mem_eraseIdx h))
    · exact Or.inr (hkept h)
  | drop place => exact Or.inr (hkept (List.mem_of_mem_eraseIdx h))

/-- Every event comes from a push. -/
theorem carried_step {event : BranchPushed} (h : Carried (step s a) event) :
    Carried s event ∨ ∃ repositoryId updatedRefs, a = .push repositoryId updatedRefs ∧
      event ∈ branchEvents repositoryId updatedRefs s.db.prReviews.length := by
  rcases h with ⟨events, hevents, hmem⟩ | ⟨record, hrecord, rfl⟩ | ⟨dispatch, hdispatch, rfl⟩
  · rcases recording_step hevents with hold | ⟨repositoryId, updatedRefs, ha, rfl⟩
    · exact Or.inl (Or.inl ⟨events, hold, hmem⟩)
    · exact Or.inr ⟨repositoryId, updatedRefs, ha, hmem⟩
  · rcases outbox_step hrecord with hold | hold
    · exact Or.inl (Or.inr (Or.inl hold))
    · exact Or.inl (Or.inl hold)
  · rcases held_step hdispatch with ⟨record, hrecord, heq, -⟩ | ⟨old, hold, heq, -⟩
    · exact Or.inl (Or.inr (Or.inl ⟨record, hrecord, heq⟩))
    · exact Or.inl (Or.inr (Or.inr ⟨old, hold, heq⟩))

/-- What the fan-out leaves of the other tables. -/
theorem dismissStale_eq (db : Database) (event : BranchPushed) (pr : PullRequest) (now : Int) :
    dismissStale db event pr now = db ∨
      dismissStale db event pr now = dismissAllForPullRequest db pr.id now := by
  simp only [dismissStale]
  split
  · exact Or.inl rfl
  · split
    · exact Or.inr rfl
    · exact Or.inl rfl

/-- No step takes a review out of the table. -/
theorem length_prReviews_step :
    s.db.prReviews.length ≤ (step s a).db.prReviews.length := by
  cases a with
  | review _ _ _ _ => simp [step, insertReview]
  | visit place now =>
    simp only [step]
    split
    · rename_i id event next rest hheld
      rcases dismissStale_eq s.db event next now with heq | heq <;>
        simp [heq, dismissAllForPullRequest]
    · exact le_refl _
  | setState _ _ | push _ _ | lose _ | drop _ | merge _ => exact le_refl _
  | record _ | fetch _ | list _ | claim _ =>
    simp only [step]
    split <;> exact le_refl _

/-- A step changes no pull request but for its state. -/
theorem pullRequests_step {row : PullRequest} (h : row ∈ (step s a).db.pullRequests) :
    ∃ old ∈ s.db.pullRequests, ∃ state, row = { old with state := state } := by
  have hkept : row ∈ s.db.pullRequests →
      ∃ old ∈ s.db.pullRequests, ∃ state, row = { old with state := state } :=
    fun hold => ⟨row, hold, row.state, rfl⟩
  cases a with
  | setState id state =>
    obtain ⟨old, hold, rfl⟩ := List.mem_map.1 h
    by_cases hid : old.id = id
    · exact ⟨old, hold, state, by rw [if_pos hid]⟩
    · exact ⟨old, hold, old.state, by rw [if_neg hid]⟩
  | visit place now =>
    simp only [step] at h
    split at h
    · rename_i id event next rest hheld
      rcases dismissStale_eq s.db event next now with heq | heq
      · rw [heq] at h
        exact hkept h
      · rw [heq] at h
        exact hkept h
    · exact hkept h
  | review _ _ _ _ | push _ _ | lose _ | drop _ | merge _ => exact hkept h
  | record _ | fetch _ | list _ | claim _ =>
    simp only [step] at h
    split at h <;> exact hkept h

theorem matchingRule_step (repositoryId : RepositoryId) (branch : String) :
    (step s a).db.matchingRule repositoryId branch = s.db.matchingRule repositoryId branch := by
  cases a with
  | visit place now =>
    simp only [step]
    split
    · rename_i id event next rest hheld
      rcases dismissStale_eq s.db event next now with heq | heq
      · rw [heq]
      · rw [heq]
        rfl
    · rfl
  | review _ _ _ _ | setState _ _ | push _ _ | lose _ | drop _ | merge _ => rfl
  | record _ | fetch _ | list _ | claim _ =>
    simp only [step]
    split <;> rfl

end Steps

/-! ## What a run keeps -/

section Runs

variable {gix : Gix} {pr : PullRequest} {rule : BranchProtectionRule} {s : State} {a : Step}

/-- A row that is one of the pull request has its branches. -/
def SameRefs (pr row : PullRequest) : Prop :=
  row.id = pr.id →
    row.source = pr.source ∧ row.repositoryId = pr.repositoryId ∧ row.target = pr.target

/-- What is known of the events under way and of the pull requests listed for them. -/
structure Events (pr : PullRequest) (rule : BranchProtectionRule) (s : State) : Prop where
  lastPush_le : ∀ source, s.lastPush source ≤ s.db.prReviews.length
  given_le : ∀ event, Carried s event → event.given ≤ s.lastPush event.source
  table : ∀ row ∈ s.db.pullRequests, SameRefs pr row
  listed : ∀ dispatch ∈ s.held, ∀ rest, dispatch.remaining = some rest →
    ∀ row ∈ rest, row.source = dispatch.event.source ∧ SameRefs pr row
  matching : s.db.matchingRule pr.repositoryId pr.target = some rule

/-- What is known of the reviews of the pull request: no approval since the last push is dismissed,
and all reviews up to the last fan-out are. -/
structure Reviews (pr : PullRequest) (s : State) : Prop where
  visited_le : s.visited pr.id ≤ s.db.prReviews.length
  standing : ∀ index review, Given s.db pr.id index review → review.state = .approved →
    s.lastPush pr.source ≤ index → review.dismissedAt = none
  dismissed : ∀ index review, Given s.db pr.id index review → index < s.visited pr.id →
    review.dismissedAt ≠ none

theorem lastPush_step (source : PrRef) :
    (step s a).lastPush source = s.lastPush source ∨
      (step s a).lastPush source = s.db.prReviews.length := by
  cases a with
  | push repositoryId updatedRefs =>
    simp only [step]
    split
    · exact Or.inr rfl
    · exact Or.inl rfl
  | review _ _ _ _ | setState _ _ | lose _ | drop _ | merge _ => exact Or.inl rfl
  | record _ | fetch _ | list _ | visit _ _ | claim _ =>
    simp only [step]
    split <;> exact Or.inl rfl

theorem listed_of_listOpen {source : PrRef} {row : PullRequest}
    (h : row ∈ listOpenWithSourceBranch s.db source) :
    row ∈ s.db.pullRequests ∧ row.source = source := by
  simp only [listOpenWithSourceBranch, List.mem_insertionSort, List.mem_filter, Bool.and_eq_true,
    decide_eq_true_eq] at h
  exact ⟨h.1, h.2.1⟩

theorem events_step (h : Events pr rule s) : Events pr rule (step s a) := by
  have hgrow : ∀ source, s.lastPush source ≤ (step s a).lastPush source := by
    intro source
    rcases lastPush_step (s := s) (a := a) source with heq | heq
    · exact heq.ge
    · exact heq ▸ h.lastPush_le source
  refine ⟨?_, ?_, ?_, ?_, ?_⟩
  · intro source
    have hlength := length_prReviews_step (s := s) (a := a)
    rcases lastPush_step (s := s) (a := a) source with heq | heq
    · exact heq ▸ (h.lastPush_le source).trans hlength
    · exact heq ▸ hlength
  · intro event hcarried
    rcases carried_step hcarried with hold | ⟨repositoryId, updatedRefs, rfl, hevent⟩
    · exact (h.given_le event hold).trans (hgrow event.source)
    · -- the event of a push knows how many reviews there are
      have hlast : (step s (.push repositoryId updatedRefs)).lastPush event.source =
          s.db.prReviews.length := if_pos ⟨event, hevent, rfl⟩
      rw [hlast]
      obtain ⟨update, -, rfl⟩ := List.mem_map.1 hevent
      exact le_refl _
  · intro row hrow
    obtain ⟨old, hold, state, rfl⟩ := pullRequests_step hrow
    exact h.table old hold
  · intro dispatch hdispatch rest hrest row hrow
    rcases held_step hdispatch with ⟨record, -, -, hnone⟩ | ⟨old, hold, hevent, hlisted⟩
    · rw [hnone] at hrest
      cases hrest
    · rw [← hevent]
      rcases hlisted rest hrest with rfl | ⟨all, hall, hsub⟩
      · obtain ⟨hmem, hsource⟩ := listed_of_listOpen hrow
        exact ⟨hsource, h.table row hmem⟩
      · exact h.listed old hold all hall row (hsub row hrow)
  · rw [matchingRule_step]
    exact h.matching

/-- What is known of the reviews stays known where the pull request gets no new or other ones. -/
theorem Reviews.mono {s' : State} (h : Reviews pr s)
    (hlength : s.db.prReviews.length ≤ s'.db.prReviews.length)
    (hgiven : ∀ index review, Given s'.db pr.id index review → Given s.db pr.id index review)
    (hlast : s.lastPush pr.source ≤ s'.lastPush pr.source)
    (hvisited : s'.visited pr.id = s.visited pr.id) : Reviews pr s' := by
  refine ⟨hvisited ▸ h.visited_le.trans hlength, ?_, ?_⟩
  · intro index review hreview happroved hfresh
    exact h.standing index review (hgiven index review hreview) happroved (hlast.trans hfresh)
  · intro index review hreview hlt
    exact h.dismissed index review (hgiven index review hreview) (hvisited ▸ hlt)

theorem given_insertReview {db : Database} {id : PullRequestId} {new review : PrReview}
    {index : Nat} (h : Given (insertReview db new) id index review) :
    Given db id index review ∨ index = db.prReviews.length ∧ review = new := by
  obtain ⟨hget, hid⟩ := h
  simp only [insertReview] at hget
  rcases lt_or_ge index db.prReviews.length with hlt | hge
  · rw [List.getElem?_append_left hlt] at hget
    exact Or.inl ⟨hget, hid⟩
  · rw [List.getElem?_append_right hge] at hget
    have hplace : index - db.prReviews.length < [new].length := (List.getElem?_eq_some_iff.1 hget).1
    rw [List.length_singleton] at hplace
    obtain rfl : index = db.prReviews.length := by omega
    rw [Nat.sub_self] at hget
    exact Or.inr ⟨rfl, (Option.some.inj hget).symm⟩

theorem Given.index_lt {db : Database} {id : PullRequestId} {index : Nat} {review : PrReview}
    (h : Given db id index review) : index < db.prReviews.length :=
  (List.getElem?_eq_some_iff.1 h.1).1

/-- A dismissal stamps the reviews of one pull request that are not stamped. -/
theorem given_dismissAll {db : Database} {id id' : PullRequestId} {now : Int} {index : Nat}
    {review : PrReview} :
    Given (dismissAllForPullRequest db id' now) id index review ↔
      ∃ old, Given db id index old ∧ review = dismissReview id' now old := by
  have hkey : ∀ old, (dismissReview id' now old).pullRequestId = old.pullRequestId := by
    intro old
    simp only [dismissReview]
    split <;> rfl
  simp only [Given, dismissAllForPullRequest, List.getElem?_map, Option.map_eq_some_iff]
  constructor
  · rintro ⟨⟨old, hold, rfl⟩, hid⟩
    exact ⟨old, ⟨hold, (hkey old).symm.trans hid⟩, rfl⟩
  · rintro ⟨old, ⟨hold, hid⟩, rfl⟩
    exact ⟨⟨old, hold, rfl⟩, (hkey old).trans hid⟩

theorem dismissReview_of_ne {id id' : PullRequestId} {now : Int} {review : PrReview}
    (hid : review.pullRequestId = id) (hne : id' ≠ id) : dismissReview id' now review = review :=
  if_neg fun h => hne (h.1.symm.trans hid)

theorem dismissedAt_dismissReview {id : PullRequestId} {now : Int} {review : PrReview}
    (hid : review.pullRequestId = id) : (dismissReview id now review).dismissedAt ≠ none := by
  simp only [dismissReview]
  split
  · simp
  · rename_i h
    exact fun hnone => h ⟨hid, hnone⟩

theorem dismissReview_eq_iff {id : PullRequestId} {now : Int} {review : PrReview}
    (hid : review.pullRequestId = id) :
    dismissReview id now review = review ↔ review.dismissedAt ≠ none := by
  constructor
  · intro h
    rw [← h]
    exact dismissedAt_dismissReview hid
  · intro h
    exact if_neg fun hboth => h hboth.2

/-- Whether a fan-out that goes over `next` dismisses the reviews of the pull request. -/
def Dismisses (pr next : PullRequest) (event : BranchPushed) : Prop :=
  next.id = pr.id ∧ event.new ≠ zeroId

instance (pr next : PullRequest) (event : BranchPushed) : Decidable (Dismisses pr next event) :=
  inferInstanceAs (Decidable (_ ∧ _))

/-- The reviews of the pull request after a fan-out has gone over one pull request. -/
theorem given_dismissStale (h : Events pr rule s) (hdismiss : rule.dismissStaleReviews = true)
    {event : BranchPushed} {next : PullRequest} (hnext : SameRefs pr next) {now : Int} {index : Nat}
    {review : PrReview} :
    Given (dismissStale s.db event next now) pr.id index review ↔
      ∃ old, Given s.db pr.id index old ∧
        review = if Dismisses pr next event then dismissReview pr.id now old else old := by
  have hsame : Given s.db pr.id index review ↔ ∃ old, Given s.db pr.id index old ∧ review = old := by
    simp
  by_cases hid : next.id = pr.id
  · by_cases hzero : event.new = zeroId
    · simp only [dismissStale, Dismisses, hzero, ne_eq, not_true, and_false, if_false]
      exact hsame
    · obtain ⟨-, hrepository, htarget⟩ := hnext hid
      simp only [dismissStale, if_false, hrepository, htarget, h.matching, Option.any_some,
        hdismiss, if_true, hid, given_dismissAll, Dismisses, hzero, ne_eq, not_false_eq_true,
        and_self]
  · have hnot : ¬ Dismisses pr next event := fun hboth => hid hboth.1
    simp only [if_neg hnot]
    rcases dismissStale_eq s.db event next now with heq | heq
    · rw [heq]
      exact hsame
    · rw [heq, given_dismissAll]
      refine exists_congr fun old => and_congr_right fun hold => ?_
      rw [dismissReview_of_ne hold.2 hid]

theorem visited_step_visit (pr : PullRequest) {place : Nat} (now : Int) {id : Nat} {event : BranchPushed}
    {next : PullRequest} {rest : List PullRequest}
    (hheld : s.held[place]? = some ⟨id, event, some (next :: rest)⟩) :
    (step s (.visit place now)).visited pr.id =
      if Dismisses pr next event then s.db.prReviews.length else s.visited pr.id := by
  simp only [step, hheld, Dismisses]
  by_cases hzero : event.new = zeroId
  · simp [hzero]
  · by_cases hid : next.id = pr.id
    · simp [hzero, hid]
    · simp [hzero, hid, Function.update_of_ne (Ne.symm hid)]

/-- A fan-out that comes to the pull request keeps what is known of its reviews, where no approval
from after the push of its event stands. -/
theorem reviews_visit (h : Events pr rule s) (hreviews : Reviews pr s)
    (hdismiss : rule.dismissStaleReviews = true) {place : Nat} {now : Int}
    (hfits : StepFits gix pr s (.visit place now)) : Reviews pr (step s (.visit place now)) := by
  have hlength := length_prReviews_step (s := s) (a := .visit place now)
  cases hheld : s.held[place]? with
  | none =>
    have hstep : step s (.visit place now) = s := by simp only [step, hheld]
    exact hstep.symm ▸ hreviews
  | some dispatch =>
    obtain ⟨id, event, remaining⟩ := dispatch
    match remaining with
    | none | some [] =>
      have hstep : step s (.visit place now) = s := by simp only [step, hheld]
      exact hstep.symm ▸ hreviews
    | some (next :: rest) =>
      have hmem := List.mem_of_getElem? hheld
      obtain ⟨hsource, hnext⟩ := h.listed _ hmem _ rfl next List.mem_cons_self
      have hvisited := visited_step_visit pr now hheld
      have hdb : (step s (.visit place now)).db = dismissStale s.db event next now := by
        simp only [step, hheld]
      have hlast : (step s (.visit place now)).lastPush = s.lastPush := by
        simp only [step, hheld]
      have hgiven : ∀ index review, Given (step s (.visit place now)).db pr.id index review →
          ∃ old, Given s.db pr.id index old ∧
            review = if Dismisses pr next event then dismissReview pr.id now old else old := by
        intro index review hreview
        rw [hdb] at hreview
        exact (given_dismissStale h hdismiss hnext).1 hreview
      by_cases hdismisses : Dismisses pr next event
      · simp only [if_pos hdismisses] at hgiven hvisited
        refine ⟨hvisited ▸ hlength, ?_, ?_⟩
        · intro index review hreview happroved hfresh
          obtain ⟨old, hold, rfl⟩ := hgiven index review hreview
          rw [hlast] at hfresh
          have hstate : old.state = .approved := by
            rw [← happroved]
            simp only [dismissReview]
            split <;> rfl
          have hactive : old.isActiveApproval = true := by
            simp [PrReview.isActiveApproval, hstate, hreviews.standing index old hold hstate hfresh]
          -- an approval that stands is from before this push, and so from before the last one
          have hbefore := hfits id event next rest hheld hdismisses.1 hdismisses.2 index old hold
            hactive
          have hpush : event.given ≤ s.lastPush pr.source := by
            rw [← (hnext hdismisses.1).1, hsource]
            exact h.given_le event (Or.inr (Or.inr ⟨_, hmem, rfl⟩))
          omega
        · intro index review hreview _
          obtain ⟨old, hold, rfl⟩ := hgiven index review hreview
          exact dismissedAt_dismissReview hold.2
      · simp only [if_neg hdismisses] at hgiven hvisited
        refine hreviews.mono hlength ?_ (le_of_eq (by rw [hlast])) hvisited
        intro index review hreview
        obtain ⟨old, hold, rfl⟩ := hgiven index review hreview
        exact hold

theorem reviews_step (h : Events pr rule s) (hreviews : Reviews pr s)
    (hdismiss : rule.dismissStaleReviews = true) (hfits : StepFits gix pr s a) :
    Reviews pr (step s a) := by
  have hlength := length_prReviews_step (s := s) (a := a)
  cases a with
  | visit place now => exact reviews_visit h hreviews hdismiss hfits
  | review pullRequestId reviewerId state now =>
    have hvisited := hreviews.visited_le
    refine ⟨hvisited.trans hlength, ?_, ?_⟩
    · intro index review hreview happroved hfresh
      rcases given_insertReview hreview with hold | ⟨-, rfl⟩
      · exact hreviews.standing index review hold happroved hfresh
      · rfl
    · intro index review hreview hlt
      rcases given_insertReview hreview with hold | ⟨rfl, -⟩
      · exact hreviews.dismissed index review hold hlt
      · exact absurd hlt (not_lt.2 hvisited)
  | push repositoryId updatedRefs =>
    refine hreviews.mono hlength (fun _ _ hreview => hreview) ?_ rfl
    rcases lastPush_step (s := s) (a := .push repositoryId updatedRefs) pr.source with heq | heq
    · exact heq.ge
    · exact heq ▸ h.lastPush_le pr.source
  | setState _ _ | lose _ | drop _ | merge _ =>
    exact hreviews.mono hlength (fun _ _ hreview => hreview) (le_refl _) rfl
  | record _ | fetch _ | list _ | claim _ =>
    simp only [step]
    split <;> exact hreviews.mono (le_refl _) (fun _ _ hreview => hreview) (le_refl _) rfl

/-! ## When the approvals count -/

/-- A merge counts what it should exactly when no approval from before the last push counts, which a
fan-out since sees to. -/
theorem countsSince_iff (hreviews : Reviews pr s) :
    CountsSince s.db pr.id (s.lastPush pr.source) ↔
      s.lastPush pr.source ≤ s.visited pr.id ∨
        ∀ index review, Given s.db pr.id index review → review.isActiveApproval = true →
          index < s.lastPush pr.source → Superseded s.db pr.id index review := by
  constructor
  · intro hcounts
    refine Or.inr fun index review hgiven hactive hlt => ?_
    by_contra hlatest
    obtain ⟨index', hlatest', -, hle⟩ :=
      (hcounts review).1 (mem_countedApprovals.2 ⟨index, ⟨hgiven, hlatest⟩, hactive⟩)
    have hsame := LatestGiven.unique ⟨hgiven, hlatest⟩ hlatest' rfl
    omega
  · intro hfits review
    rw [mem_countedApprovals]
    refine exists_congr fun index => and_congr_right fun hlatest => ?_
    have hactive : review.isActiveApproval = true ↔
        review.state = .approved ∧ review.dismissedAt = none := by
      simp [PrReview.isActiveApproval]
    rw [hactive]
    refine and_congr_right fun happroved => ?_
    constructor
    · intro hstands
      by_contra hstale
      rcases hfits with hvisited | hsuperseded
      · exact hreviews.dismissed index review hlatest.1 (by omega) hstands
      · exact hlatest.2 (hsuperseded index review hlatest.1 (hactive.2 ⟨happroved, hstands⟩)
          (not_le.1 hstale))
    · exact hreviews.standing index review hlatest.1 happroved

/-- The fan-out of a push leaves the later approvals alone exactly when none of them stands. -/
theorem visitKept_iff (h : Events pr rule s) (hdismiss : rule.dismissStaleReviews = true)
    (place : Nat) (now : Int) :
    StepKept gix pr s (.visit place now) ↔ StepFits gix pr s (.visit place now) := by
  have hactive : ∀ review : PrReview, review.isActiveApproval = true ↔
      review.state = .approved ∧ review.dismissedAt = none := by
    intro review
    simp [PrReview.isActiveApproval]
  have hafter : ∀ id event next rest, s.held[place]? = some ⟨id, event, some (next :: rest)⟩ →
      ∀ index review, Given (step s (.visit place now)).db pr.id index review ↔
        ∃ old, Given s.db pr.id index old ∧
          review = if Dismisses pr next event then dismissReview pr.id now old else old := by
    intro id event next rest hheld index review
    have hnext := (h.listed _ (List.mem_of_getElem? hheld) _ rfl next List.mem_cons_self).2
    have hdb : (step s (.visit place now)).db = dismissStale s.db event next now := by
      simp only [step, hheld]
    rw [hdb]
    exact given_dismissStale h hdismiss hnext
  constructor
  · intro hkept id event next rest hheld hid hnew index review hgiven hstands
    by_contra hlater
    have hleft := hkept id event (next :: rest) hheld index review hgiven
      ((hactive review).1 hstands).1 (not_lt.1 hlater)
    obtain ⟨old, hold, heq⟩ := (hafter id event next rest hheld index review).1 hleft
    obtain rfl := Option.some.inj (hold.1.symm.trans hgiven.1)
    rw [if_pos ⟨hid, hnew⟩] at heq
    exact (dismissReview_eq_iff hgiven.2).1 heq.symm ((hactive old).1 hstands).2
  · intro hfits id event remaining hheld index review hgiven happroved hlater
    cases remaining with
    | nil =>
      have hstep : step s (.visit place now) = s := by simp only [step, hheld]
      exact hstep.symm ▸ hgiven
    | cons next rest =>
      refine (hafter id event next rest hheld index review).2 ⟨review, hgiven, ?_⟩
      split
      · rename_i hdismisses
        refine ((dismissReview_eq_iff hgiven.2).2 fun hnone => ?_).symm
        have hbefore := hfits id event next rest hheld hdismisses.1 hdismisses.2 index review hgiven
          ((hactive review).2 ⟨happroved, hnone⟩)
        exact absurd hlater (not_le.2 hbefore)
      · rfl

theorem stepKept_iff (h : Events pr rule s) (hreviews : Reviews pr s)
    (hdismiss : rule.dismissStaleReviews = true) :
    StepKept gix pr s a ↔ StepFits gix pr s a := by
  cases a with
  | merge attempt => exact imp_congr_right fun _ => countsSince_iff hreviews
  | visit place now => exact visitKept_iff h hdismiss place now
  | _ => exact Iff.rfl

theorem events_start {db : Database} (hkeys : (db.pullRequests.map PullRequest.id).Nodup)
    (hpr : pr ∈ db.pullRequests)
    (hrule : db.matchingRule pr.repositoryId pr.target = some rule) :
    Events pr rule (State.start db) := by
  refine ⟨fun _ => Nat.zero_le _, ?_, ?_, ?_, hrule⟩
  · rintro event (⟨events, hevents, -⟩ | ⟨record, hrecord, -⟩ | ⟨dispatch, hdispatch, -⟩)
    · cases hevents
    · cases hrecord
    · cases hdispatch
  · intro row hrow hid
    obtain rfl := List.inj_on_of_nodup_map hkeys hrow hpr hid
    exact ⟨rfl, rfl, rfl⟩
  · intro dispatch hdispatch
    cases hdispatch

theorem reviews_start {db : Database} (hnone : db.prReviews = []) :
    Reviews pr (State.start db) := by
  have hgiven : ∀ index review, ¬ Given (State.start db).db pr.id index review := by
    intro index review h
    have hlt := h.index_lt
    simp [State.start, hnone] at hlt
  exact ⟨Nat.zero_le _, fun index review h => absurd h (hgiven index review),
    fun index review h => absurd h (hgiven index review)⟩

end Runs

/-! ## Two reviewed pull requests -/

/-- A rule for `main` that asks for an approval and dismisses stale ones. -/
def dismissingRule : BranchProtectionRule := ⟨"main", 1, false, false, true, false, [], []⟩

def reviewedDatabase : Database := topicDatabase [dismissingRule]

def topicUpdate : Step := .push 5 [("refs/heads/topic", ObjectId.toHex 6)]

def topicApproval (now : Int) : Step := .review 9 2 .approved now

def topicAttempt : Step := .merge ⟨.user 1, "ada", "demo", 1, topicRepos⟩

/-- An approval, a push that a dispatcher handles, and another approval before the merge. -/
def handledRun : List Step :=
  [topicApproval 1, topicUpdate, .record 0, .fetch 0, .list 0, .visit 0 2, .claim 0,
    topicApproval 3, topicAttempt]

theorem fits_handledRun :
    Runs.Throughout step (StepFits forkedGix topicPull) (State.start reviewedDatabase)
      handledRun := by
  simp only [handledRun, Runs.throughout_cons, topicApproval, topicUpdate, topicAttempt]
  refine ⟨trivial, trivial, trivial, trivial, trivial, ?_, trivial, trivial, ?_, ?_⟩
  · intro id event next rest hheld _ _ index review hgiven _
    have hevent : event.given = 1 := by
      have hid := congrArg (Option.map fun dispatch : Dispatch => dispatch.event.given) hheld
      exact (Option.some.inj hid).symm
    have hlt := hgiven.index_lt
    rw [hevent]
    exact hlt
  · intro _
    left
    decide +kernel
  · exact Runs.throughout_nil _

end Edda.Jobs
