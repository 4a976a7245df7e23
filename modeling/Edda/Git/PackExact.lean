import Edda.Git.Pack

/-!
# What a fetch sends exactly

A fetch without a bound sends the objects that its wants reach and the haves do not, each of them
once. A have that the repository does not know hides nothing: it is no object that the wants
reach, and nothing is looked up behind it.

`pack_exact` says so for any graph in which what the wants and the known haves reach is stored.
-/

set_option autoImplicit false

namespace Edda.Git

open Edda.Support Edda.Support.Worklist

section PackExact

variable (content : ObjectId → Object) (store : Store)

/-- Everything that `tip` reaches is stored, and decodes. -/
def ClosureReadable (tip : ObjectId) : Prop :=
  ∀ id, Reachable content tip id → id ∈ store ∧ ∃ ids, references (content id) = .ok ids

/-- Stored ids that refer to each other only. -/
theorem ClosureReadable.of_closed {ids : List ObjectId} (hstored : ids ⊆ store)
    (hclosed : ∀ id ∈ ids, ∃ refs, references (content id) = .ok refs ∧ refs ⊆ ids)
    {tip : ObjectId} (htip : tip ∈ ids) : ClosureReadable content store tip := by
  intro id hreach
  have hmem : id ∈ ids := by
    induction hreach with
    | refl => exact htip
    | tail _ href ih =>
      obtain ⟨refs, hrefs, hid⟩ := href
      obtain ⟨refs', hrefs', hsub⟩ := hclosed _ ih
      obtain rfl := Except.ok.inj (hrefs.symm.trans hrefs')
      exact hsub hid
  obtain ⟨refs, hrefs, -⟩ := hclosed id hmem
  exact ⟨hstored hmem, refs, hrefs⟩

/-- The haves that the repository knows. -/
def knownHaves (haves : List ObjectId) : List ObjectId :=
  haves.filter fun id => decide (id ∈ store)

variable {wants haves : List ObjectId}

theorem haveChildren_of_mem {id : ObjectId} (h : id ∈ store) :
    haveChildren content store id = references (content id) := by
  simp only [haveChildren, findObject_of_mem content h]

theorem haveChildren_of_not_mem {id : ObjectId} (h : id ∉ store) :
    haveChildren content store id = .ok [] := by
  simp only [haveChildren, findObject_of_not_mem content h]

/-- What reachable objects refer to is reachable. -/
theorem ReachableFrom.tail {tips : List ObjectId} {a b : ObjectId} {ids : List ObjectId}
    (h : ReachableFrom content tips a) (hids : references (content a) = .ok ids) (hb : b ∈ ids) :
    ReachableFrom content tips b := by
  obtain ⟨tip, htip, hreach⟩ := h
  exact ⟨tip, htip, hreach.tail ⟨ids, hids, hb⟩⟩

/-- Everything that readable tips reach is stored, and decodes. -/
theorem ReachableFrom.readable {tips : List ObjectId} {id : ObjectId}
    (h : ReachableFrom content tips id) (htips : ∀ tip ∈ tips, ClosureReadable content store tip) :
    id ∈ store ∧ ∃ ids, references (content id) = .ok ids := by
  obtain ⟨tip, htip, hreach⟩ := h
  exact htips tip htip id hreach

/-! ## What the haves reach -/

section Haves

variable (hhaves : ∀ tip ∈ knownHaves store haves, ClosureReadable content store tip)

include hhaves

/-- The walk over the haves meets what the known haves reach, and the unknown haves. -/
theorem had_iff_of_readable {id : ObjectId} :
    Had content store haves id ↔
      ReachableFrom content (knownHaves store haves) id ∨ (id ∈ haves ∧ id ∉ store) := by
  constructor
  · intro h
    apply h.induct
    · intro tip htip
      by_cases hstored : tip ∈ store
      · exact Or.inl ⟨tip, by simp [knownHaves, htip, hstored], Reachable.refl content tip⟩
      · exact Or.inr ⟨htip, hstored⟩
    · rintro a children (ha | ⟨-, ha⟩) hchildren b hb
      · have hstored := (ha.readable content store hhaves).1
        left
        exact ha.tail content ((haveChildren_of_mem content store hstored).symm.trans hchildren) hb
      · -- nothing is looked up behind an unknown have
        change haveChildren content store a = .ok children at hchildren
        rw [haveChildren_of_not_mem content store ha] at hchildren
        obtain rfl := Except.ok.inj hchildren
        simp at hb
  · rintro (⟨tip, htip, hreach⟩ | ⟨hid, -⟩)
    · induction hreach with
      | refl => exact .of_mem _ (List.mem_of_mem_filter htip) rfl
      | @tail b c hb hbc ih =>
        obtain ⟨ids, hids, hc⟩ := hbc
        have hstored := (hhaves tip htip b hb).1
        apply ih.tail
        exact ⟨ids, (haveChildren_of_mem content store hstored).trans hids, hc, rfl⟩
    · exact .of_mem _ hid rfl

/-- The walk over the haves does not fail. -/
theorem haveRun_failure : (haveRun content store haves).failure = none := by
  apply failure_eq_none_of_expands
  · intro id hid
    change ∃ children, haveChildren content store id = .ok children
    rcases (had_iff_of_readable content store hhaves).1 hid with hreach | ⟨-, hunknown⟩
    · obtain ⟨hstored, ids, hids⟩ := hreach.readable content store hhaves
      exact ⟨ids, (haveChildren_of_mem content store hstored).trans hids⟩
    · exact ⟨[], haveChildren_of_not_mem content store hunknown⟩
  · exact fun _ => rfl
  · exact fun _ => rfl

end Haves

/-! ## What is sent -/

section Sent

variable (hwants : ∀ tip ∈ wants, ClosureReadable content store tip)
  (hhaves : ∀ tip ∈ knownHaves store haves, ClosureReadable content store tip)
  {seen : ObjectId → Bool} (hseen : ∀ id, seen id = true ↔ Had content store haves id)

include hwants in
/-- What the walk over the wants meets is stored, and decodes. -/
theorem expands_of_reaches {id : ObjectId}
    (h : Reaches (objectWalk content store seen) wants id) :
    ∃ children, objectChildren content store id = .ok children := by
  have hreach : ReachableFrom content wants id :=
    reachableFrom_of_objectWalk content store (fun tip htip => ⟨tip, htip, .refl content tip⟩) h
  obtain ⟨hstored, ids, hids⟩ := hreach.readable content store hwants
  exact ⟨ids, (objectChildren_eq_ok content store).2 ⟨hstored, hids⟩⟩

include hwants in
theorem objectRun_failure : (objectRun content store seen wants).failure = none := by
  apply failure_eq_none_of_expands
  · exact fun id hid => expands_of_reaches content store hwants hid
  · exact fun _ => rfl
  · exact fun _ => rfl

include hwants hhaves hseen in
/-- The walk over the wants meets what they reach and the known haves do not. -/
theorem reaches_iff_not_known {id : ObjectId} :
    Reaches (objectWalk content store seen) wants id ↔
      ReachableFrom content wants id ∧ ¬ ReachableFrom content (knownHaves store haves) id := by
  have hknown : ∀ {a}, ReachableFrom content wants a →
      (seen a = true ↔ ReachableFrom content (knownHaves store haves) a) := by
    intro a ha
    rw [hseen, had_iff_of_readable content store hhaves]
    constructor
    · rintro (h | ⟨-, hunknown⟩)
      · exact h
      · exact absurd (ha.readable content store hwants).1 hunknown
    · exact Or.inl
  constructor
  · intro h
    have hreach : ReachableFrom content wants id :=
      reachableFrom_of_objectWalk content store (fun tip htip => ⟨tip, htip, .refl content tip⟩) h
    refine ⟨hreach, fun hhad => ?_⟩
    have hskip : seen id = false := h.skip_eq_false
    rw [(hknown hreach).2 hhad] at hskip
    exact absurd hskip (by simp)
  · rintro ⟨⟨tip, htip, hreach⟩, hfresh⟩
    -- nothing on the way is hidden, or the haves would reach the end of it
    induction hreach with
    | refl =>
      have hskip : seen tip = false := Bool.eq_false_iff.2 fun h =>
        hfresh ((hknown ⟨tip, htip, .refl content tip⟩).1 h)
      exact .of_mem _ htip hskip
    | @tail b c hb hbc ih =>
      obtain ⟨ids, hids, hc⟩ := hbc
      have hbreach : ReachableFrom content wants b := ⟨tip, htip, hb⟩
      have hbfresh : ¬ ReachableFrom content (knownHaves store haves) b :=
        fun h => hfresh (h.tail content hids hc)
      have hskip : seen c = false := Bool.eq_false_iff.2 fun h =>
        hfresh ((hknown (hbreach.tail content hids hc)).1 h)
      apply (ih hbfresh).tail
      exact ⟨ids, (objectChildren_eq_ok content store).2
        ⟨(hbreach.readable content store hwants).1, hids⟩, hc, hskip⟩

end Sent

/-- A fetch sends each object that the wants reach and the known haves do not, once, and nothing
else. A client that holds what the known haves reach then holds what the wants reach. -/
theorem pack_exact (wants haves : List ObjectId)
    (hwants : ∀ tip ∈ wants, ClosureReadable content store tip)
    (hhaves : ∀ tip ∈ knownHaves store haves, ClosureReadable content store tip) :
    (haveRun content store haves).Halted ∧
      (∀ seen, (objectRun content store seen wants).Halted) ∧
      ∃ pack, buildPackExcluding content store wants haves = .ok pack ∧ pack.Nodup ∧
        (∀ id, id ∈ pack ↔ ReachableFrom content wants id ∧
          ¬ ReachableFrom content (knownHaves store haves) id) ∧
        ∀ client : ObjectId → Prop,
          (∀ id, ReachableFrom content (knownHaves store haves) id → client id) →
          ∀ id, ReachableFrom content wants id → client id ∨ id ∈ pack := by
  have hhad := haveRun_failure content store hhaves
  have hwalk : (objectRun content store
      (fun id => decide (id ∈ (haveRun content store haves).visited)) wants).failure = none :=
    objectRun_failure content store hwants
  have hmem : ∀ id, id ∈ (objectRun content store
      (fun id => decide (id ∈ (haveRun content store haves).visited)) wants).order ↔
      ReachableFrom content wants id ∧ ¬ ReachableFrom content (knownHaves store haves) id := by
    intro id
    rw [State.order, List.mem_reverse, mem_objectRun_iff content store hwalk]
    apply reaches_iff_not_known content store hwants hhaves
    intro id
    rw [decide_eq_true_eq, mem_haveRun_iff content store hhad]
  refine ⟨run_halts _ (haveWalk_bounded content store) haves,
    fun seen => objectRun_halts content store seen wants, _, ?_, ?_, hmem, ?_⟩
  · simp only [buildPackExcluding, hhad, hwalk]
  · exact nodup_order (objectWalk content store _) rfl wants _
  · intro client hclient id hid
    by_cases hheld : ReachableFrom content (knownHaves store haves) id
    · exact Or.inl (hclient id hheld)
    · exact Or.inr ((hmem id).2 ⟨hid, hheld⟩)

end PackExact

/-! ## A fetch with an unknown have -/

/-- The commits 2 and 3, both on top of 1, with the tree 10 of the blob 11. -/
def forkedCommits : ObjectId → Object := fun id =>
  if id = 1 then plainCommit 10 []
  else if id = 2 ∨ id = 3 then plainCommit 10 [1]
  else if id = 10 then .tree (some [⟨.blob, "a", 11⟩])
  else .blob []

/-- A client that holds the commit 2, and one that the repository has not seen, fetches 3 twice. -/
theorem pack_exact_fork :
    ∃ pack, buildPackExcluding forkedCommits [1, 2, 3, 10, 11] [3, 3] [9, 2] = .ok pack ∧
      pack.Nodup ∧ 3 ∈ pack ∧ 10 ∉ pack := by
  have hclosed : ∀ id ∈ ([1, 2, 3, 10, 11] : List ObjectId),
      ∃ refs, references (forkedCommits id) = .ok refs ∧ refs ⊆ [1, 2, 3, 10, 11] := by
    intro id hid
    fin_cases hid <;> exact ⟨_, rfl, by decide⟩
  have hread : ∀ tip ∈ ([1, 2, 3, 10, 11] : List ObjectId),
      ClosureReadable forkedCommits [1, 2, 3, 10, 11] tip :=
    fun tip htip => .of_closed _ _ (List.Subset.refl _) hclosed htip
  obtain ⟨-, -, pack, hpack, hnodup, -⟩ := pack_exact forkedCommits [1, 2, 3, 10, 11] [3, 3] [9, 2]
    (fun tip htip => hread tip (by fin_cases htip <;> decide))
    (fun tip htip => hread tip (by fin_cases htip; decide))
  have heval : buildPackExcluding forkedCommits [1, 2, 3, 10, 11] [3, 3] [9, 2] = .ok [3] := by
    decide +kernel
  obtain rfl := Except.ok.inj (heval.symm.trans hpack)
  exact ⟨[3], hpack, hnodup, by decide, by decide⟩

end Edda.Git
