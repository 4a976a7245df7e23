import Mathlib

/-!
# The first hits of a search

A search goes through files in some order and stops at a number of hits. `take_flatMap_eq_iff` says
when it has the hits that it would have in the order of a key: no file with hits comes before one
that the key puts first, unless enough hits come before both. `fixed_of_take_map_eq` is for a search
that reports its hits through a function.
-/

set_option autoImplicit false

namespace Edda.Support.FirstHits

universe u v w x

variable {φ : Type u} {κ : Type v} {μ : Type w} [LinearOrder κ] (key : φ → κ) (hits : φ → List μ)

/-- Where two files with hits stand against the order of the key, `n` hits come before them. -/
def Settled (n : Nat) (files : List φ) : Prop :=
  ∀ before f between g after, files = before ++ f :: (between ++ g :: after) → hits f ≠ [] →
    hits g ≠ [] → key g < key f → n ≤ (before.flatMap hits).length

variable {key hits} {n : Nat} {f : φ} {files sorted : List φ}

theorem settled_zero : Settled key hits 0 files :=
  fun _ _ _ _ _ _ _ _ _ => Nat.zero_le _

/-- The first file stands against no later one, and the others are settled for what it leaves. -/
theorem settled_cons : Settled key hits n (f :: files) ↔
    (n ≠ 0 → hits f ≠ [] → ∀ g ∈ files, hits g ≠ [] → ¬ key g < key f) ∧
      Settled key hits (n - (hits f).length) files := by
  constructor
  · intro h
    constructor
    · intro hn hf g hg hhits hlt
      obtain ⟨between, after, rfl⟩ := List.append_of_mem hg
      have := h [] f between g after rfl hf hhits hlt
      exact hn (Nat.le_zero.1 this)
    · intro before f' between g after hfiles hf hg hlt
      have := h (f :: before) f' between g after (by rw [hfiles, List.cons_append]) hf hg hlt
      rw [List.flatMap_cons, List.length_append] at this
      omega
  · rintro ⟨hfirst, hrest⟩ before f' between g after hfiles hf hg hlt
    cases before with
    | nil =>
      obtain ⟨rfl, rfl⟩ := List.cons.inj hfiles
      by_contra hn
      exact hfirst (by omega) hf g (by simp) hg hlt
    | cons first before =>
      obtain ⟨rfl, rfl⟩ := List.cons.inj hfiles
      have := hrest before f' between g after rfl hf hg hlt
      rw [List.flatMap_cons, List.length_append]
      omega

/-- Files without hits make no difference. -/
theorem flatMap_eq_nil (h : ∀ g ∈ files, hits g = []) : files.flatMap hits = [] :=
  List.flatMap_eq_nil_iff.2 h

/-- In the order of the key, the files before the first one with hits have none. -/
theorem no_hits_before {front back : List φ}
    (hsorted : (front ++ f :: back).Pairwise fun a b => key a < key b)
    (hperm : (front ++ back).Perm files)
    (hleast : ∀ g ∈ files, hits g ≠ [] → ¬ key g < key f) : ∀ g ∈ front, hits g = [] := by
  intro g hg
  by_contra hhits
  have hlt : key g < key f :=
    (List.pairwise_append.1 hsorted).2.2 g hg f List.mem_cons_self
  exact hleast g (hperm.mem_iff.1 (List.mem_append_left _ hg)) hhits hlt

theorem pairwise_erase {front back : List φ}
    (hsorted : (front ++ f :: back).Pairwise fun a b => key a < key b) :
    (front ++ back).Pairwise fun a b => key a < key b :=
  hsorted.sublist (List.Sublist.append_left (List.sublist_cons_self f back) front)

/-- A settled search has the hits that it has in the order of the key. -/
theorem take_flatMap_eq (h : Settled key hits n files) (hperm : sorted.Perm files)
    (hsorted : sorted.Pairwise fun a b => key a < key b) :
    (files.flatMap hits).take n = (sorted.flatMap hits).take n := by
  induction files generalizing n sorted with
  | nil => rw [hperm.eq_nil]
  | cons f files ih =>
    obtain ⟨hfirst, hrest⟩ := settled_cons.1 h
    obtain ⟨front, back, rfl⟩ := List.append_of_mem (hperm.mem_iff.2 List.mem_cons_self)
    have hperm' : (front ++ back).Perm files :=
      (List.perm_cons f).1 (List.perm_middle.symm.trans hperm)
    have hothers := ih hrest hperm' (pairwise_erase hsorted)
    by_cases hnone : hits f = []
    · rw [hnone, List.length_nil, Nat.sub_zero] at hothers
      simpa [hnone] using hothers
    · cases n with
      | zero => simp
      | succ n =>
        have hfront := flatMap_eq_nil (no_hits_before hsorted hperm'
          (hfirst (Nat.succ_ne_zero n) hnone))
        rw [List.flatMap_append, hfront, List.nil_append] at hothers ⊢
        rw [List.flatMap_cons, List.flatMap_cons, List.take_append, List.take_append, hothers]

/-- Where hits tell their file, only a settled search has the hits that it has in the order of the
key. -/
theorem settled_of_take_eq (hperm : sorted.Perm files)
    (hsorted : sorted.Pairwise fun a b => key a < key b)
    (hfile : ∀ f ∈ files, ∀ g ∈ files, ∀ m, m ∈ hits f → m ∈ hits g → f = g)
    (h : (files.flatMap hits).take n = (sorted.flatMap hits).take n) :
    Settled key hits n files := by
  induction files generalizing n sorted with
  | nil =>
    intro before f between g after hfiles
    simp at hfiles
  | cons f files ih =>
    obtain ⟨front, back, rfl⟩ := List.append_of_mem (hperm.mem_iff.2 List.mem_cons_self)
    have hperm' : (front ++ back).Perm files :=
      (List.perm_cons f).1 (List.perm_middle.symm.trans hperm)
    have hih := @ih (n - (hits f).length) _ hperm' (pairwise_erase hsorted)
      fun a ha b hb => hfile a (List.mem_cons_of_mem _ ha) b (List.mem_cons_of_mem _ hb)
    by_cases hnone : hits f = []
    · refine settled_cons.2 ⟨fun _ hf => absurd hnone hf, hih ?_⟩
      rw [hnone, List.length_nil, Nat.sub_zero]
      simpa [hnone] using h
    · cases n with
      | zero => exact settled_zero
      | succ n =>
        -- the first hit is one of `f`, so that nothing in front of it in the order has hits
        have hfront : front.flatMap hits = [] := by
          by_contra hne
          obtain ⟨first, rest, hcons⟩ := List.exists_cons_of_ne_nil hne
          obtain ⟨hit, others, hhits⟩ := List.exists_cons_of_ne_nil hnone
          rw [List.flatMap_cons, List.flatMap_append, hcons, hhits, List.cons_append,
            List.cons_append, List.take_succ_cons, List.take_succ_cons] at h
          obtain rfl := (List.cons.inj h).1
          obtain ⟨g, hg, hmem⟩ := List.mem_flatMap.1 (hcons ▸ List.mem_cons_self)
          have heq := hfile f List.mem_cons_self g (hperm.mem_iff.1 (List.mem_append_left _ hg))
            hit (hhits ▸ List.mem_cons_self) hmem
          have hlt := (List.pairwise_append.1 hsorted).2.2 g hg f List.mem_cons_self
          rw [heq] at hlt
          exact lt_irrefl _ hlt
        rw [List.flatMap_append, hfront, List.nil_append, List.flatMap_cons, List.flatMap_cons,
          List.take_append, List.take_append] at h
        refine settled_cons.2 ⟨fun _ _ g hg hhits hlt => ?_, hih ?_⟩
        · rcases List.mem_append.1 (hperm'.mem_iff.2 hg) with hg | hg
          · exact hhits (List.flatMap_eq_nil_iff.1 hfront g hg)
          · have := (List.pairwise_cons.1 (List.pairwise_append.1 hsorted).2.1).1 g hg
            exact lt_asymm hlt this
        · rw [List.flatMap_append, hfront, List.nil_append]
          exact List.append_cancel_left h

section Reported

variable {π : Type x} [DecidableEq π] {label : μ → π} {path : φ → π} {report : μ → μ}

omit [LinearOrder κ] in
/-- The hits with the label of a file are its hits. -/
theorem filter_flatMap (hlabel : ∀ f ∈ files, ∀ m ∈ hits f, label m = path f)
    (hnodup : (files.map path).Nodup) (hf : f ∈ files) :
    ((files.flatMap hits).filter fun m => label m = path f) = hits f := by
  induction files with
  | nil => exact absurd hf List.not_mem_nil
  | cons g files ih =>
    rw [List.map_cons, List.nodup_cons] at hnodup
    have hrest := fun other hother => hlabel other (List.mem_cons_of_mem g hother)
    rw [List.flatMap_cons, List.filter_append]
    rcases List.mem_cons.1 hf with rfl | hf
    · have hself : ((hits f).filter fun m => label m = path f) = hits f :=
        List.filter_eq_self.2 fun m hm => decide_eq_true (hlabel f List.mem_cons_self m hm)
      have hothers : ((files.flatMap hits).filter fun m => label m = path f) = [] := by
        rw [List.filter_eq_nil_iff]
        intro m hm heq
        obtain ⟨other, hother, hmem⟩ := List.mem_flatMap.1 hm
        apply hnodup.1
        rw [← of_decide_eq_true heq, hrest other hother m hmem]
        exact List.mem_map_of_mem hother
      rw [hself, hothers, List.append_nil]
    · have hnone : ((hits g).filter fun m => label m = path f) = [] := by
        rw [List.filter_eq_nil_iff]
        intro m hm heq
        apply hnodup.1
        rw [← hlabel g List.mem_cons_self m hm, of_decide_eq_true heq]
        exact List.mem_map_of_mem hf
      rw [hnone, List.nil_append]
      exact ih hrest hnodup.2 hf

/-- What is reported in the order of the key is reported as it is. -/
theorem fixed_of_take_map_eq (hlabel : ∀ f ∈ files, ∀ m ∈ hits f, label m = path f)
    (hreport : ∀ m, label (report m) = label m) (hnodup : (files.map path).Nodup)
    (hperm : sorted.Perm files)
    (h : ((files.flatMap hits).map report).take n = (sorted.flatMap hits).take n) :
    ∀ m ∈ (files.flatMap hits).take n, report m = m := by
  intro m hm
  obtain ⟨f, hf, hmem⟩ := List.mem_flatMap.1 (List.mem_of_mem_take hm)
  have hp : label m = path f := hlabel f hf m hmem
  rw [← List.map_take] at h
  -- both searches begin with hits of `f`, as many of them
  have hleft : (((files.flatMap hits).take n).filter fun m => label m = path f) <+: hits f := by
    rw [← filter_flatMap hlabel hnodup hf]
    exact (List.take_prefix n _).filter _
  have hright : (((sorted.flatMap hits).take n).filter fun m => label m = path f) <+: hits f := by
    rw [← @filter_flatMap _ _ hits f sorted _ _ label path
      (fun g hg => hlabel g (hperm.mem_iff.1 hg)) ((hperm.map path).nodup_iff.2 hnodup)
      (hperm.mem_iff.2 hf)]
    exact (List.take_prefix n _).filter _
  have hmap : (((files.flatMap hits).take n).filter fun m => label m = path f).map report =
      ((sorted.flatMap hits).take n).filter fun m => label m = path f := by
    rw [← h, List.filter_map]
    congr 2
    funext m
    simp only [Function.comp_apply, hreport]
  have hsame : (((files.flatMap hits).take n).filter fun m => label m = path f) =
      ((sorted.flatMap hits).take n).filter fun m => label m = path f := by
    apply (List.prefix_of_prefix_length_le hleft hright _).eq_of_length _
    · rw [← hmap, List.length_map]
    · rw [← hmap, List.length_map]
  rw [← hsame] at hmap
  have hfixed := List.map_inj_left.1 (hmap.trans (List.map_id _).symm) m
  exact hfixed (List.mem_filter.2 ⟨hm, decide_eq_true hp⟩)

end Reported

end Edda.Support.FirstHits
