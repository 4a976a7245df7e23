import Edda.Auth.Authz

/-!
# The direct-push gate

Which refs a push may name at all. A rule protects the branches that its pattern matches, and its
allowlist of users and teams lets subjects push to them. The gate looks the pushing user up in the
allowlist, and no team: `gate_iff` says when it decides as the allowlist asks.
-/

set_option autoImplicit false

namespace Edda.Auth

open Edda.Domain Edda.Db Edda.Git

/-- The ref is a branch that the pattern of the rule matches. -/
def Protects (rule : BranchProtectionRule) (refName : String) : Prop :=
  ∃ branch, refName = "refs/heads/" ++ branch ∧ branchPatternMatches rule.pattern branch = true

/-- The acting user is in the allowlist of the rule. -/
def Allowlisted (actor : ActorContext) (rule : BranchProtectionRule) : Prop :=
  ∃ userId, actor.userId = some userId ∧ AccessSubject.user userId ∈ rule.pushAllowlist

/-- A team that the acting user is a member of is in the allowlist of the rule. -/
def TeamAllowlisted (db : Database) (actor : ActorContext) (rule : BranchProtectionRule) : Prop :=
  ∃ userId teamId, actor.userId = some userId ∧ (teamId, userId) ∈ db.teamMembers ∧
    AccessSubject.team teamId ∈ rule.pushAllowlist

section Gate

variable (db : Database) (actor : ActorContext) (repository : Repository)

/-- What the rules ask of a direct push: the actor administers the repository, no rule protects the
ref, or the allowlist of every rule that protects it has the actor in it. -/
def MayPush (refName : String) : Prop :=
  checkAdminister db actor repository = .ok () ∨
    (∀ rule ∈ db.rulesOf repository.id, ¬ Protects rule refName) ∨
    ∀ rule ∈ db.rulesOf repository.id, Protects rule refName →
      Allowlisted actor rule ∨ TeamAllowlisted db actor rule

/-- Where the gate decides as the rules ask: the actor administers the repository, some protecting
rule has the actor in its allowlist in neither way, or every protecting rule that has the actor in
its allowlist through a team names the actor as well. -/
def TeamsNotNeeded (refName : String) : Prop :=
  checkAdminister db actor repository = .ok () ∨
    (∃ rule ∈ db.rulesOf repository.id, Protects rule refName ∧
      ¬ Allowlisted actor rule ∧ ¬ TeamAllowlisted db actor rule) ∨
    ∀ rule ∈ db.rulesOf repository.id, Protects rule refName →
      TeamAllowlisted db actor rule → Allowlisted actor rule

end Gate

theorem allowlisted_iff {actor : ActorContext} {rule : BranchProtectionRule} :
    allowlisted actor rule = true ↔ Allowlisted actor rule := by
  simp only [allowlisted, Allowlisted, BranchProtectionRule.allowsDirectPush, Option.any_eq_true,
    decide_eq_true_eq]

/-- The pattern of a rule matches, as a pattern of ref names, the refs that the rule protects. -/
theorem refGlob_matches_iff {rule : BranchProtectionRule} {refName : String} :
    branchPatternMatches (refGlob rule) refName = true ↔ Protects rule refName := by
  have hstar : star ∉ Edda.Support.RustText.utf8 "refs/heads/" := by decide
  have hquestion : question ∉ Edda.Support.RustText.utf8 "refs/heads/" := by decide
  exact branchPatternMatches_append hstar hquestion rule.pattern refName

/-- Some pattern of the chosen rules matches the ref exactly when one of the rules protects it. -/
theorem anyPatternMatches_map_refGlob {rules : List BranchProtectionRule} {refName : String} :
    anyPatternMatches (rules.map refGlob) refName = true ↔
      ∃ rule ∈ rules, Protects rule refName := by
  simp only [anyPatternMatches, List.any_map, List.any_eq_true, Function.comp_apply,
    refGlob_matches_iff]

/-- One command passes the gate exactly when no blocking pattern matches its ref. -/
theorem blockedRefRejection_singleton {checks : ReceiveChecks} {command : RefCommand} :
    blockedRefRejection checks [command] = none ↔
      anyPatternMatches checks.blockedRefPatterns command.refName = false := by
  simp only [blockedRefRejection, List.findSome?_cons, List.findSome?_nil]
  cases anyPatternMatches checks.blockedRefPatterns command.refName <;> simp

section Gate

variable {db : Database} {actor : ActorContext} {repository : Repository}
  {maxRepoBytes : Option Int} {checks : ReceiveChecks} {command : RefCommand}

/-- The gate lets a command pass where the actor administers the repository, or is named by every
rule that protects the ref. -/
theorem passes_iff
    (hchecks : resolveReceiveChecks db actor repository maxRepoBytes = .ok checks) :
    blockedRefRejection checks [command] = none ↔
      checkAdminister db actor repository = .ok () ∨
        ∀ rule ∈ db.rulesOf repository.id, Protects rule command.refName →
          Allowlisted actor rule := by
  rw [blockedRefRejection_singleton]
  by_cases hadmin : checkAdminister db actor repository = .ok ()
  · -- an administrator is checked against no rule
    obtain ⟨limit, current, rfl⟩ : ∃ limit current, checks = ruleChecks actor [] limit current := by
      simp only [resolveReceiveChecks, hadmin] at hchecks
      split at hchecks
      · exact absurd hchecks (by simp)
      · exact ⟨_, _, (Except.ok.inj hchecks).symm⟩
    constructor
    · intro _
      exact Or.inl hadmin
    · intro _
      rfl
  · obtain ⟨limit, current, rfl⟩ := resolveReceiveChecks_eq_ok hadmin hchecks
    rw [← Bool.not_eq_true, ruleChecks, anyPatternMatches_map_refGlob]
    constructor
    · intro hnone
      right
      intro rule hrule hprotects
      by_contra hnot
      refine hnone ⟨rule, List.mem_filter.2 ⟨hrule, ?_⟩, hprotects⟩
      rw [Bool.not_eq_true', ← Bool.not_eq_true, allowlisted_iff]
      exact hnot
    · rintro (hok | hall) ⟨rule, hrule, hprotects⟩
      · exact hadmin hok
      · obtain ⟨hmem, hblocked⟩ := List.mem_filter.1 hrule
        have hallowed := allowlisted_iff.2 (hall rule hmem hprotects)
        simp [hallowed] at hblocked

/-- The gate decides as the allowlists ask exactly where it needs no team to decide. -/
theorem gate_iff
    (hchecks : resolveReceiveChecks db actor repository maxRepoBytes = .ok checks) :
    (blockedRefRejection checks [command] = none ↔
        MayPush db actor repository command.refName) ↔
      TeamsNotNeeded db actor repository command.refName := by
  rw [passes_iff hchecks]
  constructor
  · intro hgate
    by_cases hadmin : checkAdminister db actor repository = .ok ()
    · exact Or.inl hadmin
    by_cases hneither : ∃ rule ∈ db.rulesOf repository.id, Protects rule command.refName ∧
        ¬ Allowlisted actor rule ∧ ¬ TeamAllowlisted db actor rule
    · exact Or.inr (Or.inl hneither)
    · -- every protecting rule allows the actor, so that the gate lets the command pass
      have hmay : MayPush db actor repository command.refName := by
        right
        right
        intro rule hrule hprotects
        by_contra hnot
        rw [not_or] at hnot
        exact hneither ⟨rule, hrule, hprotects, hnot⟩
      have hnamed := (hgate.2 hmay).resolve_left hadmin
      exact Or.inr (Or.inr fun rule hrule hprotects _ => hnamed rule hrule hprotects)
  · intro hteams
    constructor
    · rintro (hadmin | hnamed)
      · exact Or.inl hadmin
      · exact Or.inr (Or.inr fun rule hrule hprotects => Or.inl (hnamed rule hrule hprotects))
    · rintro (hadmin | hnone | hall)
      · exact Or.inl hadmin
      · exact Or.inr fun rule hrule hprotects => absurd hprotects (hnone rule hrule)
      · rcases hteams with hadmin | ⟨rule, hrule, hprotects, hnamed, hteam⟩ | hteams
        · exact Or.inl hadmin
        · exact absurd (hall rule hrule hprotects) (not_or.2 ⟨hnamed, hteam⟩)
        · right
          intro rule hrule hprotects
          rcases hall rule hrule hprotects with hnamed | hteam
          · exact hnamed
          · exact hteams rule hrule hprotects hteam

end Gate

/-! ## A team in an allowlist -/

/-- A rule for `main` that lets team 7 push. -/
def teamRule : BranchProtectionRule := ⟨"main", 0, false, false, false, false, [], [.team 7]⟩

/-- User 1 is a member of team 7 and may write to repository 5. -/
def teamDatabase : Database :=
  { Database.empty with
    repoAccess := [⟨5, .user 1, .write⟩]
    teamMembers := [(7, 1)]
    branchProtectionRules := [(5, teamRule)] }

def teamRepository : Repository := ⟨5, "demo", .«public»⟩

/-- A push of the member to `main`. -/
def memberPush : RefCommand := ⟨zeroId, zeroId, "refs/heads/main"⟩

/-- The member is turned away. -/
theorem team_member_is_blocked :
    ¬ ∀ (db : Database) (actor : ActorContext) (repository : Repository)
        (maxRepoBytes : Option Int) (checks : ReceiveChecks) (command : RefCommand),
      resolveReceiveChecks db actor repository maxRepoBytes = .ok checks →
        (blockedRefRejection checks [command] = none ↔
          MayPush db actor repository command.refName) := by
  intro h
  have hgate := h teamDatabase (.user 1) teamRepository none
    (ruleChecks (.user 1) [teamRule] none 0) memberPush (by decide +kernel)
  have hblocked : blockedRefRejection (ruleChecks (.user 1) [teamRule] none 0) [memberPush] ≠
      none := by decide +kernel
  refine hblocked (hgate.2 (Or.inr (Or.inr fun rule hrule _ => Or.inr ?_)))
  obtain rfl : rule = teamRule := by
    have hrules : teamDatabase.rulesOf teamRepository.id = [teamRule] := by decide +kernel
    rw [hrules] at hrule
    exact List.mem_singleton.1 hrule
  exact ⟨1, 7, rfl, by decide, by decide⟩

/-- A rule for `main` that names user 1. -/
def namedRule : BranchProtectionRule := ⟨"main", 0, false, false, false, false, [], [.user 1]⟩

def namedDatabase : Database := { teamDatabase with branchProtectionRules := [(5, namedRule)] }

/-- The gate on the push of a user whom the rule names. -/
theorem gate_iff_named :
    (blockedRefRejection (ruleChecks (.user 1) [namedRule] none 0) [memberPush] = none ↔
        MayPush namedDatabase (.user 1) teamRepository memberPush.refName) ↔
      TeamsNotNeeded namedDatabase (.user 1) teamRepository memberPush.refName :=
  @gate_iff _ _ _ none _ _ (by decide +kernel)

end Edda.Auth
