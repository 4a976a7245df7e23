import Edda.Auth.PushGate
import Edda.Git.RefNamespace

/-!
# Authorizing a push on both transports

A push over HTTP and a push over SSH are authorized by hand-written copies of the same steps: the
repository is looked up, write access is checked, and the receive checks are resolved. HTTP asks for
a verified email address and bounds the request body as well. Each step reads the database, and each
read can fail.

`pushProtected_iff` says exactly when both transports let an account change the same refs, and a
failed read opens no protected ref.
-/

set_option autoImplicit false

namespace Edda.App

open Edda.Domain Edda.Db Edda.Auth Edda.Git Edda.Support.RustText

/-! ## The account -/

/-- When the email address of an account was confirmed. -/
structure AccountStatus where
  emailVerifiedAt : Option Int
  deriving DecidableEq, Repr

def AccountStatus.isEmailVerified (status : AccountStatus) : Bool := status.emailVerifiedAt.isSome

structure RegistrationPolicy where
  requireEmailVerification : Bool
  deriving DecidableEq, Repr

inductive AccountStatusError where
  | emailUnverified
  deriving DecidableEq, Repr

def requireVerifiedForWrite (status : AccountStatus) (policy : RegistrationPolicy) :
    Except AccountStatusError Unit :=
  if policy.requireEmailVerification && !status.isEmailVerified then .error .emailUnverified
  else .ok ()

structure GitLimits where
  maxPackBytes : Nat
  maxRepoSizeBytes : Option Nat
  deriving DecidableEq, Repr

/-- The size quota as both transports pass it on: a limit past `i64::MAX` is none. -/
def GitLimits.repoLimit (limits : GitLimits) : Option Int :=
  limits.maxRepoSizeBytes.bind fun bytes => if bytes < 2 ^ 63 then some bytes else none

/-- What the reads of one push return: the database as it is read for the repository and the write
access, the status of each account, and the database as it is read for the receive checks. -/
structure PushReads where
  access : Database
  status : UserId → Except DbError (Option AccountStatus)
  checks : Database

/-- A refused HTTP request. -/
structure Response where
  status : Nat
  text : String
  deriving DecidableEq, Repr

/-! ## The transports -/

def notFoundResponse (owner repo : String) : Response :=
  ⟨404, "no repository named \"" ++ owner ++ "/" ++ repo ++ "\""⟩

/-- Reads a body of `limit` bytes at most. -/
def readBodyCapped (body : Bytes) (limit : Nat) : Except Response Bytes :=
  if limit < body.length then
    .error ⟨413, "request body rejected (limit " ++ toString limit ++
      " bytes): length limit exceeded"⟩
  else .ok body

/-- Whether the account of the actor is known to be unverified where it has to be verified. A status
that cannot be read, or that is missing, passes. -/
def knownUnverified (reads : PushReads) (policy : RegistrationPolicy) (actor : ActorContext) :
    Bool :=
  match actor.userId with
  | none => false
  | some userId => match reads.status userId with
    | .ok (some status) => decide (requireVerifiedForWrite status policy ≠ .ok ())
    | _ => false

def requireWriteAccess (reads : PushReads) (policy : RegistrationPolicy) (actor : ActorContext)
    (owner : String) (repository : Repository) : Except Response Unit :=
  if actor.permitsTokenScope .repoWrite = false then
    .error ⟨403, "this token's scope does not permit pushing"⟩
  else if knownUnverified reads policy actor = true then
    .error ⟨403, "verify your email address before pushing"⟩
  else match checkWrite reads.access actor repository with
    | .ok () => .ok ()
    | .error .notFound =>
      if actor = .anonymous then .error ⟨401, "login required to push"⟩
      else .error (notFoundResponse owner repository.name)
    | .error .forbidden =>
      if actor = .anonymous then .error ⟨401, "login required to push"⟩
      else .error ⟨403, "you don't have write access to this repo"⟩

/-- The checks a push is evaluated against. Where they cannot be resolved there are none. -/
def receiveChecksFor (db : Database) (actor : ActorContext) (repository : Repository)
    (limits : GitLimits) : ReceiveChecks :=
  match resolveReceiveChecks db actor repository limits.repoLimit with
  | .ok checks => checks
  | .error _ => .default

/-- The HTTP handler up to the receive path. The actor is resolved twice, `again` the second time. -/
def httpReceivePack (reads : PushReads) (policy : RegistrationPolicy) (limits : GitLimits)
    (actor again : ActorContext) (owner name : String) (body : Bytes) :
    Except Response ReceiveChecks :=
  match repositoryByName reads.access owner name with
  | .error _ => .error (notFoundResponse owner name)
  | .ok repository => match requireWriteAccess reads policy actor owner repository with
    | .error response => .error response
    | .ok () => match readBodyCapped body limits.maxPackBytes with
      | .error response => .error response
      | .ok _ => .ok (receiveChecksFor reads.checks again repository limits)

/-- The SSH handler up to the receive path. -/
def sshReceivePack (reads : PushReads) (limits : GitLimits) (actor : ActorContext)
    (owner name : String) : Except String ReceiveChecks :=
  match repositoryByName reads.access owner name with
  | .error _ => .error "repository not found"
  | .ok repository => match checkWrite reads.access actor repository with
    | .error _ => .error "repository not found"
    | .ok () => .ok (receiveChecksFor reads.checks actor repository limits)

/-- A push that a transport has authorized, or refused. -/
def pushed {ε : Type} (gix : Gix) (fault : Option Fault) (state : Repo) (body : Bytes) :
    Except ε ReceiveChecks → Repo
  | .error _ => state
  | .ok checks => (runReceivePack gix fault state body checks).1

/-- The refs that an authorized push may change. -/
def mayChange {ε : Type} (decision : Except ε ReceiveChecks) : Set String :=
  {refName | ∃ checks, decision = .ok checks ∧
    anyPatternMatches checks.blockedRefPatterns refName = false}

/-! ## What is asked of both -/

/-- The actor has all the rights of the account. -/
def ActsFor (actor : ActorContext) (userId : UserId) : Prop :=
  actor = .user userId ∨
    ∃ tokenScope, actor = .token userId .all tokenScope ∧ tokenScope.permits .repoWrite = true

section Gates

variable (db : Database) (actor : ActorContext) (repository : Repository)

/-- Some rule of the repository protects the ref. -/
def ProtectedRef (refName : String) : Prop :=
  ∃ rule ∈ db.rulesOf repository.id, Protects rule refName

/-- The rules let the actor change the ref: the actor administers the repository, or is named by
every rule that protects the ref. -/
def Exempt (refName : String) : Prop :=
  checkAdminister db actor repository = .ok () ∨
    ∀ rule ∈ db.rulesOf repository.id, Protects rule refName → Allowlisted actor rule

/-- The size or the rules of the repository cannot be read; the rules are not read for an actor who
administers it. -/
def Unread : Prop :=
  (∃ err, db.repoSize repository.id = .error err) ∨
    checkAdminister db actor repository ≠ .ok () ∧
      ∃ err, db.listRulesForRepository repository.id = .error err

end Gates

section Push

variable (reads : PushReads) (policy : RegistrationPolicy) (limits : GitLimits)
  (actor again : ActorContext) (userId : UserId) (owner name : String) (body : Bytes)

/-- The policy forbids the account to write. -/
def Forbidden : Prop :=
  ∃ status, reads.status userId = .ok (some status) ∧
    requireVerifiedForWrite status policy ≠ .ok ()

/-- Both transports let the account change the same refs, a failed read opens no protected ref, and
a forbidden account changes nothing. -/
structure PushProtected : Prop where
  same : mayChange (httpReceivePack reads policy limits actor again owner name body) =
    mayChange (sshReceivePack reads limits (.user userId) owner name)
  closed : ∀ repository, repositoryByName reads.access owner name = .ok repository →
    Unread reads.checks again repository ∨ Unread reads.checks (.user userId) repository ∨
      (∃ err, reads.status userId = .error err) →
    ∀ refName, ProtectedRef reads.checks repository refName →
      refName ∉ mayChange (httpReceivePack reads policy limits actor again owner name body) ∧
      refName ∉ mayChange (sshReceivePack reads limits (.user userId) owner name)
  verified : Forbidden reads policy userId →
    mayChange (httpReceivePack reads policy limits actor again owner name body) = ∅ ∧
      mayChange (sshReceivePack reads limits (.user userId) owner name) = ∅

/-- Where the account may write to the repository: it is not known to be unverified, the body is
within the HTTP bound, a repository whose size or rules cannot be read protects nothing, and no
protected ref is open to the account where its status cannot be read, or where the second resolution
of the HTTP actor fails. -/
structure Guarded (repository : Repository) : Prop where
  verified : ¬ Forbidden reads policy userId
  fits : body.length ≤ limits.maxPackBytes
  read : Unread reads.checks again repository ∨ Unread reads.checks (.user userId) repository →
    ∀ refName, ¬ ProtectedRef reads.checks repository refName
  open_to_none : again = .anonymous ∧ ¬ Unread reads.checks again repository ∨
      (∃ err, reads.status userId = .error err) →
    ∀ refName, ProtectedRef reads.checks repository refName →
      ¬ Exempt reads.checks (.user userId) repository refName

end Push

/-! ## Acting for an account -/

section Account

variable {db : Database} {actor : ActorContext} {userId : UserId} {repository : Repository}

theorem ActsFor.userId_eq (h : ActsFor actor userId) : actor.userId = some userId := by
  rcases h with rfl | ⟨tokenScope, rfl, -⟩ <;> rfl

theorem ActsFor.requireRole_eq (h : ActsFor actor userId) (access : Option RepoAccess)
    (minimum : RepoRole) :
    requireRole actor repository access minimum =
      requireRole (.user userId) repository access minimum := by
  rcases h with rfl | ⟨tokenScope, rfl, -⟩
  · rfl
  · cases access <;> rfl

theorem ActsFor.checkWith_eq (h : ActsFor actor userId) (minimum : RepoRole) :
    checkWith db actor repository (fun access => requireRole actor repository access minimum) =
      checkWith db (.user userId) repository
        (fun access => requireRole (.user userId) repository access minimum) := by
  have haccess : accessFor db actor repository = accessFor db (.user userId) repository := by
    simp only [accessFor, h.userId_eq]
    rfl
  simp only [checkWith, haccess, h.requireRole_eq]

theorem ActsFor.checkWrite_eq (h : ActsFor actor userId) :
    checkWrite db actor repository = checkWrite db (.user userId) repository :=
  h.checkWith_eq .write

theorem ActsFor.checkAdminister_eq (h : ActsFor actor userId) :
    checkAdminister db actor repository = checkAdminister db (.user userId) repository :=
  h.checkWith_eq .admin

theorem ActsFor.unread_iff (h : ActsFor actor userId) :
    Unread db actor repository ↔ Unread db (.user userId) repository := by
  simp only [Unread, h.checkAdminister_eq]

theorem ActsFor.exempt_iff (h : ActsFor actor userId) (refName : String) :
    Exempt db actor repository refName ↔ Exempt db (.user userId) repository refName := by
  simp only [Exempt, h.checkAdminister_eq, Allowlisted, h.userId_eq]
  rfl

theorem ActsFor.permitsTokenScope (h : ActsFor actor userId) :
    actor.permitsTokenScope .repoWrite = true := by
  rcases h with rfl | ⟨tokenScope, rfl, hscope⟩
  · rfl
  · exact hscope

/-- Nobody is exempt from a rule without an account. -/
theorem exempt_anonymous_iff (refName : String) :
    Exempt db .anonymous repository refName ↔ ¬ ProtectedRef db repository refName := by
  have hadmin : checkAdminister db .anonymous repository ≠ .ok () := by
    simp [checkAdminister, checkWith, accessFor, ActorContext.userId, canAdministerRepository,
      requireRole]
  constructor
  · rintro (hok | hnamed) ⟨rule, hrule, hprotects⟩
    · exact hadmin hok
    · obtain ⟨userId, huser, -⟩ := hnamed rule hrule hprotects
      cases huser
  · intro hnone
    right
    intro rule hrule hprotects
    exact absurd ⟨rule, hrule, hprotects⟩ hnone

theorem exempt_of_not_protectedRef {refName : String}
    (h : ¬ ProtectedRef db repository refName) : Exempt db actor repository refName := by
  right
  intro rule hrule hprotects
  exact absurd ⟨rule, hrule, hprotects⟩ h

/-- `HEAD` is no branch, and no rule protects it. -/
theorem not_protectedRef_head : ¬ ProtectedRef db repository "HEAD" := by
  rintro ⟨rule, -, branch, hname, -⟩
  have htext := congrArg String.toList hname
  simp [String.toList_append] at htext

end Account

/-! ## What the resolved checks let through -/

section Checks

variable {db : Database} {actor : ActorContext} {repository : Repository} {limits : GitLimits}

theorem resolveReceiveChecks_of_unread (h : Unread db actor repository) :
    ∃ err, resolveReceiveChecks db actor repository limits.repoLimit = .error err := by
  simp only [resolveReceiveChecks]
  rcases h with ⟨err, hsize⟩ | ⟨hadmin, err, hrules⟩
  · exact ⟨.notFound, by rw [hsize]⟩
  · cases db.repoSize repository.id with
    | error err => exact ⟨.notFound, rfl⟩
    | ok size =>
      refine ⟨.notFound, ?_⟩
      cases hcheck : checkAdminister db actor repository with
      | ok _ => exact absurd hcheck hadmin
      | error _ => simp only [hrules]

theorem unread_of_resolveReceiveChecks {err : AuthzError}
    (h : resolveReceiveChecks db actor repository limits.repoLimit = .error err) :
    Unread db actor repository := by
  simp only [resolveReceiveChecks] at h
  split at h
  · rename_i failure hsize
    exact Or.inl ⟨failure, hsize⟩
  · split at h
    · cases h
    · rename_i denied hdenied
      split at h
      · rename_i failure hrules
        exact Or.inr ⟨by simp [hdenied], failure, hrules⟩
      · cases h

/-- The checks of a push let a ref through where they could not be resolved, and where the rules
exempt the actor. -/
theorem opens_iff (refName : String) :
    anyPatternMatches (receiveChecksFor db actor repository limits).blockedRefPatterns refName =
        false ↔
      Unread db actor repository ∨ Exempt db actor repository refName := by
  simp only [receiveChecksFor]
  cases hresolve : resolveReceiveChecks db actor repository limits.repoLimit with
  | error err =>
    constructor
    · intro _
      exact Or.inl (unread_of_resolveReceiveChecks hresolve)
    · intro _
      rfl
  | ok checks =>
    have hread : ¬ Unread db actor repository := by
      intro hunread
      obtain ⟨err, herr⟩ := @resolveReceiveChecks_of_unread _ _ _ limits hunread
      rw [hresolve] at herr
      cases herr
    have hpasses := @passes_iff db actor repository _ _ ⟨zeroId, zeroId, refName⟩ hresolve
    rw [blockedRefRejection_singleton] at hpasses
    simp only
    rw [hpasses]
    simp only [Exempt, hread, false_or]

end Checks

/-! ## The two decisions -/

section Decisions

variable {reads : PushReads} {policy : RegistrationPolicy} {limits : GitLimits}
  {actor again : ActorContext} {userId : UserId} {owner name : String} {body : Bytes}
  {repository : Repository}

theorem knownUnverified_iff (h : actor.userId = some userId) :
    knownUnverified reads policy actor = true ↔ Forbidden reads policy userId := by
  simp only [knownUnverified, h, Forbidden]
  cases reads.status userId with
  | error err => simp
  | ok status => cases status <;> simp

theorem mem_mayChange_ok {checks : ReceiveChecks} {ε : Type} {refName : String} :
    refName ∈ mayChange (.ok checks : Except ε ReceiveChecks) ↔
      anyPatternMatches checks.blockedRefPatterns refName = false := by
  simp [mayChange]

theorem mayChange_error {ε : Type} (err : ε) :
    mayChange (.error err : Except ε ReceiveChecks) = ∅ := by
  ext refName
  simp [mayChange]

/-- What a writing account may change over HTTP. -/
theorem mem_mayChange_http (hactor : ActsFor actor userId)
    (hrepository : repositoryByName reads.access owner name = .ok repository)
    (hwrite : checkWrite reads.access (.user userId) repository = .ok ()) (refName : String) :
    refName ∈ mayChange (httpReceivePack reads policy limits actor again owner name body) ↔
      ¬ Forbidden reads policy userId ∧ body.length ≤ limits.maxPackBytes ∧
        (Unread reads.checks again repository ∨ Exempt reads.checks again repository refName) := by
  simp only [httpReceivePack, hrepository, requireWriteAccess, hactor.permitsTokenScope,
    Bool.true_eq_false, if_false, hactor.checkWrite_eq, hwrite, readBodyCapped]
  by_cases hforbidden : Forbidden reads policy userId
  · rw [if_pos ((knownUnverified_iff hactor.userId_eq).2 hforbidden), mayChange_error]
    simp [hforbidden]
  · rw [if_neg fun h => hforbidden ((knownUnverified_iff hactor.userId_eq).1 h)]
    by_cases hfits : limits.maxPackBytes < body.length
    · simp only [hfits, if_true, mayChange_error]
      simp [hfits]
    · simp only [hfits, if_false, mem_mayChange_ok, opens_iff]
      simp [hforbidden, not_lt.1 hfits]

/-- What a writing account may change over SSH. -/
theorem mem_mayChange_ssh
    (hrepository : repositoryByName reads.access owner name = .ok repository)
    (hwrite : checkWrite reads.access (.user userId) repository = .ok ()) (refName : String) :
    refName ∈ mayChange (sshReceivePack reads limits (.user userId) owner name) ↔
      Unread reads.checks (.user userId) repository ∨
        Exempt reads.checks (.user userId) repository refName := by
  simp only [sshReceivePack, hrepository, hwrite, mem_mayChange_ok, opens_iff]

/-- Without a repository that the account may write to, neither transport authorizes anything. -/
theorem mayChange_of_refused (hactor : ActsFor actor userId)
    (h : ∀ repository, repositoryByName reads.access owner name = .ok repository →
      checkWrite reads.access (.user userId) repository ≠ .ok ()) :
    mayChange (httpReceivePack reads policy limits actor again owner name body) = ∅ ∧
      mayChange (sshReceivePack reads limits (.user userId) owner name) = ∅ := by
  simp only [httpReceivePack, sshReceivePack]
  cases hrepository : repositoryByName reads.access owner name with
  | error err => exact ⟨mayChange_error _, mayChange_error _⟩
  | ok repository =>
    have hdenied := h repository hrepository
    simp only [requireWriteAccess, hactor.permitsTokenScope, Bool.true_eq_false, if_false,
      hactor.checkWrite_eq]
    cases hwrite : checkWrite reads.access (.user userId) repository with
    | ok _ => exact absurd hwrite hdenied
    | error err =>
      refine ⟨?_, mayChange_error _⟩
      split
      · rename_i response _
        exact mayChange_error response
      · rename_i hok
        split at hok
        · cases hok
        · cases err <;> simp only at hok <;> split at hok <;> cases hok

/-- Neither resolution of the HTTP actor opens a protected ref that is closed to the account. -/
theorem not_exempt_again (hagain : ActsFor again userId ∨ again = .anonymous) {refName : String}
    (hprotected : ProtectedRef reads.checks repository refName)
    (h : ¬ Exempt reads.checks (.user userId) repository refName) :
    ¬ Exempt reads.checks again repository refName := by
  rcases hagain with hacts | rfl
  · rwa [hacts.exempt_iff]
  · rw [exempt_anonymous_iff]
    exact not_not.2 hprotected

theorem guarded_of_pushProtected (hactor : ActsFor actor userId)
    (hrepository : repositoryByName reads.access owner name = .ok repository)
    (hwrite : checkWrite reads.access (.user userId) repository = .ok ())
    (h : PushProtected reads policy limits actor again userId owner name body) :
    Guarded reads policy limits again userId body repository := by
  have hhttp := @mem_mayChange_http _ policy limits _ again _ _ _ body _ hactor hrepository hwrite
  have hssh := @mem_mayChange_ssh _ limits _ _ _ _ hrepository hwrite
  -- HEAD is open to every writing account over SSH, and so has to be over HTTP
  have hhead := (hssh "HEAD").2 (Or.inr (exempt_of_not_protectedRef not_protectedRef_head))
  have hopen := (hhttp "HEAD").1 (h.same ▸ hhead)
  refine ⟨hopen.1, hopen.2.1, ?_, ?_⟩
  · intro hunread refName hprotected
    have hclosed := h.closed repository hrepository (hunread.elim Or.inl fun hu => Or.inr (Or.inl hu))
      refName hprotected
    rcases hunread with hagain | huser
    · exact hclosed.1 ((hhttp refName).2 ⟨hopen.1, hopen.2.1, Or.inl hagain⟩)
    · exact hclosed.2 ((hssh refName).2 (Or.inl huser))
  · intro hcase refName hprotected hexempt
    have hmem := (hssh refName).2 (Or.inr hexempt)
    rcases hcase with ⟨rfl, hread⟩ | hstatus
    · rcases ((hhttp refName).1 (h.same ▸ hmem)).2.2 with hunread | hnone
      · exact hread hunread
      · exact (exempt_anonymous_iff refName).1 hnone hprotected
    · exact (h.closed repository hrepository (Or.inr (Or.inr hstatus)) refName hprotected).2 hmem

theorem pushProtected_of_guarded (hactor : ActsFor actor userId)
    (hagain : ActsFor again userId ∨ again = .anonymous)
    (hrepository : repositoryByName reads.access owner name = .ok repository)
    (hwrite : checkWrite reads.access (.user userId) repository = .ok ())
    (h : Guarded reads policy limits again userId body repository) :
    PushProtected reads policy limits actor again userId owner name body where
  same := by
    ext refName
    rw [mem_mayChange_http hactor hrepository hwrite, mem_mayChange_ssh hrepository hwrite]
    simp only [h.verified, not_false_eq_true, h.fits, true_and]
    rcases hagain with hacts | rfl
    · rw [hacts.unread_iff, hacts.exempt_iff]
    · by_cases hprotected : ProtectedRef reads.checks repository refName
      · -- a protected ref is open to neither: the reads have to succeed
        have hread : ¬ Unread reads.checks .anonymous repository :=
          fun hunread => h.read (Or.inl hunread) refName hprotected
        have hread' : ¬ Unread reads.checks (.user userId) repository :=
          fun hunread => h.read (Or.inr hunread) refName hprotected
        simp [hread, hread', exempt_anonymous_iff, hprotected,
          h.open_to_none (Or.inl ⟨rfl, hread⟩) refName hprotected]
      · simp [exempt_of_not_protectedRef hprotected]
  closed := by
    intro other hother hcase refName hprotected
    obtain rfl := Except.ok.inj (hrepository.symm.trans hother)
    rw [mem_mayChange_http hactor hrepository hwrite, mem_mayChange_ssh hrepository hwrite]
    have hread : ¬ (Unread reads.checks again repository ∨
        Unread reads.checks (.user userId) repository) :=
      fun hunread => h.read hunread refName hprotected
    rw [not_or] at hread
    rcases hcase with hunread | hunread | hstatus
    · exact absurd hunread hread.1
    · exact absurd hunread hread.2
    · have hclosed := h.open_to_none (Or.inr hstatus) refName hprotected
      refine ⟨?_, ?_⟩
      · rintro ⟨-, -, hunread | hexempt⟩
        · exact hread.1 hunread
        · exact not_exempt_again hagain hprotected hclosed hexempt
      · rintro (hunread | hexempt)
        · exact hread.2 hunread
        · exact hclosed hexempt
  verified := by
    intro hforbidden
    exact absurd hforbidden h.verified

/-- Pushes are protected alike on both transports, and closed where a read fails, exactly when the
account, where it may write, is guarded. -/
theorem pushProtected_iff (hactor : ActsFor actor userId)
    (hagain : ActsFor again userId ∨ again = .anonymous) :
    PushProtected reads policy limits actor again userId owner name body ↔
      ∀ repository, repositoryByName reads.access owner name = .ok repository →
        checkWrite reads.access (.user userId) repository = .ok () →
        Guarded reads policy limits again userId body repository := by
  constructor
  · intro h repository hrepository hwrite
    exact guarded_of_pushProtected hactor hrepository hwrite h
  · intro h
    by_cases hwriting : ∃ repository, repositoryByName reads.access owner name = .ok repository ∧
        checkWrite reads.access (.user userId) repository = .ok ()
    · obtain ⟨repository, hrepository, hwrite⟩ := hwriting
      exact pushProtected_of_guarded hactor hagain hrepository hwrite
        (h repository hrepository hwrite)
    · obtain ⟨hhttp, hssh⟩ := @mayChange_of_refused _ policy limits _ again _ _ _ body hactor
        fun repository hrepository hwrite => hwriting ⟨repository, hrepository, hwrite⟩
      refine ⟨by rw [hhttp, hssh], ?_, fun _ => ⟨hhttp, hssh⟩⟩
      intro repository _ _ refName _
      rw [hhttp, hssh]
      exact ⟨fun h => h, fun h => h⟩

end Decisions

/-! ## What an authorized push changes -/

section Changed

variable {gix : Gix} {fault : Option Fault} {state : Repo} {commands : List RefCommand}
  {checks : ReceiveChecks}

/-- Written edits change refs that the commands name. -/
theorem exists_command_of_written (refs : RefStore) {edits written : List RefEdit}
    {refName : String} (hedits : refEdits gix (refUpdates commands) = .ok edits)
    (hwritten : ∀ edit ∈ written, edit ∈ edits)
    (h : (refs.writeAll written).lookup refName ≠ refs.lookup refName) :
    ∃ command ∈ commands, command.refName = refName := by
  rcases lookup_writeAll_cases written refs refName with hsame | ⟨edit, hmem, hname, -⟩
  · exact absurd hsame h
  · obtain ⟨update, hupdate, hedit⟩ := exists_update_of_edit gix hedits (hwritten edit hmem)
    obtain ⟨command, hcommand, rfl⟩ := List.mem_map.1 hupdate
    exact ⟨command, hcommand, (name_of_refEdit gix hedit).symm.trans hname⟩

/-- A push changes refs only where its commands pass the gate, and only those they name. -/
theorem command_of_changed {packData : Bytes} {refName : String} (hne : refName ≠ "HEAD")
    (h : (applyReceivePack gix fault state commands packData checks).1.refs.lookup refName ≠
      state.refs.lookup refName) :
    blockedRefRejection checks commands = none ∧ ∃ command ∈ commands, command.refName = refName := by
  simp only [applyReceivePack] at h
  split at h
  · exact absurd rfl h
  · have hcase := receiveBlocking_cases gix fault state commands packData checks
    generalize receiveBlocking gix fault state commands packData checks = out at hcase h
    cases hcase with
    | failed err _ => exact absurd rfl h
    | refused reason _ => exact absurd rfl h
    | halfPromoted name reason _ _ => exact absurd rfl h
    | unopened pack reason _ _ _ => exact absurd rfl h
    | rejected pack reason _ _ => exact absurd rfl h
    | notUpdated pack refs err hpromoted _ hupdate =>
      obtain ⟨_, _, _, hblocked, _⟩ := hpromoted.ready
      refine ⟨hblocked, ?_⟩
      have hcases := updateRefs_cases gix (refFault fault) state.refs (refUpdates commands)
      rw [hupdate] at hcases
      cases hcases with
      | refused err => exact absurd rfl h
      | interrupted edits written err _ hedits _ =>
        refine exists_command_of_written state.refs hedits ?_ h
        intro edit hmem
        exact mem_commitOrder.1 (List.mem_of_mem_take hmem)
    | landed pack refs hpromoted _ hupdate =>
      obtain ⟨_, _, _, hblocked, _⟩ := hpromoted.ready
      refine ⟨hblocked, ?_⟩
      have hcases := updateRefs_cases gix (refFault fault) state.refs (refUpdates commands)
      rw [hupdate] at hcases
      cases hcases with
      | applied edits hedits _ =>
        refine exists_command_of_written state.refs hedits
          (fun edit hmem => mem_commitOrder.1 hmem) ?_
        -- the repair of HEAD leaves the ref alone
        intro hsame
        apply h
        simp only
        split
        · exact hsame
        · rw [lookup_fixUnbornHead hne, hsame]

/-- A ref that a push changes is one that its transport authorized it to change, or `HEAD`, which is
repaired after a push. -/
theorem changed_mem_mayChange {ε : Type} {body : Bytes} {decision : Except ε ReceiveChecks}
    {refName : String} (hne : refName ≠ "HEAD")
    (h : (pushed gix fault state body decision).refs.lookup refName ≠ state.refs.lookup refName) :
    refName ∈ mayChange decision := by
  cases decision with
  | error err => exact absurd rfl h
  | ok checks =>
    simp only [pushed, runReceivePack] at h
    split at h
    · exact absurd rfl h
    · rename_i commands packData _
      have hchanged : (applyReceivePack gix fault state commands packData checks).1.refs.lookup
          refName ≠ state.refs.lookup refName := by
        intro hsame
        apply h
        split <;> rename_i hpush <;> rw [hpush] at hsame <;> exact hsame
      obtain ⟨hblocked, command, hmem, rfl⟩ := command_of_changed hne hchanged
      have hone := List.findSome?_eq_none_iff.1 hblocked command hmem
      rw [mem_mayChange_ok]
      simpa using hone

end Changed

/-! ## An unverified account, and rules that cannot be read -/

/-- User 1 may write to a repository whose branch `main` nobody may push to. -/
def gatedDatabase : Database :=
  { Database.empty with
    repositories := [⟨⟨5, "demo", .«public»⟩, "ada"⟩]
    repoAccess := [⟨5, .user 1, .write⟩]
    branchProtectionRules := [(5, ⟨"main", 0, false, false, false, false, [], []⟩)] }

/-- Reads that succeed, of an account whose address was confirmed at `emailVerifiedAt`. -/
def gatedReads (emailVerifiedAt : Option Int) : PushReads :=
  ⟨gatedDatabase, fun _ => .ok (some ⟨emailVerifiedAt⟩), gatedDatabase⟩

/-- Reads of a confirmed account that fail at the rules. -/
def outageReads : PushReads :=
  { gatedReads (some 0) with
    checks := { gatedDatabase with
      failing := fun query => if query = .listRules then some "timeout" else none } }

def verifying : RegistrationPolicy := ⟨true⟩

def gateLimits : GitLimits := ⟨1024, none⟩

theorem gatedDatabase_repository :
    repositoryByName gatedDatabase "ada" "demo" = .ok ⟨5, "demo", .«public»⟩ := by
  decide +kernel

theorem gatedDatabase_write :
    checkWrite gatedDatabase (.user 1) ⟨5, "demo", .«public»⟩ = .ok () := by
  decide +kernel

/-- An unverified account pushes over SSH, and with unreadable rules a protected branch is open. -/
theorem push_is_not_protected :
    ¬ PushProtected (gatedReads none) verifying gateLimits (.user 1) (.user 1) 1 "ada" "demo" [] ∧
    ¬ PushProtected outageReads verifying gateLimits (.user 1) (.user 1) 1 "ada" "demo" [] := by
  constructor
  · intro h
    have hforbidden : Forbidden (gatedReads none) verifying 1 := ⟨⟨none⟩, rfl, by decide⟩
    have hmem := (@mem_mayChange_ssh (gatedReads none) gateLimits 1 _ _ _ gatedDatabase_repository
      gatedDatabase_write "HEAD").2 (Or.inr (exempt_of_not_protectedRef not_protectedRef_head))
    rw [(h.verified hforbidden).2] at hmem
    exact hmem
  · intro h
    have hunread : Unread outageReads.checks (.user 1) ⟨5, "demo", .«public»⟩ :=
      Or.inr ⟨by decide +kernel, "timeout", by decide +kernel⟩
    have hprotected : ProtectedRef outageReads.checks ⟨5, "demo", .«public»⟩ "refs/heads/main" :=
      ⟨⟨"main", 0, false, false, false, false, [], []⟩, by decide +kernel, "main", rfl,
        by decide +kernel⟩
    have hclosed := h.closed _ gatedDatabase_repository (Or.inl hunread) _ hprotected
    exact hclosed.2 ((@mem_mayChange_ssh outageReads gateLimits 1 _ _ _ gatedDatabase_repository
      gatedDatabase_write "refs/heads/main").2 (Or.inl hunread))

/-- With every read in order a verified account is held alike on both transports. -/
theorem verified_push_is_protected :
    PushProtected (gatedReads (some 0)) verifying gateLimits (.user 1) (.user 1) 1 "ada" "demo" [] := by
  refine (pushProtected_iff (Or.inl rfl) (Or.inl (Or.inl rfl))).2 ?_
  intro repository hrepository _
  obtain rfl := Except.ok.inj (gatedDatabase_repository.symm.trans hrepository)
  have hread : ¬ Unread gatedDatabase (.user 1) ⟨5, "demo", .«public»⟩ := by
    intro hunread
    obtain ⟨err, herr⟩ := @resolveReceiveChecks_of_unread _ _ _ gateLimits hunread
    have hresolved : resolveReceiveChecks gatedDatabase (.user 1) ⟨5, "demo", .«public»⟩
        gateLimits.repoLimit = .ok ⟨["refs/heads/main"], [], [], none, 0⟩ := by
      decide +kernel
    rw [hresolved] at herr
    cases herr
  refine ⟨?_, by decide, ?_, ?_⟩
  · rintro ⟨status, hstatus, hforbidden⟩
    cases hstatus
    exact hforbidden (by decide)
  · intro hunread
    exact absurd (hunread.elim id id) hread
  · rintro (⟨hanonymous, -⟩ | ⟨err, herr⟩)
    · cases hanonymous
    · cases herr

end Edda.App
