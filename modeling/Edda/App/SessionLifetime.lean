import Edda.App.SignIn

/-!
# The absolute lifetime of a session

How each route finds out whom it acts for. The API and the git routes leave a session out that was
established too long ago; the routes that take the user of the session as it is do not look at its
age. What a route does once it knows whom it acts for is a parameter.

`treatedAsAnonymous_iff` says which routes treat an old session as no session.
-/

set_option autoImplicit false

namespace Edda.App.SessionLifetime

open Edda.Domain Edda.Db Edda.Auth Edda.App.SignIn Edda.Support.RustText

/-- A session with the time it was established. The stamp says this time, unless it could not be
written. A link to an external identity that has been asked for is kept in the session. -/
structure EstablishedSession where
  session : Session
  establishedAt : Int
  pendingLink : Option UserId
  stamp : session.loginAt = none ∨ session.loginAt = some establishedAt

/-- The routes that act for the user of a session. -/
inductive Route where
  | api
  | infoRefs | uploadPack | receivePack | batch | listLocks | uploadAsset | downloadAsset
  | createLock | verifyLocks | unlock
  | me | resendVerification
  | createToken | listTokens | revokeToken
  | totpEnroll | totpActivate | totpDisable
  | addKey | listKeys | revokeKey
  | addCollaborator | listCollaborators | removeCollaborator
  | registerOptions | registerVerify | listCredentials | revokeCredential
  | startLink | startLinkNamed | callback
  | listUsers | listPendingUsers | approveUser | setAdmin | disableUser | enableUser | deleteUser
  | listAuditEvents | getInstanceSettings | putInstanceSettings | systemInfo
  | listRepos | setRepoVisibility | deleteRepoAdmin | listOrgs
  | listJobs | retryJob | cancelJob
  | listScheduledJobs | runScheduledJob | setScheduledJobEnabled
  deriving DecidableEq, Repr

/-- Where a route takes the user from. -/
inductive Source where
  | actor
  | resolveActor
  | resolveActorAndSession
  | session
  | sessionOrNobody
  | admin
  | pendingLink
  deriving DecidableEq, Repr

def Route.source : Route → Source
  | .api => .actor
  | .infoRefs | .uploadPack | .receivePack => .resolveActor
  | .batch | .listLocks | .uploadAsset | .downloadAsset => .resolveActor
  -- the access check resolves the actor, the lock is that of the session
  | .createLock | .verifyLocks | .unlock => .resolveActorAndSession
  | .me => .sessionOrNobody
  | .resendVerification => .session
  | .createToken | .listTokens | .revokeToken => .session
  | .totpEnroll | .totpActivate | .totpDisable => .session
  | .addKey | .listKeys | .revokeKey => .session
  | .addCollaborator | .listCollaborators | .removeCollaborator => .session
  | .registerOptions | .registerVerify | .listCredentials | .revokeCredential => .session
  | .startLink | .startLinkNamed => .session
  | .callback => .pendingLink
  | .listUsers | .listPendingUsers | .approveUser | .setAdmin => .admin
  | .disableUser | .enableUser | .deleteUser => .admin
  | .listAuditEvents | .getInstanceSettings | .putInstanceSettings | .systemInfo => .admin
  | .listRepos | .setRepoVisibility | .deleteRepoAdmin | .listOrgs => .admin
  | .listJobs | .retryJob | .cancelJob => .admin
  | .listScheduledJobs | .runScheduledJob | .setScheduledJobEnabled => .admin

/-- Whom a route checks access for, and whom it acts for. -/
structure Identity where
  checked : ActorContext
  user : Option UserId
  deriving DecidableEq, Repr

/-- A route that is turned away before its body says so in one of three ways. -/
inductive Reply (α : Type) where
  | unauthorized
  | forbidden
  | serverError (err : DbError)
  | answered (answer : α)
  deriving DecidableEq, Repr

/-- What a route does once it knows whom it acts for, on the tables and whatever else there is. -/
abbrev Body (α σ : Type) := Identity → Accounts × σ → α × (Accounts × σ)

section Serve

variable (out : Outside) (config : Config) (admins : List UserId) {α σ : Type}

def answer (body : Body α σ) (identity : Identity) (w : Accounts × σ) :
    Reply α × (Accounts × σ) :=
  let (answer, after) := body identity w
  (.answered answer, after)

/-- A request behind the session middleware. -/
def serve (route : Route) (session : Option EstablishedSession) (authorization : Option String)
    (body : Body α σ) (w : Accounts × σ) : Reply α × (Accounts × σ) :=
  let cookie := session.map EstablishedSession.session
  match sessionUser w.1 cookie with
  | .error err => (.serverError err, w)
  | .ok user => match route.source with
    | .actor => answer body ⟨apiActor out config w.1 cookie user authorization, none⟩ w
    | .resolveActor => answer body ⟨resolveActor out config w.1 cookie user authorization, none⟩ w
    | .resolveActorAndSession =>
      answer body
        ⟨resolveActor out config w.1 cookie user authorization, user.map Account.id⟩ w
    | .sessionOrNobody => answer body ⟨sessionActor user, user.map Account.id⟩ w
    | .session => match user with
      | none => (.unauthorized, w)
      | some account => answer body ⟨.user account.id, some account.id⟩ w
    | .admin => match user with
      | none => (.unauthorized, w)
      | some account =>
        if account.id ∈ admins then answer body ⟨.user account.id, some account.id⟩ w
        else (.forbidden, w)
    -- the callback looks at what the session keeps, not at its user
    | .pendingLink => match session.bind EstablishedSession.pendingLink with
      | none => answer body ⟨.anonymous, none⟩ w
      | some userId => answer body ⟨.user userId, some userId⟩ w

/-- The session was established longer ago than sessions live. -/
def Outlived (session : EstablishedSession) : Prop :=
  config.absoluteTtlSecs < out.now - session.establishedAt

instance (session : EstablishedSession) : Decidable (Outlived out config session) :=
  inferInstanceAs (Decidable (_ < _))

/-- Whatever the route does, it does without the session as well, or the request is refused before
the route and nothing changes. -/
def TreatedAsAnonymous (db : Accounts) (route : Route) (session : EstablishedSession)
    (authorization : Option String) : Prop :=
  ∀ (α σ : Type) (body : Body α σ) (rest : σ),
    (∃ err, serve out config admins route (some session) authorization body (db, rest) =
        (.serverError err, (db, rest))) ∨
      serve out config admins route (some session) authorization body (db, rest) =
        serve out config admins route none authorization body (db, rest)

/-- The session has its stamp, and the stamp can be read. -/
def Stamped (db : Accounts) (session : EstablishedSession) : Prop :=
  session.session.loginAt ≠ none ∧ db.failing .sessionLoginAt = none

instance (db : Accounts) (session : EstablishedSession) : Decidable (Stamped db session) :=
  inferInstanceAs (Decidable (_ ∧ _))

/-- The age of the session is looked at: the session has no user, or the route resolves the actor
from a stamp, or Basic credentials bring the password of the same user; a callback has no link
pending. -/
def Fits (db : Accounts) (route : Route) (session : EstablishedSession)
    (authorization : Option String) : Prop :=
  match route.source with
  | .pendingLink => (∃ err, sessionUser db (some session.session) = .error err) ∨
    session.pendingLink = none
  | .actor => ∀ account, sessionUser db (some session.session) = .ok (some account) →
    Stamped db session
  | .resolveActor => ∀ account, sessionUser db (some session.session) = .ok (some account) →
    Stamped db session ∨
      ∃ found, PasswordActor out config db none authorization found ∧ found.id = account.id
  | _ => ∀ account, sessionUser db (some session.session) ≠ .ok (some account)

end Serve

/-! ## The actors without a session -/

section Actors

variable {out : Outside} {config : Config} {db : Accounts} {session : EstablishedSession}
  {account : Account} {authorization : Option String}

theorem sessionUser_none : sessionUser db none = .ok none := rfl

theorem freshUser_none (cookie : Option Session) : freshUser out config db cookie none = none := by
  rw [freshUser]
  split
  · rfl
  · rfl

/-- A session that has outlived its time is left out where it has a stamp that can be read. -/
theorem freshUser_outlived (houtlived : Outlived out config session) :
    freshUser out config db (some session.session) (some account) =
      if Stamped db session then none else some account := by
  rw [freshUser, sessionLoginAt, Accounts.ask]
  cases hread : db.failing .sessionLoginAt with
  | some err => simp [sessionLoginExpired, Stamped, hread]
  | none =>
    rcases session.stamp with hnone | hsome
    · simp [hnone, sessionLoginExpired, Stamped]
    · have hexpired : sessionLoginExpired out config (some session.establishedAt) = true :=
        decide_eq_true houtlived
      simp [hexpired, hsome, hread, Stamped]

theorem apiActor_of_none {cookie : Option Session} {user : Option Account}
    (h : freshUser out config db cookie user = none) :
    apiActor out config db cookie user authorization =
      apiActor out config db none none authorization := by
  simp only [apiActor, h, freshUser_none]

theorem resolveActor_of_none {cookie : Option Session} {user : Option Account}
    (h : freshUser out config db cookie user = none) :
    resolveActor out config db cookie user authorization =
      resolveActor out config db none none authorization := by
  simp only [resolveActor, h, freshUser_none]

theorem apiActor_of_some {cookie : Option Session} {user : Option Account}
    (h : freshUser out config db cookie user = some account) :
    apiActor out config db cookie user authorization = .user account.id := by
  simp only [apiActor, h]

theorem resolveActor_of_some {cookie : Option Session} {user : Option Account}
    (h : freshUser out config db cookie user = some account) :
    resolveActor out config db cookie user authorization = .user account.id := by
  simp only [resolveActor, h]

/-- Without a session the API acts for the owner of a token, or for nobody. -/
theorem apiActor_ne_user (userId : UserId) :
    apiActor out config db none none authorization ≠ .user userId := by
  simp only [apiActor, freshUser_none]
  split
  · simp
  · split
    · simp [tokenActor]
    · simp

/-- Without a session the git routes act as a user by a password alone. -/
theorem resolveActor_eq_user (userId : UserId) :
    resolveActor out config db none none authorization = .user userId ↔
      ∃ found, PasswordActor out config db none authorization found ∧ found.id = userId := by
  constructor
  · intro h
    simp only [resolveActor, freshUser_none] at h
    split at h
    · cases h
    · rename_i identity secret hbasic
      split at h
      · simp [tokenActor] at h
      · rename_i hsecret
        split at h
        · simp [tokenActor] at h
        · rename_i hidentity
          split at h
          · rename_i found hauth
            exact ⟨found, ⟨none, identity, secret, rfl, freshUser_none none, hbasic, hsecret,
              hidentity, hauth⟩, ActorContext.user.inj h⟩
          · cases h
  · rintro ⟨found, ⟨user, identity, secret, hsession, -, hbasic, hsecret, hidentity, hauth⟩, rfl⟩
    simp [resolveActor, freshUser_none, hbasic, hsecret, hidentity, hauth]

end Actors

/-! ## Which routes look at the age of a session -/

section Routes

variable {out : Outside} {config : Config} {admins : List UserId} {db : Accounts}
  {session : EstablishedSession} {account : Account} {authorization : Option String} {route : Route}

/-- Routes that act for different users are told apart by what they answer. -/
theorem answers_alike_iff {first second : Identity} :
    (∀ (α σ : Type) (body : Body α σ) (rest : σ),
      (∃ err, answer body first (db, rest) = (.serverError err, (db, rest))) ∨
        answer body first (db, rest) = answer body second (db, rest)) ↔ first = second := by
  constructor
  · intro h
    rcases h Identity Unit (fun identity w => (identity, w)) () with ⟨err, herr⟩ | hsame
    · cases herr
    · exact Reply.answered.inj (Prod.mk.inj hsame).1
  · rintro rfl α σ body rest
    exact .inr rfl

/-- A route that answers is told apart from one that asks to sign in. -/
theorem not_refused {identity : Identity} (reply : ∀ α : Type, Reply α)
    (hreply : ∀ (α : Type) (a : α), reply α ≠ .answered a) :
    ¬ ∀ (α σ : Type) (body : Body α σ) (rest : σ),
      (∃ err, answer body identity (db, rest) = (.serverError err, (db, rest))) ∨
        answer body identity (db, rest) = (reply α, (db, rest)) := by
  intro h
  rcases h Unit Unit (fun _ w => ((), w)) () with ⟨err, herr⟩ | hsame
  · cases herr
  · exact hreply Unit () (Prod.mk.inj hsame).1.symm

/-- Where the user of a session cannot be read, no route is reached. -/
theorem refused_of_error {err : DbError}
    (hsession : sessionUser db (some session.session) = .error err) :
    TreatedAsAnonymous out config admins db route session authorization := by
  intro α σ body rest
  simp only [serve, Option.map_some, hsession]
  exact .inl ⟨err, rfl⟩

/-- A session that has no user is no session to a route that asks for its user. -/
theorem anonymous_of_nobody (hsession : sessionUser db (some session.session) = .ok none)
    (hsource : route.source ≠ .pendingLink) :
    TreatedAsAnonymous out config admins db route session authorization := by
  intro α σ body rest
  simp only [serve, Option.map_some, Option.map_none, hsession, sessionUser_none]
  refine .inr ?_
  have hapi : apiActor out config db (some session.session) none authorization =
      apiActor out config db none none authorization := apiActor_of_none (freshUser_none _)
  have hgit : resolveActor out config db (some session.session) none authorization =
      resolveActor out config db none none authorization := resolveActor_of_none (freshUser_none _)
  cases hcase : route.source with
  | pendingLink => exact absurd hcase hsource
  | actor => simp only [hapi]
  | resolveActor => simp only [hgit]
  | resolveActorAndSession => simp only [hgit]
  | session => rfl
  | sessionOrNobody => rfl
  | admin => rfl

/-- Which routes, for a session that still has a user. -/
theorem treated_of_user (houtlived : Outlived out config session)
    (hsession : sessionUser db (some session.session) = .ok (some account)) :
    TreatedAsAnonymous out config admins db route session authorization ↔
      Fits out config db route session authorization := by
  have hfresh : freshUser out config db (some session.session) (some account) =
      if Stamped db session then none else some account := freshUser_outlived houtlived
  have honly : ∀ other, sessionUser db (some session.session) = .ok (some other) →
      other = account := by
    intro other hother
    exact (Option.some.inj (Except.ok.inj (hsession.symm.trans hother))).symm
  simp only [TreatedAsAnonymous, Fits, serve, Option.map_some, Option.map_none, hsession,
    sessionUser_none]
  cases hcase : route.source with
  | actor =>
    simp only
    rw [answers_alike_iff]
    by_cases hstamped : Stamped db session
    · rw [if_pos hstamped] at hfresh
      exact iff_of_true (by rw [apiActor_of_none hfresh]) fun _ _ => hstamped
    · rw [if_neg hstamped] at hfresh
      refine iff_of_false (fun hsame => ?_) fun h => hstamped (h account rfl)
      rw [apiActor_of_some hfresh] at hsame
      exact apiActor_ne_user _ (congrArg Identity.checked hsame).symm
  | resolveActor =>
    simp only
    rw [answers_alike_iff]
    by_cases hstamped : Stamped db session
    · rw [if_pos hstamped] at hfresh
      exact iff_of_true (by rw [resolveActor_of_none hfresh]) fun _ _ => .inl hstamped
    · rw [if_neg hstamped] at hfresh
      rw [resolveActor_of_some hfresh]
      constructor
      · intro hsame other hother
        obtain rfl := honly other (hsession.trans hother)
        exact .inr ((resolveActor_eq_user _).1 (congrArg Identity.checked hsame).symm)
      · intro h
        rcases h account rfl with hstamp | hpassword
        · exact absurd hstamp hstamped
        · rw [(resolveActor_eq_user _).2 hpassword]
  | resolveActorAndSession =>
    simp only
    rw [answers_alike_iff]
    refine iff_of_false (fun hsame => ?_) fun h => h account rfl
    cases congrArg Identity.user hsame
  | sessionOrNobody =>
    simp only
    rw [answers_alike_iff]
    refine iff_of_false (fun hsame => ?_) fun h => h account rfl
    cases congrArg Identity.user hsame
  | session =>
    simp only
    exact iff_of_false (not_refused (fun _ => .unauthorized) nofun) fun h => h account rfl
  | admin =>
    simp only
    refine iff_of_false (fun h => ?_) fun h => h account rfl
    split at h
    · exact not_refused (fun _ => .unauthorized) nofun h
    · rcases h Unit Unit (fun _ w => ((), w)) () with ⟨err, herr⟩ | hsame
      · cases herr
      · cases hsame
  | pendingLink =>
    simp only [Option.bind_some, Option.bind_none]
    cases hlink : session.pendingLink with
    | none => exact iff_of_true (answers_alike_iff.2 rfl) (.inr rfl)
    | some userId =>
      rw [answers_alike_iff]
      refine iff_of_false (fun hsame => ?_) ?_
      · cases congrArg Identity.user hsame
      · rintro (⟨err, herr⟩ | hnone)
        · cases herr
        · cases hnone

/-- A callback that has no link pending does not look at the session. -/
theorem callback_of_nobody (hsession : sessionUser db (some session.session) = .ok none)
    (hsource : route.source = .pendingLink) :
    TreatedAsAnonymous out config admins db route session authorization ↔
      session.pendingLink = none := by
  simp only [TreatedAsAnonymous, serve, Option.map_some, Option.map_none, hsession,
    sessionUser_none, hsource, Option.bind_some, Option.bind_none]
  cases hlink : session.pendingLink with
  | none => exact iff_of_true (answers_alike_iff.2 rfl) rfl
  | some userId =>
    rw [answers_alike_iff]
    refine iff_of_false (fun hsame => ?_) nofun
    cases congrArg Identity.user hsame

end Routes

/-- A session that has outlived its time is as good as none exactly where the route looks at its
age. -/
theorem treatedAsAnonymous_iff (out : Outside) (config : Config) (admins : List UserId)
    (db : Accounts) (route : Route) (session : EstablishedSession) (authorization : Option String)
    (houtlived : Outlived out config session) :
    TreatedAsAnonymous out config admins db route session authorization ↔
      Fits out config db route session authorization := by
  cases hsession : sessionUser db (some session.session) with
  | error err =>
    refine iff_of_true (refused_of_error hsession) ?_
    simp only [Fits, hsession]
    split
    · exact .inl ⟨err, rfl⟩
    · exact nofun
    · exact nofun
    · exact nofun
  | ok user =>
    cases user with
    | some account => exact treated_of_user houtlived hsession
    | none =>
      by_cases hsource : route.source = .pendingLink
      · rw [callback_of_nobody hsession hsource]
        simp [Fits, hsource, hsession]
      · refine iff_of_true (anonymous_of_nobody hsession hsource) ?_
        simp only [Fits, hsession]
        split
        · exact absurd ‹_› hsource
        · exact nofun
        · exact nofun
        · exact nofun

/-! ### A session that mints a token -/

/-- `parse_token_scope`. -/
def parseTokenScope (raw : Option String) : Except String TokenScope :=
  match String.ofList (trim ((raw.getD "").toList)) with
  | "" | "all" => .ok .all
  | "read" => .ok .repoRead
  | "write" => .ok .repoWrite
  | _ => .error "scope must be one of: read, write, all"

/-- `tokens::create_scoped`; the token is drawn. -/
def createScoped (out : Outside) (db : Accounts) (userId : UserId) (name raw : String)
    (tokenScope : TokenScope) : Except String String × Accounts :=
  if trim name.toList = [] then (.error "token name can't be empty", db)
  else
    let token : AccessToken := ⟨out.sha256 raw, userId, .all, tokenScope⟩
    (.ok raw, { db with accessTokens := db.accessTokens ++ [token] })

/-- What `create_token` does for the user of a session. -/
def createToken (out : Outside) (name : String) (scope : Option String) (raw : String) :
    Body (Except String String) Unit :=
  fun identity w => match identity.user, parseTokenScope scope with
    | some userId, .ok tokenScope =>
      let (answer, db) := createScoped out w.1 userId name raw tokenScope
      (answer, (db, w.2))
    | some _, .error message => (.error message, w)
    -- the route does not get here without a user
    | none, _ => (.error "", w)

/-- Long after Ada has signed in. -/
def outsideLater : Outside := { adasOutside with now := 5000 }

def adasSession : EstablishedSession := ⟨⟨1, "hash of tulip", some 100⟩, 100, none, .inr rfl⟩

/-- The old session still mints a token, with which its holder is Ada on the API from then on. -/
theorem old_session_mints_a_token :
    Outlived outsideLater adasConfig adasSession ∧
      ¬ TreatedAsAnonymous outsideLater adasConfig [] (adasAccounts fun _ => none) .createToken
        adasSession none ∧
      let after := (serve outsideLater adasConfig [] .createToken (some adasSession) none
        (createToken outsideLater "laptop" none "edda_pat_s3cret")
        (adasAccounts fun _ => none, ())).2.1
      apiActor outsideLater adasConfig after none none (some "Bearer edda_pat_s3cret") =
        .token 1 .all .all := by
  have hanswered : (serve outsideLater adasConfig [] .createToken (some adasSession) none
      (createToken outsideLater "laptop" none "edda_pat_s3cret")
      (adasAccounts fun _ => none, ())).1 = .answered (.ok "edda_pat_s3cret") := by
    decide +kernel
  refine ⟨by decide, fun h => ?_, by decide +kernel⟩
  rcases h _ _ (createToken outsideLater "laptop" none "edda_pat_s3cret") () with
    ⟨err, herr⟩ | hsame
  · rw [herr] at hanswered
    cases hanswered
  · rw [hsame] at hanswered
    cases hanswered

/-- The API leaves the same session out. -/
theorem old_session_on_the_api :
    Outlived outsideLater adasConfig adasSession ∧
      TreatedAsAnonymous outsideLater adasConfig [] (adasAccounts fun _ => none) .api adasSession
        none :=
  ⟨by decide,
    (treatedAsAnonymous_iff outsideLater adasConfig [] _ .api adasSession none (by decide)).2
      fun _ _ => ⟨nofun, rfl⟩⟩

end Edda.App.SessionLifetime
