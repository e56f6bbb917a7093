import FipsDropbox.Service.Guessing
import FipsDropbox.Service.Refusals
import FipsDropbox.Storage.Passwords
import FipsDropbox.Web.Calls

/-!
# Strangers

Somebody whose cookie, bearer token, password, share link and code all answer to nothing
in the store can send whatever requests there are, and the store stays as it is.
-/
namespace FipsDropbox.Web
open Utf8 Exec Crypto Storage Service

/-- Nothing in the store answers to what the operation is given. -/
def UnknownTo (app : App) (s : Store) : Request → Prop
  | .findAuthenticated raw | .logout raw .. => ∀ r ∈ s.db.sessions.rows, r.id ≠ (secretHash app raw).val
  | .verifyApiToken raw =>
      ∀ r ∈ s.db.apiTokens.rows, r.tokenHash = (secretHash app raw).val → r.revokedAt.isSome = true
  | .login q => ∀ r ∈ s.db.users.rows, r.email = q.email → r.disabledAt.isSome = true ∨
      (Cng.pbkdf2HmacSha256 app.bcrypt (encode q.password) r.passwordSalt (UInt64.ofInt r.passwordIters).toNat
        32).val ≠ r.passwordHash
  | .redeemShare q => ∀ r ∈ s.db.shares.rows, r.tokenHash = (secretHash app q.token).val →
      r.accessCodeHash ≠ (secretHash app q.accessCode).val
  | _ => False

/-- Whatever the request carries to an operation that needs no user is unknown. -/
def Stranger (site : Site) (s : Store) (visit : HttpRequest) : Prop :=
  ∀ req, NeedsNoUser req → Carries site visit req → UnknownTo site.toApp s req

section
variable {env : Env} {B : Bcrypt} {s : Store} {raw : Text}

theorem findValidSession_unknown (env : Env) (h : ∀ r ∈ s.db.sessions.rows, r.id ≠ (Cng.sha256 B (encode raw)).val) :
    (Sessions.findValid env B raw s).2 = s ∧ ∀ found, (Sessions.findValid env B raw s).1 = .ok found → found = none := by
  have hnone : liveSession env B s raw = none := by
    apply Table.find_none.mpr
    intro r hr
    simp [h r hr]
  rcases findValidSession_cases env B raw s with
    ⟨-, t, -, ⟨-, hrun⟩ | ⟨q, sess, hq, -, -⟩⟩ | ⟨-, e, hrun⟩
  · rcases findValidSession_ok hrun with ⟨-, rfl⟩ | ⟨sess, n, db, hfound, -⟩
    · rw [hrun]
      exact ⟨rfl, fun found hok => (Outcome.ok.inj hok).symm⟩
    · cases hfound
  · cases hnone.symm.trans hq
  · rw [hrun]
    exact ⟨rfl, fun found hok => by cases hok⟩

theorem findValidByRaw_unknown (env : Env) (h : ∀ r ∈ s.db.apiTokens.rows, r.tokenHash = (Cng.sha256 B (encode raw)).val →
    r.revokedAt.isSome = true) :
    (ApiTokens.findValidByRaw env B raw s).2 = s ∧
      ∀ found, (ApiTokens.findValidByRaw env B raw s).1 = .ok found → found = none := by
  have hnone : liveToken B s raw = none := by
    apply Table.find_none.mpr
    intro r hr
    by_cases hid : r.tokenHash = (Cng.sha256 B (encode raw)).val
    · have hrevoked : r.revokedAt.isNone = false := by
        rw [Option.isNone_eq_false_iff]
        exact h r hr hid
      simp [hrevoked]
    · simp [hid]
  rcases findValidByRaw_cases env B raw s with
    ⟨-, hrun⟩ | ⟨-, -, t, -, ⟨-, hrun⟩ | ⟨q, token, hq, -, -⟩⟩ | ⟨-, -, e, hrun⟩
  · rw [hrun]
    exact ⟨rfl, fun found hok => (Outcome.ok.inj hok).symm⟩
  · rcases findValidByRaw_ok hrun with ⟨-, rfl⟩ | ⟨token, n, db, hfound, -⟩
    · rw [hrun]
      exact ⟨rfl, fun found hok => (Outcome.ok.inj hok).symm⟩
    · cases hfound
  · cases hnone.symm.trans hq
  · rw [hrun]
    exact ⟨rfl, fun found hok => by cases hok⟩

theorem revokeSession_unknown (env : Env) (h : ∀ r ∈ s.db.sessions.rows, r.id ≠ (Cng.sha256 B (encode raw)).val) :
    (Sessions.revoke env B raw s).2 = s := by
  rcases revokeSession_cases env B raw s with ⟨-, hrun⟩ | ⟨-, e, hrun⟩
  · rw [hrun]
    have hsame : (s.db.sessions.delete fun r => r.id = (Cng.sha256 B (encode raw)).val).2 = s.db.sessions := by
      rw [Table.delete_none]
      intro r hr
      exact decide_eq_false (h r hr)
    rw [hsame]
  · rw [hrun]

theorem verifyPassword_unknown {email password : Text}
    (h : ∀ r ∈ s.db.users.rows, r.email = email → r.disabledAt.isSome = true ∨
      (Cng.pbkdf2HmacSha256 B (encode password) r.passwordSalt (UInt64.ofInt r.passwordIters).toNat 32).val ≠
        r.passwordHash) {found : Option User} (hok : (Users.verifyPassword env B email password s).1 = .ok found) :
    found = none := by
  cases found with
  | none => rfl
  | some user =>
      obtain ⟨hauth, -⟩ := verifyPassword_some_iff.mp (Prod.ext hok rfl)
      obtain ⟨row, hrow, huser⟩ := hauth.row
      obtain ⟨hmem, hemail⟩ := Table.find_some hrow
      obtain ⟨hsalt, hiters, hhash⟩ := Users.rowToUser_password huser
      rcases h row hmem (of_decide_eq_true hemail) with hdisabled | hwrong
      · have henabled := hauth.enabled
        rw [(rowToUser_ok huser).2.2.2, Option.map_eq_none_iff] at henabled
        rw [henabled] at hdisabled
        cases hdisabled
      · have hmatch := hauth.password
        rw [hsalt, hiters, hhash] at hmatch
        exact absurd hmatch hwrong

end

section
variable {env : RequestEnv} {app : App} {w : World} {req : Request}

/-- A lookup of an unknown credential answers with nobody, if at all. -/
theorem bearerUser_unknown {α : Type} {look : Exec Store StorageError (Option α)} {userOf : α → Uuid}
    (h : ∀ found, (look w.store).1 = .ok found → found = none) {a : Option (α × User)}
    (hok : (bearerUser env look userOf w).1 = .ok a) : a = none := by
  cases a with
  | none => rfl
  | some a =>
      obtain ⟨s, r, hlook, -⟩ := bearerUser_found (Prod.ext hok rfl : bearerUser env look userOf w = (.ok (some a), _))
      cases h _ (congrArg Prod.fst hlook)

theorem replying_ok {α : Type} {f : α → Reply} {m : Exec World ServiceError α} {reply : Reply}
    (h : (replying f m w).1 = .ok reply) : ∃ a, (m w).1 = .ok a ∧ f a = reply := by
  obtain ⟨a, w1, hm, hk⟩ := bind_ok_iff.mp (Prod.ext h rfl : replying f m w = (.ok reply, _))
  exact ⟨a, congrArg Prod.fst hm, (pure_ok_iff.mp hk).1⟩

theorem blocking_store {α : Type} {m : Exec World ServiceError α} (h : (m w).2.store = w.store) :
    (spawnBlocking (withStore m) w).2.store = w.store := by
  cases hp : w.storePoisoned with
  | true => rw [withStore_poisoned _ hp]
  | false => rw [(withStore_free _ hp).1, h]

theorem login_unknown (env : RequestEnv) {q : LoginRequest} (h : UnknownTo app w.store (.login q)) :
    (login env app q w).2.store = w.store ∧ ∀ issued, (login env app q w).1 ≠ .ok issued := by
  have hverify : ∀ {found t}, Users.verifyPassword env.toEnv app.bcrypt q.email q.password w.store = (.ok found, t) →
      found = none ∧ t = w.store := by
    intro found t hrun
    exact ⟨verifyPassword_unknown h (congrArg Prod.fst hrun), (moves_verifyPassword stays_frame _ _).of_run hrun⟩
  constructor
  · apply blocking_store
    rcases onStore_bind_cases (Users.verifyPassword env.toEnv app.bcrypt q.email q.password) _ w with
      ⟨found, t, hrun, hrest⟩ | ⟨-, hstate⟩
    · obtain ⟨rfl, rfl⟩ := hverify hrun
      rw [hrest]
      exact moves_audited stays_frame ((onStore_frame stays_frame).throw _) w
    · exact hstate.trans (moves_verifyPassword stays_frame _ _ w.store)
  · intro issued hok
    obtain ⟨-, hbody⟩ := blocking_ok_iff.mp (Prod.ext hok rfl : login env app q w = (.ok issued, _))
    obtain ⟨found, w1, h1, hrest⟩ := bind_ok_iff.mp hbody
    obtain ⟨t, hrun, rfl⟩ := onStore_ok_iff.mp h1
    obtain ⟨rfl, -⟩ := hverify hrun
    obtain ⟨-, hdenied⟩ := locked_ok_iff.mp hrest
    obtain ⟨_, _, -, hthrow⟩ := bind_ok_iff.mp hdenied
    cases hthrow

theorem logout_unknown {raw ip ua : Text} (h : UnknownTo app w.store (.logout raw ip ua)) :
    (logout env app raw ip ua w).2.store = w.store := by
  apply blocking_store
  have hfind := (findValidSession_unknown env.toEnv h).1
  rcases onStore_bind_cases (Sessions.findValid env.toEnv app.bcrypt raw) _ w with ⟨found, t, hrun, hrest⟩ | ⟨-, hstate⟩
  · obtain rfl : t = w.store := (congrArg Prod.snd hrun).symm.trans hfind
    rw [hrest]
    have hrevoke := revokeSession_unknown env.toEnv h
    rcases onStore_bind_cases (Sessions.revoke env.toEnv app.bcrypt raw) _ w with ⟨u, t, hrun', hrest'⟩ | ⟨-, hstate⟩
    · obtain rfl : t = w.store := (congrArg Prod.snd hrun').symm.trans hrevoke
      rw [hrest']
      exact moves_withAudit stays_frame (moves_writeEvent stays_frame _ _ _ _ _ _ _) w
    · exact hstate.trans hrevoke
  · exact hstate.trans hfind

theorem takes_unknown {q : RedeemRequest} (h : UnknownTo app w.store (.redeemShare q)) (r : Storage.ShareRow)
    (share : Share) : ¬ Takes env app w.store q r share := by
  intro ht
  exact h r ht.row ht.token ht.code

theorem redeemShare_unknown (env : RequestEnv) {q : RedeemRequest} (h : UnknownTo app w.store (.redeemShare q)) :
    (redeemShare env app q w).2.store = w.store ∧ ∀ resp, (redeemShare env app q w).1 ≠ .ok resp := by
  rcases redeemShare_cases env app q w with ⟨-, r, share, ht, -⟩ | ⟨-, hrest⟩
  · exact absurd ht (takes_unknown h r share)
  · exact hrest

/-- The step lemma: an operation on what is unknown leaves the store alone and finds
nobody. -/
theorem handle_unknown (env : RequestEnv) (h : UnknownTo app w.store req) :
    (handle env app req w).2.store = w.store ∧
      ∀ reply, (handle env app req w).1 = .ok reply → foundUser reply = none := by
  cases req with
  | login q =>
      obtain ⟨hstore, hno⟩ := login_unknown env h
      refine ⟨(congrArg World.store (replying_state _ _ w)).trans hstore, ?_⟩
      intro reply hok
      obtain ⟨issued, hissued, -⟩ := replying_ok hok
      exact absurd hissued (hno issued)
  | logout raw ip ua =>
      refine ⟨(congrArg World.store (replying_state _ _ w)).trans (logout_unknown h), ?_⟩
      intro reply hok
      obtain ⟨u, -, rfl⟩ := replying_ok hok
      rfl
  | findAuthenticated raw =>
      obtain ⟨hstore, hno⟩ := findValidSession_unknown env.toEnv h
      refine ⟨?_, ?_⟩
      · rw [handle, replying_state, findAuthenticated_eq]
        exact bearerUser_still hstore
      · intro reply hok
        obtain ⟨a, hanswer, rfl⟩ := replying_ok hok
        rw [findAuthenticated_eq] at hanswer
        obtain rfl := bearerUser_unknown hno hanswer
        rfl
  | verifyApiToken raw =>
      obtain ⟨hstore, hno⟩ := findValidByRaw_unknown env.toEnv h
      refine ⟨?_, ?_⟩
      · rw [handle, replying_state, verifyApiToken_eq]
        exact bearerUser_still hstore
      · intro reply hok
        obtain ⟨a, hanswer, rfl⟩ := replying_ok hok
        rw [verifyApiToken_eq] at hanswer
        obtain rfl := bearerUser_unknown hno hanswer
        rfl
  | redeemShare q =>
      obtain ⟨hstore, hno⟩ := redeemShare_unknown env h
      refine ⟨(congrArg World.store (replying_state _ _ w)).trans hstore, ?_⟩
      intro reply hok
      obtain ⟨resp, hresp, -⟩ := replying_ok hok
      exact absurd hresp (hno resp)
  | createShare | listAuditEvents | mintApiToken | listApiTokens | revokeApiToken | listRecentShares | revokeShare =>
      exact absurd h not_false

def Unsent (w w' : World) : Prop := w'.notices = w.notices

theorem unsent_frame : Frame Unsent where
  refl _ := rfl
  trans h h' := h'.trans h

section
variable {α : Type} {m : Exec World ServiceError α}

theorem unsent_onStore (m : Exec Store StorageError α) : Moves Unsent (onStore m) :=
  moves_adapt (moves_zoom (R := fun _ _ => True) (fun _ => trivial) fun _ _ _ => rfl)

theorem unsent_writeEvent (name : String) (outcome : Audit.Outcome) (userId : Option Uuid) (ip ua : Text)
    (target meta_ : List (Text × Json)) :
    Moves Unsent (writeEvent env app name outcome userId ip ua target meta_) := fun _ => rfl

theorem unsent_withAudit (h : Moves Unsent m) : Moves Unsent (withAudit m) := unsent_frame.locked h fun _ => rfl

theorem unsent_blocking (h : Moves Unsent m) : Moves Unsent (spawnBlocking (withStore m)) :=
  moves_task (unsent_frame.locked h fun _ => rfl)

theorem unsent_bearerUser (look : Exec Store StorageError (Option α)) (userOf : α → Uuid) :
    Moves Unsent (bearerUser env look userOf) := by
  have F := unsent_frame
  refine unsent_blocking (F.bind (unsent_onStore _) fun found => ?_)
  cases found with
  | none => exact F.pure none
  | some credential =>
      refine F.bind (unsent_onStore _) fun user => ?_
      cases user <;> exact F.pure _

theorem unsent_deny (q : RedeemRequest) (target : Text × Json) (reason : String) (e : ServiceError) :
    Moves Unsent (deny env app q target reason e : Exec World ServiceError α) :=
  unsent_withAudit (unsent_frame.bind (unsent_writeEvent _ _ _ _ _ _ _) fun _ => unsent_frame.throw e)

end

theorem unsent_redeemBody (q : RedeemRequest) : Moves Unsent (redeemBody env app q) := by
  have F := unsent_frame
  apply F.bind
  · apply F.bind (moves_adapt (moves_sha256 F _ _))
    intro tokenHash
    apply F.bind (unsent_onStore _)
    intro found
    cases found with
    | some share => exact F.pure share
    | none =>
        exact unsent_withAudit (F.bind (F.orPanic _) fun _ => F.bind (unsent_writeEvent _ _ _ _ _ _ _)
          fun _ => F.throw _)
  intro share
  apply F.bind
  · apply F.bind (unsent_onStore _)
    intro ok
    cases ok with
    | true => exact F.pure ()
    | false => exact unsent_deny _ _ _ _
  intro _
  apply F.bind
  · apply F.bind (unsent_onStore _)
    intro ok
    cases ok with
    | true => exact F.pure ()
    | false => exact unsent_deny _ _ _ _
  intro _
  exact F.bind (unsent_onStore _) fun _ => F.bind (F.orErr _ _) fun _ => F.bind (unsent_onStore _) fun _ =>
    unsent_withAudit (F.bind (unsent_writeEvent _ _ _ _ _ _ _) fun _ => F.pure _)

theorem handle_unsent (env : RequestEnv) (app : App) {req : Request} (h : NeedsNoUser req) :
    Moves Unsent (handle env app req) := by
  have F := unsent_frame
  cases req with
  | login q =>
      refine F.bind (unsent_blocking (F.bind (unsent_onStore _) fun found => ?_)) fun _ => F.pure _
      cases found with
      | none => exact unsent_withAudit (F.bind (unsent_writeEvent _ _ _ _ _ _ _) fun _ => F.throw _)
      | some user =>
          exact F.bind (unsent_onStore _) fun _ =>
            unsent_withAudit (F.bind (unsent_writeEvent _ _ _ _ _ _ _) fun _ => F.pure _)
  | logout raw ip ua =>
      exact F.bind (unsent_blocking (F.bind (unsent_onStore _) fun _ => F.bind (unsent_onStore _) fun _ =>
        unsent_withAudit (unsent_writeEvent _ _ _ _ _ _ _))) fun _ => F.pure _
  | findAuthenticated raw =>
      rw [handle, findAuthenticated_eq]
      exact F.bind (unsent_bearerUser _ _) fun _ => F.pure _
  | verifyApiToken raw =>
      rw [handle, verifyApiToken_eq]
      exact F.bind (unsent_bearerUser _ _) fun _ => F.pure _
  | redeemShare q => exact F.bind (unsent_blocking (unsent_redeemBody q)) fun _ => F.pure _
  | createShare | listAuditEvents | mintApiToken | listApiTokens | revokeApiToken | listRecentShares | revokeShare =>
      exact absurd h not_false

end

section
variable {env : RequestEnv} {site : Site} {w : World} {visit : HttpRequest}

theorem needsNoUser_of_found {env : RequestEnv} {app : App} {look : Request} {reply : Reply} {user : User}
    (hlook : (handle env app look w).1 = .ok reply) (huser : foundUser reply = some user) : NeedsNoUser look := by
  cases look with
  | login | logout | redeemShare | findAuthenticated | verifyApiToken => trivial
  | createShare | listAuditEvents | mintApiToken | listApiTokens | revokeApiToken | listRecentShares | revokeShare =>
      obtain ⟨a, -, rfl⟩ := replying_ok hlook
      cases huser

/-- A vouched run of operations on what is unknown finds nobody, so nothing is done for
anybody. -/
theorem Vouched.unknown {trace : List (RequestEnv × Request)} (h : Vouched site.toApp w trace)
    (hunknown : ∀ x ∈ trace, NeedsNoUser x.2 → UnknownTo site.toApp w.store x.2) :
    (serve site.toApp w trace).store = w.store ∧ Unsent w (serve site.toApp w trace) := by
  induction h with
  | nil w => exact ⟨rfl, rfl⟩
  | @alone w env req rest hreq hrest ih =>
      have hfirst := hunknown (env, req) List.mem_cons_self hreq
      have hstore := (handle_unknown env hfirst).1
      rw [hstore] at ih
      obtain ⟨hsame, hunsent⟩ := ih fun x hx => hunknown x (List.mem_cons_of_mem _ hx)
      exact ⟨hsame, unsent_frame.trans (handle_unsent env site.toApp hreq w) hunsent⟩
  | @lookedUp w env look req reply user rest hlook huser hreq hrest ih =>
      have hfirst := hunknown (env, look) List.mem_cons_self (needsNoUser_of_found hlook huser)
      cases ((handle_unknown env hfirst).2 reply hlook).symm.trans huser

/-- A guarded route does not get past its extractor. -/
theorem sessionAccount_stranger (h : Stranger site w.store visit) (r : UserRow) :
    sessionAccount env site w.store visit.headers ≠ some r := by
  intro haccount
  obtain ⟨raw, hraw, hlive⟩ := Option.bind_eq_some_iff.mp haccount
  obtain ⟨q, hq, -⟩ := Option.bind_eq_some_iff.mp hlive
  obtain ⟨hmem, hid⟩ := Table.find_some hq
  have hunknown := h (.findAuthenticated raw) trivial hraw
  simp only [Bool.and_eq_true, decide_eq_true_eq] at hid
  exact hunknown q hmem hid.1

theorem tokenAccount_stranger (h : Stranger site w.store visit) (r : UserRow) :
    tokenAccount site w.store visit.headers ≠ some r := by
  intro haccount
  obtain ⟨auth, hauth, hrest⟩ := Option.bind_eq_some_iff.mp haccount
  obtain ⟨raw, hraw, hrest⟩ := Option.bind_eq_some_iff.mp hrest
  obtain ⟨-, -, hrest⟩ := Option.bind_eq_some_iff.mp hrest
  obtain ⟨q, hq, -⟩ := Option.bind_eq_some_iff.mp hrest
  obtain ⟨hmem, hid⟩ := Table.find_some hq
  simp only [Bool.and_eq_true, decide_eq_true_eq] at hid
  have hunknown := h (.verifyApiToken raw) trivial ⟨auth, hauth, hraw⟩ q hmem hid.1
  rw [Option.isSome_iff_ne_none] at hunknown
  exact hunknown (Option.isNone_iff_eq_none.mp hid.2)

theorem guarded_stranger {handler : User → Exec World Response Response} (h : Stranger site w.store visit)
    (hroute : route env site visit = forUser env site visit.headers handler) : ¬ Acts env site visit w := by
  intro hacts
  obtain ⟨user, w1, hok⟩ :=
    acts_past hroute (moves_currentUser visit.headers) (safe_currentUser visit.headers) hacts
  obtain ⟨r, hr, -⟩ := currentUser_ok hok
  exact sessionAccount_stranger h r hr

theorem redeemPost_stranger {token : Text} {headers : HeaderMap} {form : RedeemForm} {r : Response} {w' : World}
    (h : UnknownTo site.toApp w.store (.redeemShare (redeemRequest token headers form)))
    (hok : redeemPost env site token headers form w = (.ok r, w')) : r.discloses = false := by
  obtain ⟨result, w1, hresult, hk⟩ := bind_ok_iff.mp hok
  rcases attempt_ok_iff.mp hresult with ⟨resp, -, hresp⟩ | ⟨e, rfl, -⟩
  · exact absurd (congrArg Prod.fst hresp) ((redeemShare_unknown env h).2 resp)
  · cases e <;> cases hk <;> rfl

/-- A stranger gets refusals and empty forms. -/
theorem respond_stranger (h : Stranger site w.store visit) {r : Response} (hok : (respond env site visit w).1 = .ok r)
    (hdis : r.discloses = true) : visit = .health := by
  have hacts : Acts env site visit w := .inr ⟨r, hok, hdis⟩
  cases visit with
  | health => rfl
  | dashboard | shareNewGet | shareNewPost | sharesListGet | shareRevoke | auditGet | auditCsv | tokensGet | tokensPost
  | tokenRevoke => exact absurd hacts (guarded_stranger h rfl)
  | apiSharesPost headers multipart =>
      obtain ⟨caller, w1, hcaller⟩ :=
        acts_past rfl (moves_adapt (moves_apiCaller headers)) (safe_apiCaller headers) hacts
      obtain ⟨q, hq, -⟩ := apiCaller_ok (adapt_ok_iff.mp hcaller)
      exact absurd hq (tokenAccount_stranger h q)
  | loginGet headers => exact absurd hacts ((modest_loginGet headers).not_acts rfl)
  | logoutPost headers => exact absurd hacts ((modest_logoutPost headers).not_acts rfl)
  | loginPost headers form =>
      cases form with
      | ok form => exact absurd hacts ((modest_loginPost headers form).not_acts rfl)
      | error e => exact absurd hacts (rejected_not_acts rfl)
  | redeemGet token =>
      rw [respond_eq] at hok
      cases token <;> cases hok <;> cases hdis
  | redeemPost token headers form =>
      cases token with
      | error e => exact absurd hacts (rejected_not_acts rfl)
      | ok token =>
          cases form with
          | error e => exact absurd hacts (rejected_not_acts rfl)
          | ok form =>
              have hunknown := h (.redeemShare (redeemRequest token headers form)) trivial
                ⟨token, headers, form, rfl, rfl⟩
              rw [respond_eq] at hok
              rcases hrun : route env site (.redeemPost (.ok token) headers (.ok form)) w with ⟨r' | r' | _, w1⟩ <;>
                rw [hrun] at hok <;> cases hok
              · cases (redeemPost_stranger hunknown (adapt_ok_iff.mp hrun)).symm.trans hdis
              · obtain ⟨e, -, rfl⟩ := adapt_err_iff.mp hrun
                cases hdis

/-- Whatever strangers send, in whatever order, the store stays as it is, nothing is sent,
and every answer to them but that of `/health` is a refusal or an empty form. -/
theorem strangers_change_nothing (site : Site) (w : World) (visits : List (RequestEnv × HttpRequest))
    (h : ∀ v ∈ visits, Stranger site w.store v.2) :
    (respondAll site w visits).store = w.store ∧ (respondAll site w visits).notices = w.notices ∧
      ∀ before env visit after, visits = before ++ (env, visit) :: after →
        ∀ r, (respond env site visit (respondAll site w before)).1 = .ok r → r.discloses = true → visit = .health := by
  have hrun : ∀ vs : List (RequestEnv × HttpRequest), (∀ v ∈ vs, Stranger site w.store v.2) →
      (respondAll site w vs).store = w.store ∧ Unsent w (respondAll site w vs) := by
    intro vs hvs
    obtain ⟨trace, hcarried, hvouched, hstate⟩ := respondAll_vouched site w vs
    rw [hstate]
    apply hvouched.unknown
    intro x hx hopen
    obtain ⟨v, hv, -, hcarries⟩ := hcarried x hx
    exact hvs v hv x.2 hopen hcarries
  refine ⟨(hrun visits h).1, (hrun visits h).2, ?_⟩
  rintro before env visit after rfl r hok hdis
  have hbefore := (hrun before fun v hv => h v (List.mem_append_left _ hv)).1
  have hvisit := h (env, visit) (List.mem_append_right _ List.mem_cons_self)
  rw [← hbefore] at hvisit
  exact respond_stranger hvisit hok hdis

end

/-- A visit without a cookie, and a guess at a link. -/
def strangerVisits : List (RequestEnv × HttpRequest) :=
  [(quietEnv, .dashboard []), (quietEnv, .redeemPost (.ok "guess".toList) [] (.ok ⟨"ABC".toList⟩))]

theorem guess_unknown : ∀ r ∈ sharedWorld.store.db.shares.rows,
    r.tokenHash ≠ (secretHash sampleApp "guess".toList).val := by
  intro r hr
  have hmem := List.mem_map_of_mem (f := fun r : Storage.ShareRow => (r.tokenHash, r.vendorId)) hr
  rw [sharedWorld_shares] at hmem
  have htoken : r.tokenHash = (secretHash sampleApp sampleToken).val :=
    (Prod.ext_iff.mp (List.mem_singleton.mp hmem)).1
  rw [htoken]
  decide +kernel

theorem strangers_change_nothing_sample :
    (respondAll sampleSite sharedWorld strangerVisits).store = sharedWorld.store ∧
      (respondAll sampleSite sharedWorld strangerVisits).notices = sharedWorld.notices ∧
      ∀ before env visit after, strangerVisits = before ++ (env, visit) :: after →
        ∀ r, (respond env sampleSite visit (respondAll sampleSite sharedWorld before)).1 = .ok r →
          r.discloses = true → visit = .health := by
  apply strangers_change_nothing
  have hanonymous : cookieValue [] sessionCookie = none ∧ HeaderMap.getStr [] "authorization" = none := ⟨rfl, rfl⟩
  intro v hv req hopen hcarries
  have hheaders : v.2.headers = [] := by
    rcases List.mem_pair.mp hv with rfl | rfl <;> rfl
  cases req with
  | findAuthenticated raw =>
      rw [Carries, hheaders, hanonymous.1] at hcarries
      cases hcarries
  | logout raw ip ua =>
      rw [Carries, hheaders, hanonymous.1] at hcarries
      cases hcarries
  | verifyApiToken raw =>
      obtain ⟨auth, hauth, -⟩ := hcarries
      rw [hheaders, hanonymous.2] at hauth
      cases hauth
  | login q =>
      obtain ⟨headers, form, hform, -⟩ := hcarries
      rcases List.mem_pair.mp hv with rfl | rfl <;> cases hform
  | redeemShare q =>
      obtain ⟨token, headers, form, hform, rfl⟩ := hcarries
      rcases List.mem_pair.mp hv with rfl | rfl <;> cases hform
      exact fun r hr htoken => absurd htoken (guess_unknown r hr)
  | createShare | listAuditEvents | mintApiToken | listApiTokens | revokeApiToken | listRecentShares | revokeShare =>
      exact absurd hopen not_false

end FipsDropbox.Web
