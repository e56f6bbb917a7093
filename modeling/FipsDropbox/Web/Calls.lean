import FipsDropbox.Service.Offboarding
import FipsDropbox.Web.AdminOnly
import FipsDropbox.Web.VendorChoice

/-!
# What a request calls

The HTTP layer has no state of its own. A request to it is at most one lookup of its
credential and one operation of the service, so a run over HTTP is a run of the service
in which whoever an operation is done for has just been looked up.
-/
namespace FipsDropbox.Web
open Utf8 Exec Crypto Storage Service

/-- The operations that a route calls without a user: the lookups, and those that check
the secrets of their request themselves. -/
def NeedsNoUser : Request → Prop
  | .login _ | .logout .. | .redeemShare _ | .findAuthenticated _ | .verifyApiToken _ => True
  | _ => False

def HttpRequest.headers : HttpRequest → HeaderMap
  | .dashboard headers | .loginGet headers | .loginPost headers _ | .logoutPost headers | .shareNewGet headers
  | .shareNewPost headers _ | .sharesListGet headers | .shareRevoke headers _ | .auditGet headers _
  | .auditCsv headers _ | .tokensGet headers | .tokensPost headers _ | .tokenRevoke headers _
  | .apiSharesPost headers _ | .redeemPost _ headers _ => headers
  | .redeemGet _ | .health => []

/-- What an operation is given as a credential or a secret is what the request carries. -/
def Carries (site : Site) (visit : HttpRequest) : Request → Prop
  | .findAuthenticated raw | .logout raw .. => cookieValue visit.headers sessionCookie = some raw
  | .verifyApiToken raw =>
      ∃ auth, visit.headers.getStr "authorization" = some auth ∧ auth.dropPrefix? bearer = some raw
  | .login q => ∃ headers form, visit = .loginPost headers (.ok form) ∧ q = loginRequest site headers form
  | .redeemShare q =>
      ∃ token headers form, visit = .redeemPost (.ok token) headers (.ok form) ∧ q = redeemRequest token headers form
  | _ => True

/-- The operations that a route calls for a user, with that user's identifier wherever
one is taken; a share is attested. -/
def DoneFor (user : User) : Request → Prop
  | .createShare q => q.createdBy = user.id ∧ q.cuiAttested = true
  | .mintApiToken u .. | .listApiTokens u | .revokeApiToken _ u .. | .revokeShare _ u .. => u = user.id
  | .listAuditEvents .. | .listRecentShares _ => True
  | _ => False

def foundUser : Reply → Option User
  | .authenticated a => a.map Prod.snd
  | .verified a => a.map Prod.snd
  | _ => none

/-- A run of the service in which every operation needs no user, or is for the user whom
the lookup right before it has found. -/
inductive Vouched (app : App) : World → List (RequestEnv × Request) → Prop
  | nil (w : World) : Vouched app w []
  | alone {w : World} {env : RequestEnv} {req : Request} {rest : List (RequestEnv × Request)}
      (hreq : NeedsNoUser req) (hrest : Vouched app (handle env app req w).2 rest) :
      Vouched app w ((env, req) :: rest)
  | lookedUp {w : World} {env : RequestEnv} {look req : Request} {reply : Reply} {user : User}
      {rest : List (RequestEnv × Request)} (hlook : (handle env app look w).1 = .ok reply)
      (huser : foundUser reply = some user) (hreq : DoneFor user req)
      (hrest : Vouched app (handle env app req (handle env app look w).2).2 rest) :
      Vouched app w ((env, look) :: (env, req) :: rest)

def respondAll (site : Site) : World → List (RequestEnv × HttpRequest) → World
  | w, [] => w
  | w, (env, req) :: rest => respondAll site (respond env site req w).2 rest

section
variable {app : App}

theorem Vouched.append {w : World} {xs ys : List (RequestEnv × Request)} (hx : Vouched app w xs)
    (hy : Vouched app (serve app w xs) ys) : Vouched app w (xs ++ ys) := by
  induction hx with
  | nil w => exact hy
  | alone hreq hrest ih => exact .alone hreq (ih hy)
  | lookedUp hlook huser hreq hrest ih => exact .lookedUp hlook huser hreq (ih hy)

end

theorem then_stays {σ ε α β : Type} {m : Exec σ ε α} {k : α → Exec σ ε β} (hk : ∀ a, Moves Stays (k a)) (s : σ) :
    ((m >>= k) s).2 = (m s).2 := by
  rcases bind_cases m k s with ⟨a, s', hm, hrun⟩ | ⟨-, hstate, -⟩
  · rw [hrun, hm]
    exact hk a s'
  · exact hstate

section
variable {ε ε' α β : Type} {env : RequestEnv} {app : App} {P : Request → Prop} {m : Exec World ε α}

/-- The computation leaves the state that the operation of the service leaves. -/
def EndsAs (env : RequestEnv) (app : App) (req : Request) (m : Exec World ε α) : Prop :=
  ∀ w, (m w).2 = (handle env app req w).2

/-- The computation calls no operation, or one of which `P` holds. -/
def CallsAtMost (env : RequestEnv) (app : App) (P : Request → Prop) (m : Exec World ε α) : Prop :=
  Moves Stays m ∨ ∃ req, P req ∧ EndsAs env app req m

/-- The computation is a lookup, and a user it ends with is the user that was found. -/
structure LooksUp (env : RequestEnv) (app : App) (look : Request) (userOf : α → User) (m : Exec World ε α) :
    Prop where
  ends : EndsAs env app look m
  found : ∀ {w a w'}, m w = (.ok a, w') →
    ∃ reply, (handle env app look w).1 = .ok reply ∧ foundUser reply = some (userOf a)

theorem EndsAs.replying {req : Request} {f : α → Reply} {m : Exec World ServiceError α}
    (h : handle env app req = replying f m) : EndsAs env app req m := by
  intro w
  rw [h, replying_state]

theorem EndsAs.attempt {req : Request} (h : EndsAs env app req m) :
    EndsAs env app req (attempt m : Exec World ε' (Except ε α)) := fun w => (attempt_state m w).trans (h w)

theorem EndsAs.adapt {req : Request} {f : ε → ε'} (h : EndsAs env app req m) :
    EndsAs env app req (adapt f m) := fun w => (adapt_state f m w).trans (h w)

theorem EndsAs.andThen {req : Request} {k : α → Exec World ε β} (h : EndsAs env app req m)
    (hk : ∀ a, Moves Stays (k a)) : EndsAs env app req (m >>= k) := fun w => (then_stays hk w).trans (h w)

theorem CallsAtMost.imp {Q : Request → Prop} (h : CallsAtMost env app P m) (himp : ∀ req, P req → Q req) :
    CallsAtMost env app Q m := by
  rcases h with h | ⟨req, hP, hends⟩
  · exact .inl h
  · exact .inr ⟨req, himp req hP, hends⟩

theorem CallsAtMost.adapt {f : ε → ε'} (h : CallsAtMost env app P m) : CallsAtMost env app P (adapt f m) := by
  rcases h with h | ⟨req, hP, hends⟩
  · exact .inl (moves_adapt h)
  · exact .inr ⟨req, hP, hends.adapt⟩

end

section
variable {ε α β : Type} {env : RequestEnv} {site : Site}

theorem calls_op {P : Request → Prop} {req : Request} {f : α → Reply}
    {op : Exec World ServiceError α} (hP : P req) (hop : handle env site.toApp req = replying f op)
    {k : Except ServiceError α → Exec World ε β} (hk : ∀ r, Moves Stays (k r)) :
    CallsAtMost env site.toApp P ((attempt op : Exec World ε (Except ServiceError α)) >>= k) :=
  .inr ⟨req, hP, (EndsAs.replying hop).attempt.andThen hk⟩

theorem calls_orInternal {P : Request → Prop} {req : Request} {f : α → Reply}
    {op : Exec World ServiceError α} (hP : P req) (hop : handle env site.toApp req = replying f op)
    {k : α → Exec World StatusCode β} (hk : ∀ a, Moves Stays (k a)) :
    CallsAtMost env site.toApp P (orInternal op >>= k) :=
  .inr ⟨req, hP, (EndsAs.replying hop).adapt.andThen hk⟩

theorem calls_orWarn {P : Request → Prop} {req : Request} {f : α → Reply}
    {op : Exec World ServiceError α} (hP : P req) (hop : handle env site.toApp req = replying f op)
    {k : Unit → Exec World StatusCode β} (hk : ∀ u, Moves Stays (k u)) :
    CallsAtMost env site.toApp P (orWarn op >>= k) :=
  .inr ⟨req, hP, ((EndsAs.replying hop).attempt.andThen fun _ => stays_frame.pure _).andThen hk⟩

/-- A handler on what the framework has read, or the framework's refusal. -/
theorem calls_extracting {P : Request → Prop} {extracted : Extracted α}
    {handler : α → Exec World StatusCode Response} (h : ∀ a, CallsAtMost env site.toApp P (handler a)) :
    CallsAtMost env site.toApp P (extracting extracted handler) := by
  cases extracted with
  | ok a => exact (h a).adapt
  | error r => exact .inl (stays_frame.throw _)

theorem endsAs_loginPost (headers : HeaderMap) (form : LoginForm) :
    EndsAs env site.toApp (.login (loginRequest site headers form)) (loginPost env site headers form) := by
  have hlogin : EndsAs env site.toApp (.login (loginRequest site headers form))
      (login env site.toApp (loginRequest site headers form)) := .replying (f := .session) rfl
  refine hlogin.attempt.andThen ?_
  intro result
  split
  · exact stays_frame.bind (stays_frame.orPanic _) fun _ => stays_frame.pure _
  · exact stays_frame.pure _
  · exact stays_frame.throw _

theorem calls_logoutPost (headers : HeaderMap) :
    CallsAtMost env site.toApp (fun req => ∃ raw, cookieValue headers sessionCookie = some raw ∧
      req = .logout raw (clientIp headers) (userAgent headers)) (logoutPost env site headers) := by
  have hrest : Moves Stays (do
      let cookie ← orPanic (headerValue clearSessionCookie)
      pure ((Response.redirect "/login").withHeader "set-cookie" cookie) : Exec World StatusCode Response) :=
    stays_frame.bind (stays_frame.orPanic _) fun _ => stays_frame.pure _
  unfold logoutPost
  cases hraw : cookieValue headers sessionCookie with
  | none => exact .inl (stays_frame.bind (stays_frame.pure _) fun _ => hrest)
  | some raw =>
      dsimp only [Option.getD_some]
      split_ifs
      · exact .inl (stays_frame.bind (stays_frame.pure _) fun _ => hrest)
      · exact calls_op ⟨raw, rfl, rfl⟩ rfl fun _ => hrest

theorem calls_redeemPost (token : Text) (headers : HeaderMap) (form : RedeemForm) :
    CallsAtMost env site.toApp (· = .redeemShare (redeemRequest token headers form))
      (redeemPost env site token headers form) := by
  refine calls_op (P := (· = .redeemShare (redeemRequest token headers form))) rfl rfl ?_
  intro result
  cases result with
  | ok resp => exact stays_frame.pure _
  | error e =>
      cases e <;> first
        | exact stays_frame.pure _
        | exact stays_frame.throw _

/-- What a body asks for is asked for by the user, and attested. -/
theorem request_doneFor {attests : Field → Bool} {fail : String → ε} {U : CaseTables} {user : User}
    {headers : HeaderMap} {m : Multipart} {req : NewShareRequest}
    (h : requestOf attests fail U user headers m = some req) : DoneFor user (.createShare req) := by
  obtain ⟨d, -, hreq⟩ := requestOf_some_iff.mp h
  obtain ⟨-, -, -, -, hattested⟩ := complete_ok hreq
  unfold Draft.complete at hreq
  obtain ⟨filename, -, hreq⟩ := of_except_bind hreq
  obtain ⟨bytes, -, hreq⟩ := of_except_bind hreq
  obtain ⟨email, -, hreq⟩ := of_except_bind hreq
  obtain ⟨name, -, hreq⟩ := of_except_bind hreq
  rw [hattested] at hreq
  cases hreq
  exact ⟨rfl, rfl⟩

theorem Submits.ends {handler : Exec World ε Response} {req : NewShareRequest}
    (h : Submits env site handler (some req)) : EndsAs env site.toApp (.createShare req) handler := by
  obtain ⟨answer, refuse, rfl⟩ := h
  have hends : EndsAs env site.toApp (.createShare req) (createShare env site.toApp req) :=
    .replying (f := .created) rfl
  exact hends.adapt.andThen fun _ => stays_frame.pure _

theorem Submits.calls {handler : Exec World ε Response} {asked : Option NewShareRequest}
    (h : Submits env site handler asked) {user : User} (hfor : ∀ req, asked = some req → DoneFor user (.createShare req)) :
    CallsAtMost env site.toApp (DoneFor user) handler := by
  cases asked with
  | none =>
      rcases h with ⟨answer, rfl⟩ | ⟨refusal, rfl⟩
      · exact .inl (stays_frame.pure _)
      · exact .inl (stays_frame.throw _)
  | some req => exact .inr ⟨.createShare req, hfor req rfl, h.ends⟩

theorem calls_revocation {user : User} {id : Text} (req : Uuid → Request) {op : Uuid → Exec World ServiceError Unit}
    {page : String} (hfor : ∀ id, DoneFor user (req id))
    (hop : ∀ id, handle env site.toApp (req id) = replying (fun _ => .done) (op id)) :
    CallsAtMost env site.toApp (DoneFor user) (do
      let target ← orErr StatusCode.badRequest (site.parseUuid id)
      orWarn (op target)
      pure (.redirect page) : Exec World StatusCode Response) := by
  cases site.parseUuid id with
  | none => exact .inl (stays_frame.throw _)
  | some target => exact calls_orWarn (hfor target) (hop target) fun _ => stays_frame.pure _

theorem calls_tokensPost (user : User) (headers : HeaderMap) (form : TokenMintForm) :
    CallsAtMost env site.toApp (DoneFor user) (tokensPost env site user headers form) := by
  unfold tokensPost
  dsimp only
  split_ifs
  · exact .inl (stays_frame.pure _)
  · have hfor : DoneFor user (.mintApiToken user.id (trim form.label) (clientIp headers) (userAgent headers)) := rfl
    exact calls_orInternal hfor rfl fun _ => stays_frame.pure _

/-- What the computation does to the world is a vouched run of the service on its host, of
operations of which `P` holds. -/
def Fronts (env : RequestEnv) (site : Site) (P : Request → Prop) (m : Exec World ε α) : Prop :=
  ∀ w, ∃ trace, (∀ x ∈ trace, x.1 = env ∧ P x.2) ∧ Vouched site.toApp w trace ∧ (m w).2 = serve site.toApp w trace

theorem CallsAtMost.fronts {P : Request → Prop} {m : Exec World ε α}
    (h : CallsAtMost env site.toApp (fun req => NeedsNoUser req ∧ P req) m) : Fronts env site P m := by
  intro w
  rcases h with hstay | ⟨req, ⟨hreq, hP⟩, hends⟩
  · exact ⟨[], List.forall_mem_nil _, .nil w, hstay w⟩
  · exact ⟨[(env, req)], by simpa using hP, .alone hreq (.nil _), hends w⟩

theorem LooksUp.fronts {P : Request → Prop} {look : Request} {userOf : α → User} {m : Exec World ε α}
    {k : α → Exec World ε β} (h : LooksUp env site.toApp look userOf m) (hlook : NeedsNoUser look ∧ P look)
    (hfor : ∀ user req, DoneFor user req → P req)
    (hk : ∀ a, CallsAtMost env site.toApp (DoneFor (userOf a)) (k a)) : Fronts env site P (m >>= k) := by
  intro w
  have hw : (m w).2 = (handle env site.toApp look w).2 := h.ends w
  obtain ⟨hopen, hP⟩ := hlook
  rcases bind_cases m k w with ⟨a, w', hm, hrun⟩ | ⟨-, hstate, -⟩
  · obtain ⟨reply, hreply, huser⟩ := h.found hm
    rw [hm] at hw
    obtain rfl : w' = _ := hw
    rw [hrun]
    rcases hk a with hstay | ⟨req, hreq, hends⟩
    · exact ⟨[(env, look)], by simpa using hP, .alone hopen (.nil _), hstay _⟩
    · exact ⟨[(env, look), (env, req)], by simpa using ⟨hP, hfor _ _ hreq⟩,
        .lookedUp hreply huser hreq (.nil _), hends _⟩
  · exact ⟨[(env, look)], by simpa using hP, .alone hopen (.nil _), hstate.trans hw⟩

theorem LooksUp.serve {look req : Request} {userOf : α → User} {m : Exec World ε α} {k : α → Exec World ε β}
    (h : LooksUp env site.toApp look userOf m) {a : α} {w w' : World} (hm : m w = (.ok a, w'))
    (hk : EndsAs env site.toApp req (k a)) : ((m >>= k) w).2 = serve site.toApp w [(env, look), (env, req)] := by
  have hlook : (handle env site.toApp look w).2 = w' := (h.ends w).symm.trans (congrArg Prod.snd hm)
  rw [bind_ok hm, hk w', ← hlook]
  rfl

theorem fronts_of_throw {P : Request → Prop} {e : ε} : Fronts env site P (throw e : Exec World ε α) :=
  fun w => ⟨[], List.forall_mem_nil _, .nil w, rfl⟩

theorem DoneFor.carries {user : User} {req : Request} (h : DoneFor user req) (visit : HttpRequest) :
    Carries site visit req := by
  cases req with
  | findAuthenticated | logout | verifyApiToken | login | redeemShare => exact absurd h not_false
  | _ => trivial

theorem currentUser_anonymous {headers : HeaderMap} (hraw : cookieValue headers sessionCookie = none) :
    currentUser env site headers = throw authRedirect := by
  rw [currentUser, resolveUser, hraw]
  rfl

theorem looksUp_currentUser {headers : HeaderMap} {raw : Text} (hraw : cookieValue headers sessionCookie = some raw) :
    LooksUp env site.toApp (.findAuthenticated raw) id (currentUser env site headers) := by
  have hlook : EndsAs env site.toApp (.findAuthenticated raw) (findAuthenticated env site.toApp raw) :=
    .replying (f := .authenticated) rfl
  rw [currentUser, resolveUser, hraw]
  refine ⟨((hlook.adapt.andThen fun _ => stays_frame.pure _).attempt).andThen ?_, ?_⟩
  · intro resolved
    split
    · exact stays_frame.pure _
    · exact stays_frame.throw _
  · intro w user w' h
    obtain ⟨resolved, w1, hattempt, hk⟩ := bind_ok_iff.mp h
    rcases attempt_ok_iff.mp hattempt with ⟨answer, rfl, hresolve⟩ | ⟨e, rfl, -⟩
    · obtain ⟨found, w2, hfind, hmap⟩ := bind_ok_iff.mp hresolve
      obtain ⟨rfl, -⟩ := pure_ok_iff.mp hmap
      refine ⟨.authenticated found, ?_, ?_⟩
      · rw [handle, replying, bind_ok (adapt_ok_iff.mp hfind)]
        rfl
      · cases found with
        | none => cases hk
        | some found =>
            cases hk
            rfl
    · cases hk

theorem looksUp_apiCaller (env : RequestEnv) (site : Site) {headers : HeaderMap} {auth raw : Text}
    (hauth : headers.getStr "authorization" = some auth) (hraw : auth.dropPrefix? bearer = some raw) :
    LooksUp env site.toApp (.verifyApiToken raw) ApiCaller.user (apiCaller env site headers) := by
  have hlook : EndsAs env site.toApp (.verifyApiToken raw) (verifyApiToken env site.toApp raw) :=
    .replying (f := .verified) rfl
  rw [apiCaller, hauth]
  change LooksUp env site.toApp _ _ (orErr _ (auth.dropPrefix? bearer) >>= _)
  rw [hraw]
  change LooksUp env site.toApp _ _ (attempt (verifyApiToken env site.toApp raw) >>= _)
  refine ⟨hlook.attempt.andThen ?_, ?_⟩
  · intro verified
    split
    · exact stays_frame.pure _
    · exact stays_frame.throw _
    · exact stays_frame.throw _
  · intro w caller w' h
    obtain ⟨verified, w1, hattempt, hk⟩ := bind_ok_iff.mp h
    rcases attempt_ok_iff.mp hattempt with ⟨found, rfl, hfind⟩ | ⟨e, rfl, -⟩
    · refine ⟨.verified found, ?_, ?_⟩
      · rw [handle, replying, bind_ok hfind]
        rfl
      · cases found with
        | none => cases hk
        | some found =>
            cases hk
            rfl
    · cases hk

theorem fronts_forUser (visit : HttpRequest) {handler : User → Exec World Response Response}
    (h : ∀ user, CallsAtMost env site.toApp (DoneFor user) (handler user)) :
    Fronts env site (Carries site visit) (forUser env site visit.headers handler) := by
  cases hraw : cookieValue visit.headers sessionCookie with
  | none =>
      rw [forUser, currentUser_anonymous hraw]
      exact fronts_of_throw
  | some raw => exact (looksUp_currentUser hraw).fronts ⟨trivial, hraw⟩ (fun _ _ hfor => hfor.carries visit) h

theorem fronts_forCaller (visit : HttpRequest) {handler : ApiCaller → Exec World Response Response}
    (h : ∀ caller, CallsAtMost env site.toApp (DoneFor caller.user) (handler caller)) :
    Fronts env site (Carries site visit) (forCaller env site visit.headers handler) := by
  unfold forCaller
  cases hauth : visit.headers.getStr "authorization" with
  | none =>
      rw [apiCaller, hauth]
      exact fronts_of_throw
  | some auth =>
      cases hraw : auth.dropPrefix? bearer with
      | none =>
          rw [apiCaller, hauth]
          change Fronts env site _ (adapt _ (orErr _ (auth.dropPrefix? bearer) >>= _) >>= _)
          rw [hraw]
          exact fronts_of_throw
      | some raw =>
          have hlook := looksUp_apiCaller env site hauth hraw
          have hadapt : LooksUp env site.toApp (.verifyApiToken raw) ApiCaller.user
              (adapt ApiError.intoResponse (apiCaller env site visit.headers)) :=
            ⟨hlook.ends.adapt, fun hok => hlook.found (adapt_ok_iff.mp hok)⟩
          exact hadapt.fronts ⟨trivial, auth, hauth, hraw⟩ (fun _ _ hfor => hfor.carries visit) h

theorem calls_loginGet (headers : HeaderMap) :
    CallsAtMost env site.toApp (fun req => ∃ raw, cookieValue headers sessionCookie = some raw ∧
      req = .findAuthenticated raw) (loginGet env site headers) := by
  cases hraw : cookieValue headers sessionCookie with
  | none =>
      rw [loginGet, currentUser_anonymous hraw]
      refine .inl (stays_frame.bind (moves_attempt (stays_frame.throw _)) ?_)
      intro user
      cases user <;> exact stays_frame.pure _
  | some raw =>
      refine .inr ⟨.findAuthenticated raw, ⟨raw, rfl, rfl⟩, (looksUp_currentUser hraw).ends.attempt.andThen ?_⟩
      intro user
      cases user <;> exact stays_frame.pure _

/-- The step lemma, one case for each route. -/
theorem fronts_route (env : RequestEnv) (site : Site) (req : HttpRequest) :
    Fronts env site (Carries site req) (route env site req) := by
  cases req with
  | dashboard headers => exact fronts_forUser (.dashboard headers) fun _ => .inl (stays_frame.pure _)
  | loginGet headers =>
      refine ((calls_loginGet headers).adapt.imp ?_).fronts
      rintro _ ⟨raw, hraw, rfl⟩
      exact ⟨trivial, hraw⟩
  | loginPost headers form =>
      cases form with
      | error r => exact fronts_of_throw
      | ok form =>
          have hcalls : CallsAtMost env site.toApp (fun op => NeedsNoUser op ∧ Carries site
              (.loginPost headers (.ok form)) op) (route env site (.loginPost headers (.ok form))) :=
            .inr ⟨.login (loginRequest site headers form), ⟨trivial, headers, form, rfl, rfl⟩,
              (endsAs_loginPost headers form).adapt⟩
          exact hcalls.fronts
  | logoutPost headers =>
      refine ((calls_logoutPost headers).adapt.imp ?_).fronts
      rintro _ ⟨raw, hraw, rfl⟩
      exact ⟨trivial, hraw⟩
  | shareNewGet headers => exact fronts_forUser (.shareNewGet headers) fun _ => .inl (stays_frame.pure _)
  | shareNewPost headers multipart =>
      exact fronts_forUser (.shareNewPost headers multipart) fun user => calls_extracting fun m =>
        (shareNewPost_submits env site user headers m).calls fun _ => request_doneFor
  | sharesListGet headers =>
      apply fronts_forUser (.sharesListGet headers)
      intro user
      have hfor : DoneFor user (.listRecentShares 100) := trivial
      exact (calls_orInternal hfor rfl fun _ => stays_frame.pure _).adapt
  | shareRevoke headers id =>
      exact fronts_forUser (.shareRevoke headers id) fun user => calls_extracting fun id => calls_revocation
        (fun target => .revokeShare target user.id (clientIp headers) (userAgent headers))
        (fun _ => rfl) fun _ => rfl
  | auditGet headers filter =>
      refine fronts_forUser (.auditGet headers filter) fun user => calls_extracting fun filter => ?_
      have hfor : DoneFor user (.listAuditEvents (filterOf filter) 500) := trivial
      exact calls_orInternal hfor rfl fun _ => stays_frame.bind (stays_frame.orPanic _) fun _ => stays_frame.pure _
  | auditCsv headers filter =>
      refine fronts_forUser (.auditCsv headers filter) fun user => calls_extracting fun filter => ?_
      have hfor : DoneFor user (.listAuditEvents (filterOf filter) 100000) := trivial
      exact calls_orInternal hfor rfl fun _ => stays_frame.pure _
  | tokensGet headers =>
      apply fronts_forUser (.tokensGet headers)
      intro user
      have hfor : DoneFor user (.listApiTokens user.id) := rfl
      exact (calls_orInternal hfor rfl fun _ => stays_frame.pure _).adapt
  | tokensPost headers form =>
      exact fronts_forUser (.tokensPost headers form) fun user => calls_extracting fun form =>
        calls_tokensPost user headers form
  | tokenRevoke headers id =>
      exact fronts_forUser (.tokenRevoke headers id) fun user => calls_extracting fun id => calls_revocation
        (fun target => .revokeApiToken target user.id (clientIp headers) (userAgent headers))
        (fun _ => rfl) fun _ => rfl
  | apiSharesPost headers multipart =>
      apply fronts_forCaller (.apiSharesPost headers multipart)
      intro caller
      cases multipart with
      | error r => exact .inl (stays_frame.throw _)
      | ok m => exact ((apiSharesPost_submits env site caller headers m).calls fun _ => request_doneFor).adapt
  | redeemGet token =>
      exact (calls_extracting (P := fun req => NeedsNoUser req ∧ Carries site (.redeemGet token) req)
        fun _ => .inl (stays_frame.pure _)).fronts
  | redeemPost token headers form =>
      cases token with
      | error r => exact fronts_of_throw
      | ok token =>
          cases form with
          | error r => exact fronts_of_throw
          | ok form =>
              refine ((calls_redeemPost token headers form).adapt.imp ?_).fronts
              rintro _ rfl
              exact ⟨trivial, token, headers, form, rfl, rfl⟩
  | health => exact fun w => ⟨[], List.forall_mem_nil _, .nil w, rfl⟩

theorem respond_state (env : RequestEnv) (site : Site) (req : HttpRequest) (w : World) :
    (respond env site req w).2 = (route env site req w).2 := by rw [respond_eq]

/-- What a visit does to the world: a vouched run of the service, on the host of the visit
and with what it carries. -/
structure Serves (site : Site) (w : World) (visit : RequestEnv × HttpRequest) (front : List (RequestEnv × Request)) :
    Prop where
  carried : ∀ x ∈ front, x.1 = visit.1 ∧ Carries site visit.2 x.2
  vouched : Vouched site.toApp w front
  ends : (respond visit.1 site visit.2 w).2 = serve site.toApp w front

/-- A run of the service that does what the visits do, one visit after the other. -/
inductive Traces (site : Site) : World → List (RequestEnv × HttpRequest) → List (RequestEnv × Request) → Prop
  | nil (w : World) : Traces site w [] []
  | cons {w : World} {visit : RequestEnv × HttpRequest} {visits : List (RequestEnv × HttpRequest)}
      {front trace : List (RequestEnv × Request)} (hvisit : Serves site w visit front)
      (hrest : Traces site (respond visit.1 site visit.2 w).2 visits trace) :
      Traces site w (visit :: visits) (front ++ trace)

theorem exists_trace (site : Site) (w : World) (visits : List (RequestEnv × HttpRequest)) :
    ∃ trace, Traces site w visits trace := by
  induction visits generalizing w with
  | nil => exact ⟨[], .nil w⟩
  | cons v visits ih =>
      obtain ⟨front, hown, hfront, hstate⟩ := fronts_route v.1 site v.2 w
      obtain ⟨trace, htrace⟩ := ih (respond v.1 site v.2 w).2
      exact ⟨front ++ trace, .cons ⟨hown, hfront, (respond_state ..).trans hstate⟩ htrace⟩

section
variable {w : World} {visits : List (RequestEnv × HttpRequest)} {trace : List (RequestEnv × Request)}

theorem Traces.carried (h : Traces site w visits trace) :
    ∀ x ∈ trace, ∃ v ∈ visits, x.1 = v.1 ∧ Carries site v.2 x.2 := by
  induction h with
  | nil w => exact List.forall_mem_nil _
  | cons hvisit hrest ih =>
      intro x hx
      rcases List.mem_append.mp hx with hx | hx
      · exact ⟨_, List.mem_cons_self, hvisit.carried x hx⟩
      · obtain ⟨v, hv, hof⟩ := ih x hx
        exact ⟨v, List.mem_cons_of_mem _ hv, hof⟩

theorem Traces.vouched (h : Traces site w visits trace) : Vouched site.toApp w trace := by
  induction h with
  | nil w => exact .nil w
  | cons hvisit hrest ih => exact hvisit.vouched.append (hvisit.ends ▸ ih)

theorem Traces.ends (h : Traces site w visits trace) : respondAll site w visits = serve site.toApp w trace := by
  induction h with
  | nil w => rfl
  | cons hvisit hrest ih => rw [respondAll, ih, hvisit.ends, serve_append]

end

/-- The run lemma: a run over HTTP is a run of the service on the same hosts and with the
credentials that the requests carry, in which every operation for a user follows the
lookup that found this user. -/
theorem respondAll_vouched (site : Site) (w : World) (visits : List (RequestEnv × HttpRequest)) :
    ∃ trace, (∀ x ∈ trace, ∃ v ∈ visits, x.1 = v.1 ∧ Carries site v.2 x.2) ∧ Vouched site.toApp w trace ∧
      respondAll site w visits = serve site.toApp w trace := by
  obtain ⟨trace, htrace⟩ := exists_trace site w visits
  exact ⟨trace, htrace.carried, htrace.vouched, htrace.ends⟩

end
end FipsDropbox.Web
