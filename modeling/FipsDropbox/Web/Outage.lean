import FipsDropbox.Web.Calls

/-!
# After a panic under the store mutex

A panic leaves the mutex poisoned and nothing clears it. From then on what a request is
answered depends on the request alone, and nothing changes any more.
-/
namespace FipsDropbox.Web
open Utf8 Exec Crypto Storage Service

/-- The answer to a caller of the API who has to be looked up. -/
def callerOutage (headers : HeaderMap) : ApiError :=
  match headers.getStr "authorization" with
  | none => ⟨.unauthorized, "missing Authorization header"⟩
  | some auth =>
      match auth.dropPrefix? bearer with
      | none => ⟨.unauthorized, "Authorization must be a Bearer token"⟩
      | some _ => ⟨.internalServerError, "internal error"⟩

def outageAnswer : HttpRequest → Response
  | .dashboard _ | .shareNewGet _ | .shareNewPost .. | .sharesListGet _ | .shareRevoke .. | .auditGet ..
  | .auditCsv .. | .tokensGet _ | .tokensPost .. | .tokenRevoke .. => authRedirect
  | .loginGet _ => .html (.login none)
  | .loginPost _ (.ok _) | .redeemPost (.ok _) _ (.ok _) => .ofStatus .internalServerError
  | .loginPost _ (.error r) | .redeemGet (.error r) | .redeemPost (.error r) .. | .redeemPost (.ok _) _ (.error r) =>
      r.intoResponse
  | .logoutPost _ => (Response.redirect "/login").withHeader "set-cookie" (encode clearSessionCookie)
  | .apiSharesPost headers _ => (callerOutage headers).intoResponse
  | .redeemGet (.ok token) => .html (.redeemPrompt token none)
  | .health => ⟨.ok, [], .plain "ok".toList⟩

theorem attempt_outage {ε α : Type} {m : Exec World ServiceError α} {w : World}
    (hm : m w = (.err (.internal .mutexPoisoned), w)) :
    (attempt m : Exec World ε (Except ServiceError α)) w = (.ok (.error (.internal .mutexPoisoned)), w) :=
  attempt_ok_iff.mpr (.inr ⟨_, rfl, hm⟩)

section
variable {env : RequestEnv} {site : Site} {w : World} (hw : w.storePoisoned = true)
include hw

theorem currentUser_outage (headers : HeaderMap) : currentUser env site headers w = (.err authRedirect, w) := by
  cases hraw : cookieValue headers sessionCookie with
  | none =>
      rw [currentUser_anonymous hraw]
      rfl
  | some raw =>
      have hfind : findAuthenticated env site.toApp raw w = (.err (.internal .mutexPoisoned), w) :=
        withStore_poisoned _ hw
      have hresolve : resolveUser env site headers w = (.err .internalServerError, w) := by
        rw [resolveUser, hraw]
        exact bind_err (adapt_err_iff.mpr ⟨_, hfind, rfl⟩) _
      have hattempt : (attempt (resolveUser env site headers) : Exec World Response _) w =
          (.ok (.error .internalServerError), w) := attempt_ok_iff.mpr (.inr ⟨_, rfl, hresolve⟩)
      rw [currentUser, bind_ok hattempt]
      rfl

theorem forUser_outage (headers : HeaderMap) (handler : User → Exec World Response Response) :
    forUser env site headers handler w = (.err authRedirect, w) := bind_err (currentUser_outage hw headers) _

theorem apiCaller_outage (headers : HeaderMap) : apiCaller env site headers w = (.err (callerOutage headers), w) := by
  cases hauth : headers.getStr "authorization" with
  | none =>
      rw [apiCaller, callerOutage, hauth]
      rfl
  | some auth =>
      rw [apiCaller, callerOutage, hauth]
      change (orErr _ (auth.dropPrefix? bearer) >>= _) w = (.err (match auth.dropPrefix? bearer with
        | none => _
        | some _ => _), w)
      cases hraw : auth.dropPrefix? bearer with
      | none => rfl
      | some raw =>
          have hverify : verifyApiToken env site.toApp raw w = (.err (.internal .mutexPoisoned), w) :=
            withStore_poisoned _ hw
          change (attempt (verifyApiToken env site.toApp raw) >>= _) w = _
          rw [bind_ok (attempt_outage hverify)]
          rfl

theorem logoutPost_outage (headers : HeaderMap) :
    logoutPost env site headers w =
      (.ok ((Response.redirect "/login").withHeader "set-cookie" (encode clearSessionCookie)), w) := by
  have hcookie : headerValue clearSessionCookie = some (encode clearSessionCookie) :=
    headerValue_some (literal_header (s := "fips_session=; Path=/; HttpOnly; SameSite=Lax; Max-Age=0") (by decide))
  have hlogout : ∀ raw, logout env site.toApp raw (clientIp headers) (userAgent headers) w =
      (.err (.internal .mutexPoisoned), w) := fun raw => withStore_poisoned _ hw
  unfold logoutPost
  dsimp only
  split_ifs
  · rw [hcookie]
    rfl
  · rw [bind_ok (attempt_outage (hlogout _)), hcookie]
    rfl

/-- The step lemma: every request is answered from the request alone, and changes nothing. -/
theorem respond_outage (env : RequestEnv) (site : Site) (visit : HttpRequest) :
    respond env site visit w = (.ok (outageAnswer visit), w) := by
  rw [respond_eq]
  cases visit with
  | dashboard headers | shareNewGet headers | shareNewPost headers m | sharesListGet headers | shareRevoke headers id
  | auditGet headers filter | auditCsv headers filter | tokensGet headers | tokensPost headers form
  | tokenRevoke headers id => rw [route, forUser_outage hw]; rfl
  | loginGet headers =>
      have hattempt : (attempt (currentUser env site headers) : Exec World StatusCode _) w =
          (.ok (.error authRedirect), w) := attempt_ok_iff.mpr (.inr ⟨_, rfl, currentUser_outage hw headers⟩)
      rw [route, handled, loginGet, adapt_ok_iff.mpr (bind_ok hattempt _)]
      rfl
  | loginPost headers form =>
      cases form with
      | error r => rfl
      | ok form =>
          have hlogin : login env site.toApp (loginRequest site headers form) w = (.err (.internal .mutexPoisoned), w) :=
            withStore_poisoned _ hw
          have hpost : loginPost env site headers form w = (.err .internalServerError, w) := by
            rw [loginPost, bind_ok (attempt_outage hlogin)]
            rfl
          have hroute : route env site (.loginPost headers (.ok form)) w = (.err (.ofStatus .internalServerError), w) :=
            adapt_err_iff.mpr ⟨_, hpost, rfl⟩
          rw [hroute]
          rfl
  | logoutPost headers =>
      have hroute : route env site (.logoutPost headers) w = (.ok (outageAnswer (.logoutPost headers)), w) :=
        adapt_ok_iff.mpr (logoutPost_outage hw headers)
      rw [hroute]
  | apiSharesPost headers m =>
      have hroute : route env site (.apiSharesPost headers m) w = (.err (callerOutage headers).intoResponse, w) :=
        bind_err (adapt_err_iff.mpr ⟨_, apiCaller_outage hw headers, rfl⟩) _
      rw [hroute]
      rfl
  | redeemGet token => cases token <;> rfl
  | redeemPost token headers form =>
      cases token with
      | error r => rfl
      | ok token =>
          cases form with
          | error r => rfl
          | ok form =>
              have hredeem : redeemShare env site.toApp (redeemRequest token headers form) w =
                  (.err (.internal .mutexPoisoned), w) := withStore_poisoned _ hw
              have hpost : redeemPost env site token headers form w = (.err .internalServerError, w) := by
                rw [redeemPost, bind_ok (attempt_outage hredeem)]
                rfl
              have hroute : route env site (.redeemPost (.ok token) headers (.ok form)) w =
                  (.err (.ofStatus .internalServerError), w) := adapt_err_iff.mpr ⟨_, hpost, rfl⟩
              rw [hroute]
              rfl
  | health => rfl

end

theorem respondAll_append (site : Site) (w : World) (before after : List (RequestEnv × HttpRequest)) :
    respondAll site w (before ++ after) = respondAll site (respondAll site w before) after := by
  induction before generalizing w with
  | nil => rfl
  | cons v before ih => exact ih _

/-- The run lemma: once a panic has poisoned the store mutex no request changes the world
any more, in whatever run, and each is answered as its own text says. -/
theorem outage_forever (site : Site) (w : World) (before after : List (RequestEnv × HttpRequest))
    (h : (respondAll site w before).storePoisoned = true) (env : RequestEnv) (visit : HttpRequest) :
    respondAll site w (before ++ after) = respondAll site w before ∧
      respond env site visit (respondAll site w (before ++ after)) =
        (.ok (outageAnswer visit), respondAll site w before) := by
  have hstill : respondAll site w (before ++ after) = respondAll site w before := by
    rw [respondAll_append]
    generalize respondAll site w before = w' at h
    induction after with
    | nil => rfl
    | cons v after ih =>
        rw [respondAll, respond_outage h]
        exact ih
  refine ⟨hstill, ?_⟩
  rw [hstill, respond_outage h]

/-- A link that cannot be cut where the log wants it cut. -/
def uncuttableVisits : List (RequestEnv × HttpRequest) :=
  [(quietEnv, .redeemPost (.ok uncuttableRequest.token) [] (.ok ⟨[]⟩))]

theorem uncuttableVisits_poison : (respondAll sampleSite freshWorld uncuttableVisits).storePoisoned = true := by
  decide +kernel

theorem outage_forever_sample :
    respondAll sampleSite freshWorld (uncuttableVisits ++ [(quietEnv, mintRequest)]) =
        respondAll sampleSite freshWorld uncuttableVisits ∧
      respond quietEnv sampleSite (.dashboard memberHeaders)
          (respondAll sampleSite freshWorld (uncuttableVisits ++ [(quietEnv, mintRequest)])) =
        (.ok (outageAnswer (.dashboard memberHeaders)), respondAll sampleSite freshWorld uncuttableVisits) :=
  outage_forever sampleSite freshWorld uncuttableVisits [(quietEnv, mintRequest)] uncuttableVisits_poison quietEnv
    (.dashboard memberHeaders)

end FipsDropbox.Web
