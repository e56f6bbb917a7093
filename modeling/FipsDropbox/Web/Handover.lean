import FipsDropbox.Web.AdminOnly
import FipsDropbox.Web.Download
import FipsDropbox.Web.Routes
import FipsDropbox.Web.SmsNotice

/-!
# From the answer of an upload to the download

An upload is answered with an address and a code. Whoever opens the address gets a prompt,
and its form, sent with the code, gets the file of the upload.
-/
namespace FipsDropbox.Web
open Utf8 Exec Crypto Storage Service Markup

/-- What an upload asks `create_share` for on behalf of a user. -/
def asksFor (site : Site) (user : User) : HttpRequest → Option NewShareRequest
  | .shareNewPost headers (.ok m) => formRequest site.caseTables user headers m
  | .apiSharesPost headers (.ok m) => apiRequest site.caseTables user headers m
  | _ => none

def IsUpload : HttpRequest → Prop
  | .shareNewPost .. | .apiSharesPost .. => True
  | _ => False

def textMember (name : String) : Json → Option Text
  | .object ms =>
      match Json.lookup name.toList ms with
      | some (.string t) => some t
      | _ => none
  | _ => none

/-- The page or the document hands out the address of a share and its code. -/
inductive HandsOut (url code : Text) (r : Response) : Prop
  | page (email : Text) (phone : Option Text) (notified sms : Bool)
      (h : r.body = .page (.shareCreated email phone url code notified sms))
  | json (j : Json) (h : r.body = .json j) (hurl : textMember "share_url" j = some url)
      (hcode : textMember "access_code" j = some code)

theorem textMember_object {ms : List (Text × Json)} (hms : (ms.map Prod.fst).Nodup) {name : String} {t : Text}
    (h : text name t ∈ ms) : textMember name (JsonValue.object ms).tree = some t := by
  have hget : (JsonValue.object ms).get name.toList = some (.string t) := JsonValue.get_object hms h
  unfold JsonValue.get at hget
  unfold textMember
  cases hobject : (JsonValue.object ms).tree with
  | object ms' =>
      rw [hobject] at hget
      simp only [hget]
  | _ =>
      rw [hobject] at hget
      cases hget

theorem createdJson_secrets (c : ShareCreated) : textMember "share_url" (createdJson c) = some c.shareUrl ∧
    textMember "access_code" (createdJson c) = some c.accessCode := by
  have hkeys : ∀ a b d e f : Json, (List.map Prod.fst [("share_id".toList, a), ("share_url".toList, b),
      ("access_code".toList, d), ("vendor_email".toList, e), ("vendor_phone".toList, f)]).Nodup := by
    intro a b d e f
    change ["share_id".toList, "share_url".toList, "access_code".toList, "vendor_email".toList,
      "vendor_phone".toList].Nodup
    decide
  exact ⟨textMember_object (hkeys _ _ _ _ _) (.tail _ (.head _)),
    textMember_object (hkeys _ _ _ _ _) (.tail _ (.tail _ (.head _)))⟩

section
variable {env : RequestEnv} {site : Site} {w w' : World} {r : Response} {url code : Text}

theorem apiSharesPost_ok {caller : ApiCaller} {headers : HeaderMap} {m : Multipart}
    (h : apiSharesPost env site caller headers m w = (.ok r, w')) :
    ∃ req created, apiRequest site.caseTables caller.user headers m = some req ∧
      createShare env site.toApp req w = (.ok created, w') ∧ r.body = .json (createdJson created) := by
  obtain ⟨draft, w1, hread, k⟩ := bind_ok_iff.mp h
  obtain ⟨hdraft, rfl⟩ := lift_ok_iff.mp hread
  obtain ⟨req, w2, hcomplete, k⟩ := bind_ok_iff.mp k
  obtain ⟨hreq, rfl⟩ := lift_ok_iff.mp hcomplete
  obtain ⟨created, w3, hcreate, k⟩ := bind_ok_iff.mp k
  cases k
  refine ⟨req, created, ?_, adapt_ok_iff.mp hcreate, rfl⟩
  rw [apiRequest, requestOf, hdraft]
  exact congrArg Except.toOption hreq

theorem shareNewPost_html {user : User} {headers : HeaderMap} {m : Multipart}
    (h : shareNewPost env site user headers m w = (.ok r, w')) : ∃ p, r = .html p := by
  have hends : Ends (fun r => ∃ p, r = Response.html p) (fun _ => True) (shareNewPost env site user headers m) := by
    refine ends_bind (ends_any _) fun draft _ => ?_
    split
    · rename_i missing _
      cases missing with
      | filename => exact ends_pure ⟨_, rfl⟩
      | fileBytes => exact ends_throw trivial
      | vendorEmail => exact ends_throw trivial
      | vendorDisplayName => exact ends_throw trivial
      | attestation => exact ends_pure ⟨_, rfl⟩
    · exact ends_bind (ends_any _) fun created _ => ends_pure ⟨_, rfl⟩
  exact (hends w).1 r (congrArg Prod.fst h)

theorem refuses_upload {visit : HttpRequest} (hvisit : IsUpload visit) :
    Ends (fun _ => True) (fun r => ¬ HandsOut url code r) (route env site visit) := by
  have hnone : ∀ r : Response, (∀ p, r.body ≠ .page p) → (∀ j, r.body ≠ .json j) → ¬ HandsOut url code r := by
    rintro r hpage hjson (⟨_, _, _, _, h⟩ | ⟨j, h, -, -⟩)
    · exact hpage _ h
    · exact hjson _ h
  have hrejection : ∀ e : Rejection, ¬ HandsOut url code e.intoResponse :=
    fun e => hnone _ (fun _ h => by cases h) fun _ h => by cases h
  have hstatus : ∀ status, ¬ HandsOut url code (.ofStatus status) :=
    fun status => hnone _ (fun _ h => by cases h) fun _ h => by cases h
  have hredirect : ¬ HandsOut url code authRedirect := hnone _ (fun _ h => by cases h) fun _ h => by cases h
  cases visit with
  | shareNewPost headers m =>
      have huser : Ends (fun _ => True) (fun r => ¬ HandsOut url code r) (currentUser env site headers) := by
        refine ends_bind (ends_attempt (ends_any _)) fun resolved _ => ?_
        split
        · exact ends_pure trivial
        · exact ends_throw hredirect
      exact ends_bind huser fun user _ => ends_bind (ends_lift (fun _ _ => trivial) hrejection) fun m _ =>
        ends_adapt (ends_any _) fun e _ => hstatus e
  | apiSharesPost headers m =>
      have herror : ∀ e : ApiError, ¬ HandsOut url code e.intoResponse := by
        intro e h
        cases h with
        | page email phone notified sms h => cases h
        | json j h hurl hcode =>
            obtain rfl := Body.json.inj h
            cases hurl
      exact ends_bind (ends_adapt (ends_any _) fun e _ => herror e) fun caller _ =>
        ends_bind (ends_lift (fun _ _ => trivial) hrejection) fun m _ => ends_adapt (ends_any _) fun e _ => herror e
  | _ => cases hvisit

/-- An answer that hands out a share is that of a successful `create_share`. -/
theorem respond_handsOut {visit : HttpRequest} (hvisit : IsUpload visit)
    (h : respond env site visit w = (.ok r, w')) (hands : HandsOut url code r) :
    ∃ user req created w1, asksFor site user visit = some req ∧
      createShare env site.toApp req w1 = (.ok created, w') ∧ created.shareUrl = url ∧ created.accessCode = code := by
  obtain ⟨result, w2, hattempt, kresult⟩ := bind_ok_iff.mp h
  rcases attempt_ok_iff.mp hattempt with ⟨r', rfl, hroute⟩ | ⟨r', rfl, hroute⟩
  · cases kresult
    cases visit with
    | shareNewPost headers m =>
        obtain ⟨user, w1, -, k⟩ := bind_ok_iff.mp hroute
        obtain ⟨m', w3, hm, k⟩ := bind_ok_iff.mp k
        obtain ⟨rfl, rfl⟩ := lift_ok_iff.mp hm
        have hpost := adapt_ok_iff.mp k
        obtain ⟨p, rfl⟩ := shareNewPost_html hpost
        cases hands with
        | page email phone notified sms hbody =>
            obtain rfl := Body.page.inj hbody
            obtain ⟨req, created, hform, hcreate, rfl, rfl, -⟩ := shareNewPost_page hpost
            exact ⟨user, req, created, _, hform, hcreate, rfl, rfl⟩
        | json j hbody hurl hcode => cases hbody
    | apiSharesPost headers m =>
        obtain ⟨caller, w1, -, k⟩ := bind_ok_iff.mp hroute
        obtain ⟨m', w3, hm, k⟩ := bind_ok_iff.mp k
        obtain ⟨rfl, rfl⟩ := lift_ok_iff.mp hm
        obtain ⟨req, created, hform, hcreate, hbody⟩ := apiSharesPost_ok (adapt_ok_iff.mp k)
        cases hands with
        | page email phone notified sms h => cases hbody.symm.trans h
        | json j h hurl hcode =>
            obtain rfl : createdJson created = j := Body.json.inj (hbody.symm.trans h)
            obtain ⟨hsameUrl, hsameCode⟩ := createdJson_secrets created
            exact ⟨caller.user, req, created, _, hform, hcreate, Option.some.inj (hsameUrl.symm.trans hurl),
              Option.some.inj (hsameCode.symm.trans hcode)⟩
    | _ => cases hvisit
  · cases kresult
    exact absurd hands (((refuses_upload hvisit) w).2 r (congrArg Prod.fst hroute))

end

theorem urlSafeBase64_pathPart (raw : Octets 16) : PathPart (urlSafeBase64 raw.val) := by
  refine ⟨?_, urlSafeBase64_isUrlSafe raw.val⟩
  obtain ⟨bs, hbs⟩ := raw
  cases bs with
  | nil => cases hbs
  | cons a bs =>
      cases bs with
      | nil => cases hbs
      | cons b bs =>
          cases bs with
          | nil => cases hbs
          | cons c bs => exact List.cons_ne_nil _ _

theorem accessCodeFrom_visible (i : ℕ) (bs : Bytes) : ∀ c ∈ accessCodeFrom i bs, isWhitespace c = false := by
  have halphabet : ∀ n < alphabet.length, isWhitespace (alphabet.getD n '2') = false := by decide
  induction bs generalizing i with
  | nil => exact fun c hc => absurd hc List.not_mem_nil
  | cons b bs ih =>
      intro c hc
      rw [accessCodeFrom, List.mem_append, List.mem_cons] at hc
      rcases hc with hc | rfl | hc
      · split_ifs at hc
        · rw [List.mem_singleton.mp hc]
          decide
        · cases hc
      · exact halphabet _ (Nat.mod_lt b.toNat (by decide))
      · exact ih _ c hc

section
variable {env : RequestEnv} {app : App} {req : NewShareRequest} {w w' : World} {created : ShareCreated}

theorem createShare_code (h : createShare env app req w = (.ok created, w')) :
    trim created.accessCode = created.accessCode := by
  obtain ⟨raw, -, hcode⟩ := Option.map_eq_some_iff.mp (createShare_drawnCode h)
  rw [← hcode]
  exact trim_of_visible (accessCodeFrom_visible 0 raw.val)

theorem createShare_token (h : createShare env app req w = (.ok created, w')) :
    ∃ raw : Octets 16, created.shareUrl = shareUrl app (urlSafeBase64 raw.val) := by
  obtain ⟨_, _, _, share, secrets, _, _, _, _, _, -, -, -, -, -, hcreate, -, rfl, -⟩ := createShare_steps h
  obtain ⟨urlToken, s1, htoken, k1⟩ := bind_ok_iff.mp hcreate
  obtain ⟨raw, s2, -, hspell⟩ := bind_ok_iff.mp (adapt_ok_iff.mp htoken)
  cases hspell
  obtain ⟨accessCode, s3, -, k2⟩ := bind_ok_iff.mp k1
  obtain ⟨tokenHash, s4, -, k3⟩ := bind_ok_iff.mp k2
  obtain ⟨accessCodeHash, s5, -, k4⟩ := bind_ok_iff.mp k3
  obtain ⟨n, s6, -, k5⟩ := bind_ok_iff.mp k4
  cases k5
  exact ⟨raw, rfl⟩

end

/-- Opening the link of the token answers with a prompt; its only form, sent, answers with
the download if its name can be sent in a header, and with an error if not. -/
def Collects (escape : Char → Text) (env : RequestEnv) (site : Site) (sub : Submission) (w : World) (token : Text)
    (resp : RedeemResponse) : Prop :=
  ∃ opening prompt form sending, dispatch sub ⟨.get, "/r/".toList ++ token⟩ = some opening ∧
    respond env site opening w = (.ok (.html prompt), w) ∧
    targets (run .data (prompt.render escape)).2 = [form] ∧ dispatch sub form = some sending ∧
    ∃ r, (respond env site sending w).1 = .ok r ∧ (Transmittable resp.filename → Delivered r resp) ∧
      (¬ Transmittable resp.filename → r = .ofStatus .internalServerError)

theorem collects_of_redeems {escape : Char → Text} (hescape : Documented escape) {env : RequestEnv} {site : Site}
    {sub : Submission} {form : RedeemForm} (hform : sub.redeemForm = .ok form) {w : World} {token : Text}
    (htoken : PathPart token) {resp : RedeemResponse}
    (h : (redeemShare env site.toApp (redeemRequest token sub.headers form) w).1 = .ok resp) :
    Collects escape env site sub w token resp := by
  obtain ⟨tokens, -, hrun, htargets⟩ := (Page.redeemPrompt token none).run_render hescape
  refine ⟨_, .redeemPrompt token none, ⟨.post, "/r/".toList ++ token⟩, _, dispatch_link sub htoken .get, rfl, ?_,
    dispatch_link sub htoken .post, deliver resp, ?_, delivered_iff.mpr, deliver_refused⟩
  · rw [hrun]
    exact htargets
  · rw [atLink, hform]
    exact respond_redeemPost h

def Response.page? (r : Response) : Option Page :=
  match r.body with
  | .page p => some p
  | _ => none

theorem Response.body_of_page? {r : Response} {p : Page} (h : r.page? = some p) : r.body = .page p := by
  unfold Response.page? at h
  split at h
  · rename_i hbody
    rw [hbody, Option.some.inj h]
  · cases h

def adminUpload : HttpRequest := .shareNewPost memberHeaders (.ok phoneBody)

def adminPage : Page :=
  .shareCreated "vendor@example.com".toList (some "+15550100".toList) (shareUrl sampleApp sampleToken) sampleCode
    false false

theorem adminUpload_page :
    (respond quietEnv sampleSite adminUpload (memberWorld .admin)).1.value.bind Response.page? = some adminPage := by
  decide +kernel

/-- The recipient types the code with a blank before it. -/
def bearerSubmission : Submission where
  headers := []
  loginForm := .error ⟨.badRequest, []⟩
  mintForm := .error ⟨.badRequest, []⟩
  redeemForm := .ok ⟨' ' :: sampleCode⟩
  multipart := .error ⟨.badRequest, []⟩
  unreadable := ⟨.badRequest, []⟩

end FipsDropbox.Web
