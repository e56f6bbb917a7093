import FipsDropbox.Service.Provenance
import FipsDropbox.Service.Refinement
import FipsDropbox.Web.Calls
import FipsDropbox.Web.Download
import FipsDropbox.Web.SmsNotice
import FipsDropbox.Web.Strangers

/-!
# Who is behind an operation

On a server that starts without credentials nothing is done for a user who has not signed
in before, with the password of the account. So every file that the server hands out goes
back to an upload, and the upload to a sign-in.
-/
namespace FipsDropbox.Web
open Utf8 Exec Crypto Storage Service

/-- What a lookup is given answers to what was drawn for a session of a sign-in, and this
has not expired, or for a token whose minting followed a lookup that found the user. -/
inductive Earned (app : App) (w : World) : List (RequestEnv × Request) → RequestEnv × Request → Uuid → Prop
  | session {before after : List (RequestEnv × Request)} {env env' : RequestEnv} {q : LoginRequest} {user : User}
      {drawn : Octets 32} {expiresAt : OffsetDateTime} {raw : Text}
      (password : Authenticates env.toEnv app.bcrypt (serve app w before).store q.email q.password user)
      (draw : env.random .sessionToken 32 = some drawn)
      (answers : secretHash app raw = secretHash app (urlSafeBase64 drawn.val))
      (expiry : (env.now .sessionCreated).time.add (Sessions.defaultTtlHours * Sessions.nanosPerHour) =
        some expiresAt)
      (timely : dtToMillis (env'.now .sessionLookup).time < dtToMillis expiresAt) :
      Earned app w (before ++ (env, .login q) :: after) (env', .findAuthenticated raw) user.id
  | token {before after : List (RequestEnv × Request)} {env env' : RequestEnv} {look : Request} {userId : Uuid}
      {drawn : Octets 32} {label ip ua raw : Text} (minted : Earned app w before (env, look) userId)
      (draw : env.random .apiToken 32 = some drawn)
      (answers : secretHash app raw = secretHash app (tokenPrefix ++ urlSafeBase64 drawn.val)) :
      Earned app w (before ++ (env, look) :: (env, .mintApiToken userId label ip ua) :: after)
        (env', .verifyApiToken raw) userId

/-- The user has signed in, with the password of the account. -/
def SignedIn (app : App) (w : World) (past : List (RequestEnv × Request)) (userId : Uuid) : Prop :=
  ∃ before env q after user, past = before ++ (env, .login q) :: after ∧
    Authenticates env.toEnv app.bcrypt (serve app w before).store q.email q.password user ∧ user.id = userId

/-- The operation needs no user, or is for one whom the lookup right before it found. -/
def Backed (app : App) (w : World) (past : List (RequestEnv × Request)) (op : RequestEnv × Request) : Prop :=
  NeedsNoUser op.2 ∨ ∃ before look user, past = before ++ [(op.1, look)] ∧ DoneFor user op.2 ∧
    Earned app w before (op.1, look) user.id

section
variable {app : App} {w : World} {past before after trace : List (RequestEnv × Request)}
  {op look : RequestEnv × Request} {userId : Uuid}

theorem SignedIn.later (h : SignedIn app w past userId) (after : List (RequestEnv × Request)) :
    SignedIn app w (past ++ after) userId := by
  obtain ⟨before, env, q, between, user, rfl, hauth, hid⟩ := h
  exact ⟨before, env, q, between ++ after, user, by simp, hauth, hid⟩

/-- At the root of every credential is a sign-in. -/
theorem Earned.signedIn (h : Earned app w past look userId) : SignedIn app w past userId := by
  induction h with
  | session password => exact ⟨_, _, _, _, _, rfl, password, rfl⟩
  | token minted draw answers ih => exact ih.later _

theorem Backed.signedIn (h : Backed app w past op) : NeedsNoUser op.2 ∨ ∃ user, DoneFor user op.2 ∧
    SignedIn app w past user.id := by
  refine h.imp_right ?_
  rintro ⟨before, look, user, rfl, hfor, hearned⟩
  exact ⟨user, hfor, hearned.signedIn.later _⟩

theorem lookup_held {env : RequestEnv} {site : Site} {req : Request} {reply : Reply} {user : User}
    (h : (handle env site.toApp req w).1 = .ok reply) (huser : foundUser reply = some user) :
    (∃ raw expiresAt, req = .findAuthenticated raw ∧
      .session (secretHash site.toApp raw).val user.id.val expiresAt ∈ held w.store ∧
      dtToMillis (env.now .sessionLookup).time < expiresAt) ∨
    ∃ raw, req = .verifyApiToken raw ∧ .apiToken (secretHash site.toApp raw).val user.id.val ∈ held w.store := by
  cases req with
  | findAuthenticated raw =>
      obtain ⟨found, hfound, rfl⟩ := replying_ok h
      obtain ⟨⟨sess, user'⟩, rfl, rfl⟩ := Option.map_eq_some_iff.mp huser
      obtain ⟨q, r, hq, hr, hrow, -⟩ := findAuthenticated_some (Prod.ext hfound rfl)
      obtain ⟨hmem, hlive⟩ := Table.find_some hq
      simp only [Bool.and_eq_true, decide_eq_true_eq] at hlive
      have hid : user'.id.val = q.userId := (rowToUser_ok hrow).1.trans (of_decide_eq_true (Table.find_some hr).2)
      exact .inl ⟨raw, q.expiresAt, rfl, .inl ⟨q, hmem, by rw [hid, hlive.1, secretHash]⟩, hlive.2⟩
  | verifyApiToken raw =>
      obtain ⟨found, hfound, rfl⟩ := replying_ok h
      obtain ⟨⟨token, user'⟩, rfl, rfl⟩ := Option.map_eq_some_iff.mp huser
      obtain ⟨-, q, r, hq, hr, hrow, -⟩ := verifyApiToken_some (Prod.ext hfound rfl)
      have hid : user'.id.val = q.userId := (rowToUser_ok hrow).1.trans (of_decide_eq_true (Table.find_some hr).2)
      obtain ⟨hmem, hlive⟩ := Table.find_some hq
      simp only [Bool.and_eq_true, decide_eq_true_eq] at hlive
      exact .inr ⟨raw, rfl, .inr ⟨q, hmem, by rw [hid, hlive.1, secretHash]⟩⟩
  | login | logout | createShare | redeemShare | listAuditEvents | mintApiToken | listApiTokens | revokeApiToken
  | listRecentShares | revokeShare =>
      obtain ⟨answer, -, hreply⟩ := replying_ok h
      rw [← hreply] at huser
      cases huser

theorem granted_session {hash userId : Bytes} {expiresAt : ℤ} (h : .session hash userId expiresAt ∈ granted app w op) :
    ∃ env q user drawn deadline, op = (env, .login q) ∧
      Authenticates env.toEnv app.bcrypt w.store q.email q.password user ∧
      env.random .sessionToken 32 = some drawn ∧ hash = (secretHash app (urlSafeBase64 drawn.val)).val ∧
      (env.now .sessionCreated).time.add (Sessions.defaultTtlHours * Sessions.nanosPerHour) = some deadline ∧
      user.id.val = userId ∧ dtToMillis deadline = expiresAt := by
  obtain ⟨env, req⟩ := op
  cases req with
  | login q =>
      obtain ⟨user, drawn, deadline, hauth, hdrawn, hexpiry, hsame⟩ := h
      obtain ⟨hhash, huser, hdeadline⟩ := Credential.session.inj hsame
      exact ⟨env, q, user, drawn, deadline, rfl, hauth, hdrawn, hhash, hexpiry, huser.symm, hdeadline.symm⟩
  | mintApiToken byUser label ip ua =>
      obtain ⟨drawn, -, hsame⟩ := h
      cases hsame
  | logout | findAuthenticated | createShare | redeemShare | listAuditEvents | listApiTokens | revokeApiToken
  | verifyApiToken | listRecentShares | revokeShare => exact absurd h (Set.notMem_empty _)

theorem granted_apiToken {hash userId : Bytes} (h : .apiToken hash userId ∈ granted app w op) :
    ∃ env byUser label ip ua drawn, op = (env, .mintApiToken byUser label ip ua) ∧
      env.random .apiToken 32 = some drawn ∧ hash = (secretHash app (tokenPrefix ++ urlSafeBase64 drawn.val)).val ∧
      byUser.val = userId := by
  obtain ⟨env, req⟩ := op
  cases req with
  | login q =>
      obtain ⟨user, drawn, deadline, -, -, -, hsame⟩ := h
      cases hsame
  | mintApiToken byUser label ip ua =>
      obtain ⟨drawn, hdrawn, hsame⟩ := h
      obtain ⟨hhash, huser⟩ := Credential.apiToken.inj hsame
      exact ⟨env, byUser, label, ip, ua, drawn, rfl, hdrawn, hhash, huser.symm⟩
  | logout | findAuthenticated | createShare | redeemShare | listAuditEvents | listApiTokens | revokeApiToken
  | verifyApiToken | listRecentShares | revokeShare => exact absurd h (Set.notMem_empty _)

/-- At every position of a vouched run is an operation without a user, or one for the user
of the lookup before it. -/
theorem Vouched.found (h : Vouched app w (before ++ op :: after)) : NeedsNoUser op.2 ∨
    ∃ before' look reply user, before = before' ++ [(op.1, look)] ∧
      (handle op.1 app look (serve app w before')).1 = .ok reply ∧ foundUser reply = some user ∧
      DoneFor user op.2 := by
  generalize htrace : before ++ op :: after = trace at h
  induction h generalizing before with
  | nil w => exact absurd htrace (List.append_ne_nil_of_right_ne_nil _ (List.cons_ne_nil _ _))
  | @alone w env req rest hreq hrest ih =>
      cases before with
      | nil =>
          obtain ⟨rfl, -⟩ := List.cons.inj htrace
          exact .inl hreq
      | cons x before =>
          obtain ⟨rfl, hrest'⟩ := List.cons.inj htrace
          refine (ih hrest').imp_right ?_
          rintro ⟨before', look, reply, user, rfl, hlook⟩
          exact ⟨(env, req) :: before', look, reply, user, rfl, hlook⟩
  | @lookedUp w env look req reply user rest hlook huser hreq hrest ih =>
      cases before with
      | nil =>
          obtain ⟨rfl, -⟩ := List.cons.inj htrace
          exact .inl (needsNoUser_of_found hlook huser)
      | cons x before =>
          obtain ⟨rfl, hrest'⟩ := List.cons.inj htrace
          cases before with
          | nil =>
              obtain ⟨rfl, -⟩ := List.cons.inj hrest'
              exact .inr ⟨[], look, reply, user, rfl, hlook, huser, hreq⟩
          | cons y before =>
              obtain ⟨rfl, hrest''⟩ := List.cons.inj hrest'
              refine (ih hrest'').imp_right ?_
              rintro ⟨before', look', reply', user', rfl, hlook'⟩
              exact ⟨(env, look) :: (env, req) :: before', look', reply', user', rfl, hlook'⟩

/-- The run lemma, by induction on the position: what a lookup finds was granted earlier,
and a token was granted to whoever was looked up then. -/
theorem Vouched.backed {site : Site} (hempty : held w.store = ∅) (h : Vouched site.toApp w (before ++ op :: after)) :
    Backed site.toApp w before op := by
  induction hlen : before.length using Nat.strong_induction_on generalizing before op after with
  | _ n ih =>
      refine h.found.imp_right ?_
      rintro ⟨past, look, reply, user, rfl, hlook, huser, hfor⟩
      refine ⟨past, look, user, rfl, hfor, ?_⟩
      rcases lookup_held hlook huser with ⟨raw, expiresAt, rfl, hheld, htime⟩ | ⟨raw, rfl, hheld⟩
      · rcases serve_granted hheld with hheld | ⟨past', grant, rest, rfl, hgrant⟩
        · exact absurd (hempty ▸ hheld) (Set.notMem_empty _)
        · obtain ⟨env, q, account, drawn, deadline, rfl, hauth, hdrawn, hhash, hexpiry, hid, rfl⟩ :=
            granted_session hgrant
          rw [← Subtype.ext hid]
          exact .session hauth hdrawn (Subtype.ext hhash) hexpiry htime
      · rcases serve_granted hheld with hheld | ⟨past', mint, rest, rfl, hgrant⟩
        · exact absurd (hempty ▸ hheld) (Set.notMem_empty _)
        · obtain ⟨env, byUser, label, ip, ua, drawn, rfl, hdrawn, hhash, hid⟩ := granted_apiToken hgrant
          have hminted : Backed site.toApp w past' (env, .mintApiToken byUser label ip ua) := by
            rw [List.append_assoc, List.append_assoc] at h
            refine ih past'.length ?_ h rfl
            simp only [List.length_append, List.length_cons] at hlen
            omega
          rcases hminted with hopen | ⟨before', look', user', rfl, hfor', hearned⟩
          · exact absurd hopen not_false
          · obtain rfl : byUser = user'.id := hfor'
            rw [← Subtype.ext hid, List.append_assoc]
            exact .token hearned hdrawn (Subtype.ext hhash)

/-- Over HTTP nothing is done for a user on another's word: on a server that starts without
credentials, each operation for a user follows a lookup that found this user, by a session
or a token that goes back to a sign-in. -/
theorem respondAll_backed (site : Site) (hempty : held w.store = ∅) (visits : List (RequestEnv × HttpRequest)) :
    (∃ trace, Traces site w visits trace) ∧ ∀ trace, Traces site w visits trace →
      ∀ before op after, trace = before ++ op :: after → Backed site.toApp w before op ∧
        (NeedsNoUser op.2 ∨ ∃ user, DoneFor user op.2 ∧ SignedIn site.toApp w before user.id) := by
  refine ⟨exists_trace site w visits, ?_⟩
  rintro _ htrace before op after rfl
  have hbacked : Backed site.toApp w before op := htrace.vouched.backed hempty
  exact ⟨hbacked, hbacked.signedIn⟩

/-- What is refused is refused without a file. -/
theorem ends_redeemPost {env : RequestEnv} {site : Site} {token : Extracted Text} {headers : HeaderMap}
    {form : Extracted RedeemForm} : Ends (fun _ => True) (fun r => ∀ content, r.body ≠ .octets content)
      (route env site (.redeemPost token headers form)) := by
  have hrejection : ∀ (refusal : Rejection) content, refusal.intoResponse.body ≠ .octets content := by
    intro refusal content h
    cases h
  refine ends_bind (ends_lift (fun _ _ => trivial) hrejection) fun t _ => ?_
  refine ends_bind (ends_lift (fun _ _ => trivial) hrejection) fun f _ => ends_adapt (ends_any _) ?_
  intro status _ content h
  cases h

theorem respond_octets {env : RequestEnv} {site : Site} {token : Extracted Text} {headers : HeaderMap}
    {form : Extracted RedeemForm} {r : Response} {content : Bytes}
    (hr : (respond env site (.redeemPost token headers form) w).1 = .ok r) (hbody : r.body = .octets content) :
    ∃ t f resp, token = .ok t ∧ form = .ok f ∧
      (redeemShare env site.toApp (redeemRequest t headers f) w).1 = .ok resp ∧ r = deliver resp := by
  obtain ⟨result, w1, hattempt, hresult⟩ := bind_ok_iff.mp
    (Prod.ext hr rfl : respond env site (.redeemPost token headers form) w = (.ok r, _))
  rcases attempt_ok_iff.mp hattempt with ⟨r', rfl, hroute⟩ | ⟨r', rfl, hroute⟩
  · cases hresult
    obtain ⟨t, w2, htoken, hextracted⟩ := bind_ok_iff.mp hroute
    obtain ⟨f, w3, hform, hpost⟩ := bind_ok_iff.mp hextracted
    obtain ⟨rfl, rfl⟩ := lift_ok_iff.mp htoken
    obtain ⟨rfl, rfl⟩ := lift_ok_iff.mp hform
    obtain ⟨redeemed, w4, hredeem, hanswer⟩ := bind_ok_iff.mp (adapt_ok_iff.mp hpost)
    rcases attempt_ok_iff.mp hredeem with ⟨resp, rfl, hresp⟩ | ⟨e, rfl, -⟩
    · cases hanswer
      exact ⟨t, f, resp, rfl, rfl, congrArg Prod.fst hresp, rfl⟩
    · cases e <;> cases hanswer <;> cases hbody
  · cases hresult
    exact absurd hbody ((ends_redeemPost w).2 r (congrArg Prod.fst hroute) content)

/-- The upload behind a download, by a user who had signed in. -/
structure PutIn (site : Site) (w : World) (trace : List (RequestEnv × Request)) (env : RequestEnv) (q : RedeemRequest)
    (resp : RedeemResponse) (past : List (RequestEnv × Request)) (o : Origin) (user : User) : Prop where
  goesBack : GoesBackTo site.toApp (served site.toApp w trace) env q resp o
  upload : ∃ look after, trace = past ++ (o.env, look) :: (o.env, .createShare o.req) :: after ∧
    Earned site.toApp w past (o.env, look) user.id
  sender : o.req.createdBy = user.id
  attested : o.req.cuiAttested = true
  signedIn : SignedIn site.toApp w past user.id

theorem serves_loginPost (env : RequestEnv) (site : Site) (headers : HeaderMap) (form : LoginForm) (w : World) :
    Serves site w (env, .loginPost headers (.ok form)) [(env, .login (loginRequest site headers form))] where
  carried x hx := by
    obtain rfl := List.mem_singleton.mp hx
    exact ⟨rfl, headers, form, rfl, rfl⟩
  vouched := .alone trivial (.nil _)
  ends := (respond_state ..).trans ((endsAs_loginPost headers form).adapt w)

theorem serves_shareNewPost {env : RequestEnv} {site : Site} {headers : HeaderMap} {raw : Text} {w' : World}
    {session : Session} {user : User} {m : Multipart} {req : NewShareRequest}
    (hraw : cookieValue headers sessionCookie = some raw)
    (hfound : findAuthenticated env site.toApp raw w = (.ok (some (session, user)), w'))
    (hasked : formRequest site.caseTables user headers m = some req) :
    Serves site w (env, .shareNewPost headers (.ok m)) [(env, .findAuthenticated raw), (env, .createShare req)] := by
  have hlook : (handle env site.toApp (.findAuthenticated raw) w).1 = .ok (.authenticated (some (session, user))) := by
    rw [handle, replying, bind_ok hfound]
    rfl
  have hresolve : resolveUser env site headers w = (.ok (some user), w') := by
    rw [resolveUser, hraw]
    exact bind_ok_iff.mpr ⟨some (session, user), w', adapt_ok_iff.mpr hfound, rfl⟩
  have hcurrent : currentUser env site headers w = (.ok user, w') := by
    rw [currentUser, bind_ok (attempt_ok_iff.mpr (.inl ⟨some user, rfl, hresolve⟩))]
    rfl
  have hsubmits : Submits env site (shareNewPost env site user headers m) (some req) :=
    hasked ▸ shareNewPost_submits env site user headers m
  refine ⟨?_, .lookedUp hlook rfl (request_doneFor hasked) (.nil _), ?_⟩
  · intro x hx
    rcases List.mem_pair.mp hx with rfl | rfl
    · exact ⟨rfl, hraw⟩
    · exact ⟨rfl, trivial⟩
  · rw [respond_state]
    exact (looksUp_currentUser hraw).serve hcurrent hsubmits.ends.adapt

end

theorem careful_other {app : App} {w : World} {op : RequestEnv × Request} {ops : List (RequestEnv × Request)}
    (hop : ∀ req, op.2 ≠ .createShare req) (h : Careful app (handle op.1 app op.2 w).2 ops) :
    Careful app w (op :: ops) := ⟨fun req hreq => absurd hreq (hop req), h⟩

def enrolledPassword : Text := "correct horse battery".toList

def enrolledHash : Bytes := (Cng.pbkdf2HmacSha256 sampleApp.bcrypt (encode enrolledPassword) [] 600000 32).val

def enrolledUser : UserRow := { sampleUser with passwordHash := enrolledHash }

def enrolledAccount : User where
  id := sampleUpload.createdBy
  email := "sender@example.com".toList
  role := .admin
  createdAt := millisToDt 0
  disabledAt := none
  totpSecretWrapped := none
  passwordHash := enrolledHash
  passwordSalt := []
  passwordIters := UInt64.ofInt 600000

def enrolledWorld : World :=
  { freshWorld with store := { Store.fresh with db := { Db.empty with users := ⟨[enrolledUser], by simp⟩ } } }

theorem enrolled_authenticates : Authenticates quietEnv.toEnv sampleApp.bcrypt enrolledWorld.store
    "sender@example.com".toList enrolledPassword enrolledAccount where
  calls := ⟨rfl, rfl⟩
  row := ⟨enrolledUser, rfl, rfl⟩
  enabled := rfl
  password := by
    have hiters : enrolledAccount.passwordIters.toNat = 600000 := by decide
    have hhash : enrolledAccount.passwordHash = enrolledHash := rfl
    rw [hiters, hhash, enrolledHash]
    rfl

def enrolledForm : LoginForm := ⟨"sender@example.com".toList, enrolledPassword⟩

def enrolledLogin : LoginRequest := loginRequest sampleSite [] enrolledForm

/-- The session that an all-zero source of random bytes opens. -/
def enrolledCookie : Text := List.replicate 43 'A'

def enrolledHeaders : HeaderMap := [("cookie".toList, encode (sessionCookie ++ '=' :: enrolledCookie))]

def enrolledVisits : List (RequestEnv × HttpRequest) :=
  [(quietEnv, .loginPost [] (.ok enrolledForm)), (quietEnv, .shareNewPost enrolledHeaders (.ok phoneBody))]

def enrolledTrace : List (RequestEnv × Request) :=
  [(quietEnv, .login enrolledLogin), (quietEnv, .findAuthenticated enrolledCookie),
    (quietEnv, .createShare phoneRequest)]

def enrolledSession : World :=
  { enrolledWorld with
    store := (Sessions.create quietEnv.toEnv sampleApp.bcrypt enrolledAccount.id (clientIp []) (userAgent [])
      Sessions.defaultTtlHours enrolledWorld.store).2 }

def signedInWorld : World :=
  (writeEvent quietEnv sampleApp "auth.login" .success (some enrolledAccount.id) (clientIp []) (userAgent [])
    [uuid "user_id" enrolledAccount.id] [] enrolledSession).2

theorem login_enrolled : ∃ issued, login quietEnv sampleApp enrolledLogin enrolledWorld = (.ok issued, signedInWorld) := by
  have hopens : (Sessions.create quietEnv.toEnv sampleApp.bcrypt enrolledAccount.id (clientIp []) (userAgent [])
      Sessions.defaultTtlHours enrolledWorld.store).1.value.isSome = true := by decide +kernel
  obtain ⟨issued, hissued⟩ := Option.isSome_iff_exists.mp hopens
  have hwritten : (writeEvent quietEnv sampleApp "auth.login" .success (some enrolledAccount.id) (clientIp [])
      (userAgent []) [uuid "user_id" enrolledAccount.id] [] enrolledSession).1.value = some () := by decide +kernel
  have hemail : enrolledLogin.email = "sender@example.com".toList := by decide
  refine ⟨issued, login_run_iff.mpr ⟨rfl, enrolledAccount, enrolledSession.store, ?_, run_of_value hissued, ?_⟩⟩
  · rw [hemail]
    exact enrolled_authenticates
  · exact locked_ok_iff.mpr ⟨rfl, bind_ok_iff.mpr ⟨(), signedInWorld, run_of_value hwritten, rfl⟩⟩

def seenWorld : World := (findAuthenticated quietEnv sampleApp enrolledCookie signedInWorld).2

theorem findAuthenticated_enrolled : ∃ session user, user.id = sampleUpload.createdBy ∧
    findAuthenticated quietEnv sampleApp enrolledCookie signedInWorld = (.ok (some (session, user)), seenWorld) := by
  have hfound : ((findAuthenticated quietEnv sampleApp enrolledCookie signedInWorld).1.value.bind id).map
      (fun found => found.2.id) = some sampleUpload.createdBy := by decide +kernel
  obtain ⟨⟨session, user⟩, hvalue, hid⟩ := Option.map_eq_some_iff.mp hfound
  obtain ⟨found, hfound, rfl⟩ := Option.bind_eq_some_iff.mp hvalue
  exact ⟨session, user, hid, run_of_value hfound⟩

def enrolledCreated : ShareCreated := { sampleCreated with vendorPhone := some "+15550100".toList }

def uploadedWorld : World := (createShare quietEnv sampleApp phoneRequest seenWorld).2

theorem createShare_enrolled :
    createShare quietEnv sampleApp phoneRequest seenWorld = (.ok enrolledCreated, uploadedWorld) := by
  have h : (createShare quietEnv sampleApp phoneRequest seenWorld).1.value = some enrolledCreated := by
    decide +kernel
  exact run_of_value h

theorem handle_login_enrolled :
    (handle quietEnv sampleSite.toApp (.login enrolledLogin) enrolledWorld).2 = signedInWorld := by
  obtain ⟨issued, hlogin⟩ := login_enrolled
  rw [handle, replying_state]
  exact congrArg Prod.snd hlogin

theorem handle_found_enrolled :
    (handle quietEnv sampleSite.toApp (.findAuthenticated enrolledCookie) signedInWorld).2 = seenWorld := by
  rw [handle, replying_state]
  rfl

theorem serve_enrolled : serve sampleSite.toApp enrolledWorld enrolledTrace = uploadedWorld := by
  rw [enrolledTrace, serve, serve, serve, serve, handle_login_enrolled, handle_found_enrolled, handle, replying_state]
  rfl

theorem enrolledTrace_traces : Traces sampleSite enrolledWorld enrolledVisits enrolledTrace := by
  obtain ⟨session, user, hid, hfound⟩ := findAuthenticated_enrolled
  have hcookie : cookieValue enrolledHeaders sessionCookie = some enrolledCookie := by decide
  have hasked : formRequest sampleSite.caseTables user enrolledHeaders phoneBody = some phoneRequest := by
    have hform : formRequest sampleSite.caseTables user enrolledHeaders phoneBody =
        some { phoneRequest with createdBy := user.id } := rfl
    rw [hform, hid]
    rfl
  have hlogin := serves_loginPost quietEnv sampleSite [] enrolledForm enrolledWorld
  have hupload : Serves sampleSite (respond quietEnv sampleSite (.loginPost [] (.ok enrolledForm)) enrolledWorld).2
      (quietEnv, .shareNewPost enrolledHeaders (.ok phoneBody))
      [(quietEnv, .findAuthenticated enrolledCookie), (quietEnv, .createShare phoneRequest)] := by
    rw [hlogin.ends, serve, serve, ← enrolledLogin, handle_login_enrolled]
    exact serves_shareNewPost hcookie hfound hasked
  exact .cons hlogin (.cons hupload (.nil _))

theorem enrolled_empty : held enrolledWorld.store = ∅ := by
  apply Set.eq_empty_of_forall_notMem
  rintro c (⟨r, hr, -⟩ | ⟨r, hr, -⟩)
  · cases hr
  · cases hr

theorem respondAll_backed_sample : Backed sampleApp enrolledWorld
    [(quietEnv, .login enrolledLogin), (quietEnv, .findAuthenticated enrolledCookie)]
    (quietEnv, .createShare phoneRequest) ∧ ∃ user, DoneFor user (.createShare phoneRequest) ∧
      SignedIn sampleApp enrolledWorld
        [(quietEnv, .login enrolledLogin), (quietEnv, .findAuthenticated enrolledCookie)] user.id := by
  obtain ⟨hbacked, hopen | hsigned⟩ := (respondAll_backed sampleSite enrolled_empty enrolledVisits).2 enrolledTrace
    enrolledTrace_traces [(quietEnv, .login enrolledLogin), (quietEnv, .findAuthenticated enrolledCookie)]
    (quietEnv, .createShare phoneRequest) [] rfl
  · exact absurd hopen not_false
  · exact ⟨hbacked, hsigned⟩

theorem enrolledTrace_careful : Careful sampleSite.toApp enrolledWorld enrolledTrace := by
  have hupload : CarefulUpload seenWorld (quietEnv, .createShare phoneRequest) := by
    intro req h
    cases h
    exact ⟨by decide, by decide +kernel⟩
  have hlookup : Careful sampleSite.toApp signedInWorld
      [(quietEnv, .findAuthenticated enrolledCookie), (quietEnv, .createShare phoneRequest)] := by
    refine careful_other (fun _ => Request.noConfusion) ?_
    rw [handle_found_enrolled]
    exact ⟨hupload, trivial⟩
  refine careful_other (fun _ => Request.noConfusion) ?_
  rw [handle_login_enrolled]
  exact hlookup

end FipsDropbox.Web
