import FipsDropbox.Lib.Runs
import FipsDropbox.Service.Unaudited
import FipsDropbox.Web.Router

/-!
# Who administers

The role of a user is stored and read back, and no handler looks at it. So shares, files,
vendors and tokens are for admins exactly as long as no user of another role signs in.
-/
namespace FipsDropbox.Web
open Utf8 Exec Crypto Storage Service Runs

/-- What is administered is as it was, but for when a token was last seen. -/
structure Undisturbed (s t : Store) : Prop where
  shares : t.db.shares = s.db.shares
  prints : t.db.prints = s.db.prints
  vendors : t.db.vendors = s.db.vendors
  tokens : t.db.apiTokens.rows.map ApiTokenRow.lasting = s.db.apiTokens.rows.map ApiTokenRow.lasting

def Page.discloses : Page → Bool
  | .dashboard .. | .audit .. | .shares .. | .tokens .. | .tokenCreated .. | .shareCreated .. => true
  | .login .. | .redeemPrompt .. | .shareNew .. => false

/-- The response is more than a refusal or an empty form. -/
def Response.discloses (r : Response) : Bool :=
  match r.body with
  | .page p => p.discloses
  | .plain _ | .octets _ => true
  | .json _ => r.status = .created
  | .empty | .rejection _ => false

/-- The request changes what is administered, or gets data of it. -/
def Acts (env : RequestEnv) (site : Site) (req : HttpRequest) (w : World) : Prop :=
  ¬ Undisturbed w.store (respond env site req w).2.store ∨
    ∃ r, (respond env site req w).1 = .ok r ∧ r.discloses = true

section
variable (env : RequestEnv) (site : Site) (s : Store)

def sessionAccount (headers : HeaderMap) : Option UserRow := do
  let rawToken ← cookieValue headers sessionCookie
  let r ← liveSession env.toEnv site.bcrypt s rawToken
  s.db.users.find fun u => u.id = r.userId

def tokenAccount (headers : HeaderMap) : Option UserRow := do
  let auth ← headers.getStr "authorization"
  let rawToken ← auth.dropPrefix? bearer
  guard (tokenPrefix.isPrefixOf rawToken)
  let r ← liveToken site.bcrypt s rawToken
  s.db.users.find fun u => u.id = r.userId

/-- The account that a request presents to a route that takes one. -/
def accountOf : HttpRequest → Option UserRow
  | .dashboard headers | .shareNewGet headers | .shareNewPost headers _ | .sharesListGet headers
  | .shareRevoke headers _ | .auditGet headers _ | .auditCsv headers _ | .tokensGet headers
  | .tokensPost headers _ | .tokenRevoke headers _ => sessionAccount env site s headers
  | .apiSharesPost headers _ => tokenAccount site s headers
  | .loginGet _ | .loginPost .. | .logoutPost _ | .redeemGet _ | .redeemPost .. | .health => none

def PresentedBy (role : UserRole) (req : HttpRequest) : Prop :=
  ∃ r, accountOf env site s req = some r ∧ r.disabledAt = none ∧ r.role = role.asStr

end

/-- Redemption takes the secrets of a share, and liveness nothing. -/
def Public : HttpRequest → Prop
  | .redeemGet _ | .redeemPost .. | .health => True
  | _ => False

/-- A request, or anything else that happens to the service. -/
inductive Visit where
  | request (env : RequestEnv) (req : HttpRequest)
  | elsewhere (w : World)

def Visit.run (site : Site) (w : World) : Visit → World
  | .request env req => (respond env site req w).2
  | .elsewhere w' => w'

/-- Only an admin's request acts. -/
def AdminOnly (site : Site) (w : World) : Visit → Prop
  | .request env req => Public req ∨ (Acts env site req w → PresentedBy env site w.store .admin req)
  | .elsewhere _ => True

def NoVendor (site : Site) (w : World) : Visit → Prop
  | .request env req => ¬ PresentedBy env site w.store .vendor req
  | .elsewhere _ => True

theorem undisturbed_frame : Frame Undisturbed where
  refl _ := ⟨rfl, rfl, rfl, rfl⟩
  trans h h' := ⟨h'.shares.trans h.shares, h'.prints.trans h.prints, h'.vendors.trans h.vendors,
    h'.tokens.trans h.tokens⟩

theorem undisturbed_of_seenOnly {s t : Store} (h : SeenOnly s t) : Undisturbed s t :=
  ⟨h.shares, h.prints, h.vendors, h.tokens⟩

section
variable {env : RequestEnv} {site : Site} {w w' : World}

theorem activeUser_some {α : Type} {credential c : α} {userId : Uuid} {user : User}
    (h : activeUser env credential userId w = (.ok (some (c, user)), w')) :
    c = credential ∧ ∃ r, w.store.db.users.find (fun u => u.id = userId.val) = some r ∧ rowToUser r = .ok user ∧
      user.disabledAt.isSome = false := by
  obtain ⟨found, w1, hfound, hk⟩ := bind_ok_iff.mp h
  obtain ⟨s1, hfind, rfl⟩ := onStore_ok_iff.mp hfound
  cases found with
  | none => cases hk
  | some u =>
      obtain ⟨-, ⟨r, hr, hu⟩, -⟩ := queryRow_some_iff.mp hfind
      change (Outcome.ok (if u.disabledAt.isSome then none else some (credential, u)), _) = _ at hk
      cases hd : u.disabledAt.isSome with
      | true =>
          rw [hd] at hk
          cases hk
      | false =>
          rw [hd] at hk
          cases hk
          exact ⟨rfl, r, hr, hu, hd⟩

/-- Who a lookup answers with: the enabled user of the credential that it finds. -/
theorem bearerUser_found {α : Type} {look : Exec Store StorageError (Option α)} {userOf : α → Uuid} {c : α}
    {user : User} (h : bearerUser env look userOf w = (.ok (some (c, user)), w')) :
    ∃ s r, look w.store = (.ok (some c), s) ∧ s.db.users.find (fun u => u.id = (userOf c).val) = some r ∧
      rowToUser r = .ok user ∧ user.disabledAt.isSome = false := by
  obtain ⟨-, hbody⟩ := blocking_ok_iff.mp h
  obtain ⟨found, w1, hfound, hk⟩ := bind_ok_iff.mp hbody
  obtain ⟨s, hlook, rfl⟩ := onStore_ok_iff.mp hfound
  cases found with
  | none => cases hk
  | some credential =>
      obtain ⟨rfl, r, hr, huser, henabled⟩ := activeUser_some hk
      exact ⟨s, r, hlook, hr, huser, henabled⟩

theorem findAuthenticated_some {raw : Text} {sess : Session} {user : User}
    (h : findAuthenticated env site.toApp raw w = (.ok (some (sess, user)), w')) :
    ∃ q r, liveSession env.toEnv site.bcrypt w.store raw = some q ∧
      w.store.db.users.find (fun u => u.id = q.userId) = some r ∧ rowToUser r = .ok user ∧
      user.disabledAt.isSome = false := by
  rw [findAuthenticated_eq] at h
  obtain ⟨s, r, hvalid, hr, huser, henabled⟩ := bearerUser_found h
  rcases findValidSession_cases env.toEnv site.bcrypt raw w.store with
    ⟨-, t, hseen, ⟨-, hrun⟩ | ⟨q, sess', hq, hsess, hrun⟩⟩ | ⟨-, e, hrun⟩
  · cases hrun.symm.trans hvalid
  · cases hrun.symm.trans hvalid
    refine ⟨q, r, hq, ?_, huser, henabled⟩
    rw [← (rowToSession_ok hsess).2.1, ← hr, hseen.users]
  · cases hrun.symm.trans hvalid

theorem verifyApiToken_some {raw : Text} {token : ApiToken} {user : User}
    (h : verifyApiToken env site.toApp raw w = (.ok (some (token, user)), w')) :
    tokenPrefix.isPrefixOf raw = true ∧ ∃ q r, liveToken site.bcrypt w.store raw = some q ∧
      w.store.db.users.find (fun u => u.id = q.userId) = some r ∧ rowToUser r = .ok user ∧
      user.disabledAt.isSome = false := by
  rw [verifyApiToken_eq] at h
  obtain ⟨s, r, hvalid, hr, huser, henabled⟩ := bearerUser_found h
  rcases findValidByRaw_cases env.toEnv site.bcrypt raw w.store with
    ⟨-, hrun⟩ | ⟨hpre, -, t, hseen, ⟨-, hrun⟩ | ⟨q, token', hq, htoken, hrun⟩⟩ | ⟨-, -, e, hrun⟩
  · cases hrun.symm.trans hvalid
  · cases hrun.symm.trans hvalid
  · cases hrun.symm.trans hvalid
    refine ⟨hpre, q, r, hq, ?_, huser, henabled⟩
    rw [← (rowToToken_ok htoken).2.1, ← hr, hseen.users]
  · cases hrun.symm.trans hvalid

theorem currentUser_ok {headers : HeaderMap} {user : User}
    (h : currentUser env site headers w = (.ok user, w')) :
    ∃ r, sessionAccount env site w.store headers = some r ∧ rowToUser r = .ok user ∧
      user.disabledAt.isSome = false := by
  obtain ⟨resolved, w1, hattempt, hk⟩ := bind_ok_iff.mp h
  rcases attempt_ok_iff.mp hattempt with ⟨found, rfl, hres⟩ | ⟨e, rfl, -⟩
  · cases found with
    | none => cases hk
    | some u =>
        cases hk
        cases hraw : cookieValue headers sessionCookie with
        | none =>
            rw [resolveUser, hraw] at hres
            cases hres
        | some raw =>
            rw [resolveUser, hraw] at hres
            obtain ⟨answer, w2, hfind, hmap⟩ := bind_ok_iff.mp hres
            obtain ⟨hans, -⟩ := pure_ok_iff.mp hmap
            obtain ⟨⟨sess, u⟩, rfl, rfl⟩ := Option.map_eq_some_iff.mp hans
            obtain ⟨q, r, hq, hr, huser⟩ := findAuthenticated_some (adapt_ok_iff.mp hfind)
            exact ⟨r, by simp [sessionAccount, hraw, hq, hr], huser⟩
  · cases hk

theorem apiCaller_ok {headers : HeaderMap} {caller : ApiCaller}
    (h : apiCaller env site headers w = (.ok caller, w')) :
    ∃ r, tokenAccount site w.store headers = some r ∧ rowToUser r = .ok caller.user ∧
      caller.user.disabledAt.isSome = false := by
  obtain ⟨auth, w1, h1, h⟩ := bind_ok_iff.mp h
  obtain ⟨hauth, rfl⟩ := orErr_ok_iff.mp h1
  obtain ⟨raw, w2, h2, h⟩ := bind_ok_iff.mp h
  obtain ⟨hraw, rfl⟩ := orErr_ok_iff.mp h2
  obtain ⟨verified, w3, hattempt, hk⟩ := bind_ok_iff.mp h
  rcases attempt_ok_iff.mp hattempt with ⟨found, rfl, hver⟩ | ⟨e, rfl, -⟩
  · cases found with
    | none => cases hk
    | some found =>
        obtain ⟨token, u⟩ := found
        cases hk
        obtain ⟨hpre, q, r, hq, hr, huser⟩ := verifyApiToken_some hver
        exact ⟨r, by simp [tokenAccount, hauth, hraw, List.isPrefixOf_iff_prefix.mp hpre, hq, hr, guard], huser⟩
  · cases hk

theorem role_of_row {r : UserRow} {user : User} (h : rowToUser r = .ok user)
    (henabled : user.disabledAt.isSome = false) : r.disabledAt = none ∧ r.role = user.role.asStr := by
  obtain ⟨-, -, hrole, hdisabled⟩ := rowToUser_ok h
  refine ⟨?_, UserRole.parse_some hrole⟩
  rw [hdisabled, Option.isSome_map] at henabled
  simpa using henabled

theorem moves_findValidSession (raw : Text) :
    Moves Undisturbed (Sessions.findValid env.toEnv site.bcrypt raw) := by
  intro s
  rcases findValidSession_cases env.toEnv site.bcrypt raw s with
    ⟨-, t, hseen, ⟨-, hrun⟩ | ⟨_, _, -, -, hrun⟩⟩ | ⟨-, e, hrun⟩ <;> rw [hrun]
  · exact undisturbed_of_seenOnly hseen
  · exact undisturbed_of_seenOnly hseen
  · exact undisturbed_frame.refl s

theorem moves_findValidByRaw (raw : Text) :
    Moves Undisturbed (ApiTokens.findValidByRaw env.toEnv site.bcrypt raw) := by
  intro s
  rcases findValidByRaw_cases env.toEnv site.bcrypt raw s with
    ⟨-, hrun⟩ | ⟨-, -, t, hseen, ⟨-, hrun⟩ | ⟨_, _, -, -, hrun⟩⟩ | ⟨-, -, e, hrun⟩ <;> rw [hrun]
  · exact undisturbed_frame.refl s
  · exact undisturbed_of_seenOnly hseen
  · exact undisturbed_of_seenOnly hseen
  · exact undisturbed_frame.refl s

theorem moves_currentUser (headers : HeaderMap) :
    Moves (OnStore Undisturbed) (currentUser env site headers) := by
  have FW := onStore_frame undisturbed_frame
  have hfind : ∀ raw, Moves (OnStore Undisturbed) (findAuthenticated env site.toApp raw) := by
    intro raw
    rw [findAuthenticated_eq]
    exact moves_bearerUser undisturbed_frame (moves_findValidSession raw) _
  have hresolve : Moves (OnStore Undisturbed) (resolveUser env site headers) := by
    unfold resolveUser
    cases cookieValue headers sessionCookie with
    | none => exact FW.pure _
    | some raw => exact FW.bind (moves_adapt (hfind raw)) fun _ => FW.pure _
  apply FW.bind (moves_attempt hresolve)
  intro resolved
  split
  · exact FW.pure _
  · exact FW.throw _

theorem moves_apiCaller (headers : HeaderMap) :
    Moves (OnStore Undisturbed) (apiCaller env site headers) := by
  have FW := onStore_frame undisturbed_frame
  have hverify : ∀ raw, Moves (OnStore Undisturbed) (verifyApiToken env site.toApp raw) := by
    intro raw
    rw [verifyApiToken_eq]
    exact moves_bearerUser undisturbed_frame (moves_findValidByRaw raw) _
  refine FW.bind (FW.orErr _ _) fun _ => FW.bind (FW.orErr _ _) fun raw =>
    FW.bind (moves_attempt (hverify raw)) ?_
  intro verified
  split
  · exact FW.pure _
  · exact FW.throw _
  · exact FW.throw _

theorem safe_currentUser (headers : HeaderMap) :
    Safe (fun _ => True) (fun r => r.discloses = false) (currentUser env site headers) := by
  apply safe_bind safe_attempt
  intro resolved
  split
  · exact safe_pure _
  · exact safe_throw rfl

theorem safe_apiCaller (headers : HeaderMap) :
    Safe (fun _ => True) (fun r => r.discloses = false)
      (adapt ApiError.intoResponse (apiCaller env site headers)) := by
  have hcaller : Safe (fun _ => True) (fun e : ApiError => e.status ≠ .created)
      (apiCaller env site headers) := by
    refine safe_bind (safe_orErr (by decide) _) fun _ => safe_bind (safe_orErr (by decide) _) fun _ =>
      safe_bind safe_attempt ?_
    intro verified
    split
    · exact safe_pure _
    · exact safe_throw (by decide)
    · exact safe_throw (by decide)
  refine safe_convert hcaller ?_
  intro e he
  simpa [Response.discloses, ApiError.intoResponse] using he

theorem respond_eq (env : RequestEnv) (site : Site) (req : HttpRequest) (w : World) :
    respond env site req w = ((match (route env site req w).1 with
      | .ok r => .ok r
      | .err r => .ok r
      | .panic => .panic), (route env site req w).2) := by
  rcases h : route env site req w with ⟨r | r | _, w1⟩
  · have hok : (attempt (route env site req) : Exec World Empty _) w = (.ok (.ok r), w1) := by simp [attempt, h]
    rw [respond, bind_ok hok]
    rfl
  · have hok : (attempt (route env site req) : Exec World Empty _) w = (.ok (.error r), w1) := by
      simp [attempt, h]
    rw [respond, bind_ok hok]
    rfl
  · have hpanic : (attempt (route env site req) : Exec World Empty _) w = (.panic, w1) := by simp [attempt, h]
    rw [respond, bind_panic hpanic]

theorem acts_past {α : Type} {req : HttpRequest} {m : Exec World Response α}
    {k : α → Exec World Response Response}
    (hroute : route env site req = m >>= k) (hmoves : Moves (OnStore Undisturbed) m)
    (hrefuses : Safe (fun _ => True) (fun r => r.discloses = false) m) (h : Acts env site req w) :
    ∃ a w1, m w = (.ok a, w1) := by
  have hstore := hmoves w
  obtain ⟨herr, -⟩ := hrefuses w trivial
  rcases hm : m w with ⟨a | r | _, w1⟩
  · exact ⟨a, w1, rfl⟩
  · have hrun : route env site req w = (.err r, w1) := by rw [hroute, bind_err hm]
    rw [Acts, respond_eq, hrun] at h
    rw [hm] at hstore herr
    rcases h with hchange | ⟨r', heq, hdis⟩
    · exact absurd hstore hchange
    · cases heq
      cases (herr r rfl).symm.trans hdis
  · have hrun : route env site req w = (.panic, w1) := by rw [hroute, bind_panic hm]
    rw [Acts, respond_eq, hrun] at h
    rw [hm] at hstore
    rcases h with hchange | ⟨r', heq, -⟩
    · exact absurd hstore hchange
    · cases heq

theorem moves_login (req : LoginRequest) : Moves (OnStore Undisturbed) (login env site.toApp req) := by
  have F := undisturbed_frame
  have FW := onStore_frame F
  have hsession : ∀ userId, Moves Undisturbed (Sessions.create env.toEnv site.bcrypt userId req.ip req.userAgent
      Sessions.defaultTtlHours) := by
    intro userId s
    rcases createSession_cases env.toEnv site.bcrypt userId req.ip req.userAgent Sessions.defaultTtlHours s with
      ⟨-, issued, sessions, -, hrun⟩ | ⟨-, -, hsame⟩
    · rw [hrun]
      exact ⟨rfl, rfl, rfl, rfl⟩
    · rw [hsame]
      exact F.refl s
  apply moves_blocking F (FW.bind (moves_onStore (moves_verifyPassword F _ _)) _)
  intro maybeUser
  cases maybeUser with
  | none => exact moves_audited F (FW.throw _)
  | some user => exact FW.bind (moves_onStore (hsession _)) fun _ => moves_audited F (FW.pure _)

theorem moves_logout (raw ip ua : Text) : Moves (OnStore Undisturbed) (logout env site.toApp raw ip ua) := by
  have F := undisturbed_frame
  have FW := onStore_frame F
  have hrevoke : Moves Undisturbed (Sessions.revoke env.toEnv site.bcrypt raw) := by
    intro s
    rcases revokeSession_cases env.toEnv site.bcrypt raw s with ⟨-, hrun⟩ | ⟨-, e, hrun⟩ <;> rw [hrun]
    · exact ⟨rfl, rfl, rfl, rfl⟩
    · exact F.refl s
  exact moves_blocking F (FW.bind (moves_onStore (moves_findValidSession raw)) fun _ =>
    FW.bind (moves_onStore hrevoke) fun _ => moves_withAudit F (moves_writeEvent F _ _ _ _ _ _ _))

/-- A handler whose responses disclose nothing, and that leaves what is administered alone. -/
structure Modest (m : Exec World StatusCode Response) : Prop where
  moves : Moves (OnStore Undisturbed) m
  quiet : ∀ {w w' : World} {r : Response}, m w = (.ok r, w') → r.discloses = false

theorem modest_loginGet (headers : HeaderMap) : Modest (loginGet env site headers) where
  moves := by
    have FW := onStore_frame undisturbed_frame
    apply FW.bind (moves_attempt (moves_currentUser headers))
    intro user
    cases user <;> exact FW.pure _
  quiet := by
    intro w w' r h
    obtain ⟨user, w1, -, hk⟩ := bind_ok_iff.mp h
    cases user <;> (cases hk; rfl)

theorem modest_loginPost (headers : HeaderMap) (form : LoginForm) : Modest (loginPost env site headers form) where
  moves := by
    have FW := onStore_frame undisturbed_frame
    apply FW.bind (moves_attempt (moves_login _))
    intro result
    split
    · exact FW.bind (FW.orPanic _) fun _ => FW.pure _
    · exact FW.pure _
    · exact FW.throw _
  quiet := by
    intro w w' r h
    obtain ⟨result, w1, -, hk⟩ := bind_ok_iff.mp h
    split at hk
    · obtain ⟨cookie, w2, -, hk⟩ := bind_ok_iff.mp hk
      cases hk
      rfl
    · cases hk
      rfl
    · cases hk

theorem modest_logoutPost (headers : HeaderMap) : Modest (logoutPost env site headers) where
  moves := by
    have FW := onStore_frame undisturbed_frame
    unfold logoutPost
    dsimp only
    split_ifs
    · exact FW.bind (FW.orPanic _) fun _ => FW.pure _
    · exact FW.bind (moves_attempt (moves_logout _ _ _)) fun _ => FW.bind (FW.orPanic _) fun _ => FW.pure _
  quiet := by
    intro w w' r h
    unfold logoutPost at h
    dsimp only at h
    split_ifs at h
    · obtain ⟨_, _, -, hk⟩ := bind_ok_iff.mp h
      cases hk
      rfl
    · obtain ⟨_, _, -, hk⟩ := bind_ok_iff.mp h
      obtain ⟨_, _, -, hk⟩ := bind_ok_iff.mp hk
      cases hk
      rfl

theorem Modest.not_acts {req : HttpRequest} {m : Exec World StatusCode Response} (hm : Modest m)
    (hroute : route env site req = handled m) : ¬ Acts env site req w := by
  have hstore := hm.moves w
  rw [Acts, respond_eq, hroute]
  rcases h : m w with ⟨r | e | _, w1⟩ <;> rw [h] at hstore <;> simp only [handled, adapt, h]
  · rintro (hchange | ⟨r', heq, hdis⟩)
    · exact hchange hstore
    · cases heq
      cases (hm.quiet h).symm.trans hdis
  · rintro (hchange | ⟨r', heq, hdis⟩)
    · exact hchange hstore
    · cases heq
      cases hdis
  · rintro (hchange | ⟨r', heq, hdis⟩)
    · exact hchange hstore
    · cases heq

theorem rejected_not_acts {req : HttpRequest} {r : Rejection}
    (hroute : route env site req = throw r.intoResponse) : ¬ Acts env site req w := by
  rw [Acts, respond_eq, hroute]
  rintro (hchange | ⟨r', heq, hdis⟩)
  · exact hchange (undisturbed_frame.refl _)
  · cases heq
    cases hdis

/-- Past the extractor of a session, the request is an admin's or a vendor's. -/
theorem presentedBy_of_user {req : HttpRequest} {headers : HeaderMap}
    {handler : User → Exec World Response Response}
    (haccount : accountOf env site w.store req = sessionAccount env site w.store headers)
    (hroute : route env site req = forUser env site headers handler)
    (hno : ¬ PresentedBy env site w.store .vendor req) (h : Acts env site req w) :
    PresentedBy env site w.store .admin req := by
  obtain ⟨user, w1, hok⟩ := acts_past hroute (moves_currentUser headers) (safe_currentUser headers) h
  obtain ⟨r, hr, huser, henabled⟩ := currentUser_ok hok
  obtain ⟨hdisabled, hrole⟩ := role_of_row huser henabled
  cases hu : user.role with
  | admin => exact ⟨r, haccount.trans hr, hdisabled, hu ▸ hrole⟩
  | vendor => exact absurd ⟨r, haccount.trans hr, hdisabled, hu ▸ hrole⟩ hno

theorem presentedBy_of_caller {headers : HeaderMap} {multipart : Extracted Multipart}
    (hno : ¬ PresentedBy env site w.store .vendor (.apiSharesPost headers multipart))
    (h : Acts env site (.apiSharesPost headers multipart) w) :
    PresentedBy env site w.store .admin (.apiSharesPost headers multipart) := by
  obtain ⟨caller, w1, hok⟩ := acts_past rfl (moves_adapt (moves_apiCaller headers)) (safe_apiCaller headers) h
  obtain ⟨r, hr, huser, henabled⟩ := apiCaller_ok (adapt_ok_iff.mp hok)
  obtain ⟨hdisabled, hrole⟩ := role_of_row huser henabled
  cases hu : caller.user.role with
  | admin => exact ⟨r, hr, hdisabled, hu ▸ hrole⟩
  | vendor => exact absurd ⟨r, hr, hdisabled, hu ▸ hrole⟩ hno

theorem adminOnly_of_noVendor {v : Visit} (hno : NoVendor site w v) : AdminOnly site w v := by
  cases v with
  | elsewhere w' => trivial
  | request env req =>
      cases req with
      | redeemGet token => exact .inl trivial
      | redeemPost token headers form => exact .inl trivial
      | health => exact .inl trivial
      | loginGet headers => exact .inr fun h => absurd h ((modest_loginGet headers).not_acts rfl)
      | logoutPost headers => exact .inr fun h => absurd h ((modest_logoutPost headers).not_acts rfl)
      | loginPost headers form =>
          refine .inr fun h => absurd h ?_
          cases form with
          | ok form => exact (modest_loginPost headers form).not_acts rfl
          | error r => exact rejected_not_acts rfl
      | apiSharesPost headers multipart => exact .inr (presentedBy_of_caller hno)
      | dashboard headers => exact .inr (presentedBy_of_user rfl rfl hno)
      | shareNewGet headers => exact .inr (presentedBy_of_user rfl rfl hno)
      | shareNewPost headers multipart => exact .inr (presentedBy_of_user rfl rfl hno)
      | sharesListGet headers => exact .inr (presentedBy_of_user rfl rfl hno)
      | shareRevoke headers id => exact .inr (presentedBy_of_user rfl rfl hno)
      | auditGet headers filter => exact .inr (presentedBy_of_user rfl rfl hno)
      | auditCsv headers filter => exact .inr (presentedBy_of_user rfl rfl hno)
      | tokensGet headers => exact .inr (presentedBy_of_user rfl rfl hno)
      | tokensPost headers form => exact .inr (presentedBy_of_user rfl rfl hno)
      | tokenRevoke headers id => exact .inr (presentedBy_of_user rfl rfl hno)

/-- As long as no vendor account signs in, only admins act. -/
theorem admin_only_without_vendors (site : Site) (w : World) (vs : List Visit)
    (hno : Throughout (Visit.run site) (NoVendor site) w vs) :
    Throughout (Visit.run site) (AdminOnly site) w vs :=
  hno.imp (fun _ => True) trivial (fun _ _ _ _ => trivial) fun _ _ _ h => adminOnly_of_noVendor h

end

def memberRow (role : UserRole) : UserRow :=
  { sampleUser with id := List.replicate 16 8, email := "member@example.com".toList, role := role.asStr }

def memberSession : SessionRow where
  id := (Cng.sha256 sampleApp.bcrypt (encode sampleToken)).val
  userId := List.replicate 16 8
  csrfToken := List.replicate 32 0
  ip := []
  userAgent := []
  expiresAt := 1000
  lastSeenAt := 0

def memberWorld (role : UserRole) : World :=
  { freshWorld with store := { Store.fresh with db := { Db.empty with
    users := ⟨[sampleUser, memberRow role], by cases role <;> decide⟩
    sessions := ⟨[memberSession], by simp⟩ } } }

def memberHeaders : HeaderMap := [("cookie".toList, encode (sessionCookie ++ '=' :: sampleToken))]

def mintRequest : HttpRequest := .tokensPost memberHeaders (.ok ⟨"laptop".toList⟩)

theorem accountOf_member (role : UserRole) :
    (accountOf quietEnv sampleSite (memberWorld role).store mintRequest).map (fun r => (r.disabledAt, r.role)) =
      some (none, role.asStr) := by
  cases role <;> decide +kernel

/-- A vendor mints a token. -/
theorem vendor_mints_token : ¬ Throughout (Visit.run sampleSite) (AdminOnly sampleSite) (memberWorld .vendor)
    [.request quietEnv mintRequest] := by
  rintro ⟨hpublic | hadmin, -⟩
  · exact hpublic
  · have hacts : Acts quietEnv sampleSite mintRequest (memberWorld .vendor) := by
      have hdis : (respond quietEnv sampleSite mintRequest (memberWorld .vendor)).1.value.map Response.discloses =
          some true := by decide +kernel
      obtain ⟨r, hr, hdis⟩ := Option.map_eq_some_iff.mp hdis
      exact .inr ⟨r, Outcome.value_eq_some.mp hr, hdis⟩
    obtain ⟨r, hr, -, hrole⟩ := hadmin hacts
    have hmember := accountOf_member .vendor
    rw [hr] at hmember
    cases hrole.symm.trans (Prod.ext_iff.mp (Option.some.inj hmember)).2

theorem admin_mints_token : Throughout (Visit.run sampleSite) (AdminOnly sampleSite) (memberWorld .admin)
    [.request quietEnv mintRequest] := by
  apply admin_only_without_vendors
  refine ⟨?_, trivial⟩
  rintro ⟨r, hr, -, hrole⟩
  have hmember := accountOf_member .admin
  rw [hr] at hmember
  cases hrole.symm.trans (Prod.ext_iff.mp (Option.some.inj hmember)).2

end FipsDropbox.Web
