import FipsDropbox.Audit.Runs
import FipsDropbox.Service.AuditView
import FipsDropbox.Service.Creation
import FipsDropbox.Service.Delivery
import FipsDropbox.Storage.Credentials

/-!
# Nothing is released unaudited

Every operation only adds events to what the audit file holds, and one that hands
something out or changes it has added its own success event before it returns.
-/
namespace FipsDropbox.Service
open Utf8 Exec Crypto Storage
open Audit (Event Holds)

def succeeded (kind : String) (e : Event) : Bool := e.event = kind.toList && e.outcome = .success

def names (key : String) (id : Uuid) (e : Event) : Bool :=
  match e.target.get key.toList with
  | some (.string t) => t = id.text
  | _ => false

def shareOfToken (app : App) (s : Store) (token : Text) : Option Bytes :=
  (s.db.shares.find fun r => r.tokenHash = (secretHash app token).val).map ShareRow.id

/-- The event that a successful request owes: of its kind, and naming the share or
token concerned where there is one. -/
def Attests (app : App) (s : Store) (e : Event) : Request → Reply → Prop
  | .login _, .session issued => succeeded "auth.login" e ∧ names "user_id" issued.session.userId e
  | .logout .., .done => succeeded "auth.logout" e
  | .createShare _, .created c => succeeded "share.created" e ∧ names "share_id" c.shareId e
  | .redeemShare req, .redeemed _ => succeeded "share.redeem" e ∧
      ∃ id : Uuid, shareOfToken app s req.token = some id.val ∧ names "share_id" id e
  | .mintApiToken .., .minted t => succeeded "api_token.created" e ∧ names "token_id" t.token.id e
  | .revokeApiToken t .., .done => succeeded "api_token.revoked" e ∧ names "token_id" t e
  | .revokeShare s .., .done => succeeded "share.revoked" e ∧ names "share_id" s e
  | _, _ => False

def Request.audited : Request → Bool
  | .login _ | .logout .. | .createShare _ | .redeemShare _ | .mintApiToken .. | .revokeApiToken ..
  | .revokeShare .. => true
  | _ => false

/-- The events of the file are still there, in order. -/
def Grows (app : App) (w w' : World) : Prop :=
  ∀ es, Holds app.serde w.file es → ∃ new, Holds app.serde w'.file (es ++ new)

theorem grows_frame (app : App) : Frame (Grows app) where
  refl w es h := ⟨[], by rwa [List.append_nil]⟩
  trans h h' es hes := by
    obtain ⟨new, hnew⟩ := h es hes
    obtain ⟨more, hmore⟩ := h' _ hnew
    exact ⟨new ++ more, by rwa [← List.append_assoc]⟩

section
variable {env : RequestEnv} {app : App} {α : Type}

theorem SameLog.grows {w w' : World} (h : SameLog w w') : Grows app w w' := by
  intro es hes
  exact ⟨[], by rwa [h.2, List.append_nil]⟩

/-- A write leaves the file as it was, or appends the event. -/
theorem holds_write (D : app.serde.Documented) {fault : Option Audit.WriteStep} {log log' : Audit.Log}
    {file file' : Audit.File} {ev : Event} {r : Audit.Result Unit} (hp : ev.Plain)
    (hw : log.write app.serde app.bcrypt fault file ev = (r, log', file')) {es : List Event}
    (h : Holds app.serde file es) :
    (r ≠ .ok () ∧ Holds app.serde file' es) ∨
      ∃ e, e.payload = ev.payload ∧ Holds app.serde file' (es ++ [e]) := by
  rcases Audit.write_cases hw with
    ⟨hr, -, rfl, -⟩ | ⟨e, -, hr, -, hsame, -⟩ | ⟨e, line, hseal, hline, -, rfl, -⟩
  · exact .inl ⟨hr, h⟩
  · refine .inl ⟨hr, ?_⟩
    obtain ⟨t, ht, hrest⟩ := h
    exact ⟨t, hsame.trans ht, hrest⟩
  · exact .inr ⟨e, Audit.sealAfter_payload hseal, h.append D (Audit.sealAfter_plain hseal hp) hline⟩

theorem grows_withAudit {m : Exec World ServiceError α} (h : Moves (Grows app) m) :
    Moves (Grows app) (withAudit m) := (grows_frame app).locked h fun _ => SameLog.grows ⟨rfl, rfl⟩

theorem grows_blocking {m : Exec World ServiceError α} (h : Moves (Grows app) m) :
    Moves (Grows app) (spawnBlocking (withStore m)) :=
  moves_task ((grows_frame app).locked h fun _ => SameLog.grows ⟨rfl, rfl⟩)

theorem grows_same {m : Exec World ServiceError α} (h : Moves SameLog m) : Moves (Grows app) m :=
  h.mono fun _ _ => SameLog.grows

theorem grows_onStore (m : Exec Store StorageError α) : Moves (Grows app) (onStore m) :=
  grows_same (sameLog_onStore m)

theorem grows_writeEvent (D : app.serde.Documented) {name : String} {outcome : Audit.Outcome}
    {userId : Option Uuid} {ip ua : Text} {target meta_ : List (Text × Json)}
    (hp : (eventOf env name outcome userId ip ua target meta_).Plain) :
    Moves (Grows app) (writeEvent env app name outcome userId ip ua target meta_) := by
  intro w es h
  rcases hw : w.log.write app.serde app.bcrypt env.auditFault w.file
    (eventOf env name outcome userId ip ua target meta_) with ⟨r, log, file⟩
  have hfile : (writeEvent env app name outcome userId ip ua target meta_ w).2.file = file := by
    simp only [writeEvent, hw]
  rw [hfile]
  rcases holds_write D hp hw h with ⟨-, hsame⟩ | ⟨e, -, hnew⟩
  · exact ⟨[], by rwa [List.append_nil]⟩
  · exact ⟨[e], hnew⟩

theorem grows_audited (D : app.serde.Documented) {name : String} {outcome : Audit.Outcome}
    {userId : Option Uuid} {ip ua : Text} {target meta_ : List (Text × Json)} {k : Exec World ServiceError α}
    (hp : (eventOf env name outcome userId ip ua target meta_).Plain) (hk : Moves (Grows app) k) :
    Moves (Grows app)
      (withAudit (writeEvent env app name outcome userId ip ua target meta_ >>= fun _ => k)) :=
  grows_withAudit ((grows_frame app).bind (grows_writeEvent D hp) fun _ => hk)

theorem grows_deny (D : app.serde.Documented) (req : RedeemRequest) (share : Share) (reason : String)
    (e : ServiceError) :
    Moves (Grows app) (deny env app req (uuid "share_id" share.id) reason e : Exec World ServiceError α) := by
  refine grows_audited D (eventOf_plain _ _ _ _ _ _ ?_ ?_) ((grows_frame app).throw e)
  · simp [uuid, Json.floatFree, Json.depth]
  · simp [text, Json.floatFree, Json.depth]

theorem grows_redeemBody (D : app.serde.Documented) (req : RedeemRequest) :
    Moves (Grows app) (redeemBody env app req) := by
  have F := grows_frame app
  apply F.bind
  · apply F.bind (grows_same (moves_adapt (moves_sha256 sameLog_frame _ _)))
    intro tokenHash
    apply F.bind (grows_onStore _)
    intro found
    cases found with
    | some share => exact F.pure share
    | none =>
        refine grows_withAudit (F.bind (F.orPanic _) fun short => F.bind (grows_writeEvent D
          (eventOf_plain _ _ _ _ _ _ ?_ ?_)) fun _ => F.throw _)
        · simp [text, Json.floatFree, Json.depth]
        · simp [text, Json.floatFree, Json.depth]
  intro share
  apply F.bind
  · apply F.bind (grows_onStore _)
    intro ok
    cases ok with
    | true => exact F.pure ()
    | false => exact grows_deny D req share _ _
  intro _
  apply F.bind
  · apply F.bind (grows_onStore _)
    intro ok
    cases ok with
    | true => exact F.pure ()
    | false => exact grows_deny D req share _ _
  intro _
  exact F.bind (grows_onStore _) fun _ => F.bind (F.orErr _ _) fun print => F.bind (grows_onStore _) fun _ =>
    grows_audited D (deliveredEvent_plain env req share print) (F.pure _)

theorem grows_bearerUser {α : Type} (look : Exec Store StorageError (Option α)) (userOf : α → Uuid) :
    Moves (Grows app) (bearerUser env look userOf) := by
  have F := grows_frame app
  refine grows_blocking (F.bind (grows_onStore _) fun found => ?_)
  cases found with
  | none => exact F.pure none
  | some credential => exact grows_same (sameLog_activeUser _ _)

/-- The step lemma for the file: no operation loses an event. -/
theorem handle_grows (D : app.serde.Documented) (env : RequestEnv) (req : Request) :
    Moves (Grows app) (handle env app req) := by
  have F := grows_frame app
  cases req with
  | login req =>
      refine F.bind (grows_blocking (F.bind (grows_onStore _) fun maybeUser => ?_)) fun _ => F.pure _
      cases maybeUser with
      | none =>
          refine grows_audited D (eventOf_plain _ _ _ _ _ _ ?_ ?_) (F.throw _)
          · simp [text, Json.floatFree, Json.depth]
          · simp [text, Json.floatFree, Json.depth]
      | some user =>
          refine F.bind (grows_onStore _) fun _ =>
            grows_audited D (eventOf_plain _ _ _ _ _ _ ?_ ?_) (F.pure _)
          · simp [uuid, Json.floatFree, Json.depth]
          · simp
  | logout rawToken ip ua =>
      refine F.bind (grows_blocking (F.bind (grows_onStore _) fun sess => F.bind (grows_onStore _) fun _ =>
        grows_withAudit (grows_writeEvent D (eventOf_plain _ _ _ _ _ _ ?_ ?_)))) fun _ => F.pure _
      · simp
      · simp
  | createShare req =>
      exact F.bind (F.bind (grows_blocking (F.bind (grows_onStore _) fun _ => F.bind (grows_onStore _) fun _ =>
        F.bind (F.orPanic _) fun _ => F.bind (grows_onStore _) fun _ =>
        grows_audited D (createdEvent_plain env req _ _ _) (F.pure _))) fun _ =>
        F.bind (grows_same (moves_modify fun _ => ⟨rfl, rfl⟩)) fun _ => F.pure _) fun _ => F.pure _
  | redeemShare req => exact F.bind (grows_blocking (grows_redeemBody D req)) fun _ => F.pure _
  | mintApiToken u label ip ua =>
      refine F.bind (grows_blocking (F.bind (grows_onStore _) fun issued =>
        grows_audited D (eventOf_plain _ _ _ _ _ _ ?_ ?_) (F.pure _))) fun _ => F.pure _
      · simp [uuid, Json.floatFree, Json.depth]
      · simp [text, Json.floatFree, Json.depth]
  | revokeApiToken t u ip ua =>
      refine F.bind (grows_blocking (F.bind (grows_onStore _) fun _ =>
        grows_withAudit (grows_writeEvent D (eventOf_plain _ _ _ _ _ _ ?_ ?_)))) fun _ => F.pure _
      · simp [uuid, Json.floatFree, Json.depth]
      · simp
  | revokeShare s u ip ua =>
      refine F.bind (grows_blocking (F.bind (grows_onStore _) fun _ =>
        grows_withAudit (grows_writeEvent D (eventOf_plain _ _ _ _ _ _ ?_ ?_)))) fun _ => F.pure _
      · simp [uuid, Json.floatFree, Json.depth]
      · simp
  | findAuthenticated rawToken =>
      rw [handle, findAuthenticated_eq]
      exact F.bind (grows_bearerUser _ _) fun _ => F.pure _
  | verifyApiToken rawToken =>
      rw [handle, verifyApiToken_eq]
      exact F.bind (grows_bearerUser _ _) fun _ => F.pure _
  | listAuditEvents p limit =>
      exact F.bind (moves_task (grows_withAudit (F.bind (F.failIf _ _) fun _ => F.bind (F.read _) fun _ =>
        F.bind (F.lift _ _) fun _ => F.bind (F.lift _ _) fun _ => F.pure _))) fun _ => F.pure _
  | listApiTokens u => exact F.bind (grows_blocking (grows_onStore _)) fun _ => F.pure _
  | listRecentShares limit => exact F.bind (grows_blocking (grows_onStore _)) fun _ => F.pure _

/-- The event was written after whatever `w` had logged. -/
def Logged (env : RequestEnv) (app : App) (w w' : World) (ev : Event) : Prop :=
  w.auditPoisoned = false ∧ ∃ log, w.log.write app.serde app.bcrypt env.auditFault w.file ev = (.ok (), log, w'.file)

theorem logged_of_audited {name : String} {outcome : Audit.Outcome} {userId : Option Uuid} {ip ua : Text}
    {target meta_ : List (Text × Json)} {a b : α} {w w' : World}
    (h : withAudit (writeEvent env app name outcome userId ip ua target meta_ >>= fun _ => pure a) w =
      (.ok b, w')) :
    a = b ∧ Logged env app w w' (eventOf env name outcome userId ip ua target meta_) := by
  obtain ⟨hfree, hab, log, file, hwrite, rfl⟩ := withAudit_ok_iff.mp h
  exact ⟨hab, hfree, log, hwrite⟩

theorem logged_of_written {name : String} {outcome : Audit.Outcome} {userId : Option Uuid} {ip ua : Text}
    {target meta_ : List (Text × Json)} {u : Unit} {w w' : World}
    (h : withAudit (writeEvent env app name outcome userId ip ua target meta_) w = (.ok u, w')) :
    Logged env app w w' (eventOf env name outcome userId ip ua target meta_) := by
  rw [← bind_pure (writeEvent env app name outcome userId ip ua target meta_)] at h
  exact (logged_of_audited (a := u) h).2

theorem blocking_ok_iff {m : Exec World ServiceError α} {a : α} {w w' : World} :
    spawnBlocking (withStore m) w = (.ok a, w') ↔ w.storePoisoned = false ∧ m w = (.ok a, w') := by
  rw [spawnBlocking, task_ok_iff, withStore, locked_ok_iff]
  rfl

/-- A login succeeds where the password is that of the account, the session can be opened
and its event written. -/
theorem login_run_iff {req : LoginRequest} {w w' : World} {issued : IssuedSession} :
    login env app req w = (.ok issued, w') ↔
      w.storePoisoned = false ∧ ∃ user t, Authenticates env.toEnv app.bcrypt w.store req.email req.password user ∧
        Sessions.create env.toEnv app.bcrypt user.id req.ip req.userAgent Sessions.defaultTtlHours w.store =
          (.ok issued, t) ∧
        withAudit (writeEvent env app "auth.login" .success (some user.id) req.ip req.userAgent
          [uuid "user_id" user.id] [] >>= fun _ => pure issued) { w with store := t } = (.ok issued, w') := by
  rw [login, blocking_ok_iff]
  refine and_congr_right fun _ => ?_
  constructor
  · intro hbody
    obtain ⟨maybeUser, w1, h1, k1⟩ := bind_ok_iff.mp hbody
    obtain ⟨s1, hverify, rfl⟩ := onStore_ok_iff.mp h1
    cases maybeUser with
    | none =>
        obtain ⟨-, hdenied⟩ := locked_ok_iff.mp k1
        obtain ⟨_, _, -, hthrow⟩ := bind_ok_iff.mp hdenied
        cases hthrow
    | some user =>
        obtain ⟨hauth, rfl⟩ := verifyPassword_some_iff.mp hverify
        obtain ⟨session, w2, h2, k2⟩ := bind_ok_iff.mp k1
        obtain ⟨s2, hcreate, rfl⟩ := onStore_ok_iff.mp h2
        obtain ⟨-, rfl, -⟩ := withAudit_ok_iff.mp k2
        exact ⟨user, s2, hauth, hcreate, k2⟩
  · rintro ⟨user, t, hauth, hcreate, haudit⟩
    have hverify : onStore (Users.verifyPassword env.toEnv app.bcrypt req.email req.password) w =
        (.ok (some user), w) := onStore_ok_iff.mpr ⟨w.store, verifyPassword_some_iff.mpr ⟨hauth, rfl⟩, rfl⟩
    exact bind_ok_iff.mpr ⟨some user, w, hverify, bind_ok_iff.mpr ⟨issued, _, onStore_ok hcreate, haudit⟩⟩

theorem login_ok_iff (D : app.serde.Documented) {req : LoginRequest} {w : World} {issued : IssuedSession}
    {t : Store} :
    (∃ w', login env app req w = (.ok issued, w') ∧ w'.store = t) ↔
      w.storePoisoned = false ∧
      (∃ user, Authenticates env.toEnv app.bcrypt w.store req.email req.password user ∧
        Sessions.create env.toEnv app.bcrypt user.id req.ip req.userAgent Sessions.defaultTtlHours w.store =
          (.ok issued, t)) ∧
      Audits env w := by
  have hplain : ∀ userId : Uuid, (eventOf env "auth.login" .success (some userId) req.ip req.userAgent
      [uuid "user_id" userId] []).Plain := by
    intro userId
    apply eventOf_plain
    · simp [uuid, Json.floatFree, Json.depth]
    · simp
  constructor
  · rintro ⟨w', h, rfl⟩
    obtain ⟨hfree, user, s, hauth, hcreate, haudit⟩ := login_run_iff.mp h
    have haudits : Audits env { w with store := s } :=
      (audited_done_iff D (hplain user.id)).mp ⟨_, congrArg Prod.fst haudit⟩
    obtain ⟨-, -, log, file, -, rfl⟩ := withAudit_ok_iff.mp haudit
    exact ⟨hfree, ⟨user, hauth, hcreate⟩, haudits⟩
  · rintro ⟨hfree, ⟨user, hauth, hcreate⟩, haudits⟩
    have haudits' : Audits env { w with store := t } := haudits
    obtain ⟨b, hb⟩ := (audited_done_iff (a := issued) D (hplain user.id)).mpr haudits'
    obtain ⟨hunpoisoned, -, log, file, hwrite, -⟩ := withAudit_ok_iff.mp (Prod.ext hb rfl)
    exact ⟨{ w with store := t, log, file }, login_run_iff.mpr ⟨hfree, user, t, hauth, hcreate,
      withAudit_ok_iff.mpr ⟨hunpoisoned, rfl, log, file, hwrite, rfl⟩⟩, rfl⟩

theorem login_logged {req : LoginRequest} {w w' : World} {issued : IssuedSession}
    (h : login env app req w = (.ok issued, w')) :
    Logged env app w w' (eventOf env "auth.login" .success (some issued.session.userId) req.ip req.userAgent
      [uuid "user_id" issued.session.userId] []) := by
  obtain ⟨-, user, t, -, hcreate, haudit⟩ := login_run_iff.mp h
  obtain ⟨-, -, -, raw, csrfToken, expiresAt, sessions, -, -, -, -, rfl, -⟩ := createSession_ok_iff.mp hcreate
  exact (logged_of_audited haudit).2

theorem logout_logged {rawToken ip ua : Text} {w w' : World} {u : Unit}
    (h : logout env app rawToken ip ua w = (.ok u, w')) :
    ∃ userId, Logged env app w w' (eventOf env "auth.logout" .success userId ip ua [] []) := by
  obtain ⟨-, hbody⟩ := blocking_ok_iff.mp h
  obtain ⟨sess, w1, h1, k1⟩ := bind_ok_iff.mp hbody
  obtain ⟨s1, -, rfl⟩ := onStore_ok_iff.mp h1
  obtain ⟨_, w2, h2, k2⟩ := bind_ok_iff.mp k1
  obtain ⟨s2, -, rfl⟩ := onStore_ok_iff.mp h2
  have hlogged := logged_of_written k2
  exact ⟨_, hlogged⟩

theorem mintApiToken_logged {byUser : Uuid} {label ip ua : Text} {w w' : World} {issued : IssuedApiToken}
    (h : mintApiToken env app byUser label ip ua w = (.ok issued, w')) :
    Logged env app w w' (eventOf env "api_token.created" .success (some byUser) ip ua
      [uuid "token_id" issued.token.id] [text "label" label]) := by
  obtain ⟨-, hbody⟩ := blocking_ok_iff.mp h
  obtain ⟨token, w1, h1, k1⟩ := bind_ok_iff.mp hbody
  obtain ⟨s1, -, rfl⟩ := onStore_ok_iff.mp h1
  obtain ⟨rfl, hlogged⟩ := logged_of_audited k1
  exact hlogged

theorem revokeApiToken_logged {tokenId byUser : Uuid} {ip ua : Text} {w w' : World} {u : Unit}
    (h : revokeApiToken env app tokenId byUser ip ua w = (.ok u, w')) :
    Logged env app w w' (eventOf env "api_token.revoked" .success (some byUser) ip ua
      [uuid "token_id" tokenId] []) := by
  obtain ⟨-, hbody⟩ := blocking_ok_iff.mp h
  obtain ⟨_, w1, h1, k1⟩ := bind_ok_iff.mp hbody
  obtain ⟨s1, -, rfl⟩ := onStore_ok_iff.mp h1
  have hlogged := logged_of_written k1
  exact hlogged

theorem revokeShare_logged {shareId byUser : Uuid} {ip ua : Text} {w w' : World} {u : Unit}
    (h : revokeShare env app shareId byUser ip ua w = (.ok u, w')) :
    Logged env app w w' (eventOf env "share.revoked" .success (some byUser) ip ua
      [uuid "share_id" shareId] []) := by
  obtain ⟨-, hbody⟩ := blocking_ok_iff.mp h
  obtain ⟨_, w1, h1, k1⟩ := bind_ok_iff.mp hbody
  obtain ⟨s1, -, rfl⟩ := onStore_ok_iff.mp h1
  have hlogged := logged_of_written k1
  exact hlogged

theorem redeemShare_logged {req : RedeemRequest} {w w' : World} {resp : RedeemResponse}
    (h : redeemShare env app req w = (.ok resp, w')) :
    ∃ (share : Share) (print : Print), shareOfToken app w.store req.token = some share.id.val ∧
      Logged env app w w' (deliveredEvent env req share print) := by
  obtain ⟨-, hbody⟩ := blocking_ok_iff.mp h
  obtain ⟨share, w1, h1, k1⟩ := bind_ok_iff.mp hbody
  obtain ⟨-, ⟨r, hr, htoken, hdec⟩, rfl⟩ := redeemLookup_ok_iff.mp h1
  obtain ⟨_, w2, h2, k2⟩ := bind_ok_iff.mp k1
  obtain ⟨-, -, rfl⟩ := redeemCode_ok_iff.mp h2
  obtain ⟨_, w3, h3, k3⟩ := bind_ok_iff.mp k2
  obtain ⟨-, _, -, -, -, rfl⟩ := redeemConsume_ok_iff.mp h3
  obtain ⟨found, w4, h4, k4⟩ := bind_ok_iff.mp k3
  obtain ⟨s4, -, rfl⟩ := onStore_ok_iff.mp h4
  obtain ⟨print, w5, h5, k5⟩ := bind_ok_iff.mp k4
  obtain ⟨-, rfl⟩ := orErr_ok_iff.mp h5
  obtain ⟨content, w6, h6, k6⟩ := bind_ok_iff.mp k5
  obtain ⟨s6, -, rfl⟩ := onStore_ok_iff.mp h6
  refine ⟨share, print, ?_, (logged_of_audited k6).2⟩
  have hfind : (w.store.db.shares.find fun r' => r'.tokenHash = (secretHash app req.token).val) = some r := by
    rw [← htoken]
    exact Table.find_key (by simp) hr
  rw [shareOfToken, hfind, Option.map_some, (rowToShare_ok hdec).1]

theorem createShare_logged {req : NewShareRequest} {w w' : World} {created : ShareCreated}
    (h : createShare env app req w = (.ok created, w')) :
    ∃ printId vendorId, Logged env app w w' (createdEvent env req created.shareId printId vendorId) := by
  obtain ⟨vendor, print, expiresAt, share, secrets, s1, s2, s3, log, file, -, hfree, -, -, -, -, hwrite, rfl, rfl⟩ :=
    createShare_steps h
  exact ⟨print.id, vendor.id, hfree, log, hwrite⟩

/-- The stored event has the writer's data. -/
theorem succeeded_of_payload {e ev : Event} {kind : String} (h : e.payload = ev.payload)
    (hev : succeeded kind ev = true) : succeeded kind e = true := by
  have hevent : e.event = ev.event := show e.payload.event = ev.payload.event from congrArg Event.event h
  have houtcome : e.outcome = ev.outcome :=
    show e.payload.outcome = ev.payload.outcome from congrArg Event.outcome h
  rwa [succeeded, hevent, houtcome]

theorem names_of_payload {e ev : Event} {key : String} {id : Uuid} (h : e.payload = ev.payload)
    (hev : names key id ev = true) : names key id e = true := by
  have htarget : e.target = ev.target := show e.payload.target = ev.payload.target from congrArg Event.target h
  rwa [names, htarget]

theorem names_eventOf {name key : String} {outcome : Audit.Outcome} {userId : Option Uuid} {ip ua : Text}
    {target meta_ : List (Text × Json)} {id : Uuid} (hkeys : (target.map Prod.fst).Nodup)
    (h : uuid key id ∈ target) :
    names key id (eventOf env name outcome userId ip ua target meta_) = true := by
  have hget : (JsonValue.object target).get key.toList = some (.string id.text) := JsonValue.get_object hkeys h
  rw [names, eventOf, hget]
  exact decide_eq_true rfl

theorem Logged.holds (D : app.serde.Documented) {w w' : World} {ev : Event} (h : Logged env app w w' ev)
    (hp : ev.Plain) {es : List Event} (hes : Holds app.serde w.file es) :
    ∃ e, e.payload = ev.payload ∧ Holds app.serde w'.file (es ++ [e]) := by
  obtain ⟨-, log, hwrite⟩ := h
  rcases holds_write D hp hwrite hes with ⟨hr, -⟩ | hnew
  · exact absurd rfl hr
  · exact hnew

theorem Logged.attests (D : app.serde.Documented) {w w' : World} {name key : String} {userId : Option Uuid}
    {ip ua : Text} {target meta_ : List (Text × Json)} {id : Uuid}
    (h : Logged env app w w' (eventOf env name .success userId ip ua target meta_))
    (hp : (eventOf env name .success userId ip ua target meta_).Plain)
    (hkeys : (target.map Prod.fst).Nodup) (hid : uuid key id ∈ target) {es : List Event}
    (hes : Holds app.serde w.file es) :
    ∃ e, (succeeded name e = true ∧ names key id e = true) ∧ Holds app.serde w'.file (es ++ [e]) := by
  obtain ⟨e, hpayload, hnew⟩ := h.holds D hp hes
  exact ⟨e, ⟨succeeded_of_payload hpayload (by simp [succeeded, eventOf]),
    names_of_payload hpayload (names_eventOf hkeys hid)⟩, hnew⟩

/-- The step lemma for a success: exactly its event is added. -/
theorem handle_attests (D : app.serde.Documented) {req : Request} {reply : Reply} {w w' : World}
    (ha : req.audited = true) (h : handle env app req w = (.ok reply, w')) {es : List Event}
    (hes : Holds app.serde w.file es) :
    ∃ e, Attests app w.store e req reply ∧ Holds app.serde w'.file (es ++ [e]) := by
  cases req with
  | login req =>
      obtain ⟨issued, w1, hrun, hreply⟩ := bind_ok_iff.mp h
      obtain ⟨rfl, rfl⟩ := pure_ok_iff.mp hreply
      refine (login_logged hrun).attests D (eventOf_plain _ _ _ _ _ _ ?_ ?_) (by simp [uuid]) (by simp) hes
      · simp [uuid, Json.floatFree, Json.depth]
      · simp
  | logout rawToken ip ua =>
      obtain ⟨_, w1, hrun, hreply⟩ := bind_ok_iff.mp h
      obtain ⟨rfl, rfl⟩ := pure_ok_iff.mp hreply
      obtain ⟨userId, hlogged⟩ := logout_logged hrun
      obtain ⟨e, hpayload, hnew⟩ := hlogged.holds D (eventOf_plain _ _ _ _ _ _ (by simp) (by simp)) hes
      exact ⟨e, succeeded_of_payload hpayload (by simp [succeeded, eventOf]), hnew⟩
  | createShare req =>
      obtain ⟨created, w1, hrun, hreply⟩ := bind_ok_iff.mp h
      obtain ⟨rfl, rfl⟩ := pure_ok_iff.mp hreply
      obtain ⟨printId, vendorId, hlogged⟩ := createShare_logged hrun
      exact hlogged.attests D (createdEvent_plain env req _ _ _) (by simp [uuid]) (by simp) hes
  | redeemShare req =>
      obtain ⟨resp, w1, hrun, hreply⟩ := bind_ok_iff.mp h
      obtain ⟨rfl, rfl⟩ := pure_ok_iff.mp hreply
      obtain ⟨share, print, hshare, hlogged⟩ := redeemShare_logged hrun
      obtain ⟨e, ⟨hkind, hname⟩, hnew⟩ : ∃ e, (succeeded "share.redeem" e = true ∧
          names "share_id" share.id e = true) ∧ Holds app.serde w1.file (es ++ [e]) :=
        hlogged.attests D (deliveredEvent_plain env req share print) (by simp [uuid]) (by simp) hes
      exact ⟨e, ⟨hkind, share.id, hshare, hname⟩, hnew⟩
  | mintApiToken u label ip ua =>
      obtain ⟨issued, w1, hrun, hreply⟩ := bind_ok_iff.mp h
      obtain ⟨rfl, rfl⟩ := pure_ok_iff.mp hreply
      refine (mintApiToken_logged hrun).attests D (eventOf_plain _ _ _ _ _ _ ?_ ?_) (by simp [uuid]) (by simp) hes
      · simp [uuid, Json.floatFree, Json.depth]
      · simp [text, Json.floatFree, Json.depth]
  | revokeApiToken t u ip ua =>
      obtain ⟨_, w1, hrun, hreply⟩ := bind_ok_iff.mp h
      obtain ⟨rfl, rfl⟩ := pure_ok_iff.mp hreply
      refine (revokeApiToken_logged hrun).attests D (eventOf_plain _ _ _ _ _ _ ?_ ?_) (by simp [uuid]) (by simp) hes
      · simp [uuid, Json.floatFree, Json.depth]
      · simp
  | revokeShare s u ip ua =>
      obtain ⟨_, w1, hrun, hreply⟩ := bind_ok_iff.mp h
      obtain ⟨rfl, rfl⟩ := pure_ok_iff.mp hreply
      refine (revokeShare_logged hrun).attests D (eventOf_plain _ _ _ _ _ _ ?_ ?_) (by simp [uuid]) (by simp) hes
      · simp [uuid, Json.floatFree, Json.depth]
      · simp
  | findAuthenticated | listAuditEvents | listApiTokens | verifyApiToken | listRecentShares => cases ha

end

/-- A request, or anything that happens to the rest of the world but not to the audit
file: a restart, a command of the operator, another process on the database. -/
inductive Turn where
  | request (env : RequestEnv) (req : Request)
  | elsewhere (u : World)

def Turn.step (app : App) (w : World) : Turn → World
  | .request env req => (handle env app req w).2
  | .elsewhere u => { u with file := w.file }

def afterTurns (app : App) : World → List Turn → World
  | w, [] => w
  | w, t :: rest => afterTurns app (t.step app w) rest

/-- Along the run every turn adds to the events in the file; a successful operation of
the audited kinds has added exactly its own event when it returns. -/
def Accountable (app : App) : World → List Event → List Turn → Prop
  | w, es, [] => Audit.readAll app.serde w.file = .ok es
  | w, es, t :: rest => Audit.readAll app.serde w.file = .ok es ∧ ∃ new,
      (∀ env req reply, t = .request env req → req.audited = true → (handle env app req w).1 = .ok reply →
        ∃ e, new = [e] ∧ Attests app w.store e req reply) ∧
      Accountable app (t.step app w) (es ++ new) rest

def Turn.delivers (app : App) (id : Uuid) (w : World) : Turn → Bool
  | .request env (.redeemShare req) => (handle env app (.redeemShare req) w).1.value.isSome &&
      shareOfToken app w.store req.token = some id.val
  | _ => false

def deliveries (app : App) (id : Uuid) : World → List Turn → ℕ
  | _, [] => 0
  | w, t :: rest => (if t.delivers app id w then 1 else 0) + deliveries app id (t.step app w) rest

/-- The successful redemptions of the share that the log knows of. -/
def redemptionsLogged (id : Uuid) (es : List Event) : ℕ :=
  es.countP fun e => succeeded "share.redeem" e && names "share_id" id e

section
variable {app : App}

theorem Turn.accountable (D : app.serde.Documented) (t : Turn) {w : World} {es : List Event}
    (hes : Holds app.serde w.file es) :
    ∃ new, Holds app.serde (t.step app w).file (es ++ new) ∧
      ∀ env req reply, t = .request env req → req.audited = true → (handle env app req w).1 = .ok reply →
        ∃ e, new = [e] ∧ Attests app w.store e req reply := by
  cases t with
  | elsewhere u => exact ⟨[], by rwa [List.append_nil], by simp⟩
  | request env req =>
      by_cases hok : req.audited = true ∧ ∃ reply, (handle env app req w).1 = .ok reply
      · obtain ⟨ha, reply, hreply⟩ := hok
        obtain ⟨e, hattests, hnew⟩ := handle_attests D ha (Prod.ext hreply rfl) hes
        refine ⟨[e], hnew, ?_⟩
        intro env' req' reply' heq _ hreply'
        cases heq
        obtain rfl := Outcome.ok.inj (hreply.symm.trans hreply')
        exact ⟨e, rfl, hattests⟩
      · obtain ⟨new, hnew⟩ := handle_grows D env req w es hes
        refine ⟨new, hnew, ?_⟩
        intro env' req' reply heq ha hreply
        cases heq
        exact absurd ⟨ha, reply, hreply⟩ hok

theorem Turn.delivers_le {id : Uuid} {w : World} {t : Turn} {new : List Event}
    (h : ∀ env req reply, t = .request env req → req.audited = true → (handle env app req w).1 = .ok reply →
      ∃ e, new = [e] ∧ Attests app w.store e req reply) :
    (if t.delivers app id w then 1 else 0) ≤ redemptionsLogged id new := by
  by_cases hd : t.delivers app id w = true
  · rw [if_pos hd]
    cases t with
    | elsewhere u => cases hd
    | request env req =>
        cases req with
        | redeemShare req =>
            simp only [Turn.delivers, Bool.and_eq_true, decide_eq_true_eq] at hd
            obtain ⟨reply, hreply⟩ := Option.isSome_iff_exists.mp hd.1
            have hok := Outcome.value_eq_some.mp hreply
            obtain ⟨e, rfl, hattests⟩ := h env _ reply rfl rfl hok
            cases reply with
            | redeemed resp =>
                obtain ⟨hkind, id', hshare, hname⟩ := hattests
                obtain rfl : id = id' := Subtype.ext (Option.some.inj (hd.2.symm.trans hshare))
                simp [redemptionsLogged, hkind, hname]
            | _ => exact absurd hattests not_false
        | _ => cases hd
  · rw [if_neg hd]
    exact Nat.zero_le _

/-- The run lemma: nothing is released unaudited, and of a share no more than the log
knows of. -/
theorem released_audited (D : app.serde.Documented) (turns : List Turn) {w : World} {es : List Event}
    (hes : Holds app.serde w.file es) :
    Accountable app w es turns ∧ ∃ later,
      Audit.readAll app.serde (afterTurns app w turns).file = .ok (es ++ later) ∧
        ∀ id, deliveries app id w turns ≤ redemptionsLogged id later := by
  induction turns generalizing w es with
  | nil => exact ⟨hes.readAll, [], by rw [List.append_nil]; exact hes.readAll, fun _ => Nat.zero_le _⟩
  | cons t rest ih =>
      obtain ⟨new, hnew, hstep⟩ := t.accountable D hes
      obtain ⟨haccountable, later, hread, hcount⟩ := ih hnew
      refine ⟨⟨hes.readAll, new, hstep, haccountable⟩, new ++ later, ?_, ?_⟩
      · rw [← List.append_assoc]
        exact hread
      · intro id
        rw [deliveries, redemptionsLogged, List.countP_append]
        exact Nat.add_le_add (Turn.delivers_le hstep) (hcount id)

end

def sampleTurns : List Turn := [.elsewhere sharedWorld, .request quietEnv (.redeemShare sampleBearer)]

theorem released_audited_sample :
    Accountable sampleApp freshWorld [] sampleTurns ∧ ∃ later,
      Audit.readAll sampleApp.serde (afterTurns sampleApp freshWorld sampleTurns).file = .ok ([] ++ later) ∧
        ∀ id, deliveries sampleApp id freshWorld sampleTurns ≤ redemptionsLogged id later :=
  released_audited Audit.SerdeJson.reference_documented sampleTurns Audit.holds_absent

end FipsDropbox.Service
