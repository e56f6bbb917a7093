import FipsDropbox.Cli.InitCmd
import FipsDropbox.Service.Attested
import FipsDropbox.Web.Login

/-!
# From bootstrap to login

The command stores the e-mail address as it is typed; the login form trims and lowers
it first. The two meet in a comparison of bytes.
-/
namespace FipsDropbox.Cli
open Utf8 Exec Crypto Storage Service Web

/-- The answer sets the cookie of a session, and the session is new and the user's. -/
def YieldsSession (env : RequestEnv) (site : Site) (headers : HeaderMap) (form : LoginForm) (w : World)
    (user : User) : Prop :=
  ∃ raw expiresAt w', loginPost env site headers form w = (.ok ((Response.redirect "/").withHeader "set-cookie"
      (encode (buildSessionCookie env.toEnv raw expiresAt))), w') ∧
    ∃ r ∈ w'.store.db.sessions.rows, r.id = (Cng.sha256 site.bcrypt (encode raw)).val ∧
      r.userId = user.id.val ∧ r.id ∉ w.store.db.sessions.rows.map SessionRow.id

/-- Nothing else stands in the way of a login. -/
structure LoginReady (env : RequestEnv) (site : Site) (w : World) (user : User) : Prop where
  free : w.storePoisoned = false
  calls : env.fails .selectUserByEmail = false ∧ env.fails .deriveCandidate = false
  session : OpensSession env.toEnv site.bcrypt w.store user.id Sessions.defaultTtlHours
  audits : Audits env w

theorem Entered.unique {host : InitHost} {args : List Text} {email password email' password' : Text}
    (h : Entered host args email password) (h' : Entered host args email' password') :
    email = email' ∧ password = password' := by
  rcases h with h | ⟨h, htyped, -⟩ <;> rcases h' with h' | ⟨h', htyped', -⟩ <;> cases h.symm.trans h'
  · exact ⟨rfl, rfl⟩
  · exact ⟨rfl, Option.some.inj (htyped.symm.trans htyped')⟩

section
variable {env : Env} {B : Bcrypt} {email password : Text} {role : UserRole} {s s' : Store} {user : User}

/-- The account just created is the one of its address and its identifier, and its
password is verified. -/
theorem created_authenticates (h : Users.create env B email role password s = (.ok user, s')) {env' : Env}
    (hcalls : env'.fails .selectUserByEmail = false ∧ env'.fails .deriveCandidate = false) :
    ∃ found, Authenticates env' B s' email password found ∧ found.id = user.id := by
  obtain ⟨hid, -, -, salt, users, hins, rfl⟩ := createUser_ok h
  obtain ⟨found, hrow, hfid, -, -, hdisabled, hhash, hsalt, hiters⟩ := rowToUser_new (env.newId .user) email role
    (Cng.pbkdf2HmacSha256 B (encode password) salt.val Kdf.pbkdf2MinIterations 32) salt (env.now .userCreated).time
  have hmem : newUserRow (env.newId .user) email role (Cng.pbkdf2HmacSha256 B (encode password) salt.val
      Kdf.pbkdf2MinIterations 32) salt (env.now .userCreated).time ∈ users.rows :=
    (Table.mem_of_insert hins).mpr (.inr rfl)
  refine ⟨found, ⟨hcalls, ⟨_, ?_, hrow⟩, hdisabled, ?_⟩, hfid.trans hid.symm⟩
  · apply Table.find_of_mem hmem (by simp [newUserRow])
    intro r hr hemail
    exact user_of_email hr hmem (of_decide_eq_true hemail)
  · rw [hsalt, hiters, hhash]

theorem authenticates_created (h : Users.create env B email role password s = (.ok user, s')) {env' : Env}
    {email' password' : Text} {found : User} (hauth : Authenticates env' B s' email' password' found)
    (hsame : found.id = user.id) : email' = email := by
  obtain ⟨hid, -, -, salt, users, hins, rfl⟩ := createUser_ok h
  obtain ⟨row, hfind, hrow⟩ := hauth.row
  obtain ⟨hmem, hemail⟩ := Table.find_some hfind
  have hkey : row.id = (env.newId .user).val := by
    rw [← (rowToUser_ok hrow).1, hsame, hid]
  have hnew : newUserRow (env.newId .user) email role (Cng.pbkdf2HmacSha256 B (encode password) salt.val
      Kdf.pbkdf2MinIterations 32) salt (env.now .userCreated).time ∈ users.rows :=
    (Table.mem_of_insert hins).mpr (.inr rfl)
  obtain rfl : row = _ := user_of_id hmem hnew hkey
  exact (of_decide_eq_true hemail).symm

end

section
variable {env : RequestEnv} {site : Site} {headers : HeaderMap} {form : LoginForm} {w w' : World}

theorem loginPost_signed {cookie : Bytes} (h : loginPost env site headers form w =
    (.ok ((Response.redirect "/").withHeader "set-cookie" cookie), w')) :
    ∃ issued, login env site.toApp (loginRequest site headers form) w = (.ok issued, w') := by
  obtain ⟨result, w1, h1, k1⟩ := bind_ok_iff.mp h
  rcases attempt_ok_iff.mp h1 with ⟨issued, rfl, hlogin⟩ | ⟨e, rfl, -⟩
  · obtain ⟨_, w2, h2, k2⟩ := bind_ok_iff.mp k1
    obtain ⟨-, rfl⟩ := orPanic_ok_iff.mp h2
    obtain ⟨-, rfl⟩ := pure_ok_iff.mp k2
    exact ⟨issued, hlogin⟩
  · cases e with
    | invalidCredentials =>
        obtain ⟨hpage, -⟩ := pure_ok_iff.mp k1
        have hstatus : StatusCode.ok = StatusCode.seeOther := congrArg Response.status hpage
        cases hstatus
    | storage e => cases k1
    | crypto e => cases k1
    | audit e => cases k1
    | notFound => cases k1
    | shareUnavailable => cases k1
    | internal e => cases k1

theorem loginPost_of_login {issued : IssuedSession} {raw : Bytes} (hraw : issued.rawToken = urlSafeBase64 raw)
    (h : login env site.toApp (loginRequest site headers form) w = (.ok issued, w')) :
    loginPost env site headers form w = (.ok ((Response.redirect "/").withHeader "set-cookie"
      (encode (buildSessionCookie env.toEnv issued.rawToken issued.session.expiresAt))), w') := by
  have hattempt : (attempt (login env site.toApp (loginRequest site headers form)) :
      Exec World StatusCode (Except ServiceError IssuedSession)) w = (.ok (.ok issued), w') :=
    attempt_ok_iff.mpr (.inl ⟨issued, rfl, h⟩)
  rw [loginPost, bind_ok hattempt]
  dsimp only
  rw [hraw, buildSessionCookie_header]
  rfl

section
variable {host : InitHost} {args : List Text} {m m' : Machine} {email password : Text} {user : User}
  (D : site.serde.Documented) (hinit : run host site.bcrypt args m = (.ok user, m'))
  (hentered : Entered host args email password) (hstore : w.store = m'.store)
include D hinit hentered hstore

theorem normalized_of_yieldsSession (h : YieldsSession env site headers ⟨email, password⟩ w user) :
    normalizeEmail site.caseTables email = email ∧ LoginReady env site w user := by
  obtain ⟨email', password', hentered', hcreate⟩ := run_ok hinit
  obtain ⟨rfl, rfl⟩ := hentered.unique hentered'
  rw [← hstore] at hcreate
  obtain ⟨raw, expiresAt, w', hpost, r, hr, -, huser, hnew⟩ := h
  obtain ⟨issued, hlogin⟩ := loginPost_signed hpost
  obtain ⟨hfree, ⟨found, hauth, hsession⟩, haudits⟩ := (login_ok_iff D).mp ⟨w', hlogin, rfl⟩
  obtain ⟨row, sessions, hins, hdb, hrowUser, -⟩ := createSession_row hsession
  obtain rfl : r = row := by
    rw [hdb] at hr
    exact ((Table.mem_of_insert hins).mp hr).resolve_left fun hold => hnew (List.mem_map_of_mem hold)
  have hsame : found.id = user.id := Subtype.ext (hrowUser.symm.trans huser)
  refine ⟨authenticates_created hcreate hauth hsame, hfree, hauth.calls, ?_, haudits⟩
  exact hsame ▸ opensSession_iff.mp ⟨issued, _, hsession⟩

theorem yieldsSession_of_normalized (hnorm : normalizeEmail site.caseTables email = email)
    (hready : LoginReady env site w user) : YieldsSession env site headers ⟨email, password⟩ w user := by
  obtain ⟨email', password', hentered', hcreate⟩ := run_ok hinit
  obtain ⟨rfl, rfl⟩ := hentered.unique hentered'
  rw [← hstore] at hcreate
  obtain ⟨found, hauth, hsame⟩ := created_authenticates hcreate hready.calls
  obtain ⟨issued, s', hsession⟩ : ∃ issued s', Sessions.create env.toEnv site.bcrypt found.id (clientIp headers)
      (userAgent headers) Sessions.defaultTtlHours w.store = (.ok issued, s') :=
    opensSession_iff.mpr (hsame ▸ hready.session)
  have hauth' : Authenticates env.toEnv site.bcrypt w.store (normalizeEmail site.caseTables email) password
      found := hnorm.symm ▸ hauth
  obtain ⟨w', hlogin, rfl⟩ : ∃ w', login env site.toApp (loginRequest site headers ⟨email, password⟩) w =
      (.ok issued, w') ∧ w'.store = s' :=
    (login_ok_iff D).mpr ⟨hready.free, ⟨found, hauth', hsession⟩, hready.audits⟩
  obtain ⟨row, sessions, hins, hdb, hrowUser, hrowId, -, -, -, raw, hraw⟩ := createSession_row hsession
  refine ⟨issued.rawToken, issued.session.expiresAt, w', loginPost_of_login hraw hlogin, row, ?_, hrowId, ?_,
    (Table.insert_some hins).1 SessionRow.id List.mem_cons_self⟩
  · rw [hdb]
    exact (Table.mem_of_insert hins).mpr (.inr rfl)
  · rw [hrowUser, hsame]

/-- The admin that `init` created signs in with what was entered exactly when the address
is as the form would write it and nothing else stands in the way. -/
theorem bootstrap_login_iff : YieldsSession env site headers ⟨email, password⟩ w user ↔
    normalizeEmail site.caseTables email = email ∧ LoginReady env site w user :=
  ⟨normalized_of_yieldsSession D hinit hentered hstore,
    fun h => yieldsSession_of_normalized D hinit hentered hstore h.1 h.2⟩

end
end

def sampleInit : InitHost where
  toEnv := quietEnv.toEnv
  failsAt _ := false
  kek := some sampleApp.kek
  protect kek := kek.val
  partialKek := none
  typed := none
  typedAgain := none

def samplePassword : Text := "correct horse battery".toList

def sampleArgs (email : Text) : List Text :=
  ["--admin-email".toList, email, "--admin-password".toList, samplePassword]

theorem sampleInit_ready (email : Text) : ∃ user m', run sampleInit sampleSite.bcrypt (sampleArgs email)
    ⟨none, .fresh⟩ = (.ok user, m') ∧ LoginReady quietEnv sampleSite { freshWorld with store := m'.store } user := by
  obtain ⟨user, s', hcreate⟩ : ∃ user s', Users.create quietEnv.toEnv sampleSite.bcrypt email .admin samplePassword
      .fresh = (.ok user, s') :=
    createUser_runs rfl ⟨rfl, rfl⟩ (by simp [Store.fresh, Db.empty]) (by simp [Store.fresh, Db.empty])
  have hparse : parseArgs (sampleArgs email) = .ok (email, some samplePassword) := rfl
  refine ⟨user, _, run_of_create hparse (fun _ => rfl) rfl hcreate, rfl, ⟨rfl, rfl⟩, ?_, rfl, rfl⟩
  obtain ⟨hid, -, -, salt, users, hins, rfl⟩ := createUser_ok hcreate
  refine ⟨⟨rfl, rfl⟩, ?_, rfl, by decide, _, rfl, ?_⟩
  · apply Table.has_of_mem ((Table.mem_of_insert hins).mpr (.inr rfl))
    rw [hid]
    rfl
  · simp [Store.fresh, Db.empty]

theorem bootstrap_login_sample : ∃ user m', run sampleInit sampleSite.bcrypt
    (sampleArgs "admin@example.com".toList) ⟨none, .fresh⟩ = (.ok user, m') ∧
    YieldsSession quietEnv sampleSite [] ⟨"admin@example.com".toList, samplePassword⟩
      { freshWorld with store := m'.store } user := by
  obtain ⟨user, m', hinit, hready⟩ := sampleInit_ready "admin@example.com".toList
  exact ⟨user, m', hinit, (bootstrap_login_iff Audit.SerdeJson.reference_documented hinit (.inl rfl) rfl).mpr
    ⟨by decide, hready⟩⟩

/-- An address typed with capitals is stored as typed, and the form never finds it. -/
theorem capital_address_locked_out : ∃ user m', run sampleInit sampleSite.bcrypt
    (sampleArgs "Admin@Example.com".toList) ⟨none, .fresh⟩ = (.ok user, m') ∧
    LoginReady quietEnv sampleSite { freshWorld with store := m'.store } user ∧
    ¬ YieldsSession quietEnv sampleSite [] ⟨"Admin@Example.com".toList, samplePassword⟩
      { freshWorld with store := m'.store } user := by
  obtain ⟨user, m', hinit, hready⟩ := sampleInit_ready "Admin@Example.com".toList
  refine ⟨user, m', hinit, hready, ?_⟩
  intro hyields
  have hnorm := (normalized_of_yieldsSession Audit.SerdeJson.reference_documented hinit (.inl rfl) rfl hyields).1
  exact absurd hnorm (by decide)

end FipsDropbox.Cli
