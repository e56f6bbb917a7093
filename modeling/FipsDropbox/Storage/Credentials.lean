import FipsDropbox.Storage.Administration
import FipsDropbox.Storage.Shares

/-!
# Bearer credentials

What issuing, looking up and revoking a session or an API token do to their tables.
A lookup only moves the times a row was last seen.
-/
namespace FipsDropbox.Storage
open Utf8 Exec Crypto

def newSessionRow (idHash : Octets 32) (userId : Uuid) (csrfToken : Octets 32) (ip ua : Text)
    (expiresAt now : OffsetDateTime) : SessionRow where
  id := idHash.val
  userId := userId.val
  csrfToken := csrfToken.val
  ip
  userAgent := ua
  expiresAt := dtToMillis expiresAt
  lastSeenAt := dtToMillis now

def newTokenRow (id userId : Uuid) (label : Text) (tokenHash : Octets 32) (now : OffsetDateTime) :
    ApiTokenRow where
  id := id.val
  userId := userId.val
  label
  tokenHash := tokenHash.val
  createdAt := dtToMillis now
  lastSeenAt := none
  revokedAt := none

section
variable {env : Env} {B : Bcrypt}

theorem createSession_ok_iff {userId : Uuid} {ip ua : Text} {ttlHours : ℤ} {s s' : Store}
    {issued : IssuedSession} :
    Sessions.create env B userId ip ua ttlHours s = (.ok issued, s') ↔
      env.fails .hashSession = false ∧ env.fails .insertSession = false ∧
      s.db.users.has UserRow.id userId.val = true ∧
      ∃ raw csrfToken expiresAt sessions, env.random .sessionToken 32 = some raw ∧
        env.random .csrfToken 32 = some csrfToken ∧
        (env.now .sessionCreated).time.add (ttlHours * Sessions.nanosPerHour) = some expiresAt ∧
        s.db.sessions.insert (newSessionRow (Cng.sha256 B (encode (urlSafeBase64 raw.val))) userId csrfToken
          ip ua expiresAt (env.now .sessionCreated).time) = some sessions ∧
        issued = ⟨⟨Cng.sha256 B (encode (urlSafeBase64 raw.val)), userId, csrfToken, ip, ua, expiresAt,
          (env.now .sessionCreated).time⟩, urlSafeBase64 raw.val⟩ ∧
        s' = { s with db := { s.db with sessions } } := by
  simp only [Sessions.create, Rand.bytes, bind_ok_iff, adapt_ok_iff, orErr_ok_iff, sha256_ok_iff,
    orPanic_ok_iff, execute_ok_iff, pure_ok_iff]
  constructor
  · rintro ⟨raw, _, ⟨hraw, rfl⟩, _, _, ⟨hh, rfl, rfl⟩, csrfToken, _, ⟨hcsrf, rfl⟩, expiresAt, _,
      ⟨hexpiry, rfl⟩, n, _, ⟨hins, db, hdb, rfl⟩, rfl, rfl⟩
    obtain ⟨huser, -, sessions, hsessions, rfl⟩ := insert_some_iff.mp hdb
    exact ⟨hh, hins, huser, raw, csrfToken, expiresAt, sessions, hraw, hcsrf, hexpiry, hsessions, rfl, rfl⟩
  · rintro ⟨hh, hins, huser, raw, csrfToken, expiresAt, sessions, hraw, hcsrf, hexpiry, hsessions, rfl, rfl⟩
    exact ⟨raw, s, ⟨hraw, rfl⟩, _, s, ⟨hh, rfl, rfl⟩, csrfToken, s, ⟨hcsrf, rfl⟩, expiresAt, s, ⟨hexpiry, rfl⟩,
      1, _, ⟨hins, _, insert_some_iff.mpr ⟨huser, rfl, sessions, hsessions, rfl⟩, rfl⟩, rfl, rfl⟩

theorem createApiToken_ok_iff {userId : Uuid} {label : Text} {s s' : Store} {issued : IssuedApiToken} :
    ApiTokens.create env B userId label s = (.ok issued, s') ↔
      env.fails .hashApiToken = false ∧ env.fails .insertApiToken = false ∧
      s.db.users.has UserRow.id userId.val = true ∧
      ∃ raw apiTokens, env.random .apiToken 32 = some raw ∧
        s.db.apiTokens.insert (newTokenRow (env.newId .apiToken) userId label
          (Cng.sha256 B (encode (tokenPrefix ++ urlSafeBase64 raw.val))) (env.now .apiTokenCreated).time) =
            some apiTokens ∧
        issued = ⟨⟨env.newId .apiToken, userId, label,
          Cng.sha256 B (encode (tokenPrefix ++ urlSafeBase64 raw.val)), (env.now .apiTokenCreated).time,
          none, none⟩, tokenPrefix ++ urlSafeBase64 raw.val⟩ ∧
        s' = { s with db := { s.db with apiTokens } } := by
  simp only [ApiTokens.create, Rand.bytes, bind_ok_iff, adapt_ok_iff, orErr_ok_iff, sha256_ok_iff,
    execute_ok_iff, pure_ok_iff]
  constructor
  · rintro ⟨raw, _, ⟨hraw, rfl⟩, _, _, ⟨hh, rfl, rfl⟩, n, _, ⟨hins, db, hdb, rfl⟩, rfl, rfl⟩
    obtain ⟨huser, -, apiTokens, htokens, rfl⟩ := insert_some_iff.mp hdb
    exact ⟨hh, hins, huser, raw, apiTokens, hraw, htokens, rfl, rfl⟩
  · rintro ⟨hh, hins, huser, raw, apiTokens, hraw, htokens, rfl, rfl⟩
    exact ⟨raw, s, ⟨hraw, rfl⟩, _, s, ⟨hh, rfl, rfl⟩, 1, _,
      ⟨hins, _, insert_some_iff.mpr ⟨huser, rfl, apiTokens, htokens, rfl⟩, rfl⟩, rfl, rfl⟩

structure OpensSession (env : Env) (B : Bcrypt) (s : Store) (userId : Uuid) (ttlHours : ℤ) : Prop where
  calls : env.fails .hashSession = false ∧ env.fails .insertSession = false
  user : s.db.users.has UserRow.id userId.val = true
  csrf : (env.random .csrfToken 32).isSome = true
  expiry : ((env.now .sessionCreated).time.add (ttlHours * Sessions.nanosPerHour)).isSome = true
  token : ∃ raw, env.random .sessionToken 32 = some raw ∧
    (Cng.sha256 B (encode (urlSafeBase64 raw.val))).val ∉ s.db.sessions.rows.map SessionRow.id

theorem opensSession_iff {userId : Uuid} {ip ua : Text} {ttlHours : ℤ} {s : Store} :
    (∃ issued s', Sessions.create env B userId ip ua ttlHours s = (.ok issued, s')) ↔
      OpensSession env B s userId ttlHours := by
  simp only [createSession_ok_iff]
  constructor
  · rintro ⟨_, _, hh, hins, huser, raw, csrfToken, expiresAt, sessions, hraw, hcsrf, hexpiry, hsessions, -⟩
    have hfresh := (Table.insert_some hsessions).1 SessionRow.id List.mem_cons_self
    exact ⟨⟨hh, hins⟩, huser, by simp [hcsrf], by simp [hexpiry], raw, hraw, hfresh⟩
  · rintro ⟨⟨hh, hins⟩, huser, hcsrf, hexpiry, raw, hraw, hfresh⟩
    obtain ⟨csrfToken, hcsrf⟩ := Option.isSome_iff_exists.mp hcsrf
    obtain ⟨expiresAt, hexpiry⟩ := Option.isSome_iff_exists.mp hexpiry
    obtain ⟨sessions, hsessions⟩ : ∃ sessions, s.db.sessions.insert (newSessionRow
        (Cng.sha256 B (encode (urlSafeBase64 raw.val))) userId csrfToken ip ua expiresAt
        (env.now .sessionCreated).time) = some sessions := by
      apply Table.exists_insert
      intro key hkey
      obtain rfl := List.mem_singleton.mp hkey
      exact hfresh
    exact ⟨_, _, hh, hins, huser, raw, csrfToken, expiresAt, sessions, hraw, hcsrf, hexpiry, hsessions, rfl, rfl⟩

/-- One row more, or nothing. -/
theorem createSession_cases (env : Env) (B : Bcrypt) (userId : Uuid) (ip ua : Text) (ttlHours : ℤ) (s : Store) :
    (OpensSession env B s userId ttlHours ∧ ∃ issued sessions,
      sessions.rows.length = s.db.sessions.rows.length + 1 ∧
      Sessions.create env B userId ip ua ttlHours s = (.ok issued, { s with db := { s.db with sessions } })) ∨
    (¬ OpensSession env B s userId ttlHours ∧ (∀ issued, (Sessions.create env B userId ip ua ttlHours s).1 ≠
      .ok issued) ∧ (Sessions.create env B userId ip ua ttlHours s).2 = s) := by
  have F : Frame (Stays : Store → Store → Prop) := stays_frame
  have hatomic : Atomic (Sessions.create env B userId ip ua ttlHours) :=
    atomic_bind (moves_adapt (moves_random F _ _)) fun _ => atomic_bind (moves_adapt (moves_sha256 F _ _)) fun _ =>
    atomic_bind (moves_adapt (moves_random F _ _)) fun _ => atomic_bind (F.orPanic _) fun _ =>
    atomic_map (atomic_execute _ _) _
  by_cases h : ∃ issued s', Sessions.create env B userId ip ua ttlHours s = (.ok issued, s')
  · refine .inl ⟨opensSession_iff.mp h, ?_⟩
    obtain ⟨issued, s', hrun⟩ := h
    obtain ⟨-, -, -, raw, csrfToken, expiresAt, sessions, -, -, -, hsessions, -, rfl⟩ :=
      createSession_ok_iff.mp hrun
    exact ⟨issued, sessions, by simp [(Table.insert_some hsessions).2], hrun⟩
  · have hno : ∀ issued, (Sessions.create env B userId ip ua ttlHours s).1 ≠ .ok issued :=
      fun issued hok => h ⟨issued, _, Prod.ext hok rfl⟩
    exact .inr ⟨fun hopen => h (opensSession_iff.mpr hopen), hno, hatomic s hno⟩

theorem createSession_row {userId : Uuid} {ip ua : Text} {ttlHours : ℤ} {s s' : Store} {issued : IssuedSession}
    (h : Sessions.create env B userId ip ua ttlHours s = (.ok issued, s')) :
    ∃ r sessions, s.db.sessions.insert r = some sessions ∧ s' = { s with db := { s.db with sessions } } ∧
      r.userId = userId.val ∧ r.id = (Cng.sha256 B (encode issued.rawToken)).val ∧ r.csrfToken.length = 32 ∧
      r.expiresAt = dtToMillis issued.session.expiresAt ∧ s.db.users.has UserRow.id userId.val = true ∧
      ∃ raw, issued.rawToken = urlSafeBase64 raw := by
  obtain ⟨-, -, huser, raw, csrfToken, expiresAt, sessions, -, -, -, hins, rfl, rfl⟩ := createSession_ok_iff.mp h
  exact ⟨_, sessions, hins, rfl, rfl, rfl, csrfToken.property, rfl, huser, raw.val, rfl⟩

theorem createApiToken_row {userId : Uuid} {label : Text} {s s' : Store} {issued : IssuedApiToken}
    (h : ApiTokens.create env B userId label s = (.ok issued, s')) :
    ∃ r apiTokens, s.db.apiTokens.insert r = some apiTokens ∧ s' = { s with db := { s.db with apiTokens } } ∧
      r.userId = userId.val ∧ r.id = issued.token.id.val ∧
      r.tokenHash = (Cng.sha256 B (encode issued.rawToken)).val ∧ r.revokedAt = none ∧
      s.db.users.has UserRow.id userId.val = true ∧ tokenPrefix <+: issued.rawToken := by
  obtain ⟨-, -, huser, raw, apiTokens, -, hins, rfl, rfl⟩ := createApiToken_ok_iff.mp h
  exact ⟨_, apiTokens, hins, rfl, rfl, rfl, rfl, rfl, huser, List.prefix_append _ _⟩

structure MintsToken (env : Env) (B : Bcrypt) (s : Store) (userId : Uuid) : Prop where
  calls : env.fails .hashApiToken = false ∧ env.fails .insertApiToken = false
  user : s.db.users.has UserRow.id userId.val = true
  id : (env.newId .apiToken).val ∉ s.db.apiTokens.rows.map ApiTokenRow.id
  token : ∃ raw, env.random .apiToken 32 = some raw ∧
    (Cng.sha256 B (encode (tokenPrefix ++ urlSafeBase64 raw.val))).val ∉
      s.db.apiTokens.rows.map ApiTokenRow.tokenHash

theorem mintsToken_iff {userId : Uuid} {label : Text} {s : Store} :
    (∃ issued s', ApiTokens.create env B userId label s = (.ok issued, s')) ↔ MintsToken env B s userId := by
  simp only [createApiToken_ok_iff]
  constructor
  · rintro ⟨_, _, hh, hins, huser, raw, apiTokens, hraw, htokens, -⟩
    have hfresh := (Table.insert_some htokens).1
    exact ⟨⟨hh, hins⟩, huser, hfresh ApiTokenRow.id (by simp), raw, hraw, hfresh ApiTokenRow.tokenHash (by simp)⟩
  · rintro ⟨⟨hh, hins⟩, huser, hid, raw, hraw, hhash⟩
    obtain ⟨apiTokens, htokens⟩ : ∃ apiTokens, s.db.apiTokens.insert (newTokenRow (env.newId .apiToken) userId
        label (Cng.sha256 B (encode (tokenPrefix ++ urlSafeBase64 raw.val))) (env.now .apiTokenCreated).time) =
          some apiTokens := by
      apply Table.exists_insert
      intro key hkey
      rcases List.mem_pair.mp hkey with rfl | rfl
      · exact hid
      · exact hhash
    exact ⟨_, _, hh, hins, huser, raw, apiTokens, hraw, htokens, rfl, rfl⟩

theorem createApiToken_cases (env : Env) (B : Bcrypt) (userId : Uuid) (label : Text) (s : Store) :
    (MintsToken env B s userId ∧ ∃ issued apiTokens,
      apiTokens.rows.length = s.db.apiTokens.rows.length + 1 ∧
      ApiTokens.create env B userId label s = (.ok issued, { s with db := { s.db with apiTokens } })) ∨
    (¬ MintsToken env B s userId ∧ (∀ issued, (ApiTokens.create env B userId label s).1 ≠ .ok issued) ∧
      (ApiTokens.create env B userId label s).2 = s) := by
  have F : Frame (Stays : Store → Store → Prop) := stays_frame
  have hatomic : Atomic (ApiTokens.create env B userId label) :=
    atomic_bind (moves_adapt (moves_random F _ _)) fun _ => atomic_bind (moves_adapt (moves_sha256 F _ _)) fun _ =>
    atomic_map (atomic_execute _ _) _
  by_cases h : ∃ issued s', ApiTokens.create env B userId label s = (.ok issued, s')
  · refine .inl ⟨mintsToken_iff.mp h, ?_⟩
    obtain ⟨issued, s', hrun⟩ := h
    obtain ⟨-, -, -, raw, apiTokens, -, htokens, -, rfl⟩ := createApiToken_ok_iff.mp hrun
    exact ⟨issued, apiTokens, by simp [(Table.insert_some htokens).2], hrun⟩
  · have hno : ∀ issued, (ApiTokens.create env B userId label s).1 ≠ .ok issued :=
      fun issued hok => h ⟨issued, _, Prod.ext hok rfl⟩
    exact .inr ⟨fun hmint => h (mintsToken_iff.mpr hmint), hno, hatomic s hno⟩

/-- The row without the time it was last seen. -/
def SessionRow.lasting (r : SessionRow) : SessionRow := { r with lastSeenAt := 0 }
def ApiTokenRow.lasting (r : ApiTokenRow) : ApiTokenRow := { r with lastSeenAt := none }

/-- At most the times that sessions and tokens were last seen have moved. -/
structure SeenOnly (s t : Store) : Prop where
  users : t.db.users = s.db.users
  vendors : t.db.vendors = s.db.vendors
  prints : t.db.prints = s.db.prints
  shares : t.db.shares = s.db.shares
  blobs : t.blobs = s.blobs
  sessions : t.db.sessions.rows.map SessionRow.lasting = s.db.sessions.rows.map SessionRow.lasting
  tokens : t.db.apiTokens.rows.map ApiTokenRow.lasting = s.db.apiTokens.rows.map ApiTokenRow.lasting

theorem seenOnly_frame : Frame SeenOnly where
  refl _ := ⟨rfl, rfl, rfl, rfl, rfl, rfl, rfl⟩
  trans h h' := ⟨h'.users.trans h.users, h'.vendors.trans h.vendors, h'.prints.trans h.prints,
    h'.shares.trans h.shares, h'.blobs.trans h.blobs, h'.sessions.trans h.sessions, h'.tokens.trans h.tokens⟩

theorem touchSession_seenOnly {id : Bytes} {now : ℤ} {s : Store} {n : ℕ} {db : Db}
    (h : Db.touchSession id now s.db = some (n, db)) : SeenOnly s { s with db } := by
  cases h
  refine ⟨rfl, rfl, rfl, rfl, rfl, ?_, rfl⟩
  rw [Table.update_rows, List.map_map]
  apply List.map_congr_left
  intro r _
  by_cases hid : r.id = id <;> simp [hid, SessionRow.lasting]

theorem touchApiToken_seenOnly {id : Bytes} {now : ℤ} {s : Store} {n : ℕ} {db : Db}
    (h : Db.touchApiToken id now s.db = some (n, db)) : SeenOnly s { s with db } := by
  cases h
  refine ⟨rfl, rfl, rfl, rfl, rfl, rfl, ?_⟩
  rw [Table.update_rows, List.map_map]
  apply List.map_congr_left
  intro r _
  by_cases hid : r.id = id <;> simp [hid, ApiTokenRow.lasting]

/-- A lookup that marks the row it finds: it finds the row, or none, or fails without
effect. -/
theorem queryTouch_cases {ρ α : Type} {c c' : Call} {q : Db → Option ρ} {decode : ρ → Except SqliteError α}
    {touch : α → Db → Option (ℕ × Db)} {k : Option α → Exec Store StorageError (Option α)}
    (hnone : k none = pure none)
    (hsome : ∀ a, k (some a) = execute env c' (touch a) >>= fun _ => pure (some a))
    (htouch : ∀ a s, ∃ n db, touch a s.db = some (n, db) ∧ SeenOnly s { s with db }) (s : Store) :
    ((env.fails c = false ∧ ∀ r, q s.db = some r → (∃ a, decode r = .ok a) ∧ env.fails c' = false) ∧
      ∃ t, SeenOnly s t ∧ ((q s.db = none ∧ (queryRow env c q decode >>= k) s = (.ok none, t)) ∨
        ∃ r a, q s.db = some r ∧ decode r = .ok a ∧ (queryRow env c q decode >>= k) s = (.ok (some a), t))) ∨
    (¬ (env.fails c = false ∧ ∀ r, q s.db = some r → (∃ a, decode r = .ok a) ∧ env.fails c' = false) ∧
      ∃ e, (queryRow env c q decode >>= k) s = (.err e, s)) := by
  rcases queryRow_cases env c q decode s with
    ⟨hq, hrow, hrun⟩ | ⟨r, a, hq, hrow, ha, hrun⟩ | ⟨e, hrun, hcause⟩
  · refine .inl ⟨⟨hq, ?_⟩, s, seenOnly_frame.refl s, .inl ⟨hrow, ?_⟩⟩
    · intro r hr
      cases hrow.symm.trans hr
    · rw [bind_ok hrun, hnone]
      rfl
  · rw [bind_ok hrun, hsome]
    obtain ⟨n, db, hdb, hseen⟩ := htouch a s
    rcases execute_cases env c' (touch a) s with ⟨e, he, hcause⟩ | ⟨n', db', hu, hdb', he⟩
    · refine .inr ⟨?_, _, bind_err he _⟩
      intro h
      rcases hcause with hf | hno
      · rw [(h.2 r hrow).2] at hf
        cases hf
      · cases hno.symm.trans hdb
    · cases hdb.symm.trans hdb'
      refine .inl ⟨⟨hq, ?_⟩, _, hseen, .inr ⟨r, a, hrow, ha, bind_ok he _⟩⟩
      intro r' hr'
      obtain rfl := Option.some.inj (hrow.symm.trans hr')
      exact ⟨⟨a, ha⟩, hu⟩
  · refine .inr ⟨?_, e, bind_err hrun _⟩
    intro h
    rcases hcause with hf | ⟨r, e', hrow, he'⟩
    · rw [h.1] at hf
      cases hf
    · obtain ⟨⟨a, ha⟩, -⟩ := h.2 r hrow
      cases ha.symm.trans he'

def liveSession (env : Env) (B : Bcrypt) (s : Store) (rawToken : Text) : Option SessionRow :=
  s.db.sessions.find fun r => r.id = (Cng.sha256 B (encode rawToken)).val &&
    dtToMillis (env.now .sessionLookup).time < r.expiresAt

structure FindsSession (env : Env) (B : Bcrypt) (s : Store) (rawToken : Text) : Prop where
  calls : env.fails .hashSessionLookup = false ∧ env.fails .selectSession = false
  row : ∀ r, liveSession env B s rawToken = some r →
    (∃ sess, rowToSession r = .ok sess) ∧ env.fails .updateSession = false

theorem rowToSession_ok {r : SessionRow} {sess : Session} (h : rowToSession r = .ok sess) :
    sess.idHash.val = r.id ∧ sess.userId.val = r.userId ∧ sess.expiresAt = millisToDt r.expiresAt := by
  obtain ⟨idHash, h1, h⟩ := of_except_bind h
  obtain ⟨userId, h2, h⟩ := of_except_bind h
  obtain ⟨csrfToken, -, h⟩ := of_except_bind h
  cases h
  exact ⟨of_octetsFrom_ok h1, of_uuidFrom_ok h2, rfl⟩

/-- A session lookup finds the live row, or none, or fails without effect. -/
theorem findValidSession_cases (env : Env) (B : Bcrypt) (rawToken : Text) (s : Store) :
    (FindsSession env B s rawToken ∧ ∃ t, SeenOnly s t ∧
      ((liveSession env B s rawToken = none ∧ Sessions.findValid env B rawToken s = (.ok none, t)) ∨
        ∃ r sess, liveSession env B s rawToken = some r ∧ rowToSession r = .ok sess ∧
          Sessions.findValid env B rawToken s = (.ok (some sess), t))) ∨
    (¬ FindsSession env B s rawToken ∧ ∃ e, Sessions.findValid env B rawToken s = (.err e, s)) := by
  rcases adapt_sha256_cases env B StorageError.crypto .hashSessionLookup (encode rawToken) s with
    ⟨hh, hsha⟩ | ⟨hh, hsha⟩
  · rw [Sessions.findValid, bind_ok hsha]
    have hfinds : FindsSession env B s rawToken ↔ env.fails .selectSession = false ∧
        ∀ r, liveSession env B s rawToken = some r →
          (∃ sess, rowToSession r = .ok sess) ∧ env.fails .updateSession = false :=
      ⟨fun h => ⟨h.calls.2, h.row⟩, fun h => ⟨⟨hh, h.1⟩, h.2⟩⟩
    have htouch : ∀ (sess : Session) (s : Store), ∃ n db, Db.touchSession sess.idHash.val
        (dtToMillis (env.now .sessionLookup).time) s.db = some (n, db) ∧ SeenOnly s { s with db } :=
      fun sess s => ⟨_, _, rfl, touchSession_seenOnly rfl⟩
    rw [hfinds]
    refine queryTouch_cases (q := fun db => db.sessions.find fun r =>
      r.id = (Cng.sha256 B (encode rawToken)).val &&
        dtToMillis (env.now .sessionLookup).time < r.expiresAt) ?_ ?_ htouch s
    · rfl
    · intro sess
      rfl
  · refine .inr ⟨?_, _, bind_err hsha _⟩
    intro h
    rw [h.calls.1] at hh
    cases hh

def liveToken (B : Bcrypt) (s : Store) (rawToken : Text) : Option ApiTokenRow :=
  s.db.apiTokens.find fun r => r.tokenHash = (Cng.sha256 B (encode rawToken)).val && r.revokedAt.isNone

structure FindsToken (env : Env) (B : Bcrypt) (s : Store) (rawToken : Text) : Prop where
  calls : env.fails .hashApiTokenLookup = false ∧ env.fails .selectApiToken = false
  row : ∀ r, liveToken B s rawToken = some r →
    (∃ token, rowToToken r = .ok token) ∧ env.fails .updateApiToken = false

theorem rowToToken_ok {r : ApiTokenRow} {token : ApiToken} (h : rowToToken r = .ok token) :
    token.id.val = r.id ∧ token.userId.val = r.userId ∧ token.tokenHash.val = r.tokenHash := by
  obtain ⟨id, h1, h⟩ := of_except_bind h
  obtain ⟨userId, h2, h⟩ := of_except_bind h
  obtain ⟨tokenHash, h3, h⟩ := of_except_bind h
  cases h
  exact ⟨of_uuidFrom_ok h1, of_uuidFrom_ok h2, of_octetsFrom_ok h3⟩

/-- A token lookup stops at the prefix, finds the live row or none, or fails without
effect. -/
theorem findValidByRaw_cases (env : Env) (B : Bcrypt) (rawToken : Text) (s : Store) :
    (tokenPrefix.isPrefixOf rawToken = false ∧ ApiTokens.findValidByRaw env B rawToken s = (.ok none, s)) ∨
    (tokenPrefix.isPrefixOf rawToken = true ∧ FindsToken env B s rawToken ∧ ∃ t, SeenOnly s t ∧
      ((liveToken B s rawToken = none ∧ ApiTokens.findValidByRaw env B rawToken s = (.ok none, t)) ∨
        ∃ r token, liveToken B s rawToken = some r ∧ rowToToken r = .ok token ∧
          ApiTokens.findValidByRaw env B rawToken s = (.ok (some token), t))) ∨
    (tokenPrefix.isPrefixOf rawToken = true ∧ ¬ FindsToken env B s rawToken ∧
      ∃ e, ApiTokens.findValidByRaw env B rawToken s = (.err e, s)) := by
  cases hp : tokenPrefix.isPrefixOf rawToken with
  | false => exact .inl ⟨rfl, by simp [ApiTokens.findValidByRaw, hp]⟩
  | true =>
      refine .inr ?_
      simp only [true_and]
      rw [ApiTokens.findValidByRaw, hp, Bool.not_true, if_neg Bool.false_ne_true]
      rcases adapt_sha256_cases env B StorageError.crypto .hashApiTokenLookup (encode rawToken) s with
        ⟨hh, hsha⟩ | ⟨hh, hsha⟩
      · rw [bind_ok hsha]
        have hfinds : FindsToken env B s rawToken ↔ env.fails .selectApiToken = false ∧
            ∀ r, liveToken B s rawToken = some r →
              (∃ token, rowToToken r = .ok token) ∧ env.fails .updateApiToken = false :=
          ⟨fun h => ⟨h.calls.2, h.row⟩, fun h => ⟨⟨hh, h.1⟩, h.2⟩⟩
        have htouch : ∀ (token : ApiToken) (s : Store), ∃ n db, Db.touchApiToken token.id.val
            (dtToMillis (env.now .apiTokenLookup).time) s.db = some (n, db) ∧ SeenOnly s { s with db } :=
          fun token s => ⟨_, _, rfl, touchApiToken_seenOnly rfl⟩
        rw [hfinds]
        refine queryTouch_cases (q := fun db => db.apiTokens.find fun r =>
          r.tokenHash = (Cng.sha256 B (encode rawToken)).val && r.revokedAt.isNone) ?_ ?_ htouch s
        · rfl
        · intro token
          rfl
      · refine .inr ⟨?_, _, bind_err hsha _⟩
        intro h
        rw [h.calls.1] at hh
        cases hh

/-- The password is that of the enabled account of the address, and checking it does
not fail. -/
structure Authenticates (env : Env) (B : Bcrypt) (s : Store) (email password : Text) (user : User) : Prop where
  calls : env.fails .selectUserByEmail = false ∧ env.fails .deriveCandidate = false
  row : ∃ row, s.db.users.find (fun r => r.email = email) = some row ∧ rowToUser row = .ok user
  enabled : user.disabledAt = none
  password : (Cng.pbkdf2HmacSha256 B (encode password) user.passwordSalt user.passwordIters.toNat 32).val =
    user.passwordHash

theorem deriveKey_ok_iff {σ : Type} {c : Call} {password : Text} {salt : Bytes} {iterations : ℕ} {s t : σ}
    {key : Octets 32} :
    Kdf.deriveKeyFromPassword env B c password salt iterations s = (.ok key, t) ↔
      env.fails c = false ∧ Cng.pbkdf2HmacSha256 B (encode password) salt iterations 32 = key ∧ s = t := by
  simp only [Kdf.deriveKeyFromPassword, bind_ok_iff, check_ok_iff, pure_ok_iff]
  constructor
  · rintro ⟨_, _, ⟨hc, rfl⟩, hkey⟩
    exact ⟨hc, hkey⟩
  · rintro ⟨hc, hkey⟩
    exact ⟨(), s, ⟨hc, rfl⟩, hkey⟩

theorem queryRow_some_iff {ρ α : Type} {c : Call} {row : Db → Option ρ} {decode : ρ → Except SqliteError α}
    {s t : Store} {a : α} :
    queryRow env c row decode s = (.ok (some a), t) ↔
      env.fails c = false ∧ (∃ r, row s.db = some r ∧ decode r = .ok a) ∧ s = t := by
  rcases queryRow_cases env c row decode s with ⟨hq, hnone, hrun⟩ | ⟨r, b, hq, hrow, hb, hrun⟩ | ⟨e, hrun, hcause⟩
  · simp [hrun, hnone]
  · simp [hrun, hq, hrow, hb]
  · rw [hrun]
    refine iff_of_false (by simp) ?_
    rintro ⟨hq, ⟨r, hr, ha⟩, -⟩
    rcases hcause with hf | ⟨r', e', hr', he'⟩
    · rw [hq] at hf
      cases hf
    · obtain rfl := Option.some.inj (hr.symm.trans hr')
      cases ha.symm.trans he'

theorem verifyPassword_some_iff {email password : Text} {s t : Store} {user : User} :
    Users.verifyPassword env B email password s = (.ok (some user), t) ↔
      Authenticates env B s email password user ∧ s = t := by
  simp only [Users.verifyPassword, bind_ok_iff]
  constructor
  · rintro ⟨found, s1, h1, k1⟩
    cases found with
    | none =>
        obtain ⟨_, s2, -, k2⟩ := bind_ok_iff.mp k1
        cases k2
    | some found =>
        obtain ⟨hq, hrow, rfl⟩ := queryRow_some_iff.mp h1
        by_cases hd : found.disabledAt.isSome = true
        · simp [hd] at k1
        · simp only [hd, Bool.false_eq_true, if_false] at k1
          obtain ⟨key, s2, h2, k2⟩ := bind_ok_iff.mp k1
          obtain ⟨hc, rfl, rfl⟩ := deriveKey_ok_iff.mp (adapt_ok_iff.mp h2)
          obtain ⟨hout, rfl⟩ := pure_ok_iff.mp k2
          split_ifs at hout with hkey
          cases hout
          exact ⟨⟨⟨hq, hc⟩, hrow, by simpa using hd, (constantTimeEq_iff _ _).mp hkey⟩, rfl⟩
  · rintro ⟨h, rfl⟩
    refine ⟨some user, s, queryRow_some_iff.mpr ⟨h.calls.1, h.row, rfl⟩, ?_⟩
    simp only [h.enabled, Option.isSome_none, Bool.false_eq_true, if_false, bind_ok_iff, adapt_ok_iff,
      deriveKey_ok_iff]
    exact ⟨_, s, ⟨h.calls.2, rfl, rfl⟩, by rw [if_pos ((constantTimeEq_iff _ _).mpr h.password)]; rfl⟩

/-- A session revocation deletes the row, or fails without effect. -/
theorem revokeSession_cases (env : Env) (B : Bcrypt) (rawToken : Text) (s : Store) :
    ((env.fails .hashSessionRevoke = false ∧ env.fails .deleteSession = false) ∧
      Sessions.revoke env B rawToken s = (.ok (), { s with db := { s.db with
        sessions := (s.db.sessions.delete fun r => r.id = (Cng.sha256 B (encode rawToken)).val).2 } })) ∨
    (¬ (env.fails .hashSessionRevoke = false ∧ env.fails .deleteSession = false) ∧
      ∃ e, Sessions.revoke env B rawToken s = (.err e, s)) := by
  rcases adapt_sha256_cases env B StorageError.crypto .hashSessionRevoke (encode rawToken) s with
    ⟨hh, hsha⟩ | ⟨hh, hsha⟩
  · rw [Sessions.revoke, bind_ok hsha]
    rcases execute_cases env .deleteSession (Db.deleteSession (Cng.sha256 B (encode rawToken)).val) s with
      ⟨e, he, hcause⟩ | ⟨n, db, hq, hdb, he⟩
    · refine .inr ⟨?_, _, bind_err he _⟩
      rintro ⟨-, hd⟩
      rcases hcause with hf | hno
      · rw [hd] at hf
        cases hf
      · cases hno
    · cases hdb
      exact .inl ⟨⟨hh, hq⟩, bind_ok he _⟩
  · refine .inr ⟨?_, _, bind_err hsha _⟩
    rintro ⟨hfalse, -⟩
    rw [hfalse] at hh
    cases hh

/-- What it takes for an update of one unrevoked row to count. -/
theorem exists_unrevoked_iff {α : Type} {rows : List α} {id : Bytes} {key : α → Bytes} {f : α → Option ℤ} :
    (∃ r ∈ rows, (key r = id && (f r).isNone) = true) ↔ ∃ r ∈ rows, key r = id ∧ f r = none := by
  simp

theorem revokeShare_cases (env : Env) (id : Uuid) (s : Store) :
    ((env.fails .updateShareRevoked = false ∧ ∃ r ∈ s.db.shares.rows, r.id = id.val ∧ r.revokedAt = none) ∧
      Shares.revoke env id s = (.ok (), { s with db := { s.db with
        shares := (s.db.shares.update (fun r => r.id = id.val && r.revokedAt.isNone)
          (ShareRow.revoked (dtToMillis (env.now .shareRevoked).time))
          (ShareRow.revoked_keys (dtToMillis (env.now .shareRevoked).time))).2 } })) ∨
    (¬ (env.fails .updateShareRevoked = false ∧ ∃ r ∈ s.db.shares.rows, r.id = id.val ∧ r.revokedAt = none) ∧
      ∃ e, Shares.revoke env id s = (.err e, s)) := by
  rw [← exists_unrevoked_iff]
  exact affecting_update_cases (k := fun shares => { s.db with shares }) rfl rfl

def ApiTokenRow.revoked (now : ℤ) (r : ApiTokenRow) : ApiTokenRow := { r with revokedAt := some now }

theorem ApiTokenRow.revoked_keys (now : ℤ) :
    ∀ key ∈ [ApiTokenRow.id, ApiTokenRow.tokenHash], ∀ r, key (revoked now r) = key r := by
  intro key hkey r
  rcases List.mem_pair.mp hkey with rfl | rfl <;> rfl

theorem revokeApiToken_cases (env : Env) (id : Uuid) (s : Store) :
    ((env.fails .updateApiTokenRevoked = false ∧
        ∃ r ∈ s.db.apiTokens.rows, r.id = id.val ∧ r.revokedAt = none) ∧
      ApiTokens.revoke env id s = (.ok (), { s with db := { s.db with
        apiTokens := (s.db.apiTokens.update (fun r => r.id = id.val && r.revokedAt.isNone)
          (ApiTokenRow.revoked (dtToMillis (env.now .apiTokenRevoked).time))
          (ApiTokenRow.revoked_keys (dtToMillis (env.now .apiTokenRevoked).time))).2 } })) ∨
    (¬ (env.fails .updateApiTokenRevoked = false ∧
        ∃ r ∈ s.db.apiTokens.rows, r.id = id.val ∧ r.revokedAt = none) ∧
      ∃ e, ApiTokens.revoke env id s = (.err e, s)) := by
  rw [← exists_unrevoked_iff]
  exact affecting_update_cases (k := fun apiTokens => { s.db with apiTokens }) rfl rfl

theorem disableUser_cases (env : Env) (id : Uuid) (s : Store) :
    ((env.fails .updateUserDisabled = false ∧ ∃ r ∈ s.db.users.rows, r.id = id.val ∧ r.disabledAt = none) ∧
      Users.disable env id s = (.ok (), { s with db := { s.db with
        users := (s.db.users.update (fun r => r.id = id.val && r.disabledAt.isNone)
          (UserRow.withDisabledAt (some (dtToMillis (env.now .userDisabled).time)))
          (UserRow.withDisabledAt_keys (some (dtToMillis (env.now .userDisabled).time)))).2 } })) ∨
    (¬ (env.fails .updateUserDisabled = false ∧ ∃ r ∈ s.db.users.rows, r.id = id.val ∧ r.disabledAt = none) ∧
      ∃ e, Users.disable env id s = (.err e, s)) := by
  rw [← exists_unrevoked_iff]
  exact affecting_update_cases (k := fun users => { s.db with users }) rfl rfl

theorem disableVendor_cases (env : Env) (id : Uuid) (s : Store) :
    ((env.fails .updateVendorDisabled = false ∧
        ∃ r ∈ s.db.vendors.rows, r.id = id.val ∧ r.disabledAt = none) ∧
      Vendors.disable env id s = (.ok (), { s with db := { s.db with
        vendors := (s.db.vendors.update (fun r => r.id = id.val && r.disabledAt.isNone)
          (VendorRow.disabled (dtToMillis (env.now .vendorDisabled).time))
          (VendorRow.disabled_keys (dtToMillis (env.now .vendorDisabled).time))).2 } })) ∨
    (¬ (env.fails .updateVendorDisabled = false ∧
        ∃ r ∈ s.db.vendors.rows, r.id = id.val ∧ r.disabledAt = none) ∧
      ∃ e, Vendors.disable env id s = (.err e, s)) := by
  rw [← exists_unrevoked_iff]
  exact affecting_update_cases (k := fun vendors => { s.db with vendors }) rfl rfl

theorem enableUser_cases (env : Env) (id : Uuid) (s : Store) :
    ((env.fails .updateUserEnabled = false ∧ ∃ r ∈ s.db.users.rows, r.id = id.val) ∧
      Users.enable env id s = (.ok (), { s with db := { s.db with
        users := (s.db.users.update (fun r => r.id = id.val) (UserRow.withDisabledAt none)
          (UserRow.withDisabledAt_keys none)).2 } })) ∨
    (¬ (env.fails .updateUserEnabled = false ∧ ∃ r ∈ s.db.users.rows, r.id = id.val) ∧
      ∃ e, Users.enable env id s = (.err e, s)) := by
  have hiff : (∃ r ∈ s.db.users.rows, r.id = id.val) ↔ ∃ r ∈ s.db.users.rows, decide (r.id = id.val) = true := by
    simp
  rw [hiff]
  exact affecting_update_cases (k := fun users => { s.db with users }) rfl rfl

end
end FipsDropbox.Storage
