import FipsDropbox.Storage.Db

/-!
# crates/storage: users, vendors, sessions and API tokens

What the service calls of the modules `users`, `vendors`, `sessions` and
`api_tokens`. Bearer credentials are stored as the SHA-256 of their text.
-/
namespace FipsDropbox.Storage
open Utf8 Exec Crypto

inductive UserRole where
  | admin
  | vendor

def UserRole.parse (t : Text) : Option UserRole :=
  if t = "admin".toList then some .admin
  else if t = "vendor".toList then some .vendor
  else none

structure User where
  id : Uuid
  email : Text
  role : UserRole
  createdAt : OffsetDateTime
  disabledAt : Option OffsetDateTime
  totpSecretWrapped : Option Bytes
  passwordHash : Bytes
  passwordSalt : Bytes
  passwordIters : UInt64

/-- `row_to_user`. -/
def rowToUser (r : UserRow) : Except SqliteError User := do
  let id ← uuidFrom 0 "id" r.id
  let role ← match UserRole.parse r.role with
    | some role => .ok role
    | none => .error (.invalidColumnType 2 "role")
  pure {
    id, role
    email := r.email
    createdAt := millisToDt r.createdAt
    disabledAt := r.disabledAt.map millisToDt
    totpSecretWrapped := r.totpSecretWrapped
    passwordHash := r.passwordHash
    passwordSalt := r.passwordSalt
    passwordIters := UInt64.ofInt r.passwordIters }

namespace Users
variable (env : Env) (B : Bcrypt)

def findByEmail (email : Text) : Exec Store StorageError (Option User) :=
  queryRow env .selectUserByEmail (fun db => db.users.find fun r => r.email = email) rowToUser

def findById (id : Uuid) : Exec Store StorageError (Option User) :=
  queryRow env .selectUserById (fun db => db.users.find fun r => r.id = id.val) rowToUser

def saltLen : ℕ := 16

/-- One derivation also where there is no such user. -/
def verifyPassword (email password : Text) : Exec Store StorageError (Option User) := do
  let found ← findByEmail env email
  match found with
  | none => do
      let _ ← adapt StorageError.crypto (Kdf.deriveKeyFromPassword env B .deriveUnknown password
        (List.replicate saltLen 0) Kdf.pbkdf2MinIterations)
      pure none
  | some user =>
      if user.disabledAt.isSome then pure none
      else do
        let candidate ← adapt StorageError.crypto (Kdf.deriveKeyFromPassword env B .deriveCandidate
          password user.passwordSalt user.passwordIters.toNat)
        pure (if constantTimeEq candidate.val user.passwordHash then some user else none)

end Users

structure Vendor where
  id : Uuid
  displayName : Text
  primaryEmail : Text
  primaryPhone : Option Text
  primaryUserId : Option Uuid
  createdBy : Uuid
  createdAt : OffsetDateTime
  disabledAt : Option OffsetDateTime

/-- `row_to_vendor`. -/
def rowToVendor (r : VendorRow) : Except SqliteError Vendor := do
  let id ← uuidFrom 0 "id" r.id
  let primaryUserId ← match r.primaryUserId with
    | some bs => (uuidFrom 4 "primary_user_id" bs).map some
    | none => .ok none
  let createdBy ← uuidFrom 5 "created_by" r.createdBy
  pure {
    id, primaryUserId, createdBy
    displayName := r.displayName
    primaryEmail := r.primaryEmail
    primaryPhone := r.primaryPhone
    createdAt := millisToDt r.createdAt
    disabledAt := r.disabledAt.map millisToDt }

def Db.insertVendor (r : VendorRow) (db : Db) : Option (ℕ × Db) :=
  if db.users.has UserRow.id r.createdBy then
    (db.vendors.insert r).map fun vendors => (1, { db with vendors })
  else none

namespace Vendors
variable (env : Env)

def findByEmail (email : Text) : Exec Store StorageError (Option Vendor) :=
  queryRow env .selectVendor
    (fun db => db.vendors.find fun r => r.primaryEmail = email && r.disabledAt.isNone) rowToVendor

def create (displayName email : Text) (phone : Option Text) (createdBy : Uuid) :
    Exec Store StorageError Vendor := do
  let _ ← execute env .insertVendor (Db.insertVendor {
    id := (env.newId .vendor).val
    displayName
    primaryEmail := email
    primaryPhone := phone
    primaryUserId := none
    createdBy := createdBy.val
    createdAt := dtToMillis (env.now .vendorCreated).time
    disabledAt := none })
  pure {
    id := env.newId .vendor
    displayName
    primaryEmail := email
    primaryPhone := phone
    primaryUserId := none
    createdBy
    createdAt := (env.now .vendorCreated).time
    disabledAt := none }

end Vendors

structure Session where
  idHash : Octets 32
  userId : Uuid
  csrfToken : Octets 32
  ip : Text
  userAgent : Text
  expiresAt : OffsetDateTime
  lastSeenAt : OffsetDateTime

structure IssuedSession where
  session : Session
  rawToken : Text

/-- `row_to_session`. -/
def rowToSession (r : SessionRow) : Except SqliteError Session := do
  let idHash ← octetsFrom 32 0 "id" r.id
  let userId ← uuidFrom 1 "user_id" r.userId
  let csrfToken ← octetsFrom 32 2 "csrf_token" r.csrfToken
  pure {
    idHash, userId, csrfToken
    ip := r.ip
    userAgent := r.userAgent
    expiresAt := millisToDt r.expiresAt
    lastSeenAt := millisToDt r.lastSeenAt }

def Db.insertSession (r : SessionRow) (db : Db) : Option (ℕ × Db) :=
  if db.users.has UserRow.id r.userId then
    (db.sessions.insert r).map fun sessions => (1, { db with sessions })
  else none

def Db.touchSession (id : Bytes) (now : ℤ) (db : Db) : Option (ℕ × Db) :=
  let out := db.sessions.update (fun r => r.id = id) (fun r => { r with lastSeenAt := now }) (by
    intro key hkey r
    obtain rfl := List.mem_singleton.mp hkey
    rfl)
  some (out.1, { db with sessions := out.2 })

def Db.deleteSession (id : Bytes) (db : Db) : Option (ℕ × Db) :=
  let out := db.sessions.delete fun r => r.id = id
  some (out.1, { db with sessions := out.2 })

namespace Sessions
variable (env : Env) (B : Bcrypt)

def defaultTtlHours : ℤ := 12

def nanosPerHour : ℤ := 3600 * nanosPerSecond

def create (userId : Uuid) (ip ua : Text) (ttlHours : ℤ) : Exec Store StorageError IssuedSession := do
  let raw ← adapt StorageError.crypto (Rand.bytes env .sessionToken 32)
  let rawToken := urlSafeBase64 raw.val
  let idHash ← adapt StorageError.crypto (Hash.sha256 env B .hashSession (encode rawToken))
  let csrfToken ← adapt StorageError.crypto (Rand.bytes env .csrfToken 32)
  let now := (env.now .sessionCreated).time
  let expiresAt ← orPanic (now.add (ttlHours * nanosPerHour))
  let _ ← execute env .insertSession (Db.insertSession {
    id := idHash.val
    userId := userId.val
    csrfToken := csrfToken.val
    ip
    userAgent := ua
    expiresAt := dtToMillis expiresAt
    lastSeenAt := dtToMillis now })
  pure { session := { idHash, userId, csrfToken, ip, userAgent := ua, expiresAt, lastSeenAt := now }, rawToken }

def findValid (rawToken : Text) : Exec Store StorageError (Option Session) := do
  let idHash ← adapt StorageError.crypto (Hash.sha256 env B .hashSessionLookup (encode rawToken))
  let now := dtToMillis (env.now .sessionLookup).time
  let session ← queryRow env .selectSession
    (fun db => db.sessions.find fun r => r.id = idHash.val && now < r.expiresAt) rowToSession
  match session with
  | none => pure none
  | some sess => do
      let _ ← execute env .updateSession (Db.touchSession sess.idHash.val now)
      pure (some sess)

def revoke (rawToken : Text) : Exec Store StorageError Unit := do
  let idHash ← adapt StorageError.crypto (Hash.sha256 env B .hashSessionRevoke (encode rawToken))
  let _ ← execute env .deleteSession (Db.deleteSession idHash.val)
  pure ()

end Sessions

def tokenPrefix : Text := "fdbx_".toList

structure ApiToken where
  id : Uuid
  userId : Uuid
  label : Text
  tokenHash : Octets 32
  createdAt : OffsetDateTime
  lastSeenAt : Option OffsetDateTime
  revokedAt : Option OffsetDateTime

structure IssuedApiToken where
  token : ApiToken
  rawToken : Text

/-- `row_to_token`. -/
def rowToToken (r : ApiTokenRow) : Except SqliteError ApiToken := do
  let id ← uuidFrom 0 "id" r.id
  let userId ← uuidFrom 1 "user_id" r.userId
  let tokenHash ← octetsFrom 32 3 "token_hash" r.tokenHash
  pure {
    id, userId, tokenHash
    label := r.label
    createdAt := millisToDt r.createdAt
    lastSeenAt := r.lastSeenAt.map millisToDt
    revokedAt := r.revokedAt.map millisToDt }

def Db.insertApiToken (r : ApiTokenRow) (db : Db) : Option (ℕ × Db) :=
  if db.users.has UserRow.id r.userId then
    (db.apiTokens.insert r).map fun apiTokens => (1, { db with apiTokens })
  else none

def Db.touchApiToken (id : Bytes) (now : ℤ) (db : Db) : Option (ℕ × Db) :=
  let out := db.apiTokens.update (fun r => r.id = id) (fun r => { r with lastSeenAt := some now }) (by
    intro key hkey r
    rcases List.mem_pair.mp hkey with rfl | rfl <;> rfl)
  some (out.1, { db with apiTokens := out.2 })

def Db.revokeApiToken (id : Bytes) (now : ℤ) (db : Db) : Option (ℕ × Db) :=
  let out := db.apiTokens.update (fun r => r.id = id && r.revokedAt.isNone)
    (fun r => { r with revokedAt := some now }) (by
      intro key hkey r
      rcases List.mem_pair.mp hkey with rfl | rfl <;> rfl)
  some (out.1, { db with apiTokens := out.2 })

/-- The tokens of a user, the newest first. -/
def Db.apiTokensOf (userId : Bytes) (db : Db) : List ApiTokenRow :=
  (db.apiTokens.rows.filter fun r => r.userId = userId).mergeSort fun a b => b.createdAt ≤ a.createdAt

namespace ApiTokens
variable (env : Env) (B : Bcrypt)

def create (userId : Uuid) (label : Text) : Exec Store StorageError IssuedApiToken := do
  let raw ← adapt StorageError.crypto (Rand.bytes env .apiToken 32)
  let rawToken := tokenPrefix ++ urlSafeBase64 raw.val
  let tokenHash ← adapt StorageError.crypto (Hash.sha256 env B .hashApiToken (encode rawToken))
  let now := (env.now .apiTokenCreated).time
  let _ ← execute env .insertApiToken (Db.insertApiToken {
    id := (env.newId .apiToken).val
    userId := userId.val
    label
    tokenHash := tokenHash.val
    createdAt := dtToMillis now
    lastSeenAt := none
    revokedAt := none })
  pure {
    token := {
      id := env.newId .apiToken
      userId, label, tokenHash
      createdAt := now
      lastSeenAt := none
      revokedAt := none }
    rawToken }

def findValidByRaw (rawToken : Text) : Exec Store StorageError (Option ApiToken) :=
  if !tokenPrefix.isPrefixOf rawToken then pure none
  else do
    let tokenHash ← adapt StorageError.crypto (Hash.sha256 env B .hashApiTokenLookup (encode rawToken))
    let now := dtToMillis (env.now .apiTokenLookup).time
    let found ← queryRow env .selectApiToken
      (fun db => db.apiTokens.find fun r => r.tokenHash = tokenHash.val && r.revokedAt.isNone) rowToToken
    match found with
    | none => pure none
    | some t => do
        let _ ← execute env .updateApiToken (Db.touchApiToken t.id.val now)
        pure (some t)

def listForUser (userId : Uuid) : Exec Store StorageError (List ApiToken) :=
  queryMap env .listApiTokens (Db.apiTokensOf userId.val) rowToToken

def revoke (id : Uuid) : Exec Store StorageError Unit := do
  let now := dtToMillis (env.now .apiTokenRevoked).time
  let affected ← execute env .updateApiTokenRevoked (Db.revokeApiToken id.val now)
  failIf (affected == 0) .notFound

end ApiTokens

def activeVendor (s : Store) (email : Text) : Option VendorRow :=
  s.db.vendors.find fun r => r.primaryEmail = email && r.disabledAt.isNone

/-- The row that `create` binds. -/
def newVendorRow (id : Uuid) (displayName email : Text) (phone : Option Text) (createdBy : Uuid)
    (now : OffsetDateTime) : VendorRow where
  id := id.val
  displayName
  primaryEmail := email
  primaryPhone := phone
  primaryUserId := none
  createdBy := createdBy.val
  createdAt := dtToMillis now
  disabledAt := none

/-- The row of an identifier. -/
theorem user_of_id {users : Table UserRow Bytes [UserRow.id, fun r => encode r.email]} {r r' : UserRow}
    (hr : r ∈ users.rows) (hr' : r' ∈ users.rows) (h : r.id = r'.id) : r = r' := Table.eq_of_key (by simp : UserRow.id ∈ _) hr hr' h

/-- The row of an address. -/
theorem user_of_email {users : Table UserRow Bytes [UserRow.id, fun r => encode r.email]} {r r' : UserRow}
    (hr : r ∈ users.rows) (hr' : r' ∈ users.rows) (h : r.email = r'.email) : r = r' :=
  Table.eq_of_key (by simp : (fun r : UserRow => encode r.email) ∈ _) hr hr' (congrArg encode h)

theorem rowToUser_ok {r : UserRow} {user : User} (h : rowToUser r = .ok user) :
    user.id.val = r.id ∧ user.email = r.email ∧ UserRole.parse r.role = some user.role ∧
      user.disabledAt = r.disabledAt.map millisToDt := by
  obtain ⟨id, h1, h⟩ := of_except_bind h
  cases hrole : UserRole.parse r.role with
  | none =>
      rw [hrole] at h
      obtain ⟨_, h2, -⟩ := of_except_bind h
      cases h2
  | some role =>
      rw [hrole] at h
      obtain ⟨_, h2, h⟩ := of_except_bind h
      cases h2
      cases h
      exact ⟨of_uuidFrom_ok h1, rfl, rfl, rfl⟩

theorem rowToVendor_ok {r : VendorRow} {v : Vendor} (h : rowToVendor r = .ok v) :
    v.id.val = r.id ∧ v.primaryEmail = r.primaryEmail ∧ v.primaryPhone = r.primaryPhone := by
  obtain ⟨id, h1, h⟩ := of_except_bind h
  cases hu : r.primaryUserId <;> rw [hu] at h
  all_goals
    obtain ⟨primaryUserId, -, h⟩ := of_except_bind h
    obtain ⟨createdBy, -, h⟩ := of_except_bind h
    cases h
    exact ⟨of_uuidFrom_ok h1, rfl, rfl⟩

/-- An `INSERT` behind a foreign key to the users. -/
theorem insert_some_iff {α : Type} {b : Bool} {o : Option α} {g : α → Db} {db : Db} {n : ℕ} :
    (if b then o.map fun t => (1, g t) else none) = some (n, db) ↔
      b = true ∧ n = 1 ∧ ∃ t, o = some t ∧ db = g t := by
  cases b with
  | false => simp
  | true => simp [eq_comm, and_left_comm]

theorem insertVendor_some {r : VendorRow} {db db' : Db} {n : ℕ} (h : Db.insertVendor r db = some (n, db')) :
    ∃ vendors, db.vendors.insert r = some vendors ∧ db' = { db with vendors } := by
  obtain ⟨-, -, vendors, hins, rfl⟩ := insert_some_iff.mp h
  exact ⟨vendors, hins, rfl⟩

theorem insertVendor_none_iff {r : VendorRow} {db : Db} :
    Db.insertVendor r db = none ↔
      db.users.has UserRow.id r.createdBy = false ∨ r.id ∈ db.vendors.rows.map VendorRow.id := by
  unfold Db.insertVendor
  split_ifs with h
  · simp [Table.insert_none_iff, h]
  · simp [h]

/-- Shares, prints and blobs are what they were. -/
def SameFiles (s t : Store) : Prop :=
  t.db.shares = s.db.shares ∧ t.db.prints = s.db.prints ∧ t.blobs = s.blobs

/-- At most sessions and tokens have changed. -/
structure CredentialsOnly (s t : Store) : Prop where
  users : t.db.users = s.db.users
  vendors : t.db.vendors = s.db.vendors
  prints : t.db.prints = s.db.prints
  shares : t.db.shares = s.db.shares
  blobs : t.blobs = s.blobs

theorem credentialsOnly_frame : Frame CredentialsOnly where
  refl _ := ⟨rfl, rfl, rfl, rfl, rfl⟩
  trans h h' := ⟨h'.users.trans h.users, h'.vendors.trans h.vendors, h'.prints.trans h.prints,
    h'.shares.trans h.shares, h'.blobs.trans h.blobs⟩

theorem CredentialsOnly.sameFiles {s t : Store} (h : CredentialsOnly s t) : SameFiles s t :=
  ⟨h.shares, h.prints, h.blobs⟩

section
variable {env : Env} {B : Bcrypt}

/-- Checking a password only reads. -/
theorem moves_verifyPassword {R : Store → Store → Prop} (F : Frame R) (email password : Text) :
    Moves R (Users.verifyPassword env B email password) := by
  apply F.bind (moves_queryRow F _ _ _)
  intro found
  cases found with
  | none => exact F.bind (moves_adapt (moves_deriveKey F _ _ _ _)) fun _ => F.pure _
  | some user =>
      dsimp only
      split_ifs
      · exact F.pure _
      · exact F.bind (moves_adapt (moves_deriveKey F _ _ _ _)) fun _ => F.pure _

/-- Creating a vendor adds its row, or nothing. -/
theorem moves_createVendor {R : Store → Store → Prop} (F : Frame R)
    (h : ∀ (s : Store) row vendors, s.db.vendors.insert row = some vendors →
      R s { s with db := { s.db with vendors } })
    (displayName email : Text) (phone : Option Text) (createdBy : Uuid) :
    Moves R (Vendors.create env displayName email phone createdBy) := by
  apply F.bind (moves_execute F _ ?_) fun _ => F.pure _
  intro s n db hdb
  obtain ⟨vendors, hins, rfl⟩ := insertVendor_some hdb
  exact h s _ vendors hins

theorem createSession_credentialsOnly (userId : Uuid) (ip ua : Text) (ttlHours : ℤ) :
    Moves CredentialsOnly (Sessions.create env B userId ip ua ttlHours) := by
  have F := credentialsOnly_frame
  refine F.bind (moves_adapt (moves_random F _ _)) fun _ => F.bind (moves_adapt (moves_sha256 F _ _)) fun _ =>
    F.bind (moves_adapt (moves_random F _ _)) fun _ => F.bind (F.orPanic _) fun _ =>
    F.bind (moves_execute F _ ?_) fun _ => F.pure _
  intro s n db h
  obtain ⟨-, -, sessions, -, rfl⟩ := insert_some_iff.mp h
  exact ⟨rfl, rfl, rfl, rfl, rfl⟩

theorem findValidSession_credentialsOnly (rawToken : Text) :
    Moves CredentialsOnly (Sessions.findValid env B rawToken) := by
  have F := credentialsOnly_frame
  refine F.bind (moves_adapt (moves_sha256 F _ _)) fun _ => F.bind (moves_queryRow F _ _ _) fun session => ?_
  cases session with
  | none => exact F.pure _
  | some sess =>
      apply F.bind (moves_execute F _ ?_) fun _ => F.pure _
      intro s n db h
      cases h
      exact ⟨rfl, rfl, rfl, rfl, rfl⟩

theorem revokeSession_credentialsOnly (rawToken : Text) : Moves CredentialsOnly (Sessions.revoke env B rawToken) := by
  have F := credentialsOnly_frame
  refine F.bind (moves_adapt (moves_sha256 F _ _)) fun _ => F.bind (moves_execute F _ ?_) fun _ => F.pure _
  intro s n db h
  cases h
  exact ⟨rfl, rfl, rfl, rfl, rfl⟩

theorem createApiToken_credentialsOnly (userId : Uuid) (label : Text) :
    Moves CredentialsOnly (ApiTokens.create env B userId label) := by
  have F := credentialsOnly_frame
  refine F.bind (moves_adapt (moves_random F _ _)) fun _ => F.bind (moves_adapt (moves_sha256 F _ _)) fun _ =>
    F.bind (moves_execute F _ ?_) fun _ => F.pure _
  intro s n db h
  obtain ⟨-, -, apiTokens, -, rfl⟩ := insert_some_iff.mp h
  exact ⟨rfl, rfl, rfl, rfl, rfl⟩

theorem findValidByRaw_credentialsOnly (rawToken : Text) :
    Moves CredentialsOnly (ApiTokens.findValidByRaw env B rawToken) := by
  have F := credentialsOnly_frame
  unfold ApiTokens.findValidByRaw
  split_ifs
  · exact F.pure _
  · refine F.bind (moves_adapt (moves_sha256 F _ _)) fun _ => F.bind (moves_queryRow F _ _ _) fun found => ?_
    cases found with
    | none => exact F.pure _
    | some t =>
        apply F.bind (moves_execute F _ ?_) fun _ => F.pure _
        intro s n db h
        cases h
        exact ⟨rfl, rfl, rfl, rfl, rfl⟩

theorem revokeApiToken_credentialsOnly (id : Uuid) : Moves CredentialsOnly (ApiTokens.revoke env id) := by
  have F := credentialsOnly_frame
  apply F.bind (moves_execute F _ ?_) fun _ => F.failIf _ _
  intro s n db h
  cases h
  exact ⟨rfl, rfl, rfl, rfl, rfl⟩

end
end FipsDropbox.Storage
