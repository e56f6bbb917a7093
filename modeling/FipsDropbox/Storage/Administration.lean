import FipsDropbox.Storage.Accounts

/-!
# crates/storage: administration

Functions of `users`, `vendors` and `sessions` that no operation of the service
calls: accounts are created by `cuishare init`, and disabled, enabled and purged by
hand.
-/
namespace FipsDropbox.Storage
open Utf8 Exec Crypto

def UserRole.asStr : UserRole → Text
  | .admin => "admin".toList
  | .vendor => "vendor".toList

theorem UserRole.parse_asStr (role : UserRole) : UserRole.parse role.asStr = some role := by
  cases role <;> rfl

theorem UserRole.parse_some {t : Text} {role : UserRole} (h : UserRole.parse t = some role) : t = role.asStr := by
  unfold UserRole.parse at h
  split_ifs at h with ha hv
  · cases h
    exact ha
  · cases h
    exact hv

/-- The columns that stay as they are when an account is disabled or enabled. -/
def UserRow.withDisabledAt (at_ : Option ℤ) (r : UserRow) : UserRow := { r with disabledAt := at_ }

theorem UserRow.withDisabledAt_keys (at_ : Option ℤ) :
    ∀ key ∈ [UserRow.id, fun r => encode r.email], ∀ r, key (withDisabledAt at_ r) = key r := by
  intro key hkey r
  rcases List.mem_pair.mp hkey with rfl | rfl <;> rfl

/-- The columns that `rotate_password` sets. -/
def UserRow.withPassword (hash : Octets 32) (salt : Octets 16) (r : UserRow) : UserRow :=
  { r with passwordHash := hash.val, passwordSalt := salt.val, passwordIters := Kdf.pbkdf2MinIterations }

theorem UserRow.withPassword_keys (hash : Octets 32) (salt : Octets 16) :
    ∀ key ∈ [UserRow.id, fun r => encode r.email], ∀ r, key (withPassword hash salt r) = key r := by
  intro key hkey r
  rcases List.mem_pair.mp hkey with rfl | rfl <;> rfl

/-- The table with the `CHECK` on its `role`. -/
def Db.insertUser (r : UserRow) (db : Db) : Option (ℕ × Db) :=
  if (UserRole.parse r.role).isSome then
    (db.users.insert r).map fun users => (1, { db with users })
  else none

def Db.rotatePassword (id : Bytes) (hash : Octets 32) (salt : Octets 16) (db : Db) : Option (ℕ × Db) :=
  let out := db.users.update (fun r => r.id = id) (UserRow.withPassword hash salt)
    (UserRow.withPassword_keys hash salt)
  some (out.1, { db with users := out.2 })

def Db.disableUser (id : Bytes) (now : ℤ) (db : Db) : Option (ℕ × Db) :=
  let out := db.users.update (fun r => r.id = id && r.disabledAt.isNone) (UserRow.withDisabledAt (some now))
    (UserRow.withDisabledAt_keys (some now))
  some (out.1, { db with users := out.2 })

def Db.enableUser (id : Bytes) (db : Db) : Option (ℕ × Db) :=
  let out := db.users.update (fun r => r.id = id) (UserRow.withDisabledAt none)
    (UserRow.withDisabledAt_keys none)
  some (out.1, { db with users := out.2 })

def mapConflict : StorageError → StorageError
  | .sqlite .constraint => .conflict
  | e => e

/-- The row that `create` binds. -/
def newUserRow (id : Uuid) (email : Text) (role : UserRole) (hash : Octets 32) (salt : Octets 16)
    (now : OffsetDateTime) : UserRow where
  id := id.val
  email
  role := role.asStr
  passwordHash := hash.val
  passwordSalt := salt.val
  passwordIters := Kdf.pbkdf2MinIterations
  totpSecretWrapped := none
  createdAt := dtToMillis now
  disabledAt := none

namespace Users
variable (env : Env) (B : Bcrypt)

def create (email : Text) (role : UserRole) (password : Text) : Exec Store StorageError User := do
  let salt ← adapt StorageError.crypto (Rand.bytes env .salt saltLen)
  let hash ← adapt StorageError.crypto
    (Kdf.deriveKeyFromPassword env B .deriveNew password salt.val Kdf.pbkdf2MinIterations)
  let now := (env.now .userCreated).time
  let _ ← adapt mapConflict
    (execute env .insertUser (Db.insertUser (newUserRow (env.newId .user) email role hash salt now)))
  pure {
    id := env.newId .user
    email, role
    createdAt := now
    disabledAt := none
    totpSecretWrapped := none
    passwordHash := hash.val
    passwordSalt := salt.val
    passwordIters := UInt64.ofNat Kdf.pbkdf2MinIterations }

def rotatePassword (id : Uuid) (newPassword : Text) : Exec Store StorageError Unit := do
  let salt ← adapt StorageError.crypto (Rand.bytes env .salt saltLen)
  let hash ← adapt StorageError.crypto
    (Kdf.deriveKeyFromPassword env B .deriveNew newPassword salt.val Kdf.pbkdf2MinIterations)
  let affected ← execute env .updateUserPassword (Db.rotatePassword id.val hash salt)
  failIf (affected == 0) .notFound

def disable (id : Uuid) : Exec Store StorageError Unit := do
  let now := dtToMillis (env.now .userDisabled).time
  let affected ← execute env .updateUserDisabled (Db.disableUser id.val now)
  failIf (affected == 0) .notFound

def enable (id : Uuid) : Exec Store StorageError Unit := do
  let affected ← execute env .updateUserEnabled (Db.enableUser id.val)
  failIf (affected == 0) .notFound

end Users

def VendorRow.disabled (now : ℤ) (r : VendorRow) : VendorRow := { r with disabledAt := some now }

theorem VendorRow.disabled_keys (now : ℤ) : ∀ key ∈ [VendorRow.id], ∀ r, key (disabled now r) = key r := by
  intro key hkey r
  obtain rfl := List.mem_singleton.mp hkey
  rfl

def Db.disableVendor (id : Bytes) (now : ℤ) (db : Db) : Option (ℕ × Db) :=
  let out := db.vendors.update (fun r => r.id = id && r.disabledAt.isNone) (VendorRow.disabled now)
    (VendorRow.disabled_keys now)
  some (out.1, { db with vendors := out.2 })

def Vendors.disable (env : Env) (id : Uuid) : Exec Store StorageError Unit := do
  let now := dtToMillis (env.now .vendorDisabled).time
  let affected ← execute env .updateVendorDisabled (Db.disableVendor id.val now)
  failIf (affected == 0) .notFound

def Db.deleteSessionsOf (userId : Bytes) (db : Db) : Option (ℕ × Db) :=
  let out := db.sessions.delete fun r => r.userId = userId
  some (out.1, { db with sessions := out.2 })

def Db.deleteSessionsBefore (now : ℤ) (db : Db) : Option (ℕ × Db) :=
  let out := db.sessions.delete fun r => r.expiresAt < now
  some (out.1, { db with sessions := out.2 })

namespace Sessions
variable (env : Env)

def revokeAllForUser (userId : Uuid) : Exec Store StorageError ℕ :=
  execute env .deleteSessionsOfUser (Db.deleteSessionsOf userId.val)

def purgeExpired : Exec Store StorageError ℕ :=
  execute env .deleteExpiredSessions (Db.deleteSessionsBefore (dtToMillis (env.now .sessionPurge).time))

end Sessions

/-- A row that `create` bound is read back as it was meant. -/
theorem rowToUser_new (id : Uuid) (email : Text) (role : UserRole) (hash : Octets 32) (salt : Octets 16)
    (now : OffsetDateTime) :
    ∃ user, rowToUser (newUserRow id email role hash salt now) = .ok user ∧ user.id = id ∧
      user.email = email ∧ user.role = role ∧ user.disabledAt = none ∧ user.passwordHash = hash.val ∧
      user.passwordSalt = salt.val ∧ user.passwordIters.toNat = Kdf.pbkdf2MinIterations := by
  simp only [rowToUser, newUserRow, uuidFrom_val, UserRole.parse_asStr]
  exact ⟨_, rfl, rfl, rfl, rfl, rfl, rfl, rfl, rfl⟩

/-- An account is readable however disabled it is. -/
theorem rowToUser_withDisabledAt (at_ : Option ℤ) {r : UserRow} (h : ∃ user, rowToUser r = .ok user) :
    ∃ user, rowToUser (r.withDisabledAt at_) = .ok user := by
  obtain ⟨user, h⟩ := h
  obtain ⟨hid, -, hrole, -⟩ := rowToUser_ok h
  simp only [rowToUser, UserRow.withDisabledAt, ← hid, uuidFrom_val, hrole]
  exact ⟨_, rfl⟩

section
variable {env : Env} {B : Bcrypt}

theorem insertUser_some {r : UserRow} {db db' : Db} {n : ℕ} (h : Db.insertUser r db = some (n, db')) :
    ∃ users, db.users.insert r = some users ∧ db' = { db with users } := by
  unfold Db.insertUser at h
  split_ifs at h
  obtain ⟨users, hu, hdb⟩ := Option.map_eq_some_iff.mp h
  cases hdb
  exact ⟨users, hu, rfl⟩

/-- A new account is the row of its salt and of the password's derived key. -/
theorem createUser_ok {email password : Text} {role : UserRole} {s s' : Store} {user : User}
    (h : Users.create env B email role password s = (.ok user, s')) :
    user.id = env.newId .user ∧ user.email = email ∧ user.role = role ∧
    ∃ salt users, s.db.users.insert (newUserRow (env.newId .user) email role
        (Cng.pbkdf2HmacSha256 B (encode password) salt.val Kdf.pbkdf2MinIterations 32) salt
        (env.now .userCreated).time) = some users ∧ s' = { s with db := { s.db with users } } := by
  obtain ⟨salt, s1, h1, k1⟩ := bind_ok_iff.mp h
  obtain ⟨-, rfl⟩ := orErr_ok_iff.mp (adapt_ok_iff.mp h1)
  obtain ⟨hash, s2, h2, k2⟩ := bind_ok_iff.mp k1
  obtain ⟨_, s3, h3, k3⟩ := bind_ok_iff.mp (adapt_ok_iff.mp h2)
  obtain ⟨-, rfl⟩ := check_ok_iff.mp h3
  obtain ⟨rfl, rfl⟩ := pure_ok_iff.mp k3
  obtain ⟨n, s4, h4, k4⟩ := bind_ok_iff.mp k2
  obtain ⟨db, hf, rfl⟩ := of_execute_ok (adapt_ok_iff.mp h4)
  obtain ⟨users, hins, rfl⟩ := insertUser_some hf
  obtain ⟨hout, rfl⟩ := pure_ok_iff.mp k4
  subst hout
  exact ⟨rfl, rfl, rfl, salt, users, hins, rfl⟩

/-- What creating an account needs. -/
theorem createUser_runs {email password : Text} {role : UserRole} {s : Store} {salt : Octets 16}
    (hsalt : env.random .salt 16 = some salt)
    (hcalls : env.fails .deriveNew = false ∧ env.fails .insertUser = false)
    (hid : (env.newId .user).val ∉ s.db.users.rows.map UserRow.id)
    (hemail : encode email ∉ s.db.users.rows.map fun r => encode r.email) :
    ∃ user s', Users.create env B email role password s = (.ok user, s') := by
  obtain ⟨users, hins⟩ : ∃ users, s.db.users.insert (newUserRow (env.newId .user) email role
      (Cng.pbkdf2HmacSha256 B (encode password) salt.val Kdf.pbkdf2MinIterations 32) salt
      (env.now .userCreated).time) = some users := by
    apply Table.exists_insert
    intro key hkey
    rcases List.mem_pair.mp hkey with rfl | rfl
    · exact hid
    · exact hemail
  have hrow : ∀ r : UserRow, r.role = role.asStr → s.db.users.insert r = some users →
      Db.insertUser r s.db = some (1, { s.db with users }) := by
    intro r hr hr'
    rw [Db.insertUser, hr, UserRole.parse_asStr, hr']
    rfl
  refine ⟨_, { s with db := { s.db with users } }, bind_ok_iff.mpr ⟨salt, s, ?_, bind_ok_iff.mpr ⟨_, s, ?_,
    bind_ok_iff.mpr ⟨1, _, adapt_ok_iff.mpr (execute_ok_iff.mpr ⟨hcalls.2, _, hrow _ rfl hins, rfl⟩), rfl⟩⟩⟩⟩
  · exact adapt_ok_iff.mpr (orErr_ok_iff.mpr ⟨hsalt, rfl⟩)
  · exact adapt_ok_iff.mpr (bind_ok_iff.mpr ⟨(), s, check_ok_iff.mpr ⟨hcalls.1, rfl⟩, rfl⟩)

end

/-- An `UPDATE` whose count of zero is an error. -/
theorem affecting_cases {env : Env} {c : Call} {f : Db → Option (ℕ × Db)} {n : ℕ} {s : Store} {db : Db}
    (hf : f s.db = some (n, db)) (hzero : n = 0 → db = s.db) :
    ((env.fails c = false ∧ n ≠ 0) ∧
      (execute env c f >>= fun affected => failIf (affected == 0) StorageError.notFound) s =
        (.ok (), { s with db })) ∨
    (¬ (env.fails c = false ∧ n ≠ 0) ∧ ∃ e,
      (execute env c f >>= fun affected => failIf (affected == 0) StorageError.notFound) s = (.err e, s)) := by
  rcases execute_cases env c f s with ⟨e, he, hcause⟩ | ⟨m, db', hq, hf', he⟩
  · refine .inr ⟨?_, _, bind_err he _⟩
    rintro ⟨hq, -⟩
    rcases hcause with hfail | hnone
    · rw [hq] at hfail
      cases hfail
    · cases hnone.symm.trans hf
  · cases hf.symm.trans hf'
    rw [bind_ok he]
    by_cases hn : n = 0
    · subst hn
      obtain rfl := hzero rfl
      exact .inr ⟨fun h => h.2 rfl, _, rfl⟩
    · have hne : (n == 0) = false := by simpa using hn
      rw [hne]
      exact .inl ⟨⟨hq, hn⟩, rfl⟩

/-- Such an update of the rows that meet a condition. -/
theorem affecting_update_cases {α : Type} {keys : List (α → Bytes)} {env : Env} {c : Call} {t : Table α Bytes keys}
    {p : α → Bool} {g : α → α} {hg : ∀ key ∈ keys, ∀ r, key (g r) = key r} {k : Table α Bytes keys → Db}
    {f : Db → Option (ℕ × Db)} {s : Store} (hk : k t = s.db)
    (hf : f s.db = some ((t.update p g hg).1, k (t.update p g hg).2)) :
    ((env.fails c = false ∧ ∃ r ∈ t.rows, p r = true) ∧
      (execute env c f >>= fun affected => failIf (affected == 0) StorageError.notFound) s =
        (.ok (), { s with db := k (t.update p g hg).2 })) ∨
    (¬ (env.fails c = false ∧ ∃ r ∈ t.rows, p r = true) ∧ ∃ e,
      (execute env c f >>= fun affected => failIf (affected == 0) StorageError.notFound) s = (.err e, s)) := by
  have hcount : (t.update p g hg).1 ≠ 0 ↔ ∃ r ∈ t.rows, p r = true := by
    rw [← Nat.pos_iff_ne_zero]
    exact List.countP_pos_iff
  rw [← hcount]
  apply affecting_cases hf
  intro hzero
  have hnone : ∀ r ∈ t.rows, p r = false := by
    intro r hr
    by_contra hp
    exact hcount.mpr ⟨r, hr, by simpa using hp⟩ hzero
  rw [Table.update_none g hg hnone, hk]

end FipsDropbox.Storage
