import Mathlib.Data.List.Forall2
import FipsDropbox.Storage.Credentials

/-!
# Passwords over runs

What the functions of `users` are for: a directory of accounts, each with its password
and whether it is disabled. The table refines it along every run of the functions, and
`verify_password` answers from it.
-/
namespace FipsDropbox.Storage.Users
open Utf8 Exec Crypto

structure Creatable (env : Env) (s : Store) (email : Text) : Prop where
  salt : (env.random .salt 16).isSome = true
  calls : env.fails .deriveNew = false ∧ env.fails .insertUser = false
  id : (env.newId .user).val ∉ s.db.users.rows.map UserRow.id
  email : encode email ∉ s.db.users.rows.map fun r => encode r.email

section
variable (env : Env) (B : Bcrypt)

theorem atomic_create (email : Text) (role : UserRole) (password : Text) : Atomic (create env B email role password) :=
  atomic_bind (moves_adapt (moves_random stays_frame _ _)) fun _ =>
  atomic_bind (moves_adapt (moves_deriveKey stays_frame _ _ _ _)) fun _ =>
  atomic_map (atomic_adapt (atomic_execute _ _)) _

theorem calm_create (email : Text) (role : UserRole) (password : Text) : Calm (create env B email role password) :=
  calm_bind (calm_adapt (calm_orErr _ _)) fun _ =>
  calm_bind (calm_adapt (calm_bind (calm_failIf _ _) fun _ => calm_pure _)) fun _ =>
  calm_bind (calm_adapt (calm_execute _ _)) fun _ => calm_pure _

theorem creatable_of_ok {email password : Text} {role : UserRole} {s s' : Store} {user : User}
    (h : create env B email role password s = (.ok user, s')) : Creatable env s email := by
  obtain ⟨salt, s1, h1, k1⟩ := bind_ok_iff.mp h
  obtain ⟨hsalt, rfl⟩ := orErr_ok_iff.mp (adapt_ok_iff.mp h1)
  obtain ⟨hash, s2, h2, k2⟩ := bind_ok_iff.mp k1
  obtain ⟨hderive, -, rfl⟩ := deriveKey_ok_iff.mp (adapt_ok_iff.mp h2)
  obtain ⟨n, s3, h3, -⟩ := bind_ok_iff.mp k2
  obtain ⟨hinsert, db, hf, -⟩ := execute_ok_iff.mp (adapt_ok_iff.mp h3)
  obtain ⟨users, hins, -⟩ := insertUser_some hf
  obtain ⟨hfree, -⟩ := Table.insert_some hins
  exact ⟨Option.isSome_iff_exists.mpr ⟨salt, hsalt⟩, ⟨hderive, hinsert⟩, hfree _ List.mem_cons_self,
    hfree _ (List.mem_cons_of_mem _ List.mem_cons_self)⟩

theorem create_cases (email : Text) (role : UserRole) (password : Text) (s : Store) :
    (Creatable env s email ∧ ∃ user s', create env B email role password s = (.ok user, s')) ∨
    (¬ Creatable env s email ∧ ∃ e, create env B email role password s = (.err e, s)) := by
  rcases (atomic_create env B email role password).cases (calm_create env B email role password) s with
    ⟨user, s', hrun⟩ | ⟨e, hrun⟩
  · exact .inl ⟨creatable_of_ok env B hrun, user, s', hrun⟩
  · refine .inr ⟨?_, e, hrun⟩
    intro h
    obtain ⟨salt, hsalt⟩ := Option.isSome_iff_exists.mp h.salt
    have hok : ∃ user s', create env B email role password s = (.ok user, s') :=
      createUser_runs hsalt h.calls h.id h.email
    obtain ⟨user, s', hok⟩ := hok
    cases hok.symm.trans hrun

theorem updatePassword_cases (id : Uuid) (hash : Octets 32) (salt : Octets 16) (s : Store) :
    ((env.fails .updateUserPassword = false ∧ ∃ r ∈ s.db.users.rows, r.id = id.val) ∧
      (execute env .updateUserPassword (Db.rotatePassword id.val hash salt) >>=
          fun affected => failIf (affected == 0) StorageError.notFound) s =
        (.ok (), { s with db := { s.db with users := (s.db.users.update (fun r => r.id = id.val)
          (UserRow.withPassword hash salt) (UserRow.withPassword_keys hash salt)).2 } })) ∨
    (¬ (env.fails .updateUserPassword = false ∧ ∃ r ∈ s.db.users.rows, r.id = id.val) ∧ ∃ e,
      (execute env .updateUserPassword (Db.rotatePassword id.val hash salt) >>=
          fun affected => failIf (affected == 0) StorageError.notFound) s = (.err e, s)) := by
  have hiff : (∃ r ∈ s.db.users.rows, r.id = id.val) ↔ ∃ r ∈ s.db.users.rows, decide (r.id = id.val) = true := by
    simp
  rw [hiff]
  exact affecting_update_cases (k := fun users => { s.db with users }) rfl rfl

theorem rotatePassword_cases (id : Uuid) (newPassword : Text) (s : Store) :
    (∃ salt : Octets 16, rotatePassword env B id newPassword s =
      (.ok (), { s with db := { s.db with users := (s.db.users.update (fun r => r.id = id.val)
        (UserRow.withPassword (Cng.pbkdf2HmacSha256 B (encode newPassword) salt.val Kdf.pbkdf2MinIterations 32)
          salt) (UserRow.withPassword_keys _ salt)).2 } })) ∨
    ∃ e, rotatePassword env B id newPassword s = (.err e, s) := by
  cases hsalt : env.random .salt 16 with
  | none =>
      have h : adapt StorageError.crypto (Rand.bytes env .salt saltLen) s = (.err (.crypto (.cng .status)), s) := by
        rw [adapt, Rand.bytes, saltLen, hsalt]
        rfl
      exact .inr ⟨_, bind_err h _⟩
  | some salt =>
      have h : adapt StorageError.crypto (Rand.bytes env .salt saltLen) s = (.ok salt, s) :=
        adapt_ok_iff.mpr (orErr_ok_iff.mpr ⟨hsalt, rfl⟩)
      rw [rotatePassword, bind_ok h]
      cases hderive : env.fails .deriveNew with
      | true =>
          have h : adapt StorageError.crypto (Kdf.deriveKeyFromPassword env B .deriveNew newPassword salt.val
              Kdf.pbkdf2MinIterations) s = (.err (.crypto (.cng .status)), s) := by
            rw [adapt, Kdf.deriveKeyFromPassword, check, hderive]
            rfl
          exact .inr ⟨_, bind_err h _⟩
      | false =>
          rw [bind_ok (adapt_ok_iff.mpr (deriveKey_ok_iff.mpr ⟨hderive, rfl, rfl⟩))]
          rcases updatePassword_cases env id (Cng.pbkdf2HmacSha256 B (encode newPassword) salt.val
            Kdf.pbkdf2MinIterations 32) salt s with ⟨-, hrun⟩ | ⟨-, e, hrun⟩
          · exact .inl ⟨salt, hrun⟩
          · exact .inr ⟨e, hrun⟩

end

structure Account where
  id : Uuid
  email : Text
  role : UserRole
  password : Text
  disabled : Bool

inductive Operation where
  | create (email : Text) (role : UserRole) (password : Text)
  | rotatePassword (id : Uuid) (newPassword : Text)
  | disable (id : Uuid)
  | enable (id : Uuid)

def Operation.run (env : Env) (B : Bcrypt) : Operation → Exec Store StorageError Unit
  | .create email role password => do
      let _ ← Users.create env B email role password
      pure ()
  | .rotatePassword id newPassword => Users.rotatePassword env B id newPassword
  | .disable id => Users.disable env id
  | .enable id => Users.enable env id

def Operation.password : Operation → Option Text
  | .create _ _ password => some password
  | .rotatePassword _ newPassword => some newPassword
  | .disable _ => none
  | .enable _ => none

def change (id : Uuid) (f : Account → Account) (d : List Account) : List Account :=
  d.map fun a => if a.id = id then f a else a

/-- What an operation that succeeds means for the accounts. -/
def Operation.apply (env : Env) : Operation → List Account → List Account
  | .create email role password, d => d ++ [⟨env.newId .user, email, role, password, false⟩]
  | .rotatePassword id newPassword, d => change id (fun a => { a with password := newPassword }) d
  | .disable id, d => change id (fun a => { a with disabled := true }) d
  | .enable id, d => change id (fun a => { a with disabled := false }) d

/-- The store, and the directory of what has succeeded. -/
structure Run where
  store : Store
  directory : List Account

def Run.step (B : Bcrypt) (r : Run) (call : Env × Operation) : Run where
  store := (call.2.run call.1 B r.store).2
  directory :=
    match (call.2.run call.1 B r.store).1 with
    | .ok _ => call.2.apply call.1 r.directory
    | _ => r.directory

def Run.after (B : Bcrypt) (s : Store) (calls : List (Env × Operation)) : Run :=
  calls.foldl (Run.step B) ⟨s, []⟩

structure Represents (B : Bcrypt) (r : UserRow) (a : Account) : Prop where
  id : r.id = a.id.val
  email : r.email = a.email
  role : r.role = a.role.asStr
  disabled : r.disabledAt.isSome = a.disabled
  iterations : r.passwordIters = Kdf.pbkdf2MinIterations
  hash : r.passwordHash =
    (Cng.pbkdf2HmacSha256 B (encode a.password) r.passwordSalt Kdf.pbkdf2MinIterations 32).val

def Refines (B : Bcrypt) (r : Run) : Prop := List.Forall₂ (Represents B) r.store.db.users.rows r.directory

section
variable {B : Bcrypt} {rows : List UserRow} {d : List Account}

/-- The same rows and accounts change, in ways that correspond. -/
theorem represents_change (h : List.Forall₂ (Represents B) rows d) {id : Uuid} {p : UserRow → Bool}
    {f : UserRow → UserRow} {g : Account → Account}
    (hp : ∀ r a, Represents B r a → p r = true → a.id = id ∧ Represents B (f r) (g a))
    (hn : ∀ r a, Represents B r a → p r = false → a.id = id → Represents B r (g a)) :
    List.Forall₂ (Represents B) (rows.map fun r => if p r then f r else r) (change id g d) := by
  unfold change
  induction h with
  | nil => exact .nil
  | @cons r a rows d hra _ ih =>
      refine .cons ?_ ih
      cases hpr : p r with
      | true =>
          obtain ⟨hid, hnew⟩ := hp r a hra hpr
          dsimp only
          rw [hpr, if_pos rfl, if_pos hid]
          exact hnew
      | false =>
          dsimp only
          rw [hpr, if_neg Bool.false_ne_true]
          split_ifs with hid
          · exact hn r a hra hpr hid
          · exact hra

theorem represents_new (env : Env) (email : Text) (role : UserRole) (password : Text) (salt : Octets 16) :
    Represents B (newUserRow (env.newId .user) email role (Cng.pbkdf2HmacSha256 B (encode password) salt.val
      Kdf.pbkdf2MinIterations 32) salt (env.now .userCreated).time)
      ⟨env.newId .user, email, role, password, false⟩ :=
  ⟨rfl, rfl, rfl, rfl, rfl, rfl⟩

theorem Represents.id_iff {r : UserRow} {a : Account} (h : Represents B r a) {id : Uuid} :
    r.id = id.val ↔ a.id = id := by
  rw [h.id]
  exact Subtype.ext_iff.symm

/-- An operation that succeeds does to the table what it means, and one that fails nothing. -/
theorem Operation.run_cases (env : Env) (op : Operation) {s : Store}
    (h : List.Forall₂ (Represents B) s.db.users.rows d) :
    (∃ t, op.run env B s = (.ok (), t) ∧ List.Forall₂ (Represents B) t.db.users.rows (op.apply env d)) ∨
      ∃ e, op.run env B s = (.err e, s) := by
  cases op with
  | create email role password =>
      rcases create_cases env B email role password s with ⟨-, user, t, hrun⟩ | ⟨-, e, hrun⟩
      · refine .inl ⟨t, (bind_ok hrun _).trans rfl, ?_⟩
        obtain ⟨-, -, -, salt, users, hins, rfl⟩ := createUser_ok hrun
        obtain ⟨-, hrows⟩ := Table.insert_some hins
        dsimp only
        rw [hrows]
        exact List.rel_append h (.cons (represents_new env email role password salt) .nil)
      · exact .inr ⟨e, bind_err hrun _⟩
  | rotatePassword id newPassword =>
      rcases rotatePassword_cases env B id newPassword s with ⟨salt, hrun⟩ | ⟨e, hrun⟩
      · refine .inl ⟨_, hrun, represents_change h ?_ ?_⟩
        · intro r a hra hp
          refine ⟨hra.id_iff.mp (of_decide_eq_true hp), hra.id, hra.email, hra.role, hra.disabled, rfl, rfl⟩
        · intro r a hra hp hid
          exact absurd (hra.id_iff.mpr hid) (of_decide_eq_false hp)
      · exact .inr ⟨e, hrun⟩
  | disable id =>
      rcases disableUser_cases env id s with ⟨-, hrun⟩ | ⟨-, e, hrun⟩
      · refine .inl ⟨_, hrun, represents_change h ?_ ?_⟩
        · intro r a hra hp
          rw [Bool.and_eq_true, decide_eq_true_eq] at hp
          exact ⟨hra.id_iff.mp hp.1, hra.id, hra.email, hra.role, rfl, hra.iterations, hra.hash⟩
        · intro r a hra hp hid
          rw [decide_eq_true (hra.id_iff.mpr hid), Bool.true_and, Option.isNone_eq_false_iff] at hp
          exact ⟨hra.id, hra.email, hra.role, hp, hra.iterations, hra.hash⟩
      · exact .inr ⟨e, hrun⟩
  | enable id =>
      rcases enableUser_cases env id s with ⟨-, hrun⟩ | ⟨-, e, hrun⟩
      · refine .inl ⟨_, hrun, represents_change h ?_ ?_⟩
        · intro r a hra hp
          exact ⟨hra.id_iff.mp (of_decide_eq_true hp), hra.id, hra.email, hra.role, rfl, hra.iterations, hra.hash⟩
        · intro r a hra hp hid
          exact absurd (hra.id_iff.mpr hid) (of_decide_eq_false hp)
      · exact .inr ⟨e, hrun⟩

theorem Refines.step {r : Run} (h : Refines B r) (call : Env × Operation) : Refines B (r.step B call) := by
  rcases call.2.run_cases call.1 h with ⟨t, hrun, ht⟩ | ⟨e, hrun⟩
  · simp only [Refines, Run.step, hrun]
    exact ht
  · simp only [Refines, Run.step, hrun]
    exact h

theorem refines_after {s : Store} (hempty : s.db.users.rows = []) (calls : List (Env × Operation)) :
    Refines B (Run.after B s calls) := by
  have hstart : Refines B ⟨s, []⟩ := by
    rw [Refines, hempty]
    exact .nil
  have hrun : ∀ r, Refines B r → Refines B (calls.foldl (Run.step B) r) := by
    induction calls with
    | nil => exact fun r h => h
    | cons call calls ih => exact fun r h => ih (r.step B call) (h.step call)
  exact hrun _ hstart

theorem given_after {plays : Text → Prop} {s : Store} {calls : List (Env × Operation)}
    (hplays : ∀ call ∈ calls, ∀ p, call.2.password = some p → plays p) :
    ∀ a ∈ (Run.after B s calls).directory, plays a.password := by
  have happly : ∀ (env : Env) (op : Operation) (d : List Account), (∀ p, op.password = some p → plays p) →
      (∀ a ∈ d, plays a.password) → ∀ a ∈ op.apply env d, plays a.password := by
    intro env op d hop hd a ha
    cases op with
    | create email role password =>
        rcases List.mem_append.mp ha with hold | hnew
        · exact hd a hold
        · rw [List.mem_singleton.mp hnew]
          exact hop password rfl
    | rotatePassword id newPassword =>
        obtain ⟨b, hb, rfl⟩ := List.mem_map.mp ha
        split_ifs
        · exact hop newPassword rfl
        · exact hd b hb
    | disable id =>
        obtain ⟨b, hb, rfl⟩ := List.mem_map.mp ha
        split_ifs <;> exact hd b hb
    | enable id =>
        obtain ⟨b, hb, rfl⟩ := List.mem_map.mp ha
        split_ifs <;> exact hd b hb
  have hrun : ∀ r : Run, (∀ a ∈ r.directory, plays a.password) →
      ∀ a ∈ (calls.foldl (Run.step B) r).directory, plays a.password := by
    induction calls with
    | nil => exact fun r h => h
    | cons call calls ih =>
        intro r h
        have hcall := hplays call List.mem_cons_self
        apply ih (fun c hc => hplays c (List.mem_cons_of_mem call hc))
        unfold Run.step
        dsimp only
        split
        · exact happly call.1 call.2 r.directory hcall h
        · exact h
  exact hrun ⟨s, []⟩ (by simp)

theorem mem_account (h : List.Forall₂ (Represents B) rows d) {r : UserRow} (hr : r ∈ rows) :
    ∃ a ∈ d, Represents B r a := by
  induction h with
  | nil => cases hr
  | @cons r' a rows d hra _ ih =>
      rcases List.mem_cons.mp hr with rfl | hr
      · exact ⟨a, List.mem_cons_self, hra⟩
      · obtain ⟨b, hb, hrb⟩ := ih hr
        exact ⟨b, List.mem_cons_of_mem a hb, hrb⟩

theorem mem_row (h : List.Forall₂ (Represents B) rows d) {a : Account} (ha : a ∈ d) :
    ∃ r ∈ rows, Represents B r a := by
  induction h with
  | nil => cases ha
  | @cons r a' rows d hra _ ih =>
      rcases List.mem_cons.mp ha with rfl | ha
      · exact ⟨r, List.mem_cons_self, hra⟩
      · obtain ⟨r', hr', hra'⟩ := ih ha
        exact ⟨r', List.mem_cons_of_mem r hr', hra'⟩

theorem emails_eq (h : List.Forall₂ (Represents B) rows d) : d.map Account.email = rows.map UserRow.email := by
  induction h with
  | nil => rfl
  | cons hra _ ih => rw [List.map_cons, List.map_cons, hra.email, ih]

theorem Refines.email_unique {r : Run} (h : Refines B r) {a b : Account} (ha : a ∈ r.directory)
    (hb : b ∈ r.directory) (hab : a.email = b.email) : a = b := by
  have hnodup : (r.store.db.users.rows.map UserRow.email).Nodup := by
    have hkeys : ((r.store.db.users.rows.map UserRow.email).map encode).Nodup := by
      rw [List.map_map]
      exact r.store.db.users.unique (fun row => encode row.email) (by simp)
    exact hkeys.of_map encode
  rw [← emails_eq h] at hnodup
  exact List.inj_on_of_nodup_map hnodup ha hb hab

theorem rowToUser_password {r : UserRow} {user : User} (h : rowToUser r = .ok user) :
    user.passwordHash = r.passwordHash ∧ user.passwordSalt = r.passwordSalt ∧
      user.passwordIters = UInt64.ofInt r.passwordIters := by
  unfold rowToUser at h
  cases hid : uuidFrom 0 "id" r.id <;> cases hrole : UserRole.parse r.role <;> rw [hid, hrole] at h <;> cases h
  exact ⟨rfl, rfl, rfl⟩

theorem Represents.reads {r : UserRow} {a : Account} (h : Represents B r a) {user : User}
    (hread : rowToUser r = .ok user) : user.passwordIters.toNat = Kdf.pbkdf2MinIterations := by
  obtain ⟨-, -, hiters⟩ := rowToUser_password hread
  rw [hiters, h.iterations]
  rfl

theorem Represents.readable {r : UserRow} {a : Account} (h : Represents B r a) :
    ∃ user, rowToUser r = .ok user := by
  simp only [rowToUser, h.id, uuidFrom_val, h.role, UserRole.parse_asStr]
  exact ⟨_, rfl⟩

def Reads (s : Store) (id : Uuid) (user : User) : Prop :=
  ∃ r ∈ s.db.users.rows, r.id = id.val ∧ rowToUser r = .ok user

/-- The user is the only one of the address, enabled, and the password is the last one given to
it. -/
def Entitled (r : Run) (email password : Text) (user : User) : Prop :=
  ∃ a ∈ r.directory, a.email = email ∧ (∀ b ∈ r.directory, b.email = email → b = a) ∧ a.disabled = false ∧
    a.password = password ∧ Reads r.store a.id user

/-- The derivation tells the passwords apart, under any one salt. -/
def Distinguishes (B : Bcrypt) (plays : Text → Prop) : Prop :=
  ∀ p q, plays p → plays q → ∀ salt, Cng.pbkdf2HmacSha256 B (encode p) salt Kdf.pbkdf2MinIterations 32 =
    Cng.pbkdf2HmacSha256 B (encode q) salt Kdf.pbkdf2MinIterations 32 → p = q

theorem Refines.verify_iff {r : Run} (h : Refines B r) {plays : Text → Prop} (hdist : Distinguishes B plays)
    (hplays : ∀ a ∈ r.directory, plays a.password) {env : Env}
    (hcalls : env.fails .selectUserByEmail = false ∧ env.fails .deriveCandidate = false) {email password : Text}
    (hpassword : plays password) {user : User} :
    verifyPassword env B email password r.store = (.ok (some user), r.store) ↔ Entitled r email password user := by
  rw [verifyPassword_some_iff, and_iff_left rfl]
  constructor
  · intro hauth
    obtain ⟨row, hfind, hread⟩ := hauth.row
    obtain ⟨hrow, hemail⟩ := Table.find_some hfind
    obtain ⟨a, ha, hra⟩ := mem_account h hrow
    have haemail : a.email = email := hra.email.symm.trans (of_decide_eq_true hemail)
    obtain ⟨hhash, hsalt, -⟩ := rowToUser_password hread
    refine ⟨a, ha, haemail, ?_, ?_, ?_, row, hrow, hra.id, hread⟩
    · intro b hb hbemail
      exact h.email_unique hb ha (hbemail.trans haemail.symm)
    · obtain ⟨-, -, -, hdisabled⟩ := rowToUser_ok hread
      rw [← hra.disabled, ← Option.isSome_map (f := millisToDt), ← hdisabled, hauth.enabled]
      rfl
    · have hkey := hauth.password
      rw [hra.reads hread, hhash, hsalt, hra.hash] at hkey
      exact (hdist _ _ hpassword (hplays a ha) _ (Subtype.ext hkey)).symm
  · rintro ⟨a, ha, rfl, -, hdisabled, rfl, row, hrow, hid, hread⟩
    obtain ⟨row', hrow', hra⟩ := mem_row h ha
    obtain rfl : row' = row := user_of_id hrow' hrow (hra.id.trans hid.symm)
    obtain ⟨hhash, hsalt, -⟩ := rowToUser_password hread
    obtain ⟨-, -, -, hread'⟩ := rowToUser_ok hread
    refine ⟨hcalls, ⟨row', ?_, hread⟩, ?_, ?_⟩
    · apply Table.find_of_mem hrow' (decide_eq_true hra.email)
      intro r' hr' hemail
      exact user_of_email hr' hrow' ((of_decide_eq_true hemail).trans hra.email.symm)
    · rw [hread', ← Option.isNone_iff_eq_none, Option.isNone_map, ← Option.not_isSome, hra.disabled, hdisabled]
      rfl
    · rw [hra.reads hread, hhash, hsalt, hra.hash]

/-- In every run, `verify_password` gives a user exactly when it is the only one of the address,
enabled, and the password is the last one given to it; a call that fails changes no answer. -/
theorem passwords_follow_run {plays : Text → Prop} (hdist : Distinguishes B plays) {s : Store}
    (hempty : s.db.users.rows = []) {calls : List (Env × Operation)}
    (hplays : ∀ call ∈ calls, ∀ p, call.2.password = some p → plays p) :
    (∀ env : Env, env.fails .selectUserByEmail = false ∧ env.fails .deriveCandidate = false →
      ∀ email password user, plays password →
        (verifyPassword env B email password (Run.after B s calls).store =
            (.ok (some user), (Run.after B s calls).store) ↔
          Entitled (Run.after B s calls) email password user)) ∧
    ∀ (env : Env) (op : Operation) e t, op.run env B (Run.after B s calls).store = (.err e, t) →
      ∀ (env' : Env) email password, (verifyPassword env' B email password t).1 =
        (verifyPassword env' B email password (Run.after B s calls).store).1 := by
  have hrefines := refines_after (B := B) hempty calls
  constructor
  · intro env hcalls email password user hpassword
    exact hrefines.verify_iff hdist (given_after hplays) hcalls hpassword
  · intro env op e t hfail env' email password
    rcases op.run_cases env hrefines with ⟨t', hrun, -⟩ | ⟨e', hrun⟩
    · cases hrun.symm.trans hfail
    · cases hrun.symm.trans hfail
      rfl

end

def accountHost (n : UInt8) : Env where
  now _ := .unixEpoch
  random _ k := some ⟨List.replicate k 31, List.length_replicate⟩
  newId _ := ⟨n :: List.replicate 15 32, rfl⟩
  fails _ := false
  partialWrite := none

def accountEmail : Text := "dan@example.com".toList

def accountPassword : Text := "hunter2hunter2".toList

/-- A second account of the address is refused; the first one is disabled and enabled again. -/
def accountCalls : List (Env × Operation) :=
  [(accountHost 41, .create accountEmail .admin accountPassword),
    (accountHost 42, .create accountEmail .vendor accountPassword),
    (accountHost 43, .disable ((accountHost 41).newId .user)),
    (accountHost 44, .enable ((accountHost 41).newId .user))]

theorem accountCalls_directory : (Run.after .reference .fresh accountCalls).directory =
    [⟨(accountHost 41).newId .user, accountEmail, .admin, accountPassword, false⟩] := rfl

theorem passwords_follow_run_sample : ∃ user,
    verifyPassword (accountHost 45) .reference accountEmail accountPassword
        (Run.after .reference .fresh accountCalls).store =
      (.ok (some user), (Run.after .reference .fresh accountCalls).store) ∧
    Entitled (Run.after .reference .fresh accountCalls) accountEmail accountPassword user := by
  have hdist : Distinguishes .reference (· = accountPassword) := by
    rintro p q rfl rfl - -
    rfl
  have hplays : ∀ call ∈ accountCalls, ∀ p, call.2.password = some p → p = accountPassword := by
    simp [accountCalls, Operation.password]
  obtain ⟨hverify, -⟩ := passwords_follow_run hdist (s := Store.fresh) rfl hplays
  have ha : ⟨(accountHost 41).newId .user, accountEmail, .admin, accountPassword, false⟩ ∈
      (Run.after .reference .fresh accountCalls).directory := List.mem_singleton_self _
  obtain ⟨row, hrow, hra⟩ := mem_row (refines_after (B := .reference) rfl accountCalls) ha
  obtain ⟨user, hread⟩ := hra.readable
  have hentitled : Entitled (Run.after .reference .fresh accountCalls) accountEmail accountPassword user := by
    refine ⟨_, ha, rfl, ?_, rfl, rfl, row, hrow, hra.id, hread⟩
    intro b hb _
    rw [accountCalls_directory] at hb
    exact List.mem_singleton.mp hb
  exact ⟨user, (hverify (accountHost 45) ⟨rfl, rfl⟩ accountEmail accountPassword user rfl).mpr hentitled, hentitled⟩

end FipsDropbox.Storage.Users
