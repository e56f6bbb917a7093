import FipsDropbox.Crypto.Envelope
import FipsDropbox.Lib.Table

/-!
# crates/storage: the database

The tables of the initial migration with their primary keys, unique columns and
foreign keys, and the files under `blobs_dir` by the path that is joined to it.
A column holds what the statements bind: byte strings of any length, texts and
integers. Each statement is atomic.
-/
namespace FipsDropbox.Storage
open Utf8 Exec Crypto

inductive SqliteError where
  | failure
  | constraint
  | invalidColumnType (column : ℕ) (name : String)

inductive StorageError where
  | sqlite (e : SqliteError)
  | io
  | crypto (e : CryptoError)
  | notFound
  | conflict

/-- `dt_to_millis`; division rounds toward zero. -/
def dtToMillis (t : OffsetDateTime) : ℤ := t.nanos.tdiv 1000000

/-- `millis_to_dt`, the epoch for what the calendar does not cover. -/
def millisToDt (ms : ℤ) : OffsetDateTime :=
  (OffsetDateTime.fromUnixNanos (ms * 1000000)).getD .unixEpoch

structure UserRow where
  id : Bytes
  email : Text
  role : Text
  passwordHash : Bytes
  passwordSalt : Bytes
  passwordIters : ℤ
  totpSecretWrapped : Option Bytes
  createdAt : ℤ
  disabledAt : Option ℤ

structure VendorRow where
  id : Bytes
  displayName : Text
  primaryEmail : Text
  primaryPhone : Option Text
  primaryUserId : Option Bytes
  createdBy : Bytes
  createdAt : ℤ
  disabledAt : Option ℤ

structure PrintRow where
  id : Bytes
  filename : Text
  sizeBytes : ℤ
  sha256Plaintext : Bytes
  blobPath : Text
  dekWrapped : Bytes
  nonce : Bytes
  tag : Bytes
  uploadedBy : Bytes
  uploadedAt : ℤ
  cuiAttested : ℤ

structure ShareRow where
  id : Bytes
  printId : Bytes
  vendorId : Bytes
  tokenHash : Bytes
  accessCodeHash : Bytes
  expiresAt : ℤ
  maxDownloads : ℤ
  downloadCount : ℤ
  senderNote : Option Text
  createdBy : Bytes
  createdAt : ℤ
  revokedAt : Option ℤ

structure SessionRow where
  id : Bytes
  userId : Bytes
  csrfToken : Bytes
  ip : Text
  userAgent : Text
  expiresAt : ℤ
  lastSeenAt : ℤ

structure ApiTokenRow where
  id : Bytes
  userId : Bytes
  label : Text
  tokenHash : Bytes
  createdAt : ℤ
  lastSeenAt : Option ℤ
  revokedAt : Option ℤ

structure Db where
  users : Table UserRow Bytes [UserRow.id, fun r => encode r.email]
  vendors : Table VendorRow Bytes [VendorRow.id]
  prints : Table PrintRow Bytes [PrintRow.id]
  shares : Table ShareRow Bytes [ShareRow.id, ShareRow.tokenHash]
  sessions : Table SessionRow Bytes [SessionRow.id]
  apiTokens : Table ApiTokenRow Bytes [ApiTokenRow.id, ApiTokenRow.tokenHash]

def Db.empty : Db := ⟨.empty, .empty, .empty, .empty, .empty, .empty⟩

abbrev Blobs := Text → Option Bytes

structure Store where
  db : Db
  blobs : Blobs

def Store.fresh : Store := ⟨.empty, fun _ => none⟩

section
variable (env : Env)

def statement (c : Call) : Exec Store StorageError Unit := failIf (env.fails c) (.sqlite .failure)

/-- `query_row(..).optional()`. -/
def queryRow {ρ α : Type} (c : Call) (row : Db → Option ρ) (decode : ρ → Except SqliteError α) :
    Exec Store StorageError (Option α) := do
  statement env c
  let found ← read fun s => row s.db
  match found with
  | none => pure none
  | some r => do
      let a ← lift StorageError.sqlite (decode r)
      pure (some a)

/-- `query_map`, collected. -/
def queryMap {ρ α : Type} (c : Call) (rows : Db → List ρ) (decode : ρ → Except SqliteError α) :
    Exec Store StorageError (List α) := do
  statement env c
  let found ← read fun s => rows s.db
  lift StorageError.sqlite (found.mapM decode)

/-- `execute`: the rows affected, unless a constraint refuses it. -/
def execute (c : Call) (f : Db → Option (ℕ × Db)) : Exec Store StorageError ℕ := do
  statement env c
  let result ← read fun s => f s.db
  match result with
  | none => throw (.sqlite .constraint)
  | some (n, db) => do
      modify fun s => { s with db }
      pure n

end

section
variable {env : Env} {ρ α : Type}

theorem queryRow_eq (c : Call) (row : Db → Option ρ) (decode : ρ → Except SqliteError α) (s : Store) :
    queryRow env c row decode s =
      (if env.fails c then .err (.sqlite .failure)
      else match row s.db with
        | none => .ok none
        | some r =>
            match decode r with
            | .ok a => .ok (some a)
            | .error e => .err (.sqlite e), s) := by
  cases hf : env.fails c with
  | true =>
      have hs : statement env c s = (.err (.sqlite .failure), s) := by
        rw [statement, hf]
        rfl
      rw [queryRow, bind_err hs, if_pos rfl]
  | false =>
      have hs : statement env c s = (.ok (), s) := by
        rw [statement, hf]
        rfl
      rw [queryRow, bind_ok hs, bind_ok (read_apply _ s)]
      cases row s.db with
      | none => rfl
      | some r =>
          dsimp only
          cases hd : decode r <;> rfl

variable (env) in
/-- The ways a query can end, none of which changes the state. -/
theorem queryRow_cases (c : Call) (row : Db → Option ρ) (decode : ρ → Except SqliteError α) (s : Store) :
    (env.fails c = false ∧ row s.db = none ∧ queryRow env c row decode s = (.ok none, s)) ∨
    (∃ r a, env.fails c = false ∧ row s.db = some r ∧ decode r = .ok a ∧
      queryRow env c row decode s = (.ok (some a), s)) ∨
    ∃ e, queryRow env c row decode s = (.err e, s) ∧
      (env.fails c = true ∨ ∃ r e', row s.db = some r ∧ decode r = .error e') := by
  rw [queryRow_eq]
  cases env.fails c with
  | true => exact .inr (.inr ⟨_, rfl, .inl rfl⟩)
  | false =>
      cases row s.db with
      | none => exact .inl ⟨rfl, rfl, rfl⟩
      | some r =>
          cases hd : decode r with
          | ok a => exact .inr (.inl ⟨r, a, rfl, rfl, hd, by simp [hd]⟩)
          | error e => exact .inr (.inr ⟨.sqlite e, by simp [hd], .inr ⟨r, e, rfl, hd⟩⟩)

theorem execute_eq (c : Call) (f : Db → Option (ℕ × Db)) (s : Store) :
    execute env c f s =
      if env.fails c then (.err (.sqlite .failure), s)
      else match f s.db with
        | none => (.err (.sqlite .constraint), s)
        | some (n, db) => (.ok n, { s with db }) := by
  cases hf : env.fails c with
  | true =>
      have hs : statement env c s = (.err (.sqlite .failure), s) := by
        rw [statement, hf]
        rfl
      rw [execute, bind_err hs, if_pos rfl]
  | false =>
      have hs : statement env c s = (.ok (), s) := by
        rw [statement, hf]
        rfl
      rw [execute, bind_ok hs, bind_ok (read_apply _ s)]
      cases f s.db with
      | none => rfl
      | some out => rfl

variable (env) in
/-- A statement fails and changes nothing, or has its effect. -/
theorem execute_cases (c : Call) (f : Db → Option (ℕ × Db)) (s : Store) :
    (∃ e, execute env c f s = (.err (.sqlite e), s) ∧ (env.fails c = true ∨ f s.db = none)) ∨
      ∃ n db, env.fails c = false ∧ f s.db = some (n, db) ∧
        execute env c f s = (.ok n, { s with db }) := by
  rw [execute_eq]
  cases hf : env.fails c with
  | true => exact .inl ⟨_, rfl, .inl rfl⟩
  | false =>
      rcases hd : f s.db with _ | ⟨n, db⟩
      · exact .inl ⟨_, rfl, .inr rfl⟩
      · exact .inr ⟨n, db, rfl, rfl, rfl⟩

theorem of_execute_ok {c : Call} {f : Db → Option (ℕ × Db)} {s s' : Store} {n : ℕ}
    (h : execute env c f s = (.ok n, s')) : ∃ db, f s.db = some (n, db) ∧ s' = { s with db } := by
  rcases execute_cases env c f s with ⟨e, he, -⟩ | ⟨m, db, -, hf, he⟩ <;> rw [he] at h
  · cases h
  · obtain ⟨hn, rfl⟩ := Prod.mk.inj h
    cases hn
    exact ⟨db, hf, rfl⟩

theorem execute_ok_iff {c : Call} {f : Db → Option (ℕ × Db)} {s s' : Store} {n : ℕ} :
    execute env c f s = (.ok n, s') ↔
      env.fails c = false ∧ ∃ db, f s.db = some (n, db) ∧ { s with db } = s' := by
  rw [execute_eq]
  cases env.fails c with
  | true => simp
  | false =>
      rcases f s.db with _ | ⟨m, db⟩
      · simp
      · simp [and_assoc, eq_comm]

theorem moves_execute {R : Store → Store → Prop} (F : Frame R) (c : Call)
    {f : Db → Option (ℕ × Db)} (h : ∀ s n db, f s.db = some (n, db) → R s { s with db }) :
    Moves R (execute env c f) := by
  intro s
  rcases execute_cases env c f s with ⟨e, he, -⟩ | ⟨n, db, -, hf, he⟩
  · rw [he]
    exact F.refl s
  · rw [he]
    exact h s n db hf

theorem atomic_execute (c : Call) (f : Db → Option (ℕ × Db)) : Atomic (execute env c f) := by
  intro s h
  rcases execute_cases env c f s with ⟨e, he, -⟩ | ⟨n, db, -, -, he⟩
  · rw [he]
  · rw [he] at h
    exact absurd rfl (h n)

theorem moves_queryRow {R : Store → Store → Prop} (F : Frame R) (c : Call) (row : Db → Option ρ)
    (decode : ρ → Except SqliteError α) : Moves R (queryRow env c row decode) := by
  intro s
  rw [queryRow_eq]
  exact F.refl s

theorem calm_queryRow (c : Call) (row : Db → Option ρ) (decode : ρ → Except SqliteError α) :
    Calm (queryRow env c row decode) := by
  intro s
  rw [queryRow_eq]
  dsimp only
  split_ifs
  · exact nofun
  · cases row s.db with
    | none => exact nofun
    | some r =>
        dsimp only
        cases decode r <;> exact nofun

theorem calm_execute (c : Call) (f : Db → Option (ℕ × Db)) : Calm (execute env c f) := by
  intro s
  rcases execute_cases env c f s with ⟨e, he, -⟩ | ⟨n, db, -, -, he⟩ <;> rw [he] <;> exact nofun

theorem mapM_ok_iff {ε : Type} {f : ρ → Except ε α} {rows : List ρ} {as : List α} :
    rows.mapM f = .ok as ↔ List.Forall₂ (fun r a => f r = .ok a) rows as := by
  induction rows generalizing as with
  | nil => simp [pure, Except.pure, eq_comm]
  | cons r rows ih =>
      rw [List.mapM_cons, List.forall₂_cons_left_iff]
      simp only [← ih]
      cases hr : f r with
      | error e => simp [bind, Except.bind]
      | ok a => cases hrows : rows.mapM f <;> simp [bind, Except.bind, pure, Except.pure, eq_comm]

theorem queryMap_ok_iff {c : Call} {rows : Db → List ρ} {decode : ρ → Except SqliteError α} {s t : Store}
    {as : List α} : queryMap env c rows decode s = (.ok as, t) ↔
      env.fails c = false ∧ List.Forall₂ (fun r a => decode r = .ok a) (rows s.db) as ∧ s = t := by
  simp only [queryMap, statement, bind_ok_iff, failIf_ok_iff, read_ok_iff, lift_ok_iff, mapM_ok_iff]
  constructor
  · rintro ⟨_, _, ⟨hc, rfl⟩, _, _, ⟨rfl, rfl⟩, h, rfl⟩
    exact ⟨hc, h, rfl⟩
  · rintro ⟨hc, h, rfl⟩
    exact ⟨(), s, ⟨hc, rfl⟩, _, s, ⟨rfl, rfl⟩, h, rfl⟩

/-- What a query returns is decoded from its rows. -/
theorem row_of_queryMap {c : Call} {rows : Db → List ρ} {decode : ρ → Except SqliteError α} {s t : Store}
    {as : List α} (h : queryMap env c rows decode s = (.ok as, t)) {a : α} (ha : a ∈ as) :
    ∃ r ∈ rows s.db, decode r = .ok a := by
  obtain ⟨-, hrows, -⟩ := queryMap_ok_iff.mp h
  obtain ⟨i, hi, rfl⟩ := List.mem_iff_getElem.mp ha
  have hi' : i < (rows s.db).length := hrows.length_eq ▸ hi
  exact ⟨_, List.getElem_mem hi', hrows.get hi' hi⟩

theorem moves_queryMap {R : Store → Store → Prop} (F : Frame R) (c : Call) (rows : Db → List ρ)
    (decode : ρ → Except SqliteError α) : Moves R (queryMap env c rows decode) :=
  F.bind (F.failIf _ _) fun _ => F.bind (F.read _) fun _ => F.lift _ _

end

/-- `Uuid::from_slice`. -/
def uuidFrom (column : ℕ) (name : String) (bs : Bytes) : Except SqliteError Uuid :=
  if h : bs.length = 16 then .ok ⟨bs, h⟩ else .error (.invalidColumnType column name)

/-- A blob of a fixed length. -/
def octetsFrom (n column : ℕ) (name : String) (bs : Bytes) : Except SqliteError (Octets n) :=
  if h : bs.length = n then .ok ⟨bs, h⟩ else .error (.invalidColumnType column name)

theorem octetsFrom_val {n : ℕ} (o : Octets n) (column : ℕ) (name : String) :
    octetsFrom n column name o.val = .ok o := dif_pos o.property

theorem of_uuidFrom_ok {column : ℕ} {name : String} {bs : Bytes} {id : Uuid}
    (h : uuidFrom column name bs = .ok id) : id.val = bs := by
  unfold uuidFrom at h
  split_ifs at h
  cases h
  rfl

theorem of_octetsFrom_ok {n column : ℕ} {name : String} {bs : Bytes} {o : Octets n}
    (h : octetsFrom n column name bs = .ok o) : o.val = bs := by
  unfold octetsFrom at h
  split_ifs at h
  cases h
  rfl

/-- A value of a sequence comes from a value of each part. -/
theorem of_except_bind {ε α β : Type} {m : Except ε α} {k : α → Except ε β} {b : β}
    (h : (m >>= k) = .ok b) : ∃ a, m = .ok a ∧ k a = .ok b := by
  cases m with
  | error e => cases h
  | ok a => exact ⟨a, rfl, h⟩

theorem uuidFrom_val (id : Uuid) (column : ℕ) (name : String) : uuidFrom column name id.val = .ok id :=
  dif_pos id.property

end FipsDropbox.Storage
