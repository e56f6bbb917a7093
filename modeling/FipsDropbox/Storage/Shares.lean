import FipsDropbox.Storage.Db

/-!
# crates/storage: shares

One row per file and vendor. A download slot is consumed by one conditional
`UPDATE`, the only statement that touches `download_count`.
-/
namespace FipsDropbox.Storage
open Utf8 Exec Crypto

structure Share where
  id : Uuid
  printId : Uuid
  vendorId : Uuid
  tokenHash : Octets 32
  accessCodeHash : Octets 32
  expiresAt : OffsetDateTime
  maxDownloads : UInt32
  downloadCount : UInt32
  senderNote : Option Text
  createdBy : Uuid
  createdAt : OffsetDateTime
  revokedAt : Option OffsetDateTime

structure ShareSecrets where
  urlToken : Text
  accessCode : Text

structure ShareListItem where
  id : Uuid
  vendorName : Text
  vendorEmail : Text
  filename : Text
  sizeBytes : UInt64
  createdAt : OffsetDateTime
  expiresAt : OffsetDateTime
  maxDownloads : UInt32
  downloadCount : UInt32
  revokedAt : Option OffsetDateTime
  senderNote : Option Text

namespace ShareListItem
variable (item : ShareListItem)

def isRevoked : Bool := item.revokedAt.isSome

def isExpired (now : OffsetDateTime) : Bool := item.expiresAt.nanos < now.nanos

def isExhausted : Bool := item.maxDownloads ≤ item.downloadCount

def isActive (now : OffsetDateTime) : Bool := !item.isRevoked && !item.isExpired now && !item.isExhausted

def statusLabel (now : OffsetDateTime) : Text :=
  if item.isRevoked then "revoked".toList
  else if item.isExpired now then "expired".toList
  else if item.isExhausted then "downloaded".toList
  else "active".toList

end ShareListItem

/-- `row_to_share`. -/
def rowToShare (r : ShareRow) : Except SqliteError Share := do
  let id ← uuidFrom 0 "id" r.id
  let printId ← uuidFrom 1 "print_id" r.printId
  let vendorId ← uuidFrom 2 "vendor_id" r.vendorId
  let tokenHash ← octetsFrom 32 3 "token_hash" r.tokenHash
  let accessCodeHash ← octetsFrom 32 4 "access_code_hash" r.accessCodeHash
  let createdBy ← uuidFrom 9 "created_by" r.createdBy
  pure {
    id, printId, vendorId, tokenHash, accessCodeHash, createdBy
    expiresAt := millisToDt r.expiresAt
    maxDownloads := UInt32.ofInt r.maxDownloads
    downloadCount := UInt32.ofInt r.downloadCount
    senderNote := r.senderNote
    createdAt := millisToDt r.createdAt
    revokedAt := r.revokedAt.map millisToDt }

/-- `row_to_list_item` on a row of the join. -/
def rowToListItem (row : ShareRow × VendorRow × PrintRow) : Except SqliteError ShareListItem := do
  let (r, v, p) := row
  let id ← uuidFrom 0 "id" r.id
  pure {
    id
    vendorName := v.displayName
    vendorEmail := v.primaryEmail
    filename := p.filename
    sizeBytes := UInt64.ofInt p.sizeBytes
    createdAt := millisToDt r.createdAt
    expiresAt := millisToDt r.expiresAt
    maxDownloads := UInt32.ofInt r.maxDownloads
    downloadCount := UInt32.ofInt r.downloadCount
    revokedAt := r.revokedAt.map millisToDt
    senderNote := r.senderNote }

def Db.insertShare (r : ShareRow) (db : Db) : Option (ℕ × Db) :=
  if db.prints.has PrintRow.id r.printId && db.vendors.has VendorRow.id r.vendorId &&
      db.users.has UserRow.id r.createdBy then
    (db.shares.insert r).map fun shares => (1, { db with shares })
  else none

/-- The `WHERE` of the consuming `UPDATE`. -/
def ShareRow.consumable (id : Bytes) (now : ℤ) (r : ShareRow) : Bool :=
  r.id = id && r.revokedAt.isNone && now < r.expiresAt && r.downloadCount < r.maxDownloads

def ShareRow.consumed (r : ShareRow) : ShareRow := { r with downloadCount := r.downloadCount + 1 }

def ShareRow.revoked (now : ℤ) (r : ShareRow) : ShareRow := { r with revokedAt := some now }

theorem ShareRow.consumed_keys : ∀ key ∈ [ShareRow.id, ShareRow.tokenHash], ∀ r, key (consumed r) = key r := by
  intro key hkey r
  rcases List.mem_pair.mp hkey with rfl | rfl <;> rfl

theorem ShareRow.revoked_keys (now : ℤ) :
    ∀ key ∈ [ShareRow.id, ShareRow.tokenHash], ∀ r, key (revoked now r) = key r := by
  intro key hkey r
  rcases List.mem_pair.mp hkey with rfl | rfl <;> rfl

theorem share_of_id {db : Db} {r r' : ShareRow} (hr : r ∈ db.shares.rows) (hr' : r' ∈ db.shares.rows)
    (h : r.id = r'.id) : r = r' := Table.eq_of_key (by simp : ShareRow.id ∈ _) hr hr' h

theorem share_of_token {db : Db} {r r' : ShareRow} (hr : r ∈ db.shares.rows) (hr' : r' ∈ db.shares.rows)
    (h : r.tokenHash = r'.tokenHash) : r = r' := Table.eq_of_key (by simp : ShareRow.tokenHash ∈ _) hr hr' h

def Db.consumeDownload (id : Bytes) (now : ℤ) (db : Db) : Option (ℕ × Db) :=
  let out := db.shares.update (ShareRow.consumable id now) ShareRow.consumed ShareRow.consumed_keys
  some (out.1, { db with shares := out.2 })

def Db.revokeShare (id : Bytes) (now : ℤ) (db : Db) : Option (ℕ × Db) :=
  let out := db.shares.update (fun r => r.id = id && r.revokedAt.isNone) (ShareRow.revoked now)
    (ShareRow.revoked_keys now)
  some (out.1, { db with shares := out.2 })

def Db.deleteSharesBefore (cutoff : ℤ) (db : Db) : Option (ℕ × Db) :=
  let out := db.shares.delete fun r => r.expiresAt < cutoff
  some (out.1, { db with shares := out.2 })

/-- Shares joined with vendors and prints, the newest first. -/
def Db.recentShares (limit : ℕ) (db : Db) : List (ShareRow × VendorRow × PrintRow) :=
  let joined := db.shares.rows.filterMap fun r =>
    match db.vendors.find fun v => v.id = r.vendorId, db.prints.find fun p => p.id = r.printId with
    | some v, some p => some (r, v, p)
    | _, _ => none
  (joined.mergeSort fun a b => b.1.createdAt ≤ a.1.createdAt).take limit

def newShareRow (id printId vendorId : Uuid) (tokenHash accessCodeHash : Octets 32)
    (expiresAt : OffsetDateTime) (maxDownloads : UInt32) (senderNote : Option Text) (createdBy : Uuid)
    (now : OffsetDateTime) : ShareRow where
  id := id.val
  printId := printId.val
  vendorId := vendorId.val
  tokenHash := tokenHash.val
  accessCodeHash := accessCodeHash.val
  expiresAt := dtToMillis expiresAt
  maxDownloads := maxDownloads.toNat
  downloadCount := 0
  senderNote
  createdBy := createdBy.val
  createdAt := dtToMillis now
  revokedAt := none

namespace Shares
variable (env : Env) (B : Bcrypt)

def create (printId vendorId : Uuid) (expiresAt : OffsetDateTime) (maxDownloads : UInt32)
    (senderNote : Option Text) (createdBy : Uuid) : Exec Store StorageError (Share × ShareSecrets) := do
  let urlToken ← adapt StorageError.crypto (Token.urlToken env)
  let accessCode ← adapt StorageError.crypto (Token.accessCode env)
  let tokenHash ← adapt StorageError.crypto (Hash.sha256 env B .hashUrlToken (encode urlToken))
  let accessCodeHash ← adapt StorageError.crypto (Hash.sha256 env B .hashAccessCode (encode accessCode))
  let _ ← execute env .insertShare (Db.insertShare (newShareRow (env.newId .share) printId vendorId
    tokenHash accessCodeHash expiresAt maxDownloads senderNote createdBy (env.now .shareCreated).time))
  pure ({
    id := env.newId .share
    printId, vendorId, tokenHash, accessCodeHash, expiresAt, maxDownloads, senderNote, createdBy
    downloadCount := 0
    createdAt := (env.now .shareCreated).time
    revokedAt := none }, { urlToken, accessCode })

def findByTokenHash (tokenHash : Octets 32) : Exec Store StorageError (Option Share) :=
  queryRow env .selectShare (fun db => db.shares.find fun r => r.tokenHash = tokenHash.val) rowToShare

def verifyAccessCode (share : Share) (candidate : Text) : Exec Store StorageError Bool := do
  let h ← adapt StorageError.crypto (Hash.sha256 env B .hashCandidateCode (encode candidate))
  pure (constantTimeEq h.val share.accessCodeHash.val)

def tryConsumeDownload (shareId : Uuid) : Exec Store StorageError Bool := do
  let now := dtToMillis (env.now .consumeDownload).time
  let affected ← execute env .updateDownloadCount (Db.consumeDownload shareId.val now)
  pure (affected == 1)

def revoke (shareId : Uuid) : Exec Store StorageError Unit := do
  let now := dtToMillis (env.now .shareRevoked).time
  let affected ← execute env .updateShareRevoked (Db.revokeShare shareId.val now)
  failIf (affected == 0) .notFound

def listRecent (limit : UInt32) : Exec Store StorageError (List ShareListItem) :=
  queryMap env .listShares (Db.recentShares limit.toNat) rowToListItem

/-- `purge_expired`; the grace period is cast to `i64`, and a cutoff outside the
calendar panics. -/
def purgeExpired (graceSeconds : UInt64) : Exec Store StorageError ℕ := do
  let cutoff ← orPanic ((env.now .purge).time.add (-(graceSeconds.toInt64.toInt * nanosPerSecond)))
  execute env .deleteShares (Db.deleteSharesBefore (dtToMillis cutoff))

end Shares

theorem insertShare_some {r : ShareRow} {db db' : Db} {n : ℕ} (h : Db.insertShare r db = some (n, db')) :
    n = 1 ∧ ∃ shares, db.shares.insert r = some shares ∧ db' = { db with shares } := by
  unfold Db.insertShare at h
  split_ifs at h
  obtain ⟨shares, hs, hdb⟩ := Option.map_eq_some_iff.mp h
  cases hdb
  exact ⟨rfl, shares, hs, rfl⟩

/-- A share is inserted with its print and its vendor there. -/
theorem insertShare_refers {r : ShareRow} {db db' : Db} {n : ℕ} (h : Db.insertShare r db = some (n, db')) :
    (∃ print ∈ db.prints.rows, print.id = r.printId) ∧ ∃ vendor ∈ db.vendors.rows, vendor.id = r.vendorId := by
  unfold Db.insertShare at h
  split_ifs at h with hrefers
  simp only [Bool.and_eq_true] at hrefers
  exact ⟨Table.has_iff.mp hrefers.1.1, Table.has_iff.mp hrefers.1.2⟩

theorem insertShare_none_iff {r : ShareRow} {db : Db} :
    Db.insertShare r db = none ↔ db.prints.has PrintRow.id r.printId = false ∨
      db.vendors.has VendorRow.id r.vendorId = false ∨ db.users.has UserRow.id r.createdBy = false ∨
      r.id ∈ db.shares.rows.map ShareRow.id ∨ r.tokenHash ∈ db.shares.rows.map ShareRow.tokenHash := by
  unfold Db.insertShare
  split_ifs with h
  · simp only [Bool.and_eq_true] at h
    simp [Table.insert_none_iff, h]
  · simp only [Bool.and_eq_true, not_and_or, Bool.not_eq_true] at h
    simp only [true_iff]
    tauto

/-- A decoded share keeps the identifiers and hashes of its row. -/
theorem rowToShare_ok {r : ShareRow} {sh : Share} (h : rowToShare r = .ok sh) :
    sh.id.val = r.id ∧ sh.printId.val = r.printId ∧ sh.vendorId.val = r.vendorId ∧
      sh.tokenHash.val = r.tokenHash ∧ sh.accessCodeHash.val = r.accessCodeHash := by
  obtain ⟨id, h1, h⟩ := of_except_bind h
  obtain ⟨printId, h2, h⟩ := of_except_bind h
  obtain ⟨vendorId, h3, h⟩ := of_except_bind h
  obtain ⟨tokenHash, h4, h⟩ := of_except_bind h
  obtain ⟨accessCodeHash, h5, h⟩ := of_except_bind h
  obtain ⟨createdBy, -, h⟩ := of_except_bind h
  cases h
  exact ⟨of_uuidFrom_ok h1, of_uuidFrom_ok h2, of_uuidFrom_ok h3, of_octetsFrom_ok h4, of_octetsFrom_ok h5⟩

/-- Rows that `create` made decode whatever has been counted on them since. -/
theorem rowToShare_new (id printId vendorId : Uuid) (tokenHash accessCodeHash : Octets 32)
    (expiresAt : OffsetDateTime) (maxDownloads : UInt32) (senderNote : Option Text) (createdBy : Uuid)
    (now : OffsetDateTime) (count : ℤ) :
    ∃ sh, rowToShare { newShareRow id printId vendorId tokenHash accessCodeHash expiresAt maxDownloads
      senderNote createdBy now with downloadCount := count } = .ok sh := by
  simp only [rowToShare, newShareRow, uuidFrom_val, octetsFrom_val]
  exact ⟨_, rfl⟩

theorem consumable_iff {id : Bytes} {now : ℤ} {r : ShareRow} :
    r.consumable id now = true ↔
      r.id = id ∧ r.revokedAt = none ∧ now < r.expiresAt ∧ r.downloadCount < r.maxDownloads := by
  simp only [ShareRow.consumable, Bool.and_eq_true, decide_eq_true_eq, Option.isNone_iff_eq_none, and_assoc]

section
variable {env : Env} {B : Bcrypt}

def Db.afterConsume (id : Bytes) (now : ℤ) (db : Db) : Db :=
  { db with shares := (db.shares.update (ShareRow.consumable id now) ShareRow.consumed
      ShareRow.consumed_keys).2 }

/-- One slot of the one usable row, or nothing. -/
theorem tryConsumeDownload_cases (env : Env) (id : Uuid) (s : Store) :
    (∃ e, Shares.tryConsumeDownload env id s = (.err e, s) ∧ env.fails .updateDownloadCount = true) ∨
    (env.fails .updateDownloadCount = false ∧
      Shares.tryConsumeDownload env id s =
        (.ok true, { s with db := s.db.afterConsume id.val (dtToMillis (env.now .consumeDownload).time) }) ∧
      ∃ r ∈ s.db.shares.rows, r.consumable id.val (dtToMillis (env.now .consumeDownload).time) = true) ∨
    (env.fails .updateDownloadCount = false ∧ Shares.tryConsumeDownload env id s = (.ok false, s) ∧
      ∀ r ∈ s.db.shares.rows, r.consumable id.val (dtToMillis (env.now .consumeDownload).time) = false) := by
  rcases execute_cases env .updateDownloadCount
      (Db.consumeDownload id.val (dtToMillis (env.now .consumeDownload).time)) s with
    ⟨e, he, hf | hf⟩ | ⟨n, db, hq, hf, he⟩
  · exact .inl ⟨_, by rw [Shares.tryConsumeDownload, bind_err he], hf⟩
  · cases hf
  · obtain ⟨rfl, rfl⟩ := Prod.mk.inj (Option.some.inj hf)
    have hrun : Shares.tryConsumeDownload env id s = (.ok ((s.db.shares.rows.countP
        (ShareRow.consumable id.val (dtToMillis (env.now .consumeDownload).time))) == 1),
        { s with db := s.db.afterConsume id.val (dtToMillis (env.now .consumeDownload).time) }) := by
      rw [Shares.tryConsumeDownload, bind_ok he]
      rfl
    by_cases hex : ∃ r ∈ s.db.shares.rows,
        r.consumable id.val (dtToMillis (env.now .consumeDownload).time) = true
    · have hone := (Table.countP_eq_one s.db.shares (List.mem_cons_self : ShareRow.id ∈ _)
        fun r hr => (consumable_iff.mp hr).1).mpr hex
      rw [hone] at hrun
      exact .inr (.inl ⟨hq, hrun, hex⟩)
    · have hnone : ∀ r ∈ s.db.shares.rows,
          r.consumable id.val (dtToMillis (env.now .consumeDownload).time) = false := by
        intro r hr
        exact Bool.not_eq_true _ ▸ fun h => hex ⟨r, hr, h⟩
      have hupd := Table.update_none ShareRow.consumed ShareRow.consumed_keys hnone
      rw [Db.afterConsume, hupd, List.countP_eq_zero.mpr (by simpa using hnone)] at hrun
      exact .inr (.inr ⟨hq, hrun, hnone⟩)

theorem create_ok {printId vendorId createdBy : Uuid} {expiresAt : OffsetDateTime} {maxDownloads : UInt32}
    {senderNote : Option Text} {s s' : Store} {share : Share} {secrets : ShareSecrets}
    (h : Shares.create env B printId vendorId expiresAt maxDownloads senderNote createdBy s =
      (.ok (share, secrets), s')) :
    share.id = env.newId .share ∧
    ∃ shares, s.db.shares.insert (newShareRow (env.newId .share) printId vendorId
        (Cng.sha256 B (encode secrets.urlToken)) (Cng.sha256 B (encode secrets.accessCode)) expiresAt
        maxDownloads senderNote createdBy (env.now .shareCreated).time) = some shares ∧
      s' = { s with db := { s.db with shares } } := by
  obtain ⟨urlToken, s1, h1, k1⟩ := bind_ok_iff.mp h
  obtain rfl : s1 = s := (moves_urlToken stays_frame).of_run (adapt_ok_iff.mp h1)
  obtain ⟨accessCode, s2, h2, k2⟩ := bind_ok_iff.mp k1
  obtain rfl : s2 = s1 := (moves_accessCode stays_frame).of_run (adapt_ok_iff.mp h2)
  obtain ⟨tokenHash, s3, h3, k3⟩ := bind_ok_iff.mp k2
  obtain ⟨-, rfl, rfl⟩ := sha256_ok_iff.mp (adapt_ok_iff.mp h3)
  obtain ⟨accessCodeHash, s4, h4, k4⟩ := bind_ok_iff.mp k3
  obtain ⟨-, rfl, rfl⟩ := sha256_ok_iff.mp (adapt_ok_iff.mp h4)
  obtain ⟨n, s5, h5, k5⟩ := bind_ok_iff.mp k4
  obtain ⟨hout, rfl⟩ := Prod.mk.inj k5
  cases hout
  obtain ⟨db, hf, rfl⟩ := of_execute_ok h5
  obtain ⟨-, shares, hins, rfl⟩ := insertShare_some hf
  exact ⟨rfl, shares, hins, rfl⟩

theorem atomic_create (printId vendorId : Uuid) (expiresAt : OffsetDateTime) (maxDownloads : UInt32)
    (senderNote : Option Text) (createdBy : Uuid) :
    Atomic (Shares.create env B printId vendorId expiresAt maxDownloads senderNote createdBy) := by
  have F := stays_frame (σ := Store)
  exact atomic_bind (moves_adapt (moves_urlToken F)) fun _ =>
    atomic_bind (moves_adapt (moves_accessCode F)) fun _ =>
    atomic_bind (moves_adapt (moves_sha256 F _ _)) fun _ =>
    atomic_bind (moves_adapt (moves_sha256 F _ _)) fun _ =>
    atomic_map (atomic_execute _ _) _

def Db.afterRevoke (id : Bytes) (now : ℤ) (db : Db) : Db :=
  { db with shares := (db.shares.update (fun r => r.id = id && r.revokedAt.isNone) (ShareRow.revoked now)
      (ShareRow.revoked_keys now)).2 }

theorem revoke_cases (env : Env) (id : Uuid) (s : Store) :
    (Shares.revoke env id s =
        (.ok (), { s with db := s.db.afterRevoke id.val (dtToMillis (env.now .shareRevoked).time) }) ∧
      ∃ r ∈ s.db.shares.rows, r.id = id.val ∧ r.revokedAt = none) ∨
    ∃ e, Shares.revoke env id s = (.err e, s) := by
  rcases execute_cases env .updateShareRevoked
      (Db.revokeShare id.val (dtToMillis (env.now .shareRevoked).time)) s with
    ⟨e, he, -⟩ | ⟨n, db, -, hf, he⟩
  · exact .inr ⟨_, by rw [Shares.revoke, bind_err he]⟩
  · obtain ⟨rfl, rfl⟩ := Prod.mk.inj (Option.some.inj hf)
    by_cases hex : ∃ r ∈ s.db.shares.rows, (r.id = id.val && r.revokedAt.isNone) = true
    · have hne : (s.db.shares.rows.countP fun r => r.id = id.val && r.revokedAt.isNone) ≠ 0 :=
        (List.countP_pos_iff.mpr hex).ne'
      obtain ⟨r, hr, hp⟩ := hex
      refine .inl ⟨?_, r, hr, by simpa using hp⟩
      rw [Shares.revoke, bind_ok he]
      exact failIf_ok_iff.mpr ⟨beq_eq_false_iff_ne.mpr hne, rfl⟩
    · have hnone : ∀ r ∈ s.db.shares.rows, (r.id = id.val && r.revokedAt.isNone) = false := by
        intro r hr
        exact Bool.not_eq_true _ ▸ fun h => hex ⟨r, hr, h⟩
      have hupd := Table.update_none (ShareRow.revoked (dtToMillis (env.now .shareRevoked).time))
        (ShareRow.revoked_keys _) hnone
      rw [hupd] at he
      exact .inr ⟨.notFound, by rw [Shares.revoke, bind_ok he]; rfl⟩

/-! Effects along the functions. -/

section
variable {R : Store → Store → Prop} (F : Frame R)
include F

theorem moves_findByTokenHash (h : Octets 32) : Moves R (Shares.findByTokenHash env h) :=
  moves_queryRow F _ _ _

theorem moves_verifyAccessCode (share : Share) (candidate : Text) :
    Moves R (Shares.verifyAccessCode env B share candidate) :=
  F.bind (moves_adapt (moves_sha256 F _ _)) fun _ => F.pure _

/-- The consuming statement changes the one row it counts on. -/
theorem moves_tryConsumeDownload (id : Uuid)
    (h : ∀ (s : Store) now, R s { s with db := s.db.afterConsume id.val now }) :
    Moves R (Shares.tryConsumeDownload env id) := by
  refine F.bind (moves_execute F _ ?_) fun _ => F.pure _
  intro s n db hdb
  cases hdb
  exact h s _

/-- One `INSERT`, of a new row under its two hashes. -/
theorem moves_insertNewShare {printId vendorId createdBy : Uuid} {expiresAt : OffsetDateTime}
    {maxDownloads : UInt32} {senderNote : Option Text}
    (h : ∀ (s : Store) (tokenHash accessCodeHash : Octets 32) n db,
      Db.insertShare (newShareRow (env.newId .share) printId vendorId tokenHash accessCodeHash expiresAt maxDownloads
        senderNote createdBy (env.now .shareCreated).time) s.db = some (n, db) → R s { s with db }) :
    Moves R (Shares.create env B printId vendorId expiresAt maxDownloads senderNote createdBy) := by
  refine F.bind (moves_adapt (moves_urlToken F)) fun _ => F.bind (moves_adapt (moves_accessCode F)) fun _ =>
    F.bind (moves_adapt (moves_sha256 F _ _)) fun _ => F.bind (moves_adapt (moves_sha256 F _ _)) fun _ =>
    F.bind (moves_execute F _ ?_) fun _ => F.pure _
  intro s n db hdb
  exact h s _ _ n db hdb

theorem moves_insertShare {printId vendorId createdBy : Uuid} {expiresAt : OffsetDateTime}
    {maxDownloads : UInt32} {senderNote : Option Text}
    (h : ∀ (s : Store) row n db, row.id = (env.newId .share).val → row.printId = printId.val →
      row.vendorId = vendorId.val → Db.insertShare row s.db = some (n, db) → R s { s with db }) :
    Moves R (Shares.create env B printId vendorId expiresAt maxDownloads senderNote createdBy) := by
  apply moves_insertNewShare F
  intro s tokenHash accessCodeHash n db hdb
  exact h s _ n db rfl rfl rfl hdb

theorem moves_createShare {printId vendorId createdBy : Uuid} {expiresAt : OffsetDateTime}
    {maxDownloads : UInt32} {senderNote : Option Text}
    (h : ∀ (s : Store) row shares, row.id = (env.newId .share).val → row.printId = printId.val →
      s.db.shares.insert row = some shares → R s { s with db := { s.db with shares } }) :
    Moves R (Shares.create env B printId vendorId expiresAt maxDownloads senderNote createdBy) := by
  apply moves_insertShare F
  intro s row n db hid hprint _ hdb
  obtain ⟨-, shares, hins, rfl⟩ := insertShare_some hdb
  exact h s row shares hid hprint hins

theorem moves_purgeExpired (graceSeconds : UInt64)
    (h : ∀ (s : Store) cutoff, R s { s with db := { s.db with
      shares := (s.db.shares.delete fun r => r.expiresAt < cutoff).2 } }) :
    Moves R (Shares.purgeExpired env graceSeconds) := by
  refine F.bind (F.orPanic _) fun cutoff => moves_execute F _ ?_
  intro s n db hdb
  cases hdb
  exact h s _

end

theorem calm_tryConsumeDownload (id : Uuid) : Calm (Shares.tryConsumeDownload env id) :=
  calm_bind (calm_execute _ _) fun _ => calm_pure _

theorem calm_verifyAccessCode (share : Share) (candidate : Text) :
    Calm (Shares.verifyAccessCode env B share candidate) :=
  calm_bind (calm_adapt (calm_sha256 _ _)) fun _ => calm_pure _

end
end FipsDropbox.Storage
