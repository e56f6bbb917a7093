import FipsDropbox.Storage.Db

/-!
# crates/storage: prints

A print is a row of metadata and a file of ciphertext. The file is written before
the row, and removed again when the row is refused.
-/
namespace FipsDropbox.Storage
open Utf8 Exec Crypto

structure Print where
  id : Uuid
  filename : Text
  sizeBytes : UInt64
  sha256Plaintext : Octets 32
  blobPath : Text
  dekWrapped : Bytes
  nonce : Octets 12
  tag : Octets 16
  uploadedBy : Uuid
  uploadedAt : OffsetDateTime
  cuiAttested : Bool

/-- `row_to_print`. -/
def rowToPrint (r : PrintRow) : Except SqliteError Print := do
  let id ← uuidFrom 0 "id" r.id
  let sha256Plaintext ← octetsFrom 32 3 "sha256_plaintext" r.sha256Plaintext
  let nonce ← octetsFrom 12 6 "nonce" r.nonce
  let tag ← octetsFrom 16 7 "tag" r.tag
  let uploadedBy ← uuidFrom 8 "uploaded_by" r.uploadedBy
  pure {
    id, sha256Plaintext, nonce, tag, uploadedBy
    filename := r.filename
    sizeBytes := UInt64.ofInt r.sizeBytes
    blobPath := r.blobPath
    dekWrapped := r.dekWrapped
    uploadedAt := millisToDt r.uploadedAt
    cuiAttested := r.cuiAttested ≠ 0 }

theorem rowToPrint_filename {r : PrintRow} {print : Print} (h : rowToPrint r = .ok print) :
    print.filename = r.filename := by
  obtain ⟨_, -, h⟩ := of_except_bind h
  obtain ⟨_, -, h⟩ := of_except_bind h
  obtain ⟨_, -, h⟩ := of_except_bind h
  obtain ⟨_, -, h⟩ := of_except_bind h
  obtain ⟨_, -, h⟩ := of_except_bind h
  cases h
  rfl

/-- `{first_byte_hex}/{uuid}.enc`. -/
def blobPathOf (id : Uuid) : Text := hexByte (id.val.headD 0) ++ '/' :: (id.text ++ ".enc".toList)

theorem blobPathOf_injective {id id' : Uuid} (h : blobPathOf id = blobPathOf id') : id = id' := by
  apply Uuid.text_injective
  have htail := congrArg (List.drop 3) h
  exact List.append_cancel_right htail

def Db.insertPrint (r : PrintRow) (db : Db) : Option (ℕ × Db) :=
  if db.users.has UserRow.id r.uploadedBy then
    (db.prints.insert r).map fun prints => (1, { db with prints })
  else none

/-- `DELETE FROM prints`, refused while a share refers to the row. -/
def Db.deletePrint (id : Bytes) (db : Db) : Option (ℕ × Db) :=
  if db.prints.has PrintRow.id id && db.shares.has ShareRow.printId id then none
  else
    let out := db.prints.delete fun r => r.id = id
    some (out.1, { db with prints := out.2 })

def newPrintRow (id : Uuid) (filename : Text) (size : ℕ) (sha256 : Octets 32) (dekWrapped : Bytes)
    (box : Sealed) (uploadedBy : Uuid) (now : OffsetDateTime) (cuiAttested : Bool) : PrintRow where
  id := id.val
  filename
  sizeBytes := size
  sha256Plaintext := sha256.val
  blobPath := blobPathOf id
  dekWrapped
  nonce := box.nonce.val
  tag := box.tag.val
  uploadedBy := uploadedBy.val
  uploadedAt := dtToMillis now
  cuiAttested := if cuiAttested then 1 else 0

def Store.setBlob (path : Text) (content : Option Bytes) (s : Store) : Store :=
  { s with blobs := fun p => if p = path then content else s.blobs p }

namespace PrintStore
section
variable (env : Env)

/-- `std::fs::write`; a failing one may have created the file and begun it. -/
def writeBlob (path : Text) (content : Bytes) : Exec Store StorageError Unit := fun s =>
  if env.fails .writeBlob then
    (.err .io, match env.partialWrite with
      | none => s
      | some n => s.setBlob path (some (content.take n)))
  else (.ok (), s.setBlob path (some content))

/-- `let _ = std::fs::remove_file`. -/
def removeBlob (path : Text) (s : Store) : Store :=
  if env.fails .removeBlob then s else s.setBlob path none

def find (c : Call) (id : Uuid) : Exec Store StorageError (Option Print) :=
  queryRow env c (fun db => db.prints.find fun r => r.id = id.val) rowToPrint

end

section
variable (env : Env) (B : Bcrypt) (kek : Octets 32)

def insert (filename : Text) (plaintext : Bytes) (uploadedBy : Uuid) (cuiAttested : Bool) :
    Exec Store StorageError Print := do
  let sha256 ← adapt StorageError.crypto (Hash.sha256 env B .hashPlaintext plaintext)
  let dek ← adapt StorageError.crypto (DataKey.generate env)
  let box ← adapt StorageError.crypto (Aead.seal env B dek (env.newId .print).val plaintext)
  let dekWrapped ← adapt StorageError.crypto (Kek.wrapDek env B kek dek)
  failIf (env.fails .createDir) .io
  writeBlob env (blobPathOf (env.newId .print)) box.ciphertext
  let _ ← onError
    (execute env .insertPrint (Db.insertPrint (newPrintRow (env.newId .print) filename plaintext.length
      sha256 dekWrapped box uploadedBy (env.now .printUploaded).time cuiAttested)))
    (removeBlob env (blobPathOf (env.newId .print)))
  pure {
    id := env.newId .print
    filename
    sizeBytes := UInt64.ofNat plaintext.length
    sha256Plaintext := sha256
    blobPath := blobPathOf (env.newId .print)
    dekWrapped
    nonce := box.nonce
    tag := box.tag
    uploadedBy
    uploadedAt := (env.now .printUploaded).time
    cuiAttested }

/-- Decrypts, and compares the digest of what came out. -/
def readBlob (id : Uuid) : Exec Store StorageError Bytes := do
  let found ← find env .selectPrintOfBlob id
  let print ← orErr .notFound found
  failIf (env.fails .readBlob) .io
  let file ← read fun s => s.blobs print.blobPath
  let ct ← orErr .io file
  let dek ← adapt StorageError.crypto (Kek.unwrapDek env B kek print.dekWrapped)
  let pt ← adapt StorageError.crypto (Aead.openSealed env B dek print.id.val ⟨print.nonce, ct, print.tag⟩)
  let got ← adapt StorageError.crypto (Hash.sha256 env B .hashBlob pt)
  failIf (got ≠ print.sha256Plaintext) (.crypto .decryptionFailed)
  pure pt

end

/-- The row goes first; a file that cannot be removed stays behind. -/
def delete (env : Env) (id : Uuid) : Exec Store StorageError Unit := do
  let found ← find env .selectPrint id
  let print ← orErr .notFound found
  let _ ← execute env .deletePrint (Db.deletePrint id.val)
  modify (removeBlob env print.blobPath)

end PrintStore

/-- The row of a print, its file and its wrapped key are in order, and give `pt`. -/
structure Openable (B : Bcrypt) (kek : Octets 32) (s : Store) (id : Uuid) (print : Print) (pt : Bytes) :
    Prop where
  found : ∃ row, s.db.prints.find (fun r => r.id = id.val) = some row ∧ rowToPrint row = .ok print
  opens : ∃ ct dek, s.blobs print.blobPath = some ct ∧ Kek.Unwraps B kek print.dekWrapped dek ∧
    Cng.aes256GcmDecrypt B dek print.nonce print.id.val ct print.tag = some pt
  digest : Cng.sha256 B pt = print.sha256Plaintext

def readBlobCalls : List Call := [.selectPrintOfBlob, .readBlob, .unwrapDek, .openBlob, .hashBlob]

namespace PrintStore
variable {env : Env} {B : Bcrypt} {kek : Octets 32}

theorem find_some_iff {c : Call} {id : Uuid} {s t : Store} {print : Print} :
    find env c id s = (.ok (some print), t) ↔ env.fails c = false ∧
      (∃ row, s.db.prints.find (fun r => r.id = id.val) = some row ∧ rowToPrint row = .ok print) ∧ s = t := by
  rw [find, queryRow_eq]
  cases env.fails c with
  | true => simp
  | false =>
      cases s.db.prints.find (fun r => r.id = id.val) with
      | none => simp
      | some row => cases hp : rowToPrint row <;> simp [hp]

/-- `read_blob` succeeds exactly on what is openable, when its calls do. -/
theorem readBlob_ok_iff {id : Uuid} {s t : Store} {pt : Bytes} :
    readBlob env B kek id s = (.ok pt, t) ↔
      (∀ c ∈ readBlobCalls, env.fails c = false) ∧ (∃ print, Openable B kek s id print pt) ∧ s = t := by
  simp only [readBlob, bind_ok_iff, orErr_ok_iff, failIf_ok_iff, read_ok_iff, adapt_ok_iff, pure_ok_iff,
    unwrapDek_ok_iff, openSealed_ok_iff, sha256_ok_iff, decide_eq_false_iff_not, not_not]
  constructor
  · rintro ⟨found, s1, hfind, print, _, ⟨rfl, rfl⟩, _, _, ⟨hread, rfl⟩, _, _, ⟨rfl, rfl⟩, ct, _,
      ⟨hct, rfl⟩, dek, _, ⟨hu, hdek, rfl⟩, pt', _, ⟨ho, hpt, rfl⟩, got, _, ⟨hh, rfl, rfl⟩, _, _,
      ⟨hgot, rfl⟩, rfl, rfl⟩
    obtain ⟨hf, hrow, rfl⟩ := find_some_iff.mp hfind
    refine ⟨?_, ⟨print, hrow, ⟨ct, dek, hct, hdek, hpt⟩, hgot⟩, rfl⟩
    simp [readBlobCalls, hf, hread, hu, ho, hh]
  · rintro ⟨hq, ⟨print, hrow, ⟨ct, dek, hct, hdek, hpt⟩, hgot⟩, rfl⟩
    obtain ⟨hf, hread, hu, ho, hh⟩ : env.fails .selectPrintOfBlob = false ∧ env.fails .readBlob = false ∧
        env.fails .unwrapDek = false ∧ env.fails .openBlob = false ∧ env.fails .hashBlob = false := by
      simpa [readBlobCalls] using hq
    exact ⟨some print, s, find_some_iff.mpr ⟨hf, hrow, rfl⟩, print, s, ⟨rfl, rfl⟩, (), s, ⟨hread, rfl⟩, _, s,
      ⟨rfl, rfl⟩, ct, s, ⟨hct, rfl⟩, dek, s, ⟨hu, hdek, rfl⟩, pt, s, ⟨ho, hpt, rfl⟩, _, s, ⟨hh, rfl, rfl⟩,
      (), s, ⟨hgot, rfl⟩, rfl, rfl⟩

theorem moves_find {R : Store → Store → Prop} (F : Frame R) (c : Call) (id : Uuid) :
    Moves R (find env c id) := moves_queryRow F _ _ _

theorem moves_readBlob {R : Store → Store → Prop} (F : Frame R) (id : Uuid) :
    Moves R (readBlob env B kek id) :=
  F.bind (moves_find F _ _) fun _ => F.bind (F.orErr _ _) fun _ => F.bind (F.failIf _ _) fun _ =>
  F.bind (F.read _) fun _ => F.bind (F.orErr _ _) fun _ => F.bind (moves_adapt (moves_unwrapDek F _ _)) fun _ =>
  F.bind (moves_adapt (moves_openSealed F _ _ _)) fun _ => F.bind (moves_adapt (moves_sha256 F _ _)) fun _ =>
  F.bind (F.failIf _ _) fun _ => F.pure _

theorem calm_readBlob (id : Uuid) : Calm (readBlob env B kek id) :=
  calm_bind (calm_queryRow _ _ _) fun _ => calm_bind (calm_orErr _ _) fun _ =>
  calm_bind (calm_failIf _ _) fun _ =>
  calm_bind (calm_read _) fun _ => calm_bind (calm_orErr _ _) fun _ =>
  calm_bind (calm_adapt (calm_bind (calm_orErr _ _) fun _ => calm_bind (calm_failIf _ _) fun _ =>
    calm_bind (calm_orErr _ _) fun _ => calm_orErr _ _)) fun _ =>
  calm_bind (calm_adapt (calm_bind (calm_failIf _ _) fun _ => calm_orErr _ _)) fun _ =>
  calm_bind (calm_adapt (calm_sha256 _ _)) fun _ => calm_bind (calm_failIf _ _) fun _ => calm_pure _

/-- What `insert` makes of a plaintext before it writes anything. -/
structure SealedPrint where
  sha256 : Octets 32
  box : Sealed
  dekWrapped : Bytes

section
variable (env : Env) (B : Bcrypt) (kek : Octets 32)

def sealPrint (plaintext : Bytes) : Exec Store StorageError SealedPrint := do
  let sha256 ← adapt StorageError.crypto (Hash.sha256 env B .hashPlaintext plaintext)
  let dek ← adapt StorageError.crypto (DataKey.generate env)
  let box ← adapt StorageError.crypto (Aead.seal env B dek (env.newId .print).val plaintext)
  let dekWrapped ← adapt StorageError.crypto (Kek.wrapDek env B kek dek)
  failIf (env.fails .createDir) .io
  pure ⟨sha256, box, dekWrapped⟩

/-- `insert` from the file on. -/
def storePrint (filename : Text) (size : ℕ) (uploadedBy : Uuid) (cuiAttested : Bool) (p : SealedPrint) :
    Exec Store StorageError Print := do
  writeBlob env (blobPathOf (env.newId .print)) p.box.ciphertext
  let _ ← onError
    (execute env .insertPrint (Db.insertPrint (newPrintRow (env.newId .print) filename size p.sha256
      p.dekWrapped p.box uploadedBy (env.now .printUploaded).time cuiAttested)))
    (removeBlob env (blobPathOf (env.newId .print)))
  pure {
    id := env.newId .print
    filename
    sizeBytes := UInt64.ofNat size
    sha256Plaintext := p.sha256
    blobPath := blobPathOf (env.newId .print)
    dekWrapped := p.dekWrapped
    nonce := p.box.nonce
    tag := p.box.tag
    uploadedBy
    uploadedAt := (env.now .printUploaded).time
    cuiAttested }

structure Begins : Prop where
  digest : env.fails .hashPlaintext = false
  dataKey : (env.random .dataKey 32).isSome = true
  sealNonce : (env.random .sealNonce 12).isSome = true
  sealing : env.fails .sealBlob = false
  wrapNonce : (env.random .wrapNonce 12).isSome = true
  wrapping : env.fails .wrapDek = false
  directory : env.fails .createDir = false

def Refuses (s : Store) (uploadedBy : Uuid) : Prop :=
  env.fails .insertPrint = true ∨ s.db.users.has UserRow.id uploadedBy.val = false ∨
    (env.newId .print).val ∈ s.db.prints.rows.map PrintRow.id

end

theorem insert_eq (filename : Text) (plaintext : Bytes) (uploadedBy : Uuid) (cuiAttested : Bool) :
    insert env B kek filename plaintext uploadedBy cuiAttested =
      sealPrint env B kek plaintext >>= storePrint env filename plaintext.length uploadedBy cuiAttested := by
  simp only [insert, sealPrint, storePrint, bind_assoc, pure_bind]

theorem stays_sealPrint (plaintext : Bytes) : Moves Stays (sealPrint env B kek plaintext) := by
  have F := stays_frame (σ := Store)
  exact F.bind (moves_adapt (moves_sha256 F _ _)) fun _ => F.bind (moves_adapt (moves_random F _ _)) fun _ =>
    F.bind (moves_adapt (moves_seal F _ _ _)) fun _ => F.bind (moves_adapt (moves_wrapDek F _ _)) fun _ =>
    F.bind (F.failIf _ _) fun _ => F.pure _

theorem calm_sealPrint (plaintext : Bytes) : Calm (sealPrint env B kek plaintext) :=
  calm_bind (calm_adapt (calm_sha256 _ _)) fun _ => calm_bind (calm_adapt (calm_orErr _ _)) fun _ =>
  calm_bind (calm_adapt (calm_bind (calm_orErr _ _) fun _ => calm_bind (calm_failIf _ _) fun _ =>
    calm_pure _)) fun _ =>
  calm_bind (calm_adapt (calm_bind (calm_orErr _ _) fun _ => calm_bind (calm_failIf _ _) fun _ =>
    calm_pure _)) fun _ =>
  calm_bind (calm_failIf _ _) fun _ => calm_pure _

theorem sealPrint_cases (env : Env) (B : Bcrypt) (kek : Octets 32) (plaintext : Bytes) (s : Store) :
    (Begins env ∧ ∃ p, sealPrint env B kek plaintext s = (.ok p, s)) ∨
    (¬ Begins env ∧ ∃ e, sealPrint env B kek plaintext s = (.err e, s)) := by
  apply stays_cases (stays_sealPrint plaintext) (calm_sealPrint plaintext)
  simp only [sealPrint, DataKey.generate, Aead.seal, Kek.wrapDek, Rand.bytes, bind_ok_iff, adapt_ok_iff,
    sha256_ok_iff, orErr_ok_iff, check_ok_iff, failIf_ok_iff, pure_ok_iff]
  constructor
  · rintro ⟨p, _, _, ⟨hdigest, -, rfl⟩, dek, _, ⟨hdek, rfl⟩, box, _, ⟨nonce, _, ⟨hnonce, rfl⟩, _, _,
      ⟨hseal, rfl⟩, -, rfl⟩, wrapped, _, ⟨nonce', _, ⟨hnonce', rfl⟩, _, _, ⟨hwrap, rfl⟩, -, rfl⟩, _, _,
      ⟨hdir, rfl⟩, -, -⟩
    exact ⟨hdigest, by simp [hdek], by simp [hnonce], hseal, by simp [hnonce'], hwrap, hdir⟩
  · intro h
    obtain ⟨dek, hdek⟩ := Option.isSome_iff_exists.mp h.dataKey
    obtain ⟨nonce, hnonce⟩ := Option.isSome_iff_exists.mp h.sealNonce
    obtain ⟨nonce', hnonce'⟩ := Option.isSome_iff_exists.mp h.wrapNonce
    exact ⟨_, _, s, ⟨h.digest, rfl, rfl⟩, dek, s, ⟨hdek, rfl⟩, _, s, ⟨nonce, s, ⟨hnonce, rfl⟩, (), s,
      ⟨h.sealing, rfl⟩, rfl, rfl⟩, _, s, ⟨nonce', s, ⟨hnonce', rfl⟩, (), s, ⟨h.wrapping, rfl⟩, rfl, rfl⟩, (),
      s, ⟨h.directory, rfl⟩, rfl, rfl⟩

theorem rowToPrint_new (id : Uuid) (filename : Text) (size : ℕ) (sha256 : Octets 32) (wrapped : Bytes)
    (box : Sealed) (uploadedBy : Uuid) (now : OffsetDateTime) (cuiAttested : Bool) :
    ∃ print, rowToPrint (newPrintRow id filename size sha256 wrapped box uploadedBy now cuiAttested) =
        .ok print ∧
      print.id = id ∧ print.filename = filename ∧ print.sha256Plaintext = sha256 ∧
      print.blobPath = blobPathOf id ∧ print.dekWrapped = wrapped ∧ print.nonce = box.nonce ∧
      print.tag = box.tag := by
  simp only [rowToPrint, newPrintRow, uuidFrom_val, octetsFrom_val]
  exact ⟨_, rfl, rfl, rfl, rfl, rfl, rfl, rfl, rfl⟩

theorem insertPrint_some {r : PrintRow} {db db' : Db} {n : ℕ} (h : Db.insertPrint r db = some (n, db')) :
    ∃ prints, db.prints.insert r = some prints ∧ db' = { db with prints } := by
  unfold Db.insertPrint at h
  split_ifs at h
  obtain ⟨prints, hp, hdb⟩ := Option.map_eq_some_iff.mp h
  cases hdb
  exact ⟨prints, hp, rfl⟩

theorem insertPrint_none_iff {r : PrintRow} {db : Db} :
    Db.insertPrint r db = none ↔
      db.users.has UserRow.id r.uploadedBy = false ∨ r.id ∈ db.prints.rows.map PrintRow.id := by
  unfold Db.insertPrint
  split_ifs with h
  · simp [Table.insert_none_iff, h]
  · simp [h]

theorem writeBlob_ok_iff {path : Text} {content : Bytes} {s t : Store} {u : Unit} :
    writeBlob env path content s = (.ok u, t) ↔
      env.fails .writeBlob = false ∧ s.setBlob path (some content) = t := by
  unfold writeBlob
  cases env.fails .writeBlob <;> simp

/-- No file, no row and the file cleaned up, or both. -/
theorem storePrint_cases (env : Env) (filename : Text) (size : ℕ) (uploadedBy : Uuid) (cuiAttested : Bool)
    (p : SealedPrint) (s : Store) :
    (env.fails .writeBlob = true ∧ storePrint env filename size uploadedBy cuiAttested p s =
      (.err .io, (writeBlob env (blobPathOf (env.newId .print)) p.box.ciphertext s).2)) ∨
    (env.fails .writeBlob = false ∧ Refuses env s uploadedBy ∧ ∃ e,
      storePrint env filename size uploadedBy cuiAttested p s =
        (.err e, removeBlob env (blobPathOf (env.newId .print))
          (s.setBlob (blobPathOf (env.newId .print)) (some p.box.ciphertext)))) ∨
    (env.fails .writeBlob = false ∧ ¬ Refuses env s uploadedBy ∧ ∃ print prints, print.id = env.newId .print ∧
      s.db.prints.insert (newPrintRow (env.newId .print) filename size p.sha256 p.dekWrapped p.box uploadedBy
        (env.now .printUploaded).time cuiAttested) = some prints ∧
      storePrint env filename size uploadedBy cuiAttested p s =
        (.ok print, { s.setBlob (blobPathOf (env.newId .print)) (some p.box.ciphertext) with
          db := { s.db with prints } })) := by
  cases hw : env.fails .writeBlob with
  | true =>
      have hwrite : (writeBlob env (blobPathOf (env.newId .print)) p.box.ciphertext s).1 = .err .io := by
        rw [writeBlob, if_pos hw]
      exact .inl ⟨rfl, bind_err (Prod.ext hwrite rfl) _⟩
  | false =>
      have hwrite : writeBlob env (blobPathOf (env.newId .print)) p.box.ciphertext s =
          (.ok (), s.setBlob (blobPathOf (env.newId .print)) (some p.box.ciphertext)) :=
        writeBlob_ok_iff.mpr ⟨hw, rfl⟩
      rw [storePrint, bind_ok hwrite]
      rcases execute_cases env .insertPrint (Db.insertPrint (newPrintRow (env.newId .print) filename size
          p.sha256 p.dekWrapped p.box uploadedBy (env.now .printUploaded).time cuiAttested))
          (s.setBlob (blobPathOf (env.newId .print)) (some p.box.ciphertext)) with
        ⟨e, he, hcause⟩ | ⟨n, db, hq, hdb, he⟩
      · refine .inr (.inl ⟨rfl, ?_, .sqlite e, bind_err (onError_err he _) _⟩)
        rcases hcause with hf | hnone
        · exact .inl hf
        · exact .inr (insertPrint_none_iff.mp hnone)
      · obtain ⟨prints, hins, rfl⟩ := insertPrint_some hdb
        refine .inr (.inr ⟨rfl, ?_, _, prints, rfl, hins, bind_ok (onError_ok_iff.mpr he) _⟩)
        rintro (hf | hrefused)
        · rw [hq] at hf
          cases hf
        · rw [insertPrint_none_iff.mpr hrefused] at hdb
          cases hdb

theorem moves_insert {R : Store → Store → Prop} (F : Frame R)
    (hblob : ∀ s content, R s (s.setBlob (blobPathOf (env.newId .print)) content))
    (hrow : ∀ (s : Store) row prints, row.id = (env.newId .print).val → (∃ print, rowToPrint row = .ok print) →
      s.db.prints.insert row = some prints → R s { s with db := { s.db with prints } })
    (filename : Text) (plaintext : Bytes) (uploadedBy : Uuid) (cuiAttested : Bool) :
    Moves R (insert env B kek filename plaintext uploadedBy cuiAttested) := by
  have hwrite : ∀ content, Moves R (writeBlob env (blobPathOf (env.newId .print)) content) := by
    intro content s
    unfold writeBlob
    split_ifs
    · cases env.partialWrite with
      | none => exact F.refl s
      | some n => exact hblob s _
    · exact hblob s _
  have hremove : ∀ s, R s (removeBlob env (blobPathOf (env.newId .print)) s) := by
    intro s
    unfold removeBlob
    split_ifs
    · exact F.refl s
    · exact hblob s none
  refine F.bind (moves_adapt (moves_sha256 F _ _)) fun sha256 =>
    F.bind (moves_adapt (moves_random F _ _)) fun dek =>
    F.bind (moves_adapt (moves_seal F _ _ _)) fun box =>
    F.bind (moves_adapt (moves_wrapDek F _ _)) fun wrapped =>
    F.bind (F.failIf _ _) fun _ => F.bind (hwrite _) fun _ =>
    F.bind (F.onError (moves_execute F _ ?_) hremove) fun _ => F.pure _
  intro s n db hdb
  obtain ⟨prints, hins, rfl⟩ := insertPrint_some hdb
  obtain ⟨print, hdecode, -⟩ := rowToPrint_new (env.newId .print) filename plaintext.length sha256 wrapped box
    uploadedBy (env.now .printUploaded).time cuiAttested
  exact hrow s _ prints rfl ⟨print, hdecode⟩ hins

/-- The print `id` is in the store under its name, and its file opens to `plaintext`. -/
def Stored (B : Bcrypt) (kek : Octets 32) (s : Store) (id : Uuid) (filename : Text) (plaintext : Bytes) :
    Prop :=
  ∃ row print ct dek, row ∈ s.db.prints.rows ∧ row.id = id.val ∧ rowToPrint row = .ok print ∧
    print.id = id ∧ print.filename = filename ∧ print.sha256Plaintext = Cng.sha256 B plaintext ∧
    print.blobPath = blobPathOf id ∧ s.blobs (blobPathOf id) = some ct ∧
    Kek.Unwraps B kek print.dekWrapped dek ∧
    Cng.aes256GcmDecrypt B dek print.nonce id.val ct print.tag = some plaintext

theorem Stored.openable {s : Store} {id : Uuid} {filename : Text} {plaintext : Bytes}
    (h : Stored B kek s id filename plaintext) :
    ∃ print, Openable B kek s id print plaintext ∧ print.filename = filename ∧
      print.sha256Plaintext = Cng.sha256 B plaintext := by
  obtain ⟨row, print, ct, dek, hrow, hid, hprint, hpid, hname, hsha, hpath, hct, hdek, hopen⟩ := h
  have hfind : s.db.prints.find (fun r => r.id = id.val) = some row := by
    rw [← hid]
    exact Table.find_key List.mem_cons_self hrow
  refine ⟨print, ⟨⟨row, hfind, hprint⟩, ⟨ct, dek, ?_, hdek, ?_⟩, hsha.symm⟩, hname, hsha⟩
  · rw [hpath]
    exact hct
  · rw [hpid]
    exact hopen

/-- The sealed print opens to the plaintext under the identifier. -/
structure SealedPrint.Holds (B : Bcrypt) (kek : Octets 32) (id : Uuid) (plaintext : Bytes) (p : SealedPrint) :
    Prop where
  digest : p.sha256 = Cng.sha256 B plaintext
  opens : ∃ dek, Kek.Unwraps B kek p.dekWrapped dek ∧
    Cng.aes256GcmDecrypt B dek p.box.nonce id.val p.box.ciphertext p.box.tag = some plaintext

theorem sealPrint_holds (D : B.Documented) {plaintext : Bytes} (hlen : plaintext.length < 2 ^ 32) {s t : Store}
    {p : SealedPrint} (h : sealPrint env B kek plaintext s = (.ok p, t)) :
    p.Holds B kek (env.newId .print) plaintext := by
  obtain ⟨sha256, s1, h1, k1⟩ := bind_ok_iff.mp h
  obtain ⟨-, rfl, rfl⟩ := sha256_ok_iff.mp (adapt_ok_iff.mp h1)
  obtain ⟨dek, s2, h2, k2⟩ := bind_ok_iff.mp k1
  obtain ⟨box, s3, h3, k3⟩ := bind_ok_iff.mp k2
  have hopen := decrypt_seal D (adapt_ok_iff.mp h3) hlen
  obtain ⟨wrapped, s4, h4, k4⟩ := bind_ok_iff.mp k3
  have hdek := unwraps_wrapDek D (adapt_ok_iff.mp h4)
  obtain ⟨_, s5, h5, k5⟩ := bind_ok_iff.mp k4
  cases k5
  exact ⟨rfl, dek, hdek, hopen⟩

theorem SealedPrint.Holds.stored {id : Uuid} {plaintext : Bytes} {p : SealedPrint} (h : p.Holds B kek id plaintext)
    {s : Store} {filename : Text} {size : ℕ} {uploadedBy : Uuid} {now : OffsetDateTime} {cuiAttested : Bool}
    (hrow : newPrintRow id filename size p.sha256 p.dekWrapped p.box uploadedBy now cuiAttested ∈ s.db.prints.rows)
    (hblob : s.blobs (blobPathOf id) = some p.box.ciphertext) : Stored B kek s id filename plaintext := by
  obtain ⟨dek, hdek, hopen⟩ := h.opens
  obtain ⟨print, hprint, hid, hname, hsha, hpath, hwrapped, hnonce, htag⟩ :=
    rowToPrint_new id filename size p.sha256 p.dekWrapped p.box uploadedBy now cuiAttested
  refine ⟨_, print, p.box.ciphertext, dek, hrow, rfl, hprint, hid, hname, hsha.trans h.digest, hpath, hblob, ?_, ?_⟩
  · rw [hwrapped]
    exact hdek
  · rw [hnonce, htag]
    exact hopen

theorem insert_stored (D : B.Documented) {filename : Text} {plaintext : Bytes} {uploadedBy : Uuid}
    {cuiAttested : Bool} {s s' : Store} {print : Print} (hlen : plaintext.length < 2 ^ 32)
    (h : insert env B kek filename plaintext uploadedBy cuiAttested s = (.ok print, s')) :
    print.id = env.newId .print ∧ s'.db.shares = s.db.shares ∧
      Stored B kek s' (env.newId .print) filename plaintext := by
  rw [insert_eq] at h
  obtain ⟨p, s1, h1, k1⟩ := bind_ok_iff.mp h
  have hholds := sealPrint_holds D hlen h1
  obtain rfl : s1 = s := (stays_sealPrint plaintext).of_run h1
  rcases storePrint_cases env filename plaintext.length uploadedBy cuiAttested p s1 with
    ⟨-, hrun⟩ | ⟨-, -, e, hrun⟩ | ⟨-, -, print', prints, hid, hins, hrun⟩
  · cases hrun.symm.trans k1
  · cases hrun.symm.trans k1
  · cases hrun.symm.trans k1
    have hrow := (Table.mem_of_insert hins).mpr (.inr rfl)
    exact ⟨hid, rfl, hholds.stored hrow (if_pos rfl)⟩

theorem Stored.sameFiles {s t : Store} {id : Uuid} {filename : Text} {plaintext : Bytes}
    (h : Stored B kek s id filename plaintext) (hprints : t.db.prints = s.db.prints) (hblobs : t.blobs = s.blobs) :
    Stored B kek t id filename plaintext := by
  obtain ⟨row, print, ct, dek, hrow, hrid, hprint, hpid, hname, hsha, hpath, hct, hrest⟩ := h
  exact ⟨row, print, ct, dek, hprints ▸ hrow, hrid, hprint, hpid, hname, hsha, hpath, hblobs ▸ hct, hrest⟩

theorem Stored.setBlob {s : Store} {id id' : Uuid} {filename : Text} {plaintext : Bytes}
    (h : Stored B kek s id filename plaintext) (hne : id' ≠ id) (content : Option Bytes) :
    Stored B kek (s.setBlob (blobPathOf id') content) id filename plaintext := by
  obtain ⟨row, print, ct, dek, hrow, hrid, hprint, hpid, hname, hsha, hpath, hct, hrest⟩ := h
  have hother : blobPathOf id ≠ blobPathOf id' := fun hp => hne (blobPathOf_injective hp).symm
  refine ⟨row, print, ct, dek, hrow, hrid, hprint, hpid, hname, hsha, hpath, ?_, hrest⟩
  simp only [Store.setBlob, if_neg hother]
  exact hct

theorem Stored.insertRow {s : Store} {id : Uuid} {filename : Text} {plaintext : Bytes}
    (h : Stored B kek s id filename plaintext) {new : PrintRow} {prints : Table PrintRow Bytes [PrintRow.id]}
    (hins : s.db.prints.insert new = some prints) :
    Stored B kek { s with db := { s.db with prints } } id filename plaintext := by
  obtain ⟨row, print, ct, dek, hrow, hrest⟩ := h
  exact ⟨row, print, ct, dek, (Table.mem_of_insert hins).mpr (.inl hrow), hrest⟩

end PrintStore
end FipsDropbox.Storage
