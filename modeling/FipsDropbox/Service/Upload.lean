import FipsDropbox.Service.Panics

/-!
# What an upload leaves in the store

A successful `create_share` puts the ciphertext under the path of the new print,
the print's row, and a share under the hashes of the two secrets it hands out.
-/
namespace FipsDropbox.Service
open Utf8 Exec Crypto Storage

/-- The row of the share, when `count` of its slots are gone. -/
def sharedRow (env : RequestEnv) (app : App) (req : NewShareRequest) (vendorId : Uuid)
    (expiresAt : OffsetDateTime) (token code : Text) (count : ℤ) : ShareRow :=
  { newShareRow (env.newId .share) (env.newId .print) vendorId (secretHash app token) (secretHash app code)
      expiresAt req.maxDownloads req.note req.createdBy (env.now .shareCreated).time with
    downloadCount := count }

/-- The share of an upload is in the store with `count` slots gone, and so is its file. -/
structure Offered (env : RequestEnv) (app : App) (req : NewShareRequest) (vendorId : Uuid)
    (expiresAt : OffsetDateTime) (token code : Text) (count : ℤ) (s : Store) : Prop where
  row : sharedRow env app req vendorId expiresAt token code count ∈ s.db.shares.rows
  file : PrintStore.Stored app.bcrypt app.kek s (env.newId .print) req.printFilename req.printBytes

section
variable {env : RequestEnv} {app : App}

/-- The token can be read off the address of the share. -/
theorem shareUrl_injective {t u : Text} (h : shareUrl app t = shareUrl app u) : t = u :=
  List.append_cancel_left h

/-- The event of a new share. -/
def createdEvent (env : RequestEnv) (req : NewShareRequest) (shareId printId vendorId : Uuid) : Audit.Event :=
  eventOf env "share.created" .success (some req.createdBy) req.ip req.userAgent
    [uuid "share_id" shareId, uuid "print_id" printId, uuid "vendor_id" vendorId]
    [text "filename" req.printFilename, number "size_bytes" (UInt64.ofNat req.printBytes.length),
      number "max_downloads" req.maxDownloads.toUInt64,
      number "expires_in_hours" req.expiresInHours.toUInt64, flag "note_present" req.note.isSome]

/-- The steps of a creation that succeeded. -/
theorem createShare_steps {req : NewShareRequest} {w w' : World} {created : ShareCreated}
    (h : createShare env app req w = (.ok created, w')) :
    ∃ vendor print expiresAt share secrets s1 s2 s3 log file,
      w.storePoisoned = false ∧ w.auditPoisoned = false ∧
      findOrCreateVendor env req w.store = (.ok vendor, s1) ∧
      PrintStore.insert env.toEnv app.bcrypt app.kek req.printFilename req.printBytes req.createdBy
        req.cuiAttested s1 = (.ok print, s2) ∧
      expiryOf env req = some expiresAt ∧
      Shares.create env.toEnv app.bcrypt print.id vendor.id expiresAt req.maxDownloads req.note req.createdBy
        s2 = (.ok (share, secrets), s3) ∧
      w.log.write app.serde app.bcrypt env.auditFault w.file (createdEvent env req share.id print.id vendor.id) =
        (.ok (), log, file) ∧
      created = ⟨share.id, shareUrl app secrets.urlToken, secrets.accessCode, vendor.primaryEmail,
        vendor.primaryPhone⟩ ∧
      w' = { w with
        store := s3, log, file
        notices := w.notices ++ noticesOf app req ⟨share, secrets, vendor⟩ } := by
  obtain ⟨c, w1, hstore, k⟩ := bind_ok_iff.mp h
  obtain ⟨hs, hbody⟩ := locked_ok_iff.mp (task_ok_iff.mp hstore)
  obtain ⟨vendor, w2, h1, k1⟩ := bind_ok_iff.mp hbody
  obtain ⟨s1, hvendor, rfl⟩ := onStore_ok_iff.mp h1
  obtain ⟨print, w3, h2, k2⟩ := bind_ok_iff.mp k1
  obtain ⟨s2, hinsert, rfl⟩ := onStore_ok_iff.mp h2
  obtain ⟨expiresAt, w4, h3, k3⟩ := bind_ok_iff.mp k2
  obtain ⟨hexpiry, rfl⟩ := orPanic_ok_iff.mp h3
  obtain ⟨⟨share, secrets⟩, w5, h4, k4⟩ := bind_ok_iff.mp k3
  obtain ⟨s3, hcreate, rfl⟩ := onStore_ok_iff.mp h4
  obtain ⟨ha, rfl, log, file, hwrite, rfl⟩ := withAudit_ok_iff.mp k4
  cases k
  exact ⟨vendor, print, expiresAt, share, secrets, s1, s2, s3, log, file, hs, ha, hvendor, hinsert, hexpiry,
    hcreate, hwrite, rfl, rfl⟩

theorem createShare_ok (D : app.bcrypt.Documented) {req : NewShareRequest} {w w' : World}
    {created : ShareCreated} (hlen : req.printBytes.length < 2 ^ 32)
    (h : createShare env app req w = (.ok created, w')) :
    ∃ vendorId expiresAt token, expiryOf env req = some expiresAt ∧
      created.shareUrl = shareUrl app token ∧ created.shareId = env.newId .share ∧
      Offered env app req vendorId expiresAt token created.accessCode 0 w'.store ∧ Free w' := by
  obtain ⟨vendor, print, expiresAt, share, secrets, s1, s2, s3, log, file, hs, ha, -, hinsert, hexpiry, hcreate,
    -, rfl, rfl⟩ := createShare_steps h
  obtain ⟨hprint, -, hfile⟩ := PrintStore.insert_stored D hlen hinsert
  obtain ⟨hid, shares, hins, rfl⟩ := create_ok hcreate
  refine ⟨vendor.id, expiresAt, secrets.urlToken, hexpiry, rfl, hid, ⟨?_, hfile⟩, ⟨hs, ha⟩⟩
  rw [hprint] at hins
  exact (Table.mem_of_insert hins).mpr (.inr rfl)

end

def sampleUser : UserRow where
  id := List.replicate 16 7
  email := "sender@example.com".toList
  role := "admin".toList
  passwordHash := []
  passwordSalt := []
  passwordIters := 600000
  totpSecretWrapped := none
  createdAt := 0
  disabledAt := none

/-- A fresh service with one user. -/
def sampleWorld : World :=
  { freshWorld with store := { Store.fresh with db := { Db.empty with users := ⟨[sampleUser], by simp⟩ } } }

def sampleUpload : NewShareRequest where
  printFilename := "bracket.stl".toList
  printBytes := encode "solid bracket".toList
  vendorEmail := "vendor@example.com".toList
  vendorPhone := none
  vendorDisplayName := "Vendor".toList
  expiresInHours := 24
  maxDownloads := 2
  note := none
  cuiAttested := false
  createdBy := ⟨List.replicate 16 7, rfl⟩
  ip := "203.0.113.9".toList
  userAgent := []

def otherUpload : NewShareRequest := { sampleUpload with vendorEmail := "other@example.com".toList }

/-- The secrets that an all-zero source of random bytes makes. -/
def sampleToken : Text := List.replicate 22 'A'
def sampleCode : Text := "222-222-222-222-222".toList

def sampleCreated : ShareCreated where
  shareId := quietEnv.newId .share
  shareUrl := shareUrl sampleApp sampleToken
  accessCode := sampleCode
  vendorEmail := "vendor@example.com".toList
  vendorPhone := none

/-- The world after the sample upload. -/
def sharedWorld : World := (createShare quietEnv sampleApp sampleUpload sampleWorld).2

theorem createShare_sample :
    createShare quietEnv sampleApp sampleUpload sampleWorld = (.ok sampleCreated, sharedWorld) := by
  have h : (createShare quietEnv sampleApp sampleUpload sampleWorld).1.value = some sampleCreated := by
    decide +kernel
  exact Prod.ext (Outcome.value_eq_some.mp h) rfl

end FipsDropbox.Service
