import FipsDropbox.Service.Upload

/-!
# The steps of a creation

`create_share` commits a vendor, a file, a print and a share one after the other and
audits last. Only the insertion of a print takes back what it has written, so a
failure after the vendor or after the print leaves them behind.
-/
namespace FipsDropbox.Service
open Utf8 Exec Crypto Storage

def VendorFound (env : RequestEnv) (s : Store) (req : NewShareRequest) : Prop :=
  env.fails .selectVendor = false ∧
    ∃ row v, activeVendor s req.vendorEmail = some row ∧ rowToVendor row = .ok v

/-- No active vendor has the address, and the row of a new one is accepted. -/
structure VendorAdded (env : RequestEnv) (s : Store) (req : NewShareRequest) : Prop where
  lookup : env.fails .selectVendor = false
  unknown : activeVendor s req.vendorEmail = none
  insertion : env.fails .insertVendor = false
  creator : s.db.users.has UserRow.id req.createdBy.val = true
  fresh : (env.newId .vendor).val ∉ s.db.vendors.rows.map VendorRow.id

def vendorRowOf (env : RequestEnv) (req : NewShareRequest) : VendorRow :=
  newVendorRow (env.newId .vendor) req.vendorDisplayName req.vendorEmail req.vendorPhone req.createdBy
    (env.now .vendorCreated).time

theorem createVendor_cases (env : RequestEnv) (req : NewShareRequest) (s : Store) :
    ((env.fails .insertVendor = false ∧ s.db.users.has UserRow.id req.createdBy.val = true ∧
        (env.newId .vendor).val ∉ s.db.vendors.rows.map VendorRow.id) ∧
      ∃ v vendors, s.db.vendors.insert (vendorRowOf env req) = some vendors ∧ v.id = env.newId .vendor ∧
        v.primaryEmail = req.vendorEmail ∧ v.primaryPhone = req.vendorPhone ∧
        Vendors.create env.toEnv req.vendorDisplayName req.vendorEmail req.vendorPhone req.createdBy s =
          (.ok v, { s with db := { s.db with vendors } })) ∨
    (¬ (env.fails .insertVendor = false ∧ s.db.users.has UserRow.id req.createdBy.val = true ∧
        (env.newId .vendor).val ∉ s.db.vendors.rows.map VendorRow.id) ∧
      ∃ e, Vendors.create env.toEnv req.vendorDisplayName req.vendorEmail req.vendorPhone req.createdBy s =
        (.err e, s)) := by
  rcases execute_cases env.toEnv .insertVendor (Db.insertVendor (vendorRowOf env req)) s with
    ⟨e, he, hcause⟩ | ⟨n, db, hq, hdb, he⟩
  · refine .inr ⟨?_, .sqlite e, bind_err he _⟩
    rintro ⟨hq, huser, hfresh⟩
    rcases hcause with hf | hnone
    · rw [hq] at hf
      cases hf
    · rcases insertVendor_none_iff.mp hnone with hno | hmem
      · exact absurd (huser.symm.trans hno) (by simp)
      · exact hfresh hmem
  · obtain ⟨vendors, hins, rfl⟩ := insertVendor_some hdb
    refine .inl ⟨⟨hq, ?_, ?_⟩, _, vendors, hins, rfl, rfl, rfl, bind_ok he _⟩
    · by_contra hno
      rw [insertVendor_none_iff.mpr (.inl (Bool.not_eq_true _ ▸ hno))] at hdb
      cases hdb
    · exact (Table.insert_some hins).1 VendorRow.id List.mem_cons_self

/-- A vendor that was there, a new one, or an error without effect. -/
theorem findOrCreateVendor_cases (env : RequestEnv) (req : NewShareRequest) (s : Store) :
    (VendorFound env s req ∧ ∃ row v, activeVendor s req.vendorEmail = some row ∧ rowToVendor row = .ok v ∧
      findOrCreateVendor env req s = (.ok v, s)) ∨
    (VendorAdded env s req ∧ ∃ v vendors, s.db.vendors.insert (vendorRowOf env req) = some vendors ∧
      v.id = env.newId .vendor ∧ v.primaryEmail = req.vendorEmail ∧ v.primaryPhone = req.vendorPhone ∧
      findOrCreateVendor env req s = (.ok v, { s with db := { s.db with vendors } })) ∨
    (¬ VendorFound env s req ∧ ¬ VendorAdded env s req ∧ ∃ e, findOrCreateVendor env req s = (.err e, s)) := by
  rcases queryRow_cases env.toEnv .selectVendor
      (fun db => db.vendors.find fun r => r.primaryEmail = req.vendorEmail && r.disabledAt.isNone)
      rowToVendor s with
    ⟨hq, hnone, hrun⟩ | ⟨row, v, hq, hrow, hv, hrun⟩ | ⟨e, hrun, hcause⟩
  · have hnotFound : ¬ VendorFound env s req := by
      rintro ⟨-, row, v, hsome, -⟩
      exact absurd (hnone.symm.trans hsome) (by simp)
    rw [findOrCreateVendor, Vendors.findByEmail, bind_ok hrun]
    rcases createVendor_cases env req s with
      ⟨⟨hins, huser, hfresh⟩, v, vendors, hv, hid, hemail, hphone, hrun⟩ | ⟨hno, e, hrun⟩
    · exact .inr (.inl ⟨⟨hq, hnone, hins, huser, hfresh⟩, v, vendors, hv, hid, hemail, hphone, hrun⟩)
    · exact .inr (.inr ⟨hnotFound, fun h => hno ⟨h.insertion, h.creator, h.fresh⟩, e, hrun⟩)
  · exact .inl ⟨⟨hq, row, v, hrow, hv⟩, row, v, hrow, hv, bind_ok hrun _⟩
  · refine .inr (.inr ⟨?_, ?_, e, bind_err hrun _⟩)
    · rintro ⟨hq, row, v, hrow, hv⟩
      rcases hcause with hf | ⟨row', e', hrow', he'⟩
      · exact absurd (hq.symm.trans hf) (by simp)
      · obtain rfl := Option.some.inj (hrow.symm.trans hrow')
        exact absurd (hv.symm.trans he') (by simp)
    · intro h
      rcases hcause with hf | ⟨row', e', hrow', -⟩
      · exact absurd (h.lookup.symm.trans hf) (by simp)
      · exact absurd (h.unknown.symm.trans hrow') (by simp)

def SameRecords (s t : Store) : Prop :=
  t.db.vendors = s.db.vendors ∧ t.db.prints = s.db.prints ∧ t.db.shares = s.db.shares ∧ t.blobs = s.blobs

/-- The file of the new print is written and its row accepted. -/
structure PrintLands (env : RequestEnv) (s : Store) (req : NewShareRequest) : Prop where
  begins : PrintStore.Begins env.toEnv
  writes : env.fails .writeBlob = false
  accepted : ¬ PrintStore.Refuses env.toEnv s req.createdBy

/-- A print that does not land leaves nothing of its file: it fails before the file, or
without having created it, or the file is removed. -/
def PrintVanishes (env : RequestEnv) (s : Store) (req : NewShareRequest) : Prop :=
  ¬ PrintStore.Begins env.toEnv ∨
    (env.fails .writeBlob = true ∧ env.partialWrite = none) ∨
    (env.fails .writeBlob = false ∧ PrintStore.Refuses env.toEnv s req.createdBy ∧
      env.fails .removeBlob = false)

theorem setBlob_none {s : Store} {path : Text} (h : s.blobs path = none) (content : Option Bytes) :
    (s.setBlob path content).blobs = s.blobs ↔ content = none := by
  constructor
  · intro heq
    have hpath := congrFun heq path
    rw [h] at hpath
    simpa only [Store.setBlob, if_true] using hpath
  · intro hnone
    funext p
    by_cases hp : p = path
    · simp only [Store.setBlob, hp, if_true, hnone, h]
    · simp only [Store.setBlob, hp, if_false]

theorem writeBlob_leaves {env : RequestEnv} (path : Text) (content : Bytes) (s : Store)
    (hf : env.fails .writeBlob = true) :
    (PrintStore.writeBlob env.toEnv path content s).2.db = s.db ∧ (s.blobs path = none →
      ((PrintStore.writeBlob env.toEnv path content s).2.blobs = s.blobs ↔ env.partialWrite = none)) := by
  rw [PrintStore.writeBlob, if_pos hf]
  cases hp : env.partialWrite with
  | none => simp
  | some n => exact ⟨rfl, fun h => by simp [setBlob_none h]⟩

theorem removeBlob_leaves (env : RequestEnv) (path : Text) (content : Bytes) (s : Store) :
    (PrintStore.removeBlob env.toEnv path (s.setBlob path (some content))).db = s.db ∧
      (s.blobs path = none →
        ((PrintStore.removeBlob env.toEnv path (s.setBlob path (some content))).blobs = s.blobs ↔
          env.fails .removeBlob = false)) := by
  cases hr : env.fails .removeBlob with
  | true =>
      rw [PrintStore.removeBlob, if_pos hr]
      exact ⟨rfl, fun h => by simp [setBlob_none h]⟩
  | false =>
      rw [PrintStore.removeBlob, if_neg (by simp [hr])]
      refine ⟨rfl, fun h => iff_of_true ?_ rfl⟩
      funext p
      by_cases hp : p = path
      · simp only [Store.setBlob, hp, if_true, h]
      · simp only [Store.setBlob, hp, if_false]

theorem insertPrint_cases (env : RequestEnv) (app : App) (req : NewShareRequest) (s : Store) :
    (PrintLands env s req ∧ ∃ print row prints ct, print.id = env.newId .print ∧
      row.id = (env.newId .print).val ∧ s.db.prints.insert row = some prints ∧
      PrintStore.insert env.toEnv app.bcrypt app.kek req.printFilename req.printBytes req.createdBy
          req.cuiAttested s =
        (.ok print, { s.setBlob (blobPathOf (env.newId .print)) (some ct) with db := { s.db with prints } })) ∨
    (¬ PrintLands env s req ∧ ∃ e t, PrintStore.insert env.toEnv app.bcrypt app.kek req.printFilename
        req.printBytes req.createdBy req.cuiAttested s = (.err e, t) ∧ t.db = s.db ∧
      (s.blobs (blobPathOf (env.newId .print)) = none →
        (t.blobs = s.blobs ↔ PrintVanishes env s req))) := by
  rw [PrintStore.insert_eq]
  rcases PrintStore.sealPrint_cases env.toEnv app.bcrypt app.kek req.printBytes s with
    ⟨hb, p, hp⟩ | ⟨hb, e, hp⟩
  · rw [bind_ok hp]
    rcases PrintStore.storePrint_cases env.toEnv req.printFilename req.printBytes.length req.createdBy
        req.cuiAttested p s with
      ⟨hf, hrun⟩ | ⟨hf, hrefused, e, hrun⟩ | ⟨hf, haccepted, print, prints, hid, hins, hrun⟩
    · obtain ⟨hdb, hblobs⟩ := writeBlob_leaves (blobPathOf (env.newId .print)) p.box.ciphertext s hf
      refine .inr ⟨?_, _, _, hrun, hdb, fun h => (hblobs h).trans ?_⟩
      · intro h
        rw [h.writes] at hf
        cases hf
      · simp [PrintVanishes, hb, hf]
    · obtain ⟨hdb, hblobs⟩ := removeBlob_leaves env (blobPathOf (env.newId .print)) p.box.ciphertext s
      refine .inr ⟨fun h => h.accepted hrefused, _, _, hrun, hdb, fun h => (hblobs h).trans ?_⟩
      simp [PrintVanishes, hb, hf, hrefused]
    · exact .inl ⟨⟨hb, hf, haccepted⟩, print, _, prints, _, hid, rfl, hins, hrun⟩
  · exact .inr ⟨fun h => hb h.begins, e, s, bind_err hp _, rfl, fun _ => iff_of_true rfl (.inl hb)⟩

def vendorAndPrint (env : RequestEnv) (app : App) (req : NewShareRequest) :
    Exec World ServiceError (Vendor × Print) := do
  let vendor ← onStore (findOrCreateVendor env req)
  let print ← onStore (PrintStore.insert env.toEnv app.bcrypt app.kek req.printFilename req.printBytes
    req.createdBy req.cuiAttested)
  pure (vendor, print)

def offerShare (env : RequestEnv) (app : App) (req : NewShareRequest) (vendor : Vendor) (print : Print) :
    Exec World ServiceError Created := do
  let expiresAt ← orPanic (expiryOf env req)
  let made ← onStore (Shares.create env.toEnv app.bcrypt print.id vendor.id expiresAt req.maxDownloads
    req.note req.createdBy)
  withAudit do
    writeEvent env app "share.created" .success (some req.createdBy) req.ip req.userAgent
      [uuid "share_id" made.1.id, uuid "print_id" print.id, uuid "vendor_id" vendor.id]
      [text "filename" req.printFilename, number "size_bytes" (UInt64.ofNat req.printBytes.length),
        number "max_downloads" req.maxDownloads.toUInt64,
        number "expires_in_hours" req.expiresInHours.toUInt64, flag "note_present" req.note.isSome]
    pure ⟨made.1, made.2, vendor⟩

theorem storeShare_eq (env : RequestEnv) (app : App) (req : NewShareRequest) :
    storeShare env app req =
      spawnBlocking (withStore (vendorAndPrint env app req >>= fun p => offerShare env app req p.1 p.2)) := by
  simp only [storeShare, vendorAndPrint, offerShare, bind_assoc, pure_bind]

/-- A vendor and a landed print for a share to point to. -/
structure Prepared (env : RequestEnv) (req : NewShareRequest) (s t : Store) (vendor : Vendor) (print : Print) :
    Prop where
  printId : print.id = env.newId .print
  print : t.db.prints.has PrintRow.id print.id.val = true
  vendor : t.db.vendors.has VendorRow.id vendor.id.val = true
  creator : t.db.users.has UserRow.id req.createdBy.val = true
  shares : t.db.shares = s.db.shares
  added : t.db.prints.rows.length = s.db.prints.rows.length + 1

theorem printAfter_cases (env : RequestEnv) (app : App) (req : NewShareRequest) {w : World} {v : Vendor}
    {vendors : Table VendorRow Bytes [VendorRow.id]}
    (hv : vendors.has VendorRow.id v.id.val = true)
    (hrun : onStore (findOrCreateVendor env req) w =
      (.ok v, { w with store := { w.store with db := { w.store.db with vendors } } })) :
    (PrintLands env w.store req ∧ ∃ p t, vendorAndPrint env app req w = (.ok (v, p), { w with store := t }) ∧
      Prepared env req w.store t v p) ∨
    (¬ PrintLands env w.store req ∧ ∃ e t,
      vendorAndPrint env app req w = (.err (.storage e), { w with store := t }) ∧
      t.db = { w.store.db with vendors } ∧ (w.store.blobs (blobPathOf (env.newId .print)) = none →
        (t.blobs = w.store.blobs ↔ PrintVanishes env w.store req))) := by
  rw [vendorAndPrint, bind_ok hrun]
  rcases insertPrint_cases env app req { w.store with db := { w.store.db with vendors } } with
    ⟨hlands, print, row, prints, ct, hid, hrow, hins, hprint⟩ | ⟨hlands, e, t, hprint, hdb, hblobs⟩
  · have hcreator : w.store.db.users.has UserRow.id req.createdBy.val = true := by
      by_contra hno
      exact hlands.accepted (.inr (.inl (Bool.not_eq_true _ ▸ hno)))
    obtain ⟨-, hrows⟩ := Table.insert_some hins
    have hdone := bind_ok (onStore_ok (w := { w with store := { w.store with
      db := { w.store.db with vendors } } }) hprint) fun print => pure (v, print)
    refine .inl ⟨⟨hlands.begins, hlands.writes, hlands.accepted⟩, print, _, hdone, hid, ?_, hv, hcreator, rfl, ?_⟩
    · apply Table.has_of_mem (r := row) ((Table.mem_of_insert hins).mpr (.inr rfl))
      rw [hrow, hid]
    · rw [hrows, List.length_append]
      rfl
  · exact .inr ⟨fun h => hlands ⟨h.begins, h.writes, h.accepted⟩, _, t, bind_err (onStore_err hprint) _, hdb,
      hblobs⟩

theorem vendorFound_not_added {env : RequestEnv} {s : Store} {req : NewShareRequest}
    (h : VendorFound env s req) : ¬ VendorAdded env s req := by
  intro hadded
  obtain ⟨-, row, v, hrow, -⟩ := h
  exact absurd (hadded.unknown.symm.trans hrow) (by simp)

/-- Both are there, or an error, after which the records are as before exactly when no
vendor was added and nothing of a print is left. -/
theorem vendorAndPrint_cases (env : RequestEnv) (app : App) (req : NewShareRequest) (w : World) :
    (((VendorFound env w.store req ∨ VendorAdded env w.store req) ∧ PrintLands env w.store req) ∧
      ∃ v p t, vendorAndPrint env app req w = (.ok (v, p), { w with store := t }) ∧
        Prepared env req w.store t v p) ∨
    (¬ ((VendorFound env w.store req ∨ VendorAdded env w.store req) ∧ PrintLands env w.store req) ∧
      ∃ e t, vendorAndPrint env app req w = (.err (.storage e), { w with store := t }) ∧
        (w.store.blobs (blobPathOf (env.newId .print)) = none → (SameRecords w.store t ↔
          ¬ VendorAdded env w.store req ∧
            (VendorFound env w.store req → PrintVanishes env w.store req)))) := by
  rcases findOrCreateVendor_cases env req w.store with
    ⟨hfound, row, v, hrow, hv, hrun⟩ | ⟨hadded, v, vendors, hins, hid, -, -, hrun⟩ | ⟨hnf, hna, e, hrun⟩
  · obtain ⟨hmem, -⟩ := Table.find_some hrow
    have hhas : w.store.db.vendors.has VendorRow.id v.id.val = true := Table.has_of_mem hmem (rowToVendor_ok hv).1.symm
    rcases printAfter_cases env app req hhas (onStore_ok hrun) with
      ⟨hlands, p, t, hp, hprepared⟩ | ⟨hlands, e, t, hp, hdb, hblobs⟩
    · exact .inl ⟨⟨.inl hfound, hlands⟩, v, p, t, hp, hprepared⟩
    · refine .inr ⟨fun h => hlands h.2, e, t, hp, fun h => ?_⟩
      rw [SameRecords, hdb, hblobs h]
      simp [hfound, vendorFound_not_added hfound]
  · obtain ⟨-, hrows⟩ := Table.insert_some hins
    have hhas : vendors.has VendorRow.id v.id.val = true := by
      apply Table.has_of_mem ((Table.mem_of_insert hins).mpr (.inr rfl))
      rw [hid]
      rfl
    have hchanged : vendors ≠ w.store.db.vendors := by
      intro h
      have hlen := congrArg List.length hrows
      rw [h, List.length_append, List.length_singleton] at hlen
      omega
    rcases printAfter_cases env app req hhas (onStore_ok hrun) with
      ⟨hlands, p, t, hp, hprepared⟩ | ⟨hlands, e, t, hp, hdb, -⟩
    · exact .inl ⟨⟨.inr hadded, hlands⟩, v, p, t, hp, hprepared⟩
    · refine .inr ⟨fun h => hlands h.2, e, t, hp, fun _ => ?_⟩
      rw [SameRecords, hdb]
      simp [hadded, hchanged]
  · refine .inr ⟨fun h => h.1.elim hnf hna, _, w.store, bind_err (onStore_err hrun) _, ?_⟩
    exact fun _ => iff_of_true ⟨rfl, rfl, rfl, rfl⟩ ⟨hna, fun h => absurd h hnf⟩

/-- The calls from the expiry on succeed, and the row of the share is accepted. -/
structure ShareLands (env : RequestEnv) (app : App) (s : Store) : Prop where
  accessCode : (env.random .accessCode 15).isSome = true
  urlToken : ∃ raw, env.random .urlToken 16 = some raw ∧
    (secretHash app (urlSafeBase64 raw.val)).val ∉ s.db.shares.rows.map ShareRow.tokenHash
  tokenHash : env.fails .hashUrlToken = false
  codeHash : env.fails .hashAccessCode = false
  insertion : env.fails .insertShare = false
  fresh : (env.newId .share).val ∉ s.db.shares.rows.map ShareRow.id

def Audits (env : RequestEnv) (w : World) : Prop := w.auditPoisoned = false ∧ env.auditFault = none

section
variable {env : RequestEnv} {app : App} {req : NewShareRequest}

theorem createShare_made_iff {s t : Store} {vendor : Vendor} {print : Print} {expiresAt : OffsetDateTime}
    (h : Prepared env req s t vendor print) :
    (∃ made t', Shares.create env.toEnv app.bcrypt print.id vendor.id expiresAt req.maxDownloads req.note
      req.createdBy t = (.ok made, t')) ↔ ShareLands env app s := by
  simp only [Shares.create, Token.urlToken, Token.accessCode, Rand.bytes, bind_ok_iff, adapt_ok_iff,
    orErr_ok_iff, sha256_ok_iff, execute_ok_iff, pure_ok_iff]
  constructor
  · rintro ⟨made, t', _, _, ⟨raw, _, ⟨hraw, rfl⟩, rfl, rfl⟩, _, _, ⟨code, _, ⟨hcode, rfl⟩, rfl, rfl⟩, _, _,
      ⟨htoken, rfl, rfl⟩, _, _, ⟨hhash, rfl, rfl⟩, n, _, ⟨hins, db, hdb, -⟩, -⟩
    have hsome := mt insertShare_none_iff.mpr (Option.ne_none_iff_exists'.mpr ⟨_, hdb⟩)
    rw [h.shares] at hsome
    simp only [not_or] at hsome
    exact ⟨by simp [hcode], ⟨raw, hraw, hsome.2.2.2.2⟩, htoken, hhash, hins, hsome.2.2.2.1⟩
  · intro hl
    obtain ⟨code, hcode⟩ := Option.isSome_iff_exists.mp hl.accessCode
    obtain ⟨raw, hraw, hfree⟩ := hl.urlToken
    have hsome : Db.insertShare (newShareRow (env.newId .share) print.id vendor.id
        (secretHash app (urlSafeBase64 raw.val)) (secretHash app (accessCodeFrom 0 code.val)) expiresAt
        req.maxDownloads req.note req.createdBy (env.now .shareCreated).time) t.db ≠ none := by
      rw [Ne, insertShare_none_iff, h.shares]
      simp only [not_or, Bool.not_eq_false]
      exact ⟨h.print, h.vendor, h.creator, hl.fresh, hfree⟩
    obtain ⟨⟨n, db⟩, hdb⟩ := Option.ne_none_iff_exists'.mp hsome
    exact ⟨_, _, _, t, ⟨raw, t, ⟨hraw, rfl⟩, rfl, rfl⟩, _, t, ⟨code, t, ⟨hcode, rfl⟩, rfl, rfl⟩, _, t,
      ⟨hl.tokenHash, rfl, rfl⟩, _, t, ⟨hl.codeHash, rfl, rfl⟩, n, _, ⟨hl.insertion, db, hdb, rfl⟩, rfl, rfl⟩

theorem moves_offerShare (vendor : Vendor) (print : Print) :
    Moves (fun w w' => w'.store.db.prints = w.store.db.prints ∧ w'.storePoisoned = w.storePoisoned)
      (offerShare env app req vendor print) := by
  have F : Frame fun s t : Store => t.db.prints = s.db.prints := ⟨fun _ => rfl, fun h h' => h'.trans h⟩
  have FW : Frame fun w w' : World =>
      w'.store.db.prints = w.store.db.prints ∧ w'.storePoisoned = w.storePoisoned :=
    ⟨fun _ => ⟨rfl, rfl⟩, fun h h' => ⟨h'.1.trans h.1, h'.2.trans h.2⟩⟩
  refine FW.bind (FW.orPanic _) fun expiresAt => FW.bind (moves_adapt (moves_zoom
    (Storage.moves_createShare F fun _ _ _ _ _ _ => rfl) fun _ _ h => ⟨h, rfl⟩)) fun made =>
    FW.locked (FW.bind ?_ fun _ => FW.pure _) fun _ => ⟨rfl, rfl⟩
  exact fun w => ⟨rfl, rfl⟩

theorem safe_offerShare (vendor : Vendor) (print : Print) :
    Safe (fun _ => True) (· ≠ .internal .taskPanicked) (offerShare env app req vendor print) := by
  refine safe_bind (safe_orPanic _) fun _ => safe_bind (safe_zoom _ (fun _ _ _ => trivial) fun _ => by simp)
    fun _ => safe_locked_any (by simp) (safe_bind ?_ fun _ => safe_pure _)
  exact safe_append (fun _ _ _ h => h) (fun _ => by simp) _ _ _ _ _ _ _

theorem offerShare_panics_iff {vendor : Vendor} {print : Print} {w : World} :
    (offerShare env app req vendor print w).1 = .panic ↔ expiryOf env req = none := by
  cases he : expiryOf env req with
  | none =>
      have hp : (orPanic (expiryOf env req) : Exec World ServiceError _) w = (.panic, w) := by
        rw [he]
        rfl
      rw [offerShare, bind_panic hp]
      simp
  | some expiresAt =>
      have hp : (orPanic (expiryOf env req) : Exec World ServiceError _) w = (.ok expiresAt, w) := by
        rw [he]
        rfl
      have hcalm : Calm (Shares.create env.toEnv app.bcrypt print.id vendor.id expiresAt req.maxDownloads
          req.note req.createdBy) :=
        calm_bind (calm_adapt (calm_bind (calm_orErr _ _) fun _ => calm_pure _)) fun _ =>
        calm_bind (calm_adapt (calm_bind (calm_orErr _ _) fun _ => calm_pure _)) fun _ =>
        calm_bind (calm_adapt (calm_sha256 _ _)) fun _ => calm_bind (calm_adapt (calm_sha256 _ _)) fun _ =>
        calm_bind (calm_execute _ _) fun _ => calm_pure _
      rw [offerShare, bind_ok hp]
      refine iff_of_false ?_ (by simp)
      exact calm_bind (calm_onStore hcalm) (fun _ =>
        calm_locked (calm_bind (calm_writeEvent _ _ _ _ _ _ _) fun _ => calm_pure _)) w

/-- The event of an operation is its last step, and fails only with the log. -/
theorem audited_done_iff {α : Type} (D : app.serde.Documented) {name : String} {outcome : Audit.Outcome}
    {userId : Option Uuid} {ip ua : Text} {target meta_ : List (Text × Json)} {a : α} {w : World}
    (hp : (eventOf env name outcome userId ip ua target meta_).Plain) :
    (∃ b, (withAudit (writeEvent env app name outcome userId ip ua target meta_ >>= fun _ => pure a) w).1 =
      .ok b) ↔ Audits env w := by
  have hfault : (w.log.write app.serde app.bcrypt env.auditFault w.file
      (eventOf env name outcome userId ip ua target meta_)).1 = .ok () ↔ env.auditFault = none :=
    Audit.write_ok_iff D w.log w.file hp
  constructor
  · rintro ⟨b, hb⟩
    obtain ⟨hfree, -, log, file, hwrite, -⟩ := withAudit_ok_iff.mp (Prod.ext hb rfl)
    exact ⟨hfree, hfault.mp (congrArg Prod.fst hwrite)⟩
  · rintro ⟨hfree, hnone⟩
    exact ⟨a, congrArg Prod.fst (withAudit_ok_iff.mpr
      ⟨hfree, rfl, _, _, Prod.ext (hfault.mpr hnone) rfl, rfl⟩)⟩

theorem createdEvent_plain (env : RequestEnv) (req : NewShareRequest) (shareId printId vendorId : Uuid) :
    (createdEvent env req shareId printId vendorId).Plain := by
  apply eventOf_plain
  · simp [uuid, Json.floatFree, Json.depth]
  · simp [text, number, flag, Json.floatFree, Json.depth]

theorem offerShare_ok_iff (D : app.serde.Documented) {w u : World} {vendor : Vendor} {print : Print}
    (h : Prepared env req w.store u.store vendor print) (ha : u.auditPoisoned = w.auditPoisoned) :
    (∃ c, (offerShare env app req vendor print u).1 = .ok c) ↔
      (expiryOf env req).isSome = true ∧ ShareLands env app w.store ∧ Audits env w := by
  constructor
  · rintro ⟨c, hc⟩
    obtain ⟨expiresAt, w1, h1, k1⟩ := bind_ok_iff.mp (Prod.ext hc rfl)
    obtain ⟨hexpiry, rfl⟩ := orPanic_ok_iff.mp h1
    obtain ⟨made, w2, h2, k2⟩ := bind_ok_iff.mp k1
    obtain ⟨t', hmade, rfl⟩ := onStore_ok_iff.mp h2
    obtain ⟨hfree, hfault⟩ := (audited_done_iff D (createdEvent_plain env req _ _ _)).mp
      ⟨c, congrArg Prod.fst k2⟩
    exact ⟨by simp [hexpiry], (createShare_made_iff h).mp ⟨made, t', hmade⟩, ha ▸ hfree, hfault⟩
  · rintro ⟨hexpiry, hlands, hfree, hfault⟩
    obtain ⟨expiresAt, hexpiry⟩ := Option.isSome_iff_exists.mp hexpiry
    obtain ⟨made, t', hmade⟩ : ∃ made t', Shares.create env.toEnv app.bcrypt print.id vendor.id expiresAt
        req.maxDownloads req.note req.createdBy u.store = (.ok made, t') := (createShare_made_iff h).mpr hlands
    rw [offerShare, bind_ok (orPanic_ok_iff.mpr ⟨hexpiry, rfl⟩), bind_ok (onStore_ok hmade)]
    exact (audited_done_iff D (createdEvent_plain env req _ _ _)).mpr ⟨ha.trans hfree, hfault⟩

end

structure Creates (env : RequestEnv) (app : App) (req : NewShareRequest) (w : World) : Prop where
  free : w.storePoisoned = false
  vendor : VendorFound env w.store req ∨ VendorAdded env w.store req
  print : PrintLands env w.store req
  expiry : (expiryOf env req).isSome = true
  share : ShareLands env app w.store
  audits : Audits env w

structure ReachesExpiry (env : RequestEnv) (req : NewShareRequest) (w : World) : Prop where
  free : w.storePoisoned = false
  vendor : VendorFound env w.store req ∨ VendorAdded env w.store req
  print : PrintLands env w.store req

section
variable (env : RequestEnv) (app : App) (req : NewShareRequest)

theorem createShare_of_storeShare (w : World) :
    ((createShare env app req w).2.store = (storeShare env app req w).2.store ∧
      (createShare env app req w).2.storePoisoned = (storeShare env app req w).2.storePoisoned) ∧
    ((∃ c, (createShare env app req w).1 = .ok c) ↔ ∃ c, (storeShare env app req w).1 = .ok c) ∧
    ∀ e, (createShare env app req w).1 = .err e ↔ (storeShare env app req w).1 = .err e := by
  rcases h : storeShare env app req w with ⟨c | e | _, t⟩
  · rw [createShare, bind_ok h, bind_ok (modify_apply _ _)]
    simp
  · rw [createShare, bind_err h]
    simp
  · rw [createShare, bind_panic h]
    simp

/-- How a creation ends: a poisoned mutex, an error before the expiry, or what becomes
of the offer. -/
theorem storeShare_cases (D : app.serde.Documented) (w : World) :
    (w.storePoisoned = true ∧ storeShare env app req w = (.err (.internal .mutexPoisoned), w)) ∨
    (w.storePoisoned = false ∧ ¬ ReachesExpiry env req w ∧ ∃ e t,
      storeShare env app req w = (.err (.storage e), { w with store := t }) ∧
        (w.store.blobs (blobPathOf (env.newId .print)) = none → (SameRecords w.store t ↔
          ¬ VendorAdded env w.store req ∧
            (VendorFound env w.store req → PrintVanishes env w.store req)))) ∨
    (ReachesExpiry env req w ∧
      (storeShare env app req w).2.store.db.prints.rows.length = w.store.db.prints.rows.length + 1 ∧
      ((∃ c, (storeShare env app req w).1 = .ok c) ↔ Creates env app req w) ∧
      ((storeShare env app req w).1 = .err (.internal .taskPanicked) ↔ expiryOf env req = none) ∧
      ((storeShare env app req w).2.storePoisoned = true ↔ expiryOf env req = none)) := by
  cases hp : w.storePoisoned with
  | true => exact .inl ⟨rfl, by rw [storeShare_eq, withStore_poisoned _ hp]⟩
  | false =>
      refine .inr ?_
      rcases vendorAndPrint_cases env app req w with
        ⟨⟨hv, hl⟩, v, p, t, hrun, hprepared⟩ | ⟨hno, e, t, hrun, hsame⟩
      · right
        have hok := offerShare_ok_iff (u := { w with store := t }) D hprepared rfl
        have hpanic : (offerShare env app req v p { w with store := t }).1 = .panic ↔ expiryOf env req = none :=
          offerShare_panics_iff
        obtain ⟨hprints, hpoison⟩ : (offerShare env app req v p { w with store := t }).2.store.db.prints =
            t.db.prints ∧ (offerShare env app req v p { w with store := t }).2.storePoisoned =
              w.storePoisoned := moves_offerShare v p { w with store := t }
        have herr : ∀ e, (offerShare env app req v p { w with store := t }).1 = .err e →
            e ≠ .internal .taskPanicked := (safe_offerShare v p { w with store := t } trivial).1
        rw [storeShare_eq]
        rcases ho : offerShare env app req v p { w with store := t } with ⟨o, u⟩
        rw [ho] at hok hpanic hprints hpoison herr
        have hbody := (bind_ok hrun fun q => offerShare env app req q.1 q.2).trans ho
        have hlen : u.store.db.prints.rows.length = w.store.db.prints.rows.length + 1 := by
          rw [hprints]
          exact hprepared.added
        refine ⟨⟨hp, hv, hl⟩, ?_⟩
        have hcreates : (∃ c, o = .ok c) ↔ Creates env app req w :=
          hok.trans ⟨fun h => ⟨hp, hv, hl, h.1, h.2.1, h.2.2⟩, fun h => ⟨h.expiry, h.share, h.audits⟩⟩
        by_cases hq : o = .panic
        · subst hq
          rw [blocking_of_panic hp hbody]
          simpa [hlen, hpanic.mp rfl] using hcreates
        · rw [blocking_of_run hp hbody hq]
          have hsome : expiryOf env req ≠ none := fun h => hq (hpanic.mpr h)
          refine ⟨hlen, hcreates, iff_of_false (fun h => herr _ h rfl) hsome, iff_of_false ?_ hsome⟩
          rw [hpoison]
          simp [hp]
      · left
        have hbody := bind_err hrun fun q => offerShare env app req q.1 q.2
        refine ⟨rfl, fun h => hno ⟨h.vendor, h.print⟩, e, t, ?_, hsame⟩
        rw [storeShare_eq, blocking_of_run hp hbody (by simp), hp]

theorem createShare_created_iff (D : app.serde.Documented) (w : World) :
    (∃ created, (createShare env app req w).1 = .ok created) ↔ Creates env app req w := by
  rw [(createShare_of_storeShare env app req w).2.1]
  rcases storeShare_cases env app req D w with
    ⟨hp, hrun⟩ | ⟨-, hno, e, t, hrun, -⟩ | ⟨-, -, hcreates, -, -⟩
  · rw [hrun]
    refine iff_of_false (by simp) fun h => ?_
    rw [h.free] at hp
    cases hp
  · rw [hrun]
    exact iff_of_false (by simp) fun h => hno ⟨h.free, h.vendor, h.print⟩
  · exact hcreates

end

/-! ## Atomicity on error -/

/-- A creation that does not return a share leaves vendors, prints, shares and blob
files as they were. -/
def AtomicOnError (env : RequestEnv) (app : App) (req : NewShareRequest) (w : World) : Prop :=
  (∀ created, (createShare env app req w).1 ≠ .ok created) →
    SameRecords w.store (createShare env app req w).2.store

section
variable {env : RequestEnv} {app : App} {req : NewShareRequest} {w : World}

/-- What has landed stays: after the print, only success is atomic. -/
theorem atomicOnError_iff (D : app.serde.Documented)
    (hfresh : w.store.blobs (blobPathOf (env.newId .print)) = none) :
    AtomicOnError env app req w ↔ w.storePoisoned = true ∨ Creates env app req w ∨
      (¬ VendorAdded env w.store req ∧ (VendorFound env w.store req → PrintVanishes env w.store req)) := by
  obtain ⟨⟨hstore, -⟩, hok, -⟩ := createShare_of_storeShare env app req w
  have hiff : AtomicOnError env app req w ↔ (¬ ∃ c, (storeShare env app req w).1 = .ok c) →
      SameRecords w.store (storeShare env app req w).2.store := by
    rw [AtomicOnError, hstore, ← hok, not_exists]
  rw [hiff]
  rcases storeShare_cases env app req D w with
    ⟨hp, hrun⟩ | ⟨hp, hno, e, t, hrun, hsame⟩ | ⟨hreach, hlen, hcreates, -, -⟩
  · rw [hrun]
    exact iff_of_true (fun _ => ⟨rfl, rfl, rfl, rfl⟩) (.inl hp)
  · rw [hrun]
    have hnot : ¬ Creates env app req w := fun h => hno ⟨h.free, h.vendor, h.print⟩
    simp [hp, hnot, hsame hfresh]
  · rw [hcreates]
    constructor
    · intro h
      by_cases hc : Creates env app req w
      · exact .inr (.inl hc)
      · have hprints := (h hc).2.1
        rw [hprints] at hlen
        omega
    · rintro (hp | hc | ⟨hadded, hfound⟩) hno
      · rw [hreach.free] at hp
        cases hp
      · exact absurd hc hno
      · rcases hfound (hreach.vendor.resolve_right hadded) with hb | ⟨hf, -⟩ | ⟨-, hr, -⟩
        · exact absurd hreach.print.begins hb
        · rw [hreach.print.writes] at hf
          cases hf
        · exact absurd hr hreach.print.accepted

end

theorem atomicOnError_sample :
    AtomicOnError quietEnv sampleApp sampleUpload sampleWorld ↔ sampleWorld.storePoisoned = true ∨
      Creates quietEnv sampleApp sampleUpload sampleWorld ∨
      (¬ VendorAdded quietEnv sampleWorld.store sampleUpload ∧
        (VendorFound quietEnv sampleWorld.store sampleUpload →
          PrintVanishes quietEnv sampleWorld.store sampleUpload)) :=
  atomicOnError_iff Audit.SerdeJson.reference_documented rfl

def fullAuditDisk : RequestEnv := { quietEnv with auditFault := some .append }

/-- The event cannot be appended: no share is returned, but vendor, print and share are
there. -/
theorem unaudited_share_stays : ¬ AtomicOnError fullAuditDisk sampleApp sampleUpload sampleWorld := by
  have hnone : (createShare fullAuditDisk sampleApp sampleUpload sampleWorld).1.value = none := by
    decide +kernel
  have hlen : (createShare fullAuditDisk sampleApp sampleUpload sampleWorld).2.store.db.vendors.rows.length = 1 := by
    decide +kernel
  intro h
  have hvendors := (h fun created hc => by simp [hc, Outcome.value] at hnone).1
  rw [hvendors] at hlen
  exact absurd hlen (by decide)

/-! ## The expiry -/

/-- The creation panics nowhere, leaves the store mutex as it is, and stores the
expiry it was asked for, to the millisecond. -/
structure ExpirySafe (env : RequestEnv) (app : App) (req : NewShareRequest) (w : World) : Prop where
  completes : (createShare env app req w).1 ≠ .err (.internal .taskPanicked)
  mutex : (createShare env app req w).2.storePoisoned = w.storePoisoned
  expiry : ∀ created, (createShare env app req w).1 = .ok created →
    ∃ r ∈ (createShare env app req w).2.store.db.shares.rows, r.id = created.shareId.val ∧
      r.expiresAt = ((env.now .shareExpiry).time.nanos +
        req.expiresInHours.toNat * Sessions.nanosPerHour).tdiv 1000000

/-- The clock reading plus the hours asked for lies before the end of year 9999. -/
def ExpiryInCalendar (env : RequestEnv) (req : NewShareRequest) : Prop :=
  (env.now .shareExpiry).time.nanos + req.expiresInHours.toNat * Sessions.nanosPerHour < endLocal

section
variable {env : RequestEnv} {app : App} {req : NewShareRequest} {w : World}

theorem expiryOf_none_iff : expiryOf env req = none ↔ ¬ ExpiryInCalendar env req := by
  have hutc := (env.now .shareExpiry).utc
  have hrange := (env.now .shareExpiry).time.inRange.1
  rw [hutc] at hrange
  have hpos : 0 ≤ (req.expiresInHours.toNat : ℤ) * Sessions.nanosPerHour :=
    mul_nonneg (Int.natCast_nonneg _) (by decide)
  rw [expiryOf, OffsetDateTime.add, OffsetDateTime.mk?, hutc, ExpiryInCalendar]
  simp only [zero_mul, add_zero] at hrange ⊢
  split_ifs with h
  · simpa using h.2
  · simp only [true_iff]
    intro hlt
    exact h ⟨by omega, hlt⟩

theorem createShare_expiry {created : ShareCreated} {w' : World}
    (h : createShare env app req w = (.ok created, w')) :
    ∃ r ∈ w'.store.db.shares.rows, r.id = created.shareId.val ∧
      r.expiresAt = ((env.now .shareExpiry).time.nanos +
        req.expiresInHours.toNat * Sessions.nanosPerHour).tdiv 1000000 := by
  obtain ⟨vendor, print, expiresAt, share, secrets, s1, s2, s3, log, file, -, -, -, -, hexpiry, hcreate, -, rfl,
    rfl⟩ := createShare_steps h
  obtain ⟨hid, shares, hins, rfl⟩ := create_ok hcreate
  refine ⟨_, (Table.mem_of_insert hins).mpr (.inr rfl), (congrArg Subtype.val hid).symm, ?_⟩
  · change dtToMillis expiresAt = _
    rw [dtToMillis, (OffsetDateTime.mk?_some hexpiry).1]

/-- Hours that lead out of the calendar panic under the store mutex, unless an error
comes first. -/
theorem expirySafe_iff (D : app.serde.Documented) :
    ExpirySafe env app req w ↔ (ReachesExpiry env req w → ExpiryInCalendar env req) := by
  obtain ⟨⟨-, hpoison⟩, -, herr⟩ := createShare_of_storeShare env app req w
  have hexpiry : ∀ created, (createShare env app req w).1 = .ok created →
      ∃ r ∈ (createShare env app req w).2.store.db.shares.rows, r.id = created.shareId.val ∧
        r.expiresAt = ((env.now .shareExpiry).time.nanos +
          req.expiresInHours.toNat * Sessions.nanosPerHour).tdiv 1000000 :=
    fun created h => createShare_expiry (Prod.ext h rfl)
  have hiff : ExpirySafe env app req w ↔
      (storeShare env app req w).1 ≠ .err (.internal .taskPanicked) ∧
        (storeShare env app req w).2.storePoisoned = w.storePoisoned := by
    constructor
    · intro h
      exact ⟨fun hp => h.completes ((herr _).mpr hp), hpoison ▸ h.mutex⟩
    · rintro ⟨hc, hm⟩
      exact ⟨fun hp => hc ((herr _).mp hp), hpoison.trans hm, hexpiry⟩
  rw [hiff]
  rcases storeShare_cases env app req D w with
    ⟨hp, hrun⟩ | ⟨hp, hno, e, t, hrun, -⟩ | ⟨hreach, -, -, hpanic, hmutex⟩
  · rw [hrun]
    refine iff_of_true ⟨by simp, rfl⟩ fun h => ?_
    rw [h.free] at hp
    cases hp
  · rw [hrun]
    exact iff_of_true ⟨by simp, rfl⟩ fun h => absurd h hno
  · rw [Ne, hpanic, hreach.free, ← Bool.not_eq_true, hmutex, expiryOf_none_iff, not_not, and_self]
    exact ⟨fun h _ => h, fun h => h hreach⟩

end

theorem expirySafe_sample :
    ExpirySafe quietEnv sampleApp sampleUpload sampleWorld ↔
      (ReachesExpiry quietEnv sampleUpload sampleWorld → ExpiryInCalendar quietEnv sampleUpload) :=
  expirySafe_iff Audit.SerdeJson.reference_documented

theorem longest_expiry_poisons :
    ¬ ExpirySafe quietEnv sampleApp { sampleUpload with expiresInHours := 4294967295 } sampleWorld := by
  have hpoisoned : (createShare quietEnv sampleApp { sampleUpload with expiresInHours := 4294967295 }
      sampleWorld).2.storePoisoned = true := by
    decide +kernel
  intro h
  have hmutex := h.mutex
  rw [hpoisoned] at hmutex
  exact absurd hmutex (by decide)

end FipsDropbox.Service
