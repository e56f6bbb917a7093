import FipsDropbox.Storage.PrintRuns
import FipsDropbox.Storage.Substitution
import FipsDropbox.Storage.Credentials

/-!
# Referential integrity

The tables of vendors, prints and shares refer to each other by foreign keys. Every
operation leaves a store in which each share has its vendor and its print, so the inner
joins of the share list drop and duplicate nothing.
-/
namespace FipsDropbox.Storage
open Utf8 Exec Crypto

inductive StoreCall where
  | createVendor (displayName email : Text) (phone : Option Text) (createdBy : Uuid)
  | disableVendor (id : Uuid)
  | insertPrint (new : PrintStore.NewPrint)
  | deletePrint (id : Uuid)
  | createShare (printId vendorId : Uuid) (expiresAt : OffsetDateTime) (maxDownloads : UInt32)
      (senderNote : Option Text) (createdBy : Uuid)
  | tryConsumeDownload (shareId : Uuid)
  | revoke (shareId : Uuid)
  | purgeExpired (graceSeconds : UInt64)

section
variable (B : Bcrypt) (kek : Octets 32)

/-- The store after a call, whatever the call returns. -/
def StoreCall.after (env : Env) : StoreCall → Store → Store
  | .createVendor displayName email phone createdBy, s => (Vendors.create env displayName email phone createdBy s).2
  | .disableVendor id, s => (Vendors.disable env id s).2
  | .insertPrint new, s =>
      (PrintStore.insert env B kek new.filename new.plaintext new.uploadedBy new.cuiAttested s).2
  | .deletePrint id, s => (PrintStore.delete env id s).2
  | .createShare printId vendorId expiresAt maxDownloads senderNote createdBy, s =>
      (Shares.create env B printId vendorId expiresAt maxDownloads senderNote createdBy s).2
  | .tryConsumeDownload shareId, s => (Shares.tryConsumeDownload env shareId s).2
  | .revoke shareId, s => (Shares.revoke env shareId s).2
  | .purgeExpired graceSeconds, s => (Shares.purgeExpired env graceSeconds s).2

/-- The stores that calls reach from one without vendors, prints and shares. The other
tables and the files may change at any time. -/
inductive Reached : Store → Prop
  | start (s : Store) (vendors : s.db.vendors = .empty) (prints : s.db.prints = .empty)
      (shares : s.db.shares = .empty) : Reached s
  | call {s : Store} (env : Env) (c : StoreCall) (reached : Reached s) : Reached (c.after B kek env s)
  | elsewhere {s : Store} (t : Store) (vendors : t.db.vendors = s.db.vendors) (prints : t.db.prints = s.db.prints)
      (shares : t.db.shares = s.db.shares) (reached : Reached s) : Reached t

end

theorem Reached.calls {B : Bcrypt} {kek : Octets 32} {s : Store} (h : Reached B kek s) (cs : List (Env × StoreCall)) :
    Reached B kek (cs.foldl (fun s c => c.2.after B kek c.1 s) s) := by
  induction cs generalizing s with
  | nil => exact h
  | cons c cs ih => exact ih (.call c.1 c.2 h)

/-- Every share has its vendor and its print, and what the join reads decodes. -/
structure Integral (db : Db) : Prop where
  vendors : ∀ share ∈ db.shares.rows, ∃ vendor ∈ db.vendors.rows, vendor.id = share.vendorId
  prints : ∀ share ∈ db.shares.rows, ∃ print ∈ db.prints.rows, print.id = share.printId
  ids : ∀ share ∈ db.shares.rows, ∃ id : Uuid, share.id = id.val
  readable : ∀ row ∈ db.prints.rows, ∃ print, rowToPrint row = .ok print

namespace Integral
variable {db : Db}

theorem of_empty (hprints : db.prints = .empty) (hshares : db.shares = .empty) : Integral db := by
  refine ⟨?_, ?_, ?_, ?_⟩ <;> simp [hprints, hshares]

theorem congr {db' : Db} (h : Integral db) (hvendors : db'.vendors = db.vendors) (hprints : db'.prints = db.prints)
    (hshares : db'.shares = db.shares) : Integral db' := by
  refine ⟨?_, ?_, ?_, ?_⟩
  · rw [hshares, hvendors]
    exact h.vendors
  · rw [hshares, hprints]
    exact h.prints
  · rw [hshares]
    exact h.ids
  · rw [hprints]
    exact h.readable

theorem insertVendor (h : Integral db) {row : VendorRow} {vendors : Table VendorRow Bytes [VendorRow.id]}
    (hins : db.vendors.insert row = some vendors) : Integral { db with vendors } := by
  refine ⟨fun share hshare => ?_, h.prints, h.ids, h.readable⟩
  obtain ⟨vendor, hvendor, hid⟩ := h.vendors share hshare
  exact ⟨vendor, (Table.mem_of_insert hins).mpr (.inl hvendor), hid⟩

theorem updateVendors (h : Integral db) (p : VendorRow → Bool) (f : VendorRow → VendorRow)
    (hf : ∀ key ∈ [VendorRow.id], ∀ r, key (f r) = key r) :
    Integral { db with vendors := (db.vendors.update p f hf).2 } := by
  refine ⟨fun share hshare => ?_, h.prints, h.ids, h.readable⟩
  obtain ⟨vendor, hvendor, hid⟩ := h.vendors share hshare
  cases hp : p vendor with
  | true => exact ⟨f vendor, Table.mem_update_of_true f hf hvendor hp, (hf _ List.mem_cons_self vendor).trans hid⟩
  | false => exact ⟨vendor, Table.mem_update_of_false f hf hvendor hp, hid⟩

theorem insertPrint (h : Integral db) {row : PrintRow} {prints : Table PrintRow Bytes [PrintRow.id]}
    (hrow : ∃ print, rowToPrint row = .ok print) (hins : db.prints.insert row = some prints) :
    Integral { db with prints } := by
  refine ⟨h.vendors, fun share hshare => ?_, h.ids, fun row' hrow' => ?_⟩
  · obtain ⟨print, hprint, hid⟩ := h.prints share hshare
    exact ⟨print, (Table.mem_of_insert hins).mpr (.inl hprint), hid⟩
  · rcases (Table.mem_of_insert hins).mp hrow' with hold | rfl
    · exact h.readable row' hold
    · exact hrow

/-- A print that a share refers to stays. -/
theorem deletePrint (h : Integral db) {id : Bytes} {n : ℕ} {db' : Db} (hdel : Db.deletePrint id db = some (n, db')) :
    Integral db' := by
  have hprints := PrintStore.References.deleteRow h.prints hdel
  obtain ⟨rfl, -⟩ := PrintStore.deletePrint_some hdel
  exact ⟨h.vendors, hprints, h.ids, fun row hrow => h.readable row (List.mem_filter.mp hrow).1⟩

theorem insertShare (h : Integral db) {row : ShareRow} {n : ℕ} {db' : Db} (hid : ∃ id : Uuid, row.id = id.val)
    (hins : Db.insertShare row db = some (n, db')) : Integral db' := by
  obtain ⟨hprint, hvendor⟩ := insertShare_refers hins
  obtain ⟨-, shares, hshares, rfl⟩ := insertShare_some hins
  refine ⟨fun share hshare => ?_, fun share hshare => ?_, fun share hshare => ?_, h.readable⟩
  · rcases (Table.mem_of_insert hshares).mp hshare with hold | rfl
    · exact h.vendors share hold
    · exact hvendor
  · rcases (Table.mem_of_insert hshares).mp hshare with hold | rfl
    · exact h.prints share hold
    · exact hprint
  · rcases (Table.mem_of_insert hshares).mp hshare with hold | rfl
    · exact h.ids share hold
    · exact hid

theorem setShares (h : Integral db) (shares : Table ShareRow Bytes [ShareRow.id, ShareRow.tokenHash])
    (hfrom : ∀ r ∈ shares.rows, ∃ r₀ ∈ db.shares.rows, r.id = r₀.id ∧ r.vendorId = r₀.vendorId ∧
      r.printId = r₀.printId) : Integral { db with shares } := by
  refine ⟨fun r hr => ?_, fun r hr => ?_, fun r hr => ?_, h.readable⟩
  · obtain ⟨r₀, hr₀, -, hvendor, -⟩ := hfrom r hr
    rw [hvendor]
    exact h.vendors r₀ hr₀
  · obtain ⟨r₀, hr₀, -, -, hprint⟩ := hfrom r hr
    rw [hprint]
    exact h.prints r₀ hr₀
  · obtain ⟨r₀, hr₀, hid, -, -⟩ := hfrom r hr
    rw [hid]
    exact h.ids r₀ hr₀

theorem updateShares (h : Integral db) (p : ShareRow → Bool) (f : ShareRow → ShareRow)
    (hf : ∀ key ∈ [ShareRow.id, ShareRow.tokenHash], ∀ r, key (f r) = key r)
    (hrefs : ∀ r, (f r).vendorId = r.vendorId ∧ (f r).printId = r.printId) :
    Integral { db with shares := (db.shares.update p f hf).2 } := by
  apply h.setShares
  intro r hr
  rw [Table.update_rows] at hr
  obtain ⟨r₀, hr₀, rfl⟩ := List.mem_map.mp hr
  refine ⟨r₀, hr₀, ?_⟩
  split_ifs
  · exact ⟨hf _ List.mem_cons_self r₀, hrefs r₀⟩
  · exact ⟨rfl, rfl, rfl⟩

end Integral

def KeepsIntegral (s t : Store) : Prop := Integral s.db → Integral t.db

theorem keepsIntegral_frame : Frame KeepsIntegral where
  refl _ := id
  trans h h' := h' ∘ h

section
variable {env : Env} {B : Bcrypt} {kek : Octets 32}

theorem moves_delete {R : Store → Store → Prop} (F : Frame R) (id : Uuid)
    (hrow : ∀ (s : Store) n db, Db.deletePrint id.val s.db = some (n, db) → R s { s with db })
    (hblob : ∀ s path, R s (PrintStore.removeBlob env path s)) : Moves R (PrintStore.delete env id) := by
  refine F.bind (PrintStore.moves_find F _ _) fun found => F.bind (F.orErr _ _) fun print =>
    F.bind (moves_execute F _ ?_) fun _ => moves_modify fun s => hblob s _
  exact hrow

theorem atomic_delete (env : Env) (id : Uuid) : Atomic (PrintStore.delete env id) :=
  atomic_bind (PrintStore.moves_find stays_frame _ _) fun _ => atomic_bind (stays_frame.orErr _ _) fun _ =>
    atomic_modify (atomic_execute _ _) _

/-- The step lemma, by the kind of the call. -/
theorem StoreCall.after_integral (c : StoreCall) (s : Store) : KeepsIntegral s (c.after B kek env s) := by
  have F := keepsIntegral_frame
  cases c with
  | createVendor displayName email phone createdBy =>
      exact moves_createVendor F (fun _ _ _ hins h => h.insertVendor hins) displayName email phone createdBy s
  | disableVendor id =>
      intro h
      rcases disableVendor_cases env id s with ⟨-, hrun⟩ | ⟨-, e, hrun⟩
      · rw [StoreCall.after, hrun]
        exact h.updateVendors _ _ _
      · rw [StoreCall.after, hrun]
        exact h
  | insertPrint new =>
      exact PrintStore.moves_insert F (fun _ _ h => h) (fun _ _ _ _ hrow hins h => h.insertPrint hrow hins) _ _ _ _ s
  | deletePrint id =>
      refine moves_delete F id (fun _ _ _ hdel h => h.deletePrint hdel) (fun t path h => ?_) s
      rw [PrintStore.removeBlob_db]
      exact h
  | createShare printId vendorId expiresAt maxDownloads senderNote createdBy =>
      exact moves_insertShare F (fun _ _ _ _ hid _ _ hins h => h.insertShare ⟨_, hid⟩ hins) s
  | tryConsumeDownload shareId =>
      exact moves_tryConsumeDownload F shareId (fun _ _ h => h.updateShares _ _ _ fun _ => ⟨rfl, rfl⟩) s
  | revoke shareId =>
      intro h
      rcases revoke_cases env shareId s with ⟨hrun, -⟩ | ⟨e, hrun⟩
      · rw [StoreCall.after, hrun]
        exact h.updateShares _ _ _ fun _ => ⟨rfl, rfl⟩
      · rw [StoreCall.after, hrun]
        exact h
  | purgeExpired graceSeconds =>
      refine moves_purgeExpired F graceSeconds (fun _ _ h => h.setShares _ fun r hr => ?_) s
      exact ⟨r, (List.mem_filter.mp hr).1, rfl, rfl, rfl⟩

theorem Reached.integral {s : Store} (h : Reached B kek s) : Integral s.db := by
  induction h with
  | start s vendors prints shares => exact .of_empty prints shares
  | call env c reached ih => exact c.after_integral _ ih
  | elsewhere t vendors prints shares reached ih => exact ih.congr vendors prints shares

end

theorem Integral.find {s : Store} (h : Integral s.db) {id : Uuid}
    (hrow : ∃ row ∈ s.db.prints.rows, row.id = id.val) (env : Env) (c : Call) :
    ∃ print, print.id = id ∧
      PrintStore.find env c id s = (if env.fails c then .err (.sqlite .failure) else .ok (some print), s) := by
  obtain ⟨row, hrow, hid⟩ := hrow
  obtain ⟨print, hprint⟩ := h.readable row hrow
  have hfind : s.db.prints.find (fun r => r.id = id.val) = some row := hid ▸ Table.find_key List.mem_cons_self hrow
  refine ⟨print, Subtype.ext ((PrintStore.rowToPrint_columns hprint).1.trans hid), ?_⟩
  rw [PrintStore.find, queryRow_eq, hfind]
  simp only [hprint]

theorem Integral.print_of_share {db : Db} (h : Integral db) {r : ShareRow} {share : Share}
    (hr : r ∈ db.shares.rows) (hshare : rowToShare r = .ok share) : ∃ row ∈ db.prints.rows, row.id = share.printId.val := by
  obtain ⟨row, hrow, hid⟩ := h.prints r hr
  exact ⟨row, hrow, hid.trans (rowToShare_ok hshare).2.1.symm⟩

/-- The inner joins of the query. -/
def Db.shareJoin (db : Db) : List (ShareRow × VendorRow × PrintRow) :=
  db.shares.rows.flatMap fun r =>
    (db.vendors.rows.filter fun v => v.id = r.vendorId).flatMap fun v =>
      (db.prints.rows.filter fun p => p.id = r.printId).map fun p => (r, v, p)

theorem recentShares_join (limit : ℕ) (db : Db) :
    db.recentShares limit = (db.shareJoin.mergeSort fun a b => b.1.createdAt ≤ a.1.createdAt).take limit := by
  refine congrArg (fun rows : List (ShareRow × VendorRow × PrintRow) =>
    (rows.mergeSort fun a b => b.1.createdAt ≤ a.1.createdAt).take limit) ?_
  rw [List.filterMap_eq_flatMap_toList, Db.shareJoin]
  apply List.flatMap_congr
  intro r _
  rw [Table.filter_key db.vendors List.mem_cons_self, Table.filter_key db.prints List.mem_cons_self]
  cases db.vendors.find fun v => v.id = r.vendorId with
  | none => rfl
  | some v => cases db.prints.find (fun p => p.id = r.printId) <;> rfl

theorem mem_join_of_recent {db : Db} {limit : ℕ} {row : ShareRow × VendorRow × PrintRow}
    (h : row ∈ db.recentShares limit) : row ∈ db.shareJoin := by
  rw [recentShares_join] at h
  exact List.mem_mergeSort.mp (List.mem_of_mem_take h)

theorem mem_shareJoin {db : Db} {row : ShareRow × VendorRow × PrintRow} (h : row ∈ db.shareJoin) :
    row.1 ∈ db.shares.rows ∧ (row.2.1 ∈ db.vendors.rows ∧ row.2.1.id = row.1.vendorId) ∧
      row.2.2 ∈ db.prints.rows ∧ row.2.2.id = row.1.printId := by
  obtain ⟨r, hr, h⟩ := List.mem_flatMap.mp h
  obtain ⟨v, hv, h⟩ := List.mem_flatMap.mp h
  obtain ⟨p, hp, rfl⟩ := List.mem_map.mp h
  obtain ⟨hv, hvendor⟩ := List.mem_filter.mp hv
  obtain ⟨hp, hprint⟩ := List.mem_filter.mp hp
  exact ⟨hr, ⟨hv, of_decide_eq_true hvendor⟩, hp, of_decide_eq_true hprint⟩

theorem Integral.join {db : Db} (h : Integral db) : db.shareJoin.map Prod.fst = db.shares.rows := by
  have hone : ∀ r ∈ db.shares.rows, ((db.vendors.rows.filter fun v => v.id = r.vendorId).flatMap fun v =>
      (db.prints.rows.filter fun p => p.id = r.printId).map fun p => (r, v, p)).map Prod.fst = [r] := by
    intro r hr
    obtain ⟨v, hv, hvendor⟩ := h.vendors r hr
    obtain ⟨p, hp, hprint⟩ := h.prints r hr
    rw [Table.filter_key db.vendors List.mem_cons_self, Table.filter_key db.prints List.mem_cons_self, ← hvendor,
      ← hprint, Table.find_key List.mem_cons_self hv, Table.find_key List.mem_cons_self hp]
    rfl
  rw [Db.shareJoin, List.map_flatMap, List.flatMap_congr hone, List.flatMap_singleton']

theorem rowToListItem_ok {row : ShareRow × VendorRow × PrintRow} {id : Uuid} (h : row.1.id = id.val) :
    ∃ item, rowToListItem row = .ok item := by
  obtain ⟨r, v, p⟩ := row
  simp only at h
  simp only [rowToListItem, h, uuidFrom_val]
  exact ⟨_, rfl⟩

theorem rowToListItem_id {row : ShareRow × VendorRow × PrintRow} {item : ShareListItem}
    (h : rowToListItem row = .ok item) : item.id.val = row.1.id := by
  obtain ⟨id, hid, h⟩ := of_except_bind h
  obtain rfl := Except.ok.inj h
  exact of_uuidFrom_ok hid

/-- The list is made of the newest shares, each once and with its own vendor and print. -/
structure Lists (db : Db) (limit : UInt32) (rows : List (ShareRow × VendorRow × PrintRow))
    (items : List ShareListItem) : Prop where
  latest : Table.Latest ShareRow.createdAt limit.toNat db.shares.rows (rows.map Prod.fst)
  vendor : ∀ row ∈ rows, row.2.1 ∈ db.vendors.rows ∧ row.2.1.id = row.1.vendorId
  print : ∀ row ∈ rows, row.2.2 ∈ db.prints.rows ∧ row.2.2.id = row.1.printId
  decoded : List.Forall₂ (fun row item => rowToListItem row = .ok item) rows items
  once : (items.map ShareListItem.id).Nodup

theorem exists_decoded {rows : List (ShareRow × VendorRow × PrintRow)}
    (h : ∀ row ∈ rows, ∃ id : Uuid, row.1.id = id.val) :
    ∃ items, List.Forall₂ (fun row item => rowToListItem row = .ok item) rows items := by
  induction rows with
  | nil => exact ⟨[], .nil⟩
  | cons row rows ih =>
      obtain ⟨id, hid⟩ := h row List.mem_cons_self
      obtain ⟨item, hitem⟩ := rowToListItem_ok hid
      obtain ⟨items, hitems⟩ := ih fun row' hrow' => h row' (List.mem_cons_of_mem row hrow')
      exact ⟨item :: items, .cons hitem hitems⟩

theorem decoded_ids {rows : List (ShareRow × VendorRow × PrintRow)} {items : List ShareListItem}
    (h : List.Forall₂ (fun row item => rowToListItem row = .ok item) rows items) :
    items.map (fun item => item.id.val) = (rows.map Prod.fst).map ShareRow.id := by
  induction h with
  | nil => rfl
  | cons hrow _ ih => rw [List.map_cons, List.map_cons, List.map_cons, rowToListItem_id hrow, ih]

theorem Integral.lists {s : Store} (h : Integral s.db) (env : Env) (limit : UInt32) :
    ∃ rows items, Lists s.db limit rows items ∧
      Shares.listRecent env limit s =
        (if env.fails .listShares then .err (.sqlite .failure) else .ok items, s) := by
  have hmem : ∀ row ∈ s.db.recentShares limit.toNat, row ∈ s.db.shareJoin := fun _ => mem_join_of_recent
  have hlatest : Table.Latest ShareRow.createdAt limit.toNat s.db.shares.rows
      ((s.db.recentShares limit.toNat).map Prod.fst) := by
    have hsort := List.map_mergeSort (f := Prod.fst) (l := s.db.shareJoin)
      (r := fun a b => b.1.createdAt ≤ a.1.createdAt) (s := fun a b => b.createdAt ≤ a.createdAt) fun _ _ _ _ => rfl
    rw [recentShares_join, List.map_take, hsort, h.join]
    exact Table.latest_take ShareRow.createdAt limit.toNat s.db.shares.rows
  obtain ⟨items, hitems⟩ := exists_decoded fun row hrow => h.ids row.1 (mem_shareJoin (hmem row hrow)).1
  refine ⟨_, items, ⟨hlatest, fun row hrow => (mem_shareJoin (hmem row hrow)).2.1,
    fun row hrow => (mem_shareJoin (hmem row hrow)).2.2, hitems, ?_⟩, ?_⟩
  · obtain ⟨rest, hperm, -⟩ := hlatest.rest
    have hids := (hperm.map ShareRow.id).nodup_iff.mpr (s.db.shares.unique ShareRow.id List.mem_cons_self)
    rw [List.map_append, ← decoded_ids hitems] at hids
    have honce := (List.nodup_append.mp hids).1
    exact List.Nodup.of_map Subtype.val (by rwa [List.map_map])
  · cases hf : env.fails .listShares with
    | true =>
        have hfail : statement env .listShares s = (.err (.sqlite .failure), s) := by
          rw [statement, hf]
          rfl
        exact bind_err hfail _
    | false => exact queryMap_ok_iff.mpr ⟨hf, hitems, rfl⟩

end FipsDropbox.Storage
