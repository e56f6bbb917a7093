import FipsDropbox.Service.Totality
import FipsDropbox.Storage.Purge

/-!
# The status of a share, shown and enforced

The list compares the expiry, read back from its milliseconds, with the whole clock reading;
the `UPDATE` compares it with the milliseconds of the reading. The two part at the boundary.
-/
namespace FipsDropbox.Service
open Exec Storage

/-- The columns of a share that `create` wrote, whatever has been counted on it since. -/
structure Counted (r : ShareRow) : Prop where
  nonneg : 0 ≤ r.downloadCount
  within : r.downloadCount ≤ r.maxDownloads
  bounded : r.maxDownloads < 2 ^ 32

/-- What the list shows of a share at an instant is whether a download would succeed then. -/
structure StatusAgrees (s : Store) (item : ShareListItem) (now : NowUtc) : Prop where
  active : item.isActive now.time = true ↔ Downloadable s now item.id
  label : item.statusLabel now.time = "active".toList ↔ Downloadable s now item.id

/-- The instant is not that of the expiry in milliseconds, unless a later one within it. An
expiry outside the calendar is shown as the epoch. -/
def ExpiryAgrees (expiresAt : ℤ) (now : NowUtc) : Prop :=
  if minLocal ≤ expiresAt * 1000000 ∧ expiresAt * 1000000 < endLocal then
    ¬ (dtToMillis now.time = expiresAt ∧ now.time.nanos ≤ expiresAt * 1000000)
  else now.time.nanos ≤ 0 ↔ endLocal ≤ expiresAt * 1000000

def KeepsCounted (s t : Store) : Prop :=
  (∀ r ∈ s.db.shares.rows, Counted r) → ∀ r ∈ t.db.shares.rows, Counted r

theorem keepsCounted_frame : Frame KeepsCounted where
  refl _ := id
  trans h h' := h' ∘ h

theorem counted_new (id printId vendorId : Uuid) (tokenHash accessCodeHash : Octets 32) (expiresAt : OffsetDateTime)
    (maxDownloads : UInt32) (senderNote : Option Utf8.Text) (createdBy : Uuid) (now : OffsetDateTime) :
    Counted (newShareRow id printId vendorId tokenHash accessCodeHash expiresAt maxDownloads senderNote createdBy now) := by
  refine ⟨le_refl 0, Int.natCast_nonneg _, ?_⟩
  have hlt := UInt32.toNat_lt maxDownloads
  simp only [newShareRow]
  omega

/-- An update keeps the counts in order, when it does so row by row. -/
theorem counted_update {s : Store} {p : ShareRow → Bool} {f : ShareRow → ShareRow}
    {hf : ∀ key ∈ [ShareRow.id, ShareRow.tokenHash], ∀ r, key (f r) = key r}
    (hrow : ∀ r, p r = true → Counted r → Counted (f r)) :
    KeepsCounted s { s with db := { s.db with shares := (s.db.shares.update p f hf).2 } } := by
  intro h r hr
  rw [Table.update_rows] at hr
  obtain ⟨r₀, hr₀, rfl⟩ := List.mem_map.mp hr
  split_ifs with hp
  · exact hrow r₀ hp (h r₀ hr₀)
  · exact h r₀ hr₀

theorem counted_consumed {id : Utf8.Bytes} {now : ℤ} {r : ShareRow} (huse : r.consumable id now = true) (h : Counted r) :
    Counted r.consumed := by
  obtain ⟨-, -, -, hleft⟩ := consumable_iff.mp huse
  refine ⟨?_, ?_, h.bounded⟩
  · exact Int.add_nonneg h.nonneg (by decide)
  · exact hleft

section
variable {env : Env} {B : Bcrypt} {kek : Octets 32}

theorem after_counted (c : StoreCall) (s : Store) : KeepsCounted s (c.after B kek env s) := by
  have F := keepsCounted_frame
  cases c with
  | createVendor displayName email phone createdBy =>
      exact moves_createVendor F (fun _ _ _ _ h => h) displayName email phone createdBy s
  | disableVendor id =>
      rcases disableVendor_cases env id s with ⟨-, hrun⟩ | ⟨-, e, hrun⟩ <;> rw [StoreCall.after, hrun] <;> exact fun h => h
  | insertPrint new => exact PrintStore.moves_insert F (fun _ _ h => h) (fun _ _ _ _ _ _ h => h) _ _ _ _ s
  | deletePrint id =>
      refine moves_delete F id (fun t n db hdel h => ?_) (fun t path h => ?_) s
      · obtain ⟨rfl, -⟩ := PrintStore.deletePrint_some hdel
        exact h
      · rw [PrintStore.removeBlob_db]
        exact h
  | createShare printId vendorId expiresAt maxDownloads senderNote createdBy =>
      refine moves_insertNewShare F (fun t _ _ n db hins h r hr => ?_) s
      obtain ⟨-, shares, hshares, rfl⟩ := insertShare_some hins
      rcases (Table.mem_of_insert hshares).mp hr with hold | rfl
      · exact h r hold
      · exact counted_new ..
  | tryConsumeDownload shareId =>
      exact moves_tryConsumeDownload F shareId (fun _ _ => counted_update fun _ huse h => counted_consumed huse h) s
  | revoke shareId =>
      rcases revoke_cases env shareId s with ⟨hrun, -⟩ | ⟨e, hrun⟩
      · rw [StoreCall.after, hrun]
        exact counted_update fun r _ h => ⟨h.nonneg, h.within, h.bounded⟩
      · rw [StoreCall.after, hrun]
        exact fun h => h
  | purgeExpired graceSeconds =>
      exact moves_purgeExpired F graceSeconds (fun _ _ h r hr => h r (List.mem_filter.mp hr).1) s

theorem reached_counted {s : Store} (h : Reached B kek s) : ∀ r ∈ s.db.shares.rows, Counted r := by
  induction h with
  | start s vendors prints shares => simp [shares]
  | call env c reached ih => exact after_counted c _ ih
  | elsewhere t vendors prints shares reached ih =>
      rw [shares]
      exact ih

end

theorem millisToDt_nanos (ms : ℤ) : (millisToDt ms).nanos =
    if minLocal ≤ ms * 1000000 ∧ ms * 1000000 < endLocal then ms * 1000000 else 0 := by
  have hutc : ms * 1000000 + 0 * nanosPerSecond = ms * 1000000 := by omega
  rw [millisToDt, OffsetDateTime.fromUnixNanos, OffsetDateTime.mk?]
  simp only [hutc]
  split_ifs <;> rfl

theorem expiryAgrees_iff (expiresAt : ℤ) (now : NowUtc) :
    ExpiryAgrees expiresAt now ↔
      (dtToMillis now.time < expiresAt ↔ ¬ (millisToDt expiresAt).nanos < now.time.nanos) := by
  have hwhole : (expiresAt * 1000000).tdiv 1000000 = expiresAt := Int.mul_tdiv_cancel expiresAt (by decide)
  have hlower : now.time.nanos ≤ expiresAt * 1000000 → dtToMillis now.time ≤ expiresAt := fun h =>
    hwhole ▸ Int.tdiv_le_tdiv (by decide) h
  have hupper : expiresAt * 1000000 ≤ now.time.nanos → expiresAt ≤ dtToMillis now.time := fun h => by
    have hle : (expiresAt * 1000000).tdiv 1000000 ≤ dtToMillis now.time := Int.tdiv_le_tdiv (by decide) h
    rwa [hwhole] at hle
  rw [ExpiryAgrees, millisToDt_nanos]
  split_ifs with hin
  · by_cases hpast : expiresAt * 1000000 < now.time.nanos
    · have hexpired := hupper hpast.le
      constructor <;> intro <;> omega
    · have hbefore := hlower (Int.not_lt.mp hpast)
      constructor <;> intro <;> omega
  · have hyear := now.year
    have hbeyond : dtToMillis now.time < expiresAt ↔ endLocal ≤ expiresAt * 1000000 := by
      by_cases hend : endLocal ≤ expiresAt * 1000000
      · have hlast : dtToMillis now.time ≤ (endLocal - 1).tdiv 1000000 := Int.tdiv_le_tdiv (by decide) (by omega)
        have hmillis : (endLocal - 1).tdiv 1000000 = 253402300799999 := by decide
        simp only [endLocal] at hend
        exact iff_of_true (by omega) (by simpa only [endLocal] using hend)
      · have hearly : expiresAt * 1000000 ≤ now.time.nanos := by
          simp only [minLocal, endLocal, nanosPerSecond] at hin hend hyear
          omega
        have hexpired := hupper hearly
        exact iff_of_false (by omega) hend
    rw [hbeyond, Int.not_lt]
    exact Iff.comm

theorem statusLabel_active_iff (item : ShareListItem) (now : OffsetDateTime) :
    item.statusLabel now = "active".toList ↔ item.isActive now = true := by
  rw [ShareListItem.statusLabel, ShareListItem.isActive]
  cases item.isRevoked <;> cases item.isExpired now <;> cases item.isExhausted <;> decide

theorem toNat_ofInt {n : ℤ} (h : 0 ≤ n) (h' : n < 2 ^ 32) : ((UInt32.ofInt n).toNat : ℤ) = n := by
  rw [UInt32.ofInt, UInt32.toNat_ofNat']
  omega

theorem isActive_iff {row : ShareRow × VendorRow × PrintRow} {item : ShareListItem}
    (hitem : rowToListItem row = .ok item) (hcounted : Counted row.1) (now : OffsetDateTime) :
    item.isActive now = true ↔ row.1.revokedAt = none ∧ ¬ (millisToDt row.1.expiresAt).nanos < now.nanos ∧
      row.1.downloadCount < row.1.maxDownloads := by
  obtain ⟨id, -, h⟩ := of_except_bind hitem
  cases h
  have hcount := toNat_ofInt hcounted.nonneg (Int.lt_of_le_of_lt hcounted.within hcounted.bounded)
  have hmax := toNat_ofInt (Int.le_trans hcounted.nonneg hcounted.within) hcounted.bounded
  have hslots : UInt32.ofInt row.1.maxDownloads ≤ UInt32.ofInt row.1.downloadCount ↔
      ¬ row.1.downloadCount < row.1.maxDownloads := by
    rw [UInt32.le_iff_toNat_le]
    omega
  simp [ShareListItem.isActive, ShareListItem.isRevoked, ShareListItem.isExpired, ShareListItem.isExhausted, hslots,
    and_assoc]

theorem listed_share {env : Env} {limit : UInt32} {s t : Store} {items : List ShareListItem}
    (h : Shares.listRecent env limit s = (.ok items, t)) {item : ShareListItem} (hitem : item ∈ items) :
    ∃ row : ShareRow × VendorRow × PrintRow, row.1 ∈ s.db.shares.rows ∧ rowToListItem row = .ok item := by
  obtain ⟨row, hrow, hdecodes⟩ := row_of_queryMap h hitem
  exact ⟨row, (mem_shareJoin (mem_join_of_recent hrow)).1, hdecodes⟩

/-- The list is right about a share at every instant but the very one of its expiry, and at
that one about a share that is revoked or used up. -/
theorem status_agrees_iff {B : Bcrypt} {kek : Octets 32} {s : Store} (h : Reached B kek s) {env : Env} {limit : UInt32}
    {items : List ShareListItem} {t : Store} (hlist : Shares.listRecent env limit s = (.ok items, t))
    {item : ShareListItem} (hitem : item ∈ items) {r : ShareRow} (hr : r ∈ s.db.shares.rows)
    (hid : r.id = item.id.val) (now : NowUtc) :
    StatusAgrees s item now ↔
      r.revokedAt ≠ none ∨ r.maxDownloads ≤ r.downloadCount ∨ ExpiryAgrees r.expiresAt now := by
  obtain ⟨row, hrow, hdecodes⟩ := listed_share hlist hitem
  obtain rfl : r = row.1 := share_of_id hr hrow (hid.trans (rowToListItem_id hdecodes))
  have hshown := isActive_iff hdecodes (reached_counted h row.1 hr) now.time
  have hsplit : StatusAgrees s item now ↔ (item.isActive now.time = true ↔ Downloadable s now item.id) :=
    ⟨fun h => h.active, fun h => ⟨h, (statusLabel_active_iff item now.time).trans h⟩⟩
  rw [hsplit, hshown, downloadable_row hr hid, expiryAgrees_iff]
  by_cases hrevoked : row.1.revokedAt = none
  · by_cases hleft : row.1.downloadCount < row.1.maxDownloads
    · simp only [hrevoked, hleft, Int.not_le.mpr hleft, true_and, and_true, ne_eq, not_true_eq_false, false_or]
      exact Iff.comm
    · simp [hrevoked, hleft, Int.not_lt.mp hleft]
  · simp [hrevoked]

theorem sampleShared_listed : ∃ items item, ∃ row : ShareRow × VendorRow × PrintRow,
    Shares.listRecent (PrintStore.sampleHost 1) 5 sampleShared = (.ok items, sampleShared) ∧ item ∈ items ∧
      row.1 ∈ sampleShared.db.shares.rows ∧ rowToListItem row = .ok item := by
  obtain ⟨rows, items, -, hrun⟩ := sampleShared_reached.integral.lists (PrintStore.sampleHost 1) 5
  have hlength : (Shares.listRecent (PrintStore.sampleHost 1) 5 sampleShared).1.value.map List.length = some 1 := by
    decide +kernel
  rw [hrun] at hlength
  cases items with
  | nil => cases hlength
  | cons item items =>
      obtain ⟨row, hrow, hdecodes⟩ := listed_share hrun List.mem_cons_self
      exact ⟨_, item, row, hrun, List.mem_cons_self, hrow, hdecodes⟩

theorem status_agrees_iff_sample : ∃ item, ∃ r ∈ sampleShared.db.shares.rows,
    (StatusAgrees sampleShared item .unixEpoch ↔
      r.revokedAt ≠ none ∨ r.maxDownloads ≤ r.downloadCount ∨ ExpiryAgrees r.expiresAt .unixEpoch) := by
  obtain ⟨items, item, row, hlist, hitem, hrow, hdecodes⟩ := sampleShared_listed
  exact ⟨item, row.1, hrow,
    status_agrees_iff sampleShared_reached hlist hitem hrow (rowToListItem_id hdecodes).symm .unixEpoch⟩

/-- At the instant of its expiry a share is shown as active, and no download succeeds. -/
theorem shown_active_at_expiry : ∃ items, ∃ item ∈ items,
    Shares.listRecent (PrintStore.sampleHost 1) 5 sampleShared = (.ok items, sampleShared) ∧
      item.isActive NowUtc.unixEpoch.time = true ∧ item.statusLabel NowUtc.unixEpoch.time = "active".toList ∧
      ¬ Downloadable sampleShared .unixEpoch item.id := by
  obtain ⟨items, item, row, hlist, hitem, hrow, hdecodes⟩ := sampleShared_listed
  have hcolumns : ∀ r ∈ sampleShared.db.shares.rows, r.revokedAt = none ∧ r.expiresAt = 0 ∧
      r.downloadCount < r.maxDownloads := by decide +kernel
  obtain ⟨hunrevoked, hexpires, hleft⟩ := hcolumns row.1 hrow
  have hactive : item.isActive NowUtc.unixEpoch.time = true := by
    refine (isActive_iff hdecodes (reached_counted sampleShared_reached row.1 hrow) _).mpr ⟨hunrevoked, ?_, hleft⟩
    rw [hexpires]
    decide
  refine ⟨items, item, hitem, hlist, hactive, (statusLabel_active_iff item _).mpr hactive, fun h => ?_⟩
  obtain ⟨-, hlive, -⟩ := (downloadable_row hrow (rowToListItem_id hdecodes).symm .unixEpoch).mp h
  rw [hexpires] at hlive
  revert hlive
  decide

end FipsDropbox.Service
