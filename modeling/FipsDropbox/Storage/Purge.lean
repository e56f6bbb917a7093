import Mathlib.Data.UInt
import FipsDropbox.Storage.PrintRuns
import FipsDropbox.Storage.Shares

/-!
# Purging expired shares

`purge_expired` casts its grace period to `i64`. From 2^63 seconds on the period is negative,
so that the cutoff lies in the future, and a cutoff outside the calendar panics.
-/
namespace FipsDropbox.Storage
open Exec

/-- Milliseconds, as they are stored, of the instant so many seconds before `now`. -/
def millisBefore (now : NowUtc) (seconds : ℤ) : ℤ := (now.time.nanos - seconds * nanosPerSecond).tdiv 1000000

def hostAt (now : NowUtc) : Env := { PrintStore.sampleHost 0 with now := fun _ => now }

def Downloadable (s : Store) (now : NowUtc) (id : Uuid) : Prop :=
  ∃ env : Env, env.now .consumeDownload = now ∧ (Shares.tryConsumeDownload env id s).1 = .ok true

/-- The call does not panic, deletes what expired before the grace period and nothing else,
and keeps what can still be downloaded. -/
structure PurgesRight (env : Env) (graceSeconds : UInt64) (s : Store) : Prop where
  calm : (Shares.purgeExpired env graceSeconds s).1 ≠ .panic
  deletes : ∀ n t, Shares.purgeExpired env graceSeconds s = (.ok n, t) →
    t.db.shares.rows = s.db.shares.rows.filter fun r => millisBefore (env.now .purge) graceSeconds.toNat ≤ r.expiresAt
  fails : ∀ e t, Shares.purgeExpired env graceSeconds s = (.err e, t) → t = s
  spares : ∀ id, Downloadable s (env.now .purge) id → ∀ r ∈ s.db.shares.rows, r.id = id.val →
    r ∈ (Shares.purgeExpired env graceSeconds s).2.db.shares.rows

/-- The cutoff lies in the calendar. A period from 2^63 seconds on leads into the future,
and no share may expire between the true cutoff and that one. -/
def GraceFits (now : NowUtc) (graceSeconds : UInt64) (deleteFails : Bool) (shares : List ShareRow) : Prop :=
  (graceSeconds.toNat < 2 ^ 63 ∧ minLocal ≤ now.time.nanos - graceSeconds.toNat * nanosPerSecond) ∨
  (2 ^ 63 ≤ graceSeconds.toNat ∧ now.time.nanos + (2 ^ 64 - graceSeconds.toNat) * nanosPerSecond < endLocal ∧
    (deleteFails = true ∨ ∀ r ∈ shares, r.expiresAt < millisBefore now graceSeconds.toNat ∨
      millisBefore now (graceSeconds.toNat - 2 ^ 64) ≤ r.expiresAt))

theorem toInt64_cases (n : UInt64) :
    (n.toNat < 2 ^ 63 ∧ n.toInt64.toInt = n.toNat) ∨ (2 ^ 63 ≤ n.toNat ∧ n.toInt64.toInt = n.toNat - 2 ^ 64) := by
  have hcast : n.toInt64.toInt = if 2 * n.toNat < 2 ^ 64 then (n.toNat : ℤ) else (n.toNat : ℤ) - (2 ^ 64 : ℕ) :=
    BitVec.toInt_eq_toNat_cond n.toBitVec
  rw [hcast]
  split_ifs with h
  · exact .inl ⟨by omega, rfl⟩
  · exact .inr ⟨by omega, rfl⟩

theorem millisBefore_anti (now : NowUtc) {a b : ℤ} (h : a ≤ b) : millisBefore now b ≤ millisBefore now a := by
  apply Int.tdiv_le_tdiv (by decide)
  simp only [nanosPerSecond]
  omega

def InCalendar (now : NowUtc) (seconds : ℤ) : Prop :=
  minLocal ≤ now.time.nanos - seconds * nanosPerSecond ∧ now.time.nanos - seconds * nanosPerSecond < endLocal

instance (now : NowUtc) (seconds : ℤ) : Decidable (InCalendar now seconds) := inferInstanceAs (Decidable (_ ∧ _))

theorem cutoff_cases (now : NowUtc) (seconds : ℤ) :
    (InCalendar now seconds ∧ ∃ cutoff, now.time.add (-(seconds * nanosPerSecond)) = some cutoff ∧
      dtToMillis cutoff = millisBefore now seconds) ∨
    (¬ InCalendar now seconds ∧ now.time.add (-(seconds * nanosPerSecond)) = none) := by
  have hnanos : now.time.nanos + -(seconds * nanosPerSecond) + now.time.offset * nanosPerSecond =
      now.time.nanos - seconds * nanosPerSecond := by
    rw [now.utc, Int.zero_mul, Int.add_zero, ← Int.sub_eq_add_neg]
  by_cases h : InCalendar now seconds
  · refine .inl ⟨h, ⟨now.time.nanos + -(seconds * nanosPerSecond), now.time.offset, hnanos.symm ▸ h⟩,
      dif_pos (hnanos.symm ▸ h), rfl⟩
  · exact .inr ⟨h, dif_neg (hnanos.symm ▸ h)⟩

theorem purgeExpired_cases (env : Env) (graceSeconds : UInt64) (s : Store) :
    (¬ InCalendar (env.now .purge) graceSeconds.toInt64.toInt ∧
      Shares.purgeExpired env graceSeconds s = (.panic, s)) ∨
    (InCalendar (env.now .purge) graceSeconds.toInt64.toInt ∧ env.fails .deleteShares = true ∧
      ∃ e, Shares.purgeExpired env graceSeconds s = (.err e, s)) ∨
    (InCalendar (env.now .purge) graceSeconds.toInt64.toInt ∧ env.fails .deleteShares = false ∧
      ∃ n t, Shares.purgeExpired env graceSeconds s = (.ok n, t) ∧ t.db.shares.rows =
        s.db.shares.rows.filter fun r => millisBefore (env.now .purge) graceSeconds.toInt64.toInt ≤ r.expiresAt) := by
  rcases cutoff_cases (env.now .purge) graceSeconds.toInt64.toInt with ⟨hin, cutoff, hadd, hmillis⟩ | ⟨hout, hadd⟩
  · have hcutoff : (orPanic (some cutoff) : Exec Store StorageError OffsetDateTime) s = (.ok cutoff, s) := rfl
    rw [Shares.purgeExpired, hadd, bind_ok hcutoff, hmillis]
    rcases execute_cases env .deleteShares
        (Db.deleteSharesBefore (millisBefore (env.now .purge) graceSeconds.toInt64.toInt)) s with
      ⟨e, hrun, hf | hf⟩ | ⟨n, db, hq, hf, hrun⟩
    · exact .inr (.inl ⟨hin, hf, _, hrun⟩)
    · cases hf
    · cases hf
      refine .inr (.inr ⟨hin, hq, _, _, hrun, ?_⟩)
      dsimp only
      rw [Table.delete_rows]
      apply List.filter_congr
      intro r _
      rw [← decide_not]
      exact decide_eq_decide.mpr Int.not_lt
  · have hpanic : (orPanic none : Exec Store StorageError OffsetDateTime) s = (.panic, s) := rfl
    rw [Shares.purgeExpired, hadd, bind_panic hpanic]
    exact .inl ⟨hout, rfl⟩

section
variable {env : Env} {graceSeconds : UInt64} {s : Store}

theorem downloadable_iff {now : NowUtc} {id : Uuid} :
    Downloadable s now id ↔ ∃ r ∈ s.db.shares.rows, r.consumable id.val (dtToMillis now.time) = true := by
  constructor
  · rintro ⟨env, rfl, hok⟩
    rcases tryConsumeDownload_cases env id s with ⟨e, hrun, -⟩ | ⟨-, -, husable⟩ | ⟨-, hrun, -⟩
    · cases hok.symm.trans (congrArg Prod.fst hrun)
    · exact husable
    · cases hok.symm.trans (congrArg Prod.fst hrun)
  · rintro ⟨r, hr, husable⟩
    rcases tryConsumeDownload_cases (hostAt now) id s with ⟨-, -, hf⟩ | ⟨-, hrun, -⟩ | ⟨-, -, hno⟩
    · cases hf
    · exact ⟨hostAt now, rfl, congrArg Prod.fst hrun⟩
    · cases husable.symm.trans (hno r hr)

theorem downloadable_row {r : ShareRow} (hr : r ∈ s.db.shares.rows) {id : Uuid} (hid : r.id = id.val)
    (now : NowUtc) : Downloadable s now id ↔
      r.revokedAt = none ∧ dtToMillis now.time < r.expiresAt ∧ r.downloadCount < r.maxDownloads := by
  rw [downloadable_iff]
  constructor
  · rintro ⟨r', hr', husable⟩
    obtain ⟨hid', hrest⟩ := consumable_iff.mp husable
    obtain rfl := share_of_id hr hr' (hid.trans hid'.symm)
    exact hrest
  · exact fun h => ⟨r, hr, consumable_iff.mpr ⟨hid, h⟩⟩

theorem Downloadable.live {now : NowUtc} {id : Uuid} (h : Downloadable s now id) {r : ShareRow}
    (hr : r ∈ s.db.shares.rows) (hid : r.id = id.val) : dtToMillis now.time < r.expiresAt :=
  ((downloadable_row hr hid now).mp h).2.1

theorem purgesRight_of_err {e : StorageError} (hrun : Shares.purgeExpired env graceSeconds s = (.err e, s)) :
    PurgesRight env graceSeconds s := by
  refine ⟨by simp [hrun], ?_, ?_, ?_⟩
  · intro n t hok
    cases hrun.symm.trans hok
  · intro e' t herr
    cases hrun.symm.trans herr
    rfl
  · intro id _ r hr _
    rw [hrun]
    exact hr

/-- A purge that answers is right when it deleted what expired before the grace period: what
can still be downloaded has not expired at all. -/
theorem purgesRight_of_ok {n : ℕ} {t : Store} (hrun : Shares.purgeExpired env graceSeconds s = (.ok n, t))
    (hrows : t.db.shares.rows =
      s.db.shares.rows.filter fun r => millisBefore (env.now .purge) graceSeconds.toNat ≤ r.expiresAt) :
    PurgesRight env graceSeconds s := by
  refine ⟨by simp [hrun], ?_, ?_, ?_⟩
  · intro n' t' hok
    cases hrun.symm.trans hok
    exact hrows
  · intro e t' herr
    cases hrun.symm.trans herr
  · intro id hdownloadable r hr hid
    have hlive := hdownloadable.live hr hid
    have hpast : millisBefore (env.now .purge) graceSeconds.toNat ≤ dtToMillis (env.now .purge).time := by
      have hnow := millisBefore_anti (env.now .purge) (Int.natCast_nonneg graceSeconds.toNat)
      rwa [millisBefore, millisBefore, Int.zero_mul, Int.sub_zero] at hnow
    rw [hrun]
    dsimp only
    rw [hrows, List.mem_filter, decide_eq_true_eq]
    exact ⟨hr, by omega⟩

/-- Up to the delete the call is right when its cutoff is in the calendar, and from there on
when that cutoff and the true one part the shares alike. -/
theorem purgesRight_iff_agree : PurgesRight env graceSeconds s ↔
    InCalendar (env.now .purge) graceSeconds.toInt64.toInt ∧ (env.fails .deleteShares = true ∨
      ∀ r ∈ s.db.shares.rows, millisBefore (env.now .purge) graceSeconds.toInt64.toInt ≤ r.expiresAt ↔
        millisBefore (env.now .purge) graceSeconds.toNat ≤ r.expiresAt) := by
  rcases purgeExpired_cases env graceSeconds s with ⟨hout, hrun⟩ | ⟨hin, hf, e, hrun⟩ | ⟨hin, hq, n, t, hrun, hrows⟩
  · exact iff_of_false (fun h => h.calm (congrArg Prod.fst hrun)) fun h => hout h.1
  · exact iff_of_true (purgesRight_of_err hrun) ⟨hin, .inl hf⟩
  · rw [and_iff_right hin, or_iff_right (by simp [hq])]
    constructor
    · intro h
      have hsame := hrows.symm.trans (h.deletes n t hrun)
      intro r hr
      have hmem := congrArg (r ∈ ·) hsame
      simpa [hr] using hmem
    · intro hagree
      apply purgesRight_of_ok hrun
      rw [hrows]
      exact List.filter_congr fun r hr => decide_eq_decide.mpr (hagree r hr)

/-- The purge is right exactly when the grace period fits. -/
theorem purgesRight_iff : PurgesRight env graceSeconds s ↔
    GraceFits (env.now .purge) graceSeconds (env.fails .deleteShares) s.db.shares.rows := by
  have hyear := (env.now .purge).year
  rw [purgesRight_iff_agree]
  rcases toInt64_cases graceSeconds with ⟨hshort, hcast⟩ | ⟨hlong, hcast⟩
  · have hfits : GraceFits (env.now .purge) graceSeconds (env.fails .deleteShares) s.db.shares.rows ↔
        minLocal ≤ (env.now .purge).time.nanos - graceSeconds.toNat * nanosPerSecond := by
      rw [GraceFits, or_iff_left (fun h => absurd hshort (Nat.not_lt_of_le h.1)), and_iff_right hshort]
    rw [hcast, hfits, and_iff_left (.inr fun _ _ => Iff.rfl), InCalendar, and_iff_left]
    simp only [nanosPerSecond] at hyear ⊢
    omega
  · have hlt := UInt64.toNat_lt graceSeconds
    have hcalendar : InCalendar (env.now .purge) (graceSeconds.toNat - 2 ^ 64) ↔
        (env.now .purge).time.nanos + (2 ^ 64 - graceSeconds.toNat) * nanosPerSecond < endLocal := by
      simp only [InCalendar, minLocal, nanosPerSecond] at hyear ⊢
      omega
    have hparts : ∀ r : ShareRow, (millisBefore (env.now .purge) (graceSeconds.toNat - 2 ^ 64) ≤ r.expiresAt ↔
        millisBefore (env.now .purge) graceSeconds.toNat ≤ r.expiresAt) ↔
        r.expiresAt < millisBefore (env.now .purge) graceSeconds.toNat ∨
          millisBefore (env.now .purge) (graceSeconds.toNat - 2 ^ 64) ≤ r.expiresAt := by
      intro r
      have hmoved : millisBefore (env.now .purge) graceSeconds.toNat ≤
          millisBefore (env.now .purge) (graceSeconds.toNat - 2 ^ 64) := millisBefore_anti _ (by omega)
      omega
    have hfits : GraceFits (env.now .purge) graceSeconds (env.fails .deleteShares) s.db.shares.rows ↔
        (env.now .purge).time.nanos + (2 ^ 64 - graceSeconds.toNat) * nanosPerSecond < endLocal ∧
          (env.fails .deleteShares = true ∨ ∀ r ∈ s.db.shares.rows,
            r.expiresAt < millisBefore (env.now .purge) graceSeconds.toNat ∨
              millisBefore (env.now .purge) (graceSeconds.toNat - 2 ^ 64) ≤ r.expiresAt) := by
      rw [GraceFits, or_iff_right (fun h => absurd h.1 (Nat.not_lt_of_le hlong)), and_iff_right hlong]
    rw [hcast, hfits, hcalendar]
    simp only [hparts]

end

def lastingShare : ShareRow where
  id := List.replicate 16 1
  printId := List.replicate 16 2
  vendorId := List.replicate 16 3
  tokenHash := List.replicate 32 4
  accessCodeHash := List.replicate 32 5
  expiresAt := 500
  maxDownloads := 1
  downloadCount := 0
  senderNote := none
  createdBy := List.replicate 16 6
  createdAt := 0
  revokedAt := none

def lastingStore : Store := { Store.fresh with db := { Db.empty with shares := ⟨[lastingShare], by simp⟩ } }

/-- The longest period takes the share while it can still be downloaded; 2^63 seconds panic. -/
theorem longest_grace_purges_live :
    (∃ id : Uuid, id.val = lastingShare.id ∧ Downloadable lastingStore .unixEpoch id) ∧
    (Shares.purgeExpired (PrintStore.sampleHost 1) (2 ^ 64 - 1) lastingStore).1 = .ok 1 ∧
    (Shares.purgeExpired (PrintStore.sampleHost 1) (2 ^ 64 - 1) lastingStore).2.db.shares.rows = [] ∧
    (Shares.purgeExpired (PrintStore.sampleHost 1) (2 ^ 63) lastingStore).1 = .panic ∧
    ¬ PurgesRight (PrintStore.sampleHost 1) (2 ^ 64 - 1) lastingStore ∧
    ¬ PurgesRight (PrintStore.sampleHost 1) (2 ^ 63) lastingStore := by
  have hlive : Downloadable lastingStore .unixEpoch ⟨lastingShare.id, rfl⟩ := ⟨PrintStore.sampleHost 1, rfl, rfl⟩
  have hgone : (Shares.purgeExpired (PrintStore.sampleHost 1) (2 ^ 64 - 1) lastingStore).2.db.shares.rows = [] := by
    decide +kernel
  have hout : ¬ InCalendar ((PrintStore.sampleHost 1).now .purge) (2 ^ 63 : UInt64).toInt64.toInt := by
    decide +kernel
  have hpanic : (Shares.purgeExpired (PrintStore.sampleHost 1) (2 ^ 63) lastingStore).1 = .panic := by
    rcases purgeExpired_cases (PrintStore.sampleHost 1) (2 ^ 63) lastingStore with
      ⟨-, hrun⟩ | ⟨hin, -⟩ | ⟨hin, -⟩
    · exact congrArg Prod.fst hrun
    · exact absurd hin hout
    · exact absurd hin hout
  refine ⟨⟨⟨lastingShare.id, rfl⟩, rfl, hlive⟩, Outcome.value_eq_some.mp (by decide +kernel), hgone, hpanic,
    fun h => ?_, fun h => h.calm hpanic⟩
  have hkept := h.spares _ hlive lastingShare List.mem_cons_self rfl
  rw [hgone] at hkept
  exact List.not_mem_nil hkept

end FipsDropbox.Storage
