import FipsDropbox.Service.Delivery
import FipsDropbox.Service.Interleaving

/-!
# Download slots

Every entry of a history is justified by the entries before it, and every row and
every redemption under way is accounted for by the history. From that come the
limit on downloads and what a successful redemption proves about its bearer.
-/
namespace FipsDropbox.Service
open Utf8 Exec Crypto Storage

def Entry.consumes (id : Bytes) : Entry → Bool
  | .consumed _ id' _ => id' = id
  | _ => false

def Entry.redeems (id : Bytes) : Entry → Bool
  | .redeemed _ id' _ _ => id' = id
  | _ => false

def consumptions (id : Bytes) (history : List Entry) : ℕ := history.countP (Entry.consumes id)

def redemptions (id : Bytes) (history : List Entry) : ℕ := history.countP (Entry.redeems id)

section
variable (id id' : Bytes) (row : ShareRow) (req : RedeemRequest) (now : ℤ) (resp : RedeemResponse)
  (history : List Entry)

@[simp] theorem consumptions_created : consumptions id (.created row :: history) = consumptions id history := by
  simp [consumptions, Entry.consumes]

@[simp] theorem consumptions_consumed : consumptions id (.consumed req id' now :: history) =
    consumptions id history + if id' = id then 1 else 0 := by
  simp [consumptions, List.countP_cons, Entry.consumes]

@[simp] theorem consumptions_redeemed :
    consumptions id (.redeemed req id' now resp :: history) = consumptions id history := by
  simp [consumptions, Entry.consumes]

@[simp] theorem consumptions_revoked :
    consumptions id (.revoked id' now :: history) = consumptions id history := by
  simp [consumptions, Entry.consumes]

@[simp] theorem redemptions_created : redemptions id (.created row :: history) = redemptions id history := by
  simp [redemptions, Entry.redeems]

@[simp] theorem redemptions_consumed :
    redemptions id (.consumed req id' now :: history) = redemptions id history := by
  simp [redemptions, Entry.redeems]

@[simp] theorem redemptions_redeemed : redemptions id (.redeemed req id' now resp :: history) =
    redemptions id history + if id' = id then 1 else 0 := by
  simp [redemptions, List.countP_cons, Entry.redeems]

@[simp] theorem redemptions_revoked :
    redemptions id (.revoked id' now :: history) = redemptions id history := by
  simp [redemptions, Entry.redeems]

end

def Bears (app : App) (row : ShareRow) (req : RedeemRequest) : Prop :=
  row.tokenHash = (secretHash app req.token).val ∧ row.accessCodeHash = (secretHash app req.accessCode).val

def Entry.JustifiedBy (app : App) (past : List Entry) : Entry → Prop
  | .created row => 0 ≤ row.maxDownloads ∧ ∀ row', .created row' ∈ past → row'.id ≠ row.id
  | .consumed req id now => ∃ row, .created row ∈ past ∧ row.id = id ∧ Bears app row req ∧
      now < row.expiresAt ∧ (∀ t, .revoked id t ∉ past) ∧ (consumptions id past : ℤ) < row.maxDownloads
  | .redeemed req id now _ => .consumed req id now ∈ past
  | .revoked id _ => (∃ row, .created row ∈ past ∧ row.id = id) ∧ ∀ t, .revoked id t ∉ past

def Justified (app : App) : List Entry → Prop
  | [] => True
  | e :: past => e.JustifiedBy app past ∧ Justified app past

namespace Justified
variable {app : App} {history : List Entry}

/-- Each entry has a part of the history behind it that justifies it. -/
theorem split (h : Justified app history) {e : Entry} (he : e ∈ history) :
    ∃ newer older, history = newer ++ e :: older ∧ e.JustifiedBy app older ∧ Justified app older := by
  obtain ⟨newer, older, rfl⟩ := List.append_of_mem he
  refine ⟨newer, older, rfl, ?_⟩
  induction newer with
  | nil => exact h
  | cons e' newer ih => exact ih h.2 (List.mem_append_right _ List.mem_cons_self)

theorem created_unique (h : Justified app history) {row row' : ShareRow} (hr : .created row ∈ history)
    (hr' : .created row' ∈ history) (hid : row.id = row'.id) : row = row' := by
  induction history with
  | nil => cases hr
  | cons e past ih =>
      obtain ⟨he, hpast⟩ := h
      rcases List.mem_cons.mp hr with rfl | hold
      · rcases List.mem_cons.mp hr' with heq | hold'
        · exact (Entry.created.inj heq).symm
        · exact absurd hid.symm (he.2 row' hold')
      · rcases List.mem_cons.mp hr' with rfl | hold'
        · exact absurd hid (he.2 row hold)
        · exact ih hpast hold hold'

theorem untouched (h : Justified app history) {id : Bytes} (hno : ∀ row, .created row ∈ history → row.id ≠ id) :
    consumptions id history = 0 ∧ ∀ t, .revoked id t ∉ history := by
  constructor
  · apply List.countP_eq_zero.mpr
    intro e he hcons
    cases e with
    | consumed req id' now =>
        obtain rfl : id' = id := by simpa [Entry.consumes] using hcons
        obtain ⟨newer, older, rfl, ⟨row, hrow, hid, -⟩, -⟩ := h.split he
        exact hno row (by simp [hrow]) hid
    | created | redeemed | revoked => simp [Entry.consumes] at hcons
  · intro t ht
    obtain ⟨newer, older, rfl, ⟨⟨row, hrow, hid⟩, -⟩, -⟩ := h.split ht
    exact hno row (by simp [hrow]) hid

/-- The limit of a share holds of its history. -/
theorem consumptions_le (h : Justified app history) {row : ShareRow} (hrow : .created row ∈ history) :
    (consumptions row.id history : ℤ) ≤ row.maxDownloads := by
  induction history with
  | nil => cases hrow
  | cons e past ih =>
      obtain ⟨he, hpast⟩ := h
      rcases List.mem_cons.mp hrow with rfl | hold
      · rw [consumptions_created, (hpast.untouched he.2).1]
        exact he.1
      · have hle := ih hpast hold
        cases e with
        | consumed req id now =>
            by_cases hid : id = row.id
            · obtain ⟨row', hrow', hid', -, -, -, hlt⟩ := he
              obtain rfl := hpast.created_unique hrow' hold (hid'.trans hid)
              rw [hid] at hlt
              rw [consumptions_consumed, if_pos hid]
              omega
            · simpa [hid] using hle
        | created | redeemed | revoked => simpa using hle

end Justified

/-- What a row keeps for life. -/
structure SameShare (row r : ShareRow) : Prop where
  id : r.id = row.id
  tokenHash : r.tokenHash = row.tokenHash
  accessCodeHash : r.accessCodeHash = row.accessCodeHash
  expiresAt : r.expiresAt = row.expiresAt
  maxDownloads : r.maxDownloads = row.maxDownloads

/-- The row is one that was created, with what the history did to it. -/
structure Accounted (history : List Entry) (r : ShareRow) : Prop where
  origin : ∃ row, .created row ∈ history ∧ SameShare row r
  count : r.downloadCount = consumptions r.id history
  revoked : ∀ t, r.revokedAt = some t ↔ .revoked r.id t ∈ history

/-- The redemption is under way for a share that was created, and has a slot if it
says so. -/
structure Airworthy (app : App) (history : List Entry) (f : Flight) : Prop where
  origin : ∃ row, .created row ∈ history ∧ row.id = f.share.id.val ∧
    row.tokenHash = (secretHash app f.req.token).val ∧ row.accessCodeHash = f.share.accessCodeHash.val
  code : f.phase ≠ .found → secretHash app f.req.accessCode = f.share.accessCodeHash
  slot : ∀ now, f.phase = .granted now → .consumed f.req f.share.id.val now ∈ history

/-- The redemption has a slot of the share and no file yet. -/
def Flight.holds (id : Bytes) (f : Flight) : Bool :=
  match f.phase with
  | .granted _ => f.share.id.val = id
  | _ => false

structure Inv (app : App) (s : System) : Prop where
  justified : Justified app s.history
  rows : ∀ r ∈ s.world.store.db.shares.rows, Accounted s.history r
  flights : ∀ f ∈ s.flights, Airworthy app s.history f
  owed : ∀ id, redemptions id s.history + s.flights.countP (Flight.holds id) ≤ consumptions id s.history

section
variable {app : App} {env : RequestEnv}

theorem Accounted.cons {history : List Entry} {r : ShareRow} (h : Accounted history r) {e : Entry}
    (hc : e.consumes r.id = false) (hr : ∀ t, e ≠ .revoked r.id t) : Accounted (e :: history) r where
  origin := by
    obtain ⟨row, hrow, hsame⟩ := h.origin
    exact ⟨row, List.mem_cons_of_mem e hrow, hsame⟩
  count := by
    rw [h.count, consumptions, consumptions, List.countP_cons_of_neg]
    simp [hc]
  revoked t := by
    rw [h.revoked t, List.mem_cons]
    constructor
    · exact .inr
    · rintro (heq | hmem)
      · exact absurd heq.symm (hr t)
      · exact hmem

theorem Airworthy.cons {history : List Entry} {f : Flight} (h : Airworthy app history f) (e : Entry) :
    Airworthy app (e :: history) f where
  origin := by
    obtain ⟨row, hrow, hrest⟩ := h.origin
    exact ⟨row, List.mem_cons_of_mem e hrow, hrest⟩
  code := h.code
  slot now hp := List.mem_cons_of_mem e (h.slot now hp)

theorem Inv.fewer {s : System} (h : Inv app s) {w : World}
    (hw : ∀ r ∈ w.store.db.shares.rows, r ∈ s.world.store.db.shares.rows) : Inv app { s with world := w } :=
  ⟨h.justified, fun r hr => h.rows r (hw r hr), h.flights, h.owed⟩

theorem Inv.create {s : System} (h : Inv app s) (a : NewShare)
    (fresh : ∀ row, .created row ∈ s.history → row.id ≠ (env.newId .share).val) :
    Inv app (s.create env app a) := by
  by_cases hok : ∃ made t, a.create env app s.world.store = (.ok made, t)
  · obtain ⟨made, t, hrun⟩ := hok
    obtain ⟨hid, shares, hins, rfl⟩ := create_ok hrun
    obtain ⟨hzero, hnone⟩ := h.justified.untouched fresh
    simp only [System.create, onStore_ok hrun, Outcome.value, Option.map_some, Option.toList_some,
      List.singleton_append]
    refine ⟨⟨⟨Int.natCast_nonneg _, fresh⟩, h.justified⟩, ?_, ?_, ?_⟩
    · intro r hr
      change r ∈ shares.rows at hr
      rcases (Table.mem_of_insert hins).mp hr with hold | rfl
      · exact (h.rows r hold).cons rfl (by simp)
      · refine ⟨⟨_, List.mem_cons_self, ⟨rfl, rfl, rfl, rfl, rfl⟩⟩, ?_, ?_⟩
        · rw [consumptions_created]
          change (0 : ℤ) = (consumptions (env.newId .share).val s.history : ℕ)
          rw [hzero, Nat.cast_zero]
        · intro t
          simpa [newShareRow] using hnone t
    · intro f hf
      exact (h.flights f hf).cons _
    · intro id
      simpa using h.owed id
  · have hno : ∀ made, (a.create env app s.world.store).1 ≠ .ok made :=
      fun made hmade => hok ⟨made, _, Prod.ext hmade rfl⟩
    have hstay : (onStore (a.create env app) s.world).2.store = s.world.store :=
      (onStore_store _ _).trans (atomic_create _ _ _ _ _ _ _ hno)
    simp only [System.create, onStore_not_ok hno, Option.map_none, Option.toList_none, List.nil_append]
    exact h.fewer fun r hr => by rwa [hstay] at hr

theorem Inv.lookup {s : System} (h : Inv app s) (req : RedeemRequest) : Inv app (s.lookup env app req) := by
  by_cases hok : ∃ share w, redeemLookup env app req s.world = (.ok share, w)
  · obtain ⟨share, w, hrun⟩ := hok
    obtain ⟨-, ⟨r, hr, htoken, hdec⟩, rfl⟩ := redeemLookup_ok_iff.mp hrun
    obtain ⟨hid, -, -, -, hcode⟩ := rowToShare_ok hdec
    obtain ⟨row, hrow, hsame⟩ := (h.rows r hr).origin
    simp only [System.lookup, hrun, Outcome.value, Option.map_some, Option.toList_some, List.singleton_append]
    refine ⟨h.justified, h.rows, ?_, ?_⟩
    · intro f hf
      rcases List.mem_cons.mp hf with rfl | hold
      · refine ⟨⟨row, hrow, ?_, ?_, ?_⟩, fun hne => absurd rfl hne, by simp⟩
        · rw [hid, hsame.id]
        · rw [← hsame.tokenHash, htoken]
        · rw [hcode, hsame.accessCodeHash]
      · exact h.flights f hold
    · intro id
      simpa [Flight.holds] using h.owed id
  · have hnone : (redeemLookup env app req s.world).1.value = none :=
      Outcome.value_eq_none fun share hs => hok ⟨share, _, Prod.ext hs rfl⟩
    have hstay : (redeemLookup env app req s.world).2.store = s.world.store :=
      moves_redeemLookup stays_frame req s.world
    simp only [System.lookup, hnone, Option.map_none, Option.toList_none, List.nil_append]
    exact h.fewer fun r hr => by rwa [hstay] at hr

theorem Inv.revoke {s : System} (h : Inv app s) (id : Uuid) : Inv app (s.revoke env id) := by
  rcases revoke_cases env.toEnv id s.world.store with ⟨hrun, r, hr, hid, hnone⟩ | ⟨e, hrun⟩
  · have hacc := h.rows r hr
    obtain ⟨row, hrow, hsame⟩ := hacc.origin
    have hfirst : ∀ t, .revoked id.val t ∉ s.history := by
      intro t ht
      rw [← hid] at ht
      rw [(hacc.revoked t).mpr ht] at hnone
      cases hnone
    simp only [System.revoke, onStore_ok hrun, Outcome.value, Option.map_some, Option.toList_some,
      List.singleton_append]
    refine ⟨⟨⟨⟨row, hrow, hsame.id.symm.trans hid⟩, hfirst⟩, h.justified⟩, ?_, ?_, ?_⟩
    · intro r' hr'
      obtain ⟨r0, hr0, rfl⟩ := List.mem_map.mp hr'
      by_cases hid0 : r0.id = id.val
      · -- the row itself
        obtain rfl := share_of_id hr0 hr (hid0.trans hid.symm)
        rw [if_pos (by simp [hid, hnone])]
        refine ⟨⟨row, List.mem_cons_of_mem _ hrow, ⟨hsame.id, hsame.tokenHash, hsame.accessCodeHash,
          hsame.expiresAt, hsame.maxDownloads⟩⟩, ?_, ?_⟩
        · rw [consumptions_revoked]
          exact hacc.count
        · intro t
          simp [ShareRow.revoked, hid, hfirst t, eq_comm]
      · rw [if_neg (by simp [hid0])]
        refine (h.rows r0 hr0).cons rfl ?_
        intro t heq
        exact hid0 (Entry.revoked.inj heq).1.symm
    · intro f hf
      exact (h.flights f hf).cons _
    · intro id'
      simpa using h.owed id'
  · simp only [System.revoke, onStore_err hrun, Outcome.value, Option.map_none, Option.toList_none,
      List.nil_append]
    exact h.fewer fun r hr => hr

/-! Redemptions under way. -/

section
variable {s : System} {f : Flight} {others : List Flight}

theorem Inv.drop (h : Inv app s) (hperm : s.flights.Perm (f :: others)) {w : World}
    (hw : w.store = s.world.store) : Inv app ⟨w, others, s.history⟩ := by
  refine ⟨h.justified, ?_, ?_, ?_⟩
  · intro r hr
    change r ∈ w.store.db.shares.rows at hr
    rw [hw] at hr
    exact h.rows r hr
  · intro f' hf'
    exact h.flights f' (hperm.mem_iff.mpr (List.mem_cons_of_mem f hf'))
  · intro id
    have howed := h.owed id
    rw [hperm.countP_eq, List.countP_cons] at howed
    change redemptions id s.history + others.countP (Flight.holds id) ≤ consumptions id s.history
    omega

theorem Inv.advanceFound (h : Inv app s) {req : RedeemRequest} {share : Share}
    (hperm : s.flights.Perm (⟨req, share, .found⟩ :: others)) :
    Inv app (s.advance env app ⟨req, share, .found⟩ others) := by
  by_cases hok : ∃ u w, redeemCode env app req share s.world = (.ok u, w)
  · obtain ⟨u, w, hrun⟩ := hok
    obtain ⟨-, hcode, rfl⟩ := redeemCode_ok_iff.mp hrun
    have hair := h.flights _ (hperm.mem_iff.mpr List.mem_cons_self)
    simp only [System.advance, advance_found, conclude_ok hrun, Option.toList_some, List.singleton_append,
      List.nil_append]
    have hdrop := h.drop hperm rfl
    refine ⟨h.justified, h.rows, ?_, ?_⟩
    · intro f' hf'
      rcases List.mem_cons.mp hf' with rfl | hold
      · exact ⟨hair.origin, fun _ => hcode, by simp⟩
      · exact hdrop.flights f' hold
    · intro id
      simpa [Flight.holds] using hdrop.owed id
  · simp only [System.advance, advance_found, conclude_not_ok fun u w h => hok ⟨u, w, h⟩, Option.toList_none,
      List.nil_append]
    exact h.drop hperm (moves_redeemCode stays_frame req share s.world)

/-- The consuming statement: its guard is what justifies the entry. -/
theorem Inv.advanceChecked (h : Inv app s) {req : RedeemRequest} {share : Share}
    (hperm : s.flights.Perm (⟨req, share, .checked⟩ :: others)) :
    Inv app (s.advance env app ⟨req, share, .checked⟩ others) := by
  by_cases hok : ∃ u w, redeemConsume env app req share s.world = (.ok u, w)
  · obtain ⟨u, w, hrun⟩ := hok
    obtain ⟨-, r, hr, hid, husable, rfl⟩ := redeemConsume_ok_iff.mp hrun
    obtain ⟨-, hunrevoked, htime, hlimit⟩ := consumable_iff.mp husable
    have hair := h.flights _ (hperm.mem_iff.mpr List.mem_cons_self)
    have hacc := h.rows r hr
    have hdrop := h.drop hperm rfl
    obtain ⟨row, hrow, hsame⟩ := hacc.origin
    have hbears : Bears app row req := by
      obtain ⟨row', hrow', hid', htoken, hcode⟩ := hair.origin
      obtain rfl := h.justified.created_unique hrow' hrow (hid'.trans (hid.symm.trans hsame.id))
      exact ⟨htoken, hcode.trans (congrArg Subtype.val (hair.code (by simp))).symm⟩
    have hfirst : ∀ t, .revoked share.id.val t ∉ s.history := by
      intro t ht
      rw [← hid] at ht
      rw [(hacc.revoked t).mpr ht] at hunrevoked
      cases hunrevoked
    simp only [System.advance, advance_checked, conclude_ok hrun, Option.toList_some, List.singleton_append]
    refine ⟨⟨⟨row, hrow, hsame.id.symm.trans hid, hbears, ?_, hfirst, ?_⟩, h.justified⟩, ?_, ?_, ?_⟩
    · rw [← hsame.expiresAt]
      exact htime
    · rw [← hsame.maxDownloads, ← hid, ← hacc.count]
      exact hlimit
    · intro r' hr'
      obtain ⟨r0, hr0, rfl⟩ := List.mem_map.mp hr'
      by_cases hid0 : r0.id = r.id
      · obtain rfl := share_of_id hr0 hr hid0
        rw [if_pos husable]
        refine ⟨⟨row, List.mem_cons_of_mem _ hrow, ⟨hsame.id, hsame.tokenHash, hsame.accessCodeHash,
          hsame.expiresAt, hsame.maxDownloads⟩⟩, ?_, ?_⟩
        · have hself : share.id.val = r0.consumed.id := hid.symm
          rw [consumptions_consumed, if_pos hself, Nat.cast_add, Nat.cast_one]
          exact congrArg (· + 1) hacc.count
        · intro t
          simpa [ShareRow.consumed] using hacc.revoked t
      · rw [if_neg fun hcons => hid0 (consumable_iff.mp hcons).1]
        refine (h.rows r0 hr0).cons ?_ ?_
        · simpa [Entry.consumes] using fun he => hid0 (he.symm.trans hid.symm)
        · intro t heq
          cases heq
    · intro f' hf'
      rcases List.mem_cons.mp hf' with rfl | hold
      · have hgranted := hair.cons (.consumed req share.id.val (dtToMillis (env.now .consumeDownload).time))
        refine ⟨hgranted.origin, fun _ => hair.code (by simp), ?_⟩
        rintro now ⟨⟩
        exact List.mem_cons_self
      · exact (hdrop.flights f' hold).cons _
    · intro id
      have howed : redemptions id s.history + others.countP (Flight.holds id) ≤ consumptions id s.history :=
        hdrop.owed id
      simp only [List.countP_cons, Flight.holds, decide_eq_true_eq, redemptions_consumed, consumptions_consumed]
      omega
  · have hno : ∀ u w, redeemConsume env app req share s.world ≠ (.ok u, w) := fun u w h => hok ⟨u, w, h⟩
    simp only [System.advance, advance_checked, conclude_not_ok hno, Option.toList_none, List.nil_append]
    exact h.drop hperm (redeemConsume_stays hno)

theorem Inv.advanceGranted (h : Inv app s) {req : RedeemRequest} {share : Share} {now : ℤ}
    (hperm : s.flights.Perm (⟨req, share, .granted now⟩ :: others)) :
    Inv app (s.advance env app ⟨req, share, .granted now⟩ others) := by
  have hstay : (redeemDeliver env app req share s.world).2.store = s.world.store :=
    moves_redeemDeliver stays_frame req share s.world
  by_cases hok : ∃ resp w, redeemDeliver env app req share s.world = (.ok resp, w)
  · obtain ⟨resp, w, hrun⟩ := hok
    rw [hrun] at hstay
    have hair := h.flights _ (hperm.mem_iff.mpr List.mem_cons_self)
    have hdrop := h.drop hperm hstay
    simp only [System.advance, advance_granted, conclude_ok hrun, Option.toList_none, List.singleton_append,
      List.nil_append]
    refine ⟨⟨hair.slot now rfl, h.justified⟩, ?_, ?_, ?_⟩
    · intro r hr
      exact (hdrop.rows r hr).cons rfl (by simp)
    · intro f' hf'
      exact (hdrop.flights f' hf').cons _
    · intro id
      have howed := h.owed id
      rw [hperm.countP_eq, List.countP_cons] at howed
      simp only [Flight.holds, decide_eq_true_eq] at howed
      simp only [redemptions_redeemed, consumptions_redeemed]
      omega
  · simp only [System.advance, advance_granted, conclude_not_ok fun u w h => hok ⟨u, w, h⟩, Option.toList_none,
      List.nil_append]
    exact h.drop hperm hstay

end

theorem Inv.step {s t : System} (h : Inv app s) (hstep : Step app s t) : Inv app t := by
  cases hstep with
  | create env a fresh => exact h.create a fresh
  | lookup env req => exact h.lookup req
  | advance env f others hperm =>
      obtain ⟨req, share, phase⟩ := f
      cases phase with
      | found => exact h.advanceFound hperm
      | checked => exact h.advanceChecked hperm
      | granted now => exact h.advanceGranted hperm
  | revoke env id => exact h.revoke id
  | purge env graceSeconds =>
      have F : Frame fun s t : Store => ∀ r ∈ t.db.shares.rows, r ∈ s.db.shares.rows :=
        ⟨fun _ _ hr => hr, fun h h' r hr => h r (h' r hr)⟩
      refine h.fewer (moves_onStore (moves_purgeExpired F graceSeconds ?_) s.world)
      intro s cutoff r hr
      exact (List.mem_filter.mp hr).1
  | other w hw => exact h.fewer fun r hr => by rwa [hw] at hr

theorem Inv.reaches {s t : System} (h : Inv app s) (hrun : Reaches app s t) : Inv app t := by
  induction hrun with
  | refl => exact h
  | tail _ hstep ih => exact ih.step hstep

theorem inv_start {w : World} (hw : w.store.db.shares = .empty) : Inv app ⟨w, [], []⟩ := by
  refine ⟨trivial, ?_, ?_, ?_⟩
  · intro r hr
    change r ∈ w.store.db.shares.rows at hr
    rw [hw] at hr
    cases hr
  · intro f hf
    cases hf
  · intro id
    simp [redemptions, consumptions]

theorem Reaches.history {s t : System} (h : Reaches app s t) : ∃ newer, t.history = newer ++ s.history := by
  induction h with
  | refl => exact ⟨[], rfl⟩
  | tail _ hstep ih =>
      obtain ⟨newer, ih⟩ := ih
      cases hstep with
      | lookup | purge | other => exact ⟨newer, ih⟩
      | create env a fresh =>
          exact ⟨_ ++ newer, by rw [System.create, ih, List.append_assoc]⟩
      | advance env f others hperm =>
          exact ⟨_ ++ newer, by rw [System.advance, ih, List.append_assoc]⟩
      | revoke env id =>
          exact ⟨_ ++ newer, by rw [System.revoke, ih, List.append_assoc]⟩

/-- The counter of a share and the calls that returned true are one number, and it
stays within the limit. -/
theorem Inv.counted {s : System} (h : Inv app s) {r : ShareRow} (hr : r ∈ s.world.store.db.shares.rows) :
    r.downloadCount = consumptions r.id s.history ∧ r.downloadCount ≤ r.maxDownloads := by
  have hacc := h.rows r hr
  obtain ⟨row, hrow, hsame⟩ := hacc.origin
  have hle := h.justified.consumptions_le hrow
  rw [← hsame.id, ← hsame.maxDownloads, ← hacc.count] at hle
  exact ⟨hacc.count, hle⟩

/-- Counters do not go down, and a revocation stays what it was. -/
theorem Inv.lasting {s t : System} (h : Inv app s) (hrun : Reaches app s t) {r r' : ShareRow}
    (hr : r ∈ s.world.store.db.shares.rows) (hr' : r' ∈ t.world.store.db.shares.rows) (hid : r'.id = r.id) :
    r.downloadCount ≤ r'.downloadCount ∧ ∀ at_, r.revokedAt = some at_ → r'.revokedAt = some at_ := by
  have ht := h.reaches hrun
  obtain ⟨newer, hgrow⟩ := hrun.history
  constructor
  · rw [(h.counted hr).1, (ht.counted hr').1, hid, hgrow, consumptions, consumptions, List.countP_append]
    omega
  · intro at_ hat
    rw [(ht.rows r' hr').revoked, hid, hgrow]
    exact List.mem_append_right _ (((h.rows r hr).revoked at_).mp hat)

/-- What a redemption that handed out its file proves: it bore the secrets of the share,
and its slot was consumed before the share expired and before it was revoked. -/
theorem Inv.redeemed {s : System} (h : Inv app s) {req : RedeemRequest} {id : Bytes} {now : ℤ}
    {resp : RedeemResponse} (hr : .redeemed req id now resp ∈ s.history) :
    ∃ row, .created row ∈ s.history ∧ row.id = id ∧ Bears app row req ∧ now < row.expiresAt ∧
      ∃ newer older, s.history = newer ++ .consumed req id now :: older ∧ ∀ t, .revoked id t ∉ older := by
  obtain ⟨newest, past, hsplit, hcons, -⟩ := h.justified.split hr
  have hmem : .consumed req id now ∈ s.history := by
    rw [hsplit]
    exact List.mem_append_right _ (List.mem_cons_of_mem _ hcons)
  obtain ⟨newer, older, hsplit', ⟨row, hrow, hid, hbears, htime, hunrevoked, -⟩, -⟩ := h.justified.split hmem
  refine ⟨row, ?_, hid, hbears, htime, newer, older, hsplit', hunrevoked⟩
  rw [hsplit']
  exact List.mem_append_right _ (List.mem_cons_of_mem _ hrow)

end

/-- What holds of the share store in a state `s` of a run, and from then on. -/
structure KeepsLimits (app : App) (s : System) : Prop where
  bounded : ∀ r ∈ s.world.store.db.shares.rows, r.downloadCount ≤ r.maxDownloads
  counted : ∀ r ∈ s.world.store.db.shares.rows, r.downloadCount = consumptions r.id s.history
  lasting : ∀ t, Reaches app s t → ∀ r ∈ s.world.store.db.shares.rows, ∀ r' ∈ t.world.store.db.shares.rows,
    r'.id = r.id → r.downloadCount ≤ r'.downloadCount ∧ ∀ at_, r.revokedAt = some at_ → r'.revokedAt = some at_
  origin : ∀ r ∈ s.world.store.db.shares.rows, ∃ row, .created row ∈ s.history ∧ SameShare row r
  redeemed : ∀ req id now resp, .redeemed req id now resp ∈ s.history →
    ∃ row, .created row ∈ s.history ∧ row.id = id ∧ Bears app row req ∧ now < row.expiresAt ∧
      ∃ newer older, s.history = newer ++ .consumed req id now :: older ∧ ∀ t, .revoked id t ∉ older
  limit : ∀ row, .created row ∈ s.history → (redemptions row.id s.history : ℤ) ≤ row.maxDownloads
  recorded : ∀ env req resp, (redeemShare env app req s.world).1 = .ok resp →
    ∃ new id, Reaches app s ⟨(redeemShare env app req s.world).2, s.flights, new ++ s.history⟩ ∧
      .redeemed req id (dtToMillis (env.now .consumeDownload).time) resp ∈ new

/-- From a store without shares, every run of creations, redemptions, revocations,
purges and anything else keeps the limits. -/
theorem reaches_keepsLimits {app : App} {w : World} (hw : w.store.db.shares = .empty) {s : System}
    (hrun : Reaches app ⟨w, [], []⟩ s) : KeepsLimits app s := by
  have h := (inv_start hw).reaches hrun
  constructor
  · exact fun r hr => (h.counted hr).2
  · exact fun r hr => (h.counted hr).1
  · exact fun t hst r hr r' hr' hid => h.lasting hst hr hr' hid
  · exact fun r hr => (h.rows r hr).origin
  · exact fun req id now resp hr => h.redeemed hr
  · intro row hrow
    have howed := h.owed row.id
    have hle := h.justified.consumptions_le hrow
    omega
  · intro env req resp hok
    obtain ⟨new, hreach, hresp⟩ := redeemShare_runsTo env app req s
    obtain ⟨id, hmem⟩ := hresp resp hok
    exact ⟨new, id, hreach, hmem⟩

theorem reaches_keepsLimits_sample :
    ∃ history,
      KeepsLimits sampleApp ⟨(redeemShare quietEnv sampleApp sampleBearer sharedWorld).2, [], history⟩ := by
  have hlands : Lands sampleApp [] [] sampleWorld (createShare quietEnv sampleApp sampleUpload sampleWorld).2 :=
    createShare_lands (fun row hrow => absurd hrow List.not_mem_nil) sampleWorld
  rw [createShare_sample] at hlands
  obtain ⟨new, hcreate⟩ := hlands
  obtain ⟨new', hredeem, -⟩ := redeemShare_runsTo quietEnv sampleApp sampleBearer ⟨sharedWorld, [], new ++ []⟩
  have hempty : sampleWorld.store.db.shares = .empty := rfl
  exact ⟨_, reaches_keepsLimits hempty (hcreate.trans hredeem)⟩

end FipsDropbox.Service
