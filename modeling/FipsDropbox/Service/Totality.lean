import FipsDropbox.Service.Panics
import FipsDropbox.Storage.Integrity

/-!
# What referential integrity gives the service

In a store where every share has its print, a redemption that has taken a slot finds the
print: its `NotFound` is the answer to an unknown token only.
-/
namespace FipsDropbox.Service
open Utf8 Exec Crypto Storage

section
variable {env : RequestEnv} {app : App} {req : RedeemRequest} {share : Share} {w w' : World}

/-- Any error but `NotFound`. -/
abbrev Found {α : Type} (m : Exec World ServiceError α) : Prop :=
  Safe (fun _ => True) (· ≠ ServiceError.notFound) m

theorem found_onStore {α : Type} (m : Exec Store StorageError α) : Found (onStore m) :=
  safe_zoom m (fun _ _ h => h) fun _ => by simp

theorem found_writeEvent (name : String) (outcome : Audit.Outcome) (userId : Option Uuid) (ip ua : Text)
    (target meta_ : List (Text × Json)) :
    Found (writeEvent env app name outcome userId ip ua target meta_) :=
  safe_append (fun _ _ _ h => h) (fun _ => by simp) _ _ _ _ _ _ _

theorem redeemDeliver_found (h : Integral w.store.db)
    (hrow : ∃ row ∈ w.store.db.prints.rows, row.id = share.printId.val) :
    redeemDeliver env app req share w ≠ (.err .notFound, w') := by
  intro hrun
  obtain ⟨print, -, hfind⟩ := h.find hrow env.toEnv .selectPrint
  cases hf : env.fails .selectPrint with
  | true =>
      rw [hf, if_pos rfl] at hfind
      rw [redeemDeliver, bind_err (onStore_err hfind)] at hrun
      cases hrun
  | false =>
      rw [hf, if_neg Bool.false_ne_true] at hfind
      rw [redeemDeliver, bind_ok (onStore_ok hfind)] at hrun
      have hrest : Found (onStore (PrintStore.readBlob env.toEnv app.bcrypt app.kek share.printId) >>=
          fun content => withAudit (writeEvent env app "share.redeem" .success none req.ip req.userAgent
            [uuid "share_id" share.id, uuid "print_id" print.id, uuid "vendor_id" share.vendorId]
            [text "filename" print.filename, number "size_bytes" print.sizeBytes] >>= fun _ =>
              pure ({ filename := print.filename, content, sha256 := print.sha256Plaintext } : RedeemResponse))) :=
        safe_bind (found_onStore _) fun _ => safe_locked_any (by simp)
          (safe_bind (found_writeEvent _ _ _ _ _ _ _) fun _ => safe_pure _)
      exact (hrest w trivial).1 .notFound (congrArg Prod.fst hrun) rfl

theorem Takes.found {r : ShareRow} (ht : Takes env app w.store req r share) (h : Integral w.store.db) :
    redeemDeliver env app req share (w.afterConsume env r) ≠ (.err .notFound, w') := by
  have hkept : Integral (w.afterConsume env r).store.db := h.updateShares _ _ _ fun _ => ⟨rfl, rfl⟩
  exact redeemDeliver_found hkept (h.print_of_share ht.row ht.decodes)

theorem notFound_stays (h : Integral w.store.db) (hrun : redeemShare env app req w = (.err .notFound, w')) :
    w'.store = w.store := by
  cases hp : w.storePoisoned with
  | true =>
      rw [redeemShare, withStore_poisoned _ hp] at hrun
      cases hrun
  | false =>
      rcases hbody : redeemBody env app req w with ⟨o, t⟩
      by_cases hpanic : o = .panic
      · subst hpanic
        rw [redeemShare, blocking_of_panic hp hbody] at hrun
        cases hrun
      · rw [redeemShare, blocking_of_run hp hbody hpanic] at hrun
        obtain ⟨rfl, rfl⟩ := Prod.mk.inj hrun
        rcases redeemBody_cases env app req w with ⟨r, share, ht, hdeliver⟩ | ⟨-, hstore, -⟩
        · exact absurd (hdeliver.symm.trans hbody) (ht.found h)
        · rw [hbody] at hstore
          exact hstore

end

/-- After its slot is consumed a redemption finds the print of the share, unless the
statement fails, and `NotFound` is not how it ends. -/
def SlotFindsPrint (s : Store) : Prop :=
  ∀ (env : RequestEnv) (app : App) (req : RedeemRequest) (share : Share) (w w₁ w₂ w₃ : World), w.store = s →
    redeemLookup env app req w = (.ok share, w₁) → redeemCode env app req share w₁ = (.ok (), w₂) →
    redeemConsume env app req share w₂ = (.ok (), w₃) →
    (∃ print, print.id = share.printId ∧ PrintStore.find env.toEnv .selectPrint share.printId w₃.store =
      (if env.fails .selectPrint then .err (.sqlite .failure) else .ok (some print), w₃.store)) ∧
    ∀ w₄, redeemDeliver env app req share w₃ ≠ (.err .notFound, w₄)

/-- What `NotFound` answers has changed nothing in the store. -/
def NotFoundSpares (s : Store) : Prop :=
  ∀ (env : RequestEnv) (app : App) (req : RedeemRequest) (w w' : World), w.store = s →
    redeemShare env app req w = (.err .notFound, w') → w'.store = s

theorem slotFindsPrint {s : Store} (h : Integral s.db) : SlotFindsPrint s := by
  intro env app req share w w₁ w₂ w₃ hw hlookup hcode hconsume
  obtain rfl := hw
  obtain ⟨-, ⟨r, hr, -, hdecodes⟩, rfl⟩ := redeemLookup_ok_iff.mp hlookup
  obtain ⟨-, -, rfl⟩ := redeemCode_ok_iff.mp hcode
  obtain ⟨-, r', -, -, -, rfl⟩ := redeemConsume_ok_iff.mp hconsume
  have hkept : Integral (w.afterConsume env r').store.db := h.updateShares _ _ _ fun _ => ⟨rfl, rfl⟩
  have hrow : ∃ row ∈ w.store.db.prints.rows, row.id = share.printId.val := h.print_of_share hr hdecodes
  exact ⟨hkept.find hrow env.toEnv .selectPrint, fun w₄ => redeemDeliver_found hkept hrow⟩

/-- In every store that the operations reach, each share has its vendor and its print, the
list is complete and without repetition, and `NotFound` costs no slot. -/
theorem references_hold {B : Bcrypt} {kek : Octets 32} {s : Store} (h : Reached B kek s) :
    (∀ share ∈ s.db.shares.rows, (∃ vendor ∈ s.db.vendors.rows, vendor.id = share.vendorId) ∧
      ∃ print ∈ s.db.prints.rows, print.id = share.printId) ∧
    (∀ (env : Env) (limit : UInt32), ∃ rows items, Lists s.db limit rows items ∧
      Shares.listRecent env limit s =
        (if env.fails .listShares then .err (.sqlite .failure) else .ok items, s)) ∧
    (∀ (env : Env) (id : Uuid) (e : StorageError) (t : Store),
      PrintStore.delete env id s = (.err e, t) → t = s) ∧
    SlotFindsPrint s ∧ NotFoundSpares s := by
  have hintegral := h.integral
  refine ⟨fun share hshare => ⟨hintegral.vendors share hshare, hintegral.prints share hshare⟩,
    hintegral.lists, ?_, slotFindsPrint hintegral, ?_⟩
  · intro env id e t hrun
    have hatomic := atomic_delete env id s (by rw [hrun]; simp)
    rwa [hrun] at hatomic
  · rintro env app req w w' rfl hrun
    exact notFound_stays hintegral hrun

def sampleCalls : List (Env × StoreCall) := [
  (PrintStore.sampleHost 1,
    .createVendor "Vendor".toList "vendor@example.com".toList none PrintStore.samplePrint.uploadedBy),
  (PrintStore.sampleHost 1, .insertPrint PrintStore.samplePrint),
  (PrintStore.sampleHost 1, .createShare ((PrintStore.sampleHost 1).newId .print)
    ((PrintStore.sampleHost 1).newId .vendor) .unixEpoch 3 none PrintStore.samplePrint.uploadedBy)]

def sampleShared : Store :=
  sampleCalls.foldl (fun s c => c.2.after .reference PrintStore.sampleKek c.1 s) PrintStore.sampleStore

theorem sampleShared_reached : Reached .reference PrintStore.sampleKek sampleShared :=
  (Reached.start PrintStore.sampleStore rfl rfl rfl).calls sampleCalls

theorem references_hold_sample : sampleShared.db.shares.rows.length = 1 ∧
    (∀ share ∈ sampleShared.db.shares.rows,
      (∃ vendor ∈ sampleShared.db.vendors.rows, vendor.id = share.vendorId) ∧
      ∃ print ∈ sampleShared.db.prints.rows, print.id = share.printId) := by
  refine ⟨?_, (references_hold sampleShared_reached).1⟩
  decide +kernel

end FipsDropbox.Service
