import FipsDropbox.Service.Delivery

/-!
# Slots lost to failed deliveries

The slot is consumed before the file is read and nothing gives it back, so an
error after that statement costs the vendor a download.
-/
namespace FipsDropbox.Service
open Utf8 Exec Crypto Storage

def downloadCounts (s : Store) : List (Bytes × ℤ) := s.db.shares.rows.map fun r => (r.id, r.downloadCount)

/-- A redemption that returns an error has changed no `download_count`. -/
def LosesNothing (env : RequestEnv) (app : App) (req : RedeemRequest) (w : World) : Prop :=
  ∀ e, (redeemShare env app req w).1 = .err e →
    downloadCounts (redeemShare env app req w).2.store = downloadCounts w.store

section
variable {env : RequestEnv} {app : App}

theorem downloadCounts_afterConsume {s : Store} {r : ShareRow} {now : ℤ} (hr : r ∈ s.db.shares.rows)
    (hcons : r.consumable r.id now = true) :
    downloadCounts { s with db := s.db.afterConsume r.id now } ≠ downloadCounts s := by
  intro h
  have hmem : (r.id, r.downloadCount + 1) ∈ downloadCounts { s with db := s.db.afterConsume r.id now } := by
    apply List.mem_map.mpr
    exact ⟨r.consumed, Table.mem_update_of_true ShareRow.consumed ShareRow.consumed_keys hr hcons, rfl⟩
  rw [h] at hmem
  obtain ⟨r', hr', heq⟩ := List.mem_map.mp hmem
  obtain ⟨hid, hcount⟩ := Prod.mk.inj heq
  obtain rfl := share_of_id hr' hr hid
  omega

theorem deliverable_afterConsume {w : World} {r : ShareRow} {printId : Uuid} {print : Print} {content : Bytes} :
    Deliverable env app (w.afterConsume env r) printId print content ↔
      Deliverable env app w printId print content := by
  constructor
  · intro h
    exact ⟨h.calls, ⟨h.opens.found, h.opens.opens, h.opens.digest⟩, h.audits⟩
  · intro h
    exact ⟨h.calls, ⟨h.opens.found, h.opens.opens, h.opens.digest⟩, h.audits⟩

/-- A slot is taken and the file cannot be delivered: an error, and one slot less. -/
theorem redeemShare_spends (D : app.serde.Documented) {req : RedeemRequest} {w : World}
    (hfree : w.storePoisoned = false) {r : ShareRow} {share : Share} (ht : Takes env app w.store req r share)
    (hno : ∀ print content, ¬ Deliverable env app w share.printId print content) :
    (∃ e, (redeemShare env app req w).1 = .err e) ∧
      (redeemShare env app req w).2.store = (w.afterConsume env r).store := by
  rcases redeemShare_cases env app req w with ⟨-, r', share', ht', hstore, hok⟩ | ⟨hp | hnot, -⟩
  · obtain rfl := share_of_token ht'.row ht.row
      (ht'.token.trans ht.token.symm)
    obtain rfl : share' = share := Except.ok.inj (ht'.decodes.symm.trans ht.decodes)
    refine ⟨?_, hstore⟩
    cases hout : (redeemShare env app req w).1 with
    | ok resp =>
        obtain ⟨print, hd, -⟩ := (redeemDeliver_ok_iff D).mp ((hok resp).mp hout)
        exact absurd (deliverable_afterConsume.mp hd) (hno _ _)
    | err e => exact ⟨e, rfl⟩
    | panic => exact absurd hout (spawnBlocking_calm _ w)
  · rw [hfree] at hp
    cases hp
  · exact absurd ht (hnot _ _)

/-- No slot is lost exactly when the store is locked for good, or the request takes
none, or all that comes after the slot is in order. -/
theorem losesNothing_iff (D : app.serde.Documented) (req : RedeemRequest) (w : World) :
    LosesNothing env app req w ↔ w.storePoisoned = true ∨
      ∀ r share, Takes env app w.store req r share →
        ∃ print content, Deliverable env app w share.printId print content := by
  constructor
  · intro h
    cases hp : w.storePoisoned with
    | true => exact .inl rfl
    | false =>
        refine .inr ?_
        intro r share ht
        by_contra hno
        obtain ⟨⟨e, he⟩, hstore⟩ := redeemShare_spends D hp ht fun print content hd => hno ⟨print, content, hd⟩
        have hsame := h e he
        rw [hstore] at hsame
        exact downloadCounts_afterConsume ht.row ht.usable hsame
  · intro h e he
    rcases redeemShare_cases env app req w with ⟨hfree, r, share, ht, -, hok⟩ | ⟨-, hstore, -⟩
    · rcases h with hp | h
      · rw [hfree] at hp
        cases hp
      · obtain ⟨print, content, hd⟩ := h r share ht
        have hdelivered := (hok ⟨print.filename, content, print.sha256Plaintext⟩).mpr
          ((redeemDeliver_ok_iff D).mpr ⟨print, deliverable_afterConsume.mpr hd, rfl, rfl⟩)
        rw [hdelivered] at he
        cases he
    · rw [hstore]

end

theorem losesNothing_sample :
    LosesNothing quietEnv sampleApp sampleBearer sharedWorld ↔ sharedWorld.storePoisoned = true ∨
      ∀ r share, Takes quietEnv sampleApp sharedWorld.store sampleBearer r share →
        ∃ print content, Deliverable quietEnv sampleApp sharedWorld share.printId print content :=
  losesNothing_iff Audit.SerdeJson.reference_documented sampleBearer sharedWorld

def failingReads : RequestEnv := { quietEnv with fails := fun c => match c with
  | .readBlob => true
  | _ => false }

/-- The bearer of a share whose blob cannot be read: an error, and one of two slots gone. -/
theorem failedRead_costs_slot : ¬ LosesNothing failingReads sampleApp sampleBearer sharedWorld := by
  obtain ⟨vendorId, expiresAt, token, hexpiry, htoken, -, hoffered, -⟩ :=
    createShare_ok Bcrypt.reference_documented (by decide) createShare_sample
  obtain rfl : sampleToken = token := shareUrl_injective htoken
  have hexp : expiryOf quietEnv sampleUpload = some sampleExpiry := by decide
  obtain rfl : sampleExpiry = expiresAt := Option.some.inj (hexp.symm.trans hexpiry)
  obtain ⟨share, ht, -⟩ : ∃ share, Takes failingReads sampleApp sharedWorld.store sampleBearer
      (sharedRow quietEnv sampleApp sampleUpload vendorId sampleExpiry sampleToken sampleCode 0) share ∧
        share.printId = quietEnv.newId .print :=
    hoffered.takes ⟨⟨rfl, rfl⟩, rfl, rfl⟩ (by decide) (by decide) _ _
  have hfree : sharedWorld.storePoisoned = false := by decide +kernel
  have hread : Call.readBlob ∈ readBlobCalls := by simp [readBlobCalls]
  obtain ⟨⟨e, he⟩, hstore⟩ := redeemShare_spends Audit.SerdeJson.reference_documented hfree ht
    fun print content hd => Bool.noConfusion (hd.calls.2 .readBlob hread)
  intro h
  have hsame := h e he
  rw [hstore] at hsame
  exact downloadCounts_afterConsume ht.row ht.usable hsame

end FipsDropbox.Service
