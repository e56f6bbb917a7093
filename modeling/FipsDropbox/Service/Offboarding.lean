import FipsDropbox.Lib.Runs
import FipsDropbox.Service.Creation
import FipsDropbox.Service.Delivery
import FipsDropbox.Storage.Credentials

/-!
# Offboarding

A vendor is disabled by setting a column that redemption never reads and that creation
reads only to pass the row over. So a vendor stays off exactly as long as nobody redeems a
share of a disabled row, or sends to an address that only disabled rows have.
-/
namespace FipsDropbox.Service
open Utf8 Exec Crypto Storage Runs

/-- An operation of the service, a vendor being disabled, or a change from elsewhere that
leaves the vendors that there are alone. -/
inductive Dealing where
  | request (env : RequestEnv) (req : Request)
  | disable (env : Env) (id : Uuid)
  | elsewhere (f : World → World) (keeps : ∀ w, ∀ v ∈ w.store.db.vendors.rows, v ∈ (f w).store.db.vendors.rows)

/-- The world, with the identifiers and addresses of the vendors that have been disabled. -/
structure Roster where
  world : World
  offboarded : List (Bytes × Text)

def vendorsOf (w : World) (id : Uuid) : List (Bytes × Text) :=
  (w.store.db.vendors.rows.filter fun v => v.id = id.val).map fun v => (v.id, v.primaryEmail)

def Roster.after (app : App) (r : Roster) : Dealing → Roster
  | .request env req => { r with world := (handle env app req r.world).2 }
  | .disable env id =>
      let out := Vendors.disable env id r.world.store
      { world := { r.world with store := out.2 }
        offboarded := if out.1.value.isSome then vendorsOf r.world id ++ r.offboarded else r.offboarded }
  | .elsewhere f _ => { r with world := f r.world }

/-- No share of a vendor that was disabled is redeemed, and no vendor is created under the
address of one. -/
def StaysOff (app : App) (r : Roster) : Dealing → Prop
  | .request env (.redeemShare req) => ∀ share ∈ r.world.store.db.shares.rows,
      share.tokenHash = (secretHash app req.token).val → share.vendorId ∈ r.offboarded.map Prod.fst →
      ∀ resp, (redeemShare env app req r.world).1 ≠ .ok resp
  | .request env (.createShare req) => req.vendorEmail ∈ r.offboarded.map Prod.snd →
      (createShare env app req r.world).2.store.db.vendors = r.world.store.db.vendors
  | _ => True

/-- A redemption does not take a share of a disabled row, and a creation does not need a
vendor for an address that a disabled row has. -/
def Heeds (app : App) (r : Roster) : Dealing → Prop
  | .request env (.redeemShare req) => ∀ row share, Takes env app r.world.store req row share →
      ∀ v ∈ r.world.store.db.vendors.rows, v.id = row.vendorId → v.disabledAt = none
  | .request env (.createShare req) => VendorAdded env r.world.store req →
      ∀ v ∈ r.world.store.db.vendors.rows, v.primaryEmail = req.vendorEmail → v.disabledAt = none
  | _ => True

def SameVendors (s t : Store) : Prop := t.db.vendors = s.db.vendors

theorem sameVendors_frame : Frame SameVendors where
  refl _ := rfl
  trans h h' := h'.trans h

def VendorsKept (s t : Store) : Prop := ∀ v ∈ s.db.vendors.rows, v ∈ t.db.vendors.rows

theorem vendorsKept_frame : Frame VendorsKept where
  refl _ _ hv := hv
  trans h h' v hv := h' v (h v hv)

section
variable {env : RequestEnv} {app : App}

theorem vendorsKept_of_same {s t : Store} (h : SameVendors s t) : VendorsKept s t := by
  intro v hv
  rw [h]
  exact hv

theorem handle_vendorsKept (env : RequestEnv) (app : App) (req : Request) :
    Moves (OnStore VendorsKept) (handle env app req) := by
  have F := vendorsKept_frame
  cases req with
  | createShare q =>
      refine moves_replying F (moves_createShare F q ?_ ?_ ?_ ?_)
      · intro s row vendors hins v hv
        exact (Table.mem_of_insert hins).mpr (.inl hv)
      · exact fun _ _ _ hv => hv
      · exact fun _ _ _ _ _ _ hv => hv
      · exact fun _ _ _ _ _ _ hv => hv
  | redeemShare q => exact moves_replying F (moves_redeemShare F env app q fun _ _ _ _ hv => hv)
  | revokeShare id u ip ua =>
      refine moves_replying F (moves_blocking F ((onStore_frame F).bind (moves_onStore ?_) fun _ =>
        moves_withAudit F (moves_writeEvent F _ _ _ _ _ _ _)))
      refine F.bind (moves_execute F _ ?_) fun _ => F.failIf _ _
      intro s n db hdb v hv
      cases hdb
      exact hv
  | login | logout | findAuthenticated | listAuditEvents | mintApiToken | listApiTokens | revokeApiToken
  | verifyApiToken | listRecentShares =>
      refine (handle_credentialsOnly env app _ ?_ ?_ ?_).mono fun _ _ h => vendorsKept_of_same h.vendors
      · intro r hr
        cases hr
      · intro r hr
        cases hr
      · intro s u ip ua hr
        cases hr

/-- A creation that adds no vendor leaves the table alone. -/
theorem createShare_sameVendors {req : NewShareRequest} {w : World} (h : ¬ VendorAdded env w.store req) :
    (createShare env app req w).2.store.db.vendors = w.store.db.vendors := by
  have F := sameVendors_frame
  have FW := onStore_frame F
  rw [(createShare_of_storeShare env app req w).1.1]
  cases hp : w.storePoisoned with
  | true => rw [storeShare, withStore_poisoned _ hp]
  | false =>
      rw [storeShare, (withStore_free _ hp).1]
      rcases findOrCreateVendor_cases env req w.store with ⟨-, _, v, -, -, hrun⟩ | ⟨hadded, -⟩ | ⟨-, -, e, hrun⟩
      · rw [bind_ok (onStore_ok hrun)]
        refine (FW.bind (moves_onStore (PrintStore.moves_insert F (fun _ _ => rfl) (fun _ _ _ _ _ _ => rfl) _ _ _ _))
          fun _ => FW.bind (FW.orPanic _) fun _ =>
          FW.bind (moves_onStore (Storage.moves_createShare F fun _ _ _ _ _ _ => rfl)) fun _ =>
          moves_audited F (FW.pure _)) w
      · exact absurd hadded h
      · rw [bind_err (onStore_err hrun)]

theorem sharedRow_tokenHash (req : NewShareRequest) (vendorId : Uuid) (expiresAt : OffsetDateTime)
    (token code : Text) (count : ℤ) :
    (sharedRow env app req vendorId expiresAt token code count).tokenHash = (secretHash app token).val := rfl

theorem sharedRow_vendorId (req : NewShareRequest) (vendorId : Uuid) (expiresAt : OffsetDateTime)
    (token code : Text) (count : ℤ) :
    (sharedRow env app req vendorId expiresAt token code count).vendorId = vendorId.val := rfl

end

/-- The vendors that were disabled are in the table, and disabled. -/
def Roster.Known (r : Roster) : Prop :=
  ∀ p ∈ r.offboarded, ∃ v ∈ r.world.store.db.vendors.rows, v.id = p.1 ∧ v.primaryEmail = p.2 ∧
    v.disabledAt.isSome = true

theorem Roster.Known.mono {r : Roster} (h : r.Known) {w : World} (hkept : VendorsKept r.world.store w.store) :
    Roster.Known { r with world := w } := by
  intro p hp
  obtain ⟨v, hv, hrest⟩ := h p hp
  exact ⟨v, hkept v hv, hrest⟩

theorem Roster.Known.step {app : App} {r : Roster} (h : r.Known) (d : Dealing) : (r.after app d).Known := by
  cases d with
  | request env req => exact h.mono (w := (handle env app req r.world).2) (handle_vendorsKept env app req r.world)
  | elsewhere f keeps => exact h.mono (w := f r.world) (keeps r.world)
  | disable env id =>
      rcases disableVendor_cases env id r.world.store with ⟨-, hrun⟩ | ⟨-, e, hrun⟩
      · intro p hp
        simp only [Roster.after, hrun, Outcome.value, Option.isSome_some, if_true, List.mem_append] at hp ⊢
        -- a row that is disabled already is not touched again
        have hkept : ∀ v ∈ r.world.store.db.vendors.rows, v.disabledAt.isSome = true →
            v ∈ (r.world.store.db.vendors.update (fun v => v.id = id.val && v.disabledAt.isNone) _
              (VendorRow.disabled_keys (dtToMillis (env.now .vendorDisabled).time))).2.rows := by
          intro v hv hdis
          apply Table.mem_update_of_false _ _ hv
          simpa using fun _ => hdis
        rcases hp with hp | hp
        · obtain ⟨v, hv, rfl⟩ := List.mem_map.mp hp
          obtain ⟨hmem, hid⟩ := List.mem_filter.mp hv
          cases hdis : v.disabledAt with
          | some at_ => exact ⟨v, hkept v hmem (by rw [hdis]; rfl), rfl, rfl, by rw [hdis]; rfl⟩
          | none =>
              refine ⟨_, Table.mem_update_of_true _ (VendorRow.disabled_keys _) hmem ?_, rfl, rfl, rfl⟩
              rw [hid, hdis]
              rfl
        · obtain ⟨v, hv, hid, hemail, hdis⟩ := h p hp
          exact ⟨v, hkept v hv hdis, hid, hemail, hdis⟩
      · simp only [Roster.after, hrun]
        exact h

theorem Roster.Known.of_id {r : Roster} (h : r.Known) {id : Bytes} (hid : id ∈ r.offboarded.map Prod.fst) :
    ∃ v ∈ r.world.store.db.vendors.rows, v.id = id ∧ v.disabledAt ≠ none := by
  obtain ⟨p, hp, rfl⟩ := List.mem_map.mp hid
  obtain ⟨v, hv, hvid, -, hdis⟩ := h p hp
  exact ⟨v, hv, hvid, Option.isSome_iff_ne_none.mp hdis⟩

theorem Roster.Known.of_email {r : Roster} (h : r.Known) {email : Text} (hemail : email ∈ r.offboarded.map Prod.snd) :
    ∃ v ∈ r.world.store.db.vendors.rows, v.primaryEmail = email ∧ v.disabledAt ≠ none := by
  obtain ⟨p, hp, rfl⟩ := List.mem_map.mp hemail
  obtain ⟨v, hv, -, hvemail, hdis⟩ := h p hp
  exact ⟨v, hv, hvemail, Option.isSome_iff_ne_none.mp hdis⟩

theorem staysOff_of_heeds {app : App} {r : Roster} (h : r.Known) {d : Dealing} (hd : Heeds app r d) :
    StaysOff app r d := by
  cases d with
  | disable env id => trivial
  | elsewhere f keeps => trivial
  | request env req =>
      cases req with
      | redeemShare q =>
          intro share hshare htoken hoff resp hok
          obtain ⟨v, hv, hid, hdis⟩ := h.of_id hoff
          rcases redeemShare_cases env app q r.world with ⟨-, row, share', ht, -, -⟩ | ⟨-, -, hno⟩
          · obtain rfl : row = share := share_of_token ht.row hshare (ht.token.trans htoken.symm)
            exact hdis (hd row share' ht v hv hid)
          · exact hno resp hok
      | createShare q =>
          intro hoff
          obtain ⟨v, hv, hemail, hdis⟩ := h.of_email hoff
          exact createShare_sameVendors fun hadded => hdis (hd hadded v hv hemail)
      | login | logout | findAuthenticated | listAuditEvents | mintApiToken | listApiTokens | revokeApiToken
      | verifyApiToken | listRecentShares | revokeShare => trivial

theorem offboarding_holds (app : App) (w : World) (ds : List Dealing)
    (h : Throughout (Roster.after app) (Heeds app) ⟨w, []⟩ ds) :
    Throughout (Roster.after app) (StaysOff app) ⟨w, []⟩ ds :=
  h.imp Roster.Known (fun _ hp => absurd hp List.not_mem_nil) (fun _ d hk _ => hk.step d)
    fun _ _ hk hd => staysOff_of_heeds hk hd

def sampleVendor : Uuid := quietEnv.newId .vendor

def sampleOffboarding : List Dealing :=
  [.request quietEnv (.createShare sampleUpload), .disable quietEnv.toEnv sampleVendor]

theorem sharedWorld_vendors :
    sharedWorld.store.db.vendors.rows.map (fun v => (v.id, v.disabledAt)) = [(sampleVendor.val, none)] := by
  decide +kernel

theorem sharedWorld_shares : sharedWorld.store.db.shares.rows.map (fun r => (r.tokenHash, r.vendorId)) =
    [((secretHash sampleApp sampleToken).val, sampleVendor.val)] := by
  decide +kernel

def strayBearer : RedeemRequest := { sampleBearer with accessCode := otherBearer.accessCode }

/-- After the vendor is disabled its link is tried, and another vendor gets a share and redeems it. -/
def afterOffboarding : List Dealing :=
  [.request quietEnv (.redeemShare strayBearer), .request otherEnv (.createShare otherUpload),
    .request otherEnv (.redeemShare otherBearer)]

def offboardedRoster : Roster := sampleOffboarding.foldl (Roster.after sampleApp) ⟨sampleWorld, []⟩

def strayedRoster : Roster := offboardedRoster.after sampleApp (.request quietEnv (.redeemShare strayBearer))

def servedRoster : Roster := strayedRoster.after sampleApp (.request otherEnv (.createShare otherUpload))

theorem offboardedRoster_offboarded :
    offboardedRoster.offboarded = [(sampleVendor.val, sampleUpload.vendorEmail)] := by decide +kernel

theorem strayBearer_heeds : Heeds sampleApp offboardedRoster (.request quietEnv (.redeemShare strayBearer)) := by
  have hcodes : (offboardedRoster.world.store.db.shares.rows.all fun r =>
      decide (r.accessCodeHash ≠ (secretHash sampleApp strayBearer.accessCode).val)) = true := by decide +kernel
  intro row share ht
  exact absurd ht.code (of_decide_eq_true (List.all_eq_true.mp hcodes row ht.row))

theorem otherUpload_heeds : Heeds sampleApp strayedRoster (.request otherEnv (.createShare otherUpload)) := by
  have hemails : (strayedRoster.world.store.db.vendors.rows.all fun v =>
      decide (v.primaryEmail ≠ otherUpload.vendorEmail)) = true := by decide +kernel
  intro _ v hv hemail
  exact absurd hemail (of_decide_eq_true (List.all_eq_true.mp hemails v hv))

theorem strayedRoster_created :
    ((createShare otherEnv sampleApp otherUpload strayedRoster.world).1.value.map fun created =>
      (created.shareUrl, created.accessCode)) =
      some (shareUrl sampleApp otherBearer.token, otherBearer.accessCode) := by
  decide +kernel

theorem otherBearer_heeds : Heeds sampleApp servedRoster (.request otherEnv (.redeemShare otherBearer)) := by
  have hshares : (servedRoster.world.store.db.shares.rows.all fun r =>
      decide (r.tokenHash ≠ (secretHash sampleApp otherBearer.token).val) ||
        servedRoster.world.store.db.vendors.rows.all fun v => decide (v.id ≠ r.vendorId) || v.disabledAt.isNone) =
      true := by decide +kernel
  intro row share ht v hv hid
  have hrow := List.all_eq_true.mp hshares row ht.row
  rw [Bool.or_eq_true, decide_eq_true_eq] at hrow
  have hvendor := List.all_eq_true.mp (hrow.resolve_left fun h => h ht.token) v hv
  rw [Bool.or_eq_true, decide_eq_true_eq] at hvendor
  exact Option.isNone_iff_eq_none.mp (hvendor.resolve_left fun h => h hid)

/-- The disabled vendor's link is refused a wrong code, and the other vendor is served. -/
theorem offboarding_sample :
    Throughout (Roster.after sampleApp) (StaysOff sampleApp) ⟨sampleWorld, []⟩ (sampleOffboarding ++ afterOffboarding) ∧
      offboardedRoster.offboarded = [(sampleVendor.val, sampleUpload.vendorEmail)] ∧
      ∃ resp, (redeemShare otherEnv sampleApp otherBearer servedRoster.world).1 = .ok resp := by
  refine ⟨offboarding_holds _ _ _ ⟨?_, trivial, strayBearer_heeds, otherUpload_heeds, otherBearer_heeds, trivial⟩,
    offboardedRoster_offboarded, ?_⟩
  · intro _ v hv
    cases hv
  · obtain ⟨created, hvalue, hsecrets⟩ := Option.map_eq_some_iff.mp strayedRoster_created
    obtain ⟨hurl, hcode⟩ := Prod.ext_iff.mp hsecrets
    have hcreate : createShare otherEnv sampleApp otherUpload strayedRoster.world =
        (.ok created, servedRoster.world) := by
      refine Prod.ext (Outcome.value_eq_some.mp hvalue) ?_
      rw [servedRoster, Roster.after, handle, replying_state]
    obtain ⟨vendorId, expiresAt, token, hexpiry, htoken, -, hoffered, hfree⟩ :=
      createShare_ok Bcrypt.reference_documented (by decide) hcreate
    obtain rfl : otherBearer.token = token := shareUrl_injective (hurl.symm.trans htoken)
    have hexp : expiryOf otherEnv otherUpload = some sampleExpiry := by decide
    obtain rfl : sampleExpiry = expiresAt := Option.some.inj (hexp.symm.trans hexpiry)
    have hcode' : created.accessCode = otherBearer.accessCode := hcode
    rw [hcode'] at hoffered
    exact ⟨_, hoffered.redeems Audit.SerdeJson.reference_documented (fun _ => rfl) rfl hfree (by decide) (by decide) _ _⟩

/-- What disabling an active vendor leaves behind. -/
theorem disable_ends (app : App) (env : Env) (id : Uuid) (w : World)
    (hquiet : env.fails .updateVendorDisabled = false)
    (h : (id.val, none) ∈ w.store.db.vendors.rows.map fun v => (v.id, v.disabledAt)) :
    ∃ store, SameFiles w.store store ∧
      Roster.after app ⟨w, []⟩ (.disable env id) = ⟨{ w with store }, vendorsOf w id⟩ ∧
      id.val ∈ (vendorsOf w id).map Prod.fst := by
  obtain ⟨v, hv, hpair⟩ := List.mem_map.mp h
  obtain ⟨hid, hactive⟩ := Prod.ext_iff.mp hpair
  have hoff : id.val ∈ (vendorsOf w id).map Prod.fst := by
    rw [vendorsOf, List.map_map]
    exact List.mem_map.mpr ⟨v, List.mem_filter.mpr ⟨hv, decide_eq_true hid⟩, hid⟩
  rcases disableVendor_cases env id w.store with ⟨-, hrun⟩ | ⟨hno, -⟩
  · refine ⟨(Vendors.disable env id w.store).2, ?_, ?_, hoff⟩
    · rw [hrun]
      exact ⟨rfl, rfl, rfl⟩
    · rw [Roster.after, hrun]
      simp only [Outcome.value, Option.isSome_some, if_true, List.append_nil]
  · exact absurd ⟨hquiet, v, hv, hid, hactive⟩ hno

/-- The vendor's share is redeemed after the vendor was disabled. -/
theorem disabled_vendor_redeems : ¬ Throughout (Roster.after sampleApp) (StaysOff sampleApp) ⟨sampleWorld, []⟩
    (sampleOffboarding ++ [.request quietEnv (.redeemShare sampleBearer)]) := by
  rintro ⟨-, -, hstays, -⟩
  obtain ⟨vendorId, expiresAt, token, hexpiry, htoken, -, hoffered, hfree⟩ :=
    createShare_ok Bcrypt.reference_documented (by decide) createShare_sample
  obtain rfl : sampleToken = token := shareUrl_injective htoken
  have hexp : expiryOf quietEnv sampleUpload = some sampleExpiry := by decide
  obtain rfl : sampleExpiry = expiresAt := Option.some.inj (hexp.symm.trans hexpiry)
  have hshared : Roster.after sampleApp ⟨sampleWorld, []⟩ (.request quietEnv (.createShare sampleUpload)) =
      ⟨sharedWorld, []⟩ := by
    rw [Roster.after, handle, replying_state]
    rfl
  have hactive : (sampleVendor.val, none) ∈ sharedWorld.store.db.vendors.rows.map fun v => (v.id, v.disabledAt) := by
    rw [sharedWorld_vendors]
    exact List.mem_singleton_self _
  obtain ⟨store, hsame, hdisabled, hoff⟩ :=
    disable_ends sampleApp quietEnv.toEnv sampleVendor sharedWorld rfl hactive
  rw [hshared, hdisabled] at hstays
  have hkept := hoffered.sameFiles hsame
  have hvendor : vendorId.val = sampleVendor.val := by
    have hmem := List.mem_map_of_mem (f := fun r : ShareRow => (r.tokenHash, r.vendorId)) hoffered.row
    rw [sharedWorld_shares] at hmem
    exact (Prod.ext_iff.mp (List.mem_singleton.mp hmem)).2
  have hopen : Free { sharedWorld with store } := ⟨hfree.store, hfree.audit⟩
  exact hstays _ hkept.row (sharedRow_tokenHash ..) (by rw [sharedRow_vendorId, hvendor]; exact hoff) _
    (hkept.redeems Audit.SerdeJson.reference_documented (fun _ => rfl) rfl hopen (by decide) (by decide) _ _)

end FipsDropbox.Service
