import FipsDropbox.Service.Secrets
import FipsDropbox.Service.VendorChoice
import FipsDropbox.Web.Attestation

/-!
# What the creation page says of the SMS

`share_new_post` says that the code was sent by SMS whenever the form has a phone and a
provider is configured. `create_share` sends it to the phone of the vendor record, if that
has one, and only logs a sender that fails.
-/
namespace FipsDropbox.Web
open Utf8 Exec Crypto Storage Service Notifier

/-- The share behind the address belongs to a vendor with this phone. -/
def BelongsToPhone (app : App) (s : Store) (url phone : Text) : Prop :=
  ∃ token, url = shareUrl app token ∧
    ∃ share ∈ s.db.shares.rows, share.tokenHash = (secretHash app token).val ∧
      ∃ vendor ∈ s.db.vendors.rows, share.vendorId = vendor.id ∧ vendor.primaryPhone = some phone

/-- Between the two worlds a configured sender took a message with the code, for the phone
of the share's vendor. -/
structure TakesCode (site : Site) (sender : SmsSender) (url code : Text) (w w' : World) (phone body : Text) :
    Prop where
  configured : site.smsConfigured = true
  belongs : BelongsToPhone site.toApp w'.store url phone
  handed : Notice.sms phone body ∈ w'.notices.drop w.notices.length
  tells : code <:+: body
  accepted : (sender.send phone body).1 = .ok ()

def CodeSent (site : Site) (sender : SmsSender) (url code : Text) (w w' : World) : Prop :=
  ∃ phone body, TakesCode site sender url code w w' phone body

def drawnCode (env : RequestEnv) : Option Text := (env.random .accessCode 15).map accessCodeOf

/-- The record of the vendor, stored or about to be, has a phone, and the sender takes the
message for it. -/
def SmsReaches (env : RequestEnv) (sender : SmsSender) (s : Store) (req : NewShareRequest) : Prop :=
  ∃ phone code, contactPhone s req = some phone ∧ drawnCode env = some code ∧
    (sender.send phone (smsBody req code)).1 = .ok ()

section
variable {env : RequestEnv} {app : App} {req : NewShareRequest} {w w' : World} {created : ShareCreated}

theorem code_infix_smsBody (req : NewShareRequest) (code : Text) : code <:+: smsBody req code := by
  have hbody : ∀ a b d e : Text, code <:+: a ++ code ++ b ++ d ++ e := fun a b d e =>
    ⟨a, b ++ d ++ e, by simp only [List.append_assoc]⟩
  exact hbody _ _ _ _

theorem create_drawnCode {B : Bcrypt} {printId vendorId createdBy : Uuid} {expiresAt : OffsetDateTime}
    {maxDownloads : UInt32} {note : Option Text} {s s' : Store} {share : Share} {secrets : ShareSecrets}
    (h : Shares.create env.toEnv B printId vendorId expiresAt maxDownloads note createdBy s =
      (.ok (share, secrets), s')) : drawnCode env = some secrets.accessCode := by
  obtain ⟨urlToken, s1, -, k1⟩ := bind_ok_iff.mp h
  obtain ⟨accessCode, s2, hcode, k2⟩ := bind_ok_iff.mp k1
  obtain ⟨raw, s3, hraw, hspell⟩ := bind_ok_iff.mp (adapt_ok_iff.mp hcode)
  obtain ⟨hdraw, rfl⟩ := orErr_ok_iff.mp hraw
  cases hspell
  obtain ⟨tokenHash, s4, -, k3⟩ := bind_ok_iff.mp k2
  obtain ⟨accessCodeHash, s5, -, k4⟩ := bind_ok_iff.mp k3
  obtain ⟨n, s6, -, k5⟩ := bind_ok_iff.mp k4
  cases k5
  rw [drawnCode, hdraw]
  rfl

theorem createShare_drawnCode (h : createShare env app req w = (.ok created, w')) :
    drawnCode env = some created.accessCode := by
  obtain ⟨_, _, _, _, _, _, _, _, _, _, -, -, -, -, -, hcreate, -, rfl, -⟩ := createShare_steps h
  exact create_drawnCode hcreate

theorem createShare_sms_iff (h : createShare env app req w = (.ok created, w')) (phone body : Text) :
    Notice.sms phone body ∈ w'.notices.drop w.notices.length ↔
      contactPhone w.store req = some phone ∧ body = smsBody req created.accessCode := by
  rw [← createShare_phone h]
  obtain ⟨vendor, _, _, share, secrets, _, _, _, _, _, -, -, -, -, -, -, -, rfl, rfl⟩ := createShare_steps h
  dsimp only
  rw [List.drop_left, noticesOf_eq]
  cases vendor.primaryPhone with
  | none => simp
  | some stored => simp [eq_comm]

theorem findOrCreateVendor_row {s t : Store} {vendor : Vendor}
    (h : findOrCreateVendor env req s = (.ok vendor, t)) :
    ∃ row ∈ t.db.vendors.rows, row.id = vendor.id.val ∧ row.primaryPhone = vendor.primaryPhone := by
  rcases findOrCreateVendor_cases env req s with
    ⟨-, row, v, hrow, hv, hrun⟩ | ⟨-, v, vendors, hins, hid, -, hphone, hrun⟩ | ⟨-, -, e, hrun⟩
  · cases h.symm.trans hrun
    obtain ⟨hid, -, hphone⟩ := rowToVendor_ok hv
    exact ⟨row, (Table.find_some hrow).1, hid.symm, hphone.symm⟩
  · cases h.symm.trans hrun
    refine ⟨vendorRowOf env req, (Table.mem_of_insert hins).mpr (.inr rfl), ?_, hphone.symm⟩
    rw [hid]
    rfl
  · cases h.symm.trans hrun

theorem createShare_belongs {phone : Text} (h : createShare env app req w = (.ok created, w'))
    (hphone : contactPhone w.store req = some phone) : BelongsToPhone app w'.store created.shareUrl phone := by
  rw [← createShare_phone h] at hphone
  obtain ⟨vendor, print, expiresAt, share, secrets, s1, s2, s3, _, _, -, -, hvendor, hinsert, -, hcreate, -, rfl,
    rfl⟩ := createShare_steps h
  obtain ⟨row, hrow, hid, hrowPhone⟩ := findOrCreateVendor_row hvendor
  have hprinted : s2.db.vendors = s1.db.vendors := by
    have hsame := printing_vendors app env req s1
    rwa [hinsert] at hsame
  obtain ⟨-, shares, hins, rfl⟩ := create_ok hcreate
  refine ⟨secrets.urlToken, rfl, _, (Table.mem_of_insert hins).mpr (.inr rfl), rfl, row, ?_, hid.symm,
    hrowPhone.trans hphone⟩
  dsimp only
  rw [hprinted]
  exact hrow

/-- The page of a creation tells what the form asked for. -/
theorem shareNewPost_page {site : Site} {user : User} {headers : HeaderMap} {m : Multipart} {email url code : Text}
    {phone : Option Text} {notified sms : Bool}
    (h : shareNewPost env site user headers m w =
      (.ok (.html (.shareCreated email phone url code notified sms)), w')) :
    ∃ req created, formRequest site.caseTables user headers m = some req ∧
      createShare env site.toApp req w = (.ok created, w') ∧ url = created.shareUrl ∧
      code = created.accessCode ∧ sms = (req.vendorPhone.isSome && site.smsConfigured) := by
  obtain ⟨draft, w1, hread, k⟩ := bind_ok_iff.mp h
  obtain ⟨hdraft, rfl⟩ := lift_ok_iff.mp hread
  have hform : formRequest site.caseTables user headers m = (draft.complete site.caseTables user headers).toOption := by
    rw [formRequest, requestOf, hdraft]
    rfl
  cases hreq : draft.complete site.caseTables user headers with
  | error missing =>
      rw [hreq] at k
      cases missing <;> cases k
  | ok req =>
      rw [hreq] at k hform
      obtain ⟨created, w2, hcreate, kpage⟩ := bind_ok_iff.mp k
      cases kpage
      exact ⟨req, created, hform, adapt_ok_iff.mp hcreate, rfl, rfl, rfl⟩

/-- The page is right about the SMS exactly when the phone of the form is not all there is:
the record of the vendor has one too, and the sender takes the message for it. -/
theorem smsSent_truthful_iff {site : Site} {user : User} {headers : HeaderMap} {m : Multipart}
    {email url code : Text} {phone : Option Text} {notified sms : Bool} (sender : SmsSender)
    (h : shareNewPost env site user headers m w =
      (.ok (.html (.shareCreated email phone url code notified sms)), w')) :
    (sms = true → CodeSent site sender url code w w') ↔
      (site.smsConfigured = true → ∀ req, formRequest site.caseTables user headers m = some req →
        req.vendorPhone.isSome = true → SmsReaches env sender w.store req) := by
  obtain ⟨req, created, hform, hcreate, rfl, rfl, rfl⟩ := shareNewPost_page h
  rw [Bool.and_eq_true]
  constructor
  · intro htruthful hconfigured req' hreq' hasked
    obtain rfl := Option.some.inj (hform.symm.trans hreq')
    obtain ⟨phone, body, hsent⟩ := htruthful ⟨hasked, hconfigured⟩
    obtain ⟨hcontact, rfl⟩ := (createShare_sms_iff hcreate phone body).mp hsent.handed
    exact ⟨phone, created.accessCode, hcontact, createShare_drawnCode hcreate, hsent.accepted⟩
  · rintro hreaches ⟨hasked, hconfigured⟩
    obtain ⟨phone, code, hcontact, hdrawn, haccepted⟩ := hreaches hconfigured req hform hasked
    obtain rfl := Option.some.inj (hdrawn.symm.trans (createShare_drawnCode hcreate))
    exact ⟨phone, smsBody req created.accessCode, {
      configured := hconfigured
      belongs := createShare_belongs hcreate hcontact
      handed := (createShare_sms_iff hcreate phone _).mpr ⟨hcontact, rfl⟩
      tells := code_infix_smsBody req created.accessCode
      accepted := haccepted }⟩

theorem shareNewPost_of_request {site : Site} {user : User} {headers : HeaderMap} {m : Multipart}
    (hform : formRequest site.caseTables user headers m = some req)
    (hcreate : createShare env site.toApp req w = (.ok created, w')) :
    shareNewPost env site user headers m w =
      (.ok (.html (.shareCreated created.vendorEmail created.vendorPhone created.shareUrl created.accessCode
        site.emailConfigured (req.vendorPhone.isSome && site.smsConfigured))), w') := by
  obtain ⟨draft, hdraft, hreq⟩ := requestOf_some_iff.mp hform
  have hread : (lift id (readMultipart formAttests (fun _ => .badRequest) m) : Exec World StatusCode Draft) w =
      (.ok draft, w) := by
    rw [hdraft]
    rfl
  have hcreated : orInternal (createShare env site.toApp req) w = (.ok created, w') := adapt_ok_iff.mpr hcreate
  rw [shareNewPost, bind_ok hread]
  simp only [hreq]
  rw [bind_ok hcreated]
  rfl

end

def smsSite : Site := { sampleSite with emailConfigured := true, smsConfigured := true }

def phonelessWorld : World :=
  { sampleWorld with store := { sampleWorld.store with db := { sampleWorld.store.db with
      vendors := ⟨[vendorRowOf quietEnv sampleUpload], by simp⟩ } } }

def phoneBody : Multipart where
  fields := [
    { formField "file" "solid bracket" with fileName := some "bracket.stl".toList },
    formField "vendor_email" "vendor@example.com",
    formField "vendor_phone" "+15550100",
    formField "vendor_display_name" "Vendor",
    formField "cui_attested" "1"]
  malformed := false

def phoneUser : User := { sampleCaller.user with id := sampleUpload.createdBy }

def phoneRequest : NewShareRequest :=
  { sampleUpload with
    vendorPhone := some "+15550100".toList
    expiresInHours := 72
    maxDownloads := 3
    cuiAttested := true
    ip := clientIp []
    userAgent := userAgent [] }

theorem phoneBody_request : formRequest smsSite.caseTables phoneUser [] phoneBody = some phoneRequest := rfl

def threeDays : OffsetDateTime := ⟨259200000000000, 0, by decide⟩

theorem phoneRequest_expiry : expiryOf quietEnv phoneRequest = some threeDays := by decide +kernel

def phonelessAfter : World := (createShare quietEnv smsSite.toApp phoneRequest phonelessWorld).2

theorem createShare_phoneless :
    createShare quietEnv smsSite.toApp phoneRequest phonelessWorld = (.ok sampleCreated, phonelessAfter) := by
  have h : (createShare quietEnv smsSite.toApp phoneRequest phonelessWorld).1.value = some sampleCreated := by
    decide +kernel
  exact Prod.ext (Outcome.value_eq_some.mp h) rfl

theorem shareNewPost_phoneless :
    shareNewPost quietEnv smsSite phoneUser [] phoneBody phonelessWorld =
      (.ok (.html (.shareCreated sampleCreated.vendorEmail sampleCreated.vendorPhone sampleCreated.shareUrl
        sampleCreated.accessCode true true)), phonelessAfter) :=
  shareNewPost_of_request phoneBody_request createShare_phoneless

theorem smsSent_truthful_iff_phoneless :
    (true = true → CodeSent smsSite Null.sms sampleCreated.shareUrl sampleCreated.accessCode phonelessWorld
        phonelessAfter) ↔
      (smsSite.smsConfigured = true → ∀ req, formRequest smsSite.caseTables phoneUser [] phoneBody = some req →
        req.vendorPhone.isSome = true → SmsReaches quietEnv Null.sms phonelessWorld.store req) :=
  smsSent_truthful_iff Null.sms shareNewPost_phoneless

/-- The page says that an SMS was sent, and there was none. -/
theorem phoneless_vendor_notified :
    (∃ email phone url code notified, shareNewPost quietEnv smsSite phoneUser [] phoneBody phonelessWorld =
      (.ok (.html (.shareCreated email phone url code notified true)), phonelessAfter) ∧
      ∀ sender, ¬ CodeSent smsSite sender url code phonelessWorld phonelessAfter) ∧
    ∀ phone body, Notice.sms phone body ∉ phonelessAfter.notices := by
  have hphone : contactPhone phonelessWorld.store phoneRequest = none := by decide +kernel
  have hnone : ∀ phone body, Notice.sms phone body ∉ phonelessAfter.notices := by
    intro phone body hmem
    obtain ⟨hcontact, -⟩ := (createShare_sms_iff createShare_phoneless phone body).mp hmem
    cases hphone.symm.trans hcontact
  refine ⟨⟨_, _, _, _, _, shareNewPost_phoneless, ?_⟩, hnone⟩
  rintro sender ⟨phone, body, hsent⟩
  exact hnone phone body (List.mem_of_mem_drop hsent.handed)

end FipsDropbox.Web
