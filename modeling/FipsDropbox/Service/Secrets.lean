import FipsDropbox.Lib.TwoRuns
import FipsDropbox.Notifier.Senders
import FipsDropbox.Service.Creation

/-!
# Where the secrets of a share go

Two creations that differ in the two secrets they draw, but not in the hashes of these,
leave one store and one audit file. What they hand to the senders differs, and the sender
that stands in for a missing SMS provider logs the body it is given.
-/
namespace FipsDropbox.Service
open Utf8 Exec Crypto Storage Notifier

/-- The host of the request, drawing these bytes for the secrets of a share. -/
def RequestEnv.drawing (env : RequestEnv) (token : Octets 16) (code : Octets 15) : RequestEnv :=
  { env with
    random := fun d n =>
      match d with
      | .urlToken => if h : n = 16 then some ⟨token.val, token.property.trans h.symm⟩ else none
      | .accessCode => if h : n = 15 then some ⟨code.val, code.property.trans h.symm⟩ else none
      | d => env.random d n }

def urlTokenOf (token : Octets 16) : Text := urlSafeBase64 token.val

def accessCodeOf (code : Octets 15) : Text := accessCodeFrom 0 code.val

/-- A notice handed to its sender; a failure is logged and goes no further. -/
def deliver (senders : Senders) : Notice → List TraceRecord
  | .email recipient subject bodyText bodyHtml =>
      let out := senders.email.send recipient subject bodyText bodyHtml
      out.2 ++ match out.1 with
        | .ok () => []
        | .error e => [⟨.warn, [debug "e" e, display "vendor" recipient], "share email failed".toList⟩]
  | .sms recipient body =>
      let out := senders.sms.send recipient body
      out.2 ++ match out.1 with
        | .ok () => []
        | .error e => [⟨.warn, [debug "e" e], "share SMS failed".toList⟩]

/-- The database, the audit file and the records of `tracing` after a creation. -/
structure Sinks where
  db : Db
  file : Audit.File
  records : List TraceRecord

def createShareSinks (senders : Senders) (env : RequestEnv) (app : App) (req : NewShareRequest) (w : World) :
    Sinks :=
  let w' := (createShare env app req w).2
  { db := w'.store.db
    file := w'.file
    records := (w'.notices.drop w.notices.length).flatMap (deliver senders) }

def contactPhone (s : Store) (req : NewShareRequest) : Option Text :=
  match activeVendor s req.vendorEmail with
  | some row => row.primaryPhone
  | none => req.vendorPhone

section
variable {env : RequestEnv} {app : App} {req : NewShareRequest} {t t' : Octets 16} {c c' : Octets 15}

/-- Two shares that were made alike, under secrets of their own. -/
structure MadeAlike (t t' : Octets 16) (c c' : Octets 15) (a b : Created) : Prop where
  share : b.share = a.share
  vendor : b.vendor = a.vendor
  secrets : a.secrets = ⟨urlTokenOf t, accessCodeOf c⟩
  secrets' : b.secrets = ⟨urlTokenOf t', accessCodeOf c'⟩

theorem urlToken_drawing {σ : Type} (env : RequestEnv) (t : Octets 16) (c : Octets 15) :
    (Token.urlToken (env.drawing t c).toEnv : Exec σ CryptoError Text) = pure (urlTokenOf t) := rfl

theorem accessCode_drawing {σ : Type} (env : RequestEnv) (t : Octets 16) (c : Octets 15) :
    (Token.accessCode (env.drawing t c).toEnv : Exec σ CryptoError Text) = pure (accessCodeOf c) := rfl

theorem vendorAndPrint_drawing (env : RequestEnv) (app : App) (req : NewShareRequest) (t : Octets 16)
    (c : Octets 15) : vendorAndPrint (env.drawing t c) app req = vendorAndPrint env app req := rfl

theorem alike_create {B : Bcrypt} (htoken : Cng.sha256 B (encode (urlTokenOf t)) = Cng.sha256 B (encode (urlTokenOf t')))
    (hcode : Cng.sha256 B (encode (accessCodeOf c)) = Cng.sha256 B (encode (accessCodeOf c')))
    (printId vendorId : Uuid) (expiresAt : OffsetDateTime) (maxDownloads : UInt32) (note : Option Text)
    (createdBy : Uuid) :
    Alike (fun a b => b.1 = a.1 ∧ a.2 = ⟨urlTokenOf t, accessCodeOf c⟩ ∧ b.2 = ⟨urlTokenOf t', accessCodeOf c'⟩)
      (Shares.create (env.drawing t c).toEnv B printId vendorId expiresAt maxDownloads note createdBy)
      (Shares.create (env.drawing t' c').toEnv B printId vendorId expiresAt maxDownloads note createdBy) := by
  have hhash : ∀ (call : Call) {x y : Bytes}, Cng.sha256 B x = Cng.sha256 B y →
      Alike Eq (adapt StorageError.crypto (Hash.sha256 (env.drawing t c).toEnv B call x) : Exec Store _ _)
        (adapt StorageError.crypto (Hash.sha256 (env.drawing t' c').toEnv B call y)) := by
    intro call x y hxy
    rw [Hash.sha256, hxy]
    exact alike_refl _
  unfold Shares.create
  simp only [urlToken_drawing, accessCode_drawing]
  refine Alike.bind (A := fun a b => a = urlTokenOf t ∧ b = urlTokenOf t') (alike_pure ⟨rfl, rfl⟩).adapt ?_
  rintro _ _ ⟨rfl, rfl⟩
  refine Alike.bind (A := fun a b => a = accessCodeOf c ∧ b = accessCodeOf c') (alike_pure ⟨rfl, rfl⟩).adapt ?_
  rintro _ _ ⟨rfl, rfl⟩
  refine (hhash _ htoken).bind ?_
  rintro tokenHash _ rfl
  refine (hhash _ hcode).bind ?_
  rintro accessCodeHash _ rfl
  exact Alike.after _ fun _ => alike_pure ⟨rfl, rfl, rfl⟩

theorem alike_offerShare (htoken : secretHash app (urlTokenOf t) = secretHash app (urlTokenOf t'))
    (hcode : secretHash app (accessCodeOf c) = secretHash app (accessCodeOf c')) (vendor : Vendor) (print : Print) :
    Alike (MadeAlike t t' c c') (offerShare (env.drawing t c) app req vendor print)
      (offerShare (env.drawing t' c') app req vendor print) := by
  refine Alike.after (orPanic (expiryOf env req)) fun expiresAt => ?_
  refine (alike_create htoken hcode _ _ _ _ _ _).zoom.adapt.bind ?_
  rintro ⟨share, secrets⟩ ⟨_, secrets'⟩ ⟨rfl, hsecrets, hsecrets'⟩
  exact (Alike.after _ fun _ => alike_pure ⟨rfl, rfl, hsecrets, hsecrets'⟩).locked

theorem alike_storeShare (env : RequestEnv) (req : NewShareRequest)
    (htoken : secretHash app (urlTokenOf t) = secretHash app (urlTokenOf t'))
    (hcode : secretHash app (accessCodeOf c) = secretHash app (accessCodeOf c')) :
    Alike (MadeAlike t t' c c') (storeShare (env.drawing t c) app req) (storeShare (env.drawing t' c') app req) := by
  rw [storeShare_eq, storeShare_eq, vendorAndPrint_drawing, vendorAndPrint_drawing]
  have hoffer : ∀ p : Vendor × Print, Alike (MadeAlike t t' c c')
      (offerShare (env.drawing t c) app req p.1 p.2) (offerShare (env.drawing t' c') app req p.1 p.2) :=
    fun p => alike_offerShare htoken hcode p.1 p.2
  exact (Alike.after (vendorAndPrint env app req) hoffer).locked.task

/-- Two creations end in one store and one audit file, and in one error if they fail. -/
theorem createShare_twice (env : RequestEnv) (req : NewShareRequest) (w : World)
    (htoken : secretHash app (urlTokenOf t) = secretHash app (urlTokenOf t'))
    (hcode : secretHash app (accessCodeOf c) = secretHash app (accessCodeOf c')) :
    (∃ created u v, createShare (env.drawing t c) app req w = (.ok created, u) ∧
      created.accessCode = accessCodeOf c ∧
      createShare (env.drawing t' c') app req w = (.ok { created with
        shareUrl := shareUrl app (urlTokenOf t')
        accessCode := accessCodeOf c' }, v) ∧
      v.store = u.store ∧ v.file = u.file) ∨
    ((∀ created, (createShare (env.drawing t c) app req w).1 ≠ .ok created) ∧
      createShare (env.drawing t' c') app req w = createShare (env.drawing t c) app req w) := by
  rcases (alike_storeShare env req htoken hcode).ends w with
    ⟨a, b, u, ha, hb, hab⟩ | ⟨e, u, ha, hb⟩ | ⟨u, ha, hb⟩
  · left
    rw [createShare, bind_ok ha, bind_ok (modify_apply _ _), createShare, bind_ok hb, bind_ok (modify_apply _ _)]
    refine ⟨_, _, { u with notices := u.notices ++ noticesOf app req b }, rfl, ?_, ?_, rfl, rfl⟩
    · rw [hab.secrets]
    · simp only [hab.share, hab.vendor, hab.secrets']
      rfl
  · right
    rw [createShare, bind_err ha, createShare, bind_err hb]
    exact ⟨fun _ => by simp, rfl⟩
  · right
    rw [createShare, bind_panic ha, createShare, bind_panic hb]
    exact ⟨fun _ => by simp, rfl⟩

def smsBody (req : NewShareRequest) (code : Text) : Text :=
  "Secure share access code: ".toList ++ code ++ " (expires in ".toList ++
    Json.decimal req.expiresInHours.toNat ++ "h)".toList

theorem smsBody_injective {code code' : Text} (h : smsBody req code = smsBody req code') : code = code' := by
  have hcancel : ∀ a b d e : Text, a ++ code ++ b ++ d ++ e = a ++ code' ++ b ++ d ++ e → code = code' := by
    intro a b d e heq
    simpa only [List.append_left_inj, List.append_right_inj] using heq
  unfold smsBody at h
  exact hcancel _ _ _ _ h

theorem noticesOf_eq (created : Created) : noticesOf app req created =
    .email created.vendor.primaryEmail "A secure file has been shared with you".toList
        ("Open: ".toList ++ shareUrl app created.secrets.urlToken ++
          "\n\nYour access code was sent to your phone separately.\n".toList)
        ("Open: ".toList ++ shareUrl app created.secrets.urlToken ++
          "\n\nYour access code was sent to your phone separately.\n".toList) ::
      created.vendor.primaryPhone.toList.map fun phone => .sms phone (smsBody req created.secrets.accessCode) := by
  rw [noticesOf]
  cases created.vendor.primaryPhone with
  | none => rfl
  | some phone => rfl

/-- What the senders of an unconfigured service log of a share. -/
def unsentRecords (req : NewShareRequest) (created : ShareCreated) : List TraceRecord :=
  ⟨.info, [display "to" created.vendorEmail, display "subject" "A secure file has been shared with you".toList],
      "notifier::Null email".toList⟩ ::
    created.vendorPhone.toList.map fun phone =>
      ⟨.info, [display "to" phone, display "body" (smsBody req created.accessCode)], "notifier::Null sms".toList⟩

/-- Of two shares that differ in their secrets, only the codes can be told apart, by the SMS. -/
theorem unsentRecords_eq_iff (created : ShareCreated) (url code : Text) :
    unsentRecords req created = unsentRecords req { created with shareUrl := url, accessCode := code } ↔
      created.accessCode = code ∨ created.vendorPhone = none := by
  cases hphone : created.vendorPhone with
  | none => simp [unsentRecords, hphone]
  | some phone =>
      simp only [unsentRecords, hphone, Option.toList_some, List.map_cons, List.map_nil, List.cons.injEq, true_and,
        and_true, TraceRecord.mk.injEq, display, Prod.mk.injEq, FieldValue.display.injEq, reduceCtorEq, or_false]
      exact ⟨smsBody_injective, fun h => by rw [h]⟩

def unconfigured (smtpNew : SmtpConfig → Except NotifyError EmailSender) : Senders := (chooseSenders smtpNew none).1

theorem createShare_records (smtpNew : SmtpConfig → Except NotifyError EmailSender) {w w' : World}
    {created : ShareCreated} (h : createShare env app req w = (.ok created, w')) :
    (createShareSinks (unconfigured smtpNew) env app req w).records = unsentRecords req created := by
  obtain ⟨vendor, _, _, share, secrets, _, _, _, _, _, _, _, _, _, _, _, _, hcreated, hw⟩ := createShare_steps h
  subst hcreated hw
  simp only [createShareSinks, h, List.drop_left, noticesOf_eq, List.flatMap_cons, unsentRecords]
  cases vendor.primaryPhone with
  | none => rfl
  | some phone => rfl

theorem createShare_phone {w w' : World} {created : ShareCreated}
    (h : createShare env app req w = (.ok created, w')) : created.vendorPhone = contactPhone w.store req := by
  obtain ⟨vendor, _, _, share, secrets, _, _, _, _, _, _, _, hvendor, _, _, _, _, hcreated, _⟩ := createShare_steps h
  subst hcreated
  rw [contactPhone]
  rcases findOrCreateVendor_cases env req w.store with
    ⟨-, row, v, hrow, hv, hrun⟩ | ⟨hadded, v, vendors, -, -, -, hphone, hrun⟩ | ⟨-, -, e, hrun⟩
  · cases hvendor.symm.trans hrun
    rw [hrow]
    exact (rowToVendor_ok hv).2.2
  · cases hvendor.symm.trans hrun
    rw [hadded.unknown]
    exact hphone
  · cases hvendor.symm.trans hrun

/-- The code itself is in a record, whenever there is a phone to send it to. -/
theorem createShare_logs_code (smtpNew : SmtpConfig → Except NotifyError EmailSender) {w w' : World}
    {created : ShareCreated} {phone : Text} (h : createShare env app req w = (.ok created, w'))
    (hphone : contactPhone w.store req = some phone) :
    ∃ r ∈ (createShareSinks (unconfigured smtpNew) env app req w).records,
      display "body" (smsBody req created.accessCode) ∈ r.fields := by
  rw [createShare_records smtpNew h, unsentRecords, createShare_phone h, hphone]
  exact ⟨_, List.mem_cons_of_mem _ (List.mem_singleton_self _), List.mem_cons_of_mem _ (List.mem_singleton_self _)⟩

/-- Under equal hashes the sinks are equal, unless the code is sent to a phone: then it is logged. -/
theorem createShareSinks_eq_iff (D : app.serde.Documented)
    (smtpNew : SmtpConfig → Except NotifyError EmailSender) (w : World)
    (htoken : secretHash app (urlTokenOf t) = secretHash app (urlTokenOf t'))
    (hcode : secretHash app (accessCodeOf c) = secretHash app (accessCodeOf c')) :
    createShareSinks (unconfigured smtpNew) (env.drawing t c) app req w =
        createShareSinks (unconfigured smtpNew) (env.drawing t' c') app req w ↔
      accessCodeOf c = accessCodeOf c' ∨ contactPhone w.store req = none ∨
        ¬ Creates (env.drawing t c) app req w := by
  rcases createShare_twice env req w htoken hcode with
    ⟨created, u, v, hu, hcreated, hv, hstore, hfile⟩ | ⟨hno, hsame⟩
  · have hcreates := (createShare_created_iff _ _ _ D w).mp ⟨created, congrArg Prod.fst hu⟩
    have hrecords : createShareSinks (unconfigured smtpNew) (env.drawing t c) app req w =
        createShareSinks (unconfigured smtpNew) (env.drawing t' c') app req w ↔
        unsentRecords req created = unsentRecords req { created with
          shareUrl := shareUrl app (urlTokenOf t')
          accessCode := accessCodeOf c' } := by
      rw [← createShare_records smtpNew hu, ← createShare_records smtpNew hv]
      simp only [createShareSinks, hu, hv, hstore, hfile, Sinks.mk.injEq, true_and]
    rw [hrecords, unsentRecords_eq_iff, hcreated, createShare_phone hu]
    simp only [hcreates, not_true_eq_false, or_false]
  · have hfails : ¬ Creates (env.drawing t c) app req w := fun h => by
      obtain ⟨created, hc⟩ := (createShare_created_iff _ _ _ D w).mpr h
      exact hno created hc
    refine iff_of_true ?_ (.inr (.inr hfails))
    rw [createShareSinks, createShareSinks, hsame]

end

def sampleSmsUpload : NewShareRequest := { sampleUpload with vendorPhone := some "+15550100".toList }

def zeroToken : Octets 16 := ⟨List.replicate 16 0, rfl⟩

def zeroCode : Octets 15 := ⟨List.replicate 15 0, rfl⟩
def wrappedCode : Octets 15 := ⟨List.replicate 15 31, rfl⟩
def otherCode : Octets 15 := ⟨List.replicate 15 1, rfl⟩

def collidingDigest : Bcrypt :=
  { Bcrypt.reference with
    hash := fun data =>
      if data = encode (accessCodeOf otherCode) then Bcrypt.reference.hash (encode (accessCodeOf zeroCode))
      else Bcrypt.reference.hash data }

def noSmtp (_ : SmtpConfig) : Except NotifyError EmailSender := .error (.config [])

theorem createShareSinks_eq_sample :
    createShareSinks (unconfigured noSmtp) (quietEnv.drawing zeroToken zeroCode) sampleApp sampleSmsUpload sampleWorld =
        createShareSinks (unconfigured noSmtp) (quietEnv.drawing zeroToken wrappedCode) sampleApp sampleSmsUpload
          sampleWorld ↔
      accessCodeOf zeroCode = accessCodeOf wrappedCode ∨ contactPhone sampleWorld.store sampleSmsUpload = none ∨
        ¬ Creates (quietEnv.drawing zeroToken zeroCode) sampleApp sampleSmsUpload sampleWorld := by
  have hwrapped : accessCodeOf zeroCode = accessCodeOf wrappedCode := by decide
  exact createShareSinks_eq_iff Audit.SerdeJson.reference_documented noSmtp sampleWorld rfl (by rw [hwrapped])

/-- Two codes of one digest, told apart by the records. -/
theorem sms_tells_codes_apart :
    Cng.sha256 collidingDigest (encode (accessCodeOf zeroCode)) =
        Cng.sha256 collidingDigest (encode (accessCodeOf otherCode)) ∧
      createShareSinks (unconfigured noSmtp) (quietEnv.drawing zeroToken zeroCode)
          { sampleApp with bcrypt := collidingDigest } sampleSmsUpload sampleWorld ≠
        createShareSinks (unconfigured noSmtp) (quietEnv.drawing zeroToken otherCode)
          { sampleApp with bcrypt := collidingDigest } sampleSmsUpload sampleWorld := by
  refine ⟨by decide +kernel, fun h => ?_⟩
  have hrecords := congrArg Sinks.records h
  revert hrecords
  decide +kernel

end FipsDropbox.Service
