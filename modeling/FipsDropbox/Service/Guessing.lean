import FipsDropbox.Service.Attested

/-!
# A guessed access code

The code is checked before the share is looked at any further, so who has the URL
token alone meets the same answer and the same record whatever became of the share.
-/
namespace FipsDropbox.Service
open Utf8 Exec Crypto Storage

/-- The store has the share of the request's token, under another access code. -/
structure WrongCode (app : App) (s : Store) (req : RedeemRequest) (share : Share) : Prop where
  row : ∃ r ∈ s.db.shares.rows, rowToShare r = .ok share
  token : share.tokenHash = secretHash app req.token
  code : secretHash app req.accessCode ≠ share.accessCodeHash

/-- The mutexes are free, the calls that a guess makes do not fail, and the append succeeds. -/
structure ServesGuess (env : RequestEnv) (w : World) : Prop where
  mutexes : w.storePoisoned = false ∧ w.auditPoisoned = false
  calls : LooksUp env ∧ env.fails .hashCandidateCode = false
  append : env.auditFault = none

def guessAnswer (env : RequestEnv) (storePoisoned auditPoisoned : Bool) : Outcome ServiceError RedeemResponse :=
  if storePoisoned then .err (.internal .mutexPoisoned)
  else if env.fails .hashRedeemToken then .err (.crypto (.cng .status))
  else if env.fails .selectShare then .err (.storage (.sqlite .failure))
  else if env.fails .hashCandidateCode then .err (.storage (.crypto (.cng .status)))
  else if auditPoisoned then .err (.internal .mutexPoisoned)
  else .err (env.auditFault.elim .invalidCredentials fun step => .audit step.error)

def guessEvent (env : RequestEnv) (req : RedeemRequest) (shareId : Uuid) : Audit.Event :=
  eventOf env "share.redeem" .denied none req.ip req.userAgent [uuid "share_id" shareId]
    [text "reason" "bad_access_code".toList]

/-- The event but for its time and its place in the chain. -/
def recordOf (e : Audit.Event) : Audit.Event := { e.payload with ts := .unixEpoch }

/-- The request is refused, and the log has one more line, of the denial `e`. -/
structure Refused (env : RequestEnv) (app : App) (req : RedeemRequest) (w : World)
    (e : Audit.Event) : Prop where
  result : (redeemShare env app req w).1 = .err .invalidCredentials
  denied : e.event = "share.redeem".toList ∧ e.outcome = .denied
  appended : ∃ line, app.serde.toString e = some line ∧
    (redeemShare env app req w).2.file = some (w.file.getD [] ++ encode (line ++ ['\n']))
  reads : ∀ es, Audit.Holds app.serde w.file es →
    Audit.Holds app.serde (redeemShare env app req w).2.file (es ++ [e])

section
variable {env : RequestEnv} {app : App} {req : RedeemRequest} {share : Share} {w : World}

theorem guessEvent_plain (env : RequestEnv) (req : RedeemRequest) (shareId : Uuid) :
    (guessEvent env req shareId).Plain := by
  apply eventOf_plain
  · simp [uuid, Json.floatFree, Json.depth]
  · simp [text, Json.floatFree, Json.depth]

theorem WrongCode.found (h : WrongCode app w.store req share) :
    ∃ r, w.store.db.shares.find (fun r => r.tokenHash = (secretHash app req.token).val) = some r ∧
      rowToShare r = .ok share := by
  obtain ⟨r, hr, hdec⟩ := h.row
  have htoken : r.tokenHash = (secretHash app req.token).val := by
    rw [← (rowToShare_ok hdec).2.2.2.1, h.token]
  refine ⟨r, ?_, hdec⟩
  rw [← htoken]
  exact Table.find_key (by simp) hr

theorem WrongCode.lookup (h : WrongCode app w.store req share) (env : RequestEnv) :
    redeemLookup env app req w =
      (if env.fails .hashRedeemToken then .err (.crypto (.cng .status))
        else if env.fails .selectShare then .err (.storage (.sqlite .failure))
        else .ok share, w) := by
  obtain ⟨r, hrow, hdec⟩ := h.found
  rcases adapt_sha256_cases env.toEnv app.bcrypt ServiceError.crypto .hashRedeemToken (encode req.token) w with
    ⟨hc, hsha⟩ | ⟨hc, hsha⟩
  · have hfind := findByTokenHash_eq env app req.token w
    rw [hrow] at hfind
    dsimp only at hfind
    rw [hdec] at hfind
    rw [redeemLookup, bind_ok hsha, hc, if_neg Bool.false_ne_true]
    cases hs : env.fails .selectShare with
    | true =>
        rw [hs, if_pos rfl] at hfind
        exact bind_err hfind _
    | false =>
        rw [hs, if_neg Bool.false_ne_true] at hfind
        exact bind_ok hfind _
  · rw [redeemLookup, bind_err hsha, hc, if_pos rfl]

/-- The code is compared with its hash, and the request denied. -/
theorem WrongCode.denied (h : WrongCode app w.store req share) (env : RequestEnv) :
    redeemCode env app req share w =
      if env.fails .hashCandidateCode then (.err (.storage (.crypto (.cng .status))), w)
      else deny env app req (uuid "share_id" share.id) "bad_access_code" .invalidCredentials w := by
  rcases adapt_sha256_cases env.toEnv app.bcrypt StorageError.crypto .hashCandidateCode
    (encode req.accessCode) w.store with ⟨hc, -⟩ | ⟨hc, hsha⟩
  · have hverify : Shares.verifyAccessCode env.toEnv app.bcrypt share req.accessCode w.store =
        (.ok false, w.store) :=
      verifyAccessCode_ok_iff.mpr ⟨hc, by simpa using h.code, rfl⟩
    rw [redeemCode, bind_ok (onStore_ok hverify), hc]
    rfl
  · have hverify : Shares.verifyAccessCode env.toEnv app.bcrypt share req.accessCode w.store =
        (.err (.crypto (.cng .status)), w.store) := by
      rw [Shares.verifyAccessCode, bind_err hsha]
    rw [redeemCode, bind_err (onStore_err hverify), hc, if_pos rfl]

theorem deny_poisoned {α : Type} (target : Text × Json) (reason : String) (e : ServiceError)
    (hp : w.auditPoisoned = true) :
    (deny env app req target reason e : Exec World ServiceError α) w =
      (.err (.internal .mutexPoisoned), w) := by
  simp only [deny, withAudit, locked, auditMutex, hp, if_true]

theorem deny_run {α : Type} (D : app.serde.Documented) {target : Text × Json} {reason : String}
    (e : ServiceError) (hfree : w.auditPoisoned = false)
    (hplain : (eventOf env "share.redeem" .denied none req.ip req.userAgent [target]
      [text "reason" reason.toList]).Plain) {r : Audit.Result Unit} {log : Audit.Log} {file : Audit.File}
    (hw : w.log.write app.serde app.bcrypt env.auditFault w.file (eventOf env "share.redeem" .denied none
      req.ip req.userAgent [target] [text "reason" reason.toList]) = (r, log, file)) :
    (deny env app req target reason e : Exec World ServiceError α) w =
      (.err (env.auditFault.elim e fun step => .audit step.error), { w with log, file }) := by
  have hr := Audit.write_result (B := app.bcrypt) D env.auditFault w.log w.file hplain
  rw [hw] at hr
  cases hf : env.auditFault with
  | none =>
      obtain rfl : r = .ok () := by simpa [hf] using hr
      have hwrite : writeEvent env app "share.redeem" .denied none req.ip req.userAgent [target]
          [text "reason" reason.toList] w = (.ok (), { w with log, file }) := by
        simp only [writeEvent, hw]
      simp only [deny, withAudit, locked, auditMutex, hfree, bind_ok hwrite, throw_apply, Bool.false_eq_true,
        if_false, Option.elim]
  | some step =>
      obtain rfl : r = .error step.error := by simpa [hf] using hr
      have hwrite : writeEvent env app "share.redeem" .denied none req.ip req.userAgent [target]
          [text "reason" reason.toList] w = (.err (.audit step.error), { w with log, file }) := by
        simp only [writeEvent, hw]
      simp only [deny, withAudit, locked, auditMutex, hfree, bind_err hwrite, Bool.false_eq_true, if_false,
        Option.elim]

theorem redeemShare_of_lookup {e : ServiceError} {w' : World} (hfree : w.storePoisoned = false)
    (hlook : redeemLookup env app req w = (.err e, w')) : redeemShare env app req w = (.err e, w') := by
  apply blocking_of_run hfree
  · rw [redeemBody, bind_err hlook]
  · simp

theorem redeemShare_of_code {e : ServiceError} {w' : World} (hfree : w.storePoisoned = false)
    (hlook : redeemLookup env app req w = (.ok share, w))
    (hcode : redeemCode env app req share w = (.err e, w')) : redeemShare env app req w = (.err e, w') := by
  apply blocking_of_run hfree
  · rw [redeemBody, bind_ok hlook, bind_err hcode]
  · simp

/-- Neither the store nor the share has a say in the answer. -/
theorem WrongCode.answer (D : app.serde.Documented) (h : WrongCode app w.store req share) :
    (redeemShare env app req w).1 = guessAnswer env w.storePoisoned w.auditPoisoned := by
  unfold guessAnswer
  split_ifs with hp hh hs hc ha
  · rw [redeemShare, withStore_poisoned _ hp]
  · have hlook := h.lookup env
    rw [if_pos hh] at hlook
    rw [redeemShare_of_lookup (Bool.not_eq_true _ ▸ hp) hlook]
  · have hlook := h.lookup env
    rw [if_neg hh, if_pos hs] at hlook
    rw [redeemShare_of_lookup (Bool.not_eq_true _ ▸ hp) hlook]
  all_goals
    have hlook := h.lookup env
    have hcode := h.denied env
    rw [if_neg hh, if_neg hs] at hlook
  · rw [if_pos hc] at hcode
    rw [redeemShare_of_code (Bool.not_eq_true _ ▸ hp) hlook hcode]
  · rw [if_neg hc, deny_poisoned _ _ _ ha] at hcode
    rw [redeemShare_of_code (Bool.not_eq_true _ ▸ hp) hlook hcode]
  · rcases hw : w.log.write app.serde app.bcrypt env.auditFault w.file (guessEvent env req share.id) with
      ⟨r, log, file⟩
    rw [if_neg hc, deny_run D _ (Bool.not_eq_true _ ▸ ha) (guessEvent_plain env req share.id) hw] at hcode
    rw [redeemShare_of_code (Bool.not_eq_true _ ▸ hp) hlook hcode]

/-- A guess that is served adds its event to the log, and nothing else. -/
theorem WrongCode.served (D : app.serde.Documented) (h : WrongCode app w.store req share)
    (hs : ServesGuess env w) {r : Audit.Result Unit} {log : Audit.Log} {file : Audit.File}
    (hw : w.log.write app.serde app.bcrypt env.auditFault w.file (guessEvent env req share.id) =
      (r, log, file)) :
    redeemShare env app req w = (.err .invalidCredentials, { w with log, file }) := by
  obtain ⟨⟨hfree, haudit⟩, ⟨⟨hh, hsel⟩, hc⟩, hf⟩ := hs
  have hlook := h.lookup env
  have hcode := h.denied env
  rw [hh, hsel] at hlook
  rw [hc, if_neg Bool.false_ne_true, deny_run D _ haudit (guessEvent_plain env req share.id) hw, hf] at hcode
  exact redeemShare_of_code hfree hlook hcode

theorem WrongCode.takes_nothing (h : WrongCode app w.store req share) (r : ShareRow) (share' : Share) :
    ¬ Takes env app w.store req r share' := by
  intro ht
  obtain ⟨row, hrow, hdec⟩ := h.row
  have hrow' := rowToShare_ok hdec
  have htoken : row.tokenHash = r.tokenHash := by
    rw [← hrow'.2.2.2.1, h.token, ht.token]
  obtain rfl := share_of_token hrow ht.row htoken
  apply h.code
  exact Subtype.ext (ht.code.symm.trans hrow'.2.2.2.2.symm)

theorem WrongCode.sameStore (h : WrongCode app w.store req share) :
    (redeemShare env app req w).2.store = w.store := by
  rcases redeemShare_cases env app req w with ⟨-, r, share', ht, -⟩ | ⟨-, hsame, -⟩
  · exact absurd ht (h.takes_nothing r share')
  · exact hsame

theorem recordOf_payload {e ev : Audit.Event} (h : e.payload = ev.payload) : recordOf e = recordOf ev := by
  rw [recordOf, h, recordOf]

theorem WrongCode.refused (D : app.serde.Documented) (h : WrongCode app w.store req share)
    (hs : ServesGuess env w) :
    ∃ e, Refused env app req w e ∧ recordOf e = recordOf (guessEvent env req share.id) := by
  have hplain := guessEvent_plain env req share.id
  rcases hw : w.log.write app.serde app.bcrypt env.auditFault w.file (guessEvent env req share.id) with
    ⟨r, log, file⟩
  have hr := Audit.write_result (B := app.bcrypt) D env.auditFault w.log w.file hplain
  rw [hw, hs.append] at hr
  obtain rfl : r = .ok () := hr
  have hrun := h.served D hs hw
  rcases Audit.write_cases hw with ⟨hne, -⟩ | ⟨e, -, hne, -⟩ | ⟨e, line, hseal, hline, -, hfile, -⟩
  · exact absurd rfl hne
  · exact absurd rfl hne
  · have hpayload := Audit.sealAfter_payload hseal
    refine ⟨e, ⟨by rw [hrun], ?_, ⟨line, hline, by rw [hrun, hfile]⟩, ?_⟩, recordOf_payload hpayload⟩
    · rw [(Audit.sealAfter_some hseal).1]
      exact ⟨rfl, rfl⟩
    · intro es hes
      rw [hrun, hfile]
      exact hes.append D (Audit.sealAfter_plain hseal hplain) hline

/-- The URL token alone. Whatever the store is, a guessed code changes nothing in it; it is
answered and recorded like a guess at any other state of the same share. -/
theorem redeemShare_guess (D : app.serde.Documented) (h : WrongCode app w.store req share) :
    (redeemShare env app req w).2.store = w.store ∧
    (ServesGuess env w → ∃ e, Refused env app req w e ∧
      ∀ (env' : RequestEnv) (w' : World) (share' : Share), WrongCode app w'.store req share' →
        share'.id = share.id → ServesGuess env' w' →
          ∃ e', Refused env' app req w' e' ∧ recordOf e' = recordOf e) ∧
    ∀ (w' : World) (share' : Share), WrongCode app w'.store req share' →
      w'.storePoisoned = w.storePoisoned → w'.auditPoisoned = w.auditPoisoned →
        (redeemShare env app req w').1 = (redeemShare env app req w).1 := by
  refine ⟨h.sameStore, ?_, ?_⟩
  · intro hs
    obtain ⟨e, he, hrec⟩ := h.refused D hs
    refine ⟨e, he, ?_⟩
    intro env' w' share' h' hid hs'
    obtain ⟨e', he', hrec'⟩ := h'.refused D hs'
    refine ⟨e', he', ?_⟩
    rw [hrec', hrec, hid]
    rfl
  · intro w' share' h' hstore haudit
    rw [h'.answer D, h.answer D, hstore, haudit]

end

def sampleGuess : RedeemRequest := { sampleBearer with accessCode := "222-222-222-222-223".toList }

def revokedWorld : World :=
  (revokeShare quietEnv sampleApp (quietEnv.newId .share) sampleUpload.createdBy [] [] sharedWorld).2

def guessedRow (r : ShareRow) : Bool :=
  match rowToShare r with
  | .ok share => share.id = quietEnv.newId .share &&
      share.tokenHash = secretHash sampleApp sampleGuess.token &&
      secretHash sampleApp sampleGuess.accessCode ≠ share.accessCodeHash
  | .error _ => false

theorem wrongCode_of_rows {s : Store} (h : s.db.shares.rows.any (guessedRow) = true) :
    ∃ share, share.id = quietEnv.newId .share ∧ WrongCode sampleApp s sampleGuess share := by
  obtain ⟨r, hr, hrow⟩ := List.any_eq_true.mp h
  unfold guessedRow at hrow
  cases hdec : rowToShare r with
  | error e =>
      rw [hdec] at hrow
      cases hrow
  | ok share =>
      rw [hdec] at hrow
      simp only [Bool.and_eq_true, decide_eq_true_eq] at hrow
      obtain ⟨⟨hid, htoken⟩, hcode⟩ := hrow
      exact ⟨share, hid, ⟨r, hr, hdec⟩, htoken, hcode⟩

theorem redeemShare_guess_sample :
    (redeemShare quietEnv sampleApp sampleGuess sharedWorld).2.store = sharedWorld.store ∧
      ∃ e, Refused quietEnv sampleApp sampleGuess sharedWorld e ∧
        ∃ e', Refused quietEnv sampleApp sampleGuess revokedWorld e' ∧ recordOf e' = recordOf e := by
  obtain ⟨share, hid, h⟩ := wrongCode_of_rows (s := sharedWorld.store) (by decide +kernel)
  obtain ⟨share', hid', h'⟩ := wrongCode_of_rows (s := revokedWorld.store) (by decide +kernel)
  have hs : ServesGuess quietEnv sharedWorld := ⟨by decide +kernel, ⟨⟨rfl, rfl⟩, rfl⟩, rfl⟩
  have hs' : ServesGuess quietEnv revokedWorld := ⟨by decide +kernel, ⟨⟨rfl, rfl⟩, rfl⟩, rfl⟩
  obtain ⟨hstore, hrefused, -⟩ := redeemShare_guess Audit.SerdeJson.reference_documented h
  obtain ⟨e, he, htwo⟩ := hrefused hs
  exact ⟨hstore, e, he, htwo quietEnv revokedWorld share' h' (hid'.trans hid.symm) hs'⟩

end FipsDropbox.Service
