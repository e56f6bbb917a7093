import FipsDropbox.Service.Redeem

/-!
# Panics and poisoned mutexes

An operation that finds both mutexes free leaves them free unless it panics. The
one panic an unauthenticated request can cause is the cut of an unknown token at
its sixth byte.
-/
namespace FipsDropbox.Service
open Utf8 Exec Crypto Storage

structure Free (w : World) : Prop where
  store : w.storePoisoned = false
  audit : w.auditPoisoned = false

/-- The errors of the program's own making. -/
def NotInternal : ServiceError → Prop
  | .internal _ => False
  | _ => True

section
variable {env : RequestEnv} {app : App} {α : Type}

theorem safe_onStore (m : Exec Store StorageError α) : Safe Free NotInternal (onStore m) :=
  safe_zoom m (fun _ _ h => ⟨h.store, h.audit⟩) fun _ => trivial

/-- An event changes the log and its file only, and fails with the audit's errors. -/
theorem safe_append {I : World → Prop} {P : ServiceError → Prop}
    (hkeep : ∀ w log file, I w → I { w with log := log, file := file }) (herr : ∀ e, P (.audit e))
    (name : String) (outcome : Audit.Outcome) (userId : Option Uuid) (ip ua : Text)
    (target meta_ : List (Text × Json)) :
    Safe I P (writeEvent env app name outcome userId ip ua target meta_) := by
  intro w hw
  unfold writeEvent
  dsimp only
  rcases (w.log.write app.serde app.bcrypt env.auditFault w.file
    (eventOf env name outcome userId ip ua target meta_)).1 with e | u
  · refine ⟨?_, fun _ => hkeep w _ _ hw⟩
    intro e' h
    cases h
    exact herr e
  · exact ⟨by simp, fun _ => hkeep w _ _ hw⟩

theorem safe_withAudit {m : Exec World ServiceError α} (hm : Safe Free NotInternal m) :
    Safe Free NotInternal (withAudit m) := safe_locked (fun _ h => h.audit) hm

theorem safe_writeEvent (name : String) (outcome : Audit.Outcome) (userId : Option Uuid) (ip ua : Text)
    (target meta_ : List (Text × Json)) :
    Safe Free NotInternal (writeEvent env app name outcome userId ip ua target meta_) :=
  safe_append (fun _ _ _ h => ⟨h.store, h.audit⟩) (fun _ => trivial) _ _ _ _ _ _ _

theorem safe_audited {name : String} {outcome : Audit.Outcome} {userId : Option Uuid} {ip ua : Text}
    {target meta_ : List (Text × Json)} {k : Exec World ServiceError α} (hk : Safe Free NotInternal k) :
    Safe Free NotInternal
      (withAudit (writeEvent env app name outcome userId ip ua target meta_ >>= fun _ => k)) :=
  safe_withAudit (safe_bind (safe_writeEvent _ _ _ _ _ _ _) fun _ => hk)

/-- What the store mutex and the task make of a body that respects both mutexes. -/
theorem blocking_cases {m : Exec World ServiceError α} (hm : Safe Free NotInternal m) {w : World}
    (hw : Free w) :
    ((m w).1 = .panic ∧ (spawnBlocking (withStore m) w).1 = .err (.internal .taskPanicked) ∧
      (spawnBlocking (withStore m) w).2.storePoisoned = true) ∨
    ((m w).1 ≠ .panic ∧ spawnBlocking (withStore m) w = m w ∧ Free (m w).2 ∧
      ∀ i, (m w).1 ≠ .err (.internal i)) := by
  obtain ⟨herr, hkeep⟩ := hm w hw
  rcases h : m w with ⟨a | e | _, t⟩ <;> rw [h] at herr hkeep <;>
    simp only [spawnBlocking, task, withStore, locked, storeMutex, hw.store, h, Bool.false_eq_true, if_false]
  · exact .inr ⟨by simp, trivial, hkeep (by simp), by simp⟩
  · refine .inr ⟨by simp, trivial, hkeep (by simp), ?_⟩
    intro i hi
    cases hi
    exact herr _ rfl
  · exact .inl ⟨trivial, trivial, trivial⟩

theorem safe_activeUser {β : Type} (credential : β) (userId : Uuid) :
    Safe Free NotInternal (activeUser env credential userId) := by
  apply safe_bind (safe_onStore _)
  intro found
  cases found <;> exact safe_pure _

theorem safe_denyUnknown (req : RedeemRequest) :
    Safe Free NotInternal (denyUnknown env app req : Exec World ServiceError α) :=
  safe_withAudit (safe_bind (safe_orPanic _) fun _ => safe_bind (safe_writeEvent _ _ _ _ _ _ _) fun _ =>
    safe_throw trivial)

theorem safe_deny (req : RedeemRequest) (target : Text × Json) (reason : String) {e : ServiceError}
    (he : NotInternal e) :
    Safe Free NotInternal (deny env app req target reason e : Exec World ServiceError α) :=
  safe_audited (safe_throw he)

theorem safe_redeemLookup (req : RedeemRequest) : Safe Free NotInternal (redeemLookup env app req) := by
  apply safe_bind (safe_adapt (moves_sha256 stays_frame _ _) fun _ => trivial)
  intro tokenHash
  apply safe_bind (safe_onStore _)
  intro found
  cases found with
  | some share => exact safe_pure share
  | none => exact safe_denyUnknown req

theorem safe_redeemCode (req : RedeemRequest) (share : Share) :
    Safe Free NotInternal (redeemCode env app req share) := by
  apply safe_bind (safe_onStore _)
  intro ok
  cases ok with
  | true => exact safe_pure ()
  | false => exact safe_deny _ _ _ trivial

theorem safe_redeemConsume (req : RedeemRequest) (share : Share) :
    Safe Free NotInternal (redeemConsume env app req share) := by
  apply safe_bind (safe_onStore _)
  intro ok
  cases ok with
  | true => exact safe_pure ()
  | false => exact safe_deny _ _ _ trivial

theorem safe_redeemDeliver (req : RedeemRequest) (share : Share) :
    Safe Free NotInternal (redeemDeliver env app req share) :=
  safe_bind (safe_onStore _) fun _ => safe_bind (safe_orErr trivial _) fun _ =>
  safe_bind (safe_onStore _) fun _ => safe_audited (safe_pure _)

theorem safe_redeemBody (env : RequestEnv) (app : App) (req : RedeemRequest) :
    Safe Free NotInternal (redeemBody env app req) :=
  safe_bind (safe_redeemLookup req) fun share => safe_bind (safe_redeemCode req share) fun _ =>
  safe_bind (safe_redeemConsume req share) fun _ => safe_redeemDeliver req share

end

/-- The result is not that of a poisoned mutex. -/
def Served {α : Type} (o : Outcome ServiceError α) : Prop := o ≠ .err (.internal .mutexPoisoned)

/-- A call reports no poisoned mutex, and both are free after it unless it reports a
panic. -/
structure Orderly {α : Type} (r : Outcome ServiceError α × World) : Prop where
  served : Served r.1
  free : r.1 ≠ .err (.internal .taskPanicked) → Free r.2

theorem orderly_ok {α : Type} {a : α} {w : World} (hw : Free w) :
    Orderly ((.ok a, w) : Outcome ServiceError α × World) := ⟨by simp [Served], fun _ => hw⟩

theorem orderly_bind {α β : Type} {m : Exec World ServiceError α} {k : α → Exec World ServiceError β} {w : World}
    (h : Orderly (m w)) (hk : ∀ a t, Free t → Orderly (k a t)) : Orderly ((m >>= k) w) := by
  rcases hm : m w with ⟨a | e | _, t⟩ <;> rw [hm] at h
  · rw [bind_ok hm]
    exact hk a t (h.free (by simp))
  · rw [bind_err hm]
    constructor
    · intro he
      cases he
      exact h.served rfl
    · intro hne
      apply h.free
      intro he
      cases he
      exact hne rfl
  · rw [bind_panic hm]
    exact ⟨by simp [Served], fun _ => h.free (by simp)⟩

theorem orderly_task {α : Type} {m : Exec World ServiceError α} (hm : Safe Free NotInternal m) {w : World}
    (hw : Free w) : Orderly (spawnBlocking m w) := by
  obtain ⟨herr, hkeep⟩ := hm w hw
  rcases h : m w with ⟨a | e | _, t⟩ <;> rw [h] at herr hkeep <;> simp only [spawnBlocking, task, h]
  · exact orderly_ok (hkeep (by simp))
  · refine ⟨?_, fun _ => hkeep (by simp)⟩
    intro he
    cases he
    exact herr _ rfl
  · exact ⟨by simp [Served], fun hne => absurd rfl hne⟩

theorem orderly_blocking {α : Type} {m : Exec World ServiceError α} (hm : Safe Free NotInternal m) {w : World}
    (hw : Free w) : Orderly (spawnBlocking (withStore m) w) :=
  orderly_task (safe_locked (fun _ h => h.store) hm) hw

theorem orderly_replying {α : Type} {m : Exec World ServiceError α} {f : α → Reply} {w : World}
    (h : Orderly (m w)) : Orderly (replying f m w) := orderly_bind h fun _ _ ht => orderly_ok ht

theorem orderly_createShare (env : RequestEnv) (app : App) (req : NewShareRequest) {w : World} (hw : Free w) :
    Orderly (createShare env app req w) := by
  refine orderly_bind (orderly_blocking (safe_bind (safe_onStore _) fun _ => safe_bind (safe_onStore _) fun _ =>
    safe_bind (safe_orPanic _) fun _ => safe_bind (safe_onStore _) fun _ => safe_audited (safe_pure _)) hw) ?_
  intro c t ht
  exact orderly_ok ⟨ht.store, ht.audit⟩

theorem orderly_bearerUser {α : Type} (env : RequestEnv) (look : Exec Store StorageError (Option α))
    (userOf : α → Uuid) {w : World} (hw : Free w) : Orderly (bearerUser env look userOf w) := by
  apply orderly_blocking _ hw
  apply safe_bind (safe_onStore _)
  intro found
  cases found with
  | none => exact safe_pure none
  | some credential => exact safe_activeUser _ _

theorem handle_orderly (env : RequestEnv) (app : App) (req : Request) {w : World} (hw : Free w) :
    Orderly (handle env app req w) := by
  cases req with
  | login req =>
      apply orderly_replying (orderly_blocking _ hw)
      apply safe_bind (safe_onStore _)
      intro maybeUser
      cases maybeUser with
      | none => exact safe_audited (safe_throw trivial)
      | some user => exact safe_bind (safe_onStore _) fun _ => safe_audited (safe_pure _)
  | logout rawToken ip ua =>
      exact orderly_replying (orderly_blocking (safe_bind (safe_onStore _) fun _ =>
        safe_bind (safe_onStore _) fun _ =>
        safe_withAudit (safe_writeEvent _ _ _ _ _ _ _)) hw)
  | findAuthenticated rawToken =>
      rw [handle, findAuthenticated_eq]
      exact orderly_replying (orderly_bearerUser env _ _ hw)
  | createShare req => exact orderly_replying (orderly_createShare env app req hw)
  | redeemShare req => exact orderly_replying (orderly_blocking (safe_redeemBody env app req) hw)
  | listAuditEvents p limit =>
      have hio : NotInternal (.audit .io) := trivial
      exact orderly_replying (orderly_task (safe_withAudit (safe_bind (safe_failIf _ hio) fun _ =>
        safe_bind (safe_read _) fun _ => safe_bind (safe_lift (fun _ => trivial) _) fun _ =>
        safe_bind (safe_lift (fun _ => trivial) _) fun _ => safe_pure _)) hw)
  | mintApiToken u label ip ua =>
      exact orderly_replying (orderly_blocking (safe_bind (safe_onStore _) fun _ =>
        safe_audited (safe_pure _)) hw)
  | listApiTokens u => exact orderly_replying (orderly_blocking (safe_onStore _) hw)
  | revokeApiToken t u ip ua =>
      exact orderly_replying (orderly_blocking (safe_bind (safe_onStore _) fun _ =>
        safe_withAudit (safe_writeEvent _ _ _ _ _ _ _)) hw)
  | verifyApiToken rawToken =>
      rw [handle, verifyApiToken_eq]
      exact orderly_replying (orderly_bearerUser env _ _ hw)
  | listRecentShares limit => exact orderly_replying (orderly_blocking (safe_onStore _) hw)
  | revokeShare s u ip ua =>
      exact orderly_replying (orderly_blocking (safe_bind (safe_onStore _) fun _ =>
        safe_withAudit (safe_writeEvent _ _ _ _ _ _ _)) hw)

/-- There is nothing to cut, or the sixth byte ends a character. -/
def Cuttable (token : Text) : Prop := (encode token).length ≤ 6 ∨ isCharBoundary token 6 = true

theorem shortToken_eq_none_iff (token : Text) : shortToken token = none ↔ ¬ Cuttable token := by
  unfold shortToken Cuttable isCharBoundary
  split_ifs with h
  · cases sliceTo token 6 <;> simp [h]
  · simp [Nat.le_of_not_lt h]

/-- A request whose lookup fails, finds a share, or leaves a token that can be cut. -/
def Harmless (app : App) (s : Store) (env : RequestEnv) (req : RedeemRequest) : Prop :=
  LooksUp env → TokenKnown app s req.token ∨ Cuttable req.token

def unknownTokenEvent (env : RequestEnv) (req : RedeemRequest) (short : Text) : Audit.Event :=
  eventOf env "share.redeem" .denied none req.ip req.userAgent [text "token_prefix" short]
    [text "reason" "unknown_token".toList]

section
variable {env : RequestEnv} {app : App}

theorem denyUnknown_panics {α : Type} {req : RedeemRequest} {w : World} (hw : Free w)
    (h : shortToken req.token = none) :
    (denyUnknown env app req w : Outcome ServiceError α × World) =
      (.panic, { w with auditPoisoned := true }) := by
  have hp : (orPanic (shortToken req.token) : Exec World ServiceError Text) w = (.panic, w) := by
    rw [h]
    rfl
  simp only [denyUnknown, withAudit, locked, auditMutex, hw.audit, bind_panic hp, Bool.false_eq_true, if_false]

theorem denyUnknown_writes (env : RequestEnv) (app : App) (α : Type) {req : RedeemRequest} {w : World}
    (hw : Free w) {short : Text} (h : shortToken req.token = some short) :
    (denyUnknown env app req w : Outcome ServiceError α × World) =
      match w.log.write app.serde app.bcrypt env.auditFault w.file (unknownTokenEvent env req short) with
      | (.ok (), log, file) => (.err .notFound, { w with log, file })
      | (.error e, log, file) => (.err (.audit e), { w with log, file }) := by
  have hs : (orPanic (shortToken req.token) : Exec World ServiceError Text) w = (.ok short, w) := by
    rw [h]
    rfl
  rcases hout : w.log.write app.serde app.bcrypt env.auditFault w.file (unknownTokenEvent env req short) with
    ⟨e | u, log, file⟩
  · have hwrite : writeEvent env app "share.redeem" .denied none req.ip req.userAgent
        [text "token_prefix" short] [text "reason" "unknown_token".toList] w =
          (.err (.audit e), { w with log, file }) := by
      unfold unknownTokenEvent at hout
      simp only [writeEvent, hout]
    simp only [denyUnknown, withAudit, locked, auditMutex, hw.audit, bind_ok hs, bind_err hwrite,
      Bool.false_eq_true, if_false]
  · have hwrite : writeEvent env app "share.redeem" .denied none req.ip req.userAgent
        [text "token_prefix" short] [text "reason" "unknown_token".toList] w =
          (.ok (), { w with log, file }) := by
      unfold unknownTokenEvent at hout
      simp only [writeEvent, hout]
    simp only [denyUnknown, withAudit, locked, auditMutex, hw.audit, bind_ok hs, bind_ok hwrite, throw_apply,
      Bool.false_eq_true, if_false]

theorem calm_onStore {α : Type} {m : Exec Store StorageError α} (h : Calm m) : Calm (onStore m) :=
  calm_adapt (calm_zoom h)

theorem calm_writeEvent (name : String) (outcome : Audit.Outcome) (userId : Option Uuid) (ip ua : Text)
    (target meta_ : List (Text × Json)) :
    Calm (writeEvent env app name outcome userId ip ua target meta_) := by
  intro w
  unfold writeEvent
  dsimp only
  cases (w.log.write app.serde app.bcrypt env.auditFault w.file
    (eventOf env name outcome userId ip ua target meta_)).1 <;> simp

theorem calm_deny {α : Type} (req : RedeemRequest) (target : Text × Json) (reason : String) (e : ServiceError) :
    Calm (deny env app req target reason e : Exec World ServiceError α) :=
  calm_locked (calm_bind (calm_writeEvent _ _ _ _ _ _ _) fun _ => calm_throw e)

theorem calm_redeemRest (env : RequestEnv) (app : App) (req : RedeemRequest) (share : Share) :
    Calm (redeemCode env app req share >>= fun _ => redeemConsume env app req share >>= fun _ =>
      redeemDeliver env app req share) := by
  have hcode : Calm (redeemCode env app req share) := by
    apply calm_bind (calm_onStore (calm_verifyAccessCode _ _))
    intro ok
    cases ok with
    | true => exact calm_pure ()
    | false => exact calm_deny _ _ _ _
  have hconsume : Calm (redeemConsume env app req share) := by
    apply calm_bind (calm_onStore (calm_tryConsumeDownload _))
    intro ok
    cases ok with
    | true => exact calm_pure ()
    | false => exact calm_deny _ _ _ _
  exact calm_bind hcode fun _ => calm_bind hconsume fun _ =>
    calm_bind (calm_onStore (calm_queryRow _ _ _)) fun _ => calm_bind (calm_orErr _ _) fun _ =>
    calm_bind (calm_onStore (PrintStore.calm_readBlob _)) fun _ =>
    calm_locked (calm_bind (calm_writeEvent _ _ _ _ _ _ _) fun _ => calm_pure _)

/-- Exactly the unknown token that cannot be cut makes a redemption panic. -/
theorem redeemBody_panics_iff (req : RedeemRequest) {w : World} (hw : Free w) :
    (redeemBody env app req w).1 = .panic ↔ ¬ Harmless app w.store env req := by
  rcases redeemLookup_cases env app req w with
    ⟨hl, hu, hlook⟩ | ⟨share, r, hl, hr, hhash, -, hlook⟩ | ⟨e, hlook, hk⟩
  · have hharm : Harmless app w.store env req ↔ Cuttable req.token :=
      ⟨fun h => (h hl).resolve_left hu, fun h _ => .inr h⟩
    rw [hharm, ← shortToken_eq_none_iff]
    cases hs : shortToken req.token with
    | none =>
        rw [redeemBody, bind_panic (hlook.trans (denyUnknown_panics hw hs))]
        simp
    | some short =>
        have hwrites := denyUnknown_writes env app Share hw hs
        rcases hout : w.log.write app.serde app.bcrypt env.auditFault w.file
            (unknownTokenEvent env req short) with
          ⟨e | u, log, file⟩ <;> rw [hout] at hwrites <;> rw [redeemBody, bind_err (hlook.trans hwrites)] <;>
          simp
  · have hrest := calm_redeemRest env app req share w
    rw [redeemBody, bind_ok hlook]
    exact ⟨fun h => absurd h hrest, fun h => absurd (fun _ => .inl ⟨r, hr, hhash⟩) h⟩
  · rw [redeemBody, bind_err hlook]
    exact ⟨by simp, fun h => absurd (fun hl => .inl (hk hl)) h⟩

end

section
variable {env : RequestEnv} {app : App}

theorem redeemBody_unknown {req : RedeemRequest} {w : World} (hw : Free w) (hl : LooksUp env)
    (hu : ¬ TokenKnown app w.store req.token) {short : Text} (hs : shortToken req.token = some short)
    {log : Audit.Log} {file : Audit.File}
    (hout : w.log.write app.serde app.bcrypt env.auditFault w.file (unknownTokenEvent env req short) =
      (.ok (), log, file)) : redeemBody env app req w = (.err .notFound, { w with log, file }) := by
  have hwrites := denyUnknown_writes env app Share hw hs
  rw [hout] at hwrites
  rcases redeemLookup_cases env app req w with
    ⟨-, -, hlook⟩ | ⟨share, r, -, hr, hhash, -⟩ | ⟨e, -, hk⟩
  · rw [redeemBody, bind_err (hlook.trans hwrites)]
  · exact absurd ⟨r, hr, hhash⟩ hu
  · exact absurd (hk hl) hu

theorem written_line {fault : Option Audit.WriteStep} {log log' : Audit.Log} {file file' : Audit.File}
    {ev : Audit.Event} (h : log.write app.serde app.bcrypt fault file ev = (.ok (), log', file')) :
    ∃ e line, Audit.sealAfter app.serde app.bcrypt log.prevHash ev = some e ∧
      app.serde.toString e = some line ∧ file' = some (file.getD [] ++ encode (line ++ ['\n'])) := by
  rcases Audit.write_cases h with ⟨hne, -⟩ | ⟨e, -, hne, -⟩ | ⟨e, line, hs, hl, -, hf, -⟩
  · exact absurd rfl hne
  · exact absurd rfl hne
  · exact ⟨e, line, hs, hl, hf⟩

end

/-- One request is dealt with: it runs to completion, an unknown token is denied and
audited, and the service goes on serving. -/
structure HandledStep (app : App) (env : RequestEnv) (req : RedeemRequest) (w : World) : Prop where
  completes : (redeemShare env app req w).1 ≠ .err (.internal .taskPanicked)
  denied : LooksUp env → ¬ TokenKnown app w.store req.token → ∃ short, shortToken req.token = some short ∧
    ∀ log file, w.log.write app.serde app.bcrypt env.auditFault w.file (unknownTokenEvent env req short) =
        (.ok (), log, file) →
      redeemShare env app req w = (.err .notFound, { w with log, file }) ∧
      ∃ e line, Audit.sealAfter app.serde app.bcrypt w.log.prevHash (unknownTokenEvent env req short) = some e ∧
        app.serde.toString e = some line ∧ file = some (w.file.getD [] ++ encode (line ++ ['\n']))
  free : Free (redeemShare env app req w).2
  serves : ∀ env' later, Served (handle env' app later (redeemShare env app req w).2).1

def Handled (app : App) : World → List (RequestEnv × RedeemRequest) → Prop
  | _, [] => True
  | w, (env, req) :: rs => HandledStep app env req w ∧ Handled app (redeemShare env app req w).2 rs

section
variable {env : RequestEnv} {app : App}

theorem handledStep_iff (req : RedeemRequest) {w : World} (hw : Free w) :
    HandledStep app env req w ↔ Harmless app w.store env req := by
  have hbody := blocking_cases (safe_redeemBody env app req) hw
  constructor
  · intro h
    by_contra hharm
    have hpanic := (redeemBody_panics_iff req hw).mpr hharm
    rcases hbody with ⟨-, herr, -⟩ | ⟨hne, -⟩
    · exact h.completes herr
    · exact hne hpanic
  · intro hharm
    have hne : (redeemBody env app req w).1 ≠ .panic :=
      fun hp => (redeemBody_panics_iff req hw).mp hp hharm
    rcases hbody with ⟨hp, -⟩ | ⟨-, hrun, hfree, hint⟩
    · exact absurd hp hne
    · refine ⟨?_, ?_, ?_, ?_⟩
      · rw [redeemShare, hrun]
        exact hint _
      · intro hl hu
        have hcut : Cuttable req.token := (hharm hl).resolve_left hu
        obtain ⟨short, hshort⟩ : ∃ short, shortToken req.token = some short := by
          cases hs : shortToken req.token with
          | none => exact absurd hcut ((shortToken_eq_none_iff _).mp hs)
          | some short => exact ⟨short, rfl⟩
        refine ⟨short, hshort, ?_⟩
        intro log file hout
        rw [redeemShare, hrun]
        exact ⟨redeemBody_unknown hw hl hu hshort hout, written_line hout⟩
      · rw [redeemShare, hrun]
        exact hfree
      · intro env' later
        rw [redeemShare, hrun]
        exact (handle_orderly env' app later hfree).served

/-- Redemptions leave the tokens of the store as they are. -/
theorem harmless_redeemShare (env : RequestEnv) (req : RedeemRequest) (w : World) (env' : RequestEnv)
    (req' : RedeemRequest) : Harmless app (redeemShare env app req w).2.store env' req' ↔
      Harmless app w.store env' req' := by
  have hframe : Frame fun s t : Store =>
      t.db.shares.rows.map ShareRow.tokenHash = s.db.shares.rows.map ShareRow.tokenHash :=
    ⟨fun _ => rfl, fun h h' => h'.trans h⟩
  have hmap := moves_redeemShare hframe env app req
    (fun s _ _ => Table.map_update_key (ShareRow.consumed_keys ShareRow.tokenHash (by simp)) s.db.shares.rows) w
  have hknown : ∀ s : Store, TokenKnown app s req'.token ↔
      (secretHash app req'.token).val ∈ s.db.shares.rows.map ShareRow.tokenHash := by
    intro s
    rw [List.mem_map]
    rfl
  rw [Harmless, Harmless, hknown, hknown]
  exact hmap ▸ Iff.rfl

/-- A run of redemptions is dealt with exactly when each of them is harmless. -/
theorem redeemRun_handled_iff {w : World} (hw : Free w) (rs : List (RequestEnv × RedeemRequest)) :
    Handled app w rs ↔ ∀ r ∈ rs, Harmless app w.store r.1 r.2 := by
  induction rs generalizing w with
  | nil => simp [Handled]
  | cons r rs ih =>
      obtain ⟨env, req⟩ := r
      rw [Handled, List.forall_mem_cons, handledStep_iff req hw]
      constructor
      · rintro ⟨hfirst, hrest⟩
        refine ⟨hfirst, ?_⟩
        intro r hr
        have hfree := ((handledStep_iff req hw).mpr hfirst).free
        exact (harmless_redeemShare env req w r.1 r.2).mp ((ih hfree).mp hrest r hr)
      · rintro ⟨hfirst, hrest⟩
        refine ⟨hfirst, ?_⟩
        have hfree := ((handledStep_iff req hw).mpr hfirst).free
        refine (ih hfree).mpr ?_
        intro r hr
        exact (harmless_redeemShare env req w r.1 r.2).mpr (hrest r hr)

end

theorem withAudit_poisoned {α : Type} (m : Exec World ServiceError α) {w : World} (h : w.auditPoisoned = true) :
    spawnBlocking (withAudit m) w = (.err (.internal .mutexPoisoned), w) := by
  simp only [spawnBlocking, task, withAudit, locked, auditMutex, h, if_true]

theorem replying_err {α : Type} {m : Exec World ServiceError α} {f : α → Reply} {w : World} {e : ServiceError}
    (h : m w = (.err e, w)) : replying f m w = (.err e, w) := by
  rw [replying, bind_err h]

/-- Once both mutexes are poisoned every operation fails, for good. -/
theorem handle_poisoned (env : RequestEnv) (app : App) (req : Request) {w : World}
    (hs : w.storePoisoned = true) (ha : w.auditPoisoned = true) :
    handle env app req w = (.err (.internal .mutexPoisoned), w) := by
  cases req with
  | createShare req =>
      have h : storeShare env app req w = (.err (.internal .mutexPoisoned), w) := withStore_poisoned _ hs
      exact replying_err (by rw [createShare, bind_err h])
  | listAuditEvents p limit => exact replying_err (withAudit_poisoned _ ha)
  | login | logout | findAuthenticated | redeemShare | mintApiToken | listApiTokens | revokeApiToken
  | verifyApiToken | listRecentShares | revokeShare => exact replying_err (withStore_poisoned _ hs)

/-- A token that no share has and that cannot be cut poisons both mutexes. -/
theorem redeemShare_of_harmful {env : RequestEnv} {app : App} {req : RedeemRequest} {w : World} (hw : Free w)
    (h : ¬ Harmless app w.store env req) :
    redeemShare env app req w =
      (.err (.internal .taskPanicked), { w with storePoisoned := true, auditPoisoned := true }) := by
  obtain ⟨hl, hor⟩ := Classical.not_imp.mp h
  obtain ⟨hu, hcut⟩ := not_or.mp hor
  have hshort := (shortToken_eq_none_iff req.token).mpr hcut
  rcases redeemLookup_cases env app req w with
    ⟨-, -, hlook⟩ | ⟨share, r, -, hr, hhash, -⟩ | ⟨e, -, hk⟩
  · have hbody : redeemBody env app req w = (.panic, { w with auditPoisoned := true }) := by
      rw [redeemBody, bind_panic (hlook.trans (denyUnknown_panics hw hshort))]
    simp only [redeemShare, spawnBlocking, task, withStore, locked, storeMutex, hw.store, hbody,
      Bool.false_eq_true, if_false]
  · exact absurd ⟨r, hr, hhash⟩ hu
  · exact absurd (hk hl) hu

def uncuttableRequest : RedeemRequest where
  token := "aaaaaé".toList
  accessCode := []
  ip := "203.0.113.9".toList
  userAgent := []

theorem uncuttable_not_harmless : ¬ Harmless sampleApp freshWorld.store quietEnv uncuttableRequest := by
  intro h
  rcases h ⟨rfl, rfl⟩ with ⟨r, hr, -⟩ | hcut
  · cases hr
  · rcases hcut with hcut | hcut
    · exact absurd hcut (by decide)
    · exact absurd hcut (by decide)

theorem redeemRun_handled_sample :
    Handled sampleApp freshWorld [(quietEnv, { uncuttableRequest with token := "unknown-token".toList })] ↔
      ∀ r ∈ [(quietEnv, { uncuttableRequest with token := "unknown-token".toList })],
        Harmless sampleApp freshWorld.store r.1 r.2 :=
  redeemRun_handled_iff ⟨rfl, rfl⟩ _

/-- One unauthenticated request for such a token, and every later call of every
operation reports a poisoned mutex. -/
theorem uncuttable_token_outage :
    Free freshWorld ∧
    (redeemShare quietEnv sampleApp uncuttableRequest freshWorld).1 = .err (.internal .taskPanicked) ∧
    ¬ Handled sampleApp freshWorld [(quietEnv, uncuttableRequest)] ∧
    ∀ env later,
      (handle env sampleApp later (redeemShare quietEnv sampleApp uncuttableRequest freshWorld).2).1 =
        .err (.internal .mutexPoisoned) := by
  have hfree : Free freshWorld := ⟨rfl, rfl⟩
  have hrun := redeemShare_of_harmful hfree uncuttable_not_harmless
  refine ⟨hfree, by rw [hrun], ?_, ?_⟩
  · rintro ⟨hstep, -⟩
    exact hstep.completes (by rw [hrun])
  · intro env later
    rw [hrun, handle_poisoned env sampleApp later rfl rfl]

end FipsDropbox.Service
