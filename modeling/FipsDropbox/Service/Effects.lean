import FipsDropbox.Audit.Runs
import FipsDropbox.Service.Creation

/-!
# What an operation can do

An operation changes the world by a few kinds of steps only: it works on the store,
writes one plain event, hands notices to the senders, or leaves a mutex poisoned.
-/
namespace FipsDropbox.Service
open Utf8 Exec Crypto Storage

/-- One step of an operation on the host of its request. -/
inductive Effect (env : RequestEnv) (app : App) (w : World) : World → Prop
  | store (store : Store) : Effect env app w { w with store }
  | event (ev : Audit.Event) (hplain : ev.Plain) : Effect env app w
      { w with
        log := (w.log.write app.serde app.bcrypt env.auditFault w.file ev).2.1
        file := (w.log.write app.serde app.bcrypt env.auditFault w.file ev).2.2 }
  | notices (sent : List Notice) : Effect env app w { w with notices := w.notices ++ sent }
  | storePanic : Effect env app w { w with storePoisoned := true }
  | auditPanic : Effect env app w { w with auditPoisoned := true }

/-- Some steps, one after the other. -/
abbrev Effects (env : RequestEnv) (app : App) : World → World → Prop := Relation.ReflTransGen (Effect env app)

section
variable {env : RequestEnv} {app : App} {α : Type}

theorem effects_frame : Frame (Effects env app) := steps_frame _

theorem effects_onStore (m : Exec Store StorageError α) : Moves (Effects env app) (onStore m) :=
  moves_adapt fun w => .single (.store (m w.store).2)

theorem effects_writeEvent {name : String} {outcome : Audit.Outcome} {userId : Option Uuid} {ip ua : Text}
    {target meta_ : List (Text × Json)} (hplain : (eventOf env name outcome userId ip ua target meta_).Plain) :
    Moves (Effects env app) (writeEvent env app name outcome userId ip ua target meta_) :=
  fun _ => .single (.event _ hplain)

theorem effects_withAudit {m : Exec World ServiceError α} (h : Moves (Effects env app) m) :
    Moves (Effects env app) (withAudit m) := effects_frame.locked h fun _ => .single .auditPanic

theorem effects_blocking {m : Exec World ServiceError α} (h : Moves (Effects env app) m) :
    Moves (Effects env app) (spawnBlocking (withStore m)) :=
  moves_task (effects_frame.locked h fun _ => .single .storePanic)

/-- Write a plain event and end. -/
theorem effects_audited {name : String} {outcome : Audit.Outcome} {userId : Option Uuid} {ip ua : Text}
    {target meta_ : List (Text × Json)} {k : Exec World ServiceError α}
    (hplain : (eventOf env name outcome userId ip ua target meta_).Plain) (hk : Moves (Effects env app) k) :
    Moves (Effects env app)
      (withAudit (writeEvent env app name outcome userId ip ua target meta_ >>= fun _ => k)) :=
  effects_withAudit (effects_frame.bind (effects_writeEvent hplain) fun _ => hk)

theorem effects_activeUser (credential : α) (userId : Uuid) :
    Moves (Effects env app) (activeUser env credential userId) := by
  apply effects_frame.bind (effects_onStore _)
  intro found
  cases found <;> exact effects_frame.pure _

theorem effects_bearerUser (look : Exec Store StorageError (Option α)) (userOf : α → Uuid) :
    Moves (Effects env app) (bearerUser env look userOf) := by
  apply effects_blocking (effects_frame.bind (effects_onStore _) _)
  intro found
  cases found with
  | none => exact effects_frame.pure none
  | some credential => exact effects_activeUser credential _

theorem effects_deny (req : RedeemRequest) (share : Share) (reason : String) (e : ServiceError) :
    Moves (Effects env app) (deny env app req (uuid "share_id" share.id) reason e : Exec World ServiceError α) := by
  refine effects_audited (eventOf_plain _ _ _ _ _ _ ?_ ?_) (effects_frame.throw e)
  · simp [uuid, Json.floatFree, Json.depth]
  · simp [text, Json.floatFree, Json.depth]

theorem effects_redeemLookup (req : RedeemRequest) : Moves (Effects env app) (redeemLookup env app req) := by
  apply effects_frame.bind (moves_adapt (moves_sha256 effects_frame _ _))
  intro tokenHash
  apply effects_frame.bind (effects_onStore _)
  intro found
  cases found with
  | some share => exact effects_frame.pure share
  | none =>
      refine effects_withAudit (effects_frame.bind (effects_frame.orPanic _) fun short =>
        effects_frame.bind (effects_writeEvent (eventOf_plain _ _ _ _ _ _ ?_ ?_)) fun _ => effects_frame.throw _)
      · simp [text, Json.floatFree, Json.depth]
      · simp [text, Json.floatFree, Json.depth]

theorem effects_redeemCode (req : RedeemRequest) (share : Share) :
    Moves (Effects env app) (redeemCode env app req share) := by
  apply effects_frame.bind (effects_onStore _)
  intro ok
  cases ok with
  | true => exact effects_frame.pure ()
  | false => exact effects_deny _ _ _ _

theorem effects_redeemConsume (req : RedeemRequest) (share : Share) :
    Moves (Effects env app) (redeemConsume env app req share) := by
  apply effects_frame.bind (effects_onStore _)
  intro ok
  cases ok with
  | true => exact effects_frame.pure ()
  | false => exact effects_deny _ _ _ _

theorem effects_redeemDeliver (req : RedeemRequest) (share : Share) :
    Moves (Effects env app) (redeemDeliver env app req share) :=
  effects_frame.bind (effects_onStore _) fun _ => effects_frame.bind (effects_frame.orErr _ _) fun print =>
  effects_frame.bind (effects_onStore _) fun _ =>
  effects_audited (deliveredEvent_plain env req share print) (effects_frame.pure _)

theorem effects_replying {m : Exec World ServiceError α} {f : α → Reply} (h : Moves (Effects env app) m) :
    Moves (Effects env app) (replying f m) := effects_frame.bind h fun _ => effects_frame.pure _

/-- The one traversal of the operations: each takes steps of these kinds only. -/
theorem handle_effects (env : RequestEnv) (app : App) (req : Request) :
    Moves (Effects env app) (handle env app req) := by
  have F : Frame (Effects env app) := effects_frame
  cases req with
  | login req =>
      refine effects_replying (effects_blocking (F.bind (effects_onStore _) fun maybeUser => ?_))
      cases maybeUser with
      | none =>
          refine effects_audited (eventOf_plain _ _ _ _ _ _ ?_ ?_) (F.throw _)
          · simp [text, Json.floatFree, Json.depth]
          · simp [text, Json.floatFree, Json.depth]
      | some user =>
          refine F.bind (effects_onStore _) fun _ => effects_audited (eventOf_plain _ _ _ _ _ _ ?_ ?_) (F.pure _)
          · simp [uuid, Json.floatFree, Json.depth]
          · simp
  | logout rawToken ip ua =>
      refine effects_replying (effects_blocking (F.bind (effects_onStore _) fun sess =>
        F.bind (effects_onStore _) fun _ => effects_withAudit (effects_writeEvent (eventOf_plain _ _ _ _ _ _ ?_ ?_))))
      · simp
      · simp
  | findAuthenticated rawToken =>
      rw [handle, findAuthenticated_eq]
      exact effects_replying (effects_bearerUser _ _)
  | createShare req =>
      refine effects_replying (F.bind (effects_blocking (F.bind (effects_onStore _) fun _ =>
        F.bind (effects_onStore _) fun _ => F.bind (F.orPanic _) fun _ => F.bind (effects_onStore _) fun _ =>
        effects_audited (createdEvent_plain env req _ _ _) (F.pure _))) fun _ => ?_)
      exact F.bind (moves_modify fun _ => .single (.notices _)) fun _ => F.pure _
  | redeemShare req =>
      exact effects_replying (effects_blocking (F.bind (effects_redeemLookup req) fun share =>
        F.bind (effects_redeemCode req share) fun _ => F.bind (effects_redeemConsume req share) fun _ =>
        effects_redeemDeliver req share))
  | listAuditEvents p limit =>
      exact effects_replying (moves_task (effects_withAudit (F.bind (F.failIf _ _) fun _ => F.bind (F.read _) fun _ =>
        F.bind (F.lift _ _) fun _ => F.bind (F.lift _ _) fun _ => F.pure _)))
  | mintApiToken u label ip ua =>
      refine effects_replying (effects_blocking (F.bind (effects_onStore _) fun issued =>
        effects_audited (eventOf_plain _ _ _ _ _ _ ?_ ?_) (F.pure _)))
      · simp [uuid, Json.floatFree, Json.depth]
      · simp [text, Json.floatFree, Json.depth]
  | listApiTokens u => exact effects_replying (effects_blocking (effects_onStore _))
  | revokeApiToken t u ip ua =>
      refine effects_replying (effects_blocking (F.bind (effects_onStore _) fun _ =>
        effects_withAudit (effects_writeEvent (eventOf_plain _ _ _ _ _ _ ?_ ?_))))
      · simp [uuid, Json.floatFree, Json.depth]
      · simp
  | verifyApiToken rawToken =>
      rw [handle, verifyApiToken_eq]
      exact effects_replying (effects_bearerUser _ _)
  | listRecentShares limit => exact effects_replying (effects_blocking (effects_onStore _))
  | revokeShare s u ip ua =>
      refine effects_replying (effects_blocking (F.bind (effects_onStore _) fun _ =>
        effects_withAudit (effects_writeEvent (eventOf_plain _ _ _ _ _ _ ?_ ?_))))
      · simp [uuid, Json.floatFree, Json.depth]
      · simp

end

/-- The log is that of its file, which holds a verified chain. -/
def InStep (app : App) (w : World) : Prop := ∃ es, Audit.Coherent app.serde app.bcrypt w.log w.file es

/-- The host loses no line of the log between head and file. -/
def RequestEnv.KeepsLines (env : RequestEnv) : Prop := ∀ step ∈ env.auditFault, step.losesLine = false

section
variable {env : RequestEnv} {app : App} {w w' : World}

theorem Effect.inStep (D : app.serde.Documented) (henv : env.KeepsLines) (h : Effect env app w w')
    (hw : InStep app w) : InStep app w' := by
  obtain ⟨es, hes⟩ := hw
  cases h with
  | store | notices | storePanic | auditPanic => exact ⟨es, hes⟩
  | event ev hplain =>
      rcases hes.write D hplain henv rfl with ⟨-, hsame⟩ | ⟨e, -, hnext⟩
      · exact ⟨es, hsame⟩
      · exact ⟨es ++ [e], hnext⟩

/-- The step lemma: no operation leaves the log out of step with its file. -/
theorem handle_inStep (D : app.serde.Documented) (henv : env.KeepsLines) (req : Request) (hw : InStep app w) :
    InStep app (handle env app req w).2 :=
  (handle_effects env app req).keeps (fun _ _ h hs => h.inStep D henv hs) hw

theorem serve_inStep (D : app.serde.Documented) {trace : List (RequestEnv × Request)}
    (henv : ∀ x ∈ trace, x.1.KeepsLines) (hw : InStep app w) : InStep app (serve app w trace) := by
  induction trace generalizing w with
  | nil => exact hw
  | cons x trace ih =>
      exact ih (fun y hy => henv y (List.mem_cons_of_mem x hy))
        (handle_inStep D (henv x List.mem_cons_self) x.2 hw)

end
end FipsDropbox.Service
