import FipsDropbox.Service.App

/-!
# What the operations do to the store

A relation between stores that the storage functions of an operation respect is
respected by the operation, whatever becomes of it.
-/
namespace FipsDropbox.Service
open Utf8 Exec Crypto Storage

/-- A relation between stores, of the stores of two worlds. -/
def OnStore (R : Store → Store → Prop) (w w' : World) : Prop := R w.store w'.store

theorem onStore_frame {R : Store → Store → Prop} (F : Frame R) : Frame (OnStore R) where
  refl w := F.refl w.store
  trans h h' := F.trans h h'

section
variable {env : RequestEnv} {app : App} {α : Type} {R : Store → Store → Prop}

theorem moves_onStore {m : Exec Store StorageError α} (h : Moves R m) : Moves (OnStore R) (onStore m) :=
  moves_adapt (moves_zoom h fun _ _ hs => hs)

variable (F : Frame R)
include F

theorem moves_withAudit {m : Exec World ServiceError α} (h : Moves (OnStore R) m) :
    Moves (OnStore R) (withAudit m) := (onStore_frame F).locked h fun w => F.refl w.store

theorem moves_blocking {m : Exec World ServiceError α} (h : Moves (OnStore R) m) :
    Moves (OnStore R) (spawnBlocking (withStore m)) :=
  moves_task ((onStore_frame F).locked h fun w => F.refl w.store)

theorem moves_replying {m : Exec World ServiceError α} {f : α → Reply} (h : Moves (OnStore R) m) :
    Moves (OnStore R) (replying f m) := (onStore_frame F).bind h fun _ => (onStore_frame F).pure _

theorem moves_writeEvent (name : String) (outcome : Audit.Outcome) (userId : Option Uuid) (ip ua : Text)
    (target meta_ : List (Text × Json)) :
    Moves (OnStore R) (writeEvent env app name outcome userId ip ua target meta_) := fun w => F.refl w.store

/-- Write an event and end. -/
theorem moves_audited {name : String} {outcome : Audit.Outcome} {userId : Option Uuid} {ip ua : Text}
    {target meta_ : List (Text × Json)} {k : Exec World ServiceError α} (hk : Moves (OnStore R) k) :
    Moves (OnStore R)
      (withAudit (writeEvent env app name outcome userId ip ua target meta_ >>= fun _ => k)) :=
  moves_withAudit F ((onStore_frame F).bind (moves_writeEvent F _ _ _ _ _ _ _) fun _ => hk)

theorem moves_activeUser (credential : α) (userId : Uuid) :
    Moves (OnStore R) (activeUser env credential userId) := by
  apply (onStore_frame F).bind (moves_onStore (moves_queryRow F _ _ _))
  intro found
  cases found <;> exact (onStore_frame F).pure _

theorem moves_bearerUser {look : Exec Store StorageError (Option α)} (hlook : Moves R look) (userOf : α → Uuid) :
    Moves (OnStore R) (bearerUser env look userOf) := by
  apply moves_blocking F ((onStore_frame F).bind (moves_onStore hlook) _)
  intro found
  cases found with
  | none => exact (onStore_frame F).pure none
  | some credential => exact moves_activeUser F credential _

theorem moves_deny (req : RedeemRequest) (target : Text × Json) (reason : String) (e : ServiceError) :
    Moves (OnStore R) (deny env app req target reason e : Exec World ServiceError α) :=
  moves_audited F ((onStore_frame F).throw e)

theorem moves_redeemLookup (req : RedeemRequest) : Moves (OnStore R) (redeemLookup env app req) := by
  have FW := onStore_frame F
  refine FW.bind (moves_adapt (moves_sha256 FW _ _)) fun tokenHash =>
    FW.bind (moves_onStore (moves_findByTokenHash F _)) fun found => ?_
  cases found with
  | some share => exact FW.pure share
  | none =>
      exact moves_withAudit F (FW.bind (FW.orPanic _) fun _ =>
        FW.bind (moves_writeEvent F _ _ _ _ _ _ _) fun _ => FW.throw _)

theorem moves_redeemCode (req : RedeemRequest) (share : Share) :
    Moves (OnStore R) (redeemCode env app req share) := by
  refine (onStore_frame F).bind (moves_onStore (moves_verifyAccessCode F _ _)) fun ok => ?_
  cases ok with
  | true => exact (onStore_frame F).pure ()
  | false => exact moves_deny F _ _ _ _

theorem moves_redeemConsume (req : RedeemRequest) (share : Share)
    (h : ∀ (s : Store) now, R s { s with db := s.db.afterConsume share.id.val now }) :
    Moves (OnStore R) (redeemConsume env app req share) := by
  refine (onStore_frame F).bind (moves_onStore (moves_tryConsumeDownload F _ h)) fun ok => ?_
  cases ok with
  | true => exact (onStore_frame F).pure ()
  | false => exact moves_deny F _ _ _ _

theorem moves_redeemDeliver (req : RedeemRequest) (share : Share) :
    Moves (OnStore R) (redeemDeliver env app req share) := by
  have FW := onStore_frame F
  exact FW.bind (moves_onStore (PrintStore.moves_find F _ _)) fun _ => FW.bind (FW.orErr _ _) fun _ =>
    FW.bind (moves_onStore (PrintStore.moves_readBlob F _)) fun _ => moves_audited F (FW.pure _)

theorem moves_redeemShare (env : RequestEnv) (app : App) (req : RedeemRequest)
    (h : ∀ (s : Store) id now, R s { s with db := s.db.afterConsume id now }) :
    Moves (OnStore R) (redeemShare env app req) := by
  have FW := onStore_frame F
  exact moves_blocking F (FW.bind (moves_redeemLookup F req) fun share =>
    FW.bind (moves_redeemCode F req share) fun _ =>
    FW.bind (moves_redeemConsume F req share fun s now => h s _ now) fun _ => moves_redeemDeliver F req share)

theorem moves_findOrCreateVendor (req : NewShareRequest)
    (hvendor : ∀ (s : Store) row vendors, s.db.vendors.insert row = some vendors →
      R s { s with db := { s.db with vendors } }) : Moves R (findOrCreateVendor env req) := by
  apply F.bind (moves_queryRow F _ _ _)
  intro found
  cases found with
  | some v => exact F.pure v
  | none => exact moves_createVendor F hvendor _ _ _ _

theorem moves_createShare (req : NewShareRequest)
    (hvendor : ∀ (s : Store) row vendors, s.db.vendors.insert row = some vendors →
      R s { s with db := { s.db with vendors } })
    (hblob : ∀ s content, R s (s.setBlob (blobPathOf (env.newId .print)) content))
    (hprint : ∀ (s : Store) row prints, row.id = (env.newId .print).val →
      s.db.prints.insert row = some prints → R s { s with db := { s.db with prints } })
    (hshare : ∀ (s : Store) row shares, row.id = (env.newId .share).val →
      s.db.shares.insert row = some shares → R s { s with db := { s.db with shares } }) :
    Moves (OnStore R) (createShare env app req) := by
  have FW := onStore_frame F
  refine FW.bind (moves_blocking F (FW.bind (moves_onStore (moves_findOrCreateVendor F req hvendor)) fun _ =>
    FW.bind (moves_onStore (PrintStore.moves_insert F hblob ?_ _ _ _ _)) fun _ =>
    FW.bind (FW.orPanic _) fun _ => FW.bind (moves_onStore (Storage.moves_createShare F ?_)) fun _ =>
    moves_audited F (FW.pure _))) fun _ => FW.bind (moves_modify fun w => F.refl w.store) fun _ => FW.pure _
  · intro s row prints hid _ hins
    exact hprint s row prints hid hins
  · intro s row shares hid _ hins
    exact hshare s row shares hid hins

end

theorem replying_state {α : Type} (f : α → Reply) (m : Exec World ServiceError α) (w : World) :
    (replying f m w).2 = (m w).2 := map_state f m w

theorem replying_of_ok {α : Type} {f : α → Reply} {m : Exec World ServiceError α} {w : World} {a : α}
    (h : (m w).1 = .ok a) : (replying f m w).1 = .ok (f a) := by
  rw [replying, bind_ok (Prod.ext h rfl : m w = (.ok a, _))]
  rfl

theorem serve_append (app : App) (w : World) (xs ys : List (RequestEnv × Request)) :
    serve app w (xs ++ ys) = serve app (serve app w xs) ys := by
  induction xs generalizing w with
  | nil => rfl
  | cons x xs ih => exact ih _

/-- The operations on sessions and tokens, and those that only read. -/
theorem handle_credentialsOnly (env : RequestEnv) (app : App) (req : Request)
    (hc : ∀ r, req ≠ .createShare r) (hr : ∀ r, req ≠ .redeemShare r)
    (hv : ∀ s u ip ua, req ≠ .revokeShare s u ip ua) : Moves (OnStore CredentialsOnly) (handle env app req) := by
  have F := credentialsOnly_frame
  have FW := onStore_frame F
  cases req with
  | createShare r => exact absurd rfl (hc r)
  | redeemShare r => exact absurd rfl (hr r)
  | revokeShare s u ip ua => exact absurd rfl (hv s u ip ua)
  | login req =>
      apply moves_replying F (moves_blocking F (FW.bind (moves_onStore (moves_verifyPassword F _ _)) _))
      intro maybeUser
      cases maybeUser with
      | none => exact moves_audited F (FW.throw _)
      | some user =>
          exact FW.bind (moves_onStore (createSession_credentialsOnly _ _ _ _)) fun _ => moves_audited F (FW.pure _)
  | logout rawToken ip ua =>
      exact moves_replying F (moves_blocking F (FW.bind (moves_onStore (findValidSession_credentialsOnly _)) fun _ =>
        FW.bind (moves_onStore (revokeSession_credentialsOnly _)) fun _ =>
        moves_withAudit F (moves_writeEvent F _ _ _ _ _ _ _)))
  | findAuthenticated rawToken =>
      rw [handle, findAuthenticated_eq]
      exact moves_replying F (moves_bearerUser F (findValidSession_credentialsOnly _) _)
  | listAuditEvents p limit =>
      exact moves_replying F (moves_task (moves_withAudit F (FW.bind (FW.failIf _ _) fun _ =>
        FW.bind (FW.read _) fun _ => FW.bind (FW.lift _ _) fun _ => FW.bind (FW.lift _ _) fun _ => FW.pure _)))
  | mintApiToken u label ip ua =>
      exact moves_replying F (moves_blocking F (FW.bind (moves_onStore (createApiToken_credentialsOnly _ _)) fun _ =>
        moves_audited F (FW.pure _)))
  | listApiTokens u => exact moves_replying F (moves_blocking F (moves_onStore (moves_queryMap F _ _ _)))
  | revokeApiToken t u ip ua =>
      exact moves_replying F (moves_blocking F (FW.bind (moves_onStore (revokeApiToken_credentialsOnly _)) fun _ =>
        moves_withAudit F (moves_writeEvent F _ _ _ _ _ _ _)))
  | verifyApiToken rawToken =>
      rw [handle, verifyApiToken_eq]
      exact moves_replying F (moves_bearerUser F (findValidByRaw_credentialsOnly _) _)
  | listRecentShares limit => exact moves_replying F (moves_blocking F (moves_onStore (moves_queryMap F _ _ _)))

theorem handle_sameFiles (env : RequestEnv) (app : App) (req : Request)
    (hc : ∀ r, req ≠ .createShare r) (hr : ∀ r, req ≠ .redeemShare r)
    (hv : ∀ s u ip ua, req ≠ .revokeShare s u ip ua) : Moves (OnStore SameFiles) (handle env app req) :=
  (handle_credentialsOnly env app req hc hr hv).mono fun _ _ h => h.sameFiles

end FipsDropbox.Service
