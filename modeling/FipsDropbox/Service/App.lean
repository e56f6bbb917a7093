import FipsDropbox.Audit.Log
import FipsDropbox.Storage.Accounts
import FipsDropbox.Storage.Prints
import FipsDropbox.Storage.Shares

/-!
# crates/service

The operations of `App`. Each runs in one blocking task under the store mutex,
takes the audit mutex for its last step, and turns a panic into an error of its
caller; `list_audit_events` takes the audit mutex alone. So an operation is one
step of the world, and an interleaving is a sequence of them.
-/
namespace FipsDropbox.Service
open Utf8 Exec Crypto Storage

/-- The two sources of an `Internal` text: `poisoned`, and the `JoinError` of a task
that panicked. -/
inductive InternalError where
  | mutexPoisoned
  | taskPanicked
  deriving DecidableEq

inductive ServiceError where
  | storage (e : StorageError)
  | crypto (e : CryptoError)
  | audit (e : Audit.AuditError)
  | invalidCredentials
  | notFound
  | shareUnavailable
  | internal (e : InternalError)

/-- What is handed to the senders; whether they succeed has no effect here. -/
inductive Notice where
  | email (recipient subject bodyText bodyHtml : Text)
  | sms (recipient body : Text)

/-- The fields of `App` that stay as they are after startup. -/
structure App where
  bcrypt : Bcrypt
  serde : Audit.SerdeJson
  kek : Octets 32
  publicBaseUrl : Text

structure World where
  store : Store
  log : Audit.Log
  file : Audit.File
  storePoisoned : Bool
  auditPoisoned : Bool
  notices : List Notice

/-- The host of one request, and the step at which its audit write fails, if any. -/
structure RequestEnv extends Env where
  auditFault : Option Audit.WriteStep
  readLogFails : Bool

structure LoginRequest where
  email : Text
  password : Text
  ip : Text
  userAgent : Text

structure NewShareRequest where
  printFilename : Text
  printBytes : Bytes
  vendorEmail : Text
  vendorPhone : Option Text
  vendorDisplayName : Text
  expiresInHours : UInt32
  maxDownloads : UInt32
  note : Option Text
  cuiAttested : Bool
  createdBy : Uuid
  ip : Text
  userAgent : Text

structure ShareCreated where
  shareId : Uuid
  shareUrl : Text
  accessCode : Text
  vendorEmail : Text
  vendorPhone : Option Text
  deriving DecidableEq

structure RedeemRequest where
  token : Text
  accessCode : Text
  ip : Text
  userAgent : Text

structure RedeemResponse where
  filename : Text
  content : Bytes
  sha256 : Octets 32

structure AuditView where
  events : List Audit.Event
  verification : Audit.ChainVerification
  totalOnDisk : ℕ

def storeMutex : Lock World := ⟨World.storePoisoned, fun w => { w with storePoisoned := true }⟩

def auditMutex : Lock World := ⟨World.auditPoisoned, fun w => { w with auditPoisoned := true }⟩

def withStore {α : Type} (m : Exec World ServiceError α) : Exec World ServiceError α :=
  locked storeMutex (.internal .mutexPoisoned) m

def withAudit {α : Type} (m : Exec World ServiceError α) : Exec World ServiceError α :=
  locked auditMutex (.internal .mutexPoisoned) m

def spawnBlocking {α : Type} (m : Exec World ServiceError α) : Exec World ServiceError α :=
  task (.internal .taskPanicked) m

/-- A storage function on the connection and the blob directory. -/
def onStore {α : Type} (m : Exec Store StorageError α) : Exec World ServiceError α :=
  adapt ServiceError.storage (zoom World.store (fun store w => { w with store }) m)

/-! ## Internal helpers -/

/-- `short_token`; a cut inside a character panics. -/
def shortToken (t : Text) : Option Text :=
  if 6 < (encode t).length then (sliceTo t 6).map (· ++ ['…']) else some t

/-- `json!` members. -/
def text (k : String) (v : Text) : Text × Json := (k.toList, .string v)
def uuid (k : String) (id : Uuid) : Text × Json := (k.toList, .string id.text)
def number (k : String) (n : UInt64) : Text × Json := (k.toList, .number (.posInt n))
def flag (k : String) (b : Bool) : Text × Json := (k.toList, .bool b)

/-- The event of `write_event`. -/
def eventOf (env : RequestEnv) (name : String) (outcome : Audit.Outcome) (userId : Option Uuid)
    (ip ua : Text) (target meta_ : List (Text × Json)) : Audit.Event where
  ts := (env.now .event).time
  event := name.toList
  actor := { userId := userId.map Uuid.text, ip, ua }
  target := .object target
  outcome
  «meta» := .object meta_
  prevHash := []
  hash := []

section
variable (env : RequestEnv) (app : App)

def writeEvent (name : String) (outcome : Audit.Outcome) (userId : Option Uuid) (ip ua : Text)
    (target meta_ : List (Text × Json)) : Exec World ServiceError Unit := fun w =>
  let out := w.log.write app.serde app.bcrypt env.auditFault w.file
    (eventOf env name outcome userId ip ua target meta_)
  (match out.1 with
    | .ok () => .ok ()
    | .error e => .err (.audit e), { w with log := out.2.1, file := out.2.2 })

/-! ## Sessions -/

def login (req : LoginRequest) : Exec World ServiceError IssuedSession :=
  spawnBlocking <| withStore do
    let maybeUser ← onStore (Users.verifyPassword env.toEnv app.bcrypt req.email req.password)
    match maybeUser with
    | some user => do
        let issued ← onStore (Sessions.create env.toEnv app.bcrypt user.id req.ip req.userAgent
          Sessions.defaultTtlHours)
        withAudit do
          writeEvent env app "auth.login" .success (some user.id) req.ip req.userAgent
            [uuid "user_id" user.id] []
          pure issued
    | none => withAudit do
        writeEvent env app "auth.login" .denied none req.ip req.userAgent [text "email" req.email]
          [text "reason" "invalid credentials".toList]
        throw .invalidCredentials

def logout (rawToken ip ua : Text) : Exec World ServiceError Unit :=
  spawnBlocking <| withStore do
    let sess ← onStore (Sessions.findValid env.toEnv app.bcrypt rawToken)
    onStore (Sessions.revoke env.toEnv app.bcrypt rawToken)
    withAudit (writeEvent env app "auth.logout" .success (sess.map Session.userId) ip ua [] [])

/-- The user of a credential, unless disabled. -/
def activeUser {α : Type} (credential : α) (userId : Uuid) : Exec World ServiceError (Option (α × User)) := do
  let found ← onStore (Users.findById env.toEnv userId)
  match found with
  | none => pure none
  | some user => pure (if user.disabledAt.isSome then none else some (credential, user))

def findAuthenticated (rawToken : Text) : Exec World ServiceError (Option (Session × User)) :=
  spawnBlocking <| withStore do
    let found ← onStore (Sessions.findValid env.toEnv app.bcrypt rawToken)
    match found with
    | none => pure none
    | some sess => activeUser env sess sess.userId

/-! ## Shares -/

/-- `trim_end_matches('/')`. -/
def trimEndSlashes (t : Text) : Text := (t.reverse.dropWhile (· = '/')).reverse

def shareUrl (urlToken : Text) : Text := trimEndSlashes app.publicBaseUrl ++ "/r/".toList ++ urlToken

/-- What the blocking part of `create_share` hands on. -/
structure Created where
  share : Share
  secrets : ShareSecrets
  vendor : Vendor

def findOrCreateVendor (req : NewShareRequest) : Exec Store StorageError Vendor := do
  let found ← Vendors.findByEmail env.toEnv req.vendorEmail
  match found with
  | some v => pure v
  | none => Vendors.create env.toEnv req.vendorDisplayName req.vendorEmail req.vendorPhone req.createdBy

/-- `OffsetDateTime::now_utc() + Duration::hours(..)`. -/
def expiryOf (req : NewShareRequest) : Option OffsetDateTime :=
  (env.now .shareExpiry).time.add (req.expiresInHours.toNat * Sessions.nanosPerHour)

def storeShare (req : NewShareRequest) : Exec World ServiceError Created :=
  spawnBlocking <| withStore do
    let vendor ← onStore (findOrCreateVendor env req)
    let print ← onStore (PrintStore.insert env.toEnv app.bcrypt app.kek req.printFilename req.printBytes
      req.createdBy req.cuiAttested)
    let expiresAt ← orPanic (expiryOf env req)
    let made ← onStore (Shares.create env.toEnv app.bcrypt print.id vendor.id expiresAt req.maxDownloads
      req.note req.createdBy)
    withAudit do
      writeEvent env app "share.created" .success (some req.createdBy) req.ip req.userAgent
        [uuid "share_id" made.1.id, uuid "print_id" print.id, uuid "vendor_id" vendor.id]
        [text "filename" req.printFilename, number "size_bytes" (UInt64.ofNat req.printBytes.length),
          number "max_downloads" req.maxDownloads.toUInt64,
          number "expires_in_hours" req.expiresInHours.toUInt64, flag "note_present" req.note.isSome]
      pure ⟨made.1, made.2, vendor⟩

/-- The notifications of a new share: the link by e-mail, the code by SMS. -/
def noticesOf (req : NewShareRequest) (c : Created) : List Notice :=
  let body := "Open: ".toList ++ shareUrl app c.secrets.urlToken ++
    "\n\nYour access code was sent to your phone separately.\n".toList
  .email c.vendor.primaryEmail "A secure file has been shared with you".toList body body ::
    (match c.vendor.primaryPhone with
      | none => []
      | some phone =>
          [.sms phone ("Secure share access code: ".toList ++ c.secrets.accessCode ++
            " (expires in ".toList ++ Json.decimal req.expiresInHours.toNat ++ "h)".toList)])

def createShare (req : NewShareRequest) : Exec World ServiceError ShareCreated := do
  let c ← storeShare env app req
  modify fun w => { w with notices := w.notices ++ noticesOf app req c }
  pure {
    shareId := c.share.id
    shareUrl := shareUrl app c.secrets.urlToken
    accessCode := c.secrets.accessCode
    vendorEmail := c.vendor.primaryEmail
    vendorPhone := c.vendor.primaryPhone }

/-- A refused redemption, audited. -/
def deny {α : Type} (req : RedeemRequest) (target : Text × Json) (reason : String) (e : ServiceError) :
    Exec World ServiceError α :=
  withAudit do
    writeEvent env app "share.redeem" .denied none req.ip req.userAgent [target]
      [text "reason" reason.toList]
    throw e

def denyUnknown {α : Type} (req : RedeemRequest) : Exec World ServiceError α :=
  withAudit do
    let short ← orPanic (shortToken req.token)
    writeEvent env app "share.redeem" .denied none req.ip req.userAgent [text "token_prefix" short]
      [text "reason" "unknown_token".toList]
    throw .notFound

/-- `redeem_share` up to the share of the token. -/
def redeemLookup (req : RedeemRequest) : Exec World ServiceError Share := do
  let tokenHash ← adapt ServiceError.crypto
    (Hash.sha256 env.toEnv app.bcrypt .hashRedeemToken (encode req.token))
  let found ← onStore (Shares.findByTokenHash env.toEnv tokenHash)
  match found with
  | some share => pure share
  | none => denyUnknown env app req

def redeemCode (req : RedeemRequest) (share : Share) : Exec World ServiceError Unit := do
  let ok ← onStore (Shares.verifyAccessCode env.toEnv app.bcrypt share req.accessCode)
  if ok then pure ()
  else deny env app req (uuid "share_id" share.id) "bad_access_code" .invalidCredentials

def redeemConsume (req : RedeemRequest) (share : Share) : Exec World ServiceError Unit := do
  let ok ← onStore (Shares.tryConsumeDownload env.toEnv share.id)
  if ok then pure ()
  else deny env app req (uuid "share_id" share.id) "unavailable" .shareUnavailable

/-- The rest of `redeem_share`, after its slot is consumed. -/
def redeemDeliver (req : RedeemRequest) (share : Share) : Exec World ServiceError RedeemResponse := do
  let found ← onStore (PrintStore.find env.toEnv .selectPrint share.printId)
  let print ← orErr .notFound found
  let content ← onStore (PrintStore.readBlob env.toEnv app.bcrypt app.kek share.printId)
  withAudit do
    writeEvent env app "share.redeem" .success none req.ip req.userAgent
      [uuid "share_id" share.id, uuid "print_id" print.id, uuid "vendor_id" share.vendorId]
      [text "filename" print.filename, number "size_bytes" print.sizeBytes]
    pure { filename := print.filename, content, sha256 := print.sha256Plaintext }

def redeemBody (req : RedeemRequest) : Exec World ServiceError RedeemResponse := do
  let share ← redeemLookup env app req
  redeemCode env app req share
  redeemConsume env app req share
  redeemDeliver env app req share

def redeemShare (req : RedeemRequest) : Exec World ServiceError RedeemResponse :=
  spawnBlocking (withStore (redeemBody env app req))

def listRecentShares (limit : UInt32) : Exec World ServiceError (List ShareListItem) :=
  spawnBlocking <| withStore <| onStore (Shares.listRecent env.toEnv limit)

def revokeShare (shareId byUser : Uuid) (ip ua : Text) : Exec World ServiceError Unit :=
  spawnBlocking <| withStore do
    onStore (Shares.revoke env.toEnv shareId)
    withAudit (writeEvent env app "share.revoked" .success (some byUser) ip ua [uuid "share_id" shareId] [])

/-! ## Audit log -/

/-- The newest `limit` events of a prefix, newest first. -/
def pageOf (eventPrefix : Option Text) (limit : ℕ) (all : List Audit.Event) : List Audit.Event :=
  let filtered := match eventPrefix with
    | some p => if p.isEmpty then all else all.filter fun e => p.isPrefixOf e.event
    | none => all
  (filtered.drop (filtered.length - limit)).reverse

def listAuditEvents (eventPrefix : Option Text) (limit : ℕ) : Exec World ServiceError AuditView :=
  spawnBlocking <| withAudit do
    failIf env.readLogFails (.audit .io)
    let contents ← read fun w => Audit.readAll app.serde w.file
    let all ← lift ServiceError.audit contents
    let verification ← lift ServiceError.audit (Audit.verifyChain app.serde app.bcrypt all)
    pure ⟨pageOf eventPrefix limit all, verification, all.length⟩

/-! ## API tokens -/

def mintApiToken (byUser : Uuid) (label ip ua : Text) : Exec World ServiceError IssuedApiToken :=
  spawnBlocking <| withStore do
    let issued ← onStore (ApiTokens.create env.toEnv app.bcrypt byUser label)
    withAudit do
      writeEvent env app "api_token.created" .success (some byUser) ip ua
        [uuid "token_id" issued.token.id] [text "label" label]
      pure issued

def listApiTokens (userId : Uuid) : Exec World ServiceError (List ApiToken) :=
  spawnBlocking <| withStore <| onStore (ApiTokens.listForUser env.toEnv userId)

def revokeApiToken (tokenId byUser : Uuid) (ip ua : Text) : Exec World ServiceError Unit :=
  spawnBlocking <| withStore do
    onStore (ApiTokens.revoke env.toEnv tokenId)
    withAudit (writeEvent env app "api_token.revoked" .success (some byUser) ip ua
      [uuid "token_id" tokenId] [])

def verifyApiToken (rawToken : Text) : Exec World ServiceError (Option (ApiToken × User)) :=
  spawnBlocking <| withStore do
    let found ← onStore (ApiTokens.findValidByRaw env.toEnv app.bcrypt rawToken)
    match found with
    | none => pure none
    | some token => activeUser env token token.userId

end

/-- What both lookups of a credential do: find it, then its user. -/
def bearerUser {α : Type} (env : RequestEnv) (look : Exec Store StorageError (Option α)) (userOf : α → Uuid) :
    Exec World ServiceError (Option (α × User)) :=
  spawnBlocking <| withStore do
    let found ← onStore look
    match found with
    | none => pure none
    | some credential => activeUser env credential (userOf credential)

theorem findAuthenticated_eq (env : RequestEnv) (app : App) (rawToken : Text) : findAuthenticated env app rawToken =
    bearerUser env (Sessions.findValid env.toEnv app.bcrypt rawToken) Session.userId := by
  rw [findAuthenticated, bearerUser]
  congr 3
  funext found
  cases found <;> rfl

theorem verifyApiToken_eq (env : RequestEnv) (app : App) (rawToken : Text) : verifyApiToken env app rawToken =
    bearerUser env (ApiTokens.findValidByRaw env.toEnv app.bcrypt rawToken) ApiToken.userId := by
  rw [verifyApiToken, bearerUser]
  congr 3
  funext found
  cases found <;> rfl

inductive Request where
  | login (req : LoginRequest)
  | logout (rawToken ip ua : Text)
  | findAuthenticated (rawToken : Text)
  | createShare (req : NewShareRequest)
  | redeemShare (req : RedeemRequest)
  | listAuditEvents (eventPrefix : Option Text) (limit : ℕ)
  | mintApiToken (byUser : Uuid) (label ip ua : Text)
  | listApiTokens (userId : Uuid)
  | revokeApiToken (tokenId byUser : Uuid) (ip ua : Text)
  | verifyApiToken (rawToken : Text)
  | listRecentShares (limit : UInt32)
  | revokeShare (shareId byUser : Uuid) (ip ua : Text)

inductive Reply where
  | session (s : IssuedSession)
  | done
  | authenticated (a : Option (Session × User))
  | created (c : ShareCreated)
  | redeemed (r : RedeemResponse)
  | auditView (v : AuditView)
  | minted (t : IssuedApiToken)
  | tokens (ts : List ApiToken)
  | verified (a : Option (ApiToken × User))
  | shares (ss : List ShareListItem)

def replying {α : Type} (f : α → Reply) (m : Exec World ServiceError α) : Exec World ServiceError Reply :=
  m >>= fun a => pure (f a)

/-- One operation of the service. -/
def handle (env : RequestEnv) (app : App) : Request → Exec World ServiceError Reply
  | .login req => replying .session (login env app req)
  | .logout rawToken ip ua => replying (fun _ => .done) (logout env app rawToken ip ua)
  | .findAuthenticated rawToken => replying .authenticated (findAuthenticated env app rawToken)
  | .createShare req => replying .created (createShare env app req)
  | .redeemShare req => replying .redeemed (redeemShare env app req)
  | .listAuditEvents p limit => replying .auditView (listAuditEvents env app p limit)
  | .mintApiToken u label ip ua => replying .minted (mintApiToken env app u label ip ua)
  | .listApiTokens u => replying .tokens (listApiTokens env u)
  | .revokeApiToken t u ip ua => replying (fun _ => .done) (revokeApiToken env app t u ip ua)
  | .verifyApiToken rawToken => replying .verified (verifyApiToken env app rawToken)
  | .listRecentShares limit => replying .shares (listRecentShares env limit)
  | .revokeShare s u ip ua => replying (fun _ => .done) (revokeShare env app s u ip ua)

/-- Requests one after the other, each with its own host. -/
def serve (app : App) : World → List (RequestEnv × Request) → World
  | w, [] => w
  | w, (env, req) :: rest => serve app (handle env app req w).2 rest

/-- A host on which nothing fails. -/
def quietEnv : RequestEnv where
  now _ := .unixEpoch
  random _ n := some ⟨List.replicate n 0, List.length_replicate⟩
  newId kind := ⟨List.replicate 15 0 ++ [match kind with
    | .user => 0
    | .vendor => 1
    | .print => 2
    | .share => 3
    | .apiToken => 4], rfl⟩
  fails _ := false
  partialWrite := none
  auditFault := none
  readLogFails := false

/-- Another host, with identifiers and random bytes of its own. -/
def otherEnv : RequestEnv :=
  { quietEnv with
    random := fun _ n => some ⟨List.replicate n 1, List.length_replicate⟩
    newId := fun kind => ⟨1 :: (quietEnv.newId kind).val.tail, by cases kind <;> rfl⟩ }

def sampleApp : App where
  bcrypt := .reference
  serde := .reference
  kek := ⟨List.replicate 32 7, rfl⟩
  publicBaseUrl := "https://share.example.com/".toList

def freshWorld : World where
  store := .fresh
  log := ⟨Audit.genesisHash⟩
  file := none
  storePoisoned := false
  auditPoisoned := false
  notices := []

end FipsDropbox.Service
