import FipsDropbox.Web.Auth

/-!
# crates/web: dashboard, audit log, shares and tokens

The handlers behind `CurrentUser` that are not uploads. Each gets the user that the
extractor found.
-/
namespace FipsDropbox.Web
open Utf8 Exec Crypto Storage Service

/-- `[year]`. -/
def formatYear (year : ℤ) : Text := (if year < 0 then ['-'] else []) ++ Rfc3339.digits 4 year.natAbs

def formatDt (dt : OffsetDateTime) : Text :=
  let date := Rfc3339.dateOf dt
  let clock := Rfc3339.clock dt
  formatYear date.year ++ '-' :: Rfc3339.digits 2 date.month ++ '-' :: Rfc3339.digits 2 date.day ++
    ' ' :: Rfc3339.digits 2 clock.hour ++ ':' :: Rfc3339.digits 2 clock.minute ++ " UTC".toList

/-- A cut inside a character panics. -/
def shortId (id : Text) : Option Text :=
  if 13 < (encode id).length then do
    let head ← sliceTo id 8
    let tail ← sliceFrom id ((encode id).length - 4)
    some (head ++ '…' :: tail)
  else some id

/-- The digits of `{:02X}`. -/
def upperHex (n : ℕ) : Text :=
  let ds := (Nat.digits 16 n).reverse.map fun d => Char.ofNat (if d < 10 then 48 + d else 55 + d)
  List.replicate (2 - ds.length) '0' ++ ds

def isUnreserved (c : Char) : Bool :=
  ('A' ≤ c && c ≤ 'Z') || ('a' ≤ c && c ≤ 'z') || ('0' ≤ c && c ≤ '9') ||
    c = '-' || c = '_' || c = '.' || c = '~'

def urlencode (s : Text) : Text := s.flatMap fun c => if isUnreserved c then [c] else '%' :: upperHex c.toNat

/-- `esc` of `csv_row`. -/
def csvField (s : Text) : Text :=
  if s.any fun c => c = ',' || c = Json.quote || c = '\n' || c = '\r' then
    Json.quote :: (s.flatMap fun c => if c = Json.quote then [c, c] else [c]) ++ [Json.quote]
  else s

section
variable (site : Site)

/-- `Value::to_string`. -/
def valueText (v : JsonValue) : Text := v.tree.print site.floatText

def shortTargetMeta (target meta_ : JsonValue) : Option Text :=
  let t := valueText site target
  let m := valueText site meta_
  let combined :=
    if t = "{}".toList && m = "{}".toList then []
    else if t = "{}".toList then m
    else if m = "{}".toList then t
    else t ++ ' ' :: m
  if 200 < (encode combined).length then (sliceTo combined 197).map (· ++ ['…']) else some combined

def auditRow (e : Audit.Event) : Option AuditRow := do
  let actorShort ← match e.actor.userId with
    | some id => shortId id
    | none => some "(anon)".toList
  let targetMetaShort ← shortTargetMeta site e.target e.meta
  some {
    ts := (Rfc3339.format e.ts).getD []
    event := e.event
    outcome := e.outcome.name
    actorShort
    actorIp := e.actor.ip
    targetMetaShort }

def csvHeader : Text := "ts,event,outcome,user_id,ip,ua,target,meta,prev_hash,hash\n".toList

def csvFields (e : Audit.Event) : List Text :=
  [(Rfc3339.format e.ts).getD [], e.event, e.outcome.name, e.actor.userId.getD [], e.actor.ip, e.actor.ua,
    valueText site e.target, valueText site e.meta, e.prevHash, e.hash]

def csvRow (e : Audit.Event) : Text := List.intercalate [','] ((csvFields site e).map csvField) ++ ['\n']

end

def csvName (now : OffsetDateTime) : Text :=
  let date := Rfc3339.dateOf now
  let clock := Rfc3339.clock now
  "fips-dropbox-audit-".toList ++ formatYear date.year ++ Rfc3339.digits 2 date.month ++
    Rfc3339.digits 2 date.day ++ '-' :: Rfc3339.digits 2 clock.hour ++ Rfc3339.digits 2 clock.minute ++
    ".csv".toList

/-- `format!("attachment; filename=\"{}\"", filename)`. -/
def attachment (filename : Text) : Text :=
  "attachment; filename=".toList ++ Json.quote :: filename ++ [Json.quote]

/-- A call of the service whose error is answered with 500. -/
def orInternal {α : Type} (m : Exec World ServiceError α) : Exec World StatusCode α :=
  adapt (fun _ => .internalServerError) m

/-- A call of the service whose error is only logged. -/
def orWarn {α : Type} (m : Exec World ServiceError α) : Exec World StatusCode Unit := do
  let _ ← (attempt m : Exec World StatusCode (Except ServiceError α))
  pure ()

section
variable (env : RequestEnv) (site : Site)

def dashboard (user : User) : Exec World StatusCode Response :=
  pure (.html (.dashboard user.email
    (if site.fipsModeEnabled then "enabled".toList else "DISABLED (dev mode)".toList)))

/-- The prefix that a query asks for. -/
def filterOf (filter : Text) : Option Text := if filter.isEmpty then none else some filter

def auditGet (filter : Text) : Exec World StatusCode Response := do
  let view ← orInternal (listAuditEvents env site.toApp (filterOf filter) 500)
  let rows ← orPanic (view.events.mapM (auditRow site))
  pure (.html (.audit rows view.verification.valid view.verification.eventsChecked
    ((view.verification.breakAt.map Json.decimal).getD []) filter
    (if filter.isEmpty then [] else "?filter=".toList ++ urlencode filter)))

def auditCsv (filter : Text) : Exec World StatusCode Response := do
  let view ← orInternal (listAuditEvents env site.toApp (filterOf filter) 100000)
  pure (.withHeaders .ok [
      ("content-type", "text/csv; charset=utf-8".toList),
      ("content-disposition", attachment (csvName (env.now .csvName).time))]
    (.plain (csvHeader ++ (view.events.reverse.map (csvRow site)).flatten)))

/-- The clock is read once for each of the two. -/
def shareRow (i : ℕ) (item : ShareListItem) : ShareRow where
  id := item.id.text
  vendorName := item.vendorName
  vendorEmail := item.vendorEmail
  filename := item.filename
  sizeKb := (item.sizeBytes + 1023) / 1024
  created := formatDt item.createdAt
  expires := formatDt item.expiresAt
  maxDownloads := item.maxDownloads
  downloadCount := item.downloadCount
  isActive := item.isActive (env.now (.itemActive i)).time
  status := item.statusLabel (env.now (.itemLabel i)).time
  note := item.senderNote

def sharesListGet : Exec World StatusCode Response := do
  let list ← orInternal (listRecentShares env 100)
  pure (.html (.shares (list.mapIdx (shareRow env))))

def shareRevoke (user : User) (headers : HeaderMap) (id : Text) : Exec World StatusCode Response := do
  let shareId ← orErr .badRequest (site.parseUuid id)
  orWarn (revokeShare env site.toApp shareId user.id (clientIp headers) (userAgent headers))
  pure (.redirect "/shares")

def tokenRow (t : ApiToken) : TokenRow where
  id := t.id.text
  label := t.label
  created := formatDt t.createdAt
  lastSeen := (t.lastSeenAt.map formatDt).getD "never".toList
  revoked := t.revokedAt.isSome

def tokensGet (user : User) : Exec World StatusCode Response := do
  let list ← orInternal (listApiTokens env user.id)
  pure (.html (.tokens (list.map tokenRow)))

structure TokenMintForm where
  label : Text

def tokensPost (user : User) (headers : HeaderMap) (form : TokenMintForm) : Exec World StatusCode Response := do
  let label := trim form.label
  if label.isEmpty then pure (.redirect "/tokens")
  else do
    let issued ← orInternal
      (mintApiToken env site.toApp user.id label (clientIp headers) (userAgent headers))
    pure (.html (.tokenCreated label issued.rawToken))

def tokenRevoke (user : User) (headers : HeaderMap) (id : Text) : Exec World StatusCode Response := do
  let tokenId ← orErr .badRequest (site.parseUuid id)
  orWarn (revokeApiToken env site.toApp tokenId user.id (clientIp headers) (userAgent headers))
  pure (.redirect "/tokens")

end
end FipsDropbox.Web
