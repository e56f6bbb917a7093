import FipsDropbox.Web.Admin

/-!
# crates/web: creating a share

The browser form and the API read the same parts of a multipart body. They differ in
what counts as an attestation and in how they refuse.
-/
namespace FipsDropbox.Web
open Utf8 Exec Crypto Storage Service

/-- A part, and what reading it gives, if it can be read. -/
structure Field where
  name : Option Text
  fileName : Option Text
  bytes : Option Bytes
  text : Option Text

/-- The parts up to the end of the body or to where it is malformed. -/
structure Multipart where
  fields : List Field
  malformed : Bool

/-- `str::parse::<u32>`. -/
def parseU32 (t : Text) : Option UInt32 :=
  let ds := match t with
    | '+' :: ds => ds
    | _ => t
  if ds.isEmpty || !ds.all isDigit || UInt32.size ≤ valueOf ds then none
  else some (UInt32.ofNat (valueOf ds))

/-- The local variables of the two handlers. -/
structure Draft where
  filename : Option Text
  fileBytes : Option Bytes
  vendorEmail : Option Text
  vendorPhone : Option Text
  vendorDisplayName : Option Text
  expiresInHours : UInt32
  maxDownloads : UInt32
  note : Option Text
  cuiAttested : Bool

def Draft.initial : Draft where
  filename := none
  fileBytes := none
  vendorEmail := none
  vendorPhone := none
  vendorDisplayName := none
  expiresInHours := 72
  maxDownloads := 3
  note := none
  cuiAttested := false

def filled (t : Text) : Option Text := if isBlank t then none else some t

section
variable {ε : Type} (attests : Field → Bool) (fail : String → ε)

def Field.read (f : Field) (message : String) : Except ε Text :=
  match f.text with
  | some t => .ok t
  | none => .error (fail message)

/-- The body of the loop; `attests` is what a `cui_attested` part says. -/
def readField (d : Draft) (f : Field) : Except ε Draft := do
  let name := f.name.getD []
  if name = "file".toList then
    match f.bytes with
    | some bytes => pure { d with filename := f.fileName, fileBytes := some bytes }
    | none => .error (fail "failed to read file")
  else if name = "vendor_email".toList then
    let t ← f.read fail "bad vendor_email"
    pure { d with vendorEmail := some t }
  else if name = "vendor_phone".toList then
    let t ← f.read fail "bad vendor_phone"
    pure { d with vendorPhone := filled t }
  else if name = "vendor_display_name".toList then
    let t ← f.read fail "bad vendor_display_name"
    pure { d with vendorDisplayName := some t }
  else if name = "expires_in_hours".toList then
    let t ← f.read fail "bad expires_in_hours"
    pure { d with expiresInHours := (parseU32 t).getD 72 }
  else if name = "max_downloads".toList then
    let t ← f.read fail "bad max_downloads"
    pure { d with maxDownloads := (parseU32 t).getD 3 }
  else if name = "note".toList then
    let t ← f.read fail "bad note"
    pure { d with note := filled t }
  else if name = "cui_attested".toList then
    pure { d with cuiAttested := attests f }
  else pure d

def readMultipart (m : Multipart) : Except ε Draft := do
  let d ← m.fields.foldlM (readField attests fail) .initial
  if m.malformed then .error (fail "malformed multipart") else pure d

end

inductive Missing where
  | filename
  | fileBytes
  | vendorEmail
  | vendorDisplayName
  | attestation
  deriving DecidableEq

def orMissing (missing : Missing) {α : Type} (o : Option (List α)) : Except Missing (List α) :=
  match o with
  | some (a :: l) => .ok (a :: l)
  | _ => .error missing

def Draft.complete (U : CaseTables) (user : User) (headers : HeaderMap) (d : Draft) :
    Except Missing NewShareRequest := do
  let filename ← orMissing .filename d.filename
  let fileBytes ← orMissing .fileBytes d.fileBytes
  let vendorEmail ← orMissing .vendorEmail (d.vendorEmail.map (normalizeEmail U))
  let vendorDisplayName ← orMissing .vendorDisplayName (d.vendorDisplayName.map trim)
  if !d.cuiAttested then .error .attestation
  else pure {
    printFilename := filename
    printBytes := fileBytes
    vendorEmail
    vendorPhone := d.vendorPhone
    vendorDisplayName
    expiresInHours := d.expiresInHours
    maxDownloads := d.maxDownloads
    note := d.note
    cuiAttested := d.cuiAttested
    createdBy := user.id
    ip := clientIp headers
    userAgent := userAgent headers }

def shareNewGet : Exec World StatusCode Response := pure (.html (.shareNew none))

/-- That the part is there attests. -/
def formAttests (_ : Field) : Bool := true

def shareNewRefusal : Missing → Exec World StatusCode Response
  | .filename => pure (.html (.shareNew (some "No file selected.".toList)))
  | .fileBytes | .vendorEmail | .vendorDisplayName => throw .badRequest
  | .attestation => pure (.html (.shareNew
      (some "You must attest that this file is correctly marked before sending.".toList)))

section
variable (env : RequestEnv) (site : Site)

def shareNewPost (user : User) (headers : HeaderMap) (multipart : Multipart) :
    Exec World StatusCode Response := do
  let draft ← lift id (readMultipart formAttests (fun _ => .badRequest) multipart)
  match draft.complete site.caseTables user headers with
  | .error missing => shareNewRefusal missing
  | .ok req => do
      let created ← orInternal (createShare env site.toApp req)
      pure (.html (.shareCreated created.vendorEmail created.vendorPhone created.shareUrl created.accessCode
        site.emailConfigured (req.vendorPhone.isSome && site.smsConfigured)))

end

/-- An affirmative text attests; a part that cannot be read does not. -/
def apiAttests (f : Field) : Bool :=
  ["1", "true", "yes", "on"].any fun s => s.toList = trim (f.text.getD [])

def apiRefusal : Missing → ApiError
  | .filename => ⟨.badRequest, "file is required"⟩
  | .fileBytes => ⟨.badRequest, "file is empty"⟩
  | .vendorEmail => ⟨.badRequest, "vendor_email is required"⟩
  | .vendorDisplayName => ⟨.badRequest, "vendor_display_name is required"⟩
  | .attestation => ⟨.badRequest, "cui_attested must be true"⟩

def createdJson (c : ShareCreated) : Json :=
  (JsonValue.object [
    uuid "share_id" c.shareId,
    text "share_url" c.shareUrl,
    text "access_code" c.accessCode,
    text "vendor_email" c.vendorEmail,
    ("vendor_phone".toList, match c.vendorPhone with
      | some phone => .string phone
      | none => .null)]).tree

section
variable (env : RequestEnv) (site : Site)

def apiSharesPost (caller : ApiCaller) (headers : HeaderMap) (multipart : Multipart) :
    Exec World ApiError Response := do
  let draft ← lift id (readMultipart apiAttests (fun message => ⟨.badRequest, message⟩) multipart)
  let req ← lift apiRefusal (draft.complete site.caseTables caller.user headers)
  let created ← adapt (fun _ => ⟨.internalServerError, "create_share failed"⟩)
    (createShare env site.toApp req)
  pure ⟨.created, [("content-type".toList, encode "application/json".toList)], .json (createdJson created)⟩

end
end FipsDropbox.Web
