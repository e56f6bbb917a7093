import FipsDropbox.Web.Http

/-!
# crates/web: extractors

`CurrentUser` takes the session cookie, `ApiCaller` the bearer token. Either gives the
handler a user, or answers in its place.
-/
namespace FipsDropbox.Web
open Utf8 Exec Crypto Storage Service

/-- The fields of `App` that only pages read, with the Unicode tables of the standard
library, `Uuid::parse_str` and how serde_json spells a float. -/
structure Site extends App where
  fipsModeEnabled : Bool
  emailConfigured : Bool
  smsConfigured : Bool
  caseTables : CaseTables
  parseUuid : Text → Option Uuid
  floatText : F64 → Text

structure ApiError where
  status : StatusCode
  message : String

def ApiError.intoResponse (e : ApiError) : Response where
  status := e.status
  headers := [("content-type".toList, encode "application/json".toList)]
  body := .json (.object [text "error" e.message.toList])

/-- `AuthRedirect`. -/
def authRedirect : Response := .redirect "/login"

section
variable (env : RequestEnv) (site : Site)

def resolveUser (headers : HeaderMap) : Exec World StatusCode (Option User) :=
  match cookieValue headers sessionCookie with
  | none => pure none
  | some token => do
      let found ← adapt (fun _ => .internalServerError) (findAuthenticated env site.toApp token)
      pure (found.map Prod.snd)

/-- `CurrentUser::from_request_parts`. -/
def currentUser (headers : HeaderMap) : Exec World Response User := do
  let resolved ← attempt (resolveUser env site headers)
  match resolved with
  | .ok (some user) => pure user
  | _ => throw authRedirect

structure ApiCaller where
  user : User
  token : ApiToken

def bearer : Text := "Bearer ".toList

/-- `ApiCaller::from_request_parts`. -/
def apiCaller (headers : HeaderMap) : Exec World ApiError ApiCaller := do
  let auth ← orErr ⟨.unauthorized, "missing Authorization header"⟩ (headers.getStr "authorization")
  let rawToken ← orErr ⟨.unauthorized, "Authorization must be a Bearer token"⟩
    (auth.dropPrefix? bearer)
  let verified ← attempt (verifyApiToken env site.toApp rawToken)
  match verified with
  | .ok (some (token, user)) => pure ⟨user, token⟩
  | .ok none => throw ⟨.unauthorized, "invalid or revoked token"⟩
  | .error _ => throw ⟨.internalServerError, "internal error"⟩

end

def hexBytes : Text → Option Bytes
  | [] => some []
  | [_] => none
  | c :: d :: t => do
      let hi ← Json.hexValue c
      let lo ← Json.hexValue d
      let bytes ← hexBytes t
      some (octet (16 * hi + lo) :: bytes)

/-- The hyphenated form, one of those that `Uuid::parse_str` reads. -/
def parseHyphenated (t : Text) : Option Uuid :=
  let groups := t.splitOn '-'
  if groups.map List.length = [8, 4, 4, 4, 12] then
    (hexBytes groups.flatten).bind fun bs => if h : bs.length = 16 then some ⟨bs, h⟩ else none
  else none

def sampleSite : Site where
  toApp := sampleApp
  fipsModeEnabled := true
  emailConfigured := false
  smsConfigured := false
  caseTables := .ofAscii
  parseUuid := parseHyphenated
  floatText := fun _ => []

end FipsDropbox.Web
