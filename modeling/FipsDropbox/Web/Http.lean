import Mathlib.Data.List.SplitOn
import FipsDropbox.Lib.Lowercase
import FipsDropbox.Service.App

/-!
# crates/web: headers and responses

A header map has its names in lower case and may hold a name more than once. What a
handler returns is a `Response`; a page is the data its template is given.
-/
namespace FipsDropbox.Web
open Utf8 Exec Crypto Storage Service

abbrev HeaderMap := List (Text × Bytes)

/-- `HeaderValue::to_str`: visible ASCII and tabs. -/
def toStr (value : Bytes) : Option Text :=
  if value.all fun b => b = 9 || (32 ≤ b.toNat && b.toNat < 127) then
    some (value.map fun b => Char.ofNat b.toNat)
  else none

/-- The first value of a name, as text. -/
def HeaderMap.getStr (headers : HeaderMap) (name : String) : Option Text :=
  (headers.find? fun h => h.1 = name.toList).bind fun h => toStr h.2

/-- `HeaderValue::from_str`. -/
def headerValue (t : Text) : Option Bytes :=
  if (encode t).all fun b => b = 9 || (32 ≤ b.toNat && b.toNat ≠ 127) then some (encode t) else none

def sessionCookie : Text := "fips_session".toList

/-- `cookie_value` on the parts of the header; `find('=')` and `split_at`. -/
def cookieValueIn (name : Text) : List Text → Option Text
  | [] => none
  | part :: parts =>
      match (trim part).span (· ≠ '=') with
      | (k, _ :: v) => if k = name then some v else cookieValueIn name parts
      | (_, []) => cookieValueIn name parts

def cookieValue (headers : HeaderMap) (name : Text) : Option Text :=
  (headers.getStr "cookie").bind fun hdr => cookieValueIn name (hdr.splitOn ';')

def clientIp (headers : HeaderMap) : Text :=
  match headers.getStr "x-forwarded-for" with
  | some s => trim (s.takeWhile (· ≠ ','))
  | none => "unknown".toList

def userAgent (headers : HeaderMap) : Text := (headers.getStr "user-agent").getD []

/-- `build_session_cookie`. -/
def buildSessionCookie (env : Env) (token : Text) (expiresAt : OffsetDateTime) : Text :=
  let maxAge := max ((expiresAt.nanos - (env.now .sessionCookie).time.nanos).tdiv nanosPerSecond) 0
  sessionCookie ++ '=' :: token ++ "; Path=/; HttpOnly; SameSite=Lax; Max-Age=".toList ++
    Json.decimal maxAge.toNat

def clearSessionCookie : Text := sessionCookie ++ "=; Path=/; HttpOnly; SameSite=Lax; Max-Age=0".toList

/-- `s.trim().to_lowercase()` on an e-mail address. -/
def normalizeEmail (U : CaseTables) (email : Text) : Text := U.toLowercase (trim email)

inductive StatusCode where
  | ok
  | created
  | seeOther
  | badRequest
  | unauthorized
  | payloadTooLarge
  | unsupportedMediaType
  | unprocessableEntity
  | internalServerError
  deriving DecidableEq

structure AuditRow where
  ts : Text
  event : Text
  outcome : Text
  actorShort : Text
  actorIp : Text
  targetMetaShort : Text
  deriving DecidableEq

structure ShareRow where
  id : Text
  vendorName : Text
  vendorEmail : Text
  filename : Text
  sizeKb : UInt64
  created : Text
  expires : Text
  maxDownloads : UInt32
  downloadCount : UInt32
  status : Text
  isActive : Bool
  note : Option Text
  deriving DecidableEq

structure TokenRow where
  id : Text
  label : Text
  created : Text
  lastSeen : Text
  revoked : Bool
  deriving DecidableEq

inductive Page where
  | login (error : Option Text)
  | dashboard (userEmail fipsStatus : Text)
  | redeemPrompt (token : Text) (error : Option Text)
  | audit (events : List AuditRow) (chainValid : Bool) (eventsChecked : ℕ)
      (breakAtDisplay filterValue csvQuery : Text)
  | shares (shares : List ShareRow)
  | tokens (tokens : List TokenRow)
  | tokenCreated (label rawToken : Text)
  | shareNew (error : Option Text)
  | shareCreated (vendorEmail : Text) (vendorPhone : Option Text) (shareUrl accessCode : Text)
      (notificationsSent smsSent : Bool)
  deriving DecidableEq

/-- A text is that of a handler, or what the framework says of a request it cannot read. -/
inductive Body where
  | empty
  | page (p : Page)
  | plain (t : Text)
  | rejection (t : Text)
  | octets (bs : Bytes)
  | json (j : Json)

structure Response where
  status : StatusCode
  headers : HeaderMap
  body : Body

namespace Response

def ofStatus (status : StatusCode) : Response := ⟨status, [], .empty⟩

def redirect (location : String) : Response :=
  ⟨.seeOther, [("location".toList, encode location.toList)], .empty⟩

def html (p : Page) : Response :=
  ⟨.ok, [("content-type".toList, encode "text/html; charset=utf-8".toList)], .page p⟩

/-- `headers_mut().insert`. -/
def withHeader (r : Response) (name : String) (value : Bytes) : Response :=
  { r with headers := r.headers.filter (fun h => h.1 ≠ name.toList) ++ [(name.toList, value)] }

/-- A response with headers given as strings: one that is no header value answers with
an error instead. -/
def withHeaders (status : StatusCode) (headers : List (String × Text)) (body : Body) : Response :=
  match headers.mapM fun h => (headerValue h.2).map fun value => (h.1.toList, value) with
  | some headers => ⟨status, headers, body⟩
  | none => ofStatus .internalServerError

end Response

end FipsDropbox.Web
