import FipsDropbox.Web.Login
import FipsDropbox.Web.Upload

/-!
# crates/web: redemption and routes

`respond` is what the router makes of a request. A route that takes a user first runs
its extractor; a part of the request that the framework cannot read is answered by the
framework, but only after that.
-/
namespace FipsDropbox.Web
open Utf8 Exec Crypto Storage Service

def sanitizeFilename (name : Text) : Text :=
  (name.filter fun c => !(c = Json.quote || c = '\r' || c = '\n' || c.toNat = 0 || c = '/' ||
    c = Json.backslash)).take 255

def redeemGet (token : Text) : Exec World StatusCode Response := pure (.html (.redeemPrompt token none))

structure RedeemForm where
  accessCode : Text

def redeemRequest (token : Text) (headers : HeaderMap) (form : RedeemForm) : RedeemRequest where
  token
  accessCode := trim form.accessCode
  ip := clientIp headers
  userAgent := userAgent headers

def redeemRefusal (token : Text) : ServiceError → Exec World StatusCode Response
  | .invalidCredentials => pure (.html (.redeemPrompt token
      (some "That access code is not correct. Check the SMS and try again.".toList)))
  | .shareUnavailable => pure (.html (.redeemPrompt token
      (some "This share has expired, been revoked, or reached its download limit.".toList)))
  | .notFound => pure (.html (.redeemPrompt token (some "This share link is not valid.".toList)))
  | _ => throw .internalServerError

section
variable (env : RequestEnv) (site : Site)

def redeemPost (token : Text) (headers : HeaderMap) (form : RedeemForm) : Exec World StatusCode Response := do
  let result ← attempt (redeemShare env site.toApp (redeemRequest token headers form))
  match result with
  | .ok resp => pure (.withHeaders .ok [
      ("content-type", "application/octet-stream".toList),
      ("content-disposition", attachment (sanitizeFilename resp.filename))] (.octets resp.content))
  | .error e => redeemRefusal token e

end

def health : Exec World StatusCode Response := pure ⟨.ok, [], .plain "ok".toList⟩

structure Rejection where
  status : StatusCode
  text : Text

def Rejection.intoResponse (r : Rejection) : Response :=
  ⟨r.status, [("content-type".toList, encode "text/plain; charset=utf-8".toList)], .rejection r.text⟩

abbrev Extracted (α : Type) := Except Rejection α

inductive HttpRequest where
  | dashboard (headers : HeaderMap)
  | loginGet (headers : HeaderMap)
  | loginPost (headers : HeaderMap) (form : Extracted LoginForm)
  | logoutPost (headers : HeaderMap)
  | shareNewGet (headers : HeaderMap)
  | shareNewPost (headers : HeaderMap) (multipart : Extracted Multipart)
  | sharesListGet (headers : HeaderMap)
  | shareRevoke (headers : HeaderMap) (id : Extracted Text)
  | auditGet (headers : HeaderMap) (filter : Extracted Text)
  | auditCsv (headers : HeaderMap) (filter : Extracted Text)
  | tokensGet (headers : HeaderMap)
  | tokensPost (headers : HeaderMap) (form : Extracted TokenMintForm)
  | tokenRevoke (headers : HeaderMap) (id : Extracted Text)
  | apiSharesPost (headers : HeaderMap) (multipart : Extracted Multipart)
  | redeemGet (token : Extracted Text)
  | redeemPost (token : Extracted Text) (headers : HeaderMap) (form : Extracted RedeemForm)
  | health

/-- A handler's own response, or that of its error. -/
def handled (m : Exec World StatusCode Response) : Exec World Response Response := adapt .ofStatus m

section
variable (env : RequestEnv) (site : Site)

/-- A handler behind `CurrentUser`. -/
def forUser (headers : HeaderMap) (handler : User → Exec World Response Response) :
    Exec World Response Response := do
  let user ← currentUser env site headers
  handler user

/-- A handler behind `ApiCaller`. -/
def forCaller (headers : HeaderMap) (handler : ApiCaller → Exec World Response Response) :
    Exec World Response Response := do
  let caller ← adapt ApiError.intoResponse (apiCaller env site headers)
  handler caller

/-- A handler on what the framework has read. -/
def extracting {α : Type} (extracted : Extracted α) (handler : α → Exec World StatusCode Response) :
    Exec World Response Response := do
  let a ← lift Rejection.intoResponse extracted
  handled (handler a)

/-- The routes of `router`. -/
def route : HttpRequest → Exec World Response Response
  | .dashboard headers => forUser env site headers fun user => handled (dashboard site user)
  | .loginGet headers => handled (loginGet env site headers)
  | .loginPost headers form => extracting form (loginPost env site headers)
  | .logoutPost headers => handled (logoutPost env site headers)
  | .shareNewGet headers => forUser env site headers fun _ => handled shareNewGet
  | .shareNewPost headers multipart => forUser env site headers fun user =>
      extracting multipart (shareNewPost env site user headers)
  | .sharesListGet headers => forUser env site headers fun _ => handled (sharesListGet env)
  | .shareRevoke headers id => forUser env site headers fun user =>
      extracting id (shareRevoke env site user headers)
  | .auditGet headers filter => forUser env site headers fun _ => extracting filter (auditGet env site)
  | .auditCsv headers filter => forUser env site headers fun _ => extracting filter (auditCsv env site)
  | .tokensGet headers => forUser env site headers fun user => handled (tokensGet env user)
  | .tokensPost headers form => forUser env site headers fun user =>
      extracting form (tokensPost env site user headers)
  | .tokenRevoke headers id => forUser env site headers fun user =>
      extracting id (tokenRevoke env site user headers)
  | .apiSharesPost headers multipart => forCaller env site headers fun caller => do
      let multipart ← lift Rejection.intoResponse multipart
      adapt ApiError.intoResponse (apiSharesPost env site caller headers multipart)
  | .redeemGet token => extracting token redeemGet
  | .redeemPost token headers form => do
      let token ← lift Rejection.intoResponse token
      extracting form (redeemPost env site token headers)
  | .health => handled health

/-- The response to a request; a panic drops the connection. -/
def respond (req : HttpRequest) : Exec World Empty Response := do
  let response ← attempt (route env site req)
  match response with
  | .ok r => pure r
  | .error r => pure r

end
end FipsDropbox.Web
