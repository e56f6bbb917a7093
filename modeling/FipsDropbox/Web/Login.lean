import FipsDropbox.Web.Auth

/-!
# crates/web: signing in and out
-/
namespace FipsDropbox.Web
open Utf8 Exec Crypto Storage Service

structure LoginForm where
  email : Text
  password : Text

section
variable (env : RequestEnv) (site : Site)

/-- `login_get`; the extractor is optional here. -/
def loginGet (headers : HeaderMap) : Exec World StatusCode Response := do
  let user ← attempt (currentUser env site headers)
  match user with
  | .ok _ => pure (.redirect "/")
  | .error _ => pure (.html (.login none))

/-- The request of `login_post`. -/
def loginRequest (headers : HeaderMap) (form : LoginForm) : LoginRequest where
  email := normalizeEmail site.caseTables form.email
  password := form.password
  ip := clientIp headers
  userAgent := userAgent headers

def loginPost (headers : HeaderMap) (form : LoginForm) : Exec World StatusCode Response := do
  let result ← attempt (login env site.toApp (loginRequest site headers form))
  match result with
  | .ok issued => do
      let cookie ← orPanic (headerValue (buildSessionCookie env.toEnv issued.rawToken issued.session.expiresAt))
      pure ((Response.redirect "/").withHeader "set-cookie" cookie)
  | .error .invalidCredentials => pure (.html (.login (some "Incorrect email or password.".toList)))
  | .error _ => throw .internalServerError

def logoutPost (headers : HeaderMap) : Exec World StatusCode Response := do
  let token := (cookieValue headers sessionCookie).getD []
  if token.isEmpty then pure ()
  else do
    let _ ← (attempt (logout env site.toApp token (clientIp headers) (userAgent headers)) :
      Exec World StatusCode (Except ServiceError Unit))
    pure ()
  let cookie ← orPanic (headerValue clearSessionCookie)
  pure ((Response.redirect "/login").withHeader "set-cookie" cookie)

end

/-- Characters that a header value takes. -/
def HeaderChar (c : Char) : Prop := 32 ≤ c.toNat ∧ c.toNat < 127

theorem encodeChar_header {c : Char} (h : HeaderChar c) :
    (encodeChar c).all (fun b => b = 9 || (32 ≤ b.toNat && b.toNat ≠ 127)) = true := by
  obtain ⟨hlo, hhi⟩ := h
  have hone : encodeChar c = [octet c.toNat] := if_pos (by omega)
  have hval : (octet c.toNat).toNat = c.toNat := octet_toNat (by omega)
  rw [hone, List.all_cons, hval]
  simp only [List.all_nil, Bool.and_true, Bool.or_eq_true, Bool.and_eq_true, decide_eq_true_eq]
  exact .inr ⟨hlo, by omega⟩

theorem headerValue_some {t : Text} (h : ∀ c ∈ t, HeaderChar c) : headerValue t = some (encode t) := by
  apply if_pos
  rw [encode, List.all_flatMap]
  apply List.all_eq_true.mpr
  intro c hc
  exact encodeChar_header (h c hc)

theorem literal_header {s : String} (h : s.toList.all (fun c => 32 ≤ c.toNat && c.toNat < 127) = true) :
    ∀ c ∈ s.toList, HeaderChar c := by
  intro c hc
  simpa [HeaderChar] using List.all_eq_true.mp h c hc

/-- Beyond the alphabet `base64Digit` is its first letter. -/
theorem base64Digit_mem (n : ℕ) :
    base64Digit n ∈ "ABCDEFGHIJKLMNOPQRSTUVWXYZabcdefghijklmnopqrstuvwxyz0123456789-_".toList := by
  rw [base64Digit, List.getD_eq_getElem?_getD]
  cases hn : "ABCDEFGHIJKLMNOPQRSTUVWXYZabcdefghijklmnopqrstuvwxyz0123456789-_".toList[n]? with
  | none => exact List.mem_cons_self
  | some c => exact List.mem_of_getElem? hn

theorem base64Digit_header (n : ℕ) : HeaderChar (base64Digit n) := literal_header (by decide) _ (base64Digit_mem n)

theorem urlSafeBase64_digit (bs : Bytes) : ∀ c ∈ urlSafeBase64 bs, ∃ n, c = base64Digit n := by
  induction bs using urlSafeBase64.induct with
  | case1 a b c r ih =>
      intro d hd
      simp only [urlSafeBase64, List.mem_cons] at hd
      rcases hd with rfl | rfl | rfl | rfl | hd
      · exact ⟨_, rfl⟩
      · exact ⟨_, rfl⟩
      · exact ⟨_, rfl⟩
      · exact ⟨_, rfl⟩
      · exact ih d hd
  | case2 a b =>
      intro d hd
      simp only [urlSafeBase64, List.mem_cons, List.not_mem_nil, or_false] at hd
      rcases hd with rfl | rfl | rfl
      · exact ⟨_, rfl⟩
      · exact ⟨_, rfl⟩
      · exact ⟨_, rfl⟩
  | case3 a =>
      intro d hd
      simp only [urlSafeBase64, List.mem_cons, List.not_mem_nil, or_false] at hd
      rcases hd with rfl | rfl
      · exact ⟨_, rfl⟩
      · exact ⟨_, rfl⟩
  | case4 =>
      intro d hd
      cases hd

theorem urlSafeBase64_header (bs : Bytes) : ∀ c ∈ urlSafeBase64 bs, HeaderChar c := by
  intro c hc
  obtain ⟨n, rfl⟩ := urlSafeBase64_digit bs c hc
  exact base64Digit_header n

theorem decimal_header (n : ℕ) : ∀ c ∈ Json.decimal n, HeaderChar c := by
  have hdigit : ∀ i < 10, 32 ≤ (hexDigit i).toNat ∧ (hexDigit i).toNat < 127 := by decide
  intro c hc
  unfold Json.decimal at hc
  split_ifs at hc
  · obtain rfl := List.mem_singleton.mp hc
    exact ⟨by decide, by decide⟩
  · obtain ⟨d, hd, rfl⟩ := List.mem_map.mp hc
    exact hdigit d (Nat.digits_lt_base (by omega) (List.mem_reverse.mp hd))

/-- The cookie of a session is a header value. -/
theorem buildSessionCookie_header (env : Env) (bs : Bytes) (expiresAt : OffsetDateTime) :
    headerValue (buildSessionCookie env (urlSafeBase64 bs) expiresAt) =
      some (encode (buildSessionCookie env (urlSafeBase64 bs) expiresAt)) := by
  apply headerValue_some
  intro c hc
  rw [buildSessionCookie] at hc
  simp only [List.mem_append, List.mem_cons] at hc
  rcases hc with ((hc | rfl | hc) | hc) | hc
  · exact literal_header (by decide) c hc
  · exact ⟨by decide, by decide⟩
  · exact urlSafeBase64_header bs c hc
  · exact literal_header (by decide) c hc
  · exact decimal_header _ c hc

end FipsDropbox.Web
