import FipsDropbox.Crypto.Cng
import FipsDropbox.Lib.Time

/-!
# The host of a request

What a request gets from the system it runs on: readings of the clock, random
bytes, new identifiers, and which of its calls into the system fail. Every call
site is named, and a request passes each at most once.
-/
namespace FipsDropbox
open Utf8

/-- `OffsetDateTime::now_utc`, in a year of four digits. -/
structure NowUtc where
  time : OffsetDateTime
  utc : time.offset = 0
  year : -62167219200 * nanosPerSecond ≤ time.nanos ∧ time.nanos < endLocal

def NowUtc.unixEpoch : NowUtc := ⟨.unixEpoch, rfl, by decide⟩

abbrev Uuid := Octets 16

/-- The hyphenated form, lower case. -/
def Uuid.text (id : Uuid) : Text :=
  let h := hexEncode id.val
  h.take 8 ++ '-' :: (h.drop 8).take 4 ++ '-' :: (h.drop 12).take 4 ++ '-' :: (h.drop 16).take 4 ++
    '-' :: h.drop 20

inductive Reading where
  | userCreated
  | userDisabled
  | sessionCreated
  | sessionLookup
  | sessionPurge
  | vendorCreated
  | vendorDisabled
  | printUploaded
  | shareExpiry
  | shareCreated
  | consumeDownload
  | shareRevoked
  | apiTokenCreated
  | apiTokenLookup
  | apiTokenRevoked
  | purge
  | event
  | sessionCookie
  | csvName
  | itemActive (row : ℕ)
  | itemLabel (row : ℕ)

inductive Draw where
  | salt
  | sessionToken
  | csrfToken
  | dataKey
  | sealNonce
  | wrapNonce
  | urlToken
  | accessCode
  | apiToken

inductive NewId where
  | user
  | vendor
  | print
  | share
  | apiToken

/-- Calls that can fail for reasons outside the program. -/
inductive Call where
  | hashRedeemToken | hashCandidateCode | hashUrlToken | hashAccessCode | hashPlaintext | hashBlob
  | hashSession | hashSessionLookup | hashSessionRevoke | hashApiToken | hashApiTokenLookup
  | deriveNew | deriveUnknown | deriveCandidate | sealBlob | openBlob | wrapDek | unwrapDek
  | createDir | writeBlob | readBlob | removeBlob
  | insertUser | selectUserByEmail | selectUserById | updateUserPassword | updateUserDisabled
  | updateUserEnabled
  | selectVendor | insertVendor | updateVendorDisabled | insertPrint | selectPrint | selectPrintOfBlob
  | deletePrint | insertShare | selectShare | updateDownloadCount | updateShareRevoked | listShares
  | deleteShares | insertSession | selectSession | updateSession | deleteSession | deleteSessionsOfUser
  | deleteExpiredSessions | insertApiToken | selectApiToken | updateApiToken | listApiTokens
  | updateApiTokenRevoked

/-- A failing draw of random bytes gives none; `partialWrite` is how much of a blob a
failing write leaves in its file, if it has created one. -/
structure Env where
  now : Reading → NowUtc
  random : Draw → (n : ℕ) → Option (Octets n)
  newId : NewId → Uuid
  fails : Call → Bool
  partialWrite : Option ℕ

def Env.Quiet (env : Env) : Prop := ∀ c, env.fails c = false

theorem hexEncode_no_hyphen (bs : Bytes) : ∀ c ∈ hexEncode bs, c ≠ '-' := by
  have hdigit : ∀ n < 16, hexDigit n ≠ '-' := by decide
  intro c hc
  obtain ⟨b, -, hb⟩ := List.mem_flatMap.mp hc
  have hlt := b.toNat_lt
  simp only [hexByte, List.mem_cons, List.not_mem_nil, or_false] at hb
  rcases hb with rfl | rfl
  · exact hdigit _ (by omega)
  · exact hdigit _ (by omega)

theorem Uuid.filter_text (id : Uuid) : id.text.filter (· ≠ '-') = hexEncode id.val := by
  have hkeep : ∀ l : Text, (∀ c ∈ l, c ∈ hexEncode id.val) → l.filter (· ≠ '-') = l := by
    intro l hl
    apply List.filter_eq_self.mpr
    intro c hc
    simpa using hexEncode_no_hyphen id.val c (hl c hc)
  have hpart : ∀ n k, ∀ c ∈ ((hexEncode id.val).drop n).take k, c ∈ hexEncode id.val :=
    fun n k c hc => List.mem_of_mem_drop (List.mem_of_mem_take hc)
  simp only [Uuid.text, List.filter_append, List.filter_cons, ne_eq, not_true_eq_false, decide_false,
    Bool.false_eq_true, if_false]
  rw [hkeep _ (fun c hc => List.mem_of_mem_take hc), hkeep _ (hpart 8 4), hkeep _ (hpart 12 4),
    hkeep _ (hpart 16 4), hkeep _ (fun c hc => List.mem_of_mem_drop hc)]
  have hjoin : ∀ n, ((hexEncode id.val).drop n).take 4 ++ (hexEncode id.val).drop (n + 4) =
      (hexEncode id.val).drop n := by
    intro n
    rw [← List.drop_drop, List.take_append_drop]
  simp only [List.append_assoc]
  rw [hjoin 16, hjoin 12, hjoin 8, List.take_append_drop]

theorem Uuid.text_injective {id id' : Uuid} (h : id.text = id'.text) : id = id' := by
  apply Subtype.ext
  apply hexEncode_injective
  rw [← Uuid.filter_text, h, Uuid.filter_text]

end FipsDropbox
