import FipsDropbox.Service.Upload

/-!
# Delivery

What an upload put into the store is what the bearer of its two secrets gets, for
as long as a slot is left and the share is neither expired nor revoked, whatever
other operations come in between.
-/
namespace FipsDropbox.Service
open Utf8 Exec Crypto Storage

/-- A redemption under exactly these secrets, in a millisecond before that of `expiresAt`. -/
def timelyCall (token code : Text) (expiresAt : OffsetDateTime) : RequestEnv × Request → Bool
  | (env, .redeemShare q) =>
      q.token = token && q.accessCode = code &&
        dtToMillis (env.now .consumeDownload).time < dtToMillis expiresAt
  | _ => false

/-- An operation that may come in between: it does not revoke the share, a print it
makes gets a fresh identifier, and its secrets do not collide with those of the share. -/
structure Tolerated (env : RequestEnv) (app : App) (token code : Text) (op : RequestEnv × Request) : Prop where
  unrevoked : ∀ byUser ip ua, op.2 ≠ .revokeShare (env.newId .share) byUser ip ua
  fresh : ∀ q, op.2 = .createShare q → op.1.newId .print ≠ env.newId .print
  token : ∀ q, op.2 = .redeemShare q → secretHash app q.token = secretHash app token → q.token = token
  code : ∀ q, op.2 = .redeemShare q → secretHash app q.accessCode = secretHash app code → q.accessCode = code

/-- No operation panics but for those under the token of the share, about which nothing
is assumed. -/
def Undisturbed (app : App) (token : Text) : World → List (RequestEnv × Request) → Prop
  | _, [] => True
  | w, op :: ops =>
      ((∀ q, op.2 = .redeemShare q → q.token ≠ token) →
        (handle op.1 app op.2 w).1 ≠ .err (.internal .taskPanicked)) ∧
      Undisturbed app token (handle op.1 app op.2 w).2 ops

section
variable {env : RequestEnv} {app : App} {req : NewShareRequest} {vendorId : Uuid}
  {expiresAt : OffsetDateTime} {token code : Text} {count : ℤ}

theorem Offered.takes {s : Store} (h : Offered env app req vendorId expiresAt token code count s)
    {env' : RequestEnv}
    (hcalls : LooksUp env' ∧ env'.fails .hashCandidateCode = false ∧ env'.fails .updateDownloadCount = false)
    (hcount : count < req.maxDownloads.toNat)
    (htime : dtToMillis (env'.now .consumeDownload).time < dtToMillis expiresAt) (ip ua : Text) :
    ∃ share, Takes env' app s ⟨token, code, ip, ua⟩
      (sharedRow env app req vendorId expiresAt token code count) share ∧
      share.printId = env.newId .print := by
  obtain ⟨share, hshare⟩ := rowToShare_new (env.newId .share) (env.newId .print) vendorId
    (secretHash app token) (secretHash app code) expiresAt req.maxDownloads req.note req.createdBy
    (env.now .shareCreated).time count
  refine ⟨share, ⟨hcalls, h.row, rfl, rfl, hshare, ?_⟩, ?_⟩
  · exact consumable_iff.mpr ⟨rfl, rfl, htime, hcount⟩
  · exact Subtype.ext (rowToShare_ok hshare).2.1

theorem Offered.redeems {w : World} (D : app.serde.Documented)
    (h : Offered env app req vendorId expiresAt token code count w.store) {env' : RequestEnv}
    (hq : env'.Quiet) (hfault : env'.auditFault = none) (hfree : Free w)
    (hcount : count < req.maxDownloads.toNat)
    (htime : dtToMillis (env'.now .consumeDownload).time < dtToMillis expiresAt) (ip ua : Text) :
    (redeemShare env' app ⟨token, code, ip, ua⟩ w).1 =
      .ok ⟨req.printFilename, req.printBytes, Cng.sha256 app.bcrypt req.printBytes⟩ := by
  obtain ⟨share, ht, hprint⟩ := h.takes ⟨⟨hq _, hq _⟩, hq _, hq _⟩ hcount htime ip ua
  rcases redeemShare_cases env' app ⟨token, code, ip, ua⟩ w with
    ⟨-, r, share', ht', -, hok⟩ | ⟨hno | hno, -⟩
  · obtain rfl : r = sharedRow env app req vendorId expiresAt token code count :=
      share_of_token ht'.row ht.row (ht'.token.trans ht.token.symm)
    obtain rfl : share' = share := Except.ok.inj (ht'.decodes.symm.trans ht.decodes)
    obtain ⟨print, hopen, hname, hsha⟩ := h.file.openable
    refine (hok _).mpr
      ((redeemDeliver_ok_iff D).mpr ⟨print, ⟨⟨hq _, fun c _ => hq c⟩, ?_, hfree.audit, hfault⟩, ?_⟩)
    · rw [hprint]
      exact ⟨hopen.found, hopen.opens, hopen.digest⟩
    · exact ⟨hname.symm, hsha.symm⟩
  · rw [hfree.store] at hno
    cases hno
  · exact absurd ht (hno _ _)

theorem Offered.sameFiles {s t : Store} (h : Offered env app req vendorId expiresAt token code count s)
    (hst : SameFiles s t) : Offered env app req vendorId expiresAt token code count t := by
  obtain ⟨hshares, hprints, hblobs⟩ := hst
  refine ⟨?_, h.file.sameFiles hprints hblobs⟩
  rw [hshares]
  exact h.row

theorem Offered.setBlob {s : Store} (h : Offered env app req vendorId expiresAt token code count s) {id : Uuid}
    (hid : id ≠ env.newId .print) (content : Option Bytes) :
    Offered env app req vendorId expiresAt token code count (s.setBlob (blobPathOf id) content) :=
  ⟨h.row, h.file.setBlob hid content⟩

theorem Offered.insertPrint {s : Store} (h : Offered env app req vendorId expiresAt token code count s)
    {new : PrintRow} {prints : Table PrintRow Bytes [PrintRow.id]}
    (hins : s.db.prints.insert new = some prints) :
    Offered env app req vendorId expiresAt token code count { s with db := { s.db with prints } } :=
  ⟨h.row, h.file.insertRow hins⟩

theorem Offered.insertShare {s : Store} (h : Offered env app req vendorId expiresAt token code count s)
    {new : ShareRow} {shares : Table ShareRow Bytes [ShareRow.id, ShareRow.tokenHash]}
    (hins : s.db.shares.insert new = some shares) :
    Offered env app req vendorId expiresAt token code count { s with db := { s.db with shares } } := by
  exact ⟨(Table.mem_of_insert hins).mpr (.inl h.row), h.file⟩

theorem Offered.revokeOther {s : Store} (h : Offered env app req vendorId expiresAt token code count s)
    {id : Uuid} (hid : id ≠ env.newId .share) (now : ℤ) {n : ℕ} {db : Db}
    (hdb : Db.revokeShare id.val now s.db = some (n, db)) :
    Offered env app req vendorId expiresAt token code count { s with db } := by
  cases hdb
  refine ⟨?_, h.file⟩
  apply Table.mem_update_of_false _ (ShareRow.revoked_keys now) h.row
  have hne : (env.newId .share).val ≠ id.val := fun he => hid (Subtype.ext he.symm)
  simp [sharedRow, newShareRow, hne]

/-- A slot taken by some request: of this share, by its bearer and in time, or of
another one. -/
theorem Offered.consume {w : World} (h : Offered env app req vendorId expiresAt token code count w.store)
    {env' : RequestEnv} {q : RedeemRequest} {r : ShareRow} {share : Share}
    (ht : Takes env' app w.store q r share) (hq : Tolerated env app token code (env', .redeemShare q)) :
    (timelyCall token code expiresAt (env', .redeemShare q) = true ∧
      Offered env app req vendorId expiresAt token code (count + 1) (w.afterConsume env' r).store) ∨
    Offered env app req vendorId expiresAt token code count (w.afterConsume env' r).store := by
  by_cases hr : r = sharedRow env app req vendorId expiresAt token code count
  · subst hr
    obtain ⟨-, -, htime, -⟩ := consumable_iff.mp ht.usable
    have htoken : q.token = token := hq.token q rfl (Subtype.ext ht.token.symm)
    have hcode : q.accessCode = code := hq.code q rfl (Subtype.ext ht.code.symm)
    refine .inl ⟨?_, ?_, h.file⟩
    · simp only [timelyCall, htoken, hcode, decide_true, Bool.true_and, decide_eq_true_eq]
      exact htime
    · exact Table.mem_update_of_true ShareRow.consumed ShareRow.consumed_keys h.row ht.usable
  · refine .inr ⟨?_, h.file⟩
    apply Table.mem_update_of_false _ ShareRow.consumed_keys h.row
    rw [Bool.eq_false_iff]
    intro hcons
    exact hr (share_of_id ht.row h.row (consumable_iff.mp hcons).1.symm)

/-- The step lemma: an operation that comes in between takes a slot only as a timely
call of the bearer. -/
theorem Offered.step {w : World} (h : Offered env app req vendorId expiresAt token code count w.store)
    {op : RequestEnv × Request} (hop : Tolerated env app token code op) :
    ∃ n : ℕ, n ≤ (if timelyCall token code expiresAt op then 1 else 0) ∧
      Offered env app req vendorId expiresAt token code (count + n) (handle op.1 app op.2 w).2.store := by
  have F : Frame fun s t : Store => Offered env app req vendorId expiresAt token code count s →
      Offered env app req vendorId expiresAt token code count t :=
    ⟨fun _ => id, fun h h' => h' ∘ h⟩
  have hkeep : ∀ {t : Store}, Offered env app req vendorId expiresAt token code count t →
      ∃ n : ℕ, n ≤ (if timelyCall token code expiresAt op then 1 else 0) ∧
        Offered env app req vendorId expiresAt token code (count + n) t :=
    fun ht => ⟨0, Nat.zero_le _, by simpa using ht⟩
  obtain ⟨env', request⟩ := op
  cases request with
  | redeemShare q =>
      rw [handle, replying_state]
      rcases redeemShare_cases env' app q w with ⟨-, r, share, ht, hstore, -⟩ | ⟨-, hstore, -⟩
      · rw [hstore]
        rcases h.consume ht hop with ⟨hcall, hnext⟩ | hsame
        · exact ⟨1, by rw [if_pos hcall], hnext⟩
        · exact hkeep hsame
      · rw [hstore]
        exact hkeep h
  | createShare q =>
      rw [handle, replying_state]
      refine hkeep (moves_createShare F q ?_ ?_ ?_ ?_ w h)
      · exact fun s row vendors _ hs => hs.sameFiles ⟨rfl, rfl, rfl⟩
      · exact fun s content hs => hs.setBlob (hop.fresh q rfl) content
      · exact fun s row prints _ hins hs => hs.insertPrint hins
      · exact fun s row shares _ hins hs => hs.insertShare hins
  | revokeShare s u ip ua =>
      rw [handle, replying_state]
      refine hkeep (moves_blocking F ((onStore_frame F).bind (moves_onStore ?_) fun _ =>
        moves_withAudit F (moves_writeEvent F _ _ _ _ _ _ _)) w h)
      refine F.bind (moves_execute F _ ?_) fun _ => F.failIf _ _
      intro t n db hdb ht
      exact ht.revokeOther (fun hs => hop.unrevoked u ip ua (by rw [hs])) _ hdb
  | login | logout | findAuthenticated | listAuditEvents | mintApiToken | listApiTokens | revokeApiToken
  | verifyApiToken | listRecentShares =>
      refine hkeep (h.sameFiles (handle_sameFiles env' app _ ?_ ?_ ?_ w))
      · intro r hr
        cases hr
      · intro r hr
        cases hr
      · intro s u ip ua hr
        cases hr

/-- A redemption under a known token does not panic, so both mutexes stay free. -/
theorem Offered.stepFree {w : World} (h : Offered env app req vendorId expiresAt token code count w.store)
    (hfree : Free w) {op : RequestEnv × Request}
    (hop : (∀ q, op.2 = .redeemShare q → q.token ≠ token) →
      (handle op.1 app op.2 w).1 ≠ .err (.internal .taskPanicked)) : Free (handle op.1 app op.2 w).2 := by
  by_cases hbears : ∃ q, op.2 = .redeemShare q ∧ q.token = token
  · obtain ⟨q, hq, rfl⟩ := hbears
    have hharm : Harmless app w.store op.1 q := fun _ => .inl ⟨_, h.row, rfl⟩
    rw [hq, handle, replying_state]
    exact ((handledStep_iff q hfree).mpr hharm).free
  · exact (handle_orderly op.1 app op.2 hfree).free (hop fun q hq ht => hbears ⟨q, hq, ht⟩)

theorem Offered.run {w : World} (h : Offered env app req vendorId expiresAt token code count w.store)
    (hfree : Free w) {ops : List (RequestEnv × Request)} (hops : ∀ op ∈ ops, Tolerated env app token code op)
    (hcalm : Undisturbed app token w ops) :
    Free (serve app w ops) ∧ ∃ n : ℕ, n ≤ ops.countP (timelyCall token code expiresAt) ∧
      Offered env app req vendorId expiresAt token code (count + n) (serve app w ops).store := by
  induction ops generalizing w count with
  | nil => exact ⟨hfree, 0, Nat.zero_le _, by simpa [serve] using h⟩
  | cons op ops ih =>
      obtain ⟨hop, hrest⟩ := List.forall_mem_cons.mp hops
      obtain ⟨n, hn, hstep⟩ := h.step hop
      obtain ⟨hend, m, hm, hrun⟩ := ih hstep (h.stepFree hfree hcalm.1) hrest hcalm.2
      refine ⟨hend, n + m, ?_, ?_⟩
      · rw [List.countP_cons]
        omega
      · rw [Nat.cast_add, ← add_assoc]
        exact hrun

end

/-- Delivery end to end: after a successful upload, and after any run of tolerated
operations with fewer timely calls of the bearer than the share has slots, one more
such call gets the bytes, the name and the digest of the upload. -/
theorem redeemShare_delivers {env : RequestEnv} {app : App} {req : NewShareRequest} {w w' : World}
    {created : ShareCreated} {token : Text} {expiresAt : OffsetDateTime} (hB : app.bcrypt.Documented)
    (hserde : app.serde.Documented) (hlen : req.printBytes.length < 2 ^ 32)
    (hcreate : createShare env app req w = (.ok created, w'))
    (htoken : created.shareUrl = shareUrl app token) (hexpiry : expiryOf env req = some expiresAt)
    {ops : List (RequestEnv × Request)} (hops : ∀ op ∈ ops, Tolerated env app token created.accessCode op)
    (hcalm : Undisturbed app token w' ops)
    (hcalls : ops.countP (timelyCall token created.accessCode expiresAt) < req.maxDownloads.toNat)
    {env' : RequestEnv} (hquiet : env'.Quiet) (hfault : env'.auditFault = none) {ip ua : Text}
    (hcall : timelyCall token created.accessCode expiresAt
      (env', .redeemShare ⟨token, created.accessCode, ip, ua⟩) = true) :
    (redeemShare env' app ⟨token, created.accessCode, ip, ua⟩ (serve app w' ops)).1 =
      .ok ⟨req.printFilename, req.printBytes, app.bcrypt.hash req.printBytes⟩ := by
  obtain ⟨vendorId, expiresAt', token', hexpiry', htoken', -, hoffered, hopen⟩ :=
    createShare_ok hB hlen hcreate
  obtain rfl := shareUrl_injective (htoken.symm.trans htoken')
  obtain rfl := Option.some.inj (hexpiry'.symm.trans hexpiry)
  obtain ⟨hfree, n, hn, hrun⟩ := hoffered.run hopen hops hcalm
  rw [← Cng.sha256_of_lt app.bcrypt hlen]
  apply hrun.redeems hserde hquiet hfault hfree (by omega)
  simpa [timelyCall] using hcall

def sampleBearer : RedeemRequest where
  token := sampleToken
  accessCode := sampleCode
  ip := "198.51.100.7".toList
  userAgent := []

def otherBearer : RedeemRequest :=
  { sampleBearer with token := "AQEBAQEBAQEBAQEBAQEBAQ".toList, accessCode := "333-333-333-333-333".toList }

def sampleExpiry : OffsetDateTime := ⟨86400000000000, 0, by decide⟩

def sampleRun : List (RequestEnv × Request) :=
  [(quietEnv, .listRecentShares 5), (quietEnv, .redeemShare sampleBearer)]

theorem sampleRun_tolerated : ∀ op ∈ sampleRun, Tolerated quietEnv sampleApp sampleToken sampleCode op := by
  intro op hop
  rcases List.mem_pair.mp hop with rfl | rfl
  · constructor <;> intros <;> simp_all
  · constructor
    · exact fun _ _ _ h => by cases h
    · exact fun _ h => by cases h
    · intro q hq _
      cases hq
      rfl
    · intro q hq _
      cases hq
      rfl

theorem redeemShare_delivers_sample :
    (redeemShare quietEnv sampleApp sampleBearer (serve sampleApp sharedWorld sampleRun)).1 =
      .ok ⟨sampleUpload.printFilename, sampleUpload.printBytes,
        sampleApp.bcrypt.hash sampleUpload.printBytes⟩ := by
  have hlen : sampleUpload.printBytes.length < 2 ^ 32 := by decide
  have hexpiry : expiryOf quietEnv sampleUpload = some sampleExpiry := by decide
  have hcall : timelyCall sampleToken sampleCode sampleExpiry (quietEnv, .redeemShare sampleBearer) = true := by
    decide
  have hlisted : (handle quietEnv sampleApp (.listRecentShares 5) sharedWorld).1.value.isSome = true := by
    decide +kernel
  have hcalm : Undisturbed sampleApp sampleToken sharedWorld sampleRun := by
    refine ⟨fun _ herr => ?_, fun hother => absurd rfl (hother sampleBearer rfl), trivial⟩
    have hnone := congrArg (fun o => o.value.isSome) herr
    exact Bool.noConfusion (hlisted.symm.trans hnone)
  exact redeemShare_delivers Bcrypt.reference_documented Audit.SerdeJson.reference_documented hlen
    createShare_sample rfl hexpiry sampleRun_tolerated hcalm (by decide) (fun _ => rfl) rfl hcall

end FipsDropbox.Service
