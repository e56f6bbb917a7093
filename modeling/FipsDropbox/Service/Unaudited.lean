import FipsDropbox.Service.Attested

/-!
# Changes that the log does not know of

Five operations commit their row first and append their event last. When the event
cannot be written the caller sees an error, and the row stays as it was committed.
-/
namespace FipsDropbox.Service
open Utf8 Exec Crypto Storage

/-- The operations on sessions, tokens and shares. -/
inductive Change where
  | login (req : LoginRequest)
  | logout (rawToken ip ua : Text)
  | mintApiToken (byUser : Uuid) (label ip ua : Text)
  | revokeShare (shareId byUser : Uuid) (ip ua : Text)
  | revokeApiToken (tokenId byUser : Uuid) (ip ua : Text)

def Change.request : Change → Request
  | .login req => .login req
  | .logout rawToken ip ua => .logout rawToken ip ua
  | .mintApiToken u label ip ua => .mintApiToken u label ip ua
  | .revokeShare s u ip ua => .revokeShare s u ip ua
  | .revokeApiToken t u ip ua => .revokeApiToken t u ip ua

/-- The event cannot be written. -/
def AuditFails (env : RequestEnv) (w : World) : Prop := w.auditPoisoned = true ∨ env.auditFault ≠ none

/-- Sessions, shares and tokens are what they were, but for when they were last seen. -/
structure SameGrants (s t : Store) : Prop where
  sessions : t.db.sessions.rows.map SessionRow.lasting = s.db.sessions.rows.map SessionRow.lasting
  shares : t.db.shares = s.db.shares
  tokens : t.db.apiTokens.rows.map ApiTokenRow.lasting = s.db.apiTokens.rows.map ApiTokenRow.lasting

/-- A call whose event cannot be written fails and has no lasting effect. -/
def LeavesNoTrace (env : RequestEnv) (app : App) (c : Change) (w : World) : Prop :=
  AuditFails env w → (∃ e, (handle env app c.request w).1 = .err e) ∧
    SameGrants w.store (handle env app c.request w).2.store

/-- What the call commits before its event. -/
def Change.Lands (env : RequestEnv) (app : App) (s : Store) : Change → Prop
  | .login req => ∃ user, Authenticates env.toEnv app.bcrypt s req.email req.password user ∧
      OpensSession env.toEnv app.bcrypt s user.id Sessions.defaultTtlHours
  | .logout rawToken _ _ => FindsSession env.toEnv app.bcrypt s rawToken ∧
      (env.fails .hashSessionRevoke = false ∧ env.fails .deleteSession = false) ∧
      ∃ r ∈ s.db.sessions.rows, r.id = (Cng.sha256 app.bcrypt (encode rawToken)).val
  | .mintApiToken u _ _ _ => MintsToken env.toEnv app.bcrypt s u
  | .revokeShare shareId _ _ _ => env.fails .updateShareRevoked = false ∧
      ∃ r ∈ s.db.shares.rows, r.id = shareId.val ∧ r.revokedAt = none
  | .revokeApiToken tokenId _ _ _ => env.fails .updateApiTokenRevoked = false ∧
      ∃ r ∈ s.db.apiTokens.rows, r.id = tokenId.val ∧ r.revokedAt = none

section
variable {env : RequestEnv} {app : App} {α β : Type}

theorem Logged.audits {w w' : World} {ev : Audit.Event} (h : Logged env app w w' ev) : ¬ AuditFails env w := by
  obtain ⟨hfree, log, hwrite⟩ := h
  rintro (hp | hfault)
  · rw [hfree] at hp
    cases hp
  · rcases Audit.write_cases hwrite with ⟨hr, -⟩ | ⟨e, -, hr, -⟩ | ⟨e, line, -, -, -, -, ⟨hf, -⟩ | ⟨-, hr⟩⟩
    · exact hr rfl
    · exact hr rfl
    · exact hfault hf
    · exact hr rfl

/-- No operation panics in the face of its caller. -/
theorem handle_calm (env : RequestEnv) (app : App) (c : Change) : Calm (handle env app c.request) := by
  cases c with
  | login | logout | mintApiToken | revokeShare | revokeApiToken =>
      exact calm_bind (spawnBlocking_calm _) fun _ => calm_pure _

theorem handle_errs (c : Change) {w : World} (h : AuditFails env w) :
    ∃ e, (handle env app c.request w).1 = .err e := by
  cases hout : (handle env app c.request w).1 with
  | err e => exact ⟨e, rfl⟩
  | panic => exact absurd hout (handle_calm env app c w)
  | ok reply =>
      have hrun : handle env app c.request w = (.ok reply, (handle env app c.request w).2) :=
        Prod.ext hout rfl
      cases c with
      | login req =>
          obtain ⟨issued, w1, hok, -⟩ := bind_ok_iff.mp hrun
          exact absurd h (login_logged hok).audits
      | logout rawToken ip ua =>
          obtain ⟨_, w1, hok, -⟩ := bind_ok_iff.mp hrun
          obtain ⟨userId, hlogged⟩ := logout_logged hok
          exact absurd h hlogged.audits
      | mintApiToken u label ip ua =>
          obtain ⟨issued, w1, hok, -⟩ := bind_ok_iff.mp hrun
          exact absurd h (mintApiToken_logged hok).audits
      | revokeShare s u ip ua =>
          obtain ⟨_, w1, hok, -⟩ := bind_ok_iff.mp hrun
          exact absurd h (revokeShare_logged hok).audits
      | revokeApiToken t u ip ua =>
          obtain ⟨_, w1, hok, -⟩ := bind_ok_iff.mp hrun
          exact absurd h (revokeApiToken_logged hok).audits

theorem SameGrants.refl (s : Store) : SameGrants s s := ⟨rfl, rfl, rfl⟩

theorem sameGrants_of_seenOnly {s t : Store} (h : SeenOnly s t) : SameGrants s t :=
  ⟨h.sessions, h.shares, h.tokens⟩

/-- Rows that an update switches off are gone from its condition. -/
theorem update_changes {rows : List α} {p : α → Bool} {f : α → α} {g : α → β} (hoff : ∀ r, p r = true → p (f r) = false)
    (hg : ∀ r r', g r = g r' → p r = p r') {r : α} (hr : r ∈ rows) (hp : p r = true) :
    (rows.map fun r => if p r then f r else r).map g ≠ rows.map g := by
  intro h
  have hmem : g r ∈ (rows.map fun r => if p r then f r else r).map g := h ▸ List.mem_map_of_mem hr
  obtain ⟨r', hr', hgr⟩ := List.mem_map.mp hmem
  obtain ⟨q, -, rfl⟩ := List.mem_map.mp hr'
  have hon : p (if p q then f q else q) = true := (hg _ _ hgr).trans hp
  by_cases hq : p q = true
  · rw [if_pos hq, hoff q hq] at hon
    cases hon
  · rw [if_neg hq] at hon
    exact hq hon

theorem stays_store {m : Exec World ServiceError α} (h : Moves (OnStore Stays) m) (w : World) :
    (m w).2.store = w.store := h w

/-- What is left of the store when only the event is still to come. -/
theorem onStore_last {m : Exec Store StorageError α} {k : α → Exec World ServiceError β}
    (hk : ∀ a, Moves (OnStore Stays) (k a)) (w : World) : ((onStore m >>= k) w).2.store = (m w.store).2 := by
  rcases bind_cases (onStore m) k w with ⟨a, w', hok, hrun⟩ | ⟨-, hstate, -⟩
  · rw [hrun]
    obtain ⟨s, hm, rfl⟩ := onStore_ok_iff.mp hok
    rw [hm]
    exact hk a { w with store := s }
  · rw [hstate, onStore_store]

theorem audited_store {m : Exec Store StorageError α} {k : α → Exec World ServiceError β} {w : World}
    (hk : ∀ a, Moves (OnStore Stays) (k a)) (hfree : w.storePoisoned = false) :
    (spawnBlocking (withStore (onStore m >>= k)) w).2.store = (m w.store).2 :=
  (withStore_free _ hfree).1.trans (onStore_last hk w)

theorem revokeApiToken_store (tokenId caller : Uuid) (ip ua : Text) {w : World} (hfree : w.storePoisoned = false) :
    (revokeApiToken env app tokenId caller ip ua w).2.store = (ApiTokens.revoke env.toEnv tokenId w.store).2 :=
  audited_store (fun _ => moves_withAudit stays_frame (moves_writeEvent stays_frame _ _ _ _ _ _ _)) hfree

/-- Whether a case of the change lands decides what becomes of the rows. -/
def Decided (lands : Prop) (s t : Store) : Prop := (lands ∧ ¬ SameGrants s t) ∨ (¬ lands ∧ SameGrants s t)

theorem login_decided (req : LoginRequest) {w : World} (hfree : w.storePoisoned = false) :
    Decided ((Change.login req).Lands env app w.store) w.store (login env app req w).2.store := by
  have F : Frame (Stays : Store → Store → Prop) := stays_frame
  have FW : Frame (OnStore (Stays : Store → Store → Prop)) := onStore_frame F
  rw [login, (withStore_free _ hfree).1]
  by_cases h : ∃ user t, Users.verifyPassword env.toEnv app.bcrypt req.email req.password w.store =
      (.ok (some user), t)
  · obtain ⟨user, t, hrun⟩ := h
    obtain ⟨hauth, rfl⟩ := verifyPassword_some_iff.mp hrun
    have hlands : (Change.login req).Lands env app w.store ↔
        OpensSession env.toEnv app.bcrypt w.store user.id Sessions.defaultTtlHours := by
      constructor
      · rintro ⟨user', hauth', hopen⟩
        obtain ⟨hsame, -⟩ := Prod.mk.inj ((verifyPassword_some_iff.mpr ⟨hauth', rfl⟩).symm.trans hrun)
        obtain rfl := Option.some.inj (Outcome.ok.inj hsame)
        exact hopen
      · exact fun hopen => ⟨user, hauth, hopen⟩
    rw [Decided, hlands, bind_ok (onStore_ok hrun)]
    dsimp only
    rw [onStore_last fun _ => moves_audited F (FW.pure _)]
    rcases createSession_cases env.toEnv app.bcrypt user.id req.ip req.userAgent Sessions.defaultTtlHours
        w.store with ⟨hopen, issued, sessions, hlen, hcreate⟩ | ⟨hno, -, hsame⟩
    · refine .inl ⟨hopen, ?_⟩
      rw [hcreate]
      intro hsame
      have hlength := congrArg List.length hsame.sessions
      simp [hlen] at hlength
    · exact .inr ⟨hno, by rw [hsame]; exact SameGrants.refl _⟩
  · refine .inr ⟨?_, ?_⟩
    · rintro ⟨user, hauth, -⟩
      exact h ⟨user, w.store, verifyPassword_some_iff.mpr ⟨hauth, rfl⟩⟩
    · have hread : (Users.verifyPassword env.toEnv app.bcrypt req.email req.password w.store).2 = w.store :=
        moves_verifyPassword F _ _ _
      rcases bind_cases (onStore (Users.verifyPassword env.toEnv app.bcrypt req.email req.password)) _ w with
        ⟨maybeUser, w', hok, hrun⟩ | ⟨-, hstate, -⟩
      · obtain ⟨t, hverify, rfl⟩ := onStore_ok_iff.mp hok
        rw [hrun]
        cases maybeUser with
        | some user => exact absurd ⟨user, t, hverify⟩ h
        | none =>
            rw [hverify] at hread
            obtain rfl : t = w.store := hread
            rw [stays_store (moves_audited F (FW.throw _))]
            exact SameGrants.refl _
      · rw [hstate, onStore_store, hread]
        exact SameGrants.refl _

theorem logout_decided (rawToken ip ua : Text) {w : World} (hfree : w.storePoisoned = false) :
    Decided ((Change.logout rawToken ip ua).Lands env app w.store) w.store
      (logout env app rawToken ip ua w).2.store := by
  have F : Frame (Stays : Store → Store → Prop) := stays_frame
  rw [logout, (withStore_free _ hfree).1]
  rcases findValidSession_cases env.toEnv app.bcrypt rawToken w.store with
    ⟨hfinds, t, hseen, hfound⟩ | ⟨hno, e, hrun⟩
  · obtain ⟨sess, hrun⟩ : ∃ sess, Sessions.findValid env.toEnv app.bcrypt rawToken w.store = (.ok sess, t) := by
      rcases hfound with ⟨-, hrun⟩ | ⟨r, sess, -, -, hrun⟩
      · exact ⟨none, hrun⟩
      · exact ⟨some sess, hrun⟩
    rw [bind_ok (onStore_ok hrun), onStore_last fun _ => moves_withAudit F (moves_writeEvent F _ _ _ _ _ _ _)]
    dsimp only
    rcases revokeSession_cases env.toEnv app.bcrypt rawToken t with ⟨hcalls, hrevoke⟩ | ⟨hno, e, hrevoke⟩
    · rw [hrevoke]
      have hids : t.db.sessions.rows.map SessionRow.id = w.store.db.sessions.rows.map SessionRow.id := by
        simpa [List.map_map, Function.comp_def, SessionRow.lasting] using
          congrArg (List.map SessionRow.id) hseen.sessions
      have hrow : (∃ r ∈ t.db.sessions.rows, r.id = (Cng.sha256 app.bcrypt (encode rawToken)).val) ↔
          ∃ r ∈ w.store.db.sessions.rows, r.id = (Cng.sha256 app.bcrypt (encode rawToken)).val := by
        rw [← List.mem_map, ← List.mem_map, hids]
      by_cases hlive : ∃ r ∈ t.db.sessions.rows, r.id = (Cng.sha256 app.bcrypt (encode rawToken)).val
      · refine .inl ⟨⟨hfinds, hcalls, hrow.mp hlive⟩, ?_⟩
        intro hsame
        obtain ⟨r, hr, hid⟩ := hlive
        have hless : (t.db.sessions.delete fun r =>
            r.id = (Cng.sha256 app.bcrypt (encode rawToken)).val).2.rows.length < t.db.sessions.rows.length :=
          List.length_filter_lt_length_iff_exists.mpr ⟨r, hr, by simp [hid]⟩
        have hlength := congrArg List.length (hsame.sessions.trans hseen.sessions.symm)
        rw [List.length_map, List.length_map] at hlength
        exact absurd hlength hless.ne
      · refine .inr ⟨fun h => hlive (hrow.mpr h.2.2), ?_⟩
        have hkept : (t.db.sessions.delete fun r => r.id = (Cng.sha256 app.bcrypt (encode rawToken)).val).2.rows =
            t.db.sessions.rows := by
          apply List.filter_eq_self.mpr
          intro r hr
          simpa using fun hid => hlive ⟨r, hr, hid⟩
        refine ⟨?_, hseen.shares, hseen.tokens⟩
        rw [← hseen.sessions]
        exact congrArg (List.map SessionRow.lasting) hkept
    · rw [hrevoke]
      exact .inr ⟨fun h => hno h.2.1, sameGrants_of_seenOnly hseen⟩
  · rw [bind_err (onStore_err hrun)]
    exact .inr ⟨fun h => hno h.1, SameGrants.refl _⟩

/-- Either the call commits its row, or it leaves sessions, shares and tokens as they
were. -/
theorem change_decided (c : Change) {w : World} (hfree : w.storePoisoned = false) :
    Decided (c.Lands env app w.store) w.store (handle env app c.request w).2.store := by
  have F : Frame (Stays : Store → Store → Prop) := stays_frame
  cases c with
  | login req =>
      rw [Change.request, handle, replying_state]
      exact login_decided req hfree
  | logout rawToken ip ua =>
      rw [Change.request, handle, replying_state]
      exact logout_decided rawToken ip ua hfree
  | mintApiToken u label ip ua =>
      have hstore : (mintApiToken env app u label ip ua w).2.store =
          (ApiTokens.create env.toEnv app.bcrypt u label w.store).2 :=
        audited_store (fun _ => moves_audited F ((onStore_frame F).pure _)) hfree
      rw [Change.request, handle, replying_state, hstore]
      rcases createApiToken_cases env.toEnv app.bcrypt u label w.store with
        ⟨hmint, issued, apiTokens, hlen, hcreate⟩ | ⟨hno, -, hsame⟩
      · refine .inl ⟨hmint, ?_⟩
        rw [hcreate]
        intro hsame
        have hlength := congrArg List.length hsame.tokens
        simp [hlen] at hlength
      · exact .inr ⟨hno, by rw [hsame]; exact SameGrants.refl _⟩
  | revokeShare s u ip ua =>
      have hstore : (revokeShare env app s u ip ua w).2.store = (Shares.revoke env.toEnv s w.store).2 :=
        audited_store (fun _ => moves_withAudit F (moves_writeEvent F _ _ _ _ _ _ _)) hfree
      rw [Change.request, handle, replying_state, hstore]
      rcases revokeShare_cases env.toEnv s w.store with ⟨hlands, hrun⟩ | ⟨hno, e, hrun⟩
      · refine .inl ⟨hlands, ?_⟩
        obtain ⟨-, r, hr, hid, hrevoked⟩ := hlands
        rw [hrun]
        intro hsame
        refine update_changes ?_ ?_ hr (by simp [hid, hrevoked])
          (congrArg (fun t => t.rows.map id) hsame.shares)
        · intro r _
          simp [ShareRow.revoked]
        · intro r r' h
          obtain rfl : r = r' := h
          rfl
      · rw [hrun]
        exact .inr ⟨hno, SameGrants.refl _⟩
  | revokeApiToken t u ip ua =>
      rw [Change.request, handle, replying_state, revokeApiToken_store t u ip ua hfree]
      rcases revokeApiToken_cases env.toEnv t w.store with ⟨hlands, hrun⟩ | ⟨hno, e, hrun⟩
      · refine .inl ⟨hlands, ?_⟩
        obtain ⟨-, r, hr, hid, hrevoked⟩ := hlands
        rw [hrun]
        intro hsame
        refine update_changes ?_ ?_ hr (by simp [hid, hrevoked]) hsame.tokens
        · intro r _
          simp [ApiTokenRow.revoked]
        · intro r r' h
          have hid' : r.lasting.id = r'.lasting.id := congrArg ApiTokenRow.id h
          have hrev : r.lasting.revokedAt = r'.lasting.revokedAt := congrArg ApiTokenRow.revokedAt h
          change (decide (r.lasting.id = t.val) && r.lasting.revokedAt.isNone) = _
          rw [hid', hrev]
          rfl
      · rw [hrun]
        exact .inr ⟨hno, SameGrants.refl _⟩

/-- A change leaves no trace of a failed audit exactly when none of its rows has
landed. -/
theorem leavesNoTrace_iff (c : Change) (w : World) :
    LeavesNoTrace env app c w ↔
      (AuditFails env w → w.storePoisoned = true ∨ ¬ c.Lands env app w.store) := by
  by_cases ha : AuditFails env w
  · have herr : ∃ e, (handle env app c.request w).1 = .err e := handle_errs c ha
    simp only [LeavesNoTrace, ha, herr, true_and, true_implies]
    cases hp : w.storePoisoned with
    | true =>
        have hsame : (handle env app c.request w).2 = w := by
          cases c <;> rw [Change.request, handle, replying_state] <;> exact congrArg Prod.snd (withStore_poisoned _ hp)
        rw [hsame]
        exact iff_of_true (SameGrants.refl _) (.inl rfl)
    | false =>
        have hdecided : Decided (c.Lands env app w.store) w.store (handle env app c.request w).2.store :=
          change_decided c hp
        rcases hdecided with ⟨hlands, hno⟩ | ⟨hno, hsame⟩
        · simp [hlands, hno]
        · simp [hno, hsame]
  · exact iff_of_true (fun h => absurd h ha) fun h => absurd h ha

end

/-- A token is minted for the sample user on a disk that takes no more audit lines. -/
def unauditedMint : Change :=
  .mintApiToken ⟨sampleUser.id, rfl⟩ "laptop".toList "203.0.113.9".toList []

/-- The caller sees an error, and the token is there. -/
theorem unaudited_token_stays : ¬ LeavesNoTrace fullAuditDisk sampleApp unauditedMint sampleWorld := by
  have hlen : (handle fullAuditDisk sampleApp unauditedMint.request sampleWorld).2.store.db.apiTokens.rows.length =
      1 := by
    decide +kernel
  intro h
  obtain ⟨-, hsame⟩ := h (.inr (by simp [fullAuditDisk]))
  have hlength := congrArg List.length hsame.tokens
  rw [List.length_map, List.length_map, hlen] at hlength
  exact absurd hlength (by decide)

end FipsDropbox.Service
