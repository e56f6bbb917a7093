import FipsDropbox.Lib.Runs
import FipsDropbox.Service.Refusals

/-!
# Where credentials come from

A session comes of a sign-in with the password of its user, and a token of a minting for
its user; each answers to the secret that was drawn then. No other operation of the service
adds a credential to the store.
-/
namespace FipsDropbox.Service
open Utf8 Exec Crypto Storage

/-- What a row of `sessions` or `api_tokens` stands for, whenever it was last seen. -/
inductive Credential where
  | session (hash userId : Bytes) (expiresAt : ℤ)
  | apiToken (hash userId : Bytes)

def held (s : Store) : Set Credential :=
  {c | (∃ r ∈ s.db.sessions.rows, c = .session r.id r.userId r.expiresAt) ∨
    ∃ r ∈ s.db.apiTokens.rows, c = .apiToken r.tokenHash r.userId}

/-- What an operation may add. -/
def granted (app : App) (w : World) : RequestEnv × Request → Set Credential
  | (env, .login q) => {c | ∃ user drawn expiresAt,
      Authenticates env.toEnv app.bcrypt w.store q.email q.password user ∧
      env.random .sessionToken 32 = some drawn ∧
      (env.now .sessionCreated).time.add (Sessions.defaultTtlHours * Sessions.nanosPerHour) = some expiresAt ∧
      c = .session (secretHash app (urlSafeBase64 drawn.val)).val user.id.val (dtToMillis expiresAt)}
  | (env, .mintApiToken byUser _ _ _) => {c | ∃ drawn, env.random .apiToken 32 = some drawn ∧
      c = .apiToken (secretHash app (tokenPrefix ++ urlSafeBase64 drawn.val)).val byUser.val}
  | _ => ∅

/-- At most `G` is added. -/
def Adds (G : Set Credential) (s t : Store) : Prop := held t ⊆ held s ∪ G

theorem adds_frame (G : Set Credential) : Frame (Adds G) where
  refl _ := Set.subset_union_left
  trans h h' := h'.trans (Set.union_subset h Set.subset_union_right)

section
variable {G : Set Credential} {s t : Store}

theorem adds_of_eq (hs : t.db.sessions = s.db.sessions) (ht : t.db.apiTokens = s.db.apiTokens) : Adds G s t := by
  intro c hc
  rw [held, hs, ht] at hc
  exact .inl hc

theorem SeenOnly.adds (h : SeenOnly s t) : Adds G s t := by
  rintro c (⟨r, hr, rfl⟩ | ⟨r, hr, rfl⟩)
  · obtain ⟨r0, hr0, hlasting⟩ := List.mem_map.mp (h.sessions ▸ List.mem_map_of_mem hr)
    obtain ⟨hid, huser, -, -, -, hexpiry, -⟩ := SessionRow.mk.inj hlasting
    exact .inl (.inl ⟨r0, hr0, by rw [hid, huser, hexpiry]⟩)
  · obtain ⟨r0, hr0, hlasting⟩ := List.mem_map.mp (h.tokens ▸ List.mem_map_of_mem hr)
    obtain ⟨-, huser, -, hhash, -⟩ := ApiTokenRow.mk.inj hlasting
    exact .inl (.inr ⟨r0, hr0, by rw [hhash, huser]⟩)

variable {env : Env} {B : Bcrypt}

theorem findValidSession_adds (rawToken : Text) : Moves (Adds G) (Sessions.findValid env B rawToken) := by
  intro s
  rcases findValidSession_cases env B rawToken s with
    ⟨-, t, hseen, ⟨-, hrun⟩ | ⟨_, _, -, -, hrun⟩⟩ | ⟨-, e, hrun⟩ <;> rw [hrun]
  · exact SeenOnly.adds hseen
  · exact SeenOnly.adds hseen
  · exact (adds_frame G).refl s

theorem findValidByRaw_adds (rawToken : Text) : Moves (Adds G) (ApiTokens.findValidByRaw env B rawToken) := by
  intro s
  rcases findValidByRaw_cases env B rawToken s with
    ⟨-, hrun⟩ | ⟨-, -, t, hseen, ⟨-, hrun⟩ | ⟨_, _, -, -, hrun⟩⟩ | ⟨-, -, e, hrun⟩ <;> rw [hrun]
  · exact (adds_frame G).refl s
  · exact SeenOnly.adds hseen
  · exact SeenOnly.adds hseen
  · exact (adds_frame G).refl s

theorem revokeSession_adds (rawToken : Text) : Moves (Adds G) (Sessions.revoke env B rawToken) := by
  intro s
  rcases revokeSession_cases env B rawToken s with ⟨-, hrun⟩ | ⟨-, e, hrun⟩ <;> rw [hrun]
  · rintro c (⟨r, hr, rfl⟩ | htoken)
    · rw [Table.delete_rows] at hr
      exact .inl (.inl ⟨r, List.mem_of_mem_filter hr, rfl⟩)
    · exact .inl (.inr htoken)
  · exact (adds_frame G).refl s

theorem revokeApiToken_adds (id : Uuid) : Moves (Adds G) (ApiTokens.revoke env id) := by
  intro s
  rcases revokeApiToken_cases env id s with ⟨-, hrun⟩ | ⟨-, e, hrun⟩ <;> rw [hrun]
  · rintro c (hsession | ⟨r, hr, rfl⟩)
    · exact .inl (.inl hsession)
    · rw [Table.update_rows] at hr
      obtain ⟨r0, hr0, rfl⟩ := List.mem_map.mp hr
      refine .inl (.inr ⟨r0, hr0, ?_⟩)
      split_ifs <;> rfl
  · exact (adds_frame G).refl s

theorem createSession_adds {userId : Uuid} {ttlHours : ℤ} (ip ua : Text)
    (hG : ∀ drawn expiresAt, env.random .sessionToken 32 = some drawn →
      (env.now .sessionCreated).time.add (ttlHours * Sessions.nanosPerHour) = some expiresAt →
      .session (Cng.sha256 B (encode (urlSafeBase64 drawn.val))).val userId.val (dtToMillis expiresAt) ∈ G) :
    Moves (Adds G) (Sessions.create env B userId ip ua ttlHours) := by
  intro s
  rcases createSession_cases env B userId ip ua ttlHours s with ⟨-, issued, sessions, -, hrun⟩ | ⟨-, -, hsame⟩
  · obtain ⟨-, -, -, raw, csrfToken, expiresAt, sessions', hraw, -, hexpiry, hins, -, ht⟩ :=
      createSession_ok_iff.mp hrun
    rw [hrun, ht]
    rintro c (⟨r, hr, rfl⟩ | htoken)
    · rcases (Table.mem_of_insert hins).mp hr with hr | rfl
      · exact .inl (.inl ⟨r, hr, rfl⟩)
      · exact .inr (hG raw expiresAt hraw hexpiry)
    · exact .inl (.inr htoken)
  · rw [hsame]
    exact (adds_frame G).refl s

theorem createApiToken_adds {userId : Uuid} (label : Text) (hG : ∀ drawn, env.random .apiToken 32 = some drawn →
      .apiToken (Cng.sha256 B (encode (tokenPrefix ++ urlSafeBase64 drawn.val))).val userId.val ∈ G) :
    Moves (Adds G) (ApiTokens.create env B userId label) := by
  intro s
  rcases createApiToken_cases env B userId label s with ⟨-, issued, tokens, -, hrun⟩ | ⟨-, -, hsame⟩
  · obtain ⟨-, -, -, raw, tokens', hraw, hins, -, ht⟩ := createApiToken_ok_iff.mp hrun
    rw [hrun, ht]
    rintro c (hsession | ⟨r, hr, rfl⟩)
    · exact .inl (.inl hsession)
    · rcases (Table.mem_of_insert hins).mp hr with hr | rfl
      · exact .inl (.inr ⟨r, hr, rfl⟩)
      · exact .inr (hG raw hraw)
  · rw [hsame]
    exact (adds_frame G).refl s

end

section
variable {app : App} {w : World}

theorem login_adds (env : RequestEnv) (q : LoginRequest) :
    Adds (granted app w (env, .login q)) w.store (login env app q w).2.store := by
  have F := adds_frame (granted app w (env, .login q))
  have FW := onStore_frame F
  have hverify : Moves Stays (Users.verifyPassword env.toEnv app.bcrypt q.email q.password) :=
    moves_verifyPassword stays_frame q.email q.password
  cases hp : w.storePoisoned with
  | true =>
      rw [login, withStore_poisoned _ hp]
      exact F.refl w.store
  | false =>
      rw [login, (withStore_free _ hp).1]
      rcases onStore_bind_cases (Users.verifyPassword env.toEnv app.bcrypt q.email q.password) _ w with
        ⟨found, t, hrun, hrest⟩ | ⟨-, hstate⟩
      · obtain rfl : t = w.store := hverify.of_run hrun
        rw [hrest]
        cases found with
        | none => exact moves_audited F (FW.throw _) w
        | some user =>
            obtain ⟨hauth, -⟩ := verifyPassword_some_iff.mp hrun
            refine FW.bind (moves_onStore (createSession_adds q.ip q.userAgent ?_)) (fun _ =>
              moves_audited F (FW.pure _)) w
            exact fun drawn expiresAt hdrawn hexpiry => ⟨user, drawn, expiresAt, hauth, hdrawn, hexpiry, rfl⟩
      · rw [hstate, hverify w.store]
        exact F.refl w.store

/-- The step lemma. -/
theorem handle_adds (op : RequestEnv × Request) : Adds (granted app w op) w.store (handle op.1 app op.2 w).2.store := by
  have F := adds_frame (granted app w op)
  have FW := onStore_frame F
  obtain ⟨env, req⟩ := op
  cases req with
  | login q =>
      rw [handle, replying_state]
      exact login_adds env q
  | logout rawToken ip ua =>
      exact moves_replying F (moves_blocking F (FW.bind (moves_onStore (findValidSession_adds rawToken)) fun _ =>
        FW.bind (moves_onStore (revokeSession_adds rawToken)) fun _ =>
        moves_withAudit F (moves_writeEvent F _ _ _ _ _ _ _))) w
  | findAuthenticated rawToken =>
      rw [handle, findAuthenticated_eq]
      exact moves_replying F (moves_bearerUser F (findValidSession_adds rawToken) _) w
  | createShare q =>
      exact moves_replying F (moves_createShare F q (fun _ _ _ _ => adds_of_eq rfl rfl) (fun _ _ => adds_of_eq rfl rfl)
        (fun _ _ _ _ _ => adds_of_eq rfl rfl) fun _ _ _ _ _ => adds_of_eq rfl rfl) w
  | redeemShare q => exact moves_replying F (moves_redeemShare F env app q fun _ _ _ => adds_of_eq rfl rfl) w
  | listAuditEvents p limit =>
      exact moves_replying F (moves_task (moves_withAudit F (FW.bind (FW.failIf _ _) fun _ =>
        FW.bind (FW.read _) fun _ => FW.bind (FW.lift _ _) fun _ => FW.bind (FW.lift _ _) fun _ => FW.pure _))) w
  | mintApiToken byUser label ip ua =>
      exact moves_replying F (moves_blocking F (FW.bind (moves_onStore (createApiToken_adds label fun drawn hdrawn =>
        ⟨drawn, hdrawn, rfl⟩)) fun _ => moves_audited F (FW.pure _))) w
  | listApiTokens userId => exact moves_replying F (moves_blocking F (moves_onStore (moves_queryMap F _ _ _))) w
  | revokeApiToken id byUser ip ua =>
      exact moves_replying F (moves_blocking F (FW.bind (moves_onStore (revokeApiToken_adds id)) fun _ =>
        moves_withAudit F (moves_writeEvent F _ _ _ _ _ _ _))) w
  | verifyApiToken rawToken =>
      rw [handle, verifyApiToken_eq]
      exact moves_replying F (moves_bearerUser F (findValidByRaw_adds rawToken) _) w
  | listRecentShares limit => exact moves_replying F (moves_blocking F (moves_onStore (moves_queryMap F _ _ _))) w
  | revokeShare id byUser ip ua =>
      refine moves_replying F (moves_blocking F (FW.bind (moves_onStore ?_) fun _ =>
        moves_withAudit F (moves_writeEvent F _ _ _ _ _ _ _))) w
      apply F.bind (moves_execute F _ ?_) fun _ => F.failIf _ _
      intro s n db hdb
      cases hdb
      exact adds_of_eq rfl rfl

theorem serve_eq_foldl (app : App) (w : World) (ops : List (RequestEnv × Request)) :
    serve app w ops = ops.foldl (fun w op => (handle op.1 app op.2 w).2) w := by
  induction ops generalizing w with
  | nil => rfl
  | cons op ops ih => exact ih _

/-- The run lemma: every credential was there, or was granted by an operation of the run. -/
theorem serve_granted {ops : List (RequestEnv × Request)} {c : Credential} (hc : c ∈ held (serve app w ops).store) :
    c ∈ held w.store ∨ ∃ before op after, ops = before ++ op :: after ∧ c ∈ granted app (serve app w before) op := by
  rw [serve_eq_foldl] at hc
  simp only [serve_eq_foldl]
  exact Runs.gained (H := fun w : World => held w.store) (fun w op => handle_adds op) ops hc

end
end FipsDropbox.Service
