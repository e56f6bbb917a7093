import FipsDropbox.Service.Attested
import FipsDropbox.Service.Upload
import FipsDropbox.Storage.Lifecycle

/-!
# Who a credential stands for

Along every run of the credential operations, what `find_authenticated` and
`verify_api_token` answer is what the history of the run says.
-/
namespace FipsDropbox.Service
open Utf8 Exec Crypto Storage Lifecycle

/-- No call of a session lookup fails. -/
structure SessionLookupRuns (env : RequestEnv) : Prop where
  hash : env.fails .hashSessionLookup = false
  select : env.fails .selectSession = false
  touch : env.fails .updateSession = false
  user : env.fails .selectUserById = false

structure TokenLookupRuns (env : RequestEnv) : Prop where
  hash : env.fails .hashApiTokenLookup = false
  select : env.fails .selectApiToken = false
  touch : env.fails .updateApiToken = false
  user : env.fails .selectUserById = false

/-- What a lookup of a session at an instant after the run answers is the user that the
session was opened for, exactly while it is live, unexpired and its user enabled, and with
the expiry it was opened with. It fails to answer only where a call does. -/
def AnswersSessions (app : App) (l : Ledger) : Prop :=
  ∀ (env : RequestEnv) (rawToken : Text) (w : World), w.store = l.store →
    l.clock ≤ dtToMillis (env.now .sessionLookup).time →
    Set.InjOn (tokenHash app.bcrypt) (insert rawToken (InPlay l.history)) →
    (w.storePoisoned = false → SessionLookupRuns env →
      ∃ answer w', findAuthenticated env app rawToken w = (.ok answer, w')) ∧
    ∀ answer w', findAuthenticated env app rawToken w = (.ok answer, w') →
      (∀ u, (∃ sess user, answer = some (sess, user) ∧ user.id = u) ↔
        ∃ expiresAt, LiveSession l.history rawToken u expiresAt ∧
          dtToMillis (env.now .sessionLookup).time < expiresAt ∧ ¬ Disabled l.history u) ∧
      ∀ sess user, answer = some (sess, user) → sess.userId = user.id ∧
        ∃ expiresAt, LiveSession l.history rawToken user.id expiresAt ∧ sess.expiresAt = millisToDt expiresAt

/-- What a lookup of an API token after the run answers is the token and the user it was
minted for, exactly while it is not revoked and the user enabled. -/
def AnswersTokens (app : App) (l : Ledger) : Prop :=
  ∀ (env : RequestEnv) (rawToken : Text) (w : World), w.store = l.store →
    Set.InjOn (tokenHash app.bcrypt) (insert rawToken (InPlay l.history)) →
    (w.storePoisoned = false → TokenLookupRuns env →
      ∃ answer w', verifyApiToken env app rawToken w = (.ok answer, w')) ∧
    ∀ answer w', verifyApiToken env app rawToken w = (.ok answer, w') →
      ∀ id u, (∃ token user, answer = some (token, user) ∧ token.id = id ∧ token.userId = u ∧ user.id = u) ↔
        LiveToken l.history rawToken id u ∧ ¬ Disabled l.history u

section
variable {env : RequestEnv} {app : App} {l : Ledger} {w : World} {rawToken : Text}

theorem not_ok_of_err {α : Type} {m : Exec World ServiceError α} {e : ServiceError} {t : World}
    (h : m w = (.err e, t)) (a : α) : (m w).1 ≠ .ok a := by
  rw [h]
  nofun

theorem activeUser_cases (env : RequestEnv) {α : Type} (credential : α) {userId : Uuid} {r : UserRow} {user : User}
    (hr : r ∈ w.store.db.users.rows) (hid : r.id = userId.val) (huser : rowToUser r = .ok user) :
    activeUser env credential userId w =
        (.ok (if user.disabledAt.isSome then none else some (credential, user)), w) ∨
      (env.fails .selectUserById = true ∧ ∀ a, (activeUser env credential userId w).1 ≠ .ok a) := by
  have hfind : w.store.db.users.find (fun r => r.id = userId.val) = some r := by
    rw [← hid]
    exact Table.find_key (by simp) hr
  cases hq : env.fails .selectUserById with
  | false =>
      have hrun : Users.findById env.toEnv userId w.store = (.ok (some user), w.store) :=
        queryRow_some_iff.mpr ⟨hq, ⟨r, hfind, huser⟩, rfl⟩
      rw [activeUser, bind_ok (onStore_ok hrun)]
      exact .inl rfl
  | true =>
      have hrun : Users.findById env.toEnv userId w.store = (.err (.sqlite .failure), w.store) := by
        rw [Users.findById, queryRow_eq, hq]
        rfl
      exact .inr ⟨rfl, not_ok_of_err (bind_err (onStore_err hrun) _)⟩

theorem blocking_not_ok {α : Type} {m : Exec World ServiceError α} (h : ∀ a, (m w).1 ≠ .ok a) (a : α) :
    (spawnBlocking (withStore m) w).1 ≠ .ok a := by
  intro ha
  exact h a (congrArg Prod.fst (blocking_ok_iff.mp (Prod.ext ha rfl)).2)

theorem blocking_ok {α : Type} {m : Exec World ServiceError α} {a : α} {t : World}
    (hm : m w = (.ok a, t)) (hfree : w.storePoisoned = false) : spawnBlocking (withStore m) w = (.ok a, t) :=
  blocking_ok_iff.mpr ⟨hfree, hm⟩

section
variable {α : Type} {look : Exec Store StorageError (Option α)} {userOf : α → Uuid} {t : Store}

theorem bearerUser_none (hfree : w.storePoisoned = false) (h : look w.store = (.ok none, t)) :
    bearerUser env look userOf w = (.ok none, { w with store := t }) :=
  blocking_ok (bind_ok (onStore_ok h) _) hfree

theorem bearerUser_err {e : StorageError} (h : look w.store = (.err e, t)) (a : Option (α × User)) :
    (bearerUser env look userOf w).1 ≠ .ok a :=
  blocking_not_ok (not_ok_of_err (bind_err (onStore_err h) _)) a

/-- A credential that is found answers with its user, unless that is disabled or cannot be
looked up. -/
theorem bearerUser_some (env : RequestEnv) (hfree : w.storePoisoned = false) {credential : α}
    (h : look w.store = (.ok (some credential), t)) {row : UserRow} {user : User} (hrow : row ∈ t.db.users.rows)
    (hid : row.id = (userOf credential).val) (hread : rowToUser row = .ok user) :
    bearerUser env look userOf w =
        (.ok (if user.disabledAt.isSome then none else some (credential, user)), { w with store := t }) ∨
      (env.fails .selectUserById = true ∧ ∀ a, (bearerUser env look userOf w).1 ≠ .ok a) := by
  rcases activeUser_cases env (w := { w with store := t }) credential hrow hid hread with hactive | ⟨hfails, hactive⟩
  · exact .inl (blocking_ok ((bind_ok (onStore_ok h) _).trans hactive) hfree)
  · refine .inr ⟨hfails, blocking_not_ok ?_⟩
    rw [bind_ok (onStore_ok h)]
    exact hactive

end

namespace Tracked

/-- After a run, a credential that is found answers with the account it was issued for. -/
theorem issued_answers (env : RequestEnv) (h : Lifecycle.Tracked app.bcrypt l) (hstore : w.store = l.store)
    (hfree : w.storePoisoned = false) {α : Type} {look : Exec Store StorageError (Option α)} {userOf : α → Uuid}
    {t : Store} {credential : α} (hseen : SeenOnly w.store t) (hrun : look w.store = (.ok (some credential), t))
    (hissued : ∃ r ∈ l.store.db.users.rows, r.id = (userOf credential).val) :
    (∃ user w', user.id = userOf credential ∧ (user.disabledAt.isSome = true ↔ Disabled l.history user.id) ∧
      bearerUser env look userOf w =
        (.ok (if user.disabledAt.isSome then none else some (credential, user)), w')) ∨
    (env.fails .selectUserById = true ∧ ∀ a, (bearerUser env look userOf w).1 ≠ .ok a) := by
  obtain ⟨row, hrow, user, hid, hread, huid, hdisabled⟩ := h.users.account hissued
  have hrow' : row ∈ t.db.users.rows := by
    rw [hseen.users, hstore]
    exact hrow
  rcases bearerUser_some env hfree hrun hrow' hid hread with hactive | hfails
  · exact .inl ⟨user, _, huid, huid ▸ hdisabled, hactive⟩
  · exact .inr hfails

theorem authenticated_cases (env : RequestEnv) (h : Lifecycle.Tracked app.bcrypt l)
    (hstore : w.store = l.store) (hfree : w.storePoisoned = false) :
    (liveSession env.toEnv app.bcrypt l.store rawToken = none ∧
      ∃ w', findAuthenticated env app rawToken w = (.ok none, w')) ∨
    (∃ r sess user w', liveSession env.toEnv app.bcrypt l.store rawToken = some r ∧
      rowToSession r = .ok sess ∧ user.id = sess.userId ∧
      (user.disabledAt.isSome = true ↔ Disabled l.history user.id) ∧
      findAuthenticated env app rawToken w =
        (.ok (if user.disabledAt.isSome then none else some (sess, user)), w')) ∨
    (¬ SessionLookupRuns env ∧ ∀ a, (findAuthenticated env app rawToken w).1 ≠ .ok a) := by
  rw [findAuthenticated_eq]
  rcases findValidSession_cases env.toEnv app.bcrypt rawToken w.store with
    ⟨-, t, hseen, ⟨hnone, hrun⟩ | ⟨r, sess, hsome, hsess, hrun⟩⟩ | ⟨hno, e, hrun⟩
  · exact .inl ⟨hstore ▸ hnone, _, bearerUser_none hfree hrun⟩
  · rw [hstore] at hsome
    have hmem : r ∈ l.store.db.sessions.rows := (Table.find_some hsome).1
    obtain ⟨raw, u, hlive, hof⟩ := h.sessions.sound r hmem
    obtain ⟨-, huserId, -⟩ := rowToSession_ok hsess
    have hu : sess.userId = u := Subtype.ext (huserId.trans hof.user)
    rcases issued_answers env h hstore hfree hseen hrun (hu ▸ h.users.opened _ _ _ hlive.mem) with
      ⟨user, w', huid, hdisabled, hanswer⟩ | ⟨hfails, hno⟩
    · exact .inr (.inl ⟨r, sess, user, w', hsome, hsess, huid, hdisabled, hanswer⟩)
    · refine .inr (.inr ⟨?_, hno⟩)
      intro hcalls
      cases hcalls.user.symm.trans hfails
  · refine .inr (.inr ⟨?_, bearerUser_err hrun⟩)
    intro hcalls
    refine hno ⟨⟨hcalls.hash, hcalls.select⟩, ?_⟩
    intro r hr
    rw [hstore] at hr
    exact ⟨h.session_readable (Table.find_some hr).1, hcalls.touch⟩

theorem answersSessions (h : Lifecycle.Tracked app.bcrypt l) : AnswersSessions app l := by
  intro env rawToken w hstore hclock hinj
  have hiff : ∀ {u : Uuid} {expiresAt : ℤ}, (∃ r, liveSession env.toEnv app.bcrypt l.store rawToken = some r ∧
      r.userId = u.val ∧ r.expiresAt = expiresAt) ↔ LiveSession l.history rawToken u expiresAt ∧
        dtToMillis (env.now .sessionLookup).time < expiresAt := h.liveSession_iff hclock hinj
  refine ⟨?_, ?_⟩
  · intro hfree hcalls
    rcases authenticated_cases env h hstore hfree with ⟨-, w', hrun⟩ | ⟨_, _, _, w', -, -, -, -, hrun⟩ | ⟨hno, -⟩
    · exact ⟨_, w', hrun⟩
    · exact ⟨_, w', hrun⟩
    · exact absurd hcalls hno
  · intro answer w' hok
    rcases authenticated_cases env h hstore (blocking_ok_iff.mp hok).1 with
      ⟨hnone, _, hrun⟩ | ⟨r, sess, user, _, hsome, hsess, huid, hdisabled, hrun⟩ | ⟨-, hno⟩
    · obtain rfl : none = answer := Outcome.ok.inj (congrArg Prod.fst (hrun.symm.trans hok))
      refine ⟨?_, by simp⟩
      intro u
      refine iff_of_false (by simp) ?_
      rintro ⟨expiresAt, hlive, hunexpired, -⟩
      obtain ⟨r, hr, -⟩ := hiff.mpr ⟨hlive, hunexpired⟩
      cases hnone.symm.trans hr
    · obtain rfl := Outcome.ok.inj (congrArg Prod.fst (hrun.symm.trans hok))
      obtain ⟨-, huserId, hexp⟩ := rowToSession_ok hsess
      rw [← huid] at huserId
      obtain ⟨hlive, hunexpired⟩ := hiff.mp ⟨r, hsome, huserId.symm, rfl⟩
      have honly : ∀ {u expiresAt}, LiveSession l.history rawToken u expiresAt →
          dtToMillis (env.now .sessionLookup).time < expiresAt → user.id = u := by
        intro u expiresAt hlive' hunexpired'
        obtain ⟨r', hr', hu, -⟩ := hiff.mpr ⟨hlive', hunexpired'⟩
        obtain rfl := Option.some.inj (hsome.symm.trans hr')
        exact Subtype.ext (huserId.trans hu)
      by_cases hdis : user.disabledAt.isSome = true
      · rw [if_pos hdis]
        refine ⟨?_, by simp⟩
        intro u
        refine iff_of_false (by simp) ?_
        rintro ⟨expiresAt, hlive', hunexpired', henabled⟩
        exact henabled (honly hlive' hunexpired' ▸ hdisabled.mp hdis)
      · rw [if_neg hdis]
        refine ⟨?_, ?_⟩
        · intro u
          constructor
          · rintro ⟨_, _, heq, rfl⟩
            cases heq
            exact ⟨r.expiresAt, hlive, hunexpired, fun hd => hdis (hdisabled.mpr hd)⟩
          · rintro ⟨expiresAt, hlive', hunexpired', -⟩
            exact ⟨sess, user, rfl, honly hlive' hunexpired'⟩
        · rintro _ _ heq
          cases heq
          exact ⟨huid.symm, r.expiresAt, hlive, hexp⟩
    · exact absurd (congrArg Prod.fst hok) (hno answer)

theorem verified_cases (env : RequestEnv) (h : Lifecycle.Tracked app.bcrypt l)
    (hstore : w.store = l.store) (hfree : w.storePoisoned = false) :
    ((tokenPrefix.isPrefixOf rawToken = false ∨ liveToken app.bcrypt l.store rawToken = none) ∧
      ∃ w', verifyApiToken env app rawToken w = (.ok none, w')) ∨
    (∃ r token user w', liveToken app.bcrypt l.store rawToken = some r ∧ rowToToken r = .ok token ∧
      user.id = token.userId ∧ (user.disabledAt.isSome = true ↔ Disabled l.history user.id) ∧
      verifyApiToken env app rawToken w =
        (.ok (if user.disabledAt.isSome then none else some (token, user)), w')) ∨
    (¬ TokenLookupRuns env ∧ ∀ a, (verifyApiToken env app rawToken w).1 ≠ .ok a) := by
  rw [verifyApiToken_eq]
  rcases findValidByRaw_cases env.toEnv app.bcrypt rawToken w.store with
    ⟨hhead, hrun⟩ | ⟨-, -, t, hseen, ⟨hnone, hrun⟩ | ⟨r, token, hsome, htoken, hrun⟩⟩ | ⟨-, hno, e, hrun⟩
  · exact .inl ⟨.inl hhead, _, bearerUser_none hfree hrun⟩
  · exact .inl ⟨.inr (hstore ▸ hnone), _, bearerUser_none hfree hrun⟩
  · rw [hstore] at hsome
    obtain ⟨raw, id, u, hmint, hof, -⟩ := h.tokens.sound r (Table.find_some hsome).1
    obtain ⟨-, huserId, -⟩ := rowToToken_ok htoken
    have hu : token.userId = u := Subtype.ext (huserId.trans hof.user)
    rcases issued_answers env h hstore hfree hseen hrun (hu ▸ h.users.minted _ _ _ hmint) with
      ⟨user, w', huid, hdisabled, hanswer⟩ | ⟨hfails, hno⟩
    · exact .inr (.inl ⟨r, token, user, w', hsome, htoken, huid, hdisabled, hanswer⟩)
    · refine .inr (.inr ⟨?_, hno⟩)
      intro hcalls
      cases hcalls.user.symm.trans hfails
  · refine .inr (.inr ⟨?_, bearerUser_err hrun⟩)
    intro hcalls
    refine hno ⟨⟨hcalls.hash, hcalls.select⟩, ?_⟩
    intro r hr
    rw [hstore] at hr
    exact ⟨h.token_readable (Table.find_some hr).1, hcalls.touch⟩

theorem answersTokens (h : Lifecycle.Tracked app.bcrypt l) : AnswersTokens app l := by
  intro env rawToken w hstore hinj
  have hiff : ∀ {id u : Uuid}, (∃ r, liveToken app.bcrypt l.store rawToken = some r ∧ r.id = id.val ∧
      r.userId = u.val) ↔ LiveToken l.history rawToken id u := h.liveToken_iff hinj
  refine ⟨?_, ?_⟩
  · intro hfree hcalls
    rcases verified_cases env h hstore hfree with ⟨-, w', hrun⟩ | ⟨_, _, _, w', -, -, -, -, hrun⟩ | ⟨hno, -⟩
    · exact ⟨_, w', hrun⟩
    · exact ⟨_, w', hrun⟩
    · exact absurd hcalls hno
  · intro answer w' hok id u
    rcases verified_cases env h hstore (blocking_ok_iff.mp hok).1 with
      ⟨hnone, _, hrun⟩ | ⟨r, token, user, _, hsome, htoken, huid, hdisabled, hrun⟩ | ⟨-, hno⟩
    · obtain rfl : none = answer := Outcome.ok.inj (congrArg Prod.fst (hrun.symm.trans hok))
      refine iff_of_false (by simp) ?_
      rintro ⟨hlive, -⟩
      rcases hnone with hhead | hnone
      · have hpre : tokenPrefix.isPrefixOf rawToken = true :=
          List.isPrefixOf_iff_prefix.mpr (h.tokens.minted _ _ _ hlive.1).1
        cases hhead.symm.trans hpre
      · obtain ⟨r, hr, -⟩ := hiff.mpr hlive
        cases hnone.symm.trans hr
    · obtain rfl := Outcome.ok.inj (congrArg Prod.fst (hrun.symm.trans hok))
      obtain ⟨hid, huserId, -⟩ := rowToToken_ok htoken
      have honly : LiveToken l.history rawToken id u → token.id = id ∧ token.userId = u := by
        intro hlive
        obtain ⟨r', hr', hid', hu⟩ := hiff.mpr hlive
        obtain rfl := Option.some.inj (hsome.symm.trans hr')
        exact ⟨Subtype.ext (hid.trans hid'), Subtype.ext (huserId.trans hu)⟩
      by_cases hdis : user.disabledAt.isSome = true
      · rw [if_pos hdis]
        refine iff_of_false (by simp) ?_
        rintro ⟨hlive, henabled⟩
        exact henabled (huid.trans (honly hlive).2 ▸ hdisabled.mp hdis)
      · rw [if_neg hdis]
        constructor
        · rintro ⟨_, _, heq, rfl, rfl, hu⟩
          cases heq
          exact ⟨hiff.mp ⟨r, hsome, hid.symm, huserId.symm⟩, fun hd => hdis (hdisabled.mpr (hu ▸ hd))⟩
        · rintro ⟨hlive, -⟩
          obtain ⟨hid', hu⟩ := honly hlive
          exact ⟨token, user, rfl, hid', hu, huid.trans hu⟩
    · exact absurd (congrArg Prod.fst hok) (hno answer)

end Tracked

/-- After every run, both lookups answer what the history says. -/
theorem lookups_follow_history {clock : ℤ} (hrun : Lifecycle.Reaches app.bcrypt (.start clock) l)
    (hinj : Set.InjOn (tokenHash app.bcrypt) (InPlay l.history)) :
    AnswersSessions app l ∧ AnswersTokens app l := by
  have h : Lifecycle.Tracked app.bcrypt l := (tracked_start app.bcrypt clock).reaches hrun hinj
  exact ⟨Tracked.answersSessions h, Tracked.answersTokens h⟩

end

/-- An account appears, signs in, and is who its session stands for. -/
theorem lookup_finds_signed_in : ∃ l rawToken, Lifecycle.Reaches sampleApp.bcrypt (.start 0) l ∧
    ∃ sess user w', findAuthenticated quietEnv sampleApp rawToken { freshWorld with store := l.store } =
      (.ok (some (sess, user)), w') ∧ user.id = sampleUpload.createdBy := by
  have hreads : ReadsWithin quietEnv.toEnv 0 0 := fun _ =>
    (by decide : (0 : ℤ) ≤ dtToMillis .unixEpoch ∧ dtToMillis .unixEpoch ≤ 0)
  have hnew : Elsewhere Store.fresh sampleWorld.store := by
    refine ⟨rfl, rfl, by simp [Store.fresh, Db.empty], ?_, ?_⟩
    · intro r hr
      obtain rfl := List.mem_singleton.mp hr
      exact .inr rfl
    · intro _ r hr
      obtain rfl := List.mem_singleton.mp hr
      exact ⟨_, rfl⟩
  have hopens : OpensSession quietEnv.toEnv sampleApp.bcrypt sampleWorld.store sampleUpload.createdBy
      Sessions.defaultTtlHours := by
    refine ⟨⟨rfl, rfl⟩, by decide, by decide, by decide, ⟨_, rfl, ?_⟩⟩
    simp [sampleWorld, Db.empty]
  obtain ⟨issued, t, hcreate⟩ : ∃ issued t, Sessions.create quietEnv.toEnv sampleApp.bcrypt
      sampleUpload.createdBy [] [] Sessions.defaultTtlHours sampleWorld.store = (.ok issued, t) :=
    opensSession_iff.mpr hopens
  have hexpiry : 0 < dtToMillis issued.session.expiresAt := by
    obtain ⟨-, -, -, _, _, expiresAt, _, -, -, hadd, -, rfl, -⟩ := createSession_ok_iff.mp hcreate
    have hlater : ∀ e ∈ (quietEnv.now .sessionCreated).time.add (Sessions.defaultTtlHours * Sessions.nanosPerHour),
        0 < dtToMillis e := by decide
    exact hlater expiresAt hadd
  let signedIn : Ledger :=
    ⟨t, [.opened issued.rawToken sampleUpload.createdBy (dtToMillis issued.session.expiresAt)], 0⟩
  have hrun : Lifecycle.Reaches sampleApp.bcrypt (.start 0) signedIn := by
    have hop : Lifecycle.Reaches sampleApp.bcrypt (.start 0) _ :=
      (Relation.ReflTransGen.single (Lifecycle.Step.elsewhere (l := .start 0) hnew)).tail
      (Lifecycle.Step.op quietEnv.toEnv (.createSession sampleUpload.createdBy [] [] Sessions.defaultTtlHours) hreads)
    rwa [after_ok rfl hcreate] at hop
  have hplay : InPlay signedIn.history = {issued.rawToken} := by
    ext raw
    simp [signedIn, InPlay]
  obtain ⟨hsessions, -⟩ := lookups_follow_history hrun (by simp [hplay])
  obtain ⟨hanswers, hiff⟩ := hsessions quietEnv issued.rawToken { freshWorld with store := t } rfl
    (by decide : (0 : ℤ) ≤ dtToMillis .unixEpoch) (by simp [hplay])
  obtain ⟨answer, w', hfound⟩ := hanswers rfl ⟨rfl, rfl, rfl, rfl⟩
  obtain ⟨sess, user, rfl, huser⟩ := ((hiff answer w' hfound).1 sampleUpload.createdBy).mpr
    ⟨_, History.since_new [], hexpiry, fun hdis => by simpa [signedIn] using hdis.mem⟩
  exact ⟨signedIn, issued.rawToken, hrun, sess, user, w', hfound, huser⟩

end FipsDropbox.Service
