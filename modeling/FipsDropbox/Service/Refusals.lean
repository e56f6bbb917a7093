import FipsDropbox.Service.Bearers

/-!
# Refused credentials

Both lookups mark the row of a live credential as seen before they look at its user. So a
refusal that comes of the user has already moved `last_seen_at`.
-/
namespace FipsDropbox.Service
open Utf8 Exec Crypto Storage

/-- Unless the lookup answers with somebody, the database is as it was. -/
def RefusalSpares {α : Type} (m : Exec World ServiceError (Option α)) (w : World) : Prop :=
  (∀ a, (m w).1 ≠ .ok (some a)) → (m w).2.store.db = w.store.db

structure Admits (env : Env) (s : Store) (userId : Bytes) : Prop where
  select : env.fails .selectUserById = false
  user : ∃ row user, s.db.users.find (fun r => r.id = userId) = some row ∧ rowToUser row = .ok user ∧
    user.disabledAt = none

/-- The lookup marks the live session `r` anew, and its user is not admitted. -/
structure MarksSession (env : RequestEnv) (app : App) (rawToken : Text) (w : World) (r : SessionRow) : Prop where
  free : w.storePoisoned = false
  finds : FindsSession env.toEnv app.bcrypt w.store rawToken
  row : liveSession env.toEnv app.bcrypt w.store rawToken = some r
  turnedAway : ¬ Admits env.toEnv w.store r.userId
  moves : r.lastSeenAt ≠ dtToMillis (env.now .sessionLookup).time

structure MarksToken (env : RequestEnv) (app : App) (rawToken : Text) (w : World) (r : ApiTokenRow) : Prop where
  free : w.storePoisoned = false
  labelled : tokenPrefix.isPrefixOf rawToken = true
  finds : FindsToken env.toEnv app.bcrypt w.store rawToken
  row : liveToken app.bcrypt w.store rawToken = some r
  turnedAway : ¬ Admits env.toEnv w.store r.userId
  moves : r.lastSeenAt ≠ some (dtToMillis (env.now .apiTokenLookup).time)

section
variable {env : Env} {B : Bcrypt} {rawToken : Text} {s t : Store}

theorem queryTouch_ok {ρ α : Type} {c : Call} (c' : Call) {q : Db → Option ρ} {decode : ρ → Except SqliteError α}
    (touch : α → Db → Option (ℕ × Db)) {k : Option α → Exec Store StorageError (Option α)} (hnone : k none = pure none)
    (hsome : ∀ a, k (some a) = execute env c' (touch a) >>= fun _ => pure (some a)) {found : Option α}
    (h : (queryRow env c q decode >>= k) s = (.ok found, t)) :
    (found = none ∧ t = s) ∨ ∃ a n db, found = some a ∧ touch a s.db = some (n, db) ∧ t = { s with db } := by
  obtain ⟨row, s', hrow, hrest⟩ := bind_ok_iff.mp h
  obtain rfl : s' = s := (moves_queryRow stays_frame _ _ _).of_run hrow
  cases row with
  | none =>
      rw [hnone] at hrest
      cases hrest
      exact .inl ⟨rfl, rfl⟩
  | some a =>
      rw [hsome] at hrest
      obtain ⟨n, s'', htouch, hend⟩ := bind_ok_iff.mp hrest
      cases hend
      obtain ⟨db, hdb, rfl⟩ := of_execute_ok htouch
      exact .inr ⟨a, n, db, rfl, hdb, rfl⟩

theorem findValidSession_ok {found : Option Session} (h : Sessions.findValid env B rawToken s = (.ok found, t)) :
    (found = none ∧ t = s) ∨ ∃ sess n db, found = some sess ∧
      Db.touchSession sess.idHash.val (dtToMillis (env.now .sessionLookup).time) s.db = some (n, db) ∧
      t = { s with db } := by
  obtain ⟨idHash, s', hhash, hrest⟩ := bind_ok_iff.mp h
  obtain ⟨-, -, rfl⟩ := sha256_ok_iff.mp (adapt_ok_iff.mp hhash)
  refine queryTouch_ok .updateSession (fun sess : Session =>
    Db.touchSession sess.idHash.val (dtToMillis (env.now .sessionLookup).time)) ?_ ?_ hrest
  · rfl
  · exact fun _ => rfl

theorem findValidByRaw_ok {found : Option ApiToken} (h : ApiTokens.findValidByRaw env B rawToken s = (.ok found, t)) :
    (found = none ∧ t = s) ∨ ∃ token n db, found = some token ∧
      Db.touchApiToken token.id.val (dtToMillis (env.now .apiTokenLookup).time) s.db = some (n, db) ∧
      t = { s with db } := by
  cases hp : tokenPrefix.isPrefixOf rawToken with
  | false =>
      simp only [ApiTokens.findValidByRaw, hp, Bool.not_false, if_true] at h
      cases h
      exact .inl ⟨rfl, rfl⟩
  | true =>
      rw [ApiTokens.findValidByRaw, hp, Bool.not_true, if_neg Bool.false_ne_true] at h
      obtain ⟨tokenHash, s', hhash, hrest⟩ := bind_ok_iff.mp h
      obtain ⟨-, -, rfl⟩ := sha256_ok_iff.mp (adapt_ok_iff.mp hhash)
      refine queryTouch_ok .updateApiToken (fun token : ApiToken =>
        Db.touchApiToken token.id.val (dtToMillis (env.now .apiTokenLookup).time)) ?_ ?_ hrest
      · rfl
      · exact fun _ => rfl

/-- The mark changes the database exactly when the row was last seen at another time. -/
theorem touchSession_eq_iff {r : SessionRow} (hr : r ∈ s.db.sessions.rows) {now : ℤ} {n : ℕ} {db : Db}
    (h : Db.touchSession r.id now s.db = some (n, db)) : db = s.db ↔ r.lastSeenAt = now := by
  obtain ⟨sessions, hsessions, rfl⟩ : ∃ sessions, (sessions = s.db.sessions ↔ r.lastSeenAt = now) ∧
      db = { s.db with sessions } := by
    cases h
    refine ⟨_, ?_, rfl⟩
    rw [Table.update_eq_iff]
    constructor
    · intro hsame
      exact (congrArg SessionRow.lastSeenAt (hsame r hr (decide_eq_true rfl))).symm
    · rintro rfl r' hr' hid
      obtain rfl := Table.eq_of_key (List.mem_singleton.mpr rfl) hr' hr (of_decide_eq_true hid)
      rfl
  rw [← hsessions]
  constructor
  · exact congrArg Db.sessions
  · rintro rfl
    rfl

theorem touchApiToken_eq_iff {r : ApiTokenRow} (hr : r ∈ s.db.apiTokens.rows) {now : ℤ} {n : ℕ} {db : Db}
    (h : Db.touchApiToken r.id now s.db = some (n, db)) : db = s.db ↔ r.lastSeenAt = some now := by
  obtain ⟨apiTokens, htokens, rfl⟩ : ∃ apiTokens, (apiTokens = s.db.apiTokens ↔ r.lastSeenAt = some now) ∧
      db = { s.db with apiTokens } := by
    cases h
    refine ⟨_, ?_, rfl⟩
    rw [Table.update_eq_iff]
    constructor
    · intro hsame
      exact (congrArg ApiTokenRow.lastSeenAt (hsame r hr (decide_eq_true rfl))).symm
    · intro hseen r' hr' hid
      obtain rfl := Table.eq_of_key List.mem_cons_self hr' hr (of_decide_eq_true hid)
      rw [← hseen]
  rw [← htokens]
  constructor
  · exact congrArg Db.apiTokens
  · rintro rfl
    rfl

end

section
variable {env : RequestEnv} {app : App} {rawToken : Text} {w : World}

theorem activeUser_run (env : RequestEnv) {α : Type} (credential : α) (userId : Uuid) (w : World) :
    ∃ o, activeUser env credential userId w = (o, w) ∧ o ≠ .panic ∧
      ((∃ a, o = .ok (some a)) ↔ Admits env.toEnv w.store userId.val) := by
  rcases queryRow_cases env.toEnv .selectUserById (fun db => db.users.find fun r => r.id = userId.val) rowToUser
    w.store with ⟨hq, hnone, hrun⟩ | ⟨row, user, hq, hrow, huser, hrun⟩ | ⟨e, hrun, hcause⟩
  · refine ⟨.ok none, bind_ok (onStore_ok hrun) _, by simp, iff_of_false (by simp) ?_⟩
    rintro ⟨-, row, user, hrow, -⟩
    cases hnone.symm.trans hrow
  · refine ⟨_, bind_ok (onStore_ok hrun) _, by simp, ?_⟩
    have hadmits : Admits env.toEnv w.store userId.val ↔ user.disabledAt = none := by
      constructor
      · rintro ⟨-, row', user', hrow', huser', henabled⟩
        obtain rfl := Option.some.inj (hrow.symm.trans hrow')
        cases huser.symm.trans huser'
        exact henabled
      · exact fun henabled => ⟨hq, row, user, hrow, huser, henabled⟩
    rw [hadmits]
    cases user.disabledAt <;> simp
  · refine ⟨_, bind_err (onStore_err hrun) _, by simp, iff_of_false (by simp) ?_⟩
    rintro ⟨hselect, row, user, hrow, huser, -⟩
    rcases hcause with hf | ⟨row', e', hrow', he'⟩
    · cases hselect.symm.trans hf
    · obtain rfl := Option.some.inj (hrow.symm.trans hrow')
      cases huser.symm.trans he'

/-- What a lookup does to the store: nothing, or it marks the row it finds. -/
inductive Marking {α ρ : Type} (look : Exec Store StorageError (Option α)) (userOf : α → Uuid) (s : Store)
    (Found : ρ → Prop) (userId : ρ → Bytes) (Seen : ρ → Prop) : Prop
  | still (none : ∀ r, ¬ Found r) (stays : (look s).2 = s)
  | marks (r : ρ) (credential : α) (db : Db) (found : ∀ r', Found r' ↔ r' = r)
      (run : look s = (.ok (some credential), { s with db })) (users : db.users = s.db.users)
      (user : (userOf credential).val = userId r) (seen : db = s.db ↔ Seen r)

section
variable {α ρ : Type} {look : Exec Store StorageError (Option α)} {userOf : α → Uuid}

theorem bearerUser_still (h : (look w.store).2 = w.store) : (bearerUser env look userOf w).2.store = w.store := by
  cases hfree : w.storePoisoned with
  | true => rw [bearerUser, withStore_poisoned _ hfree]
  | false =>
      rw [bearerUser, (withStore_free _ hfree).1]
      rcases onStore_bind_cases look _ w with ⟨found, t, hlook, hrest⟩ | ⟨-, hrest⟩
      · obtain rfl : t = w.store := (congrArg Prod.snd hlook).symm.trans h
        rw [hrest]
        cases found with
        | none => rfl
        | some credential =>
            obtain ⟨o, hactive, -⟩ := activeUser_run env credential (userOf credential) w
            exact congrArg (fun out => out.2.store) hactive
      · exact hrest.trans h

/-- A lookup that has marked a row still spares the database if its user is admitted, or if
the mark changed nothing. -/
theorem bearerUser_some_iff (hfree : w.storePoisoned = false) {credential : α} {db : Db}
    (h : look w.store = (.ok (some credential), { w.store with db })) (husers : db.users = w.store.db.users) :
    RefusalSpares (bearerUser env look userOf) w ↔
      Admits env.toEnv w.store (userOf credential).val ∨ db = w.store.db := by
  obtain ⟨o, hactive, hcalm, hanswers⟩ := activeUser_run env credential (userOf credential)
    { w with store := { w.store with db } }
  have hrun : bearerUser env look userOf w = (o, { w with store := { w.store with db } }) :=
    blocking_of_run hfree ((bind_ok (onStore_ok h) _).trans hactive) hcalm
  have hadmits : Admits env.toEnv { w.store with db } (userOf credential).val ↔
      Admits env.toEnv w.store (userOf credential).val :=
    ⟨fun h => ⟨h.select, husers ▸ h.user⟩, fun h => ⟨h.select, husers.symm ▸ h.user⟩⟩
  have hspares : RefusalSpares (bearerUser env look userOf) w ↔ ((∀ a, o ≠ .ok (some a)) → db = w.store.db) := by
    rw [RefusalSpares, hrun]
  rw [hspares, ← hadmits, ← hanswers, ← not_exists, ← Classical.or_iff_not_imp_left]

theorem bearerUser_spares_iff {Found Seen : ρ → Prop} {userId : ρ → Bytes}
    (h : Marking look userOf w.store Found userId Seen) :
    RefusalSpares (bearerUser env look userOf) w ↔
      ¬ ∃ r, w.storePoisoned = false ∧ Found r ∧ ¬ Admits env.toEnv w.store (userId r) ∧ ¬ Seen r := by
  cases h with
  | still hnone hstays =>
      refine iff_of_true (fun _ => congrArg Store.db (bearerUser_still hstays)) ?_
      rintro ⟨r, -, hr, -⟩
      exact hnone r hr
  | marks r credential db hfound hrun husers huser hseen =>
      cases hfree : w.storePoisoned with
      | true =>
          refine iff_of_true ?_ (by simp)
          rw [RefusalSpares, bearerUser, withStore_poisoned _ hfree]
          exact fun _ => rfl
      | false =>
          rw [bearerUser_some_iff hfree hrun husers, huser, hseen]
          simp only [hfound, true_and, exists_eq_left, not_and_or, not_not]

end

theorem findValidSession_marking (env : Env) (B : Bcrypt) (rawToken : Text) (s : Store) :
    Marking (Sessions.findValid env B rawToken) Session.userId s
      (fun r => FindsSession env B s rawToken ∧ liveSession env B s rawToken = some r) SessionRow.userId
      (fun r => r.lastSeenAt = dtToMillis (env.now .sessionLookup).time) := by
  rcases findValidSession_cases env B rawToken s with
    ⟨hfinds, t, hseen, ⟨hnone, hrun⟩ | ⟨r, sess, hsome, hsess, hrun⟩⟩ | ⟨hno, e, hrun⟩
  · obtain ⟨-, rfl⟩ | ⟨_, _, _, hfound, -⟩ := findValidSession_ok hrun
    · refine .still ?_ (congrArg Prod.snd hrun)
      rintro r ⟨-, hr⟩
      cases hnone.symm.trans hr
    · cases hfound
  · obtain ⟨hfound, -⟩ | ⟨_, n, db, hfound, htouch, rfl⟩ := findValidSession_ok hrun
    · cases hfound
    · cases hfound
      obtain ⟨hid, huserId, -⟩ := rowToSession_ok hsess
      rw [hid] at htouch
      refine .marks r sess db ?_ hrun hseen.users huserId (touchSession_eq_iff (Table.find_some hsome).1 htouch)
      intro r'
      rw [hsome, and_iff_right hfinds, Option.some.injEq, eq_comm]
  · exact .still (fun r hr => hno hr.1) (congrArg Prod.snd hrun)

theorem findValidByRaw_marking (env : Env) (B : Bcrypt) (rawToken : Text) (s : Store) :
    Marking (ApiTokens.findValidByRaw env B rawToken) ApiToken.userId s
      (fun r => (tokenPrefix.isPrefixOf rawToken = true ∧ FindsToken env B s rawToken) ∧
        liveToken B s rawToken = some r) ApiTokenRow.userId
      (fun r => r.lastSeenAt = some (dtToMillis (env.now .apiTokenLookup).time)) := by
  rcases findValidByRaw_cases env B rawToken s with
    ⟨hhead, hrun⟩ | ⟨hhead, hfinds, t, hseen, ⟨hnone, hrun⟩ | ⟨r, token, hsome, htoken, hrun⟩⟩ | ⟨-, hno, e, hrun⟩
  · refine .still ?_ (congrArg Prod.snd hrun)
    rintro r ⟨⟨hhead', -⟩, -⟩
    cases hhead.symm.trans hhead'
  · obtain ⟨-, rfl⟩ | ⟨_, _, _, hfound, -⟩ := findValidByRaw_ok hrun
    · refine .still ?_ (congrArg Prod.snd hrun)
      rintro r ⟨-, hr⟩
      cases hnone.symm.trans hr
    · cases hfound
  · obtain ⟨hfound, -⟩ | ⟨_, n, db, hfound, htouch, rfl⟩ := findValidByRaw_ok hrun
    · cases hfound
    · cases hfound
      obtain ⟨hid, huserId, -⟩ := rowToToken_ok htoken
      rw [hid] at htouch
      refine .marks r token db ?_ hrun hseen.users huserId (touchApiToken_eq_iff (Table.find_some hsome).1 htouch)
      intro r'
      rw [hsome, and_iff_right ⟨hhead, hfinds⟩, Option.some.injEq, eq_comm]
  · exact .still (fun r hr => hno hr.1.2) (congrArg Prod.snd hrun)

/-- A session that is turned away has been marked as seen, unless it already was at that
millisecond. -/
theorem findAuthenticated_spares_iff :
    RefusalSpares (findAuthenticated env app rawToken) w ↔ ¬ ∃ r, MarksSession env app rawToken w r := by
  rw [findAuthenticated_eq, bearerUser_spares_iff (findValidSession_marking _ _ _ _)]
  refine not_congr (exists_congr fun r => ⟨?_, ?_⟩)
  · rintro ⟨hfree, ⟨hfinds, hrow⟩, hturned, hmoves⟩
    exact ⟨hfree, hfinds, hrow, hturned, hmoves⟩
  · rintro ⟨hfree, hfinds, hrow, hturned, hmoves⟩
    exact ⟨hfree, ⟨hfinds, hrow⟩, hturned, hmoves⟩

theorem verifyApiToken_spares_iff :
    RefusalSpares (verifyApiToken env app rawToken) w ↔ ¬ ∃ r, MarksToken env app rawToken w r := by
  rw [verifyApiToken_eq, bearerUser_spares_iff (findValidByRaw_marking _ _ _ _)]
  refine not_congr (exists_congr fun r => ⟨?_, ?_⟩)
  · rintro ⟨hfree, ⟨⟨hhead, hfinds⟩, hrow⟩, hturned, hmoves⟩
    exact ⟨hfree, hhead, hfinds, hrow, hturned, hmoves⟩
  · rintro ⟨hfree, hhead, hfinds, hrow, hturned, hmoves⟩
    exact ⟨hfree, ⟨⟨hhead, hfinds⟩, hrow⟩, hturned, hmoves⟩

/-- Each lookup spares the database exactly where no credential of a user it turns away is
marked. -/
theorem refusals_spare_iff (env : RequestEnv) (app : App) (rawToken : Text) (w : World) :
    (RefusalSpares (findAuthenticated env app rawToken) w ↔ ¬ ∃ r, MarksSession env app rawToken w r) ∧
      (RefusalSpares (verifyApiToken env app rawToken) w ↔ ¬ ∃ r, MarksToken env app rawToken w r) :=
  ⟨findAuthenticated_spares_iff, verifyApiToken_spares_iff⟩

end

def disabledSession : SessionRow :=
  newSessionRow (Cng.sha256 .reference (encode "cookie".toList)) sampleUpload.createdBy sampleApp.kek [] []
    (millisToDt 1000) (millisToDt (-1000))

def disabledToken : ApiTokenRow :=
  newTokenRow (quietEnv.newId .apiToken) sampleUpload.createdBy "laptop".toList
    (Cng.sha256 .reference (encode "fdbx_laptop".toList)) (millisToDt (-1000))

def disabledWorld : World :=
  { freshWorld with store := { Store.fresh with db := { Db.empty with
      users := ⟨[{ sampleUser with disabledAt := some (-500) }], by simp⟩
      sessions := ⟨[disabledSession], by simp⟩
      apiTokens := ⟨[disabledToken], by simp⟩ } } }

theorem refused_of_value {α : Type} {m : Exec World ServiceError (Option α)} {w : World}
    (h : (m w).1.value.map Option.isNone = some true) : m w = (.ok none, (m w).2) := by
  obtain ⟨found, hvalue, hnone⟩ := Option.map_eq_some_iff.mp h
  obtain rfl := Option.isNone_iff_eq_none.mp hnone
  exact Prod.ext (Outcome.value_eq_some.mp hvalue) rfl

/-- Both lookups turn the disabled user away, and both leave their mark. -/
theorem refusals_mark :
    ((∃ w, findAuthenticated quietEnv sampleApp "cookie".toList disabledWorld = (.ok none, w) ∧
      w.store.db.sessions.rows.map SessionRow.lastSeenAt = [0]) ∧
    ∃ w, verifyApiToken quietEnv sampleApp "fdbx_laptop".toList disabledWorld = (.ok none, w) ∧
      w.store.db.apiTokens.rows.map ApiTokenRow.lastSeenAt = [some 0]) ∧
    disabledWorld.store.db.sessions.rows.map SessionRow.lastSeenAt = [-1000] ∧
    disabledWorld.store.db.apiTokens.rows.map ApiTokenRow.lastSeenAt = [none] := by
  have hsession : (findAuthenticated quietEnv sampleApp "cookie".toList disabledWorld).1.value.map Option.isNone =
        some true ∧
      (findAuthenticated quietEnv sampleApp "cookie".toList disabledWorld).2.store.db.sessions.rows.map
        SessionRow.lastSeenAt = [0] := by
    decide +kernel
  have htoken : (verifyApiToken quietEnv sampleApp "fdbx_laptop".toList disabledWorld).1.value.map Option.isNone =
        some true ∧
      (verifyApiToken quietEnv sampleApp "fdbx_laptop".toList disabledWorld).2.store.db.apiTokens.rows.map
        ApiTokenRow.lastSeenAt = [some 0] := by
    decide +kernel
  refine ⟨⟨⟨_, refused_of_value hsession.1, hsession.2⟩, ⟨_, refused_of_value htoken.1, htoken.2⟩⟩, ?_⟩
  decide +kernel

end FipsDropbox.Service
