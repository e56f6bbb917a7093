import Mathlib.Logic.Relation
import FipsDropbox.Lib.History
import FipsDropbox.Storage.Credentials

/-!
# The life of a credential

Runs of the operations on sessions, tokens and accounts, next to the history of what
they have done. The invariant ties every row to the history and back, so that what a
lookup finds can be read off the history alone.
-/
namespace FipsDropbox.Storage.Lifecycle
open Utf8 Exec Crypto History

inductive Entry where
  | opened (rawToken : Text) (userId : Uuid) (expiresAt : ℤ)
  | closed (rawToken : Text)
  | closedAll (userId : Uuid)
  | minted (rawToken : Text) (id userId : Uuid)
  | withdrawn (id : Uuid)
  | disabled (userId : Uuid)
  | enabled (userId : Uuid)

/-- The session was opened, and neither it nor all of its user have been closed since. -/
def LiveSession (h : List Entry) (rawToken : Text) (userId : Uuid) (expiresAt : ℤ) : Prop :=
  Since (fun e => e = .closed rawToken ∨ e = .closedAll userId) (.opened rawToken userId expiresAt) h

def LiveToken (h : List Entry) (rawToken : Text) (id userId : Uuid) : Prop :=
  .minted rawToken id userId ∈ h ∧ .withdrawn id ∉ h

def Disabled (h : List Entry) (userId : Uuid) : Prop := Since (· = .enabled userId) (.disabled userId) h

/-- The raw tokens that a history speaks of. -/
def InPlay (h : List Entry) : Set Text :=
  { t | (∃ u exp, .opened t u exp ∈ h) ∨ .closed t ∈ h ∨ ∃ id u, .minted t id u ∈ h }

inductive CredentialOp where
  | createSession (userId : Uuid) (ip ua : Text) (ttlHours : ℤ)
  | findSession (rawToken : Text)
  | revokeSession (rawToken : Text)
  | revokeAllForUser (userId : Uuid)
  | purgeExpired
  | createToken (userId : Uuid) (label : Text)
  | findToken (rawToken : Text)
  | revokeToken (id : Uuid)
  | disable (id : Uuid)
  | enable (id : Uuid)

/-- An operation, and what it puts on record when it succeeds. -/
def CredentialOp.run (env : Env) (B : Bcrypt) : CredentialOp → Exec Store StorageError (Option Entry)
  | .createSession userId ip ua ttlHours => do
      let issued ← Sessions.create env B userId ip ua ttlHours
      pure (some (.opened issued.rawToken userId (dtToMillis issued.session.expiresAt)))
  | .findSession rawToken => do
      let _ ← Sessions.findValid env B rawToken
      pure none
  | .revokeSession rawToken => do
      Sessions.revoke env B rawToken
      pure (some (.closed rawToken))
  | .revokeAllForUser userId => do
      let _ ← Sessions.revokeAllForUser env userId
      pure (some (.closedAll userId))
  | .purgeExpired => do
      let _ ← Sessions.purgeExpired env
      pure none
  | .createToken userId label => do
      let issued ← ApiTokens.create env B userId label
      pure (some (.minted issued.rawToken issued.token.id userId))
  | .findToken rawToken => do
      let _ ← ApiTokens.findValidByRaw env B rawToken
      pure none
  | .revokeToken id => do
      ApiTokens.revoke env id
      pure (some (.withdrawn id))
  | .disable id => do
      Users.disable env id
      pure (some (.disabled id))
  | .enable id => do
      Users.enable env id
      pure (some (.enabled id))

/-- A store, what has been done to it, and a bound on the readings of the clock so far, in
the milliseconds that are stored. -/
structure Ledger where
  store : Store
  history : List Entry
  clock : ℤ

def Ledger.start (clock : ℤ) : Ledger := ⟨.fresh, [], clock⟩

def Ledger.after (l : Ledger) (env : Env) (B : Bcrypt) (op : CredentialOp) (clock : ℤ) : Ledger :=
  let out := op.run env B l.store
  ⟨out.2, (out.1.value.bind id).toList ++ l.history, clock⟩

/-- The clock of an operation reads between two bounds. -/
def ReadsWithin (env : Env) (lo hi : ℤ) : Prop :=
  ∀ r, lo ≤ dtToMillis (env.now r).time ∧ dtToMillis (env.now r).time ≤ hi

/-- What any other operation may do: it leaves sessions and tokens alone, and accounts as
disabled as they are; an account it adds is enabled. -/
structure Elsewhere (s t : Store) : Prop where
  sessions : t.db.sessions = s.db.sessions
  apiTokens : t.db.apiTokens = s.db.apiTokens
  kept : ∀ r ∈ s.db.users.rows, ∃ r' ∈ t.db.users.rows, r'.id = r.id ∧ r'.disabledAt = r.disabledAt
  added : ∀ r' ∈ t.db.users.rows, (∃ r ∈ s.db.users.rows, r'.id = r.id) ∨ r'.disabledAt = none
  readable : (∀ r ∈ s.db.users.rows, ∃ user, rowToUser r = .ok user) →
    ∀ r' ∈ t.db.users.rows, ∃ user, rowToUser r' = .ok user

inductive Step (B : Bcrypt) : Ledger → Ledger → Prop
  | op {l : Ledger} (env : Env) (op : CredentialOp) {clock : ℤ} (within : ReadsWithin env l.clock clock) :
      Step B l (l.after env B op clock)
  | elsewhere {l : Ledger} {t : Store} (h : Elsewhere l.store t) : Step B l { l with store := t }

def Reaches (B : Bcrypt) : Ledger → Ledger → Prop := Relation.ReflTransGen (Step B)

section
variable {h : List Entry} {e : Entry} {rawToken : Text} {userId : Uuid} {expiresAt : ℤ}

theorem liveSession_cons : LiveSession (e :: h) rawToken userId expiresAt ↔
    e = .opened rawToken userId expiresAt ∨
      (LiveSession h rawToken userId expiresAt ∧ e ≠ .closed rawToken ∧ e ≠ .closedAll userId) := by
  rw [LiveSession, since_cons, not_or]
  rfl

theorem disabled_cons : Disabled (e :: h) userId ↔
    e = .disabled userId ∨ (Disabled h userId ∧ e ≠ .enabled userId) := since_cons

theorem inPlay_cons : InPlay h ⊆ InPlay (e :: h) := by
  rintro t (⟨u, exp, ht⟩ | ht | ⟨id, u, ht⟩)
  · exact .inl ⟨u, exp, List.mem_cons_of_mem e ht⟩
  · exact .inr (.inl (List.mem_cons_of_mem e ht))
  · exact .inr (.inr ⟨id, u, List.mem_cons_of_mem e ht⟩)

end

/-- What a token is looked up by. -/
def tokenHash (B : Bcrypt) (rawToken : Text) : Bytes := (Cng.sha256 B (encode rawToken)).val

structure SessionOf (B : Bcrypt) (r : SessionRow) (rawToken : Text) (userId : Uuid) : Prop where
  id : r.id = tokenHash B rawToken
  user : r.userId = userId.val
  csrf : r.csrfToken.length = 32

structure TokenOf (B : Bcrypt) (r : ApiTokenRow) (rawToken : Text) (id userId : Uuid) : Prop where
  hash : r.tokenHash = tokenHash B rawToken
  id : r.id = id.val
  user : r.userId = userId.val

/-- Rows that differ in when they were last seen are of the same session. -/
theorem SessionOf.lasting {B : Bcrypt} {q r : SessionRow} {raw : Text} {u : Uuid} (h : SessionOf B q raw u)
    (hqr : q.lasting = r.lasting) : SessionOf B r raw u ∧ q.expiresAt = r.expiresAt := by
  simp only [SessionRow.lasting, SessionRow.mk.injEq] at hqr
  obtain ⟨hid, huser, hcsrf, -, -, hexp, -⟩ := hqr
  exact ⟨⟨hid ▸ h.id, huser ▸ h.user, hcsrf ▸ h.csrf⟩, hexp⟩

theorem TokenOf.lasting {B : Bcrypt} {q r : ApiTokenRow} {raw : Text} {id u : Uuid} (h : TokenOf B q raw id u)
    (hqr : q.lasting = r.lasting) : TokenOf B r raw id u ∧ q.revokedAt = r.revokedAt := by
  simp only [ApiTokenRow.lasting, ApiTokenRow.mk.injEq] at hqr
  obtain ⟨hid, huser, -, hhash, -, -, hrevoked⟩ := hqr
  exact ⟨⟨hhash ▸ h.hash, hid ▸ h.id, huser ▸ h.user⟩, hrevoked⟩

theorem exists_lasting {α : Type} {f : α → α} {l l' : List α} (h : l'.map f = l.map f) {r : α} (hr : r ∈ l') :
    ∃ q ∈ l, f q = f r := List.mem_map.mp (h ▸ List.mem_map_of_mem hr)

/-- Rows are the live sessions that have not been purged. -/
structure SessionsTracked (B : Bcrypt) (rows : List SessionRow) (h : List Entry) (clock : ℤ) : Prop where
  sound : ∀ r ∈ rows, ∃ raw u, LiveSession h raw u r.expiresAt ∧ SessionOf B r raw u
  complete : ∀ raw u exp, LiveSession h raw u exp →
    exp < clock ∨ ∃ r ∈ rows, SessionOf B r raw u ∧ r.expiresAt = exp

/-- Rows are the minted tokens, revoked as the history says. -/
structure TokensTracked (B : Bcrypt) (rows : List ApiTokenRow) (h : List Entry) : Prop where
  sound : ∀ r ∈ rows, ∃ raw id u, .minted raw id u ∈ h ∧ TokenOf B r raw id u ∧
    (r.revokedAt = none ↔ .withdrawn id ∉ h)
  minted : ∀ raw id u, .minted raw id u ∈ h → tokenPrefix <+: raw ∧ ∃ r ∈ rows, TokenOf B r raw id u
  withdrawn : ∀ id, .withdrawn id ∈ h → ∃ r ∈ rows, r.id = id.val

/-- Accounts can be read and are disabled as the history says, and those that it speaks of
are there. -/
structure UsersTracked (rows : List UserRow) (h : List Entry) : Prop where
  readable : ∀ r ∈ rows, ∃ user, rowToUser r = .ok user
  status : ∀ r ∈ rows, ∀ u : Uuid, r.id = u.val → (r.disabledAt.isSome = true ↔ Disabled h u)
  opened : ∀ raw u exp, .opened raw u exp ∈ h → ∃ r ∈ rows, r.id = u.val
  minted : ∀ raw id u, .minted raw id u ∈ h → ∃ r ∈ rows, r.id = u.val
  disabled : ∀ u, .disabled u ∈ h → ∃ r ∈ rows, r.id = u.val

structure Tracked (B : Bcrypt) (l : Ledger) : Prop where
  sessions : SessionsTracked B l.store.db.sessions.rows l.history l.clock
  tokens : TokensTracked B l.store.db.apiTokens.rows l.history
  users : UsersTracked l.store.db.users.rows l.history

theorem tracked_start (B : Bcrypt) (clock : ℤ) : Tracked B (.start clock) where
  sessions := ⟨by simp [Ledger.start, Store.fresh, Db.empty], by simp [Ledger.start, LiveSession]⟩
  tokens := ⟨by simp [Ledger.start, Store.fresh, Db.empty], by simp [Ledger.start], by simp [Ledger.start]⟩
  users := ⟨by simp [Ledger.start, Store.fresh, Db.empty], by simp [Ledger.start, Store.fresh, Db.empty],
    by simp [Ledger.start], by simp [Ledger.start], by simp [Ledger.start]⟩

/-! ## Sessions -/

namespace SessionsTracked
variable {B : Bcrypt} {rows : List SessionRow} {h : List Entry} {clock : ℤ}

theorem later (ht : SessionsTracked B rows h clock) {clock' : ℤ} (hle : clock ≤ clock') :
    SessionsTracked B rows h clock' := by
  refine ⟨ht.sound, ?_⟩
  intro raw u exp hlive
  rcases ht.complete raw u exp hlive with hexp | hrow
  · exact .inl (hexp.trans_le hle)
  · exact .inr hrow

/-- An entry that is not about sessions. -/
theorem other (ht : SessionsTracked B rows h clock) {e : Entry} (hopened : ∀ raw u exp, e ≠ .opened raw u exp)
    (hclosed : ∀ raw, e ≠ .closed raw) (hall : ∀ u, e ≠ .closedAll u) : SessionsTracked B rows (e :: h) clock := by
  have hsame : ∀ raw u exp, LiveSession (e :: h) raw u exp ↔ LiveSession h raw u exp := by
    intro raw u exp
    simp [liveSession_cons, hopened, hclosed, hall]
  refine ⟨?_, ?_⟩
  · intro r hr
    obtain ⟨raw, u, hlive, hof⟩ := ht.sound r hr
    exact ⟨raw, u, (hsame raw u _).mpr hlive, hof⟩
  · intro raw u exp hlive
    exact ht.complete raw u exp ((hsame raw u exp).mp hlive)

theorem seen (ht : SessionsTracked B rows h clock) {rows' : List SessionRow}
    (hsame : rows'.map SessionRow.lasting = rows.map SessionRow.lasting) : SessionsTracked B rows' h clock := by
  refine ⟨?_, ?_⟩
  · intro r hr
    obtain ⟨q, hq, hqr⟩ := exists_lasting hsame hr
    obtain ⟨raw, u, hlive, hof⟩ := ht.sound q hq
    obtain ⟨hof', hexp⟩ := hof.lasting hqr
    exact ⟨raw, u, hexp ▸ hlive, hof'⟩
  · intro raw u exp hlive
    rcases ht.complete raw u exp hlive with hexp | ⟨q, hq, hof, hexp⟩
    · exact .inl hexp
    · obtain ⟨r, hr, hrq⟩ := exists_lasting hsame.symm hq
      obtain ⟨hof', hexp'⟩ := hof.lasting hrq.symm
      exact .inr ⟨r, hr, hof', hexp'.symm.trans hexp⟩

theorem opened (ht : SessionsTracked B rows h clock) {r : SessionRow} {raw : Text} {u : Uuid}
    (hof : SessionOf B r raw u) : SessionsTracked B (rows ++ [r]) (.opened raw u r.expiresAt :: h) clock := by
  refine ⟨?_, ?_⟩
  · intro q hq
    rcases List.mem_append.mp hq with hq | hq
    · obtain ⟨raw', u', hlive, hof'⟩ := ht.sound q hq
      exact ⟨raw', u', liveSession_cons.mpr (.inr ⟨hlive, by simp, by simp⟩), hof'⟩
    · obtain rfl := List.mem_singleton.mp hq
      exact ⟨raw, u, liveSession_cons.mpr (.inl rfl), hof⟩
  · intro raw' u' exp hlive
    rcases liveSession_cons.mp hlive with hnew | ⟨hold, -, -⟩
    · cases hnew
      exact .inr ⟨r, by simp, hof, rfl⟩
    · rcases ht.complete raw' u' exp hold with hexp | ⟨q, hq, hof', hexp⟩
      · exact .inl hexp
      · exact .inr ⟨q, List.mem_append_left _ hq, hof', hexp⟩

/-- Rows deleted for a reason that is on record. -/
theorem ended (ht : SessionsTracked B rows h clock) {e : Entry} {p : SessionRow → Bool}
    (hopened : ∀ raw u exp, e ≠ .opened raw u exp)
    (hp : ∀ r ∈ rows, ∀ raw u, SessionOf B r raw u → LiveSession h raw u r.expiresAt →
      (p r = true ↔ e = .closed raw ∨ e = .closedAll u)) :
    SessionsTracked B (rows.filter fun r => !p r) (e :: h) clock := by
  refine ⟨?_, ?_⟩
  · intro r hr
    obtain ⟨hmem, hkept⟩ := List.mem_filter.mp hr
    obtain ⟨raw, u, hlive, hof⟩ := ht.sound r hmem
    have hno : ¬ (e = .closed raw ∨ e = .closedAll u) := by
      rw [← hp r hmem raw u hof hlive]
      simpa using hkept
    exact ⟨raw, u, liveSession_cons.mpr (.inr ⟨hlive, not_or.mp hno⟩), hof⟩
  · intro raw u exp hlive
    rcases liveSession_cons.mp hlive with hnew | ⟨hold, hno⟩
    · exact absurd hnew (hopened raw u exp)
    · rcases ht.complete raw u exp hold with hexp | ⟨r, hr, hof, rfl⟩
      · exact .inl hexp
      · refine .inr ⟨r, List.mem_filter.mpr ⟨hr, ?_⟩, hof, rfl⟩
        have hkept : ¬ p r = true := by
          rw [hp r hr raw u hof hold, not_or]
          exact hno
        simpa using hkept

theorem closed (ht : SessionsTracked B rows h clock) {raw : Text}
    (hinj : Set.InjOn (tokenHash B) (InPlay (.closed raw :: h))) :
    SessionsTracked B (rows.filter fun r => !decide (r.id = tokenHash B raw)) (.closed raw :: h) clock := by
  apply ht.ended (by simp)
  intro r hr raw' u hof hlive
  rw [decide_eq_true_eq, hof.id]
  constructor
  · intro hhash
    have hmem : raw' ∈ InPlay (.closed raw :: h) := .inl ⟨u, _, List.mem_cons_of_mem _ hlive.mem⟩
    exact .inl (by rw [hinj hmem (.inr (.inl List.mem_cons_self)) hhash])
  · rintro (hclosed | hall)
    · cases hclosed
      rfl
    · cases hall

theorem closedAll (ht : SessionsTracked B rows h clock) (u : Uuid) :
    SessionsTracked B (rows.filter fun r => !decide (r.userId = u.val)) (.closedAll u :: h) clock := by
  apply ht.ended (by simp)
  intro r hr raw u' hof hlive
  rw [decide_eq_true_eq, hof.user]
  constructor
  · intro huser
    exact .inr (by rw [Subtype.ext huser])
  · rintro (hclosed | hall)
    · cases hclosed
    · cases hall
      rfl

/-- Purged rows have expired. -/
theorem purged (ht : SessionsTracked B rows h clock) {now : ℤ} (hnow : now ≤ clock) :
    SessionsTracked B (rows.filter fun r => !decide (r.expiresAt < now)) h clock := by
  refine ⟨?_, ?_⟩
  · intro r hr
    exact ht.sound r (List.mem_filter.mp hr).1
  · intro raw u exp hlive
    rcases ht.complete raw u exp hlive with hexp | ⟨r, hr, hof, rfl⟩
    · exact .inl hexp
    · by_cases hpast : r.expiresAt < now
      · exact .inl (hpast.trans_le hnow)
      · exact .inr ⟨r, List.mem_filter.mpr ⟨hr, by simpa using hpast⟩, hof, rfl⟩

end SessionsTracked

/-! ## Tokens -/

namespace TokensTracked
variable {B : Bcrypt} {rows : List ApiTokenRow} {h : List Entry}

/-- An entry that is not about tokens. -/
theorem other (ht : TokensTracked B rows h) {e : Entry} (hminted : ∀ raw id u, e ≠ .minted raw id u)
    (hwithdrawn : ∀ id, e ≠ .withdrawn id) : TokensTracked B rows (e :: h) := by
  refine ⟨?_, ?_, ?_⟩
  · intro r hr
    obtain ⟨raw, id, u, hmint, hof, hrevoked⟩ := ht.sound r hr
    exact ⟨raw, id, u, List.mem_cons_of_mem e hmint, hof, by simp [hrevoked, (hwithdrawn id).symm]⟩
  · intro raw id u hmint
    exact ht.minted raw id u ((List.mem_cons.mp hmint).resolve_left (hminted raw id u).symm)
  · intro id hout
    exact ht.withdrawn id ((List.mem_cons.mp hout).resolve_left (hwithdrawn id).symm)

theorem seen (ht : TokensTracked B rows h) {rows' : List ApiTokenRow}
    (hsame : rows'.map ApiTokenRow.lasting = rows.map ApiTokenRow.lasting) : TokensTracked B rows' h := by
  refine ⟨?_, ?_, ?_⟩
  · intro r hr
    obtain ⟨q, hq, hqr⟩ := exists_lasting hsame hr
    obtain ⟨raw, id, u, hmint, hof, hrevoked⟩ := ht.sound q hq
    obtain ⟨hof', hrev⟩ := hof.lasting hqr
    exact ⟨raw, id, u, hmint, hof', hrev ▸ hrevoked⟩
  · intro raw id u hmint
    obtain ⟨hhead, q, hq, hof⟩ := ht.minted raw id u hmint
    obtain ⟨r, hr, hrq⟩ := exists_lasting hsame.symm hq
    exact ⟨hhead, r, hr, (hof.lasting hrq.symm).1⟩
  · intro id hout
    obtain ⟨q, hq, hid⟩ := ht.withdrawn id hout
    obtain ⟨r, hr, hrq⟩ := exists_lasting hsame.symm hq
    obtain ⟨raw, id', u, -, hof, -⟩ := ht.sound q hq
    exact ⟨r, hr, ((hof.lasting hrq.symm).1.id.trans hof.id.symm).trans hid⟩

theorem mint (ht : TokensTracked B rows h) {r : ApiTokenRow} {raw : Text} {id u : Uuid} (hof : TokenOf B r raw id u)
    (hunrevoked : r.revokedAt = none) (hfresh : r.id ∉ rows.map ApiTokenRow.id) (hhead : tokenPrefix <+: raw) :
    TokensTracked B (rows ++ [r]) (.minted raw id u :: h) := by
  refine ⟨?_, ?_, ?_⟩
  · intro q hq
    rcases List.mem_append.mp hq with hq | hq
    · obtain ⟨raw', id', u', hmint, hof', hrevoked⟩ := ht.sound q hq
      exact ⟨raw', id', u', List.mem_cons_of_mem _ hmint, hof', by simp [hrevoked]⟩
    · obtain rfl := List.mem_singleton.mp hq
      refine ⟨raw, id, u, List.mem_cons_self, hof, iff_of_true hunrevoked ?_⟩
      intro hout
      obtain ⟨q', hq', hid⟩ := ht.withdrawn id ((List.mem_cons.mp hout).resolve_left (by simp))
      exact hfresh (List.mem_map.mpr ⟨q', hq', hid.trans hof.id.symm⟩)
  · intro raw' id' u' hmint
    rcases List.mem_cons.mp hmint with hnew | hold
    · cases hnew
      exact ⟨hhead, r, by simp, hof⟩
    · obtain ⟨hhead', q, hq, hof'⟩ := ht.minted raw' id' u' hold
      exact ⟨hhead', q, List.mem_append_left _ hq, hof'⟩
  · intro id' hout
    obtain ⟨q, hq, hid⟩ := ht.withdrawn id' ((List.mem_cons.mp hout).resolve_left (by simp))
    exact ⟨q, List.mem_append_left _ hq, hid⟩

/-- The row of an identifier that is revoked unless it was before. -/
theorem withdraw (ht : TokensTracked B rows h) {id : Uuid} (hid : ∃ r ∈ rows, r.id = id.val) (now : ℤ) :
    TokensTracked B (rows.map fun r => if r.id = id.val && r.revokedAt.isNone then ApiTokenRow.revoked now r else r)
      (.withdrawn id :: h) := by
  have hkeep : ∀ r, TokenOf B (if r.id = id.val && r.revokedAt.isNone then ApiTokenRow.revoked now r else r) =
      TokenOf B r := by
    intro r
    funext raw id' u
    apply propext
    split_ifs
    · exact ⟨fun h => ⟨h.hash, h.id, h.user⟩, fun h => ⟨h.hash, h.id, h.user⟩⟩
    · rfl
  refine ⟨?_, ?_, ?_⟩
  · intro q hq
    obtain ⟨r, hr, rfl⟩ := List.mem_map.mp hq
    obtain ⟨raw, id', u, hmint, hof, hrevoked⟩ := ht.sound r hr
    refine ⟨raw, id', u, List.mem_cons_of_mem _ hmint, (hkeep r).symm ▸ hof, ?_⟩
    by_cases hsame : id' = id
    · subst hsame
      refine iff_of_false ?_ (by simp)
      cases hrev : r.revokedAt <;> simp [hof.id, hrev, ApiTokenRow.revoked]
    · have hne : r.id ≠ id.val := fun heq => hsame (Subtype.ext (hof.id.symm.trans heq))
      simp [hne, hrevoked, hsame]
  · intro raw id' u hmint
    obtain ⟨hhead, r, hr, hof⟩ := ht.minted raw id' u ((List.mem_cons.mp hmint).resolve_left (by simp))
    exact ⟨hhead, _, List.mem_map_of_mem hr, (hkeep r).symm ▸ hof⟩
  · intro id' hout
    obtain ⟨r, hr, hr'⟩ : ∃ r ∈ rows, r.id = id'.val := by
      rcases List.mem_cons.mp hout with hnew | hold
      · cases hnew
        exact hid
      · exact ht.withdrawn id' hold
    refine ⟨_, List.mem_map_of_mem hr, ?_⟩
    split_ifs
    · exact hr'
    · exact hr'

end TokensTracked

/-! ## Accounts -/

namespace UsersTracked
variable {rows rows' : List UserRow} {h : List Entry}

/-- An entry that neither disables nor enables, of an account that is there. -/
theorem other (ht : UsersTracked rows h) {e : Entry} (hdisabled : ∀ u, e ≠ .disabled u)
    (henabled : ∀ u, e ≠ .enabled u)
    (hopened : ∀ raw u exp, e = .opened raw u exp → ∃ r ∈ rows, r.id = u.val)
    (hminted : ∀ raw id u, e = .minted raw id u → ∃ r ∈ rows, r.id = u.val) : UsersTracked rows (e :: h) where
  readable := ht.readable
  status := by
    intro r hr u hu
    rw [ht.status r hr u hu, disabled_cons]
    simp [hdisabled, henabled]
  opened := by
    intro raw u exp hmem
    rcases List.mem_cons.mp hmem with hnew | hold
    · exact hopened raw u exp hnew.symm
    · exact ht.opened raw u exp hold
  minted := by
    intro raw id u hmem
    rcases List.mem_cons.mp hmem with hnew | hold
    · exact hminted raw id u hnew.symm
    · exact ht.minted raw id u hold
  disabled := fun u hmem => ht.disabled u ((List.mem_cons.mp hmem).resolve_left (hdisabled u).symm)

theorem elsewhere (ht : UsersTracked rows h) (hid : (rows'.map UserRow.id).Nodup)
    (kept : ∀ r ∈ rows, ∃ r' ∈ rows', r'.id = r.id ∧ r'.disabledAt = r.disabledAt)
    (added : ∀ r' ∈ rows', (∃ r ∈ rows, r'.id = r.id) ∨ r'.disabledAt = none)
    (readable : ∀ r' ∈ rows', ∃ user, rowToUser r' = .ok user) : UsersTracked rows' h := by
  have hmoves : ∀ u : Uuid, (∃ r ∈ rows, r.id = u.val) → ∃ r' ∈ rows', r'.id = u.val := by
    rintro u ⟨r, hr, hu⟩
    obtain ⟨r', hr', hsame, -⟩ := kept r hr
    exact ⟨r', hr', hsame.trans hu⟩
  refine ⟨readable, ?_, fun raw u exp hmem => hmoves u (ht.opened raw u exp hmem),
    fun raw id u hmem => hmoves u (ht.minted raw id u hmem), fun u hmem => hmoves u (ht.disabled u hmem)⟩
  intro r' hr' u hu
  by_cases hold : ∃ r ∈ rows, r.id = u.val
  · obtain ⟨r, hr, hru⟩ := hold
    obtain ⟨q, hq, hqid, hqd⟩ := kept r hr
    obtain rfl : q = r' := List.inj_on_of_nodup_map hid hq hr' (hqid.trans (hru.trans hu.symm))
    rw [hqd]
    exact ht.status r hr u hru
  · have hnone : r'.disabledAt = none := by
      refine (added r' hr').resolve_left ?_
      rintro ⟨r, hr, hrr⟩
      exact hold ⟨r, hr, hrr.symm.trans hu⟩
    refine iff_of_false (by simp [hnone]) ?_
    intro hdis
    exact hold (ht.disabled u hdis.mem)

/-- Set a column of one account, and record it. -/
theorem set (ht : UsersTracked rows h) {id : Uuid} {e : Entry} {p : UserRow → Bool} {at_ : Option ℤ}
    (hp : ∀ r ∈ rows, p r = true → r.id = id.val)
    (hset : ∀ r ∈ rows, r.id = id.val → p r = false → r.disabledAt.isSome = at_.isSome)
    (he : (e = .disabled id ∧ at_.isSome = true) ∨ (e = .enabled id ∧ at_ = none))
    (hid : ∃ r ∈ rows, r.id = id.val) :
    UsersTracked (rows.map fun r => if p r then r.withDisabledAt at_ else r) (e :: h) := by
  have hmoves : ∀ u : Uuid, (∃ r ∈ rows, r.id = u.val) →
      ∃ r' ∈ rows.map fun r => if p r then r.withDisabledAt at_ else r, r'.id = u.val := by
    rintro u ⟨r, hr, hu⟩
    refine ⟨_, List.mem_map_of_mem hr, ?_⟩
    split_ifs
    · exact hu
    · exact hu
  refine ⟨?_, ?_, ?_, ?_, ?_⟩
  · intro q hq
    obtain ⟨r, hr, rfl⟩ := List.mem_map.mp hq
    split_ifs
    · exact rowToUser_withDisabledAt at_ (ht.readable r hr)
    · exact ht.readable r hr
  · intro q hq u hu
    obtain ⟨r, hr, rfl⟩ := List.mem_map.mp hq
    have hru : r.id = u.val := by
      split_ifs at hu
      · exact hu
      · exact hu
    rw [disabled_cons]
    by_cases hsame : u = id
    · subst hsame
      have hat : (if p r then r.withDisabledAt at_ else r).disabledAt.isSome = at_.isSome := by
        split_ifs with hpr
        · rfl
        · exact hset r hr hru (by simpa using hpr)
      rw [hat]
      rcases he with ⟨rfl, hsome⟩ | ⟨rfl, rfl⟩
      · simp [hsome]
      · simp
    · have hpr : p r = false := by
        by_contra hpr
        exact hsame (Subtype.ext (hru.symm.trans (hp r hr (by simpa using hpr))))
      rw [hpr, if_neg Bool.false_ne_true, ht.status r hr u hru]
      rcases he with ⟨rfl, -⟩ | ⟨rfl, -⟩
      · simp [Ne.symm hsame]
      · simp [Ne.symm hsame]
  · intro raw u exp hmem
    rcases List.mem_cons.mp hmem with hnew | hold
    · rcases he with ⟨rfl, -⟩ | ⟨rfl, -⟩ <;> cases hnew
    · exact hmoves u (ht.opened raw u exp hold)
  · intro raw id' u hmem
    rcases List.mem_cons.mp hmem with hnew | hold
    · rcases he with ⟨rfl, -⟩ | ⟨rfl, -⟩ <;> cases hnew
    · exact hmoves u (ht.minted raw id' u hold)
  · intro u hmem
    rcases List.mem_cons.mp hmem with hnew | hold
    · rcases he with ⟨rfl, -⟩ | ⟨rfl, -⟩
      · cases hnew
        exact hmoves _ hid
      · cases hnew
    · exact hmoves u (ht.disabled u hold)

end UsersTracked

section
variable {B : Bcrypt} {env : Env} {l : Ledger} {c : CredentialOp} {clock : ℤ} {α : Type}
  {m : Exec Store StorageError α} {f : α → Option Entry} {t : Store}

theorem after_ok {a : α} (hc : c.run env B = m >>= fun a => pure (f a)) (hrun : m l.store = (.ok a, t)) :
    l.after env B c clock = ⟨t, (f a).toList ++ l.history, clock⟩ := by
  have hdone : c.run env B l.store = (.ok (f a), t) := by
    rw [hc]
    exact bind_ok hrun _
  rw [Ledger.after, hdone]
  rfl

theorem after_failed (hc : c.run env B = m >>= fun a => pure (f a)) (hno : ∀ a, (m l.store).1 ≠ .ok a) :
    l.after env B c clock = ⟨(m l.store).2, l.history, clock⟩ := by
  rcases bind_cases m (fun a => pure (f a)) l.store with ⟨a, s', hok, -⟩ | ⟨-, hstate, hnone⟩
  · exact absurd (congrArg Prod.fst hok) (hno a)
  · have hvalue : (c.run env B l.store).1.value = none := by
      rw [hc]
      exact Outcome.value_eq_none hnone
    rw [Ledger.after, hvalue, hc, hstate]
    rfl

theorem after_err {e : StorageError} (hc : c.run env B = m >>= fun a => pure (f a)) (hrun : m l.store = (.err e, t)) :
    l.after env B c clock = ⟨t, l.history, clock⟩ := by
  rw [after_failed hc (by simp [hrun]), hrun]

theorem Tracked.seen (h : Tracked B l) (hseen : SeenOnly l.store t) (hle : l.clock ≤ clock) :
    Tracked B ⟨t, l.history, clock⟩ where
  sessions := (h.sessions.later hle).seen hseen.sessions
  tokens := h.tokens.seen hseen.tokens
  users := by
    rw [hseen.users]
    exact h.users

theorem Tracked.still (h : Tracked B l) (hle : l.clock ≤ clock) : Tracked B ⟨l.store, l.history, clock⟩ :=
  h.seen (seenOnly_frame.refl l.store) hle

theorem exists_of_has {users : Table UserRow Bytes [UserRow.id, fun r => encode r.email]} {u : Uuid}
    (h : users.has UserRow.id u.val = true) : ∃ r ∈ users.rows, r.id = u.val := by
  obtain ⟨r, hr⟩ := Option.isSome_iff_exists.mp h
  obtain ⟨hmem, hid⟩ := Table.find_some hr
  exact ⟨r, hmem, by simpa using hid⟩

/-! Each operation keeps the invariant. -/

theorem Tracked.createSession (h : Tracked B l) (hle : l.clock ≤ clock) (u : Uuid) (ip ua : Text) (ttlHours : ℤ) :
    Tracked B (l.after env B (.createSession u ip ua ttlHours) clock) := by
  rcases createSession_cases env B u ip ua ttlHours l.store with ⟨-, issued, _, -, hrun⟩ | ⟨-, hno, hsame⟩
  · obtain ⟨r, sessions, hins, hstore, huser, hid, hcsrf, hexp, hhas, -⟩ := createSession_row hrun
    rw [after_ok rfl hrun, hstore]
    refine ⟨?_, h.tokens.other (by simp) (by simp), h.users.other (by simp) (by simp) ?_ (by simp)⟩
    · rw [← hexp, (Table.insert_some hins).2]
      exact (h.sessions.later hle).opened ⟨hid, huser, hcsrf⟩
    · intro raw u' exp heq
      cases heq
      exact exists_of_has hhas
  · rw [after_failed rfl hno, hsame]
    exact h.still hle

theorem Tracked.findSession (h : Tracked B l) (hle : l.clock ≤ clock) (raw : Text) :
    Tracked B (l.after env B (.findSession raw) clock) := by
  rcases findValidSession_cases env B raw l.store with ⟨-, t, hseen, hfound⟩ | ⟨-, e, hrun⟩
  · obtain ⟨found, hrun⟩ : ∃ found, Sessions.findValid env B raw l.store = (.ok found, t) := by
      rcases hfound with ⟨-, hrun⟩ | ⟨_, sess, -, -, hrun⟩
      · exact ⟨none, hrun⟩
      · exact ⟨some sess, hrun⟩
    rw [after_ok rfl hrun]
    exact h.seen hseen hle
  · rw [after_err rfl hrun]
    exact h.still hle

theorem Tracked.revokeSession (h : Tracked B l) (hle : l.clock ≤ clock) (raw : Text)
    (hinj : Set.InjOn (tokenHash B) (InPlay (l.after env B (.revokeSession raw) clock).history)) :
    Tracked B (l.after env B (.revokeSession raw) clock) := by
  rcases revokeSession_cases env B raw l.store with ⟨-, hrun⟩ | ⟨-, e, hrun⟩
  · rw [after_ok rfl hrun] at hinj ⊢
    exact ⟨(h.sessions.later hle).closed hinj, h.tokens.other (by simp) (by simp),
      h.users.other (by simp) (by simp) (by simp) (by simp)⟩
  · rw [after_err rfl hrun]
    exact h.still hle

theorem Tracked.revokeAllForUser (h : Tracked B l) (hle : l.clock ≤ clock) (u : Uuid) :
    Tracked B (l.after env B (.revokeAllForUser u) clock) := by
  rcases execute_cases env .deleteSessionsOfUser (Db.deleteSessionsOf u.val) l.store with
    ⟨e, hrun, -⟩ | ⟨n, db, -, hdb, hrun⟩
  · rw [after_err (m := Sessions.revokeAllForUser env u) rfl hrun]
    exact h.still hle
  · cases hdb
    rw [after_ok (m := Sessions.revokeAllForUser env u) rfl hrun]
    exact ⟨(h.sessions.later hle).closedAll u, h.tokens.other (by simp) (by simp),
      h.users.other (by simp) (by simp) (by simp) (by simp)⟩

theorem Tracked.purgeExpired (h : Tracked B l) (within : ReadsWithin env l.clock clock) :
    Tracked B (l.after env B .purgeExpired clock) := by
  have hle : l.clock ≤ clock := (within .sessionPurge).1.trans (within .sessionPurge).2
  rcases execute_cases env .deleteExpiredSessions
    (Db.deleteSessionsBefore (dtToMillis (env.now .sessionPurge).time)) l.store with
    ⟨e, hrun, -⟩ | ⟨n, db, -, hdb, hrun⟩
  · rw [after_err (m := Sessions.purgeExpired env) rfl hrun]
    exact h.still hle
  · cases hdb
    rw [after_ok (m := Sessions.purgeExpired env) rfl hrun]
    exact ⟨(h.sessions.later hle).purged (within .sessionPurge).2, h.tokens, h.users⟩

theorem Tracked.createToken (h : Tracked B l) (hle : l.clock ≤ clock) (u : Uuid) (label : Text) :
    Tracked B (l.after env B (.createToken u label) clock) := by
  rcases createApiToken_cases env B u label l.store with ⟨-, issued, _, -, hrun⟩ | ⟨-, hno, hsame⟩
  · obtain ⟨r, apiTokens, hins, hstore, huser, hid, hhash, hrevoked, hhas, hhead⟩ := createApiToken_row hrun
    obtain ⟨hfresh, hrows⟩ := Table.insert_some hins
    rw [after_ok rfl hrun, hstore]
    refine ⟨(h.sessions.later hle).other (by simp) (by simp) (by simp), ?_,
      h.users.other (by simp) (by simp) (by simp) ?_⟩
    · rw [hrows]
      exact h.tokens.mint ⟨hhash, hid, huser⟩ hrevoked (hfresh ApiTokenRow.id List.mem_cons_self) hhead
    · intro raw id u' heq
      cases heq
      exact exists_of_has hhas
  · rw [after_failed rfl hno, hsame]
    exact h.still hle

theorem Tracked.findToken (h : Tracked B l) (hle : l.clock ≤ clock) (raw : Text) :
    Tracked B (l.after env B (.findToken raw) clock) := by
  rcases findValidByRaw_cases env B raw l.store with
    ⟨-, hrun⟩ | ⟨-, -, t, hseen, hfound⟩ | ⟨-, -, e, hrun⟩
  · rw [after_ok rfl hrun]
    exact h.still hle
  · obtain ⟨found, hrun⟩ : ∃ found, ApiTokens.findValidByRaw env B raw l.store = (.ok found, t) := by
      rcases hfound with ⟨-, hrun⟩ | ⟨_, token, -, -, hrun⟩
      · exact ⟨none, hrun⟩
      · exact ⟨some token, hrun⟩
    rw [after_ok rfl hrun]
    exact h.seen hseen hle
  · rw [after_err rfl hrun]
    exact h.still hle

theorem Tracked.revokeToken (h : Tracked B l) (hle : l.clock ≤ clock) (id : Uuid) :
    Tracked B (l.after env B (.revokeToken id) clock) := by
  rcases revokeApiToken_cases env id l.store with ⟨⟨-, r, hr, hid, -⟩, hrun⟩ | ⟨-, e, hrun⟩
  · rw [after_ok rfl hrun]
    exact ⟨(h.sessions.later hle).other (by simp) (by simp) (by simp), h.tokens.withdraw ⟨r, hr, hid⟩ _,
      h.users.other (by simp) (by simp) (by simp) (by simp)⟩
  · rw [after_err rfl hrun]
    exact h.still hle

theorem Tracked.disable (h : Tracked B l) (hle : l.clock ≤ clock) (id : Uuid) :
    Tracked B (l.after env B (.disable id) clock) := by
  rcases disableUser_cases env id l.store with ⟨⟨-, r, hr, hid, -⟩, hrun⟩ | ⟨-, e, hrun⟩
  · rw [after_ok rfl hrun]
    refine ⟨(h.sessions.later hle).other (by simp) (by simp) (by simp), h.tokens.other (by simp) (by simp),
      h.users.set ?_ ?_ (.inl ⟨rfl, rfl⟩) ⟨r, hr, hid⟩⟩
    · intro q _ hq
      simp only [Bool.and_eq_true, decide_eq_true_eq] at hq
      exact hq.1
    · intro q _ hq hno
      cases hd : q.disabledAt <;> simp [hq, hd] at hno ⊢
  · rw [after_err rfl hrun]
    exact h.still hle

theorem Tracked.enable (h : Tracked B l) (hle : l.clock ≤ clock) (id : Uuid) :
    Tracked B (l.after env B (.enable id) clock) := by
  rcases enableUser_cases env id l.store with ⟨⟨-, r, hr, hid⟩, hrun⟩ | ⟨-, e, hrun⟩
  · rw [after_ok rfl hrun]
    refine ⟨(h.sessions.later hle).other (by simp) (by simp) (by simp), h.tokens.other (by simp) (by simp),
      h.users.set ?_ ?_ (.inr ⟨rfl, rfl⟩) ⟨r, hr, hid⟩⟩
    · intro q _ hq
      simpa using hq
    · intro q _ hq hno
      simp [hq] at hno
  · rw [after_err rfl hrun]
    exact h.still hle

theorem Tracked.step {l' : Ledger} (h : Tracked B l) (hinj : Set.InjOn (tokenHash B) (InPlay l'.history))
    (hstep : Step B l l') : Tracked B l' := by
  cases hstep with
  | op env op within =>
      have hle : l.clock ≤ _ := (within .event).1.trans (within .event).2
      cases op with
      | createSession u ip ua ttlHours => exact h.createSession hle u ip ua ttlHours
      | findSession raw => exact h.findSession hle raw
      | revokeSession raw => exact h.revokeSession hle raw hinj
      | revokeAllForUser u => exact h.revokeAllForUser hle u
      | purgeExpired => exact h.purgeExpired within
      | createToken u label => exact h.createToken hle u label
      | findToken raw => exact h.findToken hle raw
      | revokeToken id => exact h.revokeToken hle id
      | disable id => exact h.disable hle id
      | enable id => exact h.enable hle id
  | elsewhere hout =>
      refine ⟨?_, ?_, h.users.elsewhere (Table.unique _ UserRow.id List.mem_cons_self) hout.kept hout.added
        (hout.readable h.users.readable)⟩
      · rw [hout.sessions]
        exact h.sessions
      · rw [hout.apiTokens]
        exact h.tokens

theorem Step.inPlay {l' : Ledger} (hstep : Step B l l') : InPlay l.history ⊆ InPlay l'.history := by
  cases hstep with
  | op env op within =>
      change InPlay l.history ⊆ InPlay (Option.toList _ ++ l.history)
      cases ((op.run env B l.store).1.value.bind id) with
      | none => exact subset_rfl
      | some e => exact inPlay_cons
  | elsewhere hout => exact subset_rfl

/-- Every run keeps the invariant, as long as no two tokens in play have the same hash. -/
theorem Tracked.reaches {l' : Ledger} (h : Tracked B l) (hrun : Reaches B l l')
    (hinj : Set.InjOn (tokenHash B) (InPlay l'.history)) : Tracked B l' := by
  induction hrun with
  | refl => exact h
  | tail _ hstep ih => exact (ih (hinj.mono hstep.inPlay)).step hinj hstep

/-! ## Lookups -/

/-- The account of an identifier that the history speaks of. -/
theorem UsersTracked.account {rows : List UserRow} {h : List Entry} (ht : UsersTracked rows h) {u : Uuid}
    (hu : ∃ r ∈ rows, r.id = u.val) :
    ∃ r ∈ rows, ∃ user, r.id = u.val ∧ rowToUser r = .ok user ∧ user.id = u ∧
      (user.disabledAt.isSome = true ↔ Disabled h u) := by
  obtain ⟨r, hr, hid⟩ := hu
  obtain ⟨user, huser⟩ := ht.readable r hr
  obtain ⟨huid, -, -, hdis⟩ := rowToUser_ok huser
  refine ⟨r, hr, user, hid, huser, Subtype.ext (huid.trans hid), ?_⟩
  rw [hdis, Option.isSome_map]
  exact ht.status r hr u hid

/-- A session row is found exactly while its session is live and unexpired. -/
theorem Tracked.liveSession_iff (h : Tracked B l) {raw : Text} {u : Uuid} {expiresAt : ℤ}
    (hnow : l.clock ≤ dtToMillis (env.now .sessionLookup).time)
    (hinj : Set.InjOn (tokenHash B) (insert raw (InPlay l.history))) :
    (∃ r, liveSession env B l.store raw = some r ∧ r.userId = u.val ∧ r.expiresAt = expiresAt) ↔
      LiveSession l.history raw u expiresAt ∧ dtToMillis (env.now .sessionLookup).time < expiresAt := by
  constructor
  · rintro ⟨r, hfind, huser, rfl⟩
    obtain ⟨hmem, hcond⟩ := Table.find_some hfind
    simp only [Bool.and_eq_true, decide_eq_true_eq] at hcond
    obtain ⟨raw', u', hlive, hof⟩ := h.sessions.sound r hmem
    have hraw : raw' = raw := hinj (.inr (.inl ⟨u', _, hlive.mem⟩)) (.inl rfl) (hof.id.symm.trans hcond.1)
    have hu : u' = u := Subtype.ext (hof.user.symm.trans huser)
    exact ⟨hraw ▸ hu ▸ hlive, hcond.2⟩
  · rintro ⟨hlive, hunexpired⟩
    rcases h.sessions.complete raw u expiresAt hlive with hpast | ⟨r, hr, hof, rfl⟩
    · exact absurd (hpast.trans_le hnow) hunexpired.le.not_gt
    · refine ⟨r, Table.find_of_mem hr ?_ ?_, hof.user, rfl⟩
      · have hid : r.id = (Cng.sha256 B (encode raw)).val := hof.id
        simpa [hid] using hunexpired
      · intro r' hr' hcond
        simp only [Bool.and_eq_true, decide_eq_true_eq] at hcond
        exact Table.eq_of_key (by simp : SessionRow.id ∈ _) hr' hr (hcond.1.trans hof.id.symm)

theorem Tracked.session_readable (h : Tracked B l) {r : SessionRow} (hr : r ∈ l.store.db.sessions.rows) :
    ∃ sess, rowToSession r = .ok sess := by
  obtain ⟨raw, u, -, hof⟩ := h.sessions.sound r hr
  have hid : octetsFrom 32 0 "id" r.id = .ok (Cng.sha256 B (encode raw)) := by
    rw [hof.id]
    exact octetsFrom_val _ _ _
  have huser : uuidFrom 1 "user_id" r.userId = .ok u := by
    rw [hof.user, uuidFrom_val]
  have hcsrf : octetsFrom 32 2 "csrf_token" r.csrfToken = .ok ⟨r.csrfToken, hof.csrf⟩ := dif_pos hof.csrf
  simp only [rowToSession, hid, huser, hcsrf]
  exact ⟨_, rfl⟩

/-- A token row is found exactly while its token is not revoked. -/
theorem Tracked.liveToken_iff (h : Tracked B l) {raw : Text} {id u : Uuid}
    (hinj : Set.InjOn (tokenHash B) (insert raw (InPlay l.history))) :
    (∃ r, liveToken B l.store raw = some r ∧ r.id = id.val ∧ r.userId = u.val) ↔ LiveToken l.history raw id u := by
  constructor
  · rintro ⟨r, hfind, hid, huser⟩
    obtain ⟨hmem, hcond⟩ := Table.find_some hfind
    simp only [Bool.and_eq_true, decide_eq_true_eq, Option.isNone_iff_eq_none] at hcond
    obtain ⟨raw', id', u', hmint, hof, hrevoked⟩ := h.tokens.sound r hmem
    have hraw : raw' = raw :=
      hinj (.inr (.inr (.inr ⟨id', u', hmint⟩))) (.inl rfl) (hof.hash.symm.trans hcond.1)
    have hid' : id' = id := Subtype.ext (hof.id.symm.trans hid)
    have hu : u' = u := Subtype.ext (hof.user.symm.trans huser)
    subst hraw hid' hu
    exact ⟨hmint, hrevoked.mp hcond.2⟩
  · rintro ⟨hmint, hkept⟩
    obtain ⟨-, r, hr, hof⟩ := h.tokens.minted raw id u hmint
    obtain ⟨raw', id', u', -, hof', hrevoked⟩ := h.tokens.sound r hr
    have hid : id' = id := Subtype.ext (hof'.id.symm.trans hof.id)
    subst hid
    refine ⟨r, Table.find_of_mem hr ?_ ?_, hof.id, hof.user⟩
    · have hhash : r.tokenHash = (Cng.sha256 B (encode raw)).val := hof.hash
      simp [hhash, hrevoked.mpr hkept]
    · intro r' hr' hcond
      simp only [Bool.and_eq_true, decide_eq_true_eq] at hcond
      exact Table.eq_of_key (by simp : ApiTokenRow.tokenHash ∈ _) hr' hr (hcond.1.trans hof.hash.symm)

theorem Tracked.token_readable (h : Tracked B l) {r : ApiTokenRow} (hr : r ∈ l.store.db.apiTokens.rows) :
    ∃ token, rowToToken r = .ok token := by
  obtain ⟨raw, id, u, -, hof, -⟩ := h.tokens.sound r hr
  have hid : uuidFrom 0 "id" r.id = .ok id := by
    rw [hof.id, uuidFrom_val]
  have huser : uuidFrom 1 "user_id" r.userId = .ok u := by
    rw [hof.user, uuidFrom_val]
  have hhash : octetsFrom 32 3 "token_hash" r.tokenHash = .ok (Cng.sha256 B (encode raw)) := by
    rw [hof.hash]
    exact octetsFrom_val _ _ _
  simp only [rowToToken, hid, huser, hhash]
  exact ⟨_, rfl⟩

end

end FipsDropbox.Storage.Lifecycle
