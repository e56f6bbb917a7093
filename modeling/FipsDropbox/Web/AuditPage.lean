import FipsDropbox.Audit.Runs
import FipsDropbox.Service.AuditView
import FipsDropbox.Web.Export

/-!
# The rows of the audit page

`audit_get` shortens the user and the details of an event by cutting the text at fixed
byte offsets. A cut inside a character panics, and with it the whole page.
-/
namespace FipsDropbox.Web
open Utf8 Exec Storage Service

section
variable (site : Site)

def detailText (target meta_ : JsonValue) : Text :=
  let t := valueText site target
  let m := valueText site meta_
  if t = "{}".toList && m = "{}".toList then []
  else if t = "{}".toList then m
  else if m = "{}".toList then t
  else t ++ ' ' :: m

/-- A user that is shown whole, or both of whose cuts are between characters. -/
def IdFits (id : Text) : Prop :=
  (encode id).length ≤ 13 ∨
    isCharBoundary id 8 = true ∧ isCharBoundary id ((encode id).length - 4) = true

/-- Details that are shown whole, or whose cut is between characters. -/
def DetailFits (t : Text) : Prop := (encode t).length ≤ 200 ∨ isCharBoundary t 197 = true

structure Displayable (e : Audit.Event) : Prop where
  user : ∀ id, e.actor.userId = some id → IdFits id
  detail : DetailFits (detailText site e.target e.meta)

variable {site}

theorem shortId_isSome_iff (id : Text) : (shortId id).isSome = true ↔ IdFits id := by
  unfold shortId IdFits isCharBoundary sliceFrom
  split_ifs with h
  · cases sliceTo id 8 <;> cases sliceTo id ((encode id).length - 4) <;> simp [h]
  · simp [Nat.le_of_not_lt h]

theorem shortTargetMeta_isSome_iff (target meta_ : JsonValue) :
    (shortTargetMeta site target meta_).isSome = true ↔ DetailFits (detailText site target meta_) := by
  have heq : shortTargetMeta site target meta_ = if 200 < (encode (detailText site target meta_)).length then
      (sliceTo (detailText site target meta_) 197).map (· ++ ['…']) else some (detailText site target meta_) := rfl
  rw [heq, DetailFits, isCharBoundary]
  split_ifs with h
  · rw [Option.isSome_map, or_iff_right (Nat.not_le_of_lt h)]
  · simp [Nat.le_of_not_lt h]

theorem auditRow_isSome_iff (e : Audit.Event) : (auditRow site e).isSome = true ↔ Displayable site e := by
  have hdetail : (shortTargetMeta site e.target e.meta).isSome = true ↔ DetailFits (detailText site e.target e.meta) :=
    shortTargetMeta_isSome_iff e.target e.meta
  have hsplit : Displayable site e ↔ (∀ id, e.actor.userId = some id → IdFits id) ∧
      DetailFits (detailText site e.target e.meta) := ⟨fun h => ⟨h.user, h.detail⟩, fun h => ⟨h.1, h.2⟩⟩
  rw [hsplit, ← hdetail, auditRow]
  cases hu : e.actor.userId with
  | none => cases shortTargetMeta site e.target e.meta <;> simp
  | some id =>
      have hid := shortId_isSome_iff id
      simp only [Option.some.injEq, forall_eq', ← hid]
      cases shortId id <;> cases shortTargetMeta site e.target e.meta <;> simp

theorem mapM_auditRow_isSome_iff (events : List Audit.Event) :
    (events.mapM (auditRow site)).isSome = true ↔ ∀ e ∈ events, Displayable site e := by
  induction events with
  | nil => simp
  | cons e events ih =>
      rw [List.forall_mem_cons, ← ih, ← auditRow_isSome_iff, List.mapM_cons]
      cases auditRow site e <;> cases events.mapM (auditRow site) <;> simp

/-- The list of events can be read, and is this one. -/
structure Lists (env : RequestEnv) (site : Site) (w : World) (all : List Audit.Event) : Prop where
  free : w.auditPoisoned = false
  reads : env.readLogFails = false
  log : Audit.readAll site.serde w.file = .ok all
  verdict : ∃ v, Audit.verifyChain site.serde site.bcrypt all = .ok v

theorem listAuditEvents_of_lists {env : RequestEnv} {w : World} {all : List Audit.Event}
    (h : Lists env site w all) (p : Option Text) (limit : ℕ) :
    ∃ v, listAuditEvents env site.toApp p limit w = (.ok ⟨pageOf p limit all, v, all.length⟩, w) := by
  obtain ⟨v, hv⟩ := h.verdict
  exact ⟨v, listAuditEvents_ok_iff.mpr ⟨h.free, h.reads, rfl, all, v, h.log, hv, rfl⟩⟩

theorem mem_pageOf (limit : ℕ) (filter : Text) (all : List Audit.Event) (e : Audit.Event) :
    e ∈ pageOf (filterOf filter) limit all ↔ e ∈ newest limit filter all := by
  rw [← pageOf_filterOf, List.mem_reverse]

theorem auditGet_of_list {env : RequestEnv} {filter : Text} {w w' : World} {view : AuditView}
    (h : listAuditEvents env site.toApp (filterOf filter) 500 w = (.ok view, w')) :
    (auditGet env site filter w).1 ≠ .panic ↔ ∀ e ∈ view.events, Displayable site e := by
  have hlist : orInternal (listAuditEvents env site.toApp (filterOf filter) 500) w = (.ok view, w') :=
    adapt_ok_iff.mpr h
  rw [← mapM_auditRow_isSome_iff, auditGet, bind_ok hlist]
  cases hrows : view.events.mapM (auditRow site) with
  | none =>
      have hpanic : (orPanic (none : Option (List AuditRow)) : Exec World StatusCode _) w' = (.panic, w') := rfl
      rw [bind_panic hpanic]
      exact iff_of_false (fun h => h rfl) Bool.false_ne_true
  | some rows =>
      have hrun : (orPanic (some rows) : Exec World StatusCode _) w' = (.ok rows, w') := rfl
      rw [bind_ok hrun]
      exact iff_of_true (fun hpanic => by cases hpanic) rfl

/-- The page panics exactly when some event on it cannot be cut: among the newest 500 of
the prefix that it shows, where the log can be listed at all. -/
theorem auditGet_shown_iff (env : RequestEnv) (site : Site) (filter : Text) (w : World) :
    (auditGet env site filter w).1 ≠ .panic ↔
      ∀ all, Lists env site w all → ∀ e ∈ newest 500 filter all, Displayable site e := by
  rcases hrun : listAuditEvents env site.toApp (filterOf filter) 500 w with ⟨view | e | _, w'⟩
  · obtain ⟨hfree, hreads, -, es, v, hlog, hverdict, rfl⟩ := listAuditEvents_ok_iff.mp hrun
    rw [auditGet_of_list hrun]
    dsimp only
    constructor
    · intro h all hall e he
      obtain rfl : es = all := Except.ok.inj (hlog.symm.trans hall.log)
      exact h e ((mem_pageOf 500 filter es e).mpr he)
    · intro h e he
      exact h es ⟨hfree, hreads, hlog, v, hverdict⟩ e ((mem_pageOf 500 filter es e).mp he)
  · have herr : orInternal (listAuditEvents env site.toApp (filterOf filter) 500) w =
        (.err .internalServerError, w') := by
      simp only [orInternal, adapt, hrun]
    refine iff_of_true ?_ fun all hall => ?_
    · rw [auditGet, bind_err herr]
      simp
    · obtain ⟨v, hv⟩ := listAuditEvents_of_lists hall (filterOf filter) 500
      rw [hv] at hrun
      cases hrun
  · exact absurd (congrArg Prod.fst hrun) (spawnBlocking_calm _ w)

end

def deniedLogin (env : RequestEnv) (req : LoginRequest) : Audit.Event :=
  eventOf env "auth.login" .denied none req.ip req.userAgent [text "email" req.email]
    [text "reason" "invalid credentials".toList]

theorem deniedLogin_plain (env : RequestEnv) (req : LoginRequest) : (deniedLogin env req).Plain := by
  apply eventOf_plain
  · simp [text, Json.floatFree, Json.depth]
  · simp [text, Json.floatFree, Json.depth]

theorem withAudit_of_run {α : Type} {m : Exec World ServiceError α} {w t : World} {o : Outcome ServiceError α}
    (h : w.auditPoisoned = false) (hm : m w = (o, t)) (ho : o ≠ .panic) : withAudit m w = (o, t) := by
  simp only [withAudit, locked, auditMutex, h, hm, Bool.false_eq_true, if_false]
  cases o with
  | ok a => rfl
  | err e => rfl
  | panic => exact absurd rfl ho

theorem login_denied {env : RequestEnv} {app : App} {req : LoginRequest} {w : World} {log : Audit.Log}
    {file : Audit.File} (hfree : Free w)
    (hverify : Users.verifyPassword env.toEnv app.bcrypt req.email req.password w.store = (.ok none, w.store))
    (hwrite : w.log.write app.serde app.bcrypt env.auditFault w.file (deniedLogin env req) = (.ok (), log, file)) :
    login env app req w = (.err .invalidCredentials, { w with log, file }) := by
  have hevent : writeEvent env app "auth.login" .denied none req.ip req.userAgent [text "email" req.email]
      [text "reason" "invalid credentials".toList] w = (.ok (), { w with log, file }) := by
    have hwrite' : w.log.write app.serde app.bcrypt env.auditFault w.file
        (eventOf env "auth.login" .denied none req.ip req.userAgent [text "email" req.email]
          [text "reason" "invalid credentials".toList]) = (.ok (), log, file) := hwrite
    simp only [writeEvent, hwrite']
  refine blocking_of_run hfree.store ?_ (by simp)
  rw [bind_ok (onStore_ok hverify)]
  refine withAudit_of_run hfree.audit ?_ (by simp)
  rw [bind_ok hevent]
  rfl

def accentedLogin : LoginRequest where
  email := List.replicate 100 'é'
  password := []
  ip := "203.0.113.9".toList
  userAgent := []

def deniedWorld : World := (login quietEnv sampleApp accentedLogin freshWorld).2

/-- The attempt is refused and recorded, and from then on the page panics. -/
theorem deniedLogin_hides_log :
    (login quietEnv sampleApp accentedLogin freshWorld).1 = .err .invalidCredentials ∧
      (auditGet quietEnv sampleSite [] deniedWorld).1 = .panic := by
  have hstart : Audit.Coherent .reference .reference freshWorld.log freshWorld.file [] :=
    ⟨Audit.holds_absent, trivial, rfl⟩
  obtain ⟨e, log, file, hwrite, hpayload, hlog⟩ := hstart.write_ok Audit.SerdeJson.reference_documented
    (deniedLogin_plain quietEnv accentedLogin)
  have hrun : login quietEnv sampleApp accentedLogin freshWorld =
      (.err .invalidCredentials, { freshWorld with log, file }) := login_denied ⟨rfl, rfl⟩ rfl hwrite
  have hlists : Lists quietEnv sampleSite deniedWorld [e] := by
    rw [deniedWorld, hrun]
    exact ⟨rfl, rfl, hlog.holds.readAll, _, hlog.verifies⟩
  refine ⟨by rw [hrun], ?_⟩
  by_contra hshown
  have hdisplayable := (auditGet_shown_iff quietEnv sampleSite [] deniedWorld).mp hshown [e] hlists e
    (by simp [newest, List.rtake])
  have hdetail := (shortTargetMeta_isSome_iff _ _).mpr hdisplayable.detail
  have htarget : e.target = (deniedLogin quietEnv accentedLogin).target := congrArg (fun p => p.target) hpayload
  have hmeta : e.meta = (deniedLogin quietEnv accentedLogin).meta := congrArg (fun p => p.meta) hpayload
  have hcut : shortTargetMeta sampleSite (deniedLogin quietEnv accentedLogin).target
      (deniedLogin quietEnv accentedLogin).meta = none := by decide +kernel
  rw [htarget, hmeta, hcut] at hdetail
  cases hdetail

end FipsDropbox.Web
