import FipsDropbox.Audit.Chain
import FipsDropbox.Audit.Runs
import FipsDropbox.Service.Panics

/-!
# The audit view of a live service

`list_audit_events` verifies what it reads from genesis on and does not look at the
head that the log holds in memory. So it accepts every file that is a chain; the
head is what tells the log's own file from the others.
-/
namespace FipsDropbox.Service
open Utf8 Exec Crypto Storage
open Audit (Event File chain genesisHash sealAfter CanonicalCollision ZeroDigest)

/-- An event as it was sealed, and whether its write succeeded. -/
abbrev Record := Event × Bool

def SameLog (w w' : World) : Prop := w'.log = w.log ∧ w'.file = w.file

theorem sameLog_frame : Frame SameLog where
  refl _ := ⟨rfl, rfl⟩
  trans h h' := ⟨h'.1.trans h.1, h'.2.trans h.2⟩

/-- On the host nothing was sealed, or one event of the service was, after the head of `w`. -/
inductive Writes (env : RequestEnv) (app : App) (w w' : World) : List Record → Prop
  | none (h : SameLog w w') : Writes env app w w' []
  | sealed {name : String} {outcome : Audit.Outcome} {userId : Option Uuid} {ip ua : Text}
      {target meta_ : List (Text × Json)} {e : Event} {r : Audit.Result Unit}
      (hwrite : w.log.write app.serde app.bcrypt env.auditFault w.file
        (eventOf env name outcome userId ip ua target meta_) = (r, w'.log, w'.file))
      (hseal : sealAfter app.serde app.bcrypt w.log.prevHash (eventOf env name outcome userId ip ua target meta_) =
        some e)
      (hhead : w'.log = ⟨e.hash⟩) : Writes env app w w' [(e, r.isOk)]

/-- A write failed exactly if the answer is its error. -/
def Told {α : Type} (answer : Outcome ServiceError α) (new : List Record) : Prop :=
  ∀ r ∈ new, r.2 = false ↔ ∃ e, answer = .err (.audit e)

theorem Writes.congr {env : RequestEnv} {app : App} {w w' u u' : World} {new : List Record}
    (h : Writes env app w w' new) (hw : SameLog u w) (hw' : SameLog w' u') : Writes env app u u' new := by
  cases h with
  | none h => exact .none (sameLog_frame.trans hw (sameLog_frame.trans h hw'))
  | sealed hwrite hseal hhead =>
      rw [hw.1, hw.2, ← hw'.1, ← hw'.2] at hwrite
      rw [hw.1] at hseal
      exact .sealed hwrite hseal (hw'.1.trans hhead)

/-- The computation seals at most one event, and ends as its write does. -/
def LogsOnce {α : Type} (env : RequestEnv) (app : App) (m : Exec World ServiceError α) : Prop :=
  ∀ w, ∃ new, Writes env app w (m w).2 new ∧ Told (m w).1 new

abbrev Quiets {α : Type} (m : Exec World ServiceError α) : Prop := Ends (fun _ => True) (fun e => ∀ a, e ≠ .audit a) m

section
variable {env : RequestEnv} {app : App} {α β : Type}

theorem told_nil (answer : Outcome ServiceError α) : Told answer [] := List.forall_mem_nil _

theorem Told.congr {o : Outcome ServiceError α} {o' : Outcome ServiceError β} {new : List Record} (h : Told o new)
    (ho : ∀ e, o = .err (.audit e) ↔ o' = .err (.audit e)) : Told o' new :=
  fun r hr => (h r hr).trans (exists_congr ho)

theorem logs_same {m : Exec World ServiceError α} (h : Moves SameLog m) : LogsOnce env app m :=
  fun w => ⟨[], .none (h w), told_nil _⟩

/-- A part that writes only where it fails, and what follows it. -/
theorem logs_bind_ok {m : Exec World ServiceError α} {k : α → Exec World ServiceError β} (hm : LogsOnce env app m)
    (hok : ∀ a w w', m w = (.ok a, w') → SameLog w w') (hk : ∀ a, LogsOnce env app (k a)) :
    LogsOnce env app (m >>= k) := by
  intro w
  obtain ⟨new, hnew, htold⟩ := hm w
  rcases hrun : m w with ⟨a | e | _, w'⟩ <;> rw [hrun] at hnew htold
  · obtain ⟨more, hmore, hanswer⟩ := hk a w'
    rw [bind_ok hrun]
    exact ⟨more, hmore.congr (hok a w w' hrun) (sameLog_frame.refl _), hanswer⟩
  · rw [bind_err hrun]
    exact ⟨new, hnew, htold.congr fun _ => by simp only [Outcome.err.injEq]⟩
  · rw [bind_panic hrun]
    exact ⟨new, hnew, htold.congr fun _ => by simp only [reduceCtorEq]⟩

theorem logs_bind {m : Exec World ServiceError α} {k : α → Exec World ServiceError β} (hm : Moves SameLog m)
    (hk : ∀ a, LogsOnce env app (k a)) : LogsOnce env app (m >>= k) :=
  logs_bind_ok (logs_same hm) (fun _ _ _ h => hm.of_run h) hk

theorem logs_then {m : Exec World ServiceError α} {k : α → Exec World ServiceError β} (hm : LogsOnce env app m)
    (hk : ∀ a, Moves SameLog (k a)) (hquiet : ∀ a, Quiets (k a)) : LogsOnce env app (m >>= k) := by
  intro w
  obtain ⟨new, hnew, htold⟩ := hm w
  rcases hrun : m w with ⟨a | e | _, w'⟩ <;> rw [hrun] at hnew htold
  · rw [bind_ok hrun]
    refine ⟨new, hnew.congr (sameLog_frame.refl _) (hk a w'), htold.congr fun e => ?_⟩
    simp only [reduceCtorEq, false_iff]
    exact fun hend => (hquiet a w').2 _ hend e rfl
  · rw [bind_err hrun]
    exact ⟨new, hnew, htold.congr fun _ => by simp only [Outcome.err.injEq]⟩
  · rw [bind_panic hrun]
    exact ⟨new, hnew, htold.congr fun _ => by simp only [reduceCtorEq]⟩

theorem logs_locked {L : Lock World} {e : ServiceError} {m : Exec World ServiceError α} (hm : LogsOnce env app m)
    (hp : ∀ w, SameLog w (L.poison w)) : LogsOnce env app (locked L e m) := by
  intro w
  obtain ⟨new, hnew, htold⟩ := hm w
  unfold locked
  split_ifs
  · exact ⟨[], .none (sameLog_frame.refl w), told_nil _⟩
  · rcases h : m w with ⟨a | e | _, w'⟩ <;> rw [h] at hnew htold
    · exact ⟨new, hnew, htold⟩
    · exact ⟨new, hnew, htold⟩
    · exact ⟨new, hnew.congr (sameLog_frame.refl _) (hp w'), htold⟩

theorem logs_task {m : Exec World ServiceError α} (hm : LogsOnce env app m) : LogsOnce env app (spawnBlocking m) := by
  intro w
  obtain ⟨new, hnew, htold⟩ := hm w
  unfold spawnBlocking task
  rcases h : m w with ⟨a | e | _, w'⟩ <;> rw [h] at hnew htold
  · exact ⟨new, hnew, htold⟩
  · exact ⟨new, hnew, htold⟩
  · exact ⟨new, hnew, htold.congr fun _ => by simp only [reduceCtorEq, Outcome.err.injEq]⟩

theorem logs_blocking {m : Exec World ServiceError α} (hm : LogsOnce env app m) :
    LogsOnce env app (spawnBlocking (withStore m)) := logs_task (logs_locked hm fun _ => ⟨rfl, rfl⟩)

theorem sameLog_onStore (m : Exec Store StorageError α) : Moves SameLog (onStore m) := by
  intro w
  rcases h : m w.store with ⟨a | e | _, t⟩ <;> simp only [onStore, adapt, zoom, h] <;> exact ⟨rfl, rfl⟩

theorem logs_writeEvent (name : String) (outcome : Audit.Outcome) (userId : Option Uuid) (ip ua : Text)
    (target meta_ : List (Text × Json)) :
    LogsOnce env app (writeEvent env app name outcome userId ip ua target meta_) := by
  intro w
  rcases hw : w.log.write app.serde app.bcrypt env.auditFault w.file
    (eventOf env name outcome userId ip ua target meta_) with ⟨r, log, file⟩
  have hstate : (writeEvent env app name outcome userId ip ua target meta_ w).2 = { w with log, file } := by
    simp only [writeEvent, hw]
  have htold : ∀ e : Event, Told (writeEvent env app name outcome userId ip ua target meta_ w).1 [(e, r.isOk)] := by
    intro e x hx
    rw [List.mem_singleton.mp hx]
    cases r <;> simp [writeEvent, hw, Except.isOk, Except.toBool]
  rw [hstate]
  rcases Audit.write_cases hw with ⟨-, rfl, rfl, -⟩ | ⟨e, hseal, -, rfl, -⟩ | ⟨e, line, hseal, -, rfl, -⟩
  · exact ⟨[], .none ⟨rfl, rfl⟩, told_nil _⟩
  · exact ⟨_, .sealed hw hseal rfl, htold e⟩
  · exact ⟨_, .sealed hw hseal rfl, htold e⟩

theorem logs_audited {name : String} {outcome : Audit.Outcome} {userId : Option Uuid} {ip ua : Text}
    {target meta_ : List (Text × Json)} {k : Exec World ServiceError α} (hk : Moves SameLog k) (hquiet : Quiets k) :
    LogsOnce env app (withAudit (writeEvent env app name outcome userId ip ua target meta_ >>= fun _ => k)) :=
  logs_locked (logs_then (logs_writeEvent _ _ _ _ _ _ _) (fun _ => hk) fun _ => hquiet) fun _ => ⟨rfl, rfl⟩

theorem logs_returned {name : String} {outcome : Audit.Outcome} {userId : Option Uuid} {ip ua : Text}
    {target meta_ : List (Text × Json)} (a : α) :
    LogsOnce env app (withAudit (writeEvent env app name outcome userId ip ua target meta_ >>= fun _ => pure a)) :=
  logs_audited (sameLog_frame.pure a) (ends_pure trivial)

theorem logs_refused {name : String} {outcome : Audit.Outcome} {userId : Option Uuid} {ip ua : Text}
    {target meta_ : List (Text × Json)} {e : ServiceError} (he : ∀ a, e ≠ .audit a) :
    LogsOnce env app (withAudit (writeEvent env app name outcome userId ip ua target meta_ >>= fun _ =>
      (throw e : Exec World ServiceError α))) :=
  logs_audited (sameLog_frame.throw e) (ends_throw he)

theorem sameLog_activeUser (credential : α) (userId : Uuid) :
    Moves SameLog (activeUser env credential userId) := by
  apply sameLog_frame.bind (sameLog_onStore _)
  intro found
  cases found <;> exact sameLog_frame.pure _

theorem logs_redeemLookup (req : RedeemRequest) : LogsOnce env app (redeemLookup env app req) := by
  apply logs_bind (moves_adapt (moves_sha256 sameLog_frame _ _))
  intro tokenHash
  apply logs_bind (sameLog_onStore _)
  intro found
  cases found with
  | some share => exact logs_same (sameLog_frame.pure share)
  | none =>
      exact logs_locked (logs_bind (sameLog_frame.orPanic _) fun _ =>
        logs_then (logs_writeEvent _ _ _ _ _ _ _) (fun _ => sameLog_frame.throw _) fun _ => ends_throw (by simp))
        fun _ => ⟨rfl, rfl⟩

theorem logs_redeemCode (req : RedeemRequest) (share : Share) :
    LogsOnce env app (redeemCode env app req share) := by
  apply logs_bind (sameLog_onStore _)
  intro ok
  cases ok with
  | true => exact logs_same (sameLog_frame.pure ())
  | false => exact logs_refused (by simp)

theorem logs_redeemConsume (req : RedeemRequest) (share : Share) :
    LogsOnce env app (redeemConsume env app req share) := by
  apply logs_bind (sameLog_onStore _)
  intro ok
  cases ok with
  | true => exact logs_same (sameLog_frame.pure ())
  | false => exact logs_refused (by simp)

theorem logs_redeemDeliver (req : RedeemRequest) (share : Share) :
    LogsOnce env app (redeemDeliver env app req share) :=
  logs_bind (sameLog_onStore _) fun _ => logs_bind (sameLog_frame.orErr _ _) fun _ =>
  logs_bind (sameLog_onStore _) fun _ => logs_returned _

/-- A refusal ends the redemption, so at most one of its parts writes. -/
theorem logs_redeemBody (req : RedeemRequest) : LogsOnce env app (redeemBody env app req) := by
  apply logs_bind_ok (logs_redeemLookup req)
  · intro share w w' h
    obtain ⟨-, -, rfl⟩ := redeemLookup_ok_iff.mp h
    exact sameLog_frame.refl w
  intro share
  apply logs_bind_ok (logs_redeemCode req share)
  · intro u w w' h
    obtain ⟨-, -, rfl⟩ := redeemCode_ok_iff.mp h
    exact sameLog_frame.refl w
  intro u
  apply logs_bind_ok (logs_redeemConsume req share)
  · intro u w w' h
    obtain ⟨-, r, -, -, -, rfl⟩ := redeemConsume_ok_iff.mp h
    exact ⟨rfl, rfl⟩
  intro u
  exact logs_redeemDeliver req share

theorem logs_storeShare (req : NewShareRequest) : LogsOnce env app (storeShare env app req) :=
  logs_blocking (logs_bind (sameLog_onStore _) fun _ => logs_bind (sameLog_onStore _) fun _ =>
    logs_bind (sameLog_frame.orPanic _) fun _ => logs_bind (sameLog_onStore _) fun _ =>
    logs_returned _)

theorem logs_bearerUser (look : Exec Store StorageError (Option α)) (userOf : α → Uuid) :
    LogsOnce env app (bearerUser env look userOf) := by
  apply logs_blocking (logs_bind (sameLog_onStore _) _)
  intro found
  cases found with
  | none => exact logs_same (sameLog_frame.pure none)
  | some credential => exact logs_same (sameLog_activeUser _ _)

theorem logs_replying {m : Exec World ServiceError α} {f : α → Reply} (hm : LogsOnce env app m) :
    LogsOnce env app (replying f m) :=
  logs_then hm (fun _ => sameLog_frame.pure _) fun _ => ends_pure trivial

/-- The step lemma: an operation seals at most one event. -/
theorem handle_logs (env : RequestEnv) (app : App) (req : Request) : LogsOnce env app (handle env app req) := by
  cases req with
  | login req =>
      apply logs_replying (logs_blocking (logs_bind (sameLog_onStore _) _))
      intro maybeUser
      cases maybeUser with
      | none => exact logs_refused (by simp)
      | some user => exact logs_bind (sameLog_onStore _) fun _ => logs_returned _
  | logout rawToken ip ua =>
      exact logs_replying (logs_blocking (logs_bind (sameLog_onStore _) fun _ =>
        logs_bind (sameLog_onStore _) fun _ =>
        logs_locked (logs_writeEvent _ _ _ _ _ _ _) fun _ => ⟨rfl, rfl⟩))
  | findAuthenticated rawToken =>
      rw [handle, findAuthenticated_eq]
      exact logs_replying (logs_bearerUser _ _)
  | createShare req =>
      refine logs_replying (logs_then (logs_storeShare req) (fun _ =>
        sameLog_frame.bind (moves_modify fun _ => ⟨rfl, rfl⟩) fun _ => sameLog_frame.pure _) fun _ => ?_)
      have hqueue : ∀ f : World → World, Quiets (modify f) := by
        intro f w
        refine ⟨fun _ _ => trivial, ?_⟩
        intro e h
        cases h
      exact ends_bind (hqueue _) fun _ _ => ends_pure trivial
  | redeemShare req => exact logs_replying (logs_blocking (logs_redeemBody req))
  | listAuditEvents p limit =>
      exact logs_replying (logs_task (logs_locked (logs_same (sameLog_frame.bind (sameLog_frame.failIf _ _)
        fun _ => sameLog_frame.bind (sameLog_frame.read _) fun _ =>
        sameLog_frame.bind (sameLog_frame.lift _ _) fun _ =>
        sameLog_frame.bind (sameLog_frame.lift _ _) fun _ => sameLog_frame.pure _)) fun _ => ⟨rfl, rfl⟩))
  | mintApiToken u label ip ua =>
      exact logs_replying (logs_blocking (logs_bind (sameLog_onStore _) fun _ =>
        logs_returned _))
  | listApiTokens u => exact logs_replying (logs_blocking (logs_same (sameLog_onStore _)))
  | revokeApiToken t u ip ua =>
      exact logs_replying (logs_blocking (logs_bind (sameLog_onStore _) fun _ =>
        logs_locked (logs_writeEvent _ _ _ _ _ _ _) fun _ => ⟨rfl, rfl⟩))
  | verifyApiToken rawToken =>
      rw [handle, verifyApiToken_eq]
      exact logs_replying (logs_bearerUser _ _)
  | listRecentShares limit => exact logs_replying (logs_blocking (logs_same (sameLog_onStore _)))
  | revokeShare s u ip ua =>
      exact logs_replying (logs_blocking (logs_bind (sameLog_onStore _) fun _ =>
        logs_locked (logs_writeEvent _ _ _ _ _ _ _) fun _ => ⟨rfl, rfl⟩))

end

/-! ## Runs with an outsider -/

/-- A request to the service, or whatever an outsider makes of the file. -/
inductive Happening where
  | request (env : RequestEnv) (req : Request)
  | edit (file : File)

def Happening.step (app : App) (w : World) : Happening → World
  | .request env req => (handle env app req w).2
  | .edit file => { w with file }

def afterAll (app : App) : World → List Happening → World
  | w, [] => w
  | w, h :: hs => afterAll app (h.step app w) hs

/-- What the requests of a run sealed, in order, each with whether its write succeeded. -/
inductive Recorded (app : App) : World → List Happening → List Record → Prop
  | nil (w : World) : Recorded app w [] []
  | request {w : World} {env : RequestEnv} {req : Request} {hs : List Happening} {new rest : List Record}
      (hnew : Writes env app w (handle env app req w).2 new) (htold : Told (handle env app req w).1 new)
      (hrest : Recorded app (handle env app req w).2 hs rest) :
      Recorded app w (.request env req :: hs) (new ++ rest)
  | edit {w : World} {file : File} {hs : List Happening} {rest : List Record}
      (hrest : Recorded app { w with file } hs rest) : Recorded app w (.edit file :: hs) rest

section
variable {app : App}

theorem recorded_total (app : App) (w : World) (hs : List Happening) : ∃ recs, Recorded app w hs recs := by
  induction hs generalizing w with
  | nil => exact ⟨[], .nil w⟩
  | cons h hs ih =>
      cases h with
      | request env req =>
          obtain ⟨new, hnew, htold⟩ := handle_logs env app req w
          obtain ⟨rest, hrest⟩ := ih (handle env app req w).2
          exact ⟨new ++ rest, .request hnew htold hrest⟩
      | edit file =>
          obtain ⟨rest, hrest⟩ := ih { w with file }
          exact ⟨rest, .edit hrest⟩

/-- What is sealed continues the head, and becomes the head. -/
theorem Writes.linked {env : RequestEnv} {w w' : World} {new : List Record} (h : Writes env app w w' new) :
    (chain app.serde app.bcrypt).Linked w.log.prevHash (new.map Prod.fst) ∧
      w'.log.prevHash = (chain app.serde app.bcrypt).tip w.log.prevHash (new.map Prod.fst) := by
  cases h with
  | none h => exact ⟨trivial, congrArg Audit.Log.prevHash h.1⟩
  | sealed hwrite hseal hhead =>
      refine ⟨⟨Audit.sealAfter_prevHash hseal, (Audit.sealAfter_some hseal).2, trivial⟩, ?_⟩
      rw [hhead]
      rfl

/-- The run lemma: the head in memory is the tip of all that was sealed since the
start, whatever happened to the file. -/
theorem Recorded.linked {w : World} {hs : List Happening} {recs : List Record} (h : Recorded app w hs recs) :
    (chain app.serde app.bcrypt).Linked w.log.prevHash (recs.map Prod.fst) ∧
      (afterAll app w hs).log.prevHash =
        (chain app.serde app.bcrypt).tip w.log.prevHash (recs.map Prod.fst) := by
  induction h with
  | nil w => exact ⟨trivial, rfl⟩
  | request hnew htold hrest ih =>
      obtain ⟨hlinked, htip⟩ := hnew.linked
      rw [htip] at ih
      rw [List.map_append, HashChain.linked_append, HashChain.tip_append]
      exact ⟨⟨hlinked, ih.1⟩, ih.2⟩
  | edit hrest ih => exact ih

theorem listAuditEvents_ok_iff {env : RequestEnv} {p : Option Text} {limit : ℕ} {w w' : World}
    {view : AuditView} :
    listAuditEvents env app p limit w = (.ok view, w') ↔
      w.auditPoisoned = false ∧ env.readLogFails = false ∧ w = w' ∧ ∃ es v,
        Audit.readAll app.serde w.file = .ok es ∧ Audit.verifyChain app.serde app.bcrypt es = .ok v ∧
          ⟨pageOf p limit es, v, es.length⟩ = view := by
  simp only [listAuditEvents, spawnBlocking, task_ok_iff, withAudit, locked_ok_iff, bind_ok_iff, failIf_ok_iff,
    read_ok_iff, lift_ok_iff, pure_ok_iff]
  constructor
  · rintro ⟨hp, -, _, ⟨hr, rfl⟩, contents, _, ⟨rfl, rfl⟩, es, _, ⟨hes, rfl⟩, v, _, ⟨hv, rfl⟩, hview, hw⟩
    exact ⟨hp, hr, hw, es, v, hes, hv, hview⟩
  · rintro ⟨hp, hr, hw, es, v, hes, hv, hview⟩
    exact ⟨hp, (), w, ⟨hr, rfl⟩, _, w, ⟨rfl, rfl⟩, es, w, ⟨hes, rfl⟩, v, w, ⟨hv, rfl⟩, hview, hw⟩

/-- The events are those under the head of `w`, then those sealed since. The former are
what a verified file says from which that head was loaded. -/
def Continues (app : App) (w : World) (es new : List Event) : Prop :=
  ∃ held, es = held ++ new ∧ (chain app.serde app.bcrypt).tip genesisHash held = w.log.prevHash ∧
    ∀ es0, Audit.Log.openLog app.serde w.file = .ok w.log → Audit.readAll app.serde w.file = .ok es0 →
      (chain app.serde app.bcrypt).Linked genesisHash es0 →
      held = es0 ∨ CanonicalCollision app.serde (Cng.sha256 app.bcrypt) held es0 ∨
        ZeroDigest app.serde (Cng.sha256 app.bcrypt) (held ++ es0)

theorem openLog_tip {file : File} {log : Audit.Log} {es : List Event}
    (hopen : Audit.Log.openLog app.serde file = .ok log) (hread : Audit.readAll app.serde file = .ok es) :
    (chain app.serde app.bcrypt).tip genesisHash es = log.prevHash := by
  rw [Audit.Log.openLog, Audit.loadLastHash_of_readAll (B := app.bcrypt) hread] at hopen
  exact congrArg Audit.Log.prevHash (Except.ok.inj hopen)

/-- A file that ends in the head of a log holds what that log has sealed. -/
theorem continues_of_tip (hinj : app.serde.CanonicalInjective) {w : World} {hs : List Happening}
    {recs : List Record} (hrec : Recorded app w hs recs) {es : List Event}
    (hes : (chain app.serde app.bcrypt).Linked genesisHash es)
    (htip : (chain app.serde app.bcrypt).tip genesisHash es = (afterAll app w hs).log.prevHash) :
    Continues app w es (recs.map Prod.fst) ∨
      CanonicalCollision app.serde (Cng.sha256 app.bcrypt) es (recs.map Prod.fst) ∨
      ZeroDigest app.serde (Cng.sha256 app.bcrypt) (recs.map Prod.fst) := by
  obtain ⟨hlinked, hhead⟩ := hrec.linked
  rcases Audit.linked_suffix hinj hes hlinked (htip.trans hhead) with ⟨held, rfl, hheld, hopen⟩ | h
  · refine .inl ⟨held, rfl, hopen, ?_⟩
    intro es0 hlog hread hes0
    exact Audit.linked_unique hinj hheld hes0 (hopen.trans (openLog_tip hlog hread).symm)
  · exact .inr h

/-- A view is valid exactly when the file is a chain from genesis. If that chain ends in
the head of the running log, it is what the log held at the start of the run and what
it has sealed since. -/
theorem auditView_anchored (hinj : app.serde.CanonicalInjective) (w : World) (hs : List Happening) :
    ∃ recs, Recorded app w hs recs ∧ ∀ env p limit view w',
      listAuditEvents env app p limit (afterAll app w hs) = (.ok view, w') →
      ∃ es, Audit.readAll app.serde (afterAll app w hs).file = .ok es ∧ view.totalOnDisk = es.length ∧
        view.events = pageOf p limit es ∧
        (view.verification.valid = true ↔ (chain app.serde app.bcrypt).Linked genesisHash es) ∧
        (view.verification.valid = true →
          (chain app.serde app.bcrypt).tip genesisHash es = (afterAll app w hs).log.prevHash →
          Continues app w es (recs.map Prod.fst) ∨
            CanonicalCollision app.serde (Cng.sha256 app.bcrypt) es (recs.map Prod.fst) ∨
            ZeroDigest app.serde (Cng.sha256 app.bcrypt) (recs.map Prod.fst)) := by
  obtain ⟨recs, hrec⟩ := recorded_total app w hs
  refine ⟨recs, hrec, ?_⟩
  intro env p limit view w' hlist
  obtain ⟨-, -, -, es, v, hread, hverify, rfl⟩ := listAuditEvents_ok_iff.mp hlist
  have hvalid : v.valid = true → (chain app.serde app.bcrypt).Linked genesisHash es :=
    Audit.verifyFrom_valid hverify
  refine ⟨es, hread, rfl, rfl, ⟨hvalid, ?_⟩, ?_⟩
  · intro hes
    rw [(Audit.verifyChain_iff_linked es).mpr hes] at hverify
    rw [← Except.ok.inj hverify]
  · intro hv htip
    exact continues_of_tip hinj hrec (hvalid hv) htip

end

section
variable {env : RequestEnv} {app : App}

/-- A refused request for an unknown token is one more event of the log and of its file. -/
theorem denial_recorded (env : RequestEnv) (D : app.serde.Documented) {req : RedeemRequest} {w : World} {es : List Event}
    (hlog : Audit.Coherent app.serde app.bcrypt w.log w.file es) (hw : Free w) (hl : LooksUp env)
    (hu : ¬ TokenKnown app w.store req.token) {short : Text} (hs : shortToken req.token = some short)
    (hq : env.auditFault = none) :
    ∃ e file, sealAfter app.serde app.bcrypt w.log.prevHash (unknownTokenEvent env req short) = some e ∧
      (handle env app (.redeemShare req) w).2 = { w with log := ⟨e.hash⟩, file := some file } ∧
      Writes env app w (handle env app (.redeemShare req) w).2 [(e, true)] ∧
      Told (handle env app (.redeemShare req) w).1 [(e, true)] ∧
      Audit.Coherent app.serde app.bcrypt ⟨e.hash⟩ (some file) (es ++ [e]) := by
  have hplain : (unknownTokenEvent env req short).Plain := by
    apply eventOf_plain
    · simp [text, Json.floatFree, Json.depth]
    · simp [text, Json.floatFree, Json.depth]
  obtain ⟨e, hseal⟩ := Audit.sealAfter_plain_some (B := app.bcrypt) D hplain w.log.prevHash
  obtain ⟨line, hline⟩ := Option.isSome_iff_exists.mp (D.writes e (Audit.sealAfter_plain hseal hplain))
  have hwrite : w.log.write app.serde app.bcrypt env.auditFault w.file (unknownTokenEvent env req short) =
      (.ok (), ⟨e.hash⟩, some (w.file.getD [] ++ encode (line ++ ['\n']))) := by
    rw [hq]
    exact Audit.write_of_line hseal hline (by simp)
  have hcut : Cuttable req.token := by
    by_contra hcut
    rw [(shortToken_eq_none_iff _).mpr hcut] at hs
    cases hs
  obtain ⟨short', hshort', hdenied⟩ := ((handledStep_iff req hw).mpr fun _ => .inr hcut).denied hl hu
  obtain rfl : short = short' := Option.some.inj (hs.symm.trans hshort')
  have hbody := (hdenied _ _ hwrite).1
  have hstate : (handle env app (.redeemShare req) w).2 = _ :=
    (replying_state _ _ _).trans (congrArg Prod.snd hbody)
  refine ⟨e, _, hseal, hstate, ?_, ?_, hlog.append D hplain hseal hline⟩
  · rw [hstate]
    change Writes env app w _ [(e, Except.isOk (.ok () : Audit.Result Unit))]
    exact .sealed hwrite hseal rfl
  · have hrefused : (handle env app (.redeemShare req) w).1 = .err .notFound := by
      rw [handle, replying, bind_err hbody]
    intro r hr
    rw [List.mem_singleton.mp hr, hrefused]
    simp

/-- An empty file is a valid view, whatever the log has sealed. -/
theorem emptied_view_valid (p : Option Text) (limit : ℕ) {w : World} (hw : w.auditPoisoned = false)
    (hr : env.readLogFails = false) (hf : w.file = some []) :
    listAuditEvents env app p limit w = (.ok ⟨pageOf p limit [], ⟨true, none, 0⟩, 0⟩, w) := by
  refine listAuditEvents_ok_iff.mpr ⟨hw, hr, rfl, [], ⟨true, none, 0⟩, ?_, rfl, rfl⟩
  rw [hf]
  rfl

end

def strangerRequest : RedeemRequest := { uncuttableRequest with token := "unknown-token".toList }

def truncation : List Happening := [.request quietEnv (.redeemShare strangerRequest), .edit (some [])]

theorem strangerEvent_hash :
    (sealAfter .reference .reference genesisHash
      (unknownTokenEvent quietEnv strangerRequest "unknow…".toList)).map Event.hash ≠ some genesisHash := by
  decide +kernel

theorem freshWorld_coherent : Audit.Coherent sampleApp.serde sampleApp.bcrypt freshWorld.log freshWorld.file [] :=
  ⟨Audit.holds_absent, trivial, rfl⟩

theorem stranger_recorded : ∃ e file,
    sealAfter sampleApp.serde sampleApp.bcrypt genesisHash
      (unknownTokenEvent quietEnv strangerRequest "unknow…".toList) = some e ∧
    (handle quietEnv sampleApp (.redeemShare strangerRequest) freshWorld).2 =
      { freshWorld with log := ⟨e.hash⟩, file := some file } ∧
    Writes quietEnv sampleApp freshWorld (handle quietEnv sampleApp (.redeemShare strangerRequest) freshWorld).2
      [(e, true)] ∧
    Told (handle quietEnv sampleApp (.redeemShare strangerRequest) freshWorld).1 [(e, true)] ∧
    Audit.Coherent sampleApp.serde sampleApp.bcrypt ⟨e.hash⟩ (some file) [e] := by
  have hunknown : ¬ TokenKnown sampleApp freshWorld.store strangerRequest.token := by
    rintro ⟨r, hr, -⟩
    cases hr
  exact denial_recorded quietEnv Audit.SerdeJson.reference_documented freshWorld_coherent ⟨rfl, rfl⟩ ⟨rfl, rfl⟩
    hunknown (by decide) rfl

/-- The denial was written, the file is emptied, and the view is valid without it. -/
theorem truncated_log_verifies :
    Audit.Log.openLog sampleApp.serde freshWorld.file = .ok freshWorld.log ∧
    Audit.readAll sampleApp.serde freshWorld.file = .ok [] ∧
    ∃ e, Recorded sampleApp freshWorld truncation [(e, true)] ∧
      listAuditEvents quietEnv sampleApp none 100 (afterAll sampleApp freshWorld truncation) =
        (.ok ⟨[], ⟨true, none, 0⟩, 0⟩, afterAll sampleApp freshWorld truncation) ∧
      (afterAll sampleApp freshWorld truncation).log.prevHash = e.hash ∧ e.hash ≠ genesisHash := by
  obtain ⟨e, file, hseal, hstate, hwrites, htold, -⟩ := stranger_recorded
  have hafter : afterAll sampleApp freshWorld truncation =
      { freshWorld with log := ⟨e.hash⟩, file := some [] } := by
    simp only [truncation, afterAll, Happening.step, hstate]
  refine ⟨rfl, rfl, e, .request hwrites htold (.edit (.nil _)), ?_, by rw [hafter], ?_⟩
  · rw [hafter]
    exact emptied_view_valid none 100 rfl rfl rfl
  · intro hzero
    apply strangerEvent_hash
    have hseal' : sealAfter .reference .reference genesisHash
        (unknownTokenEvent quietEnv strangerRequest "unknow…".toList) = some e := hseal
    rw [hseal', Option.map_some, hzero]

def padding : List Happening :=
  [.request quietEnv (.redeemShare strangerRequest),
    .edit ((handle quietEnv sampleApp (.redeemShare strangerRequest) freshWorld).2.file.map (· ++ [10]))]

/-- The padded file is still the log's own. -/
theorem auditView_anchored_padded :
    ∃ recs e view, Recorded sampleApp freshWorld padding recs ∧
      listAuditEvents quietEnv sampleApp none 100 (afterAll sampleApp freshWorld padding) =
        (.ok view, afterAll sampleApp freshWorld padding) ∧
      view.verification.valid = true ∧
      Audit.readAll sampleApp.serde (afterAll sampleApp freshWorld padding).file = .ok [e] ∧
      (chain sampleApp.serde sampleApp.bcrypt).tip genesisHash [e] =
        (afterAll sampleApp freshWorld padding).log.prevHash ∧
      (Continues sampleApp freshWorld [e] (recs.map Prod.fst) ∨
        CanonicalCollision sampleApp.serde (Cng.sha256 sampleApp.bcrypt) [e] (recs.map Prod.fst) ∨
        ZeroDigest sampleApp.serde (Cng.sha256 sampleApp.bcrypt) (recs.map Prod.fst)) := by
  obtain ⟨recs, hrec, hanchored⟩ :=
    @auditView_anchored sampleApp Audit.SerdeJson.reference_injective.canonical freshWorld padding
  obtain ⟨e, file, -, hstate, -, -, hcoherent⟩ := stranger_recorded
  have hafter : afterAll sampleApp freshWorld padding =
      { freshWorld with log := ⟨e.hash⟩, file := some (file ++ [10]) } := by
    simp only [padding, afterAll, Happening.step, hstate, Option.map_some]
  have hholds : Audit.Holds sampleApp.serde (some (file ++ [10])) [e] := hcoherent.holds.padded
  have hlist : listAuditEvents quietEnv sampleApp none 100 (afterAll sampleApp freshWorld padding) =
      (.ok ⟨pageOf none 100 [e], ⟨true, none, 1⟩, 1⟩, afterAll sampleApp freshWorld padding) := by
    rw [hafter]
    exact listAuditEvents_ok_iff.mpr ⟨rfl, rfl, rfl, [e], _, hholds.readAll, hcoherent.verifies, rfl⟩
  obtain ⟨es, hread, -, -, -, hview⟩ := hanchored _ _ _ _ _ hlist
  have hes : Audit.readAll sampleApp.serde (afterAll sampleApp freshWorld padding).file = .ok [e] := by
    rw [hafter]
    exact hholds.readAll
  obtain rfl : es = [e] := Except.ok.inj (hread.symm.trans hes)
  have htip : (chain sampleApp.serde sampleApp.bcrypt).tip genesisHash [e] =
      (afterAll sampleApp freshWorld padding).log.prevHash := by
    rw [hafter]
    rfl
  exact ⟨recs, e, _, hrec, hlist, rfl, hes, htip, hview rfl htip⟩

end FipsDropbox.Service
