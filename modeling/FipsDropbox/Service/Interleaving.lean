import Mathlib.Logic.Relation
import FipsDropbox.Service.Upload

/-!
# Statements of any number of clients

The share store one statement at a time. Between two statements of a redemption
any others may come; each step reads its own clock, so nothing is assumed about
the order of the readings. The history is not part of the program: it records the
shares created, the slots consumed, the files handed out and the revocations.
-/
namespace FipsDropbox.Service
open Utf8 Exec Crypto Storage

/-- A redemption has looked its share up, has checked the code, or has consumed a slot
at some millisecond. -/
inductive Phase where
  | found
  | checked
  | granted (now : ℤ)
  deriving DecidableEq

structure Flight where
  req : RedeemRequest
  share : Share
  phase : Phase

inductive Entry where
  | created (row : ShareRow)
  | consumed (req : RedeemRequest) (id : Bytes) (now : ℤ)
  | redeemed (req : RedeemRequest) (id : Bytes) (now : ℤ) (resp : RedeemResponse)
  | revoked (id : Bytes) (now : ℤ)

/-- The world, the redemptions under way, and the history, newest first. -/
structure System where
  world : World
  flights : List Flight
  history : List Entry

/-- What comes of a statement: more to do and something to record, or the end. -/
def conclude {α : Type} (out : Outcome ServiceError α × World) (k : α → Option Flight × List Entry) :
    (Option Flight × List Entry) × World := ((out.1.value.map k).getD (none, []), out.2)

def Flight.advance (env : RequestEnv) (app : App) (f : Flight) (w : World) :
    (Option Flight × List Entry) × World :=
  match f.phase with
  | .found => conclude (redeemCode env app f.req f.share w) fun _ => (some { f with phase := .checked }, [])
  | .checked =>
      let now := dtToMillis (env.now .consumeDownload).time
      conclude (redeemConsume env app f.req f.share w) fun _ =>
        (some { f with phase := .granted now }, [.consumed f.req f.share.id.val now])
  | .granted now =>
      conclude (redeemDeliver env app f.req f.share w) fun resp =>
        (none, [.redeemed f.req f.share.id.val now resp])

structure NewShare where
  printId : Uuid
  vendorId : Uuid
  expiresAt : OffsetDateTime
  maxDownloads : UInt32
  senderNote : Option Text
  createdBy : Uuid

section
variable (env : RequestEnv) (app : App)

def NewShare.create (a : NewShare) : Exec Store StorageError (Share × ShareSecrets) :=
  Shares.create env.toEnv app.bcrypt a.printId a.vendorId a.expiresAt a.maxDownloads a.senderNote a.createdBy

/-- The row that the creation binds, by the secrets it hands out. -/
def NewShare.row (a : NewShare) (secrets : ShareSecrets) : ShareRow :=
  newShareRow (env.newId .share) a.printId a.vendorId (secretHash app secrets.urlToken)
    (secretHash app secrets.accessCode) a.expiresAt a.maxDownloads a.senderNote a.createdBy
    (env.now .shareCreated).time

namespace System

def create (a : NewShare) (s : System) : System :=
  let out := onStore (a.create env app) s.world
  { s with
    world := out.2
    history := (out.1.value.map fun made => .created (a.row env app made.2)).toList ++ s.history }

def lookup (req : RedeemRequest) (s : System) : System :=
  let out := redeemLookup env app req s.world
  { s with
    world := out.2
    flights := (out.1.value.map fun share => ⟨req, share, .found⟩).toList ++ s.flights }

def advance (f : Flight) (others : List Flight) (s : System) : System :=
  let out := f.advance env app s.world
  ⟨out.2, out.1.1.toList ++ others, out.1.2 ++ s.history⟩

def revoke (id : Uuid) (s : System) : System :=
  let out := onStore (Shares.revoke env.toEnv id) s.world
  { s with
    world := out.2
    history := (out.1.value.map fun _ =>
      .revoked id.val (dtToMillis (env.now .shareRevoked).time)).toList ++ s.history }

def purge (graceSeconds : UInt64) (s : System) : System :=
  { s with world := (onStore (Shares.purgeExpired env.toEnv graceSeconds) s.world).2 }

end System
end

/-- One statement, or anything that leaves the table of shares alone. A new share has an
identifier that no share had before. -/
inductive Step (app : App) : System → System → Prop where
  | create (s : System) (env : RequestEnv) (a : NewShare)
      (fresh : ∀ row, .created row ∈ s.history → row.id ≠ (env.newId .share).val) :
      Step app s (s.create env app a)
  | lookup (s : System) (env : RequestEnv) (req : RedeemRequest) : Step app s (s.lookup env app req)
  | advance (s : System) (env : RequestEnv) (f : Flight) (others : List Flight)
      (h : s.flights.Perm (f :: others)) : Step app s (s.advance env app f others)
  | revoke (s : System) (env : RequestEnv) (id : Uuid) : Step app s (s.revoke env id)
  | purge (s : System) (env : RequestEnv) (graceSeconds : UInt64) : Step app s (s.purge env graceSeconds)
  | other (s : System) (w : World) (h : w.store.db.shares = s.world.store.db.shares) :
      Step app s { s with world := w }

def Reaches (app : App) : System → System → Prop := Relation.ReflTransGen (Step app)

section
variable {env : RequestEnv} {app : App}

theorem conclude_ok {α : Type} {out : Outcome ServiceError α × World} {a : α} {w : World}
    (h : out = (.ok a, w)) (k : α → Option Flight × List Entry) : conclude out k = (k a, w) := by
  rw [h]
  rfl

theorem conclude_not_ok {α : Type} {out : Outcome ServiceError α × World} (h : ∀ a w, out ≠ (.ok a, w))
    (k : α → Option Flight × List Entry) : conclude out k = ((none, []), out.2) := by
  obtain ⟨a | e | _, w⟩ := out
  · exact absurd rfl (h a w)
  · rfl
  · rfl

theorem advance_found (env : RequestEnv) (app : App) (req : RedeemRequest) (share : Share) (w : World) :
    Flight.advance env app ⟨req, share, .found⟩ w =
      conclude (redeemCode env app req share w) fun _ => (some ⟨req, share, .checked⟩, []) := rfl

theorem advance_checked (env : RequestEnv) (app : App) (req : RedeemRequest) (share : Share) (w : World) :
    Flight.advance env app ⟨req, share, .checked⟩ w =
      conclude (redeemConsume env app req share w) fun _ =>
        (some ⟨req, share, .granted (dtToMillis (env.now .consumeDownload).time)⟩,
          [.consumed req share.id.val (dtToMillis (env.now .consumeDownload).time)]) := rfl

theorem advance_granted (env : RequestEnv) (app : App) (req : RedeemRequest) (share : Share) (now : ℤ)
    (w : World) : Flight.advance env app ⟨req, share, .granted now⟩ w =
      conclude (redeemDeliver env app req share w) fun resp =>
        (none, [.redeemed req share.id.val now resp]) := rfl

theorem step_first (env : RequestEnv) (app : App) (w : World) (f : Flight) (others : List Flight)
    (history : List Entry) : Step app ⟨w, f :: others, history⟩
      ⟨(f.advance env app w).2, (f.advance env app w).1.1.toList ++ others,
        (f.advance env app w).1.2 ++ history⟩ :=
  .advance ⟨w, f :: others, history⟩ env f others (List.Perm.refl _)

/-- The rest of a redemption comes to `out`, as a run that records the file it hands out. -/
def RunsTo (env : RequestEnv) (app : App) (start : System) (req : RedeemRequest) (flights : List Flight)
    (history : List Entry) (out : Outcome ServiceError RedeemResponse × World) : Prop :=
  ∃ new, Reaches app start ⟨out.2, flights, new ++ history⟩ ∧
    ∀ resp, out.1 = .ok resp →
      ∃ id, .redeemed req id (dtToMillis (env.now .consumeDownload).time) resp ∈ new

theorem runsTo_bind {α : Type} {f : Flight} {m : Exec World ServiceError α}
    {next : α → Option Flight × List Entry} {k : α → Exec World ServiceError RedeemResponse} {w : World}
    {req : RedeemRequest} {flights : List Flight} {history : List Entry}
    (hadv : f.advance env app w = conclude (m w) next)
    (hk : ∀ a w', RunsTo env app ⟨w', (next a).1.toList ++ flights, (next a).2 ++ history⟩ req flights
      ((next a).2 ++ history) (k a w')) :
    RunsTo env app ⟨w, f :: flights, history⟩ req flights history ((m >>= k) w) := by
  have hstep := step_first env app w f flights history
  rw [hadv] at hstep
  rcases bind_cases m k w with ⟨a, w', hm, hrun⟩ | ⟨hno, hstate, hnot⟩
  · rw [conclude_ok hm] at hstep
    obtain ⟨new, hreach, hresp⟩ := hk a w'
    rw [hrun]
    refine ⟨new ++ (next a).2, ?_, ?_⟩
    · rw [List.append_assoc]
      exact .head hstep hreach
    · intro resp h
      obtain ⟨id, hmem⟩ := hresp resp h
      exact ⟨id, List.mem_append_left _ hmem⟩
  · rw [conclude_not_ok hno] at hstep
    refine ⟨[], ?_, fun resp h => absurd h (hnot resp)⟩
    rw [hstate]
    exact .single hstep

theorem runsTo_deliver (env : RequestEnv) (app : App) (req : RedeemRequest) (share : Share) (w : World)
    (flights : List Flight) (history : List Entry) :
    RunsTo env app ⟨w, ⟨req, share, .granted (dtToMillis (env.now .consumeDownload).time)⟩ :: flights, history⟩
      req flights history (redeemDeliver env app req share w) := by
  have hstep := step_first env app w ⟨req, share, .granted (dtToMillis (env.now .consumeDownload).time)⟩
    flights history
  rw [advance_granted] at hstep
  by_cases hok : ∃ resp w', redeemDeliver env app req share w = (.ok resp, w')
  · obtain ⟨resp, w', hout⟩ := hok
    rw [conclude_ok hout] at hstep
    rw [hout]
    refine ⟨_, .single hstep, ?_⟩
    intro resp' h
    cases h
    exact ⟨_, List.mem_singleton_self _⟩
  · rw [conclude_not_ok fun a w' h => hok ⟨a, w', h⟩] at hstep
    exact ⟨[], .single hstep, fun resp h => absurd ⟨resp, _, Prod.ext h rfl⟩ hok⟩

theorem runsTo_rest (env : RequestEnv) (app : App) (req : RedeemRequest) (share : Share) (w : World)
    (flights : List Flight) (history : List Entry) :
    RunsTo env app ⟨w, ⟨req, share, .found⟩ :: flights, history⟩ req flights history
      ((redeemCode env app req share >>= fun _ => redeemConsume env app req share >>= fun _ =>
        redeemDeliver env app req share) w) := by
  apply runsTo_bind (advance_found env app req share w)
  intro _ w1
  apply runsTo_bind (advance_checked env app req share w1)
  intro _ w2
  exact runsTo_deliver env app req share w2 flights _

theorem redeemBody_runsTo (env : RequestEnv) (app : App) (req : RedeemRequest) (s : System) :
    RunsTo env app s req s.flights s.history (redeemBody env app req s.world) := by
  have hstep : Step app s (s.lookup env app req) := .lookup s env req
  rcases bind_cases (redeemLookup env app req) (fun share => redeemCode env app req share >>= fun _ =>
      redeemConsume env app req share >>= fun _ => redeemDeliver env app req share) s.world with
    ⟨share, w, hlook, hrun⟩ | ⟨hno, hstate, hnot⟩
  · simp only [System.lookup, hlook, Outcome.value, Option.map_some, Option.toList_some,
      List.singleton_append] at hstep
    obtain ⟨new, hreach, hresp⟩ := runsTo_rest env app req share w s.flights s.history
    rw [redeemBody, hrun]
    exact ⟨new, .head hstep hreach, hresp⟩
  · have hnone : (redeemLookup env app req s.world).1.value = none :=
      Outcome.value_eq_none fun share h => hno share _ (Prod.ext h rfl)
    simp only [System.lookup, hnone, Option.map_none, Option.toList_none, List.nil_append, ← hstate] at hstep
    exact ⟨[], .single hstep, fun resp h => absurd h (hnot resp)⟩

/-- A redemption of the service is a run of its statements, and one that hands out a
file has it recorded. -/
theorem redeemShare_runsTo (env : RequestEnv) (app : App) (req : RedeemRequest) (s : System) :
    RunsTo env app s req s.flights s.history (redeemShare env app req s.world) := by
  cases hp : s.world.storePoisoned with
  | true =>
      rw [redeemShare, withStore_poisoned _ hp]
      exact ⟨[], .refl, by simp⟩
  | false =>
      obtain ⟨hstore, hok⟩ := withStore_free (redeemBody env app req) hp
      obtain ⟨new, hreach, hresp⟩ := redeemBody_runsTo env app req s
      -- a panic only poisons the mutexes
      refine ⟨new, hreach.tail (.other _ _ ?_), fun resp h => hresp resp ((hok resp).mp h)⟩
      exact congrArg (fun t : Store => t.db.shares) hstore

/-! Every operation of the service is such a run. -/

def SameShares (s t : Store) : Prop := t.db.shares = s.db.shares

theorem sameShares_frame : Frame SameShares where
  refl _ := rfl
  trans h h' := h'.trans h

/-- From `w` the statements of some run lead to `w'`. -/
def Lands (app : App) (flights : List Flight) (history : List Entry) (w w' : World) : Prop :=
  ∃ new, Reaches app ⟨w, flights, history⟩ ⟨w', flights, new ++ history⟩

variable {flights : List Flight} {history : List Entry}

theorem lands_same {w w' : World} (h : OnStore SameShares w w') : Lands app flights history w w' :=
  ⟨[], .single (.other ⟨w, flights, history⟩ w' h)⟩

theorem Lands.same {w w' w'' : World} (h : Lands app flights history w w') (hs : OnStore SameShares w' w'') :
    Lands app flights history w w'' := by
  obtain ⟨new, hreach⟩ := h
  exact ⟨new, hreach.tail (.other _ w'' hs)⟩

/-- A part that leaves the shares alone, and what follows it. -/
theorem lands_bind {α β : Type} {m : Exec World ServiceError α} {k : α → Exec World ServiceError β} {w : World}
    (hm : Moves (OnStore SameShares) m) (hk : ∀ a w', Lands app flights history w' (k a w').2) :
    Lands app flights history w ((m >>= k) w).2 := by
  rcases bind_cases m k w with ⟨a, w', hrun, hbind⟩ | ⟨-, hstate, -⟩
  · obtain ⟨new, hreach⟩ := hk a w'
    rw [hbind]
    exact ⟨new, .head (.other ⟨w, flights, history⟩ w' (hm.of_run hrun)) hreach⟩
  · rw [hstate]
    exact lands_same (hm w)

theorem lands_create {a : NewShare} (fresh : ∀ row, .created row ∈ history → row.id ≠ (env.newId .share).val)
    (w : World) : Lands app flights history w (onStore (a.create env app) w).2 :=
  ⟨_, .single (.create ⟨w, flights, history⟩ env a fresh)⟩

/-- A landing part, and what leaves the shares alone after it. -/
theorem lands_then {α β : Type} {m : Exec World ServiceError α} {k : α → Exec World ServiceError β} {w : World}
    (hm : Lands app flights history w (m w).2) (hk : ∀ a, Moves (OnStore SameShares) (k a)) :
    Lands app flights history w ((m >>= k) w).2 := by
  rcases bind_cases m k w with ⟨a, w', hrun, hbind⟩ | ⟨-, hstate, -⟩
  · rw [hrun] at hm
    rw [hbind]
    exact hm.same (hk a w')
  · rw [hstate]
    exact hm

theorem lands_blocking {α : Type} {m : Exec World ServiceError α} {w : World}
    (h : Lands app flights history w (m w).2) :
    Lands app flights history w (spawnBlocking (withStore m) w).2 := by
  cases hp : w.storePoisoned with
  | true =>
      rw [withStore_poisoned _ hp]
      exact ⟨[], .refl⟩
  | false => exact h.same (congrArg (fun t : Store => t.db.shares) (withStore_free m hp).1)

theorem createShare_lands {req : NewShareRequest}
    (fresh : ∀ row, .created row ∈ history → row.id ≠ (env.newId .share).val) (w : World) :
    Lands app flights history w (createShare env app req w).2 := by
  have F := sameShares_frame
  have FW := onStore_frame F
  have hvendor : Moves SameShares (findOrCreateVendor env req) :=
    moves_findOrCreateVendor F req fun _ _ _ _ => rfl
  have hinsert : Moves SameShares (PrintStore.insert env.toEnv app.bcrypt app.kek req.printFilename
      req.printBytes req.createdBy req.cuiAttested) :=
    PrintStore.moves_insert F (fun _ _ => rfl) (fun _ _ _ _ _ _ => rfl) _ _ _ _
  have hstore : Lands app flights history w (storeShare env app req w).2 := by
    apply lands_blocking
    apply lands_bind (moves_onStore hvendor)
    intro vendor w1
    apply lands_bind (moves_onStore hinsert)
    intro print w2
    apply lands_bind (FW.orPanic _)
    intro expiresAt w3
    apply lands_then
    · exact lands_create (a := ⟨print.id, vendor.id, expiresAt, req.maxDownloads, req.note, req.createdBy⟩)
        fresh w3
    · intro made
      exact moves_audited F (FW.pure _)
  apply lands_then hstore
  intro c
  exact FW.bind (moves_modify fun w => F.refl w.store) fun _ => FW.pure _

end
end FipsDropbox.Service
