import FipsDropbox.Service.Frames

/-!
# The phases of a redemption

Lookup, access code, slot, delivery: what each does with a given state of the
store, and when it succeeds.
-/
namespace FipsDropbox.Service
open Utf8 Exec Crypto Storage

section
variable (env : RequestEnv) (app : App)

def secretHash (secret : Text) : Octets 32 := Cng.sha256 app.bcrypt (encode secret)

def TokenKnown (s : Store) (token : Text) : Prop :=
  ∃ r ∈ s.db.shares.rows, r.tokenHash = (secretHash app token).val

/-- Hashing the token and looking the hash up do not fail. -/
def LooksUp : Prop := env.fails .hashRedeemToken = false ∧ env.fails .selectShare = false

end

section
variable {env : RequestEnv} {app : App} {α : Type}

theorem onStore_ok {m : Exec Store StorageError α} {w : World} {a : α} {s : Store}
    (h : m w.store = (.ok a, s)) : onStore m w = (.ok a, { w with store := s }) := by
  simp only [onStore, adapt, zoom, h]

theorem onStore_err {m : Exec Store StorageError α} {w : World} {e : StorageError} {s : Store}
    (h : m w.store = (.err e, s)) : onStore m w = (.err (.storage e), { w with store := s }) := by
  simp only [onStore, adapt, zoom, h]

theorem onStore_ok_iff {m : Exec Store StorageError α} {w w' : World} {a : α} :
    onStore m w = (.ok a, w') ↔ ∃ s, m w.store = (.ok a, s) ∧ { w with store := s } = w' := by
  simp only [onStore, adapt_ok_iff, zoom_ok_iff]

theorem onStore_store (m : Exec Store StorageError α) (w : World) : (onStore m w).2.store = (m w.store).2 := by
  rcases h : m w.store with ⟨_ | e | _, t⟩ <;> simp only [onStore, adapt, zoom, h]

theorem onStore_not_ok {m : Exec Store StorageError α} {w : World} (h : ∀ a, (m w.store).1 ≠ .ok a) :
    (onStore m w).1.value = none := by
  apply Outcome.value_eq_none
  intro a ha
  obtain ⟨s, hm, -⟩ := onStore_ok_iff.mp (Prod.ext ha rfl)
  exact h a (congrArg Prod.fst hm)

/-- A storage function, and what is done with its value. -/
theorem onStore_bind_cases {β : Type} (m : Exec Store StorageError α) (k : α → Exec World ServiceError β) (w : World) :
    (∃ a t, m w.store = (.ok a, t) ∧ (onStore m >>= k) w = k a { w with store := t }) ∨
    ((∀ a, (m w.store).1 ≠ .ok a) ∧ ((onStore m >>= k) w).2.store = (m w.store).2) := by
  rcases bind_cases (onStore m) k w with ⟨a, w', hrun, hk⟩ | ⟨hno, hstate, -⟩
  · obtain ⟨t, hm, rfl⟩ := onStore_ok_iff.mp hrun
    exact .inl ⟨a, t, hm, hk⟩
  · refine .inr ⟨fun a ha => ?_, ?_⟩
    · exact hno a _ (onStore_ok (Prod.ext ha rfl))
    · rw [hstate, onStore_store]

theorem findByTokenHash_eq (env : RequestEnv) (app : App) (token : Text) (w : World) :
    onStore (Shares.findByTokenHash env.toEnv (secretHash app token)) w =
      (if env.fails .selectShare then .err (.storage (.sqlite .failure))
      else match w.store.db.shares.find (fun r => r.tokenHash = (secretHash app token).val) with
        | none => .ok none
        | some r =>
            match rowToShare r with
            | .ok share => .ok (some share)
            | .error e => .err (.storage (.sqlite e)), w) := by
  simp only [onStore, adapt, zoom, Shares.findByTokenHash, queryRow_eq]
  cases env.fails .selectShare with
  | true => rfl
  | false =>
      cases w.store.db.shares.find (fun r => r.tokenHash = (secretHash app token).val) with
      | none => rfl
      | some r =>
          simp only [Bool.false_eq_true, if_false]
          cases rowToShare r <;> rfl

/-- An unknown token, the share of a known one, or an error. -/
theorem redeemLookup_cases (env : RequestEnv) (app : App) (req : RedeemRequest) (w : World) :
    (LooksUp env ∧ ¬ TokenKnown app w.store req.token ∧
      redeemLookup env app req w = denyUnknown env app req w) ∨
    (∃ share r, LooksUp env ∧ r ∈ w.store.db.shares.rows ∧ r.tokenHash = (secretHash app req.token).val ∧
      rowToShare r = .ok share ∧ redeemLookup env app req w = (.ok share, w)) ∨
    ∃ e, redeemLookup env app req w = (.err e, w) ∧ (LooksUp env → TokenKnown app w.store req.token) := by
  rcases adapt_sha256_cases env.toEnv app.bcrypt ServiceError.crypto .hashRedeemToken (encode req.token) w with
    ⟨hh, hsha⟩ | ⟨hh, hsha⟩
  · have hfind := findByTokenHash_eq env app req.token w
    cases hs : env.fails .selectShare with
    | true =>
        rw [hs, if_pos rfl] at hfind
        refine .inr (.inr ⟨_, by rw [redeemLookup, bind_ok hsha]; exact bind_err hfind _, ?_⟩)
        rintro ⟨-, hfalse⟩
        rw [hs] at hfalse
        cases hfalse
    | false =>
        rw [hs, if_neg Bool.false_ne_true] at hfind
        cases hrow : w.store.db.shares.find (fun r => r.tokenHash = (secretHash app req.token).val) with
        | none =>
            rw [hrow] at hfind
            refine .inl ⟨⟨hh, hs⟩, ?_, by rw [redeemLookup, bind_ok hsha]; exact bind_ok hfind _⟩
            rintro ⟨r, hr, hr'⟩
            have := Table.find_none.mp hrow r hr
            simp [hr'] at this
        | some r =>
            obtain ⟨hr, hp⟩ := Table.find_some hrow
            have hp' : r.tokenHash = (secretHash app req.token).val := by simpa using hp
            rw [hrow] at hfind
            dsimp only at hfind
            cases hd : rowToShare r with
            | ok share =>
                rw [hd] at hfind
                refine .inr (.inl ⟨share, r, ⟨hh, hs⟩, hr, hp', hd, ?_⟩)
                rw [redeemLookup, bind_ok hsha]
                exact bind_ok hfind _
            | error e =>
                rw [hd] at hfind
                exact .inr (.inr
                  ⟨_, by rw [redeemLookup, bind_ok hsha]; exact bind_err hfind _, fun _ => ⟨r, hr, hp'⟩⟩)
  · refine .inr (.inr ⟨_, by rw [redeemLookup, bind_err hsha], ?_⟩)
    rintro ⟨hfalse, -⟩
    rw [hh] at hfalse
    cases hfalse

/-- The request is for the row, and the consuming statement will count on it. -/
structure Takes (env : RequestEnv) (app : App) (s : Store) (req : RedeemRequest) (r : ShareRow)
    (share : Share) : Prop where
  calls : LooksUp env ∧ env.fails .hashCandidateCode = false ∧ env.fails .updateDownloadCount = false
  row : r ∈ s.db.shares.rows
  token : r.tokenHash = (secretHash app req.token).val
  code : r.accessCodeHash = (secretHash app req.accessCode).val
  decodes : rowToShare r = .ok share
  usable : r.consumable r.id (dtToMillis (env.now .consumeDownload).time) = true

def World.afterConsume (w : World) (env : RequestEnv) (r : ShareRow) : World :=
  { w with store := { w.store with
      db := w.store.db.afterConsume r.id (dtToMillis (env.now .consumeDownload).time) } }

theorem verifyAccessCode_ok_iff {share : Share} {code : Text} {s t : Store} {ok : Bool} :
    Shares.verifyAccessCode env.toEnv app.bcrypt share code s = (.ok ok, t) ↔
      env.fails .hashCandidateCode = false ∧
        (ok = true ↔ secretHash app code = share.accessCodeHash) ∧ s = t := by
  simp only [Shares.verifyAccessCode, bind_ok_iff, adapt_ok_iff, sha256_ok_iff, pure_ok_iff]
  constructor
  · rintro ⟨_, _, ⟨hc, rfl, rfl⟩, rfl, rfl⟩
    exact ⟨hc, (constantTimeEq_iff _ _).trans Subtype.ext_iff.symm, rfl⟩
  · rintro ⟨hc, hok, rfl⟩
    refine ⟨_, s, ⟨hc, rfl, rfl⟩, ?_, rfl⟩
    rw [Bool.eq_iff_iff, hok, constantTimeEq_iff]
    exact Subtype.ext_iff.symm

theorem deny_not_ok {req : RedeemRequest} {target : Text × Json} {reason : String} {e : ServiceError}
    {w : World}
    (a : α) : (deny env app req target reason e w : Outcome ServiceError α × World).1 ≠ .ok a := by
  intro h
  obtain ⟨-, hrun⟩ := locked_ok_iff.mp (Prod.ext h rfl)
  obtain ⟨_, _, -, hthrow⟩ := bind_ok_iff.mp hrun
  cases hthrow

theorem denyUnknown_not_ok {req : RedeemRequest} {w : World} (a : α) :
    (denyUnknown env app req w : Outcome ServiceError α × World).1 ≠ .ok a := by
  intro h
  obtain ⟨-, hrun⟩ := locked_ok_iff.mp (Prod.ext h rfl)
  obtain ⟨_, _, -, hrun⟩ := bind_ok_iff.mp hrun
  obtain ⟨_, _, -, hthrow⟩ := bind_ok_iff.mp hrun
  cases hthrow

theorem redeemLookup_ok_iff {req : RedeemRequest} {share : Share} {w w' : World} :
    redeemLookup env app req w = (.ok share, w') ↔ LooksUp env ∧
      (∃ r ∈ w.store.db.shares.rows, r.tokenHash = (secretHash app req.token).val ∧
        rowToShare r = .ok share) ∧ w = w' := by
  constructor
  · intro h
    rcases redeemLookup_cases env app req w with
      ⟨-, -, hlook⟩ | ⟨share', r, hl, hr, htoken, hdec, hlook⟩ | ⟨e, hlook, -⟩ <;> rw [hlook] at h
    · exact absurd (congrArg Prod.fst h) (denyUnknown_not_ok share)
    · cases h
      exact ⟨hl, ⟨r, hr, htoken, hdec⟩, rfl⟩
    · cases h
  · rintro ⟨⟨hh, hs⟩, ⟨r, hr, htoken, hdec⟩, rfl⟩
    have hsha : adapt ServiceError.crypto
        (Hash.sha256 env.toEnv app.bcrypt .hashRedeemToken (encode req.token)) w =
          (.ok (secretHash app req.token), w) :=
      adapt_ok_iff.mpr (sha256_ok_iff.mpr ⟨hh, rfl, rfl⟩)
    have hrow : w.store.db.shares.find (fun r' => r'.tokenHash = (secretHash app req.token).val) = some r := by
      rw [← htoken]
      exact Table.find_key (by simp) hr
    have hfind := findByTokenHash_eq env app req.token w
    rw [hs, if_neg Bool.false_ne_true, hrow] at hfind
    dsimp only at hfind
    rw [hdec] at hfind
    rw [redeemLookup, bind_ok hsha, bind_ok hfind]
    rfl

theorem redeemCode_ok_iff {req : RedeemRequest} {share : Share} {w w' : World} {u : Unit} :
    redeemCode env app req share w = (.ok u, w') ↔ env.fails .hashCandidateCode = false ∧
      secretHash app req.accessCode = share.accessCodeHash ∧ w = w' := by
  simp only [redeemCode, bind_ok_iff, onStore_ok_iff, verifyAccessCode_ok_iff]
  constructor
  · rintro ⟨ok, _, ⟨_, ⟨hc, hok, rfl⟩, rfl⟩, hrun⟩
    cases ok with
    | true => exact ⟨hc, hok.mp rfl, congrArg Prod.snd hrun⟩
    | false => exact absurd (congrArg Prod.fst hrun) (deny_not_ok u)
  · rintro ⟨hc, hcode, rfl⟩
    exact ⟨true, w, ⟨w.store, ⟨hc, iff_of_true rfl hcode, rfl⟩, rfl⟩, rfl⟩

theorem redeemConsume_ok_iff {req : RedeemRequest} {share : Share} {w w' : World} {u : Unit} :
    redeemConsume env app req share w = (.ok u, w') ↔ env.fails .updateDownloadCount = false ∧
      ∃ r ∈ w.store.db.shares.rows, r.id = share.id.val ∧
        r.consumable r.id (dtToMillis (env.now .consumeDownload).time) = true ∧ w.afterConsume env r = w' := by
  rcases tryConsumeDownload_cases env.toEnv share.id w.store with
    ⟨e, hrun, hf⟩ | ⟨hf, hrun, r, hr, hcons⟩ | ⟨hf, hrun, hnone⟩
  · rw [redeemConsume, bind_err (onStore_err hrun), hf]
    simp
  · have hid : r.id = share.id.val := (consumable_iff.mp hcons).1
    rw [redeemConsume, bind_ok (onStore_ok hrun)]
    constructor
    · intro h
      refine ⟨hf, r, hr, hid, by rwa [hid], ?_⟩
      rw [World.afterConsume, hid]
      exact congrArg Prod.snd h
    · rintro ⟨-, r', -, hid', -, rfl⟩
      rw [World.afterConsume, hid']
      rfl
  · rw [redeemConsume, bind_ok (onStore_ok hrun)]
    constructor
    · intro h
      exact absurd (congrArg Prod.fst h) (deny_not_ok u)
    · rintro ⟨-, r, hr, hid, hcons, -⟩
      rw [hid, hnone r hr] at hcons
      cases hcons

theorem redeemConsume_stays {req : RedeemRequest} {share : Share} {w : World}
    (h : ∀ u w', redeemConsume env app req share w ≠ (.ok u, w')) :
    (redeemConsume env app req share w).2.store = w.store := by
  rcases tryConsumeDownload_cases env.toEnv share.id w.store with
    ⟨e, hrun, -⟩ | ⟨-, hrun, -⟩ | ⟨-, hrun, -⟩
  · rw [redeemConsume, bind_err (onStore_err hrun)]
  · have hok := bind_ok (onStore_ok (w := w) hrun) fun ok : Bool =>
      if ok then pure () else deny env app req (uuid "share_id" share.id) "unavailable" .shareUnavailable
    exact absurd hok (h () _)
  · rw [redeemConsume, bind_ok (onStore_ok hrun)]
    exact moves_deny stays_frame req _ _ _ w

/-- A request that takes no slot leaves the shares alone; one that takes a slot goes
on to the delivery with the slot gone. -/
theorem redeemBody_cases (env : RequestEnv) (app : App) (req : RedeemRequest) (w : World) :
    (∃ r share, Takes env app w.store req r share ∧
      redeemBody env app req w = redeemDeliver env app req share (w.afterConsume env r)) ∨
    ((∀ r share, ¬ Takes env app w.store req r share) ∧ (redeemBody env app req w).2.store = w.store ∧
      ∀ resp, (redeemBody env app req w).1 ≠ .ok resp) := by
  rcases bind_cases (redeemLookup env app req) (fun share => redeemCode env app req share >>= fun _ =>
      redeemConsume env app req share >>= fun _ => redeemDeliver env app req share) w with
    ⟨share, w1, hlook, hbody⟩ | ⟨hno, hstate, hnot⟩
  · obtain ⟨hl, ⟨r, hr, htoken, hdec⟩, rfl⟩ := redeemLookup_ok_iff.mp hlook
    have hids := rowToShare_ok hdec
    have hsame : ∀ {r' share'}, Takes env app w.store req r' share' → r' = r ∧ share' = share := by
      intro r' share' ht
      obtain rfl := share_of_token ht.row hr (ht.token.trans htoken.symm)
      exact ⟨rfl, Except.ok.inj (ht.decodes.symm.trans hdec)⟩
    rcases bind_cases (redeemCode env app req share) (fun _ => redeemConsume env app req share >>= fun _ =>
        redeemDeliver env app req share) w with ⟨_, w2, hcode, hbody2⟩ | ⟨hno, hstate, hnot⟩
    · obtain ⟨hc, hhash, rfl⟩ := redeemCode_ok_iff.mp hcode
      rcases bind_cases (redeemConsume env app req share) (fun _ => redeemDeliver env app req share) w with
        ⟨_, w3, hcons, hbody3⟩ | ⟨hno, hstate, hnot⟩
      · obtain ⟨hu, r', hr', hid, husable, rfl⟩ := redeemConsume_ok_iff.mp hcons
        obtain rfl := share_of_id hr' hr (hid.trans hids.1)
        refine .inl ⟨r', share, ⟨⟨hl, hc, hu⟩, hr, htoken, ?_, hdec, husable⟩, ?_⟩
        · rw [hhash, hids.2.2.2.2]
        · exact hbody.trans (hbody2.trans hbody3)
      · refine .inr ⟨?_, ?_, ?_⟩
        · intro r' share' ht
          obtain ⟨rfl, rfl⟩ := hsame ht
          exact hno () _ (redeemConsume_ok_iff.mpr ⟨ht.calls.2.2, r', hr, hids.1.symm, ht.usable, rfl⟩)
        · rw [redeemBody, hbody, hbody2, hstate]
          exact redeemConsume_stays hno
        · rw [redeemBody, hbody, hbody2]
          exact hnot
    · refine .inr ⟨?_, ?_, ?_⟩
      · intro r' share' ht
        obtain ⟨rfl, rfl⟩ := hsame ht
        have hcode : secretHash app req.accessCode = share'.accessCodeHash :=
          Subtype.ext (ht.code.symm.trans hids.2.2.2.2.symm)
        exact hno () w (redeemCode_ok_iff.mpr ⟨ht.calls.2.1, hcode, rfl⟩)
      · rw [redeemBody, hbody, hstate]
        exact moves_redeemCode stays_frame req share w
      · rw [redeemBody, hbody]
        exact hnot
  · refine .inr ⟨?_, ?_, hnot⟩
    · intro r share ht
      exact hno share w (redeemLookup_ok_iff.mpr ⟨ht.calls.1, ⟨r, ht.row, ht.token, ht.decodes⟩, rfl⟩)
    · rw [redeemBody, hstate]
      exact moves_redeemLookup stays_frame req w

/-- Everything after the slot is in order: the two reads of the print, its file and
keys, and the audit record. -/
structure Deliverable (env : RequestEnv) (app : App) (w : World) (printId : Uuid) (print : Print)
    (content : Bytes) : Prop where
  calls : env.fails .selectPrint = false ∧ ∀ c ∈ readBlobCalls, env.fails c = false
  opens : Openable app.bcrypt app.kek w.store printId print content
  audits : w.auditPoisoned = false ∧ env.auditFault = none

theorem withAudit_ok_iff {name : String} {outcome : Audit.Outcome} {userId : Option Uuid} {ip ua : Text}
    {target meta_ : List (Text × Json)} {a b : α} {w w' : World} :
    withAudit (writeEvent env app name outcome userId ip ua target meta_ >>= fun _ => pure a) w =
        (.ok b, w') ↔
      w.auditPoisoned = false ∧ a = b ∧ ∃ log file, w.log.write app.serde app.bcrypt env.auditFault w.file
        (eventOf env name outcome userId ip ua target meta_) = (.ok (), log, file) ∧
          { w with log, file } = w' := by
  have hwrite : ∀ {u : Unit} {w1 : World},
      writeEvent env app name outcome userId ip ua target meta_ w = (.ok u, w1) ↔
        ∃ log file, w.log.write app.serde app.bcrypt env.auditFault w.file
          (eventOf env name outcome userId ip ua target meta_) = (.ok (), log, file) ∧
            { w with log, file } = w1 := by
    intro u w1
    rcases h : w.log.write app.serde app.bcrypt env.auditFault w.file
      (eventOf env name outcome userId ip ua target meta_) with ⟨e | _, log, file⟩ <;>
      simp [writeEvent, h]
  simp only [withAudit, locked_ok_iff, bind_ok_iff, hwrite, pure_ok_iff]
  constructor
  · rintro ⟨hfree, _, _, ⟨log, file, hw, rfl⟩, rfl, rfl⟩
    exact ⟨hfree, rfl, log, file, hw, rfl⟩
  · rintro ⟨hfree, rfl, log, file, hw, rfl⟩
    exact ⟨hfree, (), _, ⟨log, file, hw, rfl⟩, rfl, rfl⟩

/-- The events of the operations are plain: their members are scalars. -/
theorem eventOf_plain (env : RequestEnv) (name : String) (outcome : Audit.Outcome) (userId : Option Uuid)
    (ip ua : Text) {target meta_ : List (Text × Json)}
    (ht : ∀ m ∈ target, m.2.floatFree = true ∧ m.2.depth = 0)
    (hm : ∀ m ∈ meta_, m.2.floatFree = true ∧ m.2.depth = 0) :
    (eventOf env name outcome userId ip ua target meta_).Plain := by
  have hobject : ∀ ms : List (Text × Json), (∀ m ∈ ms, m.2.floatFree = true ∧ m.2.depth = 0) →
      (JsonValue.object ms).tree.floatFree = true ∧ (JsonValue.object ms).tree.depth ≤ 126 := by
    intro ms hms
    refine ⟨Json.floatFree_collect _ ((Json.membersFloatFree_iff ms).mpr fun m h => (hms m h).1), ?_⟩
    have hdepth : (Json.object ms).depth ≤ 1 :=
      Nat.succ_le_succ ((Json.membersDepth_le_iff ms).mpr fun m h => (hms m h).2.le)
    exact (Json.depth_collect _).trans (hdepth.trans (by decide))
  exact ⟨(env.now .event).utc, (env.now .event).year, hobject target ht, hobject meta_ hm⟩

def deliveredEvent (env : RequestEnv) (req : RedeemRequest) (share : Share) (print : Print) : Audit.Event :=
  eventOf env "share.redeem" .success none req.ip req.userAgent
    [uuid "share_id" share.id, uuid "print_id" print.id, uuid "vendor_id" share.vendorId]
    [text "filename" print.filename, number "size_bytes" print.sizeBytes]

theorem deliveredEvent_plain (env : RequestEnv) (req : RedeemRequest) (share : Share) (print : Print) :
    (deliveredEvent env req share print).Plain := by
  apply eventOf_plain
  · simp [uuid, Json.floatFree, Json.depth]
  · simp [text, number, Json.floatFree, Json.depth]

theorem redeemDeliver_ok_iff (D : app.serde.Documented) {req : RedeemRequest} {share : Share} {w : World}
    {resp : RedeemResponse} :
    (redeemDeliver env app req share w).1 = .ok resp ↔ ∃ print,
      Deliverable env app w share.printId print resp.content ∧
        resp.filename = print.filename ∧ resp.sha256 = print.sha256Plaintext := by
  constructor
  · intro h
    obtain ⟨found, w1, h1, k1⟩ := bind_ok_iff.mp (Prod.ext h rfl)
    obtain ⟨s1, hfind, rfl⟩ := onStore_ok_iff.mp h1
    obtain ⟨print, w2, hsome, k2⟩ := bind_ok_iff.mp k1
    obtain ⟨rfl, rfl⟩ := orErr_ok_iff.mp hsome
    obtain ⟨hf, ⟨row, hrow, hprint⟩, rfl⟩ := PrintStore.find_some_iff.mp hfind
    obtain ⟨content, w3, h3, k3⟩ := bind_ok_iff.mp k2
    obtain ⟨s2, hread, rfl⟩ := onStore_ok_iff.mp h3
    obtain ⟨hcalls, ⟨print', hopen⟩, rfl⟩ := PrintStore.readBlob_ok_iff.mp hread
    obtain ⟨hfree, rfl, log, file, hw, -⟩ := withAudit_ok_iff.mp k3
    have hfault := (Audit.write_ok_iff D w.log w.file (deliveredEvent_plain env req share print)).mp (congrArg Prod.fst hw)
    obtain rfl : print' = print := by
      obtain ⟨row', hrow', hprint'⟩ := hopen.found
      obtain rfl := Option.some.inj (hrow'.symm.trans hrow)
      exact Except.ok.inj (hprint'.symm.trans hprint)
    exact ⟨print', ⟨⟨hf, hcalls⟩, hopen, hfree, hfault⟩, rfl, rfl⟩
  · rintro ⟨print, ⟨⟨hf, hcalls⟩, hopen, hfree, hfault⟩, hname, hsha⟩
    have hfind : onStore (PrintStore.find env.toEnv .selectPrint share.printId) w = (.ok (some print), w) :=
      onStore_ok (PrintStore.find_some_iff.mpr ⟨hf, hopen.found, rfl⟩)
    have hread : onStore (PrintStore.readBlob env.toEnv app.bcrypt app.kek share.printId) w =
        (.ok resp.content, w) :=
      onStore_ok (PrintStore.readBlob_ok_iff.mpr ⟨hcalls, ⟨print, hopen⟩, rfl⟩)
    rcases hw : w.log.write app.serde app.bcrypt env.auditFault w.file (deliveredEvent env req share print) with
      ⟨r, log, file⟩
    obtain rfl : r = .ok () := by
      have hok := (Audit.write_ok_iff (B := app.bcrypt) D w.log w.file
        (deliveredEvent_plain env req share print)).mpr hfault
      rwa [hw] at hok
    have hresp : (⟨print.filename, resp.content, print.sha256Plaintext⟩ : RedeemResponse) = resp := by
      rw [← hname, ← hsha]
    have hlast := withAudit_ok_iff.mpr ⟨hfree, hresp, log, file, hw, rfl⟩
    rw [redeemDeliver, bind_ok hfind, bind_ok (orErr_ok_iff.mpr ⟨rfl, rfl⟩), bind_ok hread, hlast]

theorem withStore_poisoned {α : Type} (m : Exec World ServiceError α) {w : World} (h : w.storePoisoned = true) :
    spawnBlocking (withStore m) w = (.err (.internal .mutexPoisoned), w) := by
  simp only [spawnBlocking, task, withStore, locked, storeMutex, h, if_true]

/-- A task under a free store mutex ends well exactly when its body does, and leaves
the store that the body leaves. -/
theorem withStore_free (m : Exec World ServiceError α) {w : World} (h : w.storePoisoned = false) :
    (spawnBlocking (withStore m) w).2.store = (m w).2.store ∧
      ∀ a, (spawnBlocking (withStore m) w).1 = .ok a ↔ (m w).1 = .ok a := by
  rcases hm : m w with ⟨a | e | _, t⟩ <;>
    simp [spawnBlocking, task, withStore, locked, storeMutex, h, hm]

theorem blocking_of_run {m : Exec World ServiceError α} {w t : World} {o : Outcome ServiceError α}
    (h : w.storePoisoned = false) (hm : m w = (o, t)) (ho : o ≠ .panic) :
    spawnBlocking (withStore m) w = (o, t) := by
  simp only [spawnBlocking, task, withStore, locked, storeMutex, h, hm, Bool.false_eq_true, if_false]
  cases o with
  | ok a => rfl
  | err e => rfl
  | panic => exact absurd rfl ho

theorem blocking_of_panic {m : Exec World ServiceError α} {w t : World} (h : w.storePoisoned = false)
    (hm : m w = (.panic, t)) :
    spawnBlocking (withStore m) w = (.err (.internal .taskPanicked), { t with storePoisoned := true }) := by
  simp only [spawnBlocking, task, withStore, locked, storeMutex, h, hm, Bool.false_eq_true, if_false]

theorem spawnBlocking_calm (m : Exec World ServiceError α) : Calm (spawnBlocking m) := by
  intro w
  rcases hm : m w with ⟨a | e | _, t⟩ <;> simp [spawnBlocking, task, hm]

/-- A redemption takes one slot and succeeds as its delivery does, or it fails and the
store is as before. -/
theorem redeemShare_cases (env : RequestEnv) (app : App) (req : RedeemRequest) (w : World) :
    (w.storePoisoned = false ∧ ∃ r share, Takes env app w.store req r share ∧
      (redeemShare env app req w).2.store = (w.afterConsume env r).store ∧
      ∀ resp, (redeemShare env app req w).1 = .ok resp ↔
        (redeemDeliver env app req share (w.afterConsume env r)).1 = .ok resp) ∨
    ((w.storePoisoned = true ∨ ∀ r share, ¬ Takes env app w.store req r share) ∧
      (redeemShare env app req w).2.store = w.store ∧
      ∀ resp, (redeemShare env app req w).1 ≠ .ok resp) := by
  cases hp : w.storePoisoned with
  | true =>
      rw [redeemShare, withStore_poisoned _ hp]
      exact .inr ⟨.inl rfl, rfl, by simp⟩
  | false =>
      obtain ⟨hstore, hok⟩ := withStore_free (redeemBody env app req) hp
      rcases redeemBody_cases env app req w with ⟨r, share, ht, hbody⟩ | ⟨hno, hsame, hnot⟩
      · rw [hbody] at hstore hok
        exact .inl ⟨rfl, r, share, ht, hstore.trans (moves_redeemDeliver stays_frame req share _), hok⟩
      · exact .inr ⟨.inr hno, hstore.trans hsame, fun resp h => hnot resp ((hok resp).mp h)⟩

end
end FipsDropbox.Service
