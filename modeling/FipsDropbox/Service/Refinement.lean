import FipsDropbox.Lib.Runs
import FipsDropbox.Lib.Vault
import FipsDropbox.Service.Creation
import FipsDropbox.Service.Delivery

/-!
# The service as a vault

A share is a ticket of the vault: the hashes of its token and code are the secrets, its
print is the file, and its slots, expiry and revocation are the terms. Every operation of
the service, whether it succeeds or not, is one step of the vault.
-/
namespace FipsDropbox.Service
open Utf8 Exec Crypto Storage

abbrev ShareTicket := Vault.Ticket (Bytes × Bytes) (Text × Bytes)
abbrev ShareTickets := Vault.Tickets Bytes (Bytes × Bytes) (Text × Bytes)
abbrev ShareEvent := Vault.Event Bytes (Bytes × Bytes) (Text × Bytes)

def ticketOf (r : ShareRow) (file : Text × Bytes) : ShareTicket where
  secrets := (r.tokenHash, r.accessCodeHash)
  file
  left := (r.maxDownloads - r.downloadCount).toNat
  deadline := r.expiresAt
  withdrawn := r.revokedAt.isSome

/-- The print of the share is in the store under this name, and opens to these bytes. -/
def HasFile (app : App) (s : Store) (r : ShareRow) (file : Text × Bytes) : Prop :=
  ∃ id : Uuid, id.val = r.printId ∧ PrintStore.Stored app.bcrypt app.kek s id file.1 file.2

/-- The tickets are the shares of the store with the files of their prints. -/
structure Represents (app : App) (s : Store) (V : ShareTickets) : Prop where
  kept : ∀ r ∈ s.db.shares.rows, ∃ file, HasFile app s r file ∧ V r.id = some (ticketOf r file)
  row : ∀ k t, V k = some t → ∃ r ∈ s.db.shares.rows, r.id = k

theorem represents_empty {app : App} {s : Store} (h : s.db.shares = .empty) : Represents app s Vault.empty where
  kept r hr := by
    rw [h] at hr
    cases hr
  row k t ht := by cases ht

section
variable {app : App} {s t : Store} {V : ShareTickets} {r : ShareRow}

theorem Represents.sameFiles (h : Represents app s V) (hst : SameFiles s t) : Represents app t V := by
  obtain ⟨hshares, hprints, hblobs⟩ := hst
  refine ⟨?_, ?_⟩
  · intro r hr
    rw [hshares] at hr
    obtain ⟨file, ⟨id, hid, hstored⟩, hV⟩ := h.kept r hr
    exact ⟨file, ⟨id, hid, hstored.sameFiles hprints hblobs⟩, hV⟩
  · rw [hshares]
    exact h.row

theorem Represents.update (h : Represents app s V) {p : ShareRow → Bool} {f : ShareRow → ShareRow}
    (hf : ∀ key ∈ [ShareRow.id, ShareRow.tokenHash], ∀ r, key (f r) = key r) (hprint : ∀ r, (f r).printId = r.printId)
    (hr : r ∈ s.db.shares.rows) (hp : p r = true) (hid : ∀ r' ∈ s.db.shares.rows, p r' = true → r'.id = r.id)
    {file : Text × Bytes} (hV : V r.id = some (ticketOf r file)) :
    Represents app { s with db := { s.db with shares := (s.db.shares.update p f hf).2 } }
      (Vault.put V r.id (ticketOf (f r) file)) := by
  have hfid : ∀ r, (f r).id = r.id := hf ShareRow.id List.mem_cons_self
  refine ⟨?_, ?_⟩
  · intro r' hr'
    rw [Table.update_rows] at hr'
    obtain ⟨r0, hr0, rfl⟩ := List.mem_map.mp hr'
    obtain ⟨file0, ⟨id, hprintId, hstored⟩, hV0⟩ := h.kept r0 hr0
    by_cases hsame : r0.id = r.id
    · obtain rfl := share_of_id hr0 hr hsame
      obtain rfl : file0 = file := congrArg Vault.Ticket.file (Option.some.inj (hV0.symm.trans hV))
      rw [if_pos hp]
      exact ⟨file0, ⟨id, hprintId.trans (hprint r0).symm, hstored⟩, by rw [hfid, Vault.put_same]⟩
    · rw [if_neg fun hp0 => hsame (hid r0 hr0 hp0)]
      exact ⟨file0, ⟨id, hprintId, hstored⟩, by rw [Vault.put_other hsame, hV0]⟩
  · intro k t hk
    by_cases hsame : k = r.id
    · exact ⟨f r, Table.mem_update_of_true f hf hr hp, (hfid r).trans hsame.symm⟩
    · rw [Vault.put_other hsame] at hk
      obtain ⟨r', hr', rfl⟩ := h.row k t hk
      refine ⟨r', Table.mem_update_of_false f hf hr' ?_, rfl⟩
      rw [Bool.eq_false_iff]
      exact fun hp' => hsame (hid r' hr' hp')

end

def KeepsFiles (app : App) (id : Uuid) (s t : Store) : Prop :=
  ∀ (id' : Uuid) (name : Text) (content : Bytes), id' ≠ id →
    PrintStore.Stored app.bcrypt app.kek s id' name content → PrintStore.Stored app.bcrypt app.kek t id' name content

section
variable {env : RequestEnv} {app : App} {req : NewShareRequest}

def Spares (app : App) (id : Uuid) (s t : Store) : Prop := t.db.shares = s.db.shares ∧ KeepsFiles app id s t

theorem spares_frame (app : App) (id : Uuid) : Frame (Spares app id) where
  refl _ := ⟨rfl, fun _ _ _ _ h => h⟩
  trans h h' := ⟨h'.1.trans h.1, fun id' name content hne hs => h'.2 id' name content hne (h.2 id' name content hne hs)⟩

theorem moves_vendorAndPrint :
    Moves (OnStore (Spares app (env.newId .print))) (vendorAndPrint env app req) := by
  have F := spares_frame app (env.newId .print)
  have FW := onStore_frame F
  refine FW.bind (moves_onStore (moves_findOrCreateVendor F req ?_)) fun _ =>
    FW.bind (moves_onStore (PrintStore.moves_insert F ?_ ?_ _ _ _ _)) fun _ => FW.pure _
  · exact fun s row vendors _ => ⟨rfl, fun _ _ _ _ h => h.sameFiles rfl rfl⟩
  · exact fun s content => ⟨rfl, fun id' _ _ hne h => h.setBlob hne.symm content⟩
  · exact fun s row prints _ _ hins => ⟨rfl, fun _ _ _ _ h => h.insertRow hins⟩

theorem vendorAndPrint_stored (hB : app.bcrypt.Documented) (hlen : req.printBytes.length < 2 ^ 32) {w u : World}
    {vendor : Vendor} {print : Print} (h : vendorAndPrint env app req w = (.ok (vendor, print), u)) :
    print.id = env.newId .print ∧
      PrintStore.Stored app.bcrypt app.kek u.store (env.newId .print) req.printFilename req.printBytes := by
  obtain ⟨v, w1, h1, k1⟩ := bind_ok_iff.mp h
  obtain ⟨p, w2, h2, k2⟩ := bind_ok_iff.mp k1
  obtain ⟨s2, hinsert, rfl⟩ := onStore_ok_iff.mp h2
  obtain ⟨hid, -, hstored⟩ := PrintStore.insert_stored hB hlen hinsert
  cases k2
  exact ⟨hid, hstored⟩

/-- The offer fails and changes nothing, or the share is there and only its event may fail. -/
theorem offerShare_cases (vendor : Vendor) (print : Print) (u : World) :
    ((offerShare env app req vendor print u).2.store = u.store ∧
      ∀ c, (offerShare env app req vendor print u).1 ≠ .ok c) ∨
    ∃ expiresAt share secrets t, expiryOf env req = some expiresAt ∧
      Shares.create env.toEnv app.bcrypt print.id vendor.id expiresAt req.maxDownloads req.note req.createdBy
        u.store = (.ok (share, secrets), t) ∧
      (offerShare env app req vendor print u).2.store = t ∧
      ∀ c, (offerShare env app req vendor print u).1 = .ok c → c = ⟨share, secrets, vendor⟩ := by
  cases hexpiry : expiryOf env req with
  | none =>
      have hpanic : (orPanic (expiryOf env req) : Exec World ServiceError _) u = (.panic, u) := by
        rw [hexpiry]
        rfl
      rw [offerShare, bind_panic hpanic]
      exact .inl ⟨rfl, by simp⟩
  | some expiresAt =>
      rw [offerShare, bind_ok (orPanic_ok_iff.mpr ⟨hexpiry, rfl⟩)]
      rcases bind_cases (onStore (Shares.create env.toEnv app.bcrypt print.id vendor.id expiresAt req.maxDownloads
          req.note req.createdBy)) _ u with ⟨⟨share, secrets⟩, u1, hmade, hk⟩ | ⟨hno, hstate, hnot⟩
      · obtain ⟨t, hcreate, rfl⟩ := onStore_ok_iff.mp hmade
        refine .inr ⟨expiresAt, share, secrets, t, rfl, hcreate, ?_, ?_⟩
        · rw [hk]
          exact moves_audited stays_frame ((onStore_frame stays_frame).pure _) _
        · intro c hc
          rw [hk] at hc
          obtain ⟨-, heq, -⟩ := withAudit_ok_iff.mp (Prod.ext hc rfl)
          exact heq.symm
      · refine .inl ⟨?_, hnot⟩
        rw [hstate, onStore_store]
        exact atomic_create _ _ _ _ _ _ _ fun a ha => hno a _ (onStore_ok (Prod.ext ha rfl))

/-- A share with its file was added, whether its creation was answered or not. -/
structure Added (env : RequestEnv) (app : App) (req : NewShareRequest) (s t : Store) (token code : Text)
    (expiresAt : OffsetDateTime) : Prop where
  expiry : expiryOf env req = some expiresAt
  share : ∃ vendorId, s.db.shares.insert (sharedRow env app req vendorId expiresAt token code 0) = some t.db.shares
  files : KeepsFiles app (env.newId .print) s t
  file : PrintStore.Stored app.bcrypt app.kek t (env.newId .print) req.printFilename req.printBytes

/-- The answer hands out the secrets of the share. -/
def HandsSecrets (env : RequestEnv) (app : App) (token code : Text) (created : ShareCreated) : Prop :=
  created.shareId = env.newId .share ∧ created.shareUrl = shareUrl app token ∧ created.accessCode = code

theorem storeShare_effect (hB : app.bcrypt.Documented) (hlen : req.printBytes.length < 2 ^ 32) (w : World) :
    (Spares app (env.newId .print) w.store (storeShare env app req w).2.store ∧
      ∀ c, (storeShare env app req w).1 ≠ .ok c) ∨
    ∃ token code expiresAt, Added env app req w.store (storeShare env app req w).2.store token code expiresAt ∧
      ∀ c, (storeShare env app req w).1 = .ok c →
        c.share.id = env.newId .share ∧ c.secrets.urlToken = token ∧ c.secrets.accessCode = code := by
  cases hp : w.storePoisoned with
  | true =>
      rw [storeShare_eq, withStore_poisoned _ hp]
      exact .inl ⟨(spares_frame app _).refl _, by simp⟩
  | false =>
      rw [storeShare_eq]
      obtain ⟨hstore, hok⟩ := withStore_free (vendorAndPrint env app req >>= fun p => offerShare env app req p.1 p.2) hp
      rw [hstore]
      have hspares : Spares app (env.newId .print) w.store (vendorAndPrint env app req w).2.store :=
        moves_vendorAndPrint w
      rcases bind_cases (vendorAndPrint env app req) (fun p => offerShare env app req p.1 p.2) w with
        ⟨⟨vendor, print⟩, u, hrun, hk⟩ | ⟨-, hstate, hnot⟩
      · rw [hrun] at hspares
        obtain ⟨hid, hfile⟩ := vendorAndPrint_stored hB hlen hrun
        rw [hk] at hok ⊢
        rcases @offerShare_cases env app req vendor print u with
          ⟨hsame, hnot⟩ | ⟨expiresAt, share, secrets, t, hexpiry, hcreate, ht, hvalue⟩
        · exact .inl ⟨by rw [hsame]; exact hspares, fun c hc => hnot c ((hok c).mp hc)⟩
        · obtain ⟨hshareId, shares, hins, rfl⟩ := create_ok hcreate
          refine .inr ⟨secrets.urlToken, secrets.accessCode, expiresAt, ⟨hexpiry, ⟨vendor.id, ?_⟩, ?_, ?_⟩, ?_⟩
          · rw [ht, ← hspares.1]
            rw [hid] at hins
            exact hins
          · rw [ht]
            exact fun id' name content hne h => (hspares.2 id' name content hne h).sameFiles rfl rfl
          · rw [ht]
            exact hfile.sameFiles rfl rfl
          · intro c hc
            rw [hvalue c ((hok c).mp hc)]
            exact ⟨hshareId, rfl, rfl⟩
      · rw [hstate]
        exact .inl ⟨hspares, fun c hc => hnot c ((hok c).mp hc)⟩

theorem createShare_effect (hB : app.bcrypt.Documented) (hlen : req.printBytes.length < 2 ^ 32) (w : World) :
    (Spares app (env.newId .print) w.store (createShare env app req w).2.store ∧
      ∀ c, (createShare env app req w).1 ≠ .ok c) ∨
    ∃ token code expiresAt, Added env app req w.store (createShare env app req w).2.store token code expiresAt ∧
      ∀ c, (createShare env app req w).1 = .ok c → HandsSecrets env app token code c := by
  obtain ⟨⟨hstore, -⟩, hok, -⟩ := createShare_of_storeShare env app req w
  rw [hstore]
  rcases storeShare_effect hB hlen w with ⟨hspares, hnot⟩ | ⟨token, code, expiresAt, hadded, hvalue⟩
  · refine .inl ⟨hspares, fun c hc => ?_⟩
    obtain ⟨made, hmade⟩ := hok.mp ⟨c, hc⟩
    exact hnot made hmade
  · refine .inr ⟨token, code, expiresAt, hadded, fun c hc => ?_⟩
    obtain ⟨made, w1, hmade, k⟩ := bind_ok_iff.mp (Prod.ext hc rfl)
    obtain ⟨hid, htoken, hcode⟩ := hvalue made (congrArg Prod.fst hmade)
    obtain rfl := Outcome.ok.inj (congrArg Prod.fst k)
    exact ⟨hid, congrArg (shareUrl app) htoken, hcode⟩

end

def newTicket (app : App) (req : NewShareRequest) (token code : Text) (expiresAt : OffsetDateTime) : ShareTicket where
  secrets := ((secretHash app token).val, (secretHash app code).val)
  file := (req.printFilename, req.printBytes)
  left := req.maxDownloads.toNat
  deadline := dtToMillis expiresAt
  withdrawn := false

/-- The event of an operation and its answer. An operation that fails may have had its
effect, but what is answered as a success always has. -/
inductive Tells (app : App) : RequestEnv × Request → Outcome ServiceError Reply → ShareEvent → Prop
  | other {op : RequestEnv × Request} {out : Outcome ServiceError Reply} (hc : ∀ q, op.2 ≠ .createShare q)
      (hr : ∀ q, op.2 ≠ .redeemShare q) (hv : ∀ s u ip ua, op.2 ≠ .revokeShare s u ip ua) : Tells app op out .pass
  | failed {op : RequestEnv × Request} {out : Outcome ServiceError Reply} (h : ∀ reply, out ≠ .ok reply) :
      Tells app op out .pass
  | deposited {env : RequestEnv} {req : NewShareRequest} {out : Outcome ServiceError Reply} {token code : Text}
      {expiresAt : OffsetDateTime} (hexpiry : expiryOf env req = some expiresAt)
      (h : ∀ created, out = .ok (.created created) → HandsSecrets env app token code created) :
      Tells app (env, .createShare req) out (.deposit (env.newId .share).val (newTicket app req token code expiresAt))
  | collected {env : RequestEnv} {req : RedeemRequest} {out : Outcome ServiceError Reply} {k : Bytes}
      {file : Option (Text × Bytes)}
      (h : ∀ resp, out = .ok (.redeemed resp) → file = some (resp.filename, resp.content))
      (hnone : (∀ reply, out ≠ .ok reply) → file = none) :
      Tells app (env, .redeemShare req) out (.collect k ((secretHash app req.token).val,
        (secretHash app req.accessCode).val) (dtToMillis (env.now .consumeDownload).time) file)
  | withdrawn {env : RequestEnv} {id byUser : Uuid} {ip ua : Text} {out : Outcome ServiceError Reply} :
      Tells app (env, .revokeShare id byUser ip ua) out (.withdraw id.val)

/-- An upload that the provider can encrypt in one piece, under an identifier not in use. -/
def CarefulUpload (w : World) (op : RequestEnv × Request) : Prop := ∀ req, op.2 = .createShare req →
  req.printBytes.length < 2 ^ 32 ∧ w.store.db.prints.has PrintRow.id (op.1.newId .print).val = false

def Careful (app : App) : World → List (RequestEnv × Request) → Prop :=
  Runs.Throughout (fun w op => (handle op.1 app op.2 w).2) CarefulUpload

def served (app : App) : World → List (RequestEnv × Request) →
    List ((RequestEnv × Request) × Outcome ServiceError Reply)
  | _, [] => []
  | w, op :: ops => (op, (handle op.1 app op.2 w).1) :: served app (handle op.1 app op.2 w).2 ops

theorem served_fst (app : App) (w : World) (ops : List (RequestEnv × Request)) :
    (served app w ops).map Prod.fst = ops := by
  induction ops generalizing w with
  | nil => rfl
  | cons op ops ih => exact congrArg (op :: ·) (ih _)

theorem mem_served (app : App) (w : World) (before : List (RequestEnv × Request)) (op : RequestEnv × Request)
    (after : List (RequestEnv × Request)) :
    (op, (handle op.1 app op.2 (serve app w before)).1) ∈ served app w (before ++ op :: after) := by
  induction before generalizing w with
  | nil => exact List.mem_cons_self
  | cons op' before ih => exact List.mem_cons_of_mem _ (ih _)

section
variable {env : RequestEnv} {app : App} {w : World} {V : ShareTickets}

theorem Represents.added {req : NewShareRequest} {s t : Store} {token code : Text} {expiresAt : OffsetDateTime}
    (h : Represents app s V) (hadded : Added env app req s t token code expiresAt)
    (hfresh : s.db.prints.has PrintRow.id (env.newId .print).val = false) :
    V (env.newId .share).val = none ∧
      Represents app t (Vault.put V (env.newId .share).val (newTicket app req token code expiresAt)) := by
  obtain ⟨vendorId, hins⟩ := hadded.share
  have hunused : ∀ r ∈ s.db.shares.rows, r.id ≠ (env.newId .share).val := by
    intro r hr heq
    exact (Table.insert_some hins).1 ShareRow.id List.mem_cons_self (List.mem_map.mpr ⟨r, hr, heq⟩)
  refine ⟨?_, ⟨?_, ?_⟩⟩
  · cases hk : V (env.newId .share).val with
    | none => rfl
    | some t =>
        obtain ⟨r, hr, hid⟩ := h.row _ _ hk
        exact absurd hid (hunused r hr)
  · intro r hr
    rcases (Table.mem_of_insert hins).mp hr with hr | rfl
    · obtain ⟨file, ⟨id, hid, hstored⟩, hV⟩ := h.kept r hr
      have hne : id ≠ env.newId .print := by
        rintro rfl
        obtain ⟨row, _, _, _, hrow, hrid, -⟩ := hstored
        exact Bool.noConfusion (hfresh.symm.trans (Table.has_of_mem hrow hrid))
      exact ⟨file, ⟨id, hid, hadded.files id _ _ hne hstored⟩, by rw [Vault.put_other (hunused r hr), hV]⟩
    · exact ⟨_, ⟨env.newId .print, rfl, hadded.file⟩, Vault.put_same ..⟩
  · intro k t hk
    by_cases hsame : k = (env.newId .share).val
    · exact ⟨_, (Table.mem_of_insert hins).mpr (.inr rfl), hsame.symm⟩
    · rw [Vault.put_other hsame] at hk
      obtain ⟨r, hr, hid⟩ := h.row k t hk
      exact ⟨r, (Table.mem_of_insert hins).mpr (.inl hr), hid⟩

theorem delivered_file (hserde : app.serde.Documented) {req : RedeemRequest} {share : Share} {r : ShareRow}
    {file : Text × Bytes} (hfile : HasFile app w.store r file) (hprint : share.printId.val = r.printId)
    {resp : RedeemResponse} (h : (redeemDeliver env app req share w).1 = .ok resp) :
    (resp.filename, resp.content) = file := by
  obtain ⟨id, hid, hstored⟩ := hfile
  obtain rfl : share.printId = id := Subtype.ext (hprint.trans hid.symm)
  obtain ⟨print, hopen, hname, hsha⟩ := hstored.openable
  obtain ⟨print', hdeliverable, -, -⟩ := (redeemDeliver_ok_iff hserde).mp h
  have hok : (redeemDeliver env app req share w).1 = .ok ⟨print.filename, file.2, print.sha256Plaintext⟩ :=
    (redeemDeliver_ok_iff hserde).mpr ⟨print, ⟨hdeliverable.calls, hopen, hdeliverable.audits⟩, rfl, rfl⟩
  obtain rfl := Outcome.ok.inj (hok.symm.trans h)
  exact Prod.ext hname rfl

theorem Represents.redeem (hserde : app.serde.Documented) (h : Represents app w.store V) (req : RedeemRequest) :
    ∃ e V', Vault.Step V e V' ∧ Represents app (redeemShare env app req w).2.store V' ∧
      Tells app (env, .redeemShare req) (handle env app (.redeemShare req) w).1 e := by
  have hanswer : ∀ reply, (handle env app (.redeemShare req) w).1 = .ok reply →
      ∃ resp, reply = .redeemed resp ∧ (redeemShare env app req w).1 = .ok resp := by
    intro reply hreply
    obtain ⟨resp, w1, hrun, hpure⟩ := bind_ok_iff.mp (Prod.ext hreply rfl)
    exact ⟨resp, (Outcome.ok.inj (congrArg Prod.fst hpure)).symm, congrArg Prod.fst hrun⟩
  rcases redeemShare_cases env app req w with ⟨-, r, share, ht, hstore, hok⟩ | ⟨-, hstore, hno⟩
  · obtain ⟨file, hfile, hV⟩ := h.kept r ht.row
    obtain ⟨-, hopen, htime, hcount⟩ := consumable_iff.mp ht.usable
    have hprint := (rowToShare_ok ht.decodes).2.1
    have hleft : (ticketOf r.consumed file) = (ticketOf r file).collected := by
      simp only [ticketOf, ShareRow.consumed, Vault.Ticket.collected, Vault.Ticket.mk.injEq, true_and, and_true]
      omega
    have hsecrets : (ticketOf r file).secrets =
        ((secretHash app req.token).val, (secretHash app req.accessCode).val) := Prod.ext ht.token ht.code
    have hdelivered : ∀ resp, (redeemShare env app req w).1 = .ok resp → (resp.filename, resp.content) = file := by
      intro resp hresp
      exact delivered_file hserde (w := w.afterConsume env r)
        (hfile.imp fun id hid => ⟨hid.1, hid.2.sameFiles rfl rfl⟩) hprint ((hok resp).mp hresp)
    let answered : Option (Text × Bytes) :=
      (redeemShare env app req w).1.value.map fun resp => (resp.filename, resp.content)
    refine ⟨.collect r.id (ticketOf r file).secrets (dtToMillis (env.now .consumeDownload).time) answered,
      Vault.put V r.id (ticketOf r file).collected, .collect hV ?_ ?_ htime ?_, ?_, ?_⟩
    · simp only [ticketOf, hopen, Option.isSome_none]
    · simp only [ticketOf]
      omega
    · intro f hf
      obtain ⟨resp, hresp, rfl⟩ := Option.map_eq_some_iff.mp hf
      exact hdelivered resp (Outcome.value_eq_some.mp hresp)
    · rw [hstore, ← hleft]
      refine h.update ShareRow.consumed_keys (fun _ => rfl) ht.row ht.usable ?_ hV
      exact fun r' _ hr' => (consumable_iff.mp hr').1
    · rw [hsecrets]
      refine .collected ?_ ?_
      · intro resp hresp
        obtain ⟨resp', heq, hrun⟩ := hanswer _ hresp
        cases heq
        simp only [answered, Outcome.value_eq_some.mpr hrun, Option.map_some]
      · intro hnone
        have hvalue : (redeemShare env app req w).1.value = none := by
          apply Outcome.value_eq_none
          intro resp hresp
          have hrun : redeemShare env app req w = (.ok resp, (redeemShare env app req w).2) := Prod.ext hresp rfl
          exact hnone (.redeemed resp) (congrArg Prod.fst (bind_ok hrun _))
        simp only [answered, hvalue, Option.map_none]
  · rw [hstore]
    refine ⟨.pass, V, .pass V, h, .failed fun reply hreply => ?_⟩
    obtain ⟨resp, -, hrun⟩ := hanswer reply hreply
    exact hno resp hrun

theorem Represents.create (hB : app.bcrypt.Documented) (h : Represents app w.store V) (req : NewShareRequest)
    (hcareful : CarefulUpload w (env, .createShare req)) :
    ∃ e V', Vault.Step V e V' ∧ Represents app (createShare env app req w).2.store V' ∧
      Tells app (env, .createShare req) (handle env app (.createShare req) w).1 e := by
  have hanswer : ∀ reply, (handle env app (.createShare req) w).1 = .ok reply →
      ∃ created, reply = .created created ∧ (createShare env app req w).1 = .ok created := by
    intro reply hreply
    obtain ⟨created, w1, hrun, hpure⟩ := bind_ok_iff.mp (Prod.ext hreply rfl)
    exact ⟨created, (Outcome.ok.inj (congrArg Prod.fst hpure)).symm, congrArg Prod.fst hrun⟩
  obtain ⟨hlen, hfresh⟩ := hcareful req rfl
  rcases @createShare_effect env app req hB hlen w with
    ⟨⟨hshares, hfiles⟩, hno⟩ | ⟨token, code, expiresAt, hadded, hvalue⟩
  · refine ⟨.pass, V, .pass V, ⟨?_, ?_⟩, .failed fun reply hreply => ?_⟩
    · intro r hr
      rw [hshares] at hr
      obtain ⟨file, ⟨id, hid, hstored⟩, hV⟩ := h.kept r hr
      have hne : id ≠ env.newId .print := by
        rintro rfl
        obtain ⟨row, _, _, _, hrow, hrid, -⟩ := hstored
        exact Bool.noConfusion (hfresh.symm.trans (Table.has_of_mem hrow hrid))
      exact ⟨file, ⟨id, hid, hfiles id _ _ hne hstored⟩, hV⟩
    · rw [hshares]
      exact h.row
    · obtain ⟨created, -, hrun⟩ := hanswer reply hreply
      exact hno created hrun
  · obtain ⟨hnew, hnext⟩ := h.added hadded hfresh
    refine ⟨_, _, .deposit hnew rfl, hnext, .deposited hadded.expiry ?_⟩
    intro created hcreated
    obtain ⟨created', heq, hrun⟩ := hanswer _ hcreated
    cases heq
    exact hvalue created hrun

theorem Represents.revoke (h : Represents app w.store V) (id byUser : Uuid) (ip ua : Text) :
    ∃ e V', Vault.Step V e V' ∧ Represents app (revokeShare env app id byUser ip ua w).2.store V' ∧
      Tells app (env, .revokeShare id byUser ip ua) (handle env app (.revokeShare id byUser ip ua) w).1 e := by
  have hanswer : ∀ reply, (handle env app (.revokeShare id byUser ip ua) w).1 = .ok reply →
      ∃ u, (revokeShare env app id byUser ip ua w).1 = .ok u := by
    intro reply hreply
    obtain ⟨u, w1, hrun, -⟩ := bind_ok_iff.mp (Prod.ext hreply rfl)
    exact ⟨u, congrArg Prod.fst hrun⟩
  cases hp : w.storePoisoned with
  | true =>
      have hrun : revokeShare env app id byUser ip ua w = (.err (.internal .mutexPoisoned), w) :=
        withStore_poisoned _ hp
      rw [hrun] at hanswer ⊢
      refine ⟨.pass, V, .pass V, h, .failed fun reply hreply => ?_⟩
      obtain ⟨u, hu⟩ := hanswer reply hreply
      cases hu
  | false =>
      obtain ⟨hstore, hok⟩ := withStore_free (onStore (Shares.revoke env.toEnv id) >>= fun _ =>
        withAudit (writeEvent env app "share.revoked" .success (some byUser) ip ua [uuid "share_id" id] [])) hp
      rcases revoke_cases env.toEnv id w.store with ⟨hrun, r, hr, hid, hopen⟩ | ⟨e, hrun⟩
      · rw [bind_ok (onStore_ok hrun)] at hstore
        obtain ⟨file, hfile, hV⟩ := h.kept r hr
        have hkept : Moves (OnStore Stays) (withAudit (writeEvent env app "share.revoked" .success (some byUser) ip ua
            [uuid "share_id" id] [])) := moves_withAudit stays_frame (moves_writeEvent stays_frame _ _ _ _ _ _ _)
        refine ⟨.withdraw id.val, Vault.put V r.id (ticketOf r file).withdraw, ?_, ?_, .withdrawn⟩
        · rw [← hid]
          exact .withdraw hV
        · rw [revokeShare, hstore, hkept _]
          refine h.update (ShareRow.revoked_keys _) (fun _ => rfl) hr ?_ ?_ hV
          · simp [hid, hopen]
          · intro r' _ hr'
            simp only [Bool.and_eq_true, decide_eq_true_eq] at hr'
            exact hr'.1.trans hid.symm
      · rw [bind_err (onStore_err hrun)] at hstore hok
        refine ⟨.pass, V, .pass V, ?_, .failed fun reply hreply => ?_⟩
        · rw [revokeShare, hstore]
          exact h
        · obtain ⟨u, hu⟩ := hanswer reply hreply
          cases (hok u).mp hu

/-- The step lemma. -/
theorem Represents.step (hB : app.bcrypt.Documented) (hserde : app.serde.Documented) (h : Represents app w.store V)
    {op : RequestEnv × Request} (hcareful : CarefulUpload w op) :
    ∃ e V', Vault.Step V e V' ∧ Represents app (handle op.1 app op.2 w).2.store V' ∧
      Tells app op (handle op.1 app op.2 w).1 e := by
  obtain ⟨env, request⟩ := op
  cases request with
  | createShare req =>
      rw [handle, replying_state]
      exact h.create hB req hcareful
  | redeemShare req =>
      rw [handle, replying_state]
      exact h.redeem hserde req
  | revokeShare id byUser ip ua =>
      rw [handle, replying_state]
      exact h.revoke id byUser ip ua
  | login | logout | findAuthenticated | listAuditEvents | mintApiToken | listApiTokens | revokeApiToken
  | verifyApiToken | listRecentShares =>
      refine ⟨.pass, V, .pass V, h.sameFiles (handle_sameFiles env app _ ?_ ?_ ?_ w), .other ?_ ?_ ?_⟩
      all_goals simp

/-- The service refines the vault: along every run its operations, with their answers, are
the events of a run of the vault, and its shares with their files are the tickets. -/
theorem serve_refines_vault (hB : app.bcrypt.Documented) (hserde : app.serde.Documented)
    (h : Represents app w.store V) {ops : List (RequestEnv × Request)} (hcareful : Careful app w ops) :
    ∃ es V', Vault.Run V es V' ∧ Represents app (serve app w ops).store V' ∧
      List.Forall₂ (fun o e => Tells app o.1 o.2 e) (served app w ops) es := by
  induction ops generalizing w V with
  | nil => exact ⟨[], V, .nil V, h, .nil⟩
  | cons op ops ih =>
      obtain ⟨e, V1, hstep, hnext, htells⟩ := h.step hB hserde hcareful.1
      obtain ⟨es, V2, hrun, hend, hrest⟩ := ih hnext hcareful.2
      exact ⟨e :: es, V2, .cons hstep hrun, hend, .cons htells hrest⟩

/-! ## Where a delivered file comes from -/

theorem Tells.of_deposit {op : RequestEnv × Request} {out : Outcome ServiceError Reply} {k : Bytes} {t : ShareTicket}
    (h : Tells app op out (.deposit k t)) : ∃ env req token code expiresAt, op = (env, .createShare req) ∧
      k = (env.newId .share).val ∧ t = newTicket app req token code expiresAt ∧ expiryOf env req = some expiresAt ∧
      ∀ created, out = .ok (.created created) → HandsSecrets env app token code created := by
  cases h with
  | deposited hexpiry hsecrets => exact ⟨_, _, _, _, _, rfl, rfl, rfl, hexpiry, hsecrets⟩

theorem Tells.of_revoked {id byUser : Uuid} {ip ua : Text} {reply : Reply} {e : ShareEvent}
    (h : Tells app (env, .revokeShare id byUser ip ua) (.ok reply) e) : e = .withdraw id.val := by
  cases h with
  | other _ _ hv => exact absurd rfl (hv id byUser ip ua)
  | failed hno => exact absurd rfl (hno reply)
  | withdrawn => rfl

theorem Tells.of_redeemed {req : RedeemRequest} {resp : RedeemResponse} {e : ShareEvent}
    (h : Tells app (env, .redeemShare req) (.ok (.redeemed resp)) e) :
    ∃ k code time, e = .collect k ((secretHash app req.token).val, code) time (some (resp.filename, resp.content)) := by
  cases h with
  | other _ hr _ => exact absurd rfl (hr req)
  | failed hno => exact absurd rfl (hno _)
  | collected hfile _ => exact ⟨_, _, _, by rw [hfile resp rfl]⟩

theorem Tells.of_created {req : NewShareRequest} {reply : Reply} {e : ShareEvent}
    (h : Tells app (env, .createShare req) (.ok reply) e) : ∃ k t, e = .deposit k t := by
  cases h with
  | other hc _ _ => exact absurd rfl (hc req)
  | failed hno => exact absurd rfl (hno reply)
  | deposited => exact ⟨_, _, rfl⟩

/-- A redemption under the token that was answered as a success. -/
def redeemedUnder (app : App) (token : Text) : (RequestEnv × Request) × Outcome ServiceError Reply → Bool
  | ((_, .redeemShare q), .ok (.redeemed _)) => secretHash app q.token = secretHash app token
  | _ => false

theorem redeemedUnder_iff {token : Text} {o : (RequestEnv × Request) × Outcome ServiceError Reply} :
    redeemedUnder app token o = true ↔ ∃ env q resp, o = ((env, .redeemShare q), .ok (.redeemed resp)) ∧
      secretHash app q.token = secretHash app token := by
  constructor
  · intro h
    unfold redeemedUnder at h
    split at h
    · exact ⟨_, _, _, rfl, of_decide_eq_true h⟩
    · cases h
  · rintro ⟨env, q, resp, rfl, h⟩
    exact decide_eq_true h

/-- An upload with its answer, the secrets it made and its expiry. -/
structure Origin where
  env : RequestEnv
  req : NewShareRequest
  out : Outcome ServiceError Reply
  token : Text
  code : Text
  expiresAt : OffsetDateTime

/-- What a redemption delivers was uploaded in the past under the same two secrets, has
neither expired nor been revoked, and has been redeemed fewer times than it may be. -/
structure GoesBackTo (app : App) (past : List ((RequestEnv × Request) × Outcome ServiceError Reply))
    (env : RequestEnv) (q : RedeemRequest) (resp : RedeemResponse) (o : Origin) : Prop where
  uploaded : ((o.env, .createShare o.req), o.out) ∈ past
  secrets : ∀ created, o.out = .ok (.created created) → HandsSecrets o.env app o.token o.code created
  token : secretHash app q.token = secretHash app o.token
  code : secretHash app q.accessCode = secretHash app o.code
  filename : resp.filename = o.req.printFilename
  content : resp.content = o.req.printBytes
  expiry : expiryOf o.env o.req = some o.expiresAt
  timely : dtToMillis (env.now .consumeDownload).time < dtToMillis o.expiresAt
  unrevoked : ∀ env' byUser ip ua reply,
    ((env', .revokeShare (o.env.newId .share) byUser ip ua), .ok reply) ∉ past
  slots : past.countP (redeemedUnder app q.token) < o.req.maxDownloads.toNat

/-- A row of the store holds the slot of every redemption under its token. -/
theorem Represents.collects (h : Represents app w.store V) {es : List ShareEvent} (hacc : Vault.Accounts es V)
    {r : ShareRow} (hr : r ∈ w.store.db.shares.rows) {k code : Bytes} {time : ℤ} {file : Option (Text × Bytes)}
    (he : .collect k (r.tokenHash, code) time file ∈ es) : k = r.id := by
  cases hk : V k with
  | none =>
      have htouched := hacc.absent k hk _ he
      simp [Vault.touches] at htouched
  | some t =>
      obtain ⟨r', hr', rfl⟩ := h.row k t hk
      obtain ⟨file', -, hV⟩ := h.kept r' hr'
      obtain ⟨first, hfirst⟩ := hacc.kept _ _ hV
      have hsecrets := (hfirst.collected _ _ _ he).trans hfirst.secrets.symm
      rw [share_of_token hr' hr (congrArg Prod.fst hsecrets).symm]

theorem redeemShare_goesBack (hB : app.bcrypt.Documented) (hserde : app.serde.Documented)
    (hw : w.store.db.shares = .empty) {ops : List (RequestEnv × Request)} (hcareful : Careful app w ops)
    {q : RedeemRequest} {resp : RedeemResponse} (hok : (redeemShare env app q (serve app w ops)).1 = .ok resp) :
    ∃ o, GoesBackTo app (served app w ops) env q resp o := by
  obtain ⟨es, V, hrun, hrep, htells⟩ := serve_refines_vault hB hserde (represents_empty hw) hcareful
  have hacc : Vault.Accounts es V := Vault.accounts_empty.run hrun
  rcases redeemShare_cases env app q (serve app w ops) with ⟨-, r, share, ht, -, hdeliver⟩ | ⟨-, -, hno⟩
  · obtain ⟨file, hfile, hV⟩ := hrep.kept r ht.row
    obtain ⟨first, hfirst⟩ := hacc.kept _ _ hV
    obtain ⟨⟨op, out⟩, ho, htold⟩ := Runs.exists_left htells _ hfirst.deposited
    obtain ⟨env0, req, token, code, expiresAt, rfl, hid, rfl, hexpiry, hsecrets⟩ := htold.of_deposit
    obtain ⟨-, hopen, htime, hcount⟩ := consumable_iff.mp ht.usable
    have hdelivered : (resp.filename, resp.content) = (req.printFilename, req.printBytes) := by
      refine (delivered_file hserde (w := (serve app w ops).afterConsume env r) ?_ (rowToShare_ok ht.decodes).2.1
        ((hdeliver resp).mp hok)).trans hfirst.file
      exact hfile.imp fun id h => ⟨h.1, h.2.sameFiles rfl rfl⟩
    refine ⟨⟨env0, req, out, token, code, expiresAt⟩, ho, hsecrets, ?_, ?_, congrArg Prod.fst hdelivered,
      congrArg Prod.snd hdelivered, hexpiry, lt_of_lt_of_eq htime hfirst.deadline, ?_, ?_⟩
    · exact Subtype.ext (ht.token.symm.trans (congrArg Prod.fst hfirst.secrets))
    · exact Subtype.ext (ht.code.symm.trans (congrArg Prod.snd hfirst.secrets))
    · intro env' byUser ip ua reply hpast
      obtain ⟨e, he, htold⟩ := Runs.exists_right htells _ hpast
      rw [htold.of_revoked, ← hid] at he
      have hwithdrawn := hfirst.withdrawn he
      simp only [ticketOf, hopen, Option.isSome_none] at hwithdrawn
      cases hwithdrawn
    · have hle : (served app w ops).countP (redeemedUnder app q.token) ≤ es.countP (Vault.collects r.id) := by
        refine Runs.countP_le_of_forall₂ htells fun o e he htold hunder => ?_
        obtain ⟨env', q', resp', rfl, htoken⟩ := redeemedUnder_iff.mp hunder
        obtain ⟨k, code', time, rfl⟩ := htold.of_redeemed
        rw [htoken, ← ht.token] at he
        simp only [Vault.collects, hrep.collects hacc ht.row he, decide_true]
      have hleft := hfirst.left
      simp only [ticketOf, newTicket] at hleft
      change _ < req.maxDownloads.toNat
      omega
  · exact absurd hok (hno resp)

/-- Two shares are made, one is revoked, and its bearer is refused. -/
def sampleOps : List (RequestEnv × Request) :=
  [(quietEnv, .createShare sampleUpload), (otherEnv, .createShare otherUpload),
    (quietEnv, .revokeShare (quietEnv.newId .share) sampleUpload.createdBy [] []),
    (quietEnv, .redeemShare sampleBearer)]

def twoShares : World := (createShare otherEnv sampleApp otherUpload sharedWorld).2

theorem serve_first : serve sampleApp sampleWorld [(quietEnv, .createShare sampleUpload)] = sharedWorld := by
  rw [serve, serve, handle, replying_state]
  rfl

theorem serve_both :
    serve sampleApp sampleWorld [(quietEnv, .createShare sampleUpload), (otherEnv, .createShare otherUpload)] =
      twoShares := by
  rw [serve, serve, serve, handle, handle, replying_state, replying_state]
  rfl

theorem sampleOps_careful : Careful sampleApp sampleWorld sampleOps := by
  refine ⟨fun req h => ?_, fun req h => ?_, fun req h => ?_, fun req h => ?_, trivial⟩
  · obtain rfl := Request.createShare.inj h
    exact ⟨by decide, by decide⟩
  · obtain rfl := Request.createShare.inj h
    refine ⟨by decide, ?_⟩
    have hfree : sharedWorld.store.db.prints.has PrintRow.id (otherEnv.newId .print).val = false := by decide +kernel
    rw [← serve_first] at hfree
    exact hfree
  · cases h
  · cases h

theorem twoShares_created : ((createShare otherEnv sampleApp otherUpload sharedWorld).1.value.map fun created =>
    (created.shareUrl, created.accessCode)) = some (shareUrl sampleApp otherBearer.token, otherBearer.accessCode) := by
  decide +kernel

def refusedAsGone : Outcome ServiceError Reply → Bool
  | .err .shareUnavailable => true
  | _ => false

theorem refusedAsGone_iff {out : Outcome ServiceError Reply} :
    refusedAsGone out = true ↔ out = .err .shareUnavailable := by
  constructor
  · intro h
    unfold refusedAsGone at h
    split at h
    · rfl
    · cases h
  · rintro rfl
    rfl

def sampleRevocation : RequestEnv × Request :=
  (quietEnv, .revokeShare (quietEnv.newId .share) sampleUpload.createdBy [] [])

def sampleRefusal : RequestEnv × Request := (quietEnv, .redeemShare sampleBearer)

theorem sampleRevocation_done :
    (handle sampleRevocation.1 sampleApp sampleRevocation.2 twoShares).1.value.isSome = true := by
  decide +kernel

theorem sampleRefusal_refused : (handle sampleRefusal.1 sampleApp sampleRefusal.2
    (handle sampleRevocation.1 sampleApp sampleRevocation.2 twoShares).2).1 = .err .shareUnavailable := by
  rw [← refusedAsGone_iff]
  decide +kernel

theorem otherSecrets_differ : secretHash sampleApp sampleBearer.token ≠ secretHash sampleApp otherBearer.token ∧
    secretHash sampleApp sampleBearer.accessCode ≠ secretHash sampleApp otherBearer.accessCode := by
  decide +kernel

theorem sampleOps_tolerated : ∀ op ∈ [sampleRevocation, sampleRefusal],
    Tolerated otherEnv sampleApp otherBearer.token otherBearer.accessCode op := by
  intro op hop
  rcases List.mem_cons.mp hop with rfl | hop
  · refine ⟨fun byUser ip ua h => ?_, fun q h => ?_, fun q h => ?_, fun q h => ?_⟩
    · obtain ⟨hid, -⟩ := Request.revokeShare.inj h
      exact absurd hid (by decide)
    all_goals cases h
  · rw [List.mem_singleton.mp hop]
    refine ⟨fun byUser ip ua h => ?_, fun q h => ?_, fun q h => ?_, fun q h => ?_⟩
    · cases h
    · cases h
    · obtain rfl := Request.redeemShare.inj h
      exact fun hsame => absurd hsame otherSecrets_differ.1
    · obtain rfl := Request.redeemShare.inj h
      exact fun hsame => absurd hsame otherSecrets_differ.2

theorem otherBearer_served : ∃ resp,
    (redeemShare otherEnv sampleApp otherBearer (serve sampleApp sampleWorld sampleOps)).1 = .ok resp := by
  obtain ⟨created, hvalue, hsecrets⟩ := Option.map_eq_some_iff.mp twoShares_created
  obtain ⟨hurl, hcode⟩ := Prod.ext_iff.mp hsecrets
  have hcreate : createShare otherEnv sampleApp otherUpload sharedWorld = (.ok created, twoShares) :=
    Prod.ext (Outcome.value_eq_some.mp hvalue) (by rw [twoShares])
  obtain ⟨vendorId, expiresAt, token, hexpiry, htoken, -, hoffered, hfree⟩ :=
    createShare_ok Bcrypt.reference_documented (by decide) hcreate
  obtain rfl : otherBearer.token = token := shareUrl_injective (hurl.symm.trans htoken)
  have hexp : expiryOf otherEnv otherUpload = some sampleExpiry := by decide
  obtain rfl : sampleExpiry = expiresAt := Option.some.inj (hexp.symm.trans hexpiry)
  have hcode' : created.accessCode = otherBearer.accessCode := hcode
  rw [hcode'] at hoffered
  have hcalm : Undisturbed sampleApp otherBearer.token twoShares [sampleRevocation, sampleRefusal] := by
    refine ⟨fun _ herr => ?_, fun _ herr => ?_, trivial⟩
    · have hdone := sampleRevocation_done
      rw [herr] at hdone
      cases hdone
    · have hrefused := sampleRefusal_refused
      rw [herr] at hrefused
      cases hrefused
  obtain ⟨hend, n, hn, hrun⟩ := hoffered.run hfree sampleOps_tolerated hcalm
  have hcalls : [sampleRevocation, sampleRefusal].countP
      (timelyCall otherBearer.token otherBearer.accessCode sampleExpiry) = 0 := by decide
  have hslots : otherUpload.maxDownloads.toNat = 2 := by decide
  have hworld : serve sampleApp sampleWorld sampleOps = serve sampleApp twoShares [sampleRevocation, sampleRefusal] := by
    have hsplit := serve_append sampleApp sampleWorld
      [(quietEnv, .createShare sampleUpload), (otherEnv, .createShare otherUpload)] [sampleRevocation, sampleRefusal]
    rwa [serve_both] at hsplit
  rw [hworld]
  exact ⟨_, hrun.redeems Audit.SerdeJson.reference_documented (fun _ => rfl) rfl hend (by omega) (by decide) _ _⟩

def vaultOps : List (RequestEnv × Request) := sampleOps ++ [(otherEnv, .redeemShare otherBearer)]

theorem vaultOps_careful : Careful sampleApp sampleWorld vaultOps := by
  obtain ⟨hfirst, hsecond, hthird, hfourth, -⟩ := sampleOps_careful
  refine ⟨hfirst, hsecond, hthird, hfourth, ?_, trivial⟩
  intro req h
  cases h

theorem vaultOps_created : ((quietEnv, .createShare sampleUpload), .ok (.created sampleCreated)) ∈
    served sampleApp sampleWorld vaultOps := by
  have hserved := mem_served sampleApp sampleWorld [] (quietEnv, .createShare sampleUpload)
    [(otherEnv, .createShare otherUpload), sampleRevocation, sampleRefusal, (otherEnv, .redeemShare otherBearer)]
  rw [serve, handle, replying_of_ok (congrArg Prod.fst createShare_sample)] at hserved
  exact hserved

theorem vaultOps_revoked : ∃ reply, (sampleRevocation, .ok reply) ∈ served sampleApp sampleWorld vaultOps := by
  obtain ⟨reply, hreply⟩ := Option.isSome_iff_exists.mp sampleRevocation_done
  have hserved := mem_served sampleApp sampleWorld
    [(quietEnv, .createShare sampleUpload), (otherEnv, .createShare otherUpload)] sampleRevocation
    [sampleRefusal, (otherEnv, .redeemShare otherBearer)]
  rw [serve_both, Outcome.value_eq_some.mp hreply] at hserved
  exact ⟨reply, hserved⟩

theorem vaultOps_refused : (sampleRefusal, .err .shareUnavailable) ∈ served sampleApp sampleWorld vaultOps := by
  have hserved := mem_served sampleApp sampleWorld
    ([(quietEnv, .createShare sampleUpload), (otherEnv, .createShare otherUpload)] ++ [sampleRevocation]) sampleRefusal
    [(otherEnv, .redeemShare otherBearer)]
  rw [serve_append, serve_both, serve, serve, sampleRefusal_refused] at hserved
  exact hserved

theorem vaultOps_redeemed : ∃ resp, ((otherEnv, .redeemShare otherBearer), .ok (.redeemed resp)) ∈
    served sampleApp sampleWorld vaultOps := by
  obtain ⟨resp, hresp⟩ := otherBearer_served
  have hserved := mem_served sampleApp sampleWorld sampleOps (otherEnv, .redeemShare otherBearer) []
  rw [handle, replying_of_ok hresp] at hserved
  exact ⟨resp, hserved⟩

/-- All kinds of events: deposits, a withdrawal, a refusal and a collection. -/
theorem serve_refines_vault_sample : ∃ es V, Vault.Run Vault.empty es V ∧
    Represents sampleApp (serve sampleApp sampleWorld vaultOps).store V ∧
    List.Forall₂ (fun o e => Tells sampleApp o.1 o.2 e) (served sampleApp sampleWorld vaultOps) es ∧
    (∃ k t, .deposit k t ∈ es) ∧ .withdraw (quietEnv.newId .share).val ∈ es ∧
    (∃ k secrets time file, .collect k secrets time (some file) ∈ es) ∧
    (sampleRefusal, .err .shareUnavailable) ∈ served sampleApp sampleWorld vaultOps := by
  obtain ⟨es, V, hrun, hrep, htells⟩ := serve_refines_vault Bcrypt.reference_documented
    Audit.SerdeJson.reference_documented (represents_empty rfl) vaultOps_careful
  refine ⟨es, V, hrun, hrep, htells, ?_, ?_, ?_, vaultOps_refused⟩
  · obtain ⟨e, he, htold⟩ := Runs.exists_right htells _ vaultOps_created
    obtain ⟨k, t, rfl⟩ := htold.of_created
    exact ⟨k, t, he⟩
  · obtain ⟨reply, hserved⟩ := vaultOps_revoked
    obtain ⟨e, he, htold⟩ := Runs.exists_right htells _ hserved
    rwa [htold.of_revoked] at he
  · obtain ⟨resp, hserved⟩ := vaultOps_redeemed
    obtain ⟨e, he, htold⟩ := Runs.exists_right htells _ hserved
    obtain ⟨k, code, time, rfl⟩ := htold.of_redeemed
    exact ⟨k, _, time, _, he⟩

end

end FipsDropbox.Service
