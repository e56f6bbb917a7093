import Mathlib.Logic.Relation
import FipsDropbox.Service.Offboarding

/-!
# Which vendor a share goes to

The schema lets any number of vendors have one address. That at most one of them is active
rests on the order of two statements: `create_share` looks for an active vendor and only
then adds one, and no other creation comes between, since the store mutex is held.
-/
namespace FipsDropbox.Service
open Utf8 Exec Crypto Storage Relation

/-- What the creation that holds the mutex is about to do. -/
inductive Holder where
  | looking (env : RequestEnv) (req : NewShareRequest)
  | adding (env : RequestEnv) (req : NewShareRequest)
  | printing (env : RequestEnv) (req : NewShareRequest) (vendor : Vendor)
  | sharing (env : RequestEnv) (req : NewShareRequest) (vendor : Vendor) (print : Print)

/-- The store, and the creation that holds its mutex. -/
structure Desk where
  store : Store
  holder : Option Holder

section
variable (app : App)

/-- One statement of `create_share` on the store. -/
def Holder.next : Holder → Store → Desk
  | .looking env req, s =>
      match Vendors.findByEmail env.toEnv req.vendorEmail s with
      | (.ok (some vendor), t) => ⟨t, some (.printing env req vendor)⟩
      | (.ok none, t) => ⟨t, some (.adding env req)⟩
      | (_, t) => ⟨t, none⟩
  | .adding env req, s =>
      match Vendors.create env.toEnv req.vendorDisplayName req.vendorEmail req.vendorPhone req.createdBy s with
      | (.ok vendor, t) => ⟨t, some (.printing env req vendor)⟩
      | (_, t) => ⟨t, none⟩
  | .printing env req vendor, s =>
      match PrintStore.insert env.toEnv app.bcrypt app.kek req.printFilename req.printBytes req.createdBy
          req.cuiAttested s with
      | (.ok print, t) => ⟨t, some (.sharing env req vendor print)⟩
      | (_, t) => ⟨t, none⟩
  | .sharing env req vendor print, s =>
      match expiryOf env req with
      | some expiresAt =>
          ⟨(Shares.create env.toEnv app.bcrypt print.id vendor.id expiresAt req.maxDownloads req.note req.createdBy
            s).2, none⟩
      | none => ⟨s, none⟩

/-- A creation takes the free mutex, goes on by a statement or gives up; vendors are
disabled between any two statements. -/
inductive DeskStep : Desk → Desk → Prop
  | enter {s : Store} (env : RequestEnv) (req : NewShareRequest) : DeskStep ⟨s, none⟩ ⟨s, some (.looking env req)⟩
  | advance (h : Holder) (s : Store) : DeskStep ⟨s, some h⟩ (h.next app s)
  | leave (d : Desk) : DeskStep d { d with holder := none }
  | disable (d : Desk) (env : Env) (id : Uuid) : DeskStep d { d with store := (Vendors.disable env id d.store).2 }
  | elsewhere (d : Desk) (t : Store) (vendors : t.db.vendors = d.store.db.vendors) : DeskStep d { d with store := t }

def DeskReaches : Desk → Desk → Prop := ReflTransGen (DeskStep app)

end

/-- Two active vendors of one address are the same vendor. -/
def OneActive (db : Db) : Prop :=
  ∀ r ∈ db.vendors.rows, ∀ r' ∈ db.vendors.rows, r.disabledAt = none → r'.disabledAt = none →
    r.primaryEmail = r'.primaryEmail → r = r'

def NoneActive (email : Text) (db : Db) : Prop :=
  ∀ r ∈ db.vendors.rows, r.primaryEmail = email → r.disabledAt ≠ none

/-- No vendor becomes active. -/
def OnlyDisables (s t : Store) : Prop :=
  ∀ r ∈ t.db.vendors.rows, r.disabledAt = none → r ∈ s.db.vendors.rows

structure Desk.Sound (d : Desk) : Prop where
  one : OneActive d.store.db
  adding : ∀ env req, d.holder = some (.adding env req) → NoneActive req.vendorEmail d.store.db

section
variable {s t : Store}

theorem onlyDisables_of_same (h : t.db.vendors = s.db.vendors) : OnlyDisables s t := by
  intro r hr _
  exact h ▸ hr

theorem onlyDisables_disable (env : Env) (id : Uuid) (s : Store) : OnlyDisables s (Vendors.disable env id s).2 := by
  rcases disableVendor_cases env id s with ⟨-, hrun⟩ | ⟨-, e, hrun⟩
  · rw [hrun]
    intro r hr hactive
    rw [Table.update_rows] at hr
    obtain ⟨r₀, hr₀, rfl⟩ := List.mem_map.mp hr
    split_ifs at hactive ⊢
    · cases hactive
    · exact hr₀
  · rw [hrun]
    exact onlyDisables_of_same rfl

theorem OneActive.keeps (h : OneActive s.db) (hkeep : OnlyDisables s t) : OneActive t.db := by
  intro r hr r' hr' hactive hactive' hemail
  exact h r (hkeep r hr hactive) r' (hkeep r' hr' hactive') hactive hactive' hemail

theorem NoneActive.keeps {email : Text} (h : NoneActive email s.db) (hkeep : OnlyDisables s t) :
    NoneActive email t.db := by
  intro r hr hemail hactive
  exact h r (hkeep r hr hactive) hemail hactive

theorem Desk.Sound.keeps {d : Desk} (h : d.Sound) (hkeep : OnlyDisables d.store t) :
    Desk.Sound { d with store := t } :=
  ⟨h.one.keeps hkeep, fun env req hheld => (h.adding env req hheld).keeps hkeep⟩

theorem OneActive.add {db : Db} {row : VendorRow} (h : OneActive db) (hnone : NoneActive row.primaryEmail db)
    {vendors : Table VendorRow Bytes [VendorRow.id]} (hins : db.vendors.insert row = some vendors) :
    OneActive { db with vendors } := by
  intro r hr r' hr' hactive hactive' hemail
  rcases (Table.mem_of_insert hins).mp hr with hold | rfl
  · rcases (Table.mem_of_insert hins).mp hr' with hold' | rfl
    · exact h r hold r' hold' hactive hactive' hemail
    · exact absurd hactive (hnone r hold hemail)
  · rcases (Table.mem_of_insert hins).mp hr' with hold' | rfl
    · exact absurd hactive' (hnone r' hold' hemail.symm)
    · rfl

theorem OneActive.active {row : VendorRow} (h : OneActive s.db) (hrow : row ∈ s.db.vendors.rows)
    (hactive : row.disabledAt = none) : activeVendor s row.primaryEmail = some row := by
  refine Table.find_of_mem hrow (by simp [hactive]) ?_
  intro r hr hp
  simp only [Bool.and_eq_true, decide_eq_true_eq, Option.isNone_iff_eq_none] at hp
  exact h r hr row hrow hp.2 hactive hp.1

theorem noneActive_of_find {email : Text} (h : activeVendor s email = none) : NoneActive email s.db := by
  intro r hr hemail hactive
  have hno := Table.find_none.mp h r hr
  simp [hemail, hactive] at hno

end

section
variable {app : App}

theorem printing_vendors (app : App) (env : RequestEnv) (req : NewShareRequest) (s : Store) :
    (PrintStore.insert env.toEnv app.bcrypt app.kek req.printFilename req.printBytes req.createdBy
      req.cuiAttested s).2.db.vendors = s.db.vendors :=
  PrintStore.moves_insert sameVendors_frame (fun _ _ => rfl) (fun _ _ _ _ _ _ => rfl) _ _ _ _ s

theorem sharing_vendors (env : RequestEnv) (req : NewShareRequest) (printId vendorId : Uuid)
    (expiresAt : OffsetDateTime) (s : Store) :
    (Shares.create env.toEnv app.bcrypt printId vendorId expiresAt req.maxDownloads req.note req.createdBy
      s).2.db.vendors = s.db.vendors :=
  Storage.moves_createShare sameVendors_frame (fun _ _ _ _ _ _ => rfl) s

/-- What a creation does under the mutex, by the statement it is at. -/
theorem Holder.next_sound (h : Holder) {s : Store} (hsound : Desk.Sound ⟨s, some h⟩) : (h.next app s).Sound := by
  cases h with
  | looking env req =>
      rcases queryRow_cases env.toEnv .selectVendor
          (fun db => db.vendors.find fun r => r.primaryEmail = req.vendorEmail && r.disabledAt.isNone)
          rowToVendor s with
        ⟨-, hnone, hrun⟩ | ⟨row, v, -, -, -, hrun⟩ | ⟨e, hrun, -⟩
      · have hnext : Holder.next app (.looking env req) s = ⟨s, some (.adding env req)⟩ := by
          simp only [Holder.next, Vendors.findByEmail, hrun]
        rw [hnext]
        refine ⟨hsound.one, ?_⟩
        intro env' req' hheld
        cases hheld
        exact noneActive_of_find hnone
      · have hnext : Holder.next app (.looking env req) s = ⟨s, some (.printing env req v)⟩ := by
          simp only [Holder.next, Vendors.findByEmail, hrun]
        rw [hnext]
        exact ⟨hsound.one, by simp⟩
      · have hnext : Holder.next app (.looking env req) s = ⟨s, none⟩ := by
          simp only [Holder.next, Vendors.findByEmail, hrun]
        rw [hnext]
        exact ⟨hsound.one, by simp⟩
  | adding env req =>
      have hnone := hsound.adding env req rfl
      rcases createVendor_cases env req s with ⟨-, v, vendors, hins, -, -, -, hrun⟩ | ⟨-, e, hrun⟩
      · simp only [Holder.next, hrun]
        exact ⟨hsound.one.add hnone hins, by simp⟩
      · simp only [Holder.next, hrun]
        exact ⟨hsound.one, by simp⟩
  | printing env req vendor =>
      have hsame := printing_vendors app env req s
      rcases hrun : PrintStore.insert env.toEnv app.bcrypt app.kek req.printFilename req.printBytes req.createdBy
        req.cuiAttested s with ⟨_ | _ | _, t⟩ <;> rw [hrun] at hsame <;> simp only [Holder.next, hrun] <;>
        exact ⟨hsound.one.keeps (onlyDisables_of_same hsame), by simp⟩
  | sharing env req vendor print =>
      cases hexpiry : expiryOf env req with
      | none =>
          simp only [Holder.next, hexpiry]
          exact ⟨hsound.one, by simp⟩
      | some expiresAt =>
          simp only [Holder.next, hexpiry]
          exact ⟨hsound.one.keeps (onlyDisables_of_same (sharing_vendors env req _ _ expiresAt s)), by simp⟩

/-- The step lemma. -/
theorem Desk.Sound.step {d d' : Desk} (h : d.Sound) (hstep : DeskStep app d d') : d'.Sound := by
  cases hstep with
  | enter env req => exact ⟨h.one, by simp⟩
  | advance holder s => exact holder.next_sound h
  | leave => exact ⟨h.one, by simp⟩
  | disable _ env id => exact h.keeps (onlyDisables_disable env id d.store)
  | elsewhere _ t vendors => exact h.keeps (onlyDisables_of_same vendors)

theorem Desk.Sound.reaches {d d' : Desk} (h : d.Sound) (hrun : DeskReaches app d d') : d'.Sound := by
  induction hrun with
  | refl => exact h
  | tail _ hstep ih => exact ih.step hstep

theorem sound_start {s : Store} (hempty : s.db.vendors = .empty) : Desk.Sound ⟨s, none⟩ := by
  refine ⟨?_, by simp⟩
  intro r hr
  rw [hempty] at hr
  exact absurd hr List.not_mem_nil

theorem vendor_deskReaches (app : App) (env : RequestEnv) (req : NewShareRequest) (s : Store) :
    (∃ v t, findOrCreateVendor env req s = (.ok v, t) ∧
      DeskReaches app ⟨s, some (.looking env req)⟩ ⟨t, some (.printing env req v)⟩) ∨
    ∃ e t, findOrCreateVendor env req s = (.err e, t) ∧ DeskReaches app ⟨s, some (.looking env req)⟩ ⟨t, none⟩ := by
  have hlook : DeskReaches app ⟨s, some (.looking env req)⟩ (Holder.next app (.looking env req) s) :=
    .single (.advance _ s)
  rcases queryRow_cases env.toEnv .selectVendor
      (fun db => db.vendors.find fun r => r.primaryEmail = req.vendorEmail && r.disabledAt.isNone)
      rowToVendor s with
    ⟨-, -, hrun⟩ | ⟨row, v, -, -, -, hrun⟩ | ⟨e, hrun, -⟩
  · have hadd : DeskReaches app ⟨s, some (.looking env req)⟩ (Holder.next app (.adding env req) s) := by
      simp only [Holder.next, Vendors.findByEmail, hrun] at hlook
      exact hlook.tail (.advance _ s)
    rcases createVendor_cases env req s with ⟨-, v, vendors, -, -, -, -, hcreate⟩ | ⟨-, e, hcreate⟩
    · simp only [Holder.next, hcreate] at hadd
      exact .inl ⟨v, _, (bind_ok hrun _).trans hcreate, hadd⟩
    · simp only [Holder.next, hcreate] at hadd
      exact .inr ⟨e, s, (bind_ok hrun _).trans hcreate, hadd⟩
  · simp only [Holder.next, Vendors.findByEmail, hrun] at hlook
    exact .inl ⟨v, s, bind_ok hrun _, hlook⟩
  · simp only [Holder.next, Vendors.findByEmail, hrun] at hlook
    exact .inr ⟨e, s, bind_err hrun _, hlook⟩

theorem offerShare_store (env : RequestEnv) (req : NewShareRequest) (vendor : Vendor) (print : Print) (w : World) :
    Holder.next app (.sharing env req vendor print) w.store =
      ⟨(offerShare env app req vendor print w).2.store, none⟩ := by
  cases hexpiry : expiryOf env req with
  | none =>
      simp only [Holder.next, offerShare, hexpiry]
      rfl
  | some expiresAt =>
      have hsome : (orPanic (expiryOf env req) w : Outcome ServiceError _ × World) = (.ok expiresAt, w) :=
        orPanic_ok_iff.mpr ⟨hexpiry, rfl⟩
      simp only [Holder.next, hexpiry]
      rw [offerShare, bind_ok hsome]
      rcases onStore_bind_cases (Shares.create env.toEnv app.bcrypt print.id vendor.id expiresAt req.maxDownloads
        req.note req.createdBy) _ w with ⟨made, t, hrun, hrest⟩ | ⟨-, hstore⟩
      · rw [hrest, hrun]
        exact congrArg (Desk.mk · none)
          (moves_audited stays_frame ((onStore_frame stays_frame).pure _) { w with store := t }).symm
      · rw [hstore]

theorem printing_deskReaches (env : RequestEnv) (req : NewShareRequest) (vendor : Vendor) (w : World) :
    DeskReaches app ⟨w.store, some (.printing env req vendor)⟩
      ⟨((onStore (PrintStore.insert env.toEnv app.bcrypt app.kek req.printFilename req.printBytes req.createdBy
        req.cuiAttested) >>= fun print => offerShare env app req vendor print) w).2.store, none⟩ := by
  have hprint : DeskReaches app ⟨w.store, some (.printing env req vendor)⟩
      (Holder.next app (.printing env req vendor) w.store) := .single (.advance _ w.store)
  rcases onStore_bind_cases (PrintStore.insert env.toEnv app.bcrypt app.kek req.printFilename req.printBytes
      req.createdBy req.cuiAttested) (fun print => offerShare env app req vendor print) w with
    ⟨print, t, hrun, hrest⟩ | ⟨hno, hstore⟩
  · simp only [Holder.next, hrun] at hprint
    rw [hrest, ← offerShare_store env req vendor print { w with store := t }]
    exact hprint.tail (.advance _ t)
  · rw [hstore]
    rcases hrun : PrintStore.insert env.toEnv app.bcrypt app.kek req.printFilename req.printBytes req.createdBy
      req.cuiAttested w.store with ⟨print | e | _, t⟩
    · exact absurd (congrArg Prod.fst hrun) (hno print)
    · simp only [Holder.next, hrun] at hprint
      exact hprint
    · simp only [Holder.next, hrun] at hprint
      exact hprint

theorem storeShare_statements (env : RequestEnv) (app : App) (req : NewShareRequest) :
    storeShare env app req = spawnBlocking (withStore (onStore (findOrCreateVendor env req) >>= fun vendor =>
      onStore (PrintStore.insert env.toEnv app.bcrypt app.kek req.printFilename req.printBytes req.createdBy
        req.cuiAttested) >>= fun print => offerShare env app req vendor print)) := rfl

/-- A creation is such a run, from a free mutex to a free mutex. -/
theorem createShare_deskReaches (env : RequestEnv) (req : NewShareRequest) (w : World) :
    DeskReaches app ⟨w.store, none⟩ ⟨(createShare env app req w).2.store, none⟩ := by
  have henter : DeskReaches app ⟨w.store, none⟩ ⟨w.store, some (.looking env req)⟩ := .single (.enter env req)
  rw [(createShare_of_storeShare env app req w).1.1]
  cases hp : w.storePoisoned with
  | true =>
      rw [storeShare, withStore_poisoned _ hp]
      exact .refl
  | false =>
      rw [storeShare_statements, (withStore_free _ hp).1]
      rcases onStore_bind_cases (findOrCreateVendor env req) (fun vendor =>
          onStore (PrintStore.insert env.toEnv app.bcrypt app.kek req.printFilename req.printBytes req.createdBy
            req.cuiAttested) >>= fun print => offerShare env app req vendor print) w with
        ⟨vendor, t, hrun, hrest⟩ | ⟨hno, hstore⟩
      · rcases vendor_deskReaches app env req w.store with ⟨v, t', hv, hreach⟩ | ⟨e, t', hv, -⟩
        · obtain ⟨hout, rfl⟩ := Prod.mk.inj (hrun.symm.trans hv)
          cases hout
          have hall := (henter.trans hreach).trans (printing_deskReaches env req vendor { w with store := t })
          rw [← hrest] at hall
          exact hall
        · rw [hrun] at hv
          cases hv
      · rcases vendor_deskReaches app env req w.store with ⟨v, t', hv, -⟩ | ⟨e, t', hv, hreach⟩
        · exact absurd (congrArg Prod.fst hv) (hno v)
        · rw [hstore, hv]
          exact henter.trans hreach

/-- All vendors are as before, and what is new among the shares is the vendor's. -/
structure Attaches (row : VendorRow) (s t : Store) : Prop where
  vendors : t.db.vendors = s.db.vendors
  shares : ∀ share ∈ t.db.shares.rows, share ∈ s.db.shares.rows ∨ share.vendorId = row.id

theorem attaches_frame (row : VendorRow) : Frame (Attaches row) where
  refl _ := ⟨rfl, fun _ h => .inl h⟩
  trans h h' := by
    refine ⟨h'.vendors.trans h.vendors, fun share hshare => ?_⟩
    rcases h'.shares share hshare with hold | hnew
    · exact h.shares share hold
    · exact .inr hnew

/-- The vendor that a creation finds is the one active vendor of the address. -/
theorem OneActive.found {env : RequestEnv} {req : NewShareRequest} {s t : Store} {v : Vendor} {row : VendorRow}
    (h : OneActive s.db) (hrow : row ∈ s.db.vendors.rows) (hactive : row.disabledAt = none)
    (hemail : row.primaryEmail = req.vendorEmail) (hrun : findOrCreateVendor env req s = (.ok v, t)) :
    t = s ∧ v.id.val = row.id := by
  have hfind := h.active hrow hactive
  rw [hemail] at hfind
  rcases findOrCreateVendor_cases env req s with
    ⟨-, row', v', hrow', hv, hok⟩ | ⟨hadded, -⟩ | ⟨-, -, e, herr⟩
  · obtain rfl := Option.some.inj (hfind.symm.trans hrow')
    cases hrun.symm.trans hok
    exact ⟨rfl, (rowToVendor_ok hv).1⟩
  · cases hfind.symm.trans hadded.unknown
  · cases hrun.symm.trans herr

theorem createShare_attaches {req : NewShareRequest} {w : World} {row : VendorRow} (h : OneActive w.store.db)
    (hrow : row ∈ w.store.db.vendors.rows) (hactive : row.disabledAt = none)
    (hemail : row.primaryEmail = req.vendorEmail) (env : RequestEnv) :
    Attaches row w.store (createShare env app req w).2.store := by
  have F := attaches_frame row
  have FW := onStore_frame F
  rw [(createShare_of_storeShare env app req w).1.1]
  cases hp : w.storePoisoned with
  | true =>
      rw [storeShare, withStore_poisoned _ hp]
      exact F.refl _
  | false =>
      rw [storeShare_statements, (withStore_free _ hp).1]
      rcases onStore_bind_cases (findOrCreateVendor env req) (fun vendor =>
          onStore (PrintStore.insert env.toEnv app.bcrypt app.kek req.printFilename req.printBytes req.createdBy
            req.cuiAttested) >>= fun print => offerShare env app req vendor print) w with
        ⟨vendor, t, hrun, hrest⟩ | ⟨hno, hstore⟩
      · obtain ⟨rfl, hid⟩ := h.found hrow hactive hemail hrun
        rw [hrest]
        refine FW.bind (moves_onStore (PrintStore.moves_insert F (fun _ _ => ⟨rfl, fun _ h => .inl h⟩)
          (fun _ _ _ _ _ _ => ⟨rfl, fun _ h => .inl h⟩) _ _ _ _)) (fun print => FW.bind (FW.orPanic _) fun _ =>
          FW.bind (moves_onStore (moves_insertShare F ?_)) fun _ => moves_audited F (FW.pure _)) w
        intro s share n db _ _ hvendor hins
        obtain ⟨-, shares, hshares, rfl⟩ := insertShare_some hins
        refine ⟨rfl, fun share' hshare' => ?_⟩
        rcases (Table.mem_of_insert hshares).mp hshare' with hold | rfl
        · exact .inl hold
        · exact .inr (hvendor.trans hid)
      · rw [hstore]
        rcases findOrCreateVendor_cases env req w.store with
          ⟨-, _, v, -, -, hok⟩ | ⟨-, v, _, -, -, -, -, hok⟩ | ⟨-, -, e, herr⟩
        · exact absurd (congrArg Prod.fst hok) (hno v)
        · exact absurd (congrArg Prod.fst hok) (hno v)
        · rw [herr]
          exact F.refl _

theorem createShare_of_vendor {req : NewShareRequest} {w w' : World} {row : VendorRow} (h : OneActive w.store.db)
    (hrow : row ∈ w.store.db.vendors.rows) (hactive : row.disabledAt = none)
    (hemail : row.primaryEmail = req.vendorEmail) {env : RequestEnv} {created : ShareCreated}
    (hrun : createShare env app req w = (.ok created, w')) :
    ∃ share ∈ w'.store.db.shares.rows, share.id = created.shareId.val ∧ share.vendorId = row.id := by
  obtain ⟨vendor, print, expiresAt, share, secrets, s1, s2, s3, log, file, -, -, hvendor, -, -, hcreate, -, rfl,
    rfl⟩ := createShare_steps hrun
  obtain ⟨-, hid⟩ := h.found hrow hactive hemail hvendor
  obtain ⟨hshare, shares, hins, rfl⟩ := create_ok hcreate
  exact ⟨_, (Table.mem_of_insert hins).mpr (.inr rfl), congrArg Subtype.val hshare.symm, hid⟩

end
end FipsDropbox.Service
