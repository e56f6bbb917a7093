import FipsDropbox.Web.Attestation
import FipsDropbox.Service.VendorChoice

/-!
# Vendors under both handlers

Both handlers write an address in one way before they ask for a share, so an address that
has an active vendor keeps it, whichever handler the next share comes from.
-/
namespace FipsDropbox.Web
open Utf8 Exec Crypto Storage Service

section
variable {ε : Type} {attests : Field → Bool} {fail : String → ε} {U : CaseTables} {user : User}
  {headers : HeaderMap} {d : Draft} {req : NewShareRequest} {m : Multipart}

theorem complete_email (h : d.complete U user headers = .ok req) :
    d.vendorEmail.map (normalizeEmail U) = some req.vendorEmail := by
  unfold Draft.complete at h
  obtain ⟨filename, -, h⟩ := of_except_bind h
  obtain ⟨bytes, -, h⟩ := of_except_bind h
  obtain ⟨email, hemail, h⟩ := of_except_bind h
  obtain ⟨name, -, h⟩ := of_except_bind h
  cases hc : d.cuiAttested with
  | false =>
      rw [hc] at h
      cases h
  | true =>
      rw [hc] at h
      obtain rfl := Except.ok.inj h
      exact (orMissing_ok_iff.mp hemail).1

/-- The address of a request is the last one of the body, written in the one way. -/
theorem request_email (h : requestOf attests fail U user headers m = some req) :
    ∃ f t, m.last "vendor_email" = some f ∧ f.text = some t ∧ req.vendorEmail = normalizeEmail U t := by
  obtain ⟨d, hd, hreq⟩ := requestOf_some_iff.mp h
  have hemail := complete_email hreq
  rw [(readMultipart_writes hd).2.2.1] at hemail
  obtain ⟨t, ht, hnormal⟩ := Option.map_eq_some_iff.mp hemail
  obtain ⟨f, hf, htext⟩ := Option.bind_eq_some_iff.mp ht
  exact ⟨f, t, hf, htext, hnormal.symm⟩

end

section
variable {ε : Type} {env : RequestEnv} {site : Site} {handler : Exec World ε Response}
  {asked : Option NewShareRequest}

/-- On the store a handler is the creation it calls. -/
theorem Submits.keeps (h : Submits env site handler asked) {R : Store → Store → Prop} {w : World}
    (hrefl : R w.store w.store)
    (hcreate : ∀ req, asked = some req → R w.store (createShare env site.toApp req w).2.store) :
    R w.store (handler w).2.store := by
  cases asked with
  | none =>
      rcases h with ⟨answer, rfl⟩ | ⟨refusal, rfl⟩
      · exact hrefl
      · exact hrefl
  | some req =>
      obtain ⟨answer, refuse, rfl⟩ := h
      have hstate : ((adapt refuse (createShare env site.toApp req) >>= fun created => pure (answer created)) w).2 =
          (createShare env site.toApp req w).2 := by
        rw [map_state, adapt_state]
      rw [hstate]
      exact hcreate req rfl

theorem Submits.deskReaches (h : Submits env site handler asked) (w : World) :
    DeskReaches site.toApp ⟨w.store, none⟩ ⟨(handler w).2.store, none⟩ :=
  h.keeps (R := fun s t => DeskReaches site.toApp ⟨s, none⟩ ⟨t, none⟩) .refl fun req _ =>
    createShare_deskReaches env req w

end

/-- The body's address is the vendor's, as the handlers write it. -/
def Multipart.Addresses (U : CaseTables) (m : Multipart) (row : VendorRow) : Prop :=
  ∃ f t, m.last "vendor_email" = some f ∧ f.text = some t ∧ normalizeEmail U t = row.primaryEmail

section
variable {site : Site} {s : Store} {row : VendorRow}

/-- The lookup has one answer. -/
theorem findByEmail_active (h : OneActive s.db) (hrow : row ∈ s.db.vendors.rows) (hactive : row.disabledAt = none)
    {env : Env} {found : Option Vendor} {t : Store}
    (hrun : Vendors.findByEmail env row.primaryEmail s = (.ok found, t)) :
    ∃ v, found = some v ∧ rowToVendor row = .ok v := by
  have hfind := h.active hrow hactive
  rcases queryRow_cases env .selectVendor
      (fun db => db.vendors.find fun r => r.primaryEmail = row.primaryEmail && r.disabledAt.isNone) rowToVendor s with
    ⟨-, hnone, -⟩ | ⟨row', v, -, hrow', hv, hok⟩ | ⟨e, herr, -⟩
  · cases hfind.symm.trans hnone
  · obtain rfl := Option.some.inj (hfind.symm.trans hrow')
    cases hrun.symm.trans hok
    exact ⟨v, rfl, hv⟩
  · cases hrun.symm.trans herr

theorem Submits.attaches {ε : Type} {env : RequestEnv} {handler : Exec World ε Response} {attests : Field → Bool}
    {ε' : Type} {fail : String → ε'} {user : User} {headers : HeaderMap} {m : Multipart} {w : World}
    (h : Submits env site handler (requestOf attests fail site.caseTables user headers m))
    (hone : OneActive w.store.db) (hrow : row ∈ w.store.db.vendors.rows) (hactive : row.disabledAt = none)
    (haddress : m.Addresses site.caseTables row) : Attaches row w.store (handler w).2.store := by
  refine h.keeps ((attaches_frame row).refl _) fun req hreq => ?_
  obtain ⟨f, t, hf, ht, hemail⟩ := haddress
  obtain ⟨f', t', hf', ht', hreqEmail⟩ := request_email hreq
  obtain rfl := Option.some.inj (hf.symm.trans hf')
  obtain rfl := Option.some.inj (ht.symm.trans ht')
  exact createShare_attaches hone hrow hactive (hemail.symm.trans hreqEmail.symm) env

/-- In every state that creations and disablings reach from an empty table of vendors, those
of the two handlers among them, an address has at most one active vendor, the lookup has
one answer, and what a creation makes for the address is that vendor's and leaves the
vendors as they are. -/
theorem one_active_vendor {s₀ : Store} {holder : Option Holder} (hempty : s₀.db.vendors = .empty)
    (h : DeskReaches site.toApp ⟨s₀, none⟩ ⟨s, holder⟩) :
    OneActive s.db ∧
    (∀ (env : RequestEnv) (caller : ApiCaller) (headers : HeaderMap) (m : Multipart) (w : World), w.store = s →
      DeskReaches site.toApp ⟨s, none⟩ ⟨(shareNewPost env site caller.user headers m w).2.store, none⟩ ∧
      DeskReaches site.toApp ⟨s, none⟩ ⟨(apiSharesPost env site caller headers m w).2.store, none⟩) ∧
    (∀ row ∈ s.db.vendors.rows, row.disabledAt = none → ∀ env found t,
      Vendors.findByEmail env row.primaryEmail s = (.ok found, t) →
        ∃ v, found = some v ∧ rowToVendor row = .ok v) ∧
    ∀ row ∈ s.db.vendors.rows, row.disabledAt = none → ∀ (env : RequestEnv) (w : World), w.store = s →
      (∀ req : NewShareRequest, req.vendorEmail = row.primaryEmail →
        Attaches row s (createShare env site.toApp req w).2.store ∧
        ∀ created w', createShare env site.toApp req w = (.ok created, w') →
          ∃ share ∈ w'.store.db.shares.rows, share.id = created.shareId.val ∧ share.vendorId = row.id) ∧
      ∀ (caller : ApiCaller) (headers : HeaderMap) (m : Multipart), m.Addresses site.caseTables row →
        Attaches row s (shareNewPost env site caller.user headers m w).2.store ∧
        Attaches row s (apiSharesPost env site caller headers m w).2.store := by
  have hone : OneActive s.db := ((sound_start hempty).reaches h).one
  refine ⟨hone, ?_, fun row hrow hactive env found t hrun => findByEmail_active hone hrow hactive hrun, ?_⟩
  · rintro env caller headers m w rfl
    exact ⟨(shareNewPost_submits env site caller.user headers m).deskReaches w,
      (apiSharesPost_submits env site caller headers m).deskReaches w⟩
  rintro row hrow hactive env w rfl
  refine ⟨fun req hemail => ⟨createShare_attaches hone hrow hactive hemail.symm env, fun created w' hrun =>
    createShare_of_vendor hone hrow hactive hemail.symm hrun⟩, fun caller headers m haddress => ⟨?_, ?_⟩⟩
  · exact (shareNewPost_submits env site caller.user headers m).attaches hone hrow hactive haddress
  · exact (apiSharesPost_submits env site caller headers m).attaches hone hrow hactive haddress

end

theorem one_active_vendor_sample : ∃ row ∈ sharedWorld.store.db.vendors.rows,
    row.disabledAt = none ∧ row.primaryEmail = sampleUpload.vendorEmail ∧
    Attaches row sharedWorld.store (createShare quietEnv sampleApp sampleUpload sharedWorld).2.store := by
  have hrows : sharedWorld.store.db.vendors.rows.map (fun v => (v.disabledAt, v.primaryEmail)) =
      [(none, sampleUpload.vendorEmail)] := by
    decide +kernel
  obtain ⟨row, hrow, hpair⟩ := List.mem_map.mp (hrows ▸ List.mem_singleton_self _)
  obtain ⟨hactive, hemail⟩ := Prod.mk.inj hpair
  have hreach : DeskReaches sampleSite.toApp ⟨sampleWorld.store, none⟩ ⟨sharedWorld.store, none⟩ :=
    createShare_deskReaches quietEnv sampleUpload sampleWorld
  have hempty : sampleWorld.store.db.vendors = .empty := rfl
  have hall := (one_active_vendor hempty hreach).2.2.2 row hrow hactive quietEnv sharedWorld rfl
  exact ⟨row, hrow, hactive, hemail, (hall.1 sampleUpload hemail.symm).1⟩

end FipsDropbox.Web
