import FipsDropbox.Service.Delivery
import FipsDropbox.Web.Router

/-!
# The answer to a redemption

`redeem_post` names the file in a header. The name is cleaned of what would end the
quotes or the path, but a header value takes fewer characters than that leaves.
-/
namespace FipsDropbox.Web
open Utf8 Exec Crypto Storage Service

/-- The bytes of a header value: tab, and what is neither a control nor DEL. -/
def LegalValue (value : Bytes) : Prop := ∀ b ∈ value, b = 9 ∨ 32 ≤ b.toNat ∧ b.toNat ≠ 127

theorem LegalValue.no_break {value : Bytes} (h : LegalValue value) : 13 ∉ value ∧ 10 ∉ value ∧ 0 ∉ value := by
  refine ⟨fun hm => ?_, fun hm => ?_, fun hm => ?_⟩
  · exact absurd (h _ hm) (by decide)
  · exact absurd (h _ hm) (by decide)
  · exact absurd (h _ hm) (by decide)

theorem headerValue_some_iff {t : Text} {value : Bytes} :
    headerValue t = some value ↔ value = encode t ∧ LegalValue (encode t) := by
  unfold headerValue
  split_ifs with h
  · simp only [Option.some.injEq, eq_comm (a := encode t), iff_self_and]
    intro _ b hb
    simpa using List.all_eq_true.mp h b hb
  · simp only [false_iff, not_and]
    rintro - hlegal
    exact h (List.all_eq_true.mpr fun b hb => by simpa using hlegal b hb)

def isControl (c : Char) : Bool := (c.toNat < 32 && c ≠ '\t') || c.toNat = 127

theorem encodeChar_legal {c : Char} : LegalValue (encodeChar c) ↔ isControl c = false := by
  by_cases hlow : c.toNat < 0x80
  · have hval : (octet c.toNat).toNat = c.toNat := octet_toNat (by omega)
    have htab : octet c.toNat = 9 ↔ c = '\t' := by
      rw [← UInt8.toNat_inj, hval, ← Char.toNat_inj]
      rfl
    rw [encodeChar_low hlow]
    simp only [LegalValue, List.mem_singleton, forall_eq, hval, htab, isControl, Bool.or_eq_false_iff,
      Bool.and_eq_false_iff, decide_eq_false_iff_not]
    by_cases hc : c = '\t'
    · subst hc
      decide
    · simp [hc]
  · have hhigh := encodeChar_high (Nat.le_of_not_lt hlow)
    refine iff_of_true (fun b hb => .inr ?_) ?_
    · have hb := hhigh b hb
      exact ⟨by omega, by omega⟩
    · simp only [isControl, Bool.or_eq_false_iff, Bool.and_eq_false_iff, decide_eq_false_iff_not]
      omega

theorem encode_legal {t : Text} : LegalValue (encode t) ↔ ∀ c ∈ t, isControl c = false := by
  simp only [LegalValue, encode, List.mem_flatMap, forall_exists_index, and_imp, ← encodeChar_legal]
  exact ⟨fun h c hc b hb => h b c hc hb, fun h b c hc hb => h c hc b hb⟩

/-- A quoted string after its opening quote: its octets, and what follows it. -/
def readQuoted : Bytes → Option (Bytes × Bytes)
  | [] => none
  | [b] => if b = 0x22 then some ([], []) else none
  | b :: c :: r =>
      if b = 0x22 then some ([], c :: r)
      else if b = 0x5C then (readQuoted r).map fun q => (c :: q.1, q.2)
      else (readQuoted (c :: r)).map fun q => (b :: q.1, q.2)

def dispositionLead : Bytes := encode ("attachment; filename=".toList ++ [Json.quote])

/-- The file name of `attachment; filename="…"`. -/
def dispositionFilename (value : Bytes) : Option Text :=
  if dispositionLead.isPrefixOf value then
    match readQuoted (value.drop dispositionLead.length) with
    | some (name, []) => decode name
    | _ => none
  else none

theorem readQuoted_plain {bs : Bytes} (h : ∀ b ∈ bs, b ≠ 0x22 ∧ b ≠ 0x5C) :
    readQuoted (bs ++ [0x22]) = some (bs, []) := by
  induction bs with
  | nil => rfl
  | cons b bs ih =>
      obtain ⟨hquote, hback⟩ := h b List.mem_cons_self
      have hrest := ih fun c hc => h c (List.mem_cons_of_mem _ hc)
      obtain ⟨c, r, hcr⟩ : ∃ c r, bs ++ [0x22] = c :: r :=
        List.exists_cons_of_ne_nil (List.append_ne_nil_of_right_ne_nil _ (List.cons_ne_nil _ _))
      rw [hcr] at hrest
      rw [List.cons_append, hcr, readQuoted, if_neg hquote, if_neg hback, hrest]
      rfl

def isKept (c : Char) : Bool :=
  !(c = Json.quote || c = '\r' || c = '\n' || c.toNat = 0 || c = '/' || c = Json.backslash)

theorem sanitizeFilename_eq (name : Text) : sanitizeFilename name = (name.filter isKept).take 255 := rfl

theorem mem_sanitized {name : Text} {c : Char} (h : c ∈ sanitizeFilename name) : isKept c = true := by
  rw [sanitizeFilename_eq] at h
  exact (List.mem_filter.mp (List.mem_of_mem_take h)).2

theorem sanitized_octets (name : Text) : ∀ b ∈ encode (sanitizeFilename name), b ≠ 0x22 ∧ b ≠ 0x5C := by
  intro b hb
  obtain ⟨c, hc, hb⟩ := List.mem_flatMap.mp hb
  have hkept := mem_sanitized hc
  by_cases hlow : c.toNat < 0x80
  · rw [encodeChar_low hlow, List.mem_singleton] at hb
    subst hb
    have hval : (octet c.toNat).toNat = c.toNat := octet_toNat (by omega)
    have hne (d : Char) (hd : c ≠ d) (e : UInt8) (he : e.toNat = d.toNat) : octet c.toNat ≠ e := by
      intro heq
      rw [← UInt8.toNat_inj, hval, he, Char.toNat_inj] at heq
      exact hd heq
    simp only [isKept, Bool.not_eq_true', Bool.or_eq_false_iff, decide_eq_false_iff_not] at hkept
    obtain ⟨⟨⟨⟨⟨hquote, -⟩, -⟩, -⟩, -⟩, hback⟩ := hkept
    exact ⟨hne _ hquote _ rfl, hne _ hback _ rfl⟩
  · have hhigh := encodeChar_high (Nat.le_of_not_lt hlow) b hb
    refine ⟨?_, ?_⟩ <;> rintro rfl
    · exact absurd hhigh (by decide)
    · exact absurd hhigh (by decide)

theorem encode_quoted (lead name : Text) :
    encode (lead ++ Json.quote :: name ++ [Json.quote]) = encode (lead ++ [Json.quote]) ++ (encode name ++ [0x22]) := by
  have hquote : encodeChar Json.quote = [0x22] := rfl
  simp only [encode_append, encode_cons, encode_nil, hquote, List.append_assoc, List.append_nil]

theorem encode_attachment (filename : Text) :
    encode (attachment filename) = dispositionLead ++ (encode filename ++ [0x22]) := encode_quoted _ filename

theorem dispositionFilename_attachment (name : Text) :
    dispositionFilename (encode (attachment (sanitizeFilename name))) = some (sanitizeFilename name) := by
  rw [dispositionFilename, encode_attachment, if_pos (List.isPrefixOf_iff_prefix.mpr (List.prefix_append _ _)), List.drop_left,
    readQuoted_plain (sanitized_octets name)]
  exact decode_encode _

/-- Of the characters that the sanitiser keeps, the first 255 are no controls. -/
def Transmittable (name : Text) : Prop := ∀ c ∈ (name.filter isKept).take 255, isControl c = false

theorem quoted_legal {lead name : Text} (hlead : ∀ c ∈ lead, isControl c = false) :
    LegalValue (encode (lead ++ Json.quote :: name ++ [Json.quote])) ↔ ∀ c ∈ name, isControl c = false := by
  have hquote : isControl Json.quote = false := rfl
  rw [encode_legal]
  constructor
  · intro h c hc
    exact h c (by simp [hc])
  · intro h c hc
    simp only [List.mem_append, List.mem_cons, List.not_mem_nil, or_false] at hc
    rcases hc with (hc | rfl | hc) | rfl
    · exact hlead c hc
    · exact hquote
    · exact h c hc
    · exact hquote

theorem attachment_legal {name : Text} :
    LegalValue (encode (attachment (sanitizeFilename name))) ↔ Transmittable name := by
  have hlead : "attachment; filename=".toList.all (fun c => !isControl c) = true := by decide
  exact quoted_legal fun c hc => by simpa using List.all_eq_true.mp hlead c hc

/-- What a delivered download is: 200 with the content, and a legal value for a header
in which the sanitised name is quoted. -/
structure Delivered (r : Response) (resp : RedeemResponse) : Prop where
  status : r.status = .ok
  body : r.body = .octets resp.content
  disposition : ∃ value, ("content-disposition".toList, value) ∈ r.headers ∧ LegalValue value ∧
    (13 ∉ value ∧ 10 ∉ value ∧ 0 ∉ value) ∧ dispositionFilename value = some (sanitizeFilename resp.filename)

def deliver (resp : RedeemResponse) : Response :=
  .withHeaders .ok [("content-type", "application/octet-stream".toList),
    ("content-disposition", attachment (sanitizeFilename resp.filename))] (.octets resp.content)

theorem headerValue_octetStream :
    headerValue "application/octet-stream".toList = some (encode "application/octet-stream".toList) :=
  headerValue_some (literal_header (by decide))

theorem deliver_refused {resp : RedeemResponse} (h : ¬ Transmittable resp.filename) :
    deliver resp = .ofStatus .internalServerError := by
  have hnone : headerValue (attachment (sanitizeFilename resp.filename)) = none := by
    rw [Option.eq_none_iff_forall_ne_some]
    intro value hv
    obtain ⟨-, hlegal⟩ := headerValue_some_iff.mp hv
    exact h (attachment_legal.mp hlegal)
  simp only [deliver, Response.withHeaders, List.mapM_cons, headerValue_octetStream, hnone,
    Option.map_none, Option.map_some]
  rfl

theorem delivered_iff {resp : RedeemResponse} : Delivered (deliver resp) resp ↔ Transmittable resp.filename := by
  constructor
  · intro h
    by_contra hbad
    have hstatus := h.status
    rw [deliver_refused hbad] at hstatus
    cases hstatus
  · intro h
    have hlegal := attachment_legal.mpr h
    have hsome : headerValue (attachment (sanitizeFilename resp.filename)) =
        some (encode (attachment (sanitizeFilename resp.filename))) := headerValue_some_iff.mpr ⟨rfl, hlegal⟩
    have hrun : deliver resp = ⟨.ok, [("content-type".toList, encode "application/octet-stream".toList),
        ("content-disposition".toList, encode (attachment (sanitizeFilename resp.filename)))],
        .octets resp.content⟩ := by
      simp only [deliver, Response.withHeaders, List.mapM_cons, List.mapM_nil, headerValue_octetStream, hsome,
        Option.map_some]
      rfl
    rw [hrun]
    exact ⟨rfl, rfl, _, List.mem_cons_of_mem _ List.mem_cons_self, hlegal, hlegal.no_break,
      dispositionFilename_attachment resp.filename⟩

/-- The name that is stored for the file of the share with the token. -/
def StoredName (app : App) (s : Store) (token name : Text) : Prop :=
  ∃ share ∈ s.db.shares.rows, share.tokenHash = (secretHash app token).val ∧
    ∃ print ∈ s.db.prints.rows, print.id = share.printId ∧ print.filename = name

section
variable {env : RequestEnv} {app : App}

theorem redeemDeliver_name {req : RedeemRequest} {share : Share} {w w' : World} {resp : RedeemResponse}
    (h : redeemDeliver env app req share w = (.ok resp, w')) :
    ∃ row ∈ w.store.db.prints.rows, row.id = share.printId.val ∧ row.filename = resp.filename := by
  obtain ⟨found, w1, h1, k1⟩ := bind_ok_iff.mp h
  obtain ⟨s1, hfind, rfl⟩ := onStore_ok_iff.mp h1
  obtain ⟨print, w2, hsome, k2⟩ := bind_ok_iff.mp k1
  obtain ⟨rfl, rfl⟩ := orErr_ok_iff.mp hsome
  obtain ⟨-, ⟨row, hrow, hprint⟩, rfl⟩ := PrintStore.find_some_iff.mp hfind
  obtain ⟨content, w3, -, k3⟩ := bind_ok_iff.mp k2
  obtain ⟨-, rfl, -⟩ := withAudit_ok_iff.mp k3
  obtain ⟨hmem, hid⟩ := Table.find_some hrow
  refine ⟨row, hmem, by simpa using hid, ?_⟩
  exact (rowToPrint_filename hprint).symm

theorem redeemShare_name {req : RedeemRequest} {w w' : World} {resp : RedeemResponse}
    (h : redeemShare env app req w = (.ok resp, w')) : StoredName app w.store req.token resp.filename := by
  rcases redeemShare_cases env app req w with ⟨-, r, share, ht, -, hok⟩ | ⟨-, -, hno⟩
  · have hdeliver := (hok resp).mp (congrArg Prod.fst h)
    obtain ⟨row, hrow, hid, hname⟩ := redeemDeliver_name (Prod.ext hdeliver rfl)
    exact ⟨r, ht.row, ht.token, row, hrow, hid.trans (rowToShare_ok ht.decodes).2.1, hname⟩
  · exact absurd (congrArg Prod.fst h) (hno resp)

theorem StoredName.unique {s : Store} {token name name' : Text} (h : StoredName app s token name)
    (h' : StoredName app s token name') : name = name' := by
  obtain ⟨r, hr, ht, p, hp, hid, rfl⟩ := h
  obtain ⟨r', hr', ht', p', hp', hid', rfl⟩ := h'
  obtain rfl := share_of_token hr hr' (ht.trans ht'.symm)
  have hsame : p = p' := Table.eq_of_key (by simp : PrintRow.id ∈ _) hp hp' (hid.trans hid'.symm)
  rw [hsame]

end

theorem redeemPost_ok {env : RequestEnv} {site : Site} {token : Text} {headers : HeaderMap} {form : RedeemForm}
    {w w' : World} {resp : RedeemResponse}
    (h : redeemShare env site.toApp (redeemRequest token headers form) w = (.ok resp, w')) :
    redeemPost env site token headers form w = (.ok (deliver resp), w') := by
  have hattempt : (attempt (redeemShare env site.toApp (redeemRequest token headers form)) :
      Exec World StatusCode _) w = (.ok (.ok resp), w') := attempt_ok_iff.mpr (.inl ⟨resp, rfl, h⟩)
  rw [redeemPost, bind_ok hattempt]
  rfl

theorem respond_redeemPost {env : RequestEnv} {site : Site} {token : Text} {headers : HeaderMap} {form : RedeemForm}
    {w : World} {resp : RedeemResponse}
    (h : (redeemShare env site.toApp (redeemRequest token headers form) w).1 = .ok resp) :
    (respond env site (.redeemPost (.ok token) headers (.ok form)) w).1 = .ok (deliver resp) := by
  have hroute : route env site (.redeemPost (.ok token) headers (.ok form)) w =
      (.ok (deliver resp), (redeemShare env site.toApp (redeemRequest token headers form) w).2) :=
    adapt_ok_iff.mpr (redeemPost_ok (Prod.ext h rfl))
  rw [respond, bind_ok (attempt_ok_iff.mpr (.inl ⟨_, rfl, hroute⟩))]
  rfl

/-- A consumed download is delivered exactly when the stored name can be sent. -/
theorem redeemPost_delivers_iff {env : RequestEnv} {site : Site} {token : Text} {headers : HeaderMap}
    {form : RedeemForm} {w w' : World} {resp : RedeemResponse}
    (h : redeemShare env site.toApp (redeemRequest token headers form) w = (.ok resp, w')) :
    (∃ name, StoredName site.toApp w.store token name) ∧
      ∀ name, StoredName site.toApp w.store token name →
        ((∃ r, redeemPost env site token headers form w = (.ok r, w') ∧ Delivered r resp) ↔
          Transmittable name) := by
  refine ⟨⟨_, redeemShare_name h⟩, fun name hname => ?_⟩
  obtain rfl := (redeemShare_name h).unique hname
  rw [redeemPost_ok h, ← delivered_iff]
  constructor
  · rintro ⟨r, hr, hdelivered⟩
    cases hr
    exact hdelivered
  · intro hdelivered
    exact ⟨_, rfl, hdelivered⟩

theorem sampleName_transmittable : Transmittable sampleUpload.printFilename := by
  have hplain : ((sampleUpload.printFilename.filter isKept).take 255).all (fun c => !isControl c) = true := by decide
  intro c hc
  simpa using List.all_eq_true.mp hplain c hc

def controlUpload : NewShareRequest := { sampleUpload with printFilename := "bracket\x01.stl".toList }

def controlWorld : World := (createShare quietEnv sampleApp controlUpload sampleWorld).2

def sampleForm : RedeemForm := ⟨sampleCode⟩

theorem createShare_control :
    createShare quietEnv sampleApp controlUpload sampleWorld = (.ok sampleCreated, controlWorld) := by
  have h : (createShare quietEnv sampleApp controlUpload sampleWorld).1.value = some sampleCreated := by
    decide +kernel
  exact Prod.ext (Outcome.value_eq_some.mp h) rfl

theorem redeemRequest_control :
    redeemRequest sampleToken [] sampleForm =
      ⟨sampleToken, sampleCreated.accessCode, clientIp [], userAgent []⟩ := by
  have htrim : trim sampleForm.accessCode = sampleCreated.accessCode := by decide
  rw [redeemRequest, htrim]

theorem redeemShare_control : ∃ resp w, resp.filename = controlUpload.printFilename ∧
    redeemShare quietEnv sampleSite.toApp (redeemRequest sampleToken [] sampleForm) controlWorld = (.ok resp, w) ∧
    ∃ row ∈ w.store.db.shares.rows, row.downloadCount = 1 := by
  obtain ⟨vendorId, expiresAt, token, hexpiry, htoken, -, hoffered, hfree⟩ :=
    createShare_ok Bcrypt.reference_documented (by decide) createShare_control
  obtain rfl : sampleToken = token := shareUrl_injective htoken
  have hexp : expiryOf quietEnv controlUpload = some sampleExpiry := by decide
  obtain rfl : sampleExpiry = expiresAt := Option.some.inj (hexp.symm.trans hexpiry)
  have hquiet : quietEnv.Quiet := fun _ => rfl
  have hok := hoffered.redeems Audit.SerdeJson.reference_documented hquiet rfl hfree (by decide) (by decide)
    (clientIp []) (userAgent [])
  have hcalls : LooksUp quietEnv ∧ quietEnv.fails .hashCandidateCode = false ∧
      quietEnv.fails .updateDownloadCount = false := ⟨⟨rfl, rfl⟩, rfl, rfl⟩
  obtain ⟨share, ht, -⟩ := hoffered.takes hcalls (by decide) (by decide) (clientIp []) (userAgent [])
  rw [← redeemRequest_control] at hok ht
  have hsite : sampleSite.toApp = sampleApp := rfl
  rw [hsite]
  rcases redeemShare_cases quietEnv sampleApp (redeemRequest sampleToken [] sampleForm) controlWorld with
    ⟨-, r, _, ht', hstore, -⟩ | ⟨-, -, hno⟩
  · obtain rfl := share_of_token ht.row ht'.row (ht.token.trans ht'.token.symm)
    rcases hrun : redeemShare quietEnv sampleApp (redeemRequest sampleToken [] sampleForm) controlWorld with
      ⟨o, w⟩
    rw [hrun] at hok hstore
    dsimp only at hok hstore
    have hrow := Table.mem_update_of_true ShareRow.consumed ShareRow.consumed_keys ht.row ht.usable
    refine ⟨⟨controlUpload.printFilename, controlUpload.printBytes, Cng.sha256 sampleApp.bcrypt
      controlUpload.printBytes⟩, w, rfl, by rw [hok], ?_⟩
    rw [hstore]
    exact ⟨_, hrow, rfl⟩
  · exact absurd hok (hno _)

theorem controlUpload_not_transmittable : ¬ Transmittable controlUpload.printFilename := by
  intro h
  have hshort : (controlUpload.printFilename.filter isKept).length ≤ 255 := by decide
  rw [Transmittable, List.take_of_length_le hshort] at h
  have hcontrol := h '\x01' (by decide)
  cases hcontrol

theorem redeemPost_delivers_iff_control : ∃ resp w,
    (∃ name, StoredName sampleSite.toApp controlWorld.store sampleToken name) ∧
      ∀ name, StoredName sampleSite.toApp controlWorld.store sampleToken name →
        ((∃ r, redeemPost quietEnv sampleSite sampleToken [] sampleForm controlWorld = (.ok r, w) ∧
          Delivered r resp) ↔ Transmittable name) := by
  obtain ⟨resp, w, -, hresp, -⟩ := redeemShare_control
  exact ⟨resp, w, redeemPost_delivers_iff hresp⟩

/-- The share is made and redeemed, its slot is gone, and the answer is 500 without the file. -/
theorem controlUpload_lost :
    createShare quietEnv sampleApp controlUpload sampleWorld = (.ok sampleCreated, controlWorld) ∧
    ∃ resp w, redeemShare quietEnv sampleSite.toApp (redeemRequest sampleToken [] sampleForm) controlWorld =
        (.ok resp, w) ∧
      (∃ row ∈ w.store.db.shares.rows, row.downloadCount = 1) ∧
      redeemPost quietEnv sampleSite sampleToken [] sampleForm controlWorld =
        (.ok (.ofStatus .internalServerError), w) := by
  obtain ⟨resp, w, hname, hresp, hslot⟩ := redeemShare_control
  refine ⟨createShare_control, resp, w, hresp, hslot, ?_⟩
  rw [redeemPost_ok hresp, deliver_refused]
  rw [hname]
  exact controlUpload_not_transmittable

end FipsDropbox.Web
