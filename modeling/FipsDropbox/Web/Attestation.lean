import FipsDropbox.Web.Upload
import FipsDropbox.Lib.History

/-!
# The browser form and the API

Both handlers read a body part by part, and the last part of a name counts. They make the
same request of `create_share`, or both make none, unless the body is complete and its last
`cui_attested` part denies: the form takes that for an attestation.
-/
namespace FipsDropbox.Web
open Utf8 Exec Crypto Storage Service

def Field.named (s : String) (f : Field) : Bool := f.name.getD [] = s.toList

def Multipart.last (m : Multipart) (s : String) : Option Field := m.fields.reverse.find? (·.named s)

/-- The parts whose text is asked for. -/
def textNames : List String :=
  ["vendor_email", "vendor_phone", "vendor_display_name", "expires_in_hours", "max_downloads", "note"]

structure Field.Readable (f : Field) : Prop where
  bytes : f.named "file" → f.bytes ≠ none
  text : ∀ s ∈ textNames, f.named s → f.text ≠ none

/-- A body that a share can be made of, its attestation apart. -/
structure Multipart.Complete (U : CaseTables) (m : Multipart) : Prop where
  wellFormed : m.malformed = false
  readable : ∀ f ∈ m.fields, f.Readable
  file : ∃ f, m.last "file" = some f ∧ f.fileName.getD [] ≠ [] ∧ f.bytes.getD [] ≠ []
  vendorEmail : ∃ f t, m.last "vendor_email" = some f ∧ f.text = some t ∧ normalizeEmail U t ≠ []
  vendorDisplayName : ∃ f t, m.last "vendor_display_name" = some f ∧ f.text = some t ∧ trim t ≠ []

def Multipart.Affirmed (m : Multipart) : Prop := ∃ f, m.last "cui_attested" = some f ∧ apiAttests f = true

def Multipart.Denied (m : Multipart) : Prop := ∃ f, m.last "cui_attested" = some f ∧ apiAttests f = false

section
variable {ε ε' : Type} {attests attests' : Field → Bool} {fail : String → ε} {fail' : String → ε'}
  {d d' : Draft} {f : Field}

def Draft.attesting (d : Draft) (c : Bool) : Draft := { d with cuiAttested := c }

theorem Field.named_of_eq {s : String} (h : f.name.getD [] = s.toList) (s' : String) :
    f.named s' = decide (s = s') := by
  unfold Field.named
  rw [h]
  exact decide_eq_decide.mpr String.toList_inj

theorem Field.named_of_ne {s : String} (h : f.name.getD [] ≠ s.toList) : f.named s = false := decide_eq_false h

theorem Field.read_bind_ok {message : String} {k : Text → Draft} :
    (f.read fail message >>= fun t => pure (k t)) = .ok d' ↔ ∃ t, f.text = some t ∧ k t = d' := by
  unfold Field.read
  cases f.text with
  | none =>
      constructor
      · intro h
        cases h
      · rintro ⟨t, ht, -⟩
        cases ht
  | some t =>
      constructor
      · intro h
        exact ⟨t, rfl, Except.ok.inj h⟩
      · rintro ⟨t', ht, rfl⟩
        obtain rfl := Option.some.inj ht
        rfl

/-- A text part writes the entry it is named after. -/
def Draft.put (d : Draft) (s : String) (t : Text) : Draft :=
  { d with
    vendorEmail := if s = "vendor_email" then some t else d.vendorEmail
    vendorPhone := if s = "vendor_phone" then filled t else d.vendorPhone
    vendorDisplayName := if s = "vendor_display_name" then some t else d.vendorDisplayName
    expiresInHours := if s = "expires_in_hours" then (parseU32 t).getD 72 else d.expiresInHours
    maxDownloads := if s = "max_downloads" then (parseU32 t).getD 3 else d.maxDownloads
    note := if s = "note" then filled t else d.note }

/-- What a part does, by its name. -/
theorem readField_cases (f : Field) :
    (f.name.getD [] = "file".toList ∧ ∀ {ε : Type} (attests : Field → Bool) (fail : String → ε) (d : Draft),
      readField attests fail d f = f.bytes.elim (.error (fail "failed to read file"))
        fun bytes => .ok { d with filename := f.fileName, fileBytes := some bytes }) ∨
    (∃ s ∈ textNames, f.name.getD [] = s.toList ∧ ∃ message, ∀ {ε : Type} (attests : Field → Bool)
      (fail : String → ε) (d : Draft),
      readField attests fail d f = f.read fail message >>= fun t => pure (d.put s t)) ∨
    (f.name.getD [] = "cui_attested".toList ∧ ∀ {ε : Type} (attests : Field → Bool) (fail : String → ε) (d : Draft),
      readField attests fail d f = .ok { d with cuiAttested := attests f }) ∨
    ((∀ s ∈ "file" :: "cui_attested" :: textNames, f.named s = false) ∧
      ∀ {ε : Type} (attests : Field → Bool) (fail : String → ε) (d : Draft), readField attests fail d f = .ok d) := by
  unfold readField
  dsimp only
  by_cases h1 : f.name.getD [] = "file".toList
  · refine .inl ⟨h1, fun attests fail d => ?_⟩
    rw [if_pos h1]
    cases f.bytes <;> rfl
  by_cases h2 : f.name.getD [] = "vendor_email".toList
  · refine .inr (.inl ⟨_, by decide, h2, "bad vendor_email", fun attests fail d => ?_⟩)
    rw [if_neg h1, if_pos h2]
    rfl
  by_cases h3 : f.name.getD [] = "vendor_phone".toList
  · refine .inr (.inl ⟨_, by decide, h3, "bad vendor_phone", fun attests fail d => ?_⟩)
    rw [if_neg h1, if_neg h2, if_pos h3]
    rfl
  by_cases h4 : f.name.getD [] = "vendor_display_name".toList
  · refine .inr (.inl ⟨_, by decide, h4, "bad vendor_display_name", fun attests fail d => ?_⟩)
    rw [if_neg h1, if_neg h2, if_neg h3, if_pos h4]
    rfl
  by_cases h5 : f.name.getD [] = "expires_in_hours".toList
  · refine .inr (.inl ⟨_, by decide, h5, "bad expires_in_hours", fun attests fail d => ?_⟩)
    rw [if_neg h1, if_neg h2, if_neg h3, if_neg h4, if_pos h5]
    rfl
  by_cases h6 : f.name.getD [] = "max_downloads".toList
  · refine .inr (.inl ⟨_, by decide, h6, "bad max_downloads", fun attests fail d => ?_⟩)
    rw [if_neg h1, if_neg h2, if_neg h3, if_neg h4, if_neg h5, if_pos h6]
    rfl
  by_cases h7 : f.name.getD [] = "note".toList
  · refine .inr (.inl ⟨_, by decide, h7, "bad note", fun attests fail d => ?_⟩)
    rw [if_neg h1, if_neg h2, if_neg h3, if_neg h4, if_neg h5, if_neg h6, if_pos h7]
    rfl
  by_cases h8 : f.name.getD [] = "cui_attested".toList
  · refine .inr (.inr (.inl ⟨h8, fun attests fail d => ?_⟩))
    rw [if_neg h1, if_neg h2, if_neg h3, if_neg h4, if_neg h5, if_neg h6, if_neg h7, if_pos h8]
    rfl
  refine .inr (.inr (.inr ⟨?_, fun attests fail d => ?_⟩))
  · simp only [textNames, List.forall_mem_cons]
    exact ⟨Field.named_of_ne h1, Field.named_of_ne h8, Field.named_of_ne h2, Field.named_of_ne h3,
      Field.named_of_ne h4, Field.named_of_ne h5, Field.named_of_ne h6, Field.named_of_ne h7,
      fun _ h => absurd h List.not_mem_nil⟩
  · rw [if_neg h1, if_neg h2, if_neg h3, if_neg h4, if_neg h5, if_neg h6, if_neg h7, if_neg h8]
    rfl

theorem textNames_ne {s : String} (hs : s ∈ textNames) : s ≠ "file" ∧ s ≠ "cui_attested" := by
  revert s
  decide

theorem readField_writes (h : readField attests fail d f = .ok d') :
    d'.filename = (if f.named "file" then f.fileName else d.filename) ∧
    d'.fileBytes = (if f.named "file" then f.bytes else d.fileBytes) ∧
    d'.vendorEmail = (if f.named "vendor_email" then f.text else d.vendorEmail) ∧
    d'.vendorDisplayName = (if f.named "vendor_display_name" then f.text else d.vendorDisplayName) ∧
    d'.cuiAttested = (if f.named "cui_attested" then attests f else d.cuiAttested) := by
  rcases readField_cases f with ⟨hn, heq⟩ | ⟨s, hs, hn, message, heq⟩ | ⟨hn, heq⟩ | ⟨hn, heq⟩
  · rw [heq] at h
    cases hb : f.bytes with
    | none =>
        rw [hb] at h
        cases h
    | some bytes =>
        rw [hb] at h
        obtain rfl := Except.ok.inj h
        simp [Field.named_of_eq hn]
  · rw [heq] at h
    obtain ⟨t, ht, rfl⟩ := Field.read_bind_ok.mp h
    obtain ⟨hfile, hattested⟩ := textNames_ne hs
    simp [Field.named_of_eq hn, Draft.put, ht, hfile, hattested]
  · rw [heq] at h
    obtain rfl := Except.ok.inj h
    simp [Field.named_of_eq hn]
  · rw [heq] at h
    obtain rfl := Except.ok.inj h
    rw [hn "file" (by decide), hn "vendor_email" (by decide), hn "vendor_display_name" (by decide),
      hn "cui_attested" (by decide)]
    exact ⟨rfl, rfl, rfl, rfl, rfl⟩

theorem readField_twin (h : readField attests fail d f = .ok d') (attests' : Field → Bool)
    (fail' : String → ε') (c : Bool) :
    ∃ c', readField attests' fail' (d.attesting c) f = .ok (d'.attesting c') := by
  rcases readField_cases f with ⟨hn, heq⟩ | ⟨s, hs, hn, message, heq⟩ | ⟨hn, heq⟩ | ⟨hn, heq⟩
  · rw [heq] at h ⊢
    cases hb : f.bytes with
    | none =>
        rw [hb] at h
        cases h
    | some bytes =>
        rw [hb] at h
        obtain rfl := Except.ok.inj h
        exact ⟨c, rfl⟩
  · rw [heq] at h ⊢
    obtain ⟨t, ht, rfl⟩ := Field.read_bind_ok.mp h
    exact ⟨c, Field.read_bind_ok.mpr ⟨t, ht, rfl⟩⟩
  · rw [heq] at h ⊢
    obtain rfl := Except.ok.inj h
    exact ⟨attests' f, rfl⟩
  · rw [heq] at h ⊢
    obtain rfl := Except.ok.inj h
    exact ⟨c, rfl⟩

theorem Field.readable_text {s : String} (h : f.name.getD [] = s.toList) (hs : s ∈ textNames) :
    f.Readable ↔ ∃ t, f.text = some t := by
  rw [← Option.ne_none_iff_exists']
  constructor
  · intro hf
    refine hf.text s hs ?_
    simp [Field.named_of_eq h]
  · intro ht
    refine ⟨?_, fun _ _ _ => ht⟩
    simp [Field.named_of_eq h, (textNames_ne hs).1]

theorem Field.readable_file (h : f.name.getD [] = "file".toList) : f.Readable ↔ f.bytes ≠ none := by
  constructor
  · intro hf
    refine hf.bytes ?_
    simp [Field.named_of_eq h]
  · intro hb
    refine ⟨fun _ => hb, fun s hs hn => ?_⟩
    simp [Field.named_of_eq h, (textNames_ne hs).1.symm] at hn

theorem Field.readable_other (h : ∀ s ∈ "file" :: textNames, f.named s = false) : f.Readable := by
  refine ⟨?_, fun s hs hn => ?_⟩
  · simp [h "file" List.mem_cons_self]
  · simp [h s (List.mem_cons_of_mem _ hs)] at hn

theorem readField_ok_iff : (∃ d', readField attests fail d f = .ok d') ↔ f.Readable := by
  rcases readField_cases f with ⟨hn, heq⟩ | ⟨s, hs, hn, message, heq⟩ | ⟨hn, heq⟩ | ⟨hn, heq⟩
  · rw [Field.readable_file hn, heq]
    cases f.bytes with
    | none => simp
    | some bytes => simp
  · rw [Field.readable_text hn hs, heq]
    simp only [Field.read_bind_ok]
    constructor
    · rintro ⟨d', t, ht, -⟩
      exact ⟨t, ht⟩
    · rintro ⟨t, ht⟩
      exact ⟨d.put s t, t, ht, rfl⟩
  · rw [heq]
    refine iff_of_true ⟨_, rfl⟩ (Field.readable_other fun s hs => ?_)
    rw [Field.named_of_eq hn]
    revert s
    decide
  · rw [heq]
    refine iff_of_true ⟨_, rfl⟩ (Field.readable_other fun s hs => hn s ?_)
    revert s
    decide

theorem readFields_twin {fields : List Field} (h : fields.foldlM (readField attests fail) d = .ok d')
    (attests' : Field → Bool) (fail' : String → ε') (c : Bool) :
    ∃ c', fields.foldlM (readField attests' fail') (d.attesting c) = .ok (d'.attesting c') := by
  induction fields generalizing d c with
  | nil =>
      obtain rfl := Except.ok.inj h
      exact ⟨c, rfl⟩
  | cons f fields ih =>
      rw [List.foldlM_cons] at h
      cases hd : readField attests fail d f with
      | error e =>
          rw [hd] at h
          cases h
      | ok d₁ =>
          rw [hd] at h
          obtain ⟨c₁, hc₁⟩ := readField_twin hd attests' fail' c
          obtain ⟨c', hc'⟩ := ih h c₁
          refine ⟨c', ?_⟩
          rw [List.foldlM_cons, hc₁]
          exact hc'

theorem readFields_ok_iff {fields : List Field} :
    (∃ d', fields.foldlM (readField attests fail) d = .ok d') ↔ ∀ f ∈ fields, f.Readable := by
  induction fields generalizing d with
  | nil => exact iff_of_true ⟨d, rfl⟩ fun _ h => absurd h List.not_mem_nil
  | cons f fields ih =>
      have hfirst : (∃ d₁, readField attests fail d f = .ok d₁) ↔ f.Readable := readField_ok_iff
      rw [List.foldlM_cons, List.forall_mem_cons, ← hfirst]
      cases readField attests fail d f with
      | error e =>
          constructor
          · rintro ⟨d', h⟩
            cases h
          · rintro ⟨⟨d', h⟩, -⟩
            cases h
      | ok d₁ => exact ih.trans (and_iff_right ⟨d₁, rfl⟩).symm

theorem readMultipart_ok_iff {m : Multipart} :
    readMultipart attests fail m = .ok d ↔
      m.malformed = false ∧ m.fields.foldlM (readField attests fail) .initial = .ok d := by
  unfold readMultipart
  cases m.fields.foldlM (readField attests fail) .initial with
  | error e =>
      constructor
      · intro h
        cases h
      · rintro ⟨-, h⟩
        cases h
  | ok d₀ =>
      change (if m.malformed = true then Except.error (fail "malformed multipart") else Except.ok d₀) = .ok d ↔ _
      cases m.malformed <;> simp

/-- The last part of a name is the one that counts. -/
theorem readMultipart_writes {m : Multipart} (h : readMultipart attests fail m = .ok d) :
    d.filename = (m.last "file").bind Field.fileName ∧ d.fileBytes = (m.last "file").bind Field.bytes ∧
    d.vendorEmail = (m.last "vendor_email").bind Field.text ∧
    d.vendorDisplayName = (m.last "vendor_display_name").bind Field.text ∧
    d.cuiAttested = ((m.last "cui_attested").map attests).getD false := by
  have hfold := (readMultipart_ok_iff.mp h).2
  have hbind : ∀ {α : Type} (o : Option Field) (g : Field → Option α), (o.map g).getD none = o.bind g := by
    intro α o g
    cases o <;> rfl
  refine ⟨?_, ?_, ?_, ?_, ?_⟩
  · rw [Multipart.last, ← hbind]
    exact History.latest_of_foldlM hfold fun _ _ _ hs => (readField_writes hs).1
  · rw [Multipart.last, ← hbind]
    exact History.latest_of_foldlM hfold fun _ _ _ hs => (readField_writes hs).2.1
  · rw [Multipart.last, ← hbind]
    exact History.latest_of_foldlM hfold fun _ _ _ hs => (readField_writes hs).2.2.1
  · rw [Multipart.last, ← hbind]
    exact History.latest_of_foldlM hfold fun _ _ _ hs => (readField_writes hs).2.2.2.1
  · exact History.latest_of_foldlM hfold fun _ _ _ hs => (readField_writes hs).2.2.2.2

end

section
variable {ε : Type} {U : CaseTables} {user : User} {headers : HeaderMap} {d : Draft} {req : NewShareRequest}
  {m : Multipart}

/-- What a handler asks `create_share` for. -/
def requestOf (attests : Field → Bool) (fail : String → ε) (U : CaseTables) (user : User) (headers : HeaderMap)
    (m : Multipart) : Option NewShareRequest :=
  (readMultipart attests fail m).toOption.bind fun d => (d.complete U user headers).toOption

theorem orMissing_ok_iff {missing : Missing} {α : Type} {o : Option (List α)} {l : List α} :
    orMissing missing o = .ok l ↔ o = some l ∧ l ≠ [] := by
  cases o with
  | none => simp [orMissing]
  | some l' =>
      cases l' with
      | nil =>
          constructor
          · intro h
            cases h
          · rintro ⟨h, hne⟩
            exact absurd (Option.some.inj h).symm hne
      | cons a l' =>
          constructor
          · intro h
            obtain rfl := Except.ok.inj h
            exact ⟨rfl, List.cons_ne_nil a l'⟩
          · rintro ⟨h, -⟩
            obtain rfl := Option.some.inj h
            rfl

theorem complete_ok (h : d.complete U user headers = .ok req) :
    d.filename.getD [] ≠ [] ∧ d.fileBytes.getD [] ≠ [] ∧ (d.vendorEmail.map (normalizeEmail U)).getD [] ≠ [] ∧
    (d.vendorDisplayName.map trim).getD [] ≠ [] ∧ d.cuiAttested = true := by
  unfold Draft.complete at h
  obtain ⟨filename, hfile, h⟩ := of_except_bind h
  obtain ⟨bytes, hbytes, h⟩ := of_except_bind h
  obtain ⟨email, hemail, h⟩ := of_except_bind h
  obtain ⟨name, hname, h⟩ := of_except_bind h
  rw [orMissing_ok_iff] at hfile hbytes hemail hname
  refine ⟨?_, ?_, ?_, ?_, ?_⟩
  · simp [hfile]
  · simp [hbytes]
  · simp [hemail]
  · simp [hname]
  · cases hc : d.cuiAttested with
    | true => rfl
    | false =>
        rw [hc] at h
        cases h

theorem complete_of (user : User) (headers : HeaderMap) (hfile : d.filename.getD [] ≠ [])
    (hbytes : d.fileBytes.getD [] ≠ [])
    (hemail : (d.vendorEmail.map (normalizeEmail U)).getD [] ≠ [])
    (hname : (d.vendorDisplayName.map trim).getD [] ≠ []) :
    ∃ req, ∀ c, ((d.attesting c).complete U user headers).toOption = if c then some req else none := by
  have hpresent : ∀ {α : Type} {missing : Missing} {o : Option (List α)}, o.getD [] ≠ [] →
      orMissing missing o = .ok (o.getD []) := by
    intro α missing o ho
    refine orMissing_ok_iff.mpr ⟨?_, ho⟩
    cases o with
    | none => exact absurd rfl ho
    | some l => rfl
  have hattested : ∃ req, (d.attesting true).complete U user headers = .ok req := by
    unfold Draft.complete Draft.attesting
    simp only [hpresent hfile, hpresent hbytes, hpresent hemail, hpresent hname]
    exact ⟨_, rfl⟩
  obtain ⟨req, hreq⟩ := hattested
  refine ⟨req, fun c => ?_⟩
  cases c with
  | true =>
      rw [hreq]
      rfl
  | false =>
      unfold Draft.complete Draft.attesting
      simp only [hpresent hfile, hpresent hbytes, hpresent hemail, hpresent hname]
      rfl

end

section
variable {ε : Type} {attests : Field → Bool} {fail : String → ε} {U : CaseTables} {user : User}
  {headers : HeaderMap} {req : NewShareRequest} {m : Multipart}

theorem toOption_some {α : Type} {r : Except ε α} {a : α} : r.toOption = some a ↔ r = .ok a := by
  cases r <;> simp [Except.toOption]

theorem requestOf_some_iff : requestOf attests fail U user headers m = some req ↔
    ∃ d, readMultipart attests fail m = .ok d ∧ d.complete U user headers = .ok req := by
  simp only [requestOf, Option.bind_eq_some_iff, toOption_some]

theorem text_of_last {o : Option Field} {g : Text → Text} (h : ((o.bind Field.text).map g).getD [] ≠ []) :
    ∃ f t, o = some f ∧ f.text = some t ∧ g t ≠ [] := by
  cases o with
  | none => exact absurd rfl h
  | some f =>
      cases ht : f.text with
      | none => simp [ht] at h
      | some t =>
          refine ⟨f, t, rfl, ht, ?_⟩
          simpa [ht] using h

theorem Multipart.Complete.of_request (h : requestOf attests fail U user headers m = some req) :
    m.Complete U ∧ ((m.last "cui_attested").map attests).getD false = true := by
  obtain ⟨d, hd, hreq⟩ := requestOf_some_iff.mp h
  obtain ⟨hformed, hfold⟩ := readMultipart_ok_iff.mp hd
  obtain ⟨hfilename, hbytes, hemail, hname, hattested⟩ := readMultipart_writes hd
  obtain ⟨hfile, hcontent, hto, hdisplay, hc⟩ := complete_ok hreq
  rw [hfilename] at hfile
  rw [hbytes] at hcontent
  rw [hemail] at hto
  rw [hname] at hdisplay
  refine ⟨⟨hformed, readFields_ok_iff.mp ⟨d, hfold⟩, ?_, text_of_last hto, text_of_last hdisplay⟩,
    hattested.symm.trans hc⟩
  cases hf : m.last "file" with
  | none => simp [hf] at hfile
  | some f =>
      rw [hf] at hfile hcontent
      exact ⟨f, rfl, hfile, hcontent⟩

/-- Of a complete body both handlers make one request, or none where nothing attests. -/
theorem Multipart.Complete.request (h : m.Complete U) (user : User) (headers : HeaderMap) :
    ∃ req, ∀ {ε : Type} (attests : Field → Bool) (fail : String → ε),
      requestOf attests fail U user headers m =
        if ((m.last "cui_attested").map attests).getD false then some req else none := by
  have hfields : ∃ d, m.fields.foldlM (readField formAttests fun _ => ()) .initial = .ok d :=
    readFields_ok_iff.mpr h.readable
  obtain ⟨d, hfold⟩ := hfields
  have hd := readMultipart_ok_iff.mpr ⟨h.wellFormed, hfold⟩
  obtain ⟨hfilename, hbytes, hemail, hname, -⟩ := readMultipart_writes hd
  obtain ⟨f, hf, hfile, hcontent⟩ := h.file
  obtain ⟨fe, te, hfe, hte, hto⟩ := h.vendorEmail
  obtain ⟨fn, tn, hfn, htn, hdisplay⟩ := h.vendorDisplayName
  rw [hf] at hfilename hbytes
  rw [hfe, Option.bind_some, hte] at hemail
  rw [hfn, Option.bind_some, htn] at hname
  have hfile : d.filename.getD [] ≠ [] := hfilename ▸ hfile
  have hcontent : d.fileBytes.getD [] ≠ [] := hbytes ▸ hcontent
  have hto : (d.vendorEmail.map (normalizeEmail U)).getD [] ≠ [] := hemail ▸ hto
  have hdisplay : (d.vendorDisplayName.map trim).getD [] ≠ [] := hname ▸ hdisplay
  obtain ⟨req, hreq⟩ := complete_of user headers hfile hcontent hto hdisplay
  refine ⟨req, fun attests fail => ?_⟩
  obtain ⟨c, hc⟩ := readFields_twin hfold attests fail false
  have hrun : readMultipart attests fail m = .ok (d.attesting c) := readMultipart_ok_iff.mpr ⟨h.wellFormed, hc⟩
  rw [← (readMultipart_writes hrun).2.2.2.2, requestOf, hrun]
  exact hreq c

def formRequest (U : CaseTables) (user : User) (headers : HeaderMap) (m : Multipart) : Option NewShareRequest :=
  requestOf formAttests (fun _ => StatusCode.badRequest) U user headers m

def apiRequest (U : CaseTables) (user : User) (headers : HeaderMap) (m : Multipart) : Option NewShareRequest :=
  requestOf apiAttests (fun message => (⟨.badRequest, message⟩ : ApiError)) U user headers m

/-- The handler calls `create_share` with the request, or answers without a call. -/
def Submits {ε : Type} (env : RequestEnv) (site : Site) (handler : Exec World ε Response) :
    Option NewShareRequest → Prop
  | some req => ∃ (answer : ShareCreated → Response) (refuse : ServiceError → ε),
      handler = adapt refuse (createShare env site.toApp req) >>= fun created => pure (answer created)
  | none => (∃ answer, handler = pure answer) ∨ ∃ refusal, handler = throw refusal

theorem shareNewPost_submits (env : RequestEnv) (site : Site) (user : User) (headers : HeaderMap) (m : Multipart) :
    Submits env site (shareNewPost env site user headers m) (formRequest site.caseTables user headers m) := by
  unfold shareNewPost formRequest requestOf
  cases readMultipart formAttests (fun _ => StatusCode.badRequest) m with
  | error e => exact .inr ⟨e, rfl⟩
  | ok d =>
      have hread : (lift id (Except.ok d) : Exec World StatusCode Draft) = pure d := rfl
      rw [hread, pure_bind]
      change Submits env site _ (d.complete site.caseTables user headers).toOption
      cases d.complete site.caseTables user headers with
      | ok req => exact ⟨_, _, rfl⟩
      | error missing =>
          cases missing with
          | filename | attestation => exact .inl ⟨_, rfl⟩
          | fileBytes | vendorEmail | vendorDisplayName => exact .inr ⟨_, rfl⟩

theorem apiSharesPost_submits (env : RequestEnv) (site : Site) (caller : ApiCaller) (headers : HeaderMap)
    (m : Multipart) :
    Submits env site (apiSharesPost env site caller headers m) (apiRequest site.caseTables caller.user headers m) := by
  unfold apiSharesPost apiRequest requestOf
  cases readMultipart apiAttests (fun message => (⟨.badRequest, message⟩ : ApiError)) m with
  | error e => exact .inr ⟨e, rfl⟩
  | ok d =>
      change Submits env site (lift apiRefusal (d.complete site.caseTables caller.user headers) >>= _)
        (d.complete site.caseTables caller.user headers).toOption
      cases d.complete site.caseTables caller.user headers with
      | ok req => exact ⟨_, _, rfl⟩
      | error missing => exact .inr ⟨apiRefusal missing, rfl⟩

/-- One request or none from both handlers, and none that the body does not affirm. -/
structure Agree (U : CaseTables) (user : User) (headers : HeaderMap) (m : Multipart) : Prop where
  same : formRequest U user headers m = apiRequest U user headers m
  affirmed : ∀ req, formRequest U user headers m = some req ∨ apiRequest U user headers m = some req → m.Affirmed

theorem agree_of_none (h : ∀ {ε : Type} (attests : Field → Bool) (fail : String → ε),
    requestOf attests fail U user headers m = none) : Agree U user headers m := by
  refine ⟨(h _ _).trans (h _ _).symm, ?_⟩
  rintro req (hreq | hreq)
  · cases (h _ _).symm.trans hreq
  · cases (h _ _).symm.trans hreq

theorem agree_iff : Agree U user headers m ↔ ¬ (m.Complete U ∧ m.Denied) := by
  constructor
  · rintro h ⟨hcomplete, f, hf, hdenied⟩
    obtain ⟨req, hreq⟩ := hcomplete.request user headers
    have hform : formRequest U user headers m = some req := by
      rw [formRequest, hreq, hf]
      rfl
    obtain ⟨f', hf', haffirmed⟩ := h.affirmed req (.inl hform)
    obtain rfl := Option.some.inj (hf.symm.trans hf')
    rw [hdenied] at haffirmed
    cases haffirmed
  · intro h
    by_cases hcomplete : m.Complete U
    · obtain ⟨req, hreq⟩ := hcomplete.request user headers
      cases hf : m.last "cui_attested" with
      | none =>
          refine agree_of_none fun attests fail => ?_
          rw [hreq, hf]
          rfl
      | some f =>
          have haffirmed : apiAttests f = true := by
            by_contra hno
            exact h ⟨hcomplete, f, hf, Bool.eq_false_iff.mpr hno⟩
          refine ⟨?_, fun _ _ => ⟨f, hf, haffirmed⟩⟩
          rw [formRequest, apiRequest, hreq, hreq, hf, Option.map_some, Option.map_some, haffirmed]
          rfl
    · refine agree_of_none fun attests fail => ?_
      by_contra hsome
      obtain ⟨req, hreq⟩ := Option.ne_none_iff_exists'.mp hsome
      exact hcomplete (Multipart.Complete.of_request hreq).1

/-- The two handlers agree unless the body is complete and its last `cui_attested` part denies. -/
theorem handlers_agree_iff (env : RequestEnv) (site : Site) (caller : ApiCaller) (headers : HeaderMap)
    (m : Multipart) :
    Submits env site (shareNewPost env site caller.user headers m)
      (formRequest site.caseTables caller.user headers m) ∧
    Submits env site (apiSharesPost env site caller headers m)
      (apiRequest site.caseTables caller.user headers m) ∧
    (Agree site.caseTables caller.user headers m ↔ ¬ (m.Complete site.caseTables ∧ m.Denied)) :=
  ⟨shareNewPost_submits env site caller.user headers m, apiSharesPost_submits env site caller headers m, agree_iff⟩

end

def formField (name value : String) : Field where
  name := some name.toList
  fileName := none
  bytes := some (encode value.toList)
  text := some value.toList

def deniedBody : Multipart where
  fields := [
    { formField "file" "solid bracket" with fileName := some "bracket.stl".toList },
    formField "vendor_email" "vendor@example.com",
    formField "vendor_display_name" "Vendor",
    formField "cui_attested" "1",
    formField "cui_attested" "no"]
  malformed := false

def sampleCallerId : Uuid := ⟨List.replicate 16 11, rfl⟩

def sampleCaller : ApiCaller where
  user := {
    id := sampleCallerId
    email := "sender@example.com".toList
    role := .admin
    createdAt := .unixEpoch
    disabledAt := none
    totpSecretWrapped := none
    passwordHash := []
    passwordSalt := []
    passwordIters := 600000 }
  token := {
    id := ⟨List.replicate 16 12, rfl⟩
    userId := sampleCallerId
    label := "tray".toList
    tokenHash := ⟨List.replicate 32 13, rfl⟩
    createdAt := .unixEpoch
    lastSeenAt := none
    revokedAt := none }

/-- The form makes a share whose attestation the body denies; the API refuses. -/
theorem denied_body_accepted :
    (∃ req, formRequest sampleSite.caseTables sampleCaller.user [] deniedBody = some req ∧ req.cuiAttested = true) ∧
    apiRequest sampleSite.caseTables sampleCaller.user [] deniedBody = none ∧ ¬ deniedBody.Affirmed ∧
    ¬ Agree sampleSite.caseTables sampleCaller.user [] deniedBody := by
  have hlast : deniedBody.last "cui_attested" = some (formField "cui_attested" "no") := rfl
  have hform : ∃ req, formRequest sampleSite.caseTables sampleCaller.user [] deniedBody = some req ∧
      req.cuiAttested = true := ⟨_, rfl, rfl⟩
  have hdenied : ¬ deniedBody.Affirmed := by
    rintro ⟨f, hf, haffirmed⟩
    obtain rfl := Option.some.inj (hlast.symm.trans hf)
    revert haffirmed
    decide
  refine ⟨hform, rfl, hdenied, fun h => ?_⟩
  obtain ⟨req, hreq, -⟩ := hform
  exact hdenied (h.affirmed req (.inl hreq))

end FipsDropbox.Web
