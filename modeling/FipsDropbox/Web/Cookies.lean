import FipsDropbox.Web.Login

/-!
# The session cookie among others

A client sends its cookies in one header, `;` between them and blanks around them.
`cookie_value` finds the session cookie wherever it stands. Its slices are at byte
offsets that `find` returned.
-/
namespace FipsDropbox.Web
open Utf8 Crypto

/-- The loop of `cookie_value` with its slices; a cut inside a character panics. -/
def cookieSlices (name : Text) : List Text → Option (Option Text)
  | [] => some none
  | part :: parts =>
      match findChar '=' (trim part) with
      | some eq => do
          let k ← sliceTo (trim part) eq
          let v ← sliceFrom (trim part) eq
          if k = name then (sliceFrom v 1).map some else cookieSlices name parts
      | none => cookieSlices name parts

/-- `cookie_value` with its slices. -/
def cookieSliced (headers : HeaderMap) (name : Text) : Option (Option Text) :=
  match headers.getStr "cookie" with
  | some hdr => cookieSlices name (hdr.splitOn ';')
  | none => some none

theorem not_equals {k : Text} (h : '=' ∉ k) : ∀ c ∈ k, decide (c ≠ '=') = true := fun _ hc =>
  decide_eq_true fun he => h (he ▸ hc)

theorem takeWhile_equals {k : Text} (h : '=' ∉ k) (v : Text) : (k ++ '=' :: v).takeWhile (· ≠ '=') = k := by
  rw [List.takeWhile_append_of_pos (not_equals h), List.takeWhile_cons_of_neg (by decide), List.append_nil]

/-- The first `=` ends the name. -/
theorem span_equals {k : Text} (h : '=' ∉ k) (v : Text) :
    (k ++ '=' :: v).span (· ≠ '=') = (k, '=' :: v) := by
  rw [List.span_eq_takeWhile_dropWhile, takeWhile_equals h, List.dropWhile_append_of_pos (not_equals h),
    List.dropWhile_cons_of_neg (by decide)]

theorem span_plain {t : Text} (h : '=' ∉ t) : t.span (· ≠ '=') = (t, []) := by
  rw [List.span_eq_takeWhile_dropWhile, List.takeWhile_eq_self_iff.mpr (not_equals h),
    List.dropWhile_eq_nil_iff.mpr (not_equals h)]

/-- No slice is taken inside a character. -/
theorem cookieSlices_eq (name : Text) (parts : List Text) :
    cookieSlices name parts = some (cookieValueIn name parts) := by
  induction parts with
  | nil => rfl
  | cons part parts ih =>
      by_cases heq : '=' ∈ trim part
      · obtain ⟨k, v, hcut, hk⟩ := List.eq_append_cons_of_mem heq
        have hfind : findChar '=' (trim part) = some (encode k).length := by
          rw [findChar, if_pos heq, hcut, takeWhile_equals hk]
        have hone : sliceFrom ('=' :: v) 1 = some v := sliceFrom_append ['='] v
        rw [cookieSlices, hfind]
        dsimp only
        rw [hcut, sliceTo_append, sliceFrom_append, cookieValueIn, hcut, span_equals hk]
        simp only [Option.bind_eq_bind, Option.bind_some, hone, Option.map_some]
        split_ifs
        · rfl
        · exact ih
      · have hfind : findChar '=' (trim part) = none := if_neg heq
        rw [cookieSlices, hfind, cookieValueIn, span_plain heq]
        exact ih

theorem cookieSliced_eq (headers : HeaderMap) (name : Text) :
    cookieSliced headers name = some (cookieValue headers name) := by
  rw [cookieSliced, cookieValue]
  cases headers.getStr "cookie" with
  | none => rfl
  | some hdr => exact cookieSlices_eq name _

def isTokenChar (c : Char) : Bool :=
  ('A' ≤ c && c ≤ 'Z') || ('a' ≤ c && c ≤ 'z') || ('0' ≤ c && c ≤ '9') || "!#$%&'*+-.^_`|~".toList.contains c

def padded (before after : ℕ) (t : Text) : Text := List.replicate before ' ' ++ t ++ List.replicate after ' '

/-- A part of the header that is not the session cookie: another cookie, or a piece
without `=`, which may be empty. -/
inductive OtherPart : Text → Prop where
  | cookie (before after : ℕ) (name value : Text) (hne : name ≠ [])
      (hname : ∀ c ∈ name, isTokenChar c = true) (hother : name ≠ sessionCookie)
      (hvalue : ∀ c ∈ value, HeaderChar c ∧ c ≠ ';') : OtherPart (padded before after (name ++ '=' :: value))
  | bare (part : Text) (h : ∀ c ∈ part, HeaderChar c ∧ c ≠ ';' ∧ c ≠ '=') : OtherPart part

def IsUrlSafe (token : Text) : Prop := ∀ c ∈ token, ∃ n, c = base64Digit n

def sessionPart (before after : ℕ) (token : Text) : Text := padded before after (sessionCookie ++ '=' :: token)

def cookieHeader (parts : List Text) : Text := [';'].intercalate parts

def NameChar (c : Char) : Prop := 33 ≤ c.toNat ∧ c.toNat < 127 ∧ c ≠ '=' ∧ c ≠ ';'

theorem NameChar.visible {c : Char} (h : NameChar c) : isWhitespace c = false := by
  obtain ⟨hlo, hhi, -, -⟩ := h
  simp only [isWhitespace, Bool.or_eq_false_iff, Bool.and_eq_false_iff, decide_eq_false_iff_not]
  omega

theorem NameChar.header {c : Char} (h : NameChar c) : HeaderChar c := ⟨Nat.le_of_succ_le h.1, h.2.1⟩

theorem nameChar_of_range {c a b : Char} (h : a ≤ c ∧ c ≤ b) (ha : 33 ≤ a.toNat) (hb : b.toNat < 127)
    (hout : b.toNat < 59 ∨ 61 < a.toNat) : NameChar c := by
  have hlo : a.toNat ≤ c.toNat := h.1
  have hhi : c.toNat ≤ b.toNat := h.2
  refine ⟨by omega, by omega, ?_, ?_⟩
  · rintro rfl
    have heq : '='.toNat = 61 := rfl
    omega
  · rintro rfl
    have heq : ';'.toNat = 59 := rfl
    omega

theorem nameChar_of_literal {s : String}
    (h : s.toList.all (fun c => 33 ≤ c.toNat && c.toNat < 127 && c ≠ '=' && c ≠ ';') = true) :
    ∀ c ∈ s.toList, NameChar c := by
  intro c hc
  simpa [NameChar, and_assoc] using List.all_eq_true.mp h c hc

theorem tokenChar_nameChar {c : Char} (h : isTokenChar c = true) : NameChar c := by
  simp only [isTokenChar, Bool.or_eq_true, Bool.and_eq_true, decide_eq_true_eq, List.contains_iff_mem] at h
  rcases h with ((h | h) | h) | h
  · exact nameChar_of_range h (by decide) (by decide) (by decide)
  · exact nameChar_of_range h (by decide) (by decide) (by decide)
  · exact nameChar_of_range h (by decide) (by decide) (by decide)
  · exact nameChar_of_literal (by decide) c h

theorem base64Digit_nameChar (n : ℕ) : NameChar (base64Digit n) := nameChar_of_literal (by decide) _ (base64Digit_mem n)

theorem sessionCookie_nameChar : ∀ c ∈ sessionCookie, NameChar c := nameChar_of_literal (by decide)

theorem not_equals_mem {name : Text} (h : ∀ c ∈ name, NameChar c) : '=' ∉ name := fun hm => (h _ hm).2.2.1 rfl

theorem trim_cookie {name : Text} (hne : name ≠ []) (h : ∀ c ∈ name, NameChar c) (before after : ℕ)
    (value : Text) : ∃ v, trim (padded before after (name ++ '=' :: value)) = name ++ '=' :: v := by
  obtain ⟨a, p, rfl⟩ := List.exists_cons_of_ne_nil hne
  obtain ⟨v, hv⟩ := trim_through (h a List.mem_cons_self).visible (c := '=') (p := p) rfl
    (value ++ List.replicate after ' ')
  refine ⟨v, ?_⟩
  rw [padded, List.append_assoc, trim_blanks, ← hv, List.append_assoc]
  rfl

theorem mem_padded {before after : ℕ} {t : Text} {c : Char} (h : c ∈ padded before after t) : c = ' ' ∨ c ∈ t := by
  rcases List.mem_append.mp h with h | h
  · rcases List.mem_append.mp h with h | h
    · exact .inl (List.eq_of_mem_replicate h)
    · exact .inr h
  · exact .inl (List.eq_of_mem_replicate h)

theorem padded_cookie_chars {name value : Text} (hname : ∀ c ∈ name, NameChar c)
    (hvalue : ∀ c ∈ value, HeaderChar c ∧ c ≠ ';') {before after : ℕ} :
    ∀ c ∈ padded before after (name ++ '=' :: value), HeaderChar c ∧ c ≠ ';' := by
  intro c hc
  rcases mem_padded hc with rfl | hc
  · exact ⟨⟨by decide, by decide⟩, by decide⟩
  · rcases List.mem_append.mp hc with hc | hc
    · exact ⟨(hname c hc).header, (hname c hc).2.2.2⟩
    · rcases List.mem_cons.mp hc with rfl | hc
      · exact ⟨⟨by decide, by decide⟩, by decide⟩
      · exact hvalue c hc

theorem OtherPart.chars {part : Text} (h : OtherPart part) : ∀ c ∈ part, HeaderChar c ∧ c ≠ ';' := by
  cases h with
  | cookie before after name value hne hname hother hvalue =>
      exact padded_cookie_chars (fun c hc => tokenChar_nameChar (hname c hc)) hvalue
  | bare part h => exact fun c hc => ⟨(h c hc).1, (h c hc).2.1⟩

theorem sessionPart_chars {token : Text} (h : IsUrlSafe token) (before after : ℕ) :
    ∀ c ∈ sessionPart before after token, HeaderChar c ∧ c ≠ ';' := by
  apply padded_cookie_chars sessionCookie_nameChar
  intro c hc
  obtain ⟨n, rfl⟩ := h c hc
  exact ⟨(base64Digit_nameChar n).header, (base64Digit_nameChar n).2.2.2⟩

theorem OtherPart.skipped {part : Text} (h : OtherPart part) (parts : List Text) :
    cookieValueIn sessionCookie (part :: parts) = cookieValueIn sessionCookie parts := by
  cases h with
  | cookie before after name value hne hname hother hvalue =>
      have hchars : ∀ c ∈ name, NameChar c := fun c hc => tokenChar_nameChar (hname c hc)
      obtain ⟨v, hv⟩ := trim_cookie hne hchars before after value
      rw [cookieValueIn, hv, span_equals (not_equals_mem hchars)]
      exact if_neg hother
  | bare part h =>
      have hplain : '=' ∉ trim part := fun hm => (h _ (mem_of_mem_trim hm)).2.2 rfl
      rw [cookieValueIn, span_plain hplain]

theorem cookieValueIn_session {token : Text} (h : IsUrlSafe token) (before after : ℕ) (parts : List Text) :
    cookieValueIn sessionCookie (sessionPart before after token :: parts) = some token := by
  have hvisible : ∀ c ∈ sessionCookie ++ '=' :: token, isWhitespace c = false := by
    intro c hc
    rcases List.mem_append.mp hc with hc | hc
    · exact (sessionCookie_nameChar c hc).visible
    · rcases List.mem_cons.mp hc with rfl | hc
      · rfl
      · obtain ⟨n, rfl⟩ := h c hc
        exact (base64Digit_nameChar n).visible
  have hname : '=' ∉ sessionCookie := not_equals_mem sessionCookie_nameChar
  rw [sessionPart, cookieValueIn, padded, trim_padded hvisible, span_equals hname]
  exact if_pos rfl

theorem cookieValueIn_others {others : List Text} (h : ∀ p ∈ others, OtherPart p) (parts : List Text) :
    cookieValueIn sessionCookie (others ++ parts) = cookieValueIn sessionCookie parts := by
  induction others with
  | nil => rfl
  | cons part others ih =>
      rw [List.cons_append, (h part List.mem_cons_self).skipped]
      exact ih fun p hp => h p (List.mem_cons_of_mem _ hp)

theorem toStr_encode {t : Text} (h : ∀ c ∈ t, HeaderChar c) : toStr (encode t) = some t := by
  have hval (c : Char) (hc : c ∈ t) : (octet c.toNat).toNat = c.toNat :=
    octet_toNat ((h c hc).2.trans (by decide))
  rw [encode_ascii fun c hc => (h c hc).2.trans (by decide), toStr, if_pos]
  · rw [List.map_map]
    refine congrArg some ((List.map_congr_left fun c hc => ?_).trans (List.map_id t))
    rw [Function.comp_apply, hval c hc, Char.ofNat_toNat, id]
  · refine List.all_eq_true.mpr fun b hb => ?_
    obtain ⟨c, hc, rfl⟩ := List.mem_map.mp hb
    rw [hval c hc]
    simp only [Bool.or_eq_true, Bool.and_eq_true, decide_eq_true_eq]
    exact .inr (h c hc)

theorem cookieHeader_chars {parts : List Text} (h : ∀ p ∈ parts, ∀ c ∈ p, HeaderChar c ∧ c ≠ ';') :
    ∀ c ∈ cookieHeader parts, HeaderChar c := by
  induction parts with
  | nil =>
      intro c hc
      cases hc
  | cons p parts ih =>
      have hp : ∀ c ∈ p, HeaderChar c := fun c hc => (h p List.mem_cons_self c hc).1
      cases parts with
      | nil =>
          rw [cookieHeader, List.intercalate_singleton]
          exact hp
      | cons q parts =>
          intro c hc
          rw [cookieHeader, List.intercalate_cons_cons, List.append_assoc, List.mem_append,
            List.mem_append, List.mem_singleton] at hc
          rcases hc with hc | rfl | hc
          · exact hp c hc
          · exact ⟨by decide, by decide⟩
          · exact ih (fun r hr => h r (List.mem_cons_of_mem _ hr)) c hc

/-- The header that a map has under the name is the given text. -/
def HeaderMap.SendsCookies (headers : HeaderMap) (hdr : Text) : Prop :=
  headers.find? (fun h => h.1 = "cookie".toList) = some ("cookie".toList, encode hdr)

/-- What was joined is split into the same parts. -/
theorem cookieValue_parts {headers : HeaderMap} {parts : List Text}
    (hs : headers.SendsCookies (cookieHeader parts)) (hne : parts ≠ [])
    (h : ∀ p ∈ parts, ∀ c ∈ p, HeaderChar c ∧ c ≠ ';') (name : Text) :
    cookieValue headers name = cookieValueIn name parts := by
  have hget : headers.getStr "cookie" = some (cookieHeader parts) := by
    rw [HeaderMap.getStr, hs, Option.bind_some, toStr_encode (cookieHeader_chars h)]
  have hfree : ∀ p ∈ parts, ';' ∉ p := fun p hp hm => (h p hp _ hm).2 rfl
  rw [cookieValue, hget, Option.bind_some, cookieHeader, List.splitOn_intercalate ';' hfree hne]

theorem cookieValue_of_session {headers : HeaderMap} {others others' : List Text} {token : Text}
    {before after : ℕ} (h : ∀ p ∈ others ++ others', OtherPart p) (ht : IsUrlSafe token)
    (hs : headers.SendsCookies (cookieHeader (others ++ sessionPart before after token :: others'))) :
    cookieValue headers sessionCookie = some token := by
  have hchars : ∀ p ∈ others ++ sessionPart before after token :: others',
      ∀ c ∈ p, HeaderChar c ∧ c ≠ ';' := by
    intro p hp
    rcases List.mem_append.mp hp with hp | hp
    · exact (h p (List.mem_append_left _ hp)).chars
    · rcases List.mem_cons.mp hp with rfl | hp
      · exact sessionPart_chars ht before after
      · exact (h p (List.mem_append_right _ hp)).chars
  rw [cookieValue_parts hs (by simp) hchars,
    cookieValueIn_others fun p hp => h p (List.mem_append_left _ hp), cookieValueIn_session ht]

theorem cookieValue_of_others {headers : HeaderMap} {others : List Text} (h : ∀ p ∈ others, OtherPart p)
    (hs : headers.SendsCookies (cookieHeader others)) : cookieValue headers sessionCookie = none := by
  by_cases hne : others = []
  · subst hne
    have hget : headers.getStr "cookie" = some [] := by
      rw [HeaderMap.getStr, hs]
      rfl
    rw [cookieValue, hget]
    rfl
  · rw [cookieValue_parts hs hne fun p hp => (h p hp).chars, ← List.append_nil others,
      cookieValueIn_others h]
    rfl

/-- The session cookie comes back from among any others, a header without it gives
none, and whatever the header no slice panics. -/
theorem session_cookie_round_trip :
    (∀ (headers : HeaderMap) (others others' : List Text) (before after : ℕ) (token : Text),
      (∀ p ∈ others ++ others', OtherPart p) → IsUrlSafe token →
      headers.SendsCookies (cookieHeader (others ++ sessionPart before after token :: others')) →
      cookieSliced headers sessionCookie = some (some token)) ∧
    (∀ (headers : HeaderMap) (others : List Text), (∀ p ∈ others, OtherPart p) →
      headers.SendsCookies (cookieHeader others) → cookieSliced headers sessionCookie = some none) ∧
    ∀ (headers : HeaderMap) (name : Text), cookieSliced headers name = some (cookieValue headers name) := by
  refine ⟨fun headers others others' before after token h ht hs => ?_, fun headers others h hs => ?_,
    cookieSliced_eq⟩
  · rw [cookieSliced_eq, cookieValue_of_session h ht hs]
  · rw [cookieSliced_eq, cookieValue_of_others h hs]

/-- The tokens of sessions are of that alphabet. -/
theorem urlSafeBase64_isUrlSafe (bs : Bytes) : IsUrlSafe (urlSafeBase64 bs) := urlSafeBase64_digit bs

/-- A name that merely starts with the session's, a value with `=` in it, and an empty part. -/
theorem session_cookie_round_trip_among :
    cookieSliced [("cookie".toList, encode "fips_session2=x; fips_session=Zz-_ ; a=b=c;".toList)] sessionCookie =
      some (some "Zz-_".toList) := by
  have hvalue {s : String} (h : s.toList.all (fun c => 32 ≤ c.toNat && c.toNat < 127 && c ≠ ';') = true) :
      ∀ c ∈ s.toList, HeaderChar c ∧ c ≠ ';' := by
    intro c hc
    simpa [HeaderChar, and_assoc] using List.all_eq_true.mp h c hc
  have hlonger : OtherPart (padded 0 0 ("fips_session2".toList ++ '=' :: "x".toList)) :=
    .cookie 0 0 _ _ (by decide) (List.all_eq_true.mp (by decide)) (by decide) (hvalue (by decide))
  have hequals : OtherPart (padded 1 0 ("a".toList ++ '=' :: "b=c".toList)) :=
    .cookie 1 0 _ _ (by decide) (List.all_eq_true.mp (by decide)) (by decide) (hvalue (by decide))
  have hempty : OtherPart [] := .bare [] fun c hc => absurd hc List.not_mem_nil
  have htoken : IsUrlSafe "Zz-_".toList := urlSafeBase64_isUrlSafe [0x67, 0x3f, 0xbf]
  refine session_cookie_round_trip.1 _ [padded 0 0 ("fips_session2".toList ++ '=' :: "x".toList)]
    [padded 1 0 ("a".toList ++ '=' :: "b=c".toList), []] 1 1 "Zz-_".toList ?_ htoken rfl
  intro p hp
  rcases List.mem_cons.mp hp with rfl | hp
  · exact hlonger
  · rcases List.mem_cons.mp hp with rfl | hp
    · exact hequals
    · rw [List.mem_singleton.mp hp]
      exact hempty

end FipsDropbox.Web
