import FipsDropbox.Lib.Percent
import FipsDropbox.Web.Admin

/-!
# The link to the export

The audit page links to the export under the filter that it shows. `urlencode` writes
a character as its code point in hexadecimal; a query is read as UTF-8 octets. The two
agree on ASCII and nowhere else.
-/
namespace FipsDropbox.Web
open Utf8 Exec Percent Service

def upperDigit (d : ℕ) : Char := Char.ofNat (if d < 10 then 48 + d else 55 + d)

theorem upperDigit_facts : ∀ d < 16, hexValue (octet (upperDigit d).toNat) = some d ∧
    (upperDigit d).toNat < 0x80 ∧ isUnreserved (upperDigit d) = true := by decide

theorem upperHex_small {n : ℕ} (h : n < 256) : upperHex n = [upperDigit (n / 16), upperDigit (n % 16)] := by
  by_cases hlow : n < 16
  · have hdiv : n / 16 = 0 := Nat.div_eq_of_lt hlow
    rw [hdiv, Nat.mod_eq_of_lt hlow]
    by_cases hz : n = 0
    · subst hz
      rfl
    · rw [upperHex, Nat.digits_of_lt 16 n hz hlow]
      rfl
  · have hq : n / 16 < 16 := by omega
    have hq0 : n / 16 ≠ 0 := by omega
    have hdigits : Nat.digits 16 n = [n % 16, n / 16] := by
      rw [Nat.digits_def' (by omega) (by omega), Nat.digits_of_lt 16 _ hq0 hq]
    rw [upperHex, hdigits]
    rfl

theorem upperHex_large {n : ℕ} (h : 256 ≤ n) : ∃ (x y z : ℕ) (ds : List ℕ), x < 16 ∧ y < 16 ∧ z < 16 ∧ (∀ d ∈ ds, d < 16) ∧
    upperHex n = upperDigit x :: upperDigit y :: upperDigit z :: ds.map upperDigit := by
  have hlt : n < 16 ^ (Nat.digits 16 n).length := Nat.lt_base_pow_length_digits (by omega)
  have hlen : 3 ≤ (Nat.digits 16 n).reverse.length := by
    rw [List.length_reverse]
    by_contra hshort
    have hpow : 16 ^ (Nat.digits 16 n).length ≤ 16 ^ 2 := Nat.pow_le_pow_right (by omega) (by omega)
    omega
  have hdigit : ∀ d ∈ (Nat.digits 16 n).reverse, d < 16 := fun d hd =>
    Nat.digits_lt_base (by omega) (List.mem_reverse.mp hd)
  rcases hds : (Nat.digits 16 n).reverse with _ | ⟨x, _ | ⟨y, _ | ⟨z, ds⟩⟩⟩
  · rw [hds] at hlen
    cases hlen
  · rw [hds] at hlen
    exact absurd hlen (by simp)
  · rw [hds] at hlen
    exact absurd hlen (by simp)
  · rw [hds] at hdigit
    refine ⟨x, y, z, ds, hdigit x (by simp), hdigit y (by simp), hdigit z (by simp),
      fun d hd => hdigit d (by simp [hd]), ?_⟩
    rw [upperHex, hds]
    simp [upperDigit]

theorem unreserved_facts {c : Char} (h : isUnreserved c = true) :
    c.toNat < 0x80 ∧ c ≠ '%' ∧ c ≠ '+' ∧ c ≠ '&' ∧ c ≠ '=' := by
  have range {a b : Char} (hc : a ≤ c ∧ c ≤ b) : a.toNat ≤ c.toNat ∧ c.toNat ≤ b.toNat := hc
  have apart (d : Char) (hd : c.toNat ≠ d.toNat) : c ≠ d := fun he => hd (congrArg Char.toNat he)
  suffices hvalue : (45 ≤ c.toNat ∧ c.toNat ≤ 46) ∨ (48 ≤ c.toNat ∧ c.toNat ≤ 57) ∨
      (65 ≤ c.toNat ∧ c.toNat ≤ 90) ∨ c.toNat = 95 ∨ (97 ≤ c.toNat ∧ c.toNat ≤ 122) ∨ c.toNat = 126 by
    refine ⟨by omega, apart _ ?_, apart _ ?_, apart _ ?_, apart _ ?_⟩
    · exact fun he => absurd (hvalue) (by rw [he]; decide)
    · exact fun he => absurd (hvalue) (by rw [he]; decide)
    · exact fun he => absurd (hvalue) (by rw [he]; decide)
    · exact fun he => absurd (hvalue) (by rw [he]; decide)
  simp only [isUnreserved, Bool.or_eq_true, Bool.and_eq_true, decide_eq_true_eq] at h
  rcases h with (((((h | h) | h) | rfl) | rfl) | rfl) | rfl
  · exact .inr (.inr (.inl (range h)))
  · exact .inr (.inr (.inr (.inr (.inl (range h)))))
  · exact .inr (.inl (range h))
  · decide
  · decide
  · decide
  · decide

/-- What `urlencode` writes for a character. -/
def urlChar (c : Char) : Text := if isUnreserved c then [c] else '%' :: upperHex c.toNat

theorem urlencode_eq (s : Text) : urlencode s = s.flatMap urlChar := rfl

theorem encode_upperDigits {ds : List ℕ} (h : ∀ d ∈ ds, d < 16) :
    encode (ds.map upperDigit) = ds.map fun d => octet (upperDigit d).toNat := by
  rw [encode_ascii, List.map_map]
  · rfl
  · intro c hc
    obtain ⟨d, hd, rfl⟩ := List.mem_map.mp hc
    exact (upperDigit_facts d (h d hd)).2.1

theorem hexPair_upperDigit {x y : ℕ} (hx : x < 16) (hy : y < 16) :
    hexPair (octet (upperDigit x).toNat) (octet (upperDigit y).toNat) = some (octet (16 * x + y)) := by
  rw [hexPair, (upperDigit_facts x hx).1, (upperDigit_facts y hy).1]
  rfl

theorem percentDecode_digits {x y : ℕ} (hx : x < 16) (hy : y < 16) {ds : List ℕ} (hds : ∀ d ∈ ds, d < 16) (r : Bytes) :
    percentDecode (encode ('%' :: upperDigit x :: upperDigit y :: ds.map upperDigit) ++ r) =
      octet (16 * x + y) :: ((ds.map fun d => octet (upperDigit d).toNat) ++ percentDecode r) := by
  have hpercent : encodeChar '%' = [0x25] := rfl
  have hplain : ∀ b ∈ ds.map (fun d => octet (upperDigit d).toNat), b ≠ 0x25 := by
    intro b hb
    obtain ⟨d, hd, rfl⟩ := List.mem_map.mp hb
    have hfacts : ∀ d < 16, octet (upperDigit d).toNat ≠ 0x25 := by decide
    exact hfacts d (hds d hd)
  rw [encode_cons, encode_cons, encode_cons, hpercent, encodeChar_low (upperDigit_facts x hx).2.1,
    encodeChar_low (upperDigit_facts y hy).2.1, encode_upperDigits hds]
  simp only [List.cons_append, List.nil_append]
  rw [percentDecode_escape (hexPair_upperDigit hx hy), percentDecode_plain_append hplain]

theorem percentDecode_urlChar_small {c : Char} (h : c.toNat < 256) (r : Bytes) :
    percentDecode (encode (urlChar c) ++ r) = octet c.toNat :: percentDecode r := by
  unfold urlChar
  split_ifs with hu
  · obtain ⟨hlow, hpercent, -⟩ := unreserved_facts hu
    have hval : (octet c.toNat).toNat = c.toNat := octet_toNat h
    have hne : octet c.toNat ≠ 0x25 := by
      intro heq
      rw [← UInt8.toNat_inj, hval] at heq
      exact hpercent (Char.toNat_inj.mp heq)
    rw [encode_cons, encodeChar_low hlow, encode_nil, List.append_nil, List.singleton_append,
      percentDecode_plain hne]
  · have hsum : 16 * (c.toNat / 16) + c.toNat % 16 = c.toNat := Nat.div_add_mod _ _
    have hdecode : percentDecode (encode ('%' :: upperDigit (c.toNat / 16) :: upperDigit (c.toNat % 16) ::
        List.map upperDigit []) ++ r) = octet (16 * (c.toNat / 16) + c.toNat % 16) :: percentDecode r :=
      percentDecode_digits (by omega) (Nat.mod_lt _ (by omega)) (fun d hd => absurd hd List.not_mem_nil) r
    rw [hsum] at hdecode
    rw [upperHex_small h]
    exact hdecode

theorem percentDecode_urlChar_large {c : Char} (h : 256 ≤ c.toNat) (r : Bytes) :
    ∃ bs, 0 < bs.countP isAscii ∧ percentDecode (encode (urlChar c) ++ r) = bs ++ percentDecode r := by
  obtain ⟨x, y, z, ds, hx, hy, hz, hds, hhex⟩ := upperHex_large h
  have hu : ¬ isUnreserved c = true := by
    intro hu
    have hlow := (unreserved_facts hu).1
    omega
  have hzds : ∀ d ∈ z :: ds, d < 16 := List.forall_mem_cons.mpr ⟨hz, hds⟩
  refine ⟨octet (16 * x + y) :: (z :: ds).map fun d => octet (upperDigit d).toNat, ?_, ?_⟩
  · have hascii : ∀ d < 16, isAscii (octet (upperDigit d).toNat) = true := by decide
    exact List.countP_pos_iff.mpr ⟨_, by simp, hascii z hz⟩
  · rw [urlChar, if_neg hu, hhex]
    exact percentDecode_digits hx hy hzds r

theorem percentDecode_urlencode_small {f : Text} (h : ∀ c ∈ f, c.toNat < 256) :
    percentDecode (encode (urlencode f)) = f.map fun c => octet c.toNat := by
  induction f with
  | nil => rfl
  | cons c f ih =>
      rw [urlencode_eq, List.flatMap_cons, encode_append, percentDecode_urlChar_small (h c List.mem_cons_self),
        ← urlencode_eq, ih fun d hd => h d (List.mem_cons_of_mem _ hd), List.map_cons]

/-- Each character outside Latin-1 leaves an ASCII octet that the filter does not have. -/
theorem countP_urlencode (f : Text) :
    f.countP (fun c => c.toNat < 0x80) + f.countP (fun c => 256 ≤ c.toNat) ≤
      (percentDecode (encode (urlencode f))).countP isAscii := by
  induction f with
  | nil => exact le_rfl
  | cons c f ih =>
      rw [urlencode_eq] at ih ⊢
      rw [List.flatMap_cons, encode_append, List.countP_cons, List.countP_cons]
      by_cases hsmall : c.toNat < 256
      · have hval : (octet c.toNat).toNat = c.toNat := octet_toNat hsmall
        have hlarge : ¬ 256 ≤ c.toNat := Nat.not_le_of_lt hsmall
        rw [percentDecode_urlChar_small hsmall, List.countP_cons, isAscii, hval]
        simp only [hlarge, decide_false, Bool.false_eq_true, if_false, Nat.add_zero]
        omega
      · obtain ⟨bs, hpos, hdecode⟩ := percentDecode_urlChar_large (Nat.le_of_not_lt hsmall)
          (encode (f.flatMap urlChar))
        have hlow : ¬ c.toNat < 0x80 := by omega
        rw [hdecode, List.countP_append]
        simp only [hlow, decide_false, Bool.false_eq_true, if_false, Nat.add_zero]
        split_ifs <;> omega

/-- A filter comes back from its octets exactly when it is ASCII. -/
theorem lossy_urlencode_iff (f : Text) :
    fromUtf8Lossy (percentDecode (encode (urlencode f))) = f ↔ ∀ c ∈ f, c.toNat < 0x80 := by
  constructor
  · intro h
    have hcount := countP_urlencode f
    rw [← countP_fromUtf8Lossy, h] at hcount
    have hsmall : ∀ c ∈ f, c.toNat < 256 := by
      have hzero : f.countP (fun c => 256 ≤ c.toNat) = 0 := by omega
      intro c hc
      have hc := List.countP_eq_zero.mp hzero c hc
      rw [decide_eq_true_eq] at hc
      exact Nat.lt_of_not_le hc
    have hno : replacement ∉ f := fun hm => absurd (hsmall _ hm) (by decide)
    -- nothing was replaced, so the octets are those of the filter, and there is one for each character
    have hread : encode (fromUtf8Lossy (percentDecode (encode (urlencode f)))) =
        percentDecode (encode (urlencode f)) := encode_fromUtf8Lossy (by rwa [h])
    rw [h, percentDecode_urlencode_small hsmall] at hread
    have hlen := length_encode f
    rw [hread, List.length_map] at hlen
    have hzero : f.countP (fun c => 0x80 ≤ c.toNat) = 0 := by omega
    intro c hc
    have hc := List.countP_eq_zero.mp hzero c hc
    rw [decide_eq_true_eq] at hc
    exact Nat.lt_of_not_le hc
  · intro h
    rw [percentDecode_urlencode_small fun c hc => (h c hc).trans (by decide), ← encode_ascii h,
      fromUtf8Lossy_encode]

theorem urlencode_chars (f : Text) : ∀ c ∈ urlencode f, isUnreserved c = true ∨ c = '%' := by
  intro d hd
  obtain ⟨c, -, hd⟩ := List.mem_flatMap.mp hd
  split_ifs at hd with hu
  · rw [List.mem_singleton.mp hd]
    exact .inl hu
  · rcases List.mem_cons.mp hd with rfl | hd
    · exact .inr rfl
    · have hdigits (ds : List ℕ) (hds : ∀ x ∈ ds, x < 16) (hm : d ∈ ds.map upperDigit) : isUnreserved d = true := by
        obtain ⟨x, hx, rfl⟩ := List.mem_map.mp hm
        exact (upperDigit_facts x (hds x hx)).2.2
      by_cases hsmall : c.toNat < 256
      · rw [upperHex_small hsmall] at hd
        refine .inl (hdigits [c.toNat / 16, c.toNat % 16] ?_ hd)
        intro x hx
        rcases List.mem_pair.mp hx with rfl | rfl <;> omega
      · obtain ⟨x, y, z, ds, hx, hy, hz, hds, hhex⟩ := upperHex_large (Nat.le_of_not_lt hsmall)
        rw [hhex] at hd
        refine .inl (hdigits (x :: y :: z :: ds) ?_ hd)
        simp only [List.forall_mem_cons]
        exact ⟨hx, hy, hz, hds⟩

theorem urlencode_ascii (f : Text) : ∀ c ∈ urlencode f, c.toNat < 0x80 := by
  intro c hc
  rcases urlencode_chars f c hc with hu | rfl
  · exact (unreserved_facts hu).1
  · decide

theorem urlencode_octets (f : Text) : 0x2B ∉ encode (urlencode f) ∧ 0x26 ∉ encode (urlencode f) := by
  have hplus : '+' ∉ urlencode f := by
    intro hm
    rcases urlencode_chars f _ hm with hu | h
    · exact absurd hu (by decide)
    · exact absurd h (by decide)
  have hamp : '&' ∉ urlencode f := by
    intro hm
    rcases urlencode_chars f _ hm with hu | h
    · exact absurd hu (by decide)
    · exact absurd h (by decide)
  exact ⟨not_mem_encode (urlencode_ascii f) (by decide) hplus, not_mem_encode (urlencode_ascii f) (by decide) hamp⟩

/-- `csv_query` of `audit_get`. -/
def csvQuery (filter : Text) : Text := if filter.isEmpty then [] else "?filter=".toList ++ urlencode filter

def linkQuery (filter : Text) : Bytes := encode ((csvQuery filter).drop 1)

/-- The extractor of `AuditQuery`: one `filter` or none, other fields ignored. -/
def auditQuery (query : Bytes) : Option Text :=
  match (formPairs query).filter (·.1 = "filter".toList) with
  | [] => some []
  | [(_, value)] => some value
  | _ => none

theorem auditQuery_link (f : Text) :
    auditQuery (linkQuery f) = some (fromUtf8Lossy (percentDecode (encode (urlencode f)))) := by
  cases f with
  | nil => rfl
  | cons c f =>
      have hname : 0x26 ∉ encode "filter".toList ∧ 0x3D ∉ encode "filter".toList := by decide
      have hcomponent : component (encode "filter".toList) = "filter".toList := by decide
      have hquery : linkQuery (c :: f) = encode "filter".toList ++ 0x3D :: encode (urlencode (c :: f)) := by
        simp only [linkQuery, csvQuery, List.isEmpty_cons, Bool.false_eq_true, if_false]
        rfl
      have hvalue : component (encode (urlencode (c :: f))) =
          fromUtf8Lossy (percentDecode (encode (urlencode (c :: f)))) := by
        rw [component, plusToSpace_of_not_mem (urlencode_octets (c :: f)).1]
      rw [auditQuery, hquery, formPairs_pair hname (urlencode_octets (c :: f)).2, hcomponent, hvalue]
      rfl

theorem filterOf_injective {f g : Text} (h : filterOf f = filterOf g) : f = g := by
  cases f with
  | nil =>
      cases g with
      | nil => rfl
      | cons c g => cases h
  | cons c f =>
      cases g with
      | nil => cases h
      | cons d g => exact Option.some.inj h

/-- The octets of the link are the filter, and the export that it asks for is of the prefix
shown, exactly when the filter is ASCII. -/
theorem exportLink_iff (filter : Text) :
    (decode (percentDecode (encode (urlencode filter))) = some filter ↔ ∀ c ∈ filter, c.toNat < 0x80) ∧
      ((auditQuery (linkQuery filter)).map filterOf = some (filterOf filter) ↔
        ∀ c ∈ filter, c.toNat < 0x80) := by
  rw [auditQuery_link, Option.map_some, Option.some.injEq, ← lossy_urlencode_iff]
  refine ⟨⟨fun h => ?_, fun h => ?_⟩, filterOf_injective, fun h => by rw [h]⟩
  · rw [← decode_sound h, fromUtf8Lossy_encode]
  · have hascii := (lossy_urlencode_iff filter).mp h
    rw [percentDecode_urlencode_small fun c hc => (hascii c hc).trans (by decide), ← encode_ascii hascii,
      decode_encode]

theorem auditGet_link {env : RequestEnv} {site : Site} {filter : Text} {w w' : World} {r : Response}
    (h : auditGet env site filter w = (.ok r, w')) :
    ∃ events valid checked breakAt, r = .html (.audit events valid checked breakAt filter (csvQuery filter)) := by
  obtain ⟨view, w1, -, h⟩ := bind_ok_iff.mp h
  obtain ⟨rows, w2, -, h⟩ := bind_ok_iff.mp h
  cases h
  exact ⟨_, _, _, _, rfl⟩

/-- An accented letter is exported as a replacement character, and a Chinese one as the
ASCII text that its code point happens to spell. -/
theorem exportLink_other_prefix :
    urlencode "é".toList = "%E9".toList ∧ decode (percentDecode (encode (urlencode "é".toList))) = none ∧
    auditQuery (linkQuery "é".toList) = some [replacement] ∧
    auditQuery (linkQuery "中".toList) = some "N2D".toList :=
  ⟨by decide, by decide, by decide, by decide⟩

end FipsDropbox.Web
