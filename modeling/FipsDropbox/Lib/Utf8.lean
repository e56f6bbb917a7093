import Mathlib.Data.List.Basic
import Mathlib.Data.List.Infix
import Mathlib.Data.Nat.Notation

/-!
# UTF-8

A string is its list of Unicode scalar values and a byte string is a list of
octets. `encode` and `decode` are the two directions of UTF-8; `sliceTo` is the
partial operation that cuts a string at a byte offset, undefined inside a
character. Every proper prefix of an encoding either fails to decode or decodes
to a prefix of the text.
-/
namespace FipsDropbox.Utf8

abbrev Text := List Char
abbrev Bytes := List UInt8

/-- The octet with value `n`; every use below has `n < 256`. -/
def octet (n : ℕ) : UInt8 := UInt8.ofNat n

theorem octet_toNat {n : ℕ} (h : n < 256) : (octet n).toNat = n := by
  simp only [octet, UInt8.toNat_ofNat', Nat.reducePow]
  omega

theorem octet_of_toNat (b : UInt8) : octet b.toNat = b := UInt8.ofNat_toNat

/-- The octets of the scalar value `n`, shortest form. -/
def encodeScalar (n : ℕ) : Bytes :=
  if n < 0x80 then [octet n]
  else if n < 0x800 then [octet (0xC0 + n / 64), octet (0x80 + n % 64)]
  else if n < 0x10000 then
    [octet (0xE0 + n / 64 / 64), octet (0x80 + n / 64 % 64), octet (0x80 + n % 64)]
  else
    [octet (0xF0 + n / 64 / 64 / 64), octet (0x80 + n / 64 / 64 % 64),
      octet (0x80 + n / 64 % 64), octet (0x80 + n % 64)]

def encodeChar (c : Char) : Bytes := encodeScalar c.toNat

def encode (t : Text) : Bytes := t.flatMap encodeChar

@[simp] theorem encode_nil : encode [] = [] := rfl

@[simp] theorem encode_cons (c : Char) (t : Text) : encode (c :: t) = encodeChar c ++ encode t := rfl

@[simp] theorem encode_append (s t : Text) : encode (s ++ t) = encode s ++ encode t := by
  simp [encode]

theorem encodeChar_ne_nil (c : Char) : encodeChar c ≠ [] := by
  unfold encodeChar encodeScalar
  split_ifs <;> simp

theorem char_lt (c : Char) : c.toNat < 0x110000 := by
  have h := c.valid
  simp only [UInt32.isValidChar, Nat.isValidChar] at h
  change c.val.toNat < _
  omega

theorem encodeChar_low {c : Char} (h : c.toNat < 0x80) : encodeChar c = [octet c.toNat] := if_pos h

theorem encode_ascii {t : Text} (h : ∀ c ∈ t, c.toNat < 0x80) : encode t = t.map fun c => octet c.toNat := by
  induction t with
  | nil => rfl
  | cons c t ih =>
      rw [encode_cons, encodeChar_low (h c List.mem_cons_self), ih fun d hd => h d (List.mem_cons_of_mem _ hd)]
      rfl

/-- An ASCII octet comes from its character alone. -/
theorem not_mem_encode {t : Text} {d : Char} (ht : ∀ c ∈ t, c.toNat < 0x80) (hd : d.toNat < 0x80)
    (h : d ∉ t) : octet d.toNat ∉ encode t := by
  rw [encode_ascii ht]
  intro hm
  obtain ⟨c, hc, heq⟩ := List.mem_map.mp hm
  have hlow := ht c hc
  rw [← UInt8.toNat_inj, octet_toNat (by omega), octet_toNat (by omega), Char.toNat_inj] at heq
  exact h (heq ▸ hc)

/-- Outside ASCII no octet of a character is an ASCII octet. -/
theorem encodeChar_high {c : Char} (h : 0x80 ≤ c.toNat) : ∀ b ∈ encodeChar c, 0x80 ≤ b.toNat := by
  have hlt := char_lt c
  have hoctet (n : ℕ) (hlo : 0x80 ≤ n) (hhi : n < 256) : 0x80 ≤ (octet n).toNat := by rwa [octet_toNat hhi]
  have hcont (n : ℕ) : 0x80 ≤ (octet (0x80 + n % 64)).toNat := hoctet _ (by omega) (by omega)
  intro b hb
  unfold encodeChar encodeScalar at hb
  rw [if_neg (by omega)] at hb
  split_ifs at hb
  · rcases List.mem_pair.mp hb with rfl | rfl
    · exact hoctet _ (by omega) (by omega)
    · exact hcont _
  · simp only [List.mem_cons, List.not_mem_nil, or_false] at hb
    rcases hb with rfl | rfl | rfl
    · exact hoctet _ (by omega) (by omega)
    · exact hcont _
    · exact hcont _
  · simp only [List.mem_cons, List.not_mem_nil, or_false] at hb
    rcases hb with rfl | rfl | rfl | rfl
    · exact hoctet _ (by omega) (by omega)
    · exact hcont _
    · exact hcont _
    · exact hcont _

theorem encodeChar_length_pos (c : Char) : 0 < (encodeChar c).length :=
  List.length_pos_of_ne_nil (encodeChar_ne_nil c)

/-- A character outside ASCII takes two octets at least. -/
theorem length_encode (t : Text) : t.length + t.countP (fun c => 0x80 ≤ c.toNat) ≤ (encode t).length := by
  have hlong (c : Char) (h : ¬ c.toNat < 0x80) : 2 ≤ (encodeChar c).length := by
    unfold encodeChar encodeScalar
    rw [if_neg h]
    split_ifs <;> simp
  induction t with
  | nil => exact le_rfl
  | cons c t ih =>
      have hpos := encodeChar_length_pos c
      rw [List.length_cons, List.countP_cons, encode_cons, List.length_append]
      by_cases hlow : c.toNat < 0x80
      · have hnot : ¬ 0x80 ≤ c.toNat := Nat.not_le_of_lt hlow
        simp only [hnot, decide_false, Bool.false_eq_true, if_false]
        omega
      · have htwo := hlong c hlow
        split_ifs <;> omega

/-- A continuation octet carries six payload bits. -/
def payload (b : UInt8) : Option ℕ :=
  if 0x80 ≤ b.toNat ∧ b.toNat < 0xC0 then some (b.toNat - 0x80) else none

theorem payload_octet {n : ℕ} (h : n < 64) : payload (octet (0x80 + n)) = some n := by
  have ht : (octet (0x80 + n)).toNat = 0x80 + n := octet_toNat (by omega)
  rw [payload, ht, if_pos ⟨by omega, by omega⟩, Nat.add_sub_cancel_left]

theorem payload_some {b : UInt8} {n : ℕ} (h : payload b = some n) :
    n < 64 ∧ b = octet (0x80 + n) := by
  unfold payload at h
  split_ifs at h with hb
  have hn := Option.some.inj h
  have hsum : 0x80 + n = b.toNat := by omega
  exact ⟨by omega, by rw [hsum, octet_of_toNat]⟩

theorem toNat_ofNat {n : ℕ} (h : n.isValidChar) : (Char.ofNat n).toNat = n := by
  rw [Char.ofNat, dif_pos h]
  exact UInt32.toNat_ofNatLT

/-- A scalar value that needs exactly the length it was spelled with. -/
def scalar (low v : ℕ) : Option Char :=
  if low ≤ v ∧ v.isValidChar then some (Char.ofNat v) else none

theorem scalar_toNat {low : ℕ} (c : Char) (h : low ≤ c.toNat) : scalar low c.toNat = some c := by
  have hv : c.toNat.isValidChar := c.valid
  rw [scalar, if_pos ⟨h, hv⟩, Char.ofNat_toNat]

theorem scalar_some {low v : ℕ} {c : Char} (h : scalar low v = some c) :
    low ≤ v ∧ c.toNat = v := by
  unfold scalar at h
  split_ifs at h with hv
  obtain rfl := Option.some.inj h
  refine ⟨hv.1, ?_⟩
  exact toNat_ofNat hv.2

/-- The first character of a byte string and what follows it. -/
def decodeChar : Bytes → Option (Char × Bytes)
  | [] => none
  | a :: r =>
      if a.toNat < 0x80 then some (Char.ofNat a.toNat, r)
      else if a.toNat < 0xC0 then none
      else if a.toNat < 0xE0 then
        match r with
        | b :: r => do
            let y ← payload b
            (scalar 0x80 ((a.toNat - 0xC0) * 64 + y)).map (·, r)
        | _ => none
      else if a.toNat < 0xF0 then
        match r with
        | b :: d :: r => do
            let y ← payload b
            let z ← payload d
            (scalar 0x800 (((a.toNat - 0xE0) * 64 + y) * 64 + z)).map (·, r)
        | _ => none
      else
        match r with
        | b :: d :: e :: r => do
            let y ← payload b
            let z ← payload d
            let w ← payload e
            (scalar 0x10000 ((((a.toNat - 0xF0) * 64 + y) * 64 + z) * 64 + w)).map (·, r)
        | _ => none

theorem decodeChar_one {a : UInt8} (h : a.toNat < 0x80) (r : Bytes) :
    decodeChar (a :: r) = some (Char.ofNat a.toNat, r) := by
  simp only [decodeChar, if_pos h]

theorem decodeChar_two {a b : UInt8} {x y : ℕ} (ha : a.toNat = 0xC0 + x) (hx : x < 0x20)
    (hb : payload b = some y) (r : Bytes) :
    decodeChar (a :: b :: r) = (scalar 0x80 (x * 64 + y)).map (·, r) := by
  have hsub : a.toNat - 0xC0 = x := by omega
  simp only [decodeChar, hb, hsub, Option.bind_eq_bind, Option.bind_some]
  rw [if_neg (by omega), if_neg (by omega), if_pos (by omega)]

theorem decodeChar_three {a b d : UInt8} {x y z : ℕ} (ha : a.toNat = 0xE0 + x) (hx : x < 0x10)
    (hb : payload b = some y) (hd : payload d = some z) (r : Bytes) :
    decodeChar (a :: b :: d :: r) = (scalar 0x800 ((x * 64 + y) * 64 + z)).map (·, r) := by
  have hsub : a.toNat - 0xE0 = x := by omega
  simp only [decodeChar, hb, hd, hsub, Option.bind_eq_bind, Option.bind_some]
  rw [if_neg (by omega), if_neg (by omega), if_neg (by omega), if_pos (by omega)]

theorem decodeChar_four {a b d e : UInt8} {x y z w : ℕ} (ha : a.toNat = 0xF0 + x)
    (hb : payload b = some y) (hd : payload d = some z) (he : payload e = some w) (r : Bytes) :
    decodeChar (a :: b :: d :: e :: r) =
      (scalar 0x10000 (((x * 64 + y) * 64 + z) * 64 + w)).map (·, r) := by
  have hsub : a.toNat - 0xF0 = x := by omega
  simp only [decodeChar, hb, hd, he, hsub, Option.bind_eq_bind, Option.bind_some]
  rw [if_neg (by omega), if_neg (by omega), if_neg (by omega), if_neg (by omega)]

theorem decodeChar_encodeChar (c : Char) (r : Bytes) :
    decodeChar (encodeChar c ++ r) = some (c, r) := by
  have hc := char_lt c
  have low (n : ℕ) : payload (octet (0x80 + n % 64)) = some (n % 64) :=
    payload_octet (Nat.mod_lt n (by omega))
  unfold encodeChar encodeScalar
  split_ifs with h1 h2 h3
  · have ht : (octet c.toNat).toNat = c.toNat := octet_toNat (by omega)
    rw [List.singleton_append, decodeChar_one (by omega), ht, Char.ofNat_toNat]
  · have hv : c.toNat / 64 * 64 + c.toNat % 64 = c.toNat := by omega
    refine (decodeChar_two (octet_toNat (by omega)) (by omega) (low _) r).trans ?_
    rw [hv, scalar_toNat c (by omega)]
    rfl
  · have hv : (c.toNat / 64 / 64 * 64 + c.toNat / 64 % 64) * 64 + c.toNat % 64 = c.toNat := by omega
    refine (decodeChar_three (octet_toNat (by omega)) (by omega) (low _) (low _) r).trans ?_
    rw [hv, scalar_toNat c (by omega)]
    rfl
  · have hv : ((c.toNat / 64 / 64 / 64 * 64 + c.toNat / 64 / 64 % 64) * 64 + c.toNat / 64 % 64) * 64 +
        c.toNat % 64 = c.toNat := by omega
    refine (decodeChar_four (octet_toNat (by omega)) (low _) (low _) (low _) r).trans ?_
    rw [hv, scalar_toNat c (by omega)]
    rfl

/-- Decoding consumes exactly the encoding of the character it returns. -/
theorem decodeChar_sound {bs r : Bytes} {c : Char} (h : decodeChar bs = some (c, r)) :
    bs = encodeChar c ++ r := by
  cases bs with
  | nil => cases h
  | cons a bs =>
      have ha : a.toNat < 256 := a.toNat_lt
      simp only [decodeChar] at h
      split_ifs at h with h1 h2 h3 h4
      · obtain ⟨rfl, rfl⟩ := Prod.mk.inj (Option.some.inj h)
        have hv : a.toNat.isValidChar := by simp only [Nat.isValidChar]; omega
        have ht : (Char.ofNat a.toNat).toNat = a.toNat := toNat_ofNat hv
        simp [encodeChar, encodeScalar, ht, h1, octet_of_toNat]
      · cases bs with
        | nil => cases h
        | cons b r' =>
            simp only [Option.bind_eq_bind, Option.bind_eq_some_iff, Option.map_eq_some_iff] at h
            obtain ⟨y, hy, d, hd, hr⟩ := h
            obtain ⟨rfl, rfl⟩ := Prod.mk.inj hr
            obtain ⟨hy, rfl⟩ := payload_some hy
            obtain ⟨hlow, hd⟩ := scalar_some hd
            have h0 : 0xC0 + d.toNat / 64 = a.toNat := by omega
            have h5 : d.toNat % 64 = y := by omega
            simp only [encodeChar, encodeScalar, h0, h5, octet_of_toNat]
            rw [if_neg (by omega), if_pos (by omega)]
            rfl
      · cases bs with
        | nil => cases h
        | cons b bs =>
            cases bs with
            | nil => cases h
            | cons e r' =>
                simp only [Option.bind_eq_bind, Option.bind_eq_some_iff, Option.map_eq_some_iff] at h
                obtain ⟨y, hy, z, hz, d, hd, hr⟩ := h
                obtain ⟨rfl, rfl⟩ := Prod.mk.inj hr
                obtain ⟨hy, rfl⟩ := payload_some hy
                obtain ⟨hz, rfl⟩ := payload_some hz
                obtain ⟨hlow, hd⟩ := scalar_some hd
                have h0 : 0xE0 + d.toNat / 64 / 64 = a.toNat := by omega
                have h5 : d.toNat / 64 % 64 = y := by omega
                have h6 : d.toNat % 64 = z := by omega
                simp only [encodeChar, encodeScalar, h0, h5, h6, octet_of_toNat]
                rw [if_neg (by omega), if_neg (by omega), if_pos (by omega)]
                rfl
      · cases bs with
        | nil => cases h
        | cons b bs =>
            cases bs with
            | nil => cases h
            | cons e bs =>
                cases bs with
                | nil => cases h
                | cons f r' =>
                    simp only [Option.bind_eq_bind, Option.bind_eq_some_iff, Option.map_eq_some_iff] at h
                    obtain ⟨y, hy, z, hz, w, hw, d, hd, hr⟩ := h
                    obtain ⟨rfl, rfl⟩ := Prod.mk.inj hr
                    obtain ⟨hy, rfl⟩ := payload_some hy
                    obtain ⟨hz, rfl⟩ := payload_some hz
                    obtain ⟨hw, rfl⟩ := payload_some hw
                    obtain ⟨hlow, hd⟩ := scalar_some hd
                    have h0 : 0xF0 + d.toNat / 64 / 64 / 64 = a.toNat := by omega
                    have h5 : d.toNat / 64 / 64 % 64 = y := by omega
                    have h6 : d.toNat / 64 % 64 = z := by omega
                    have h7 : d.toNat % 64 = w := by omega
                    simp only [encodeChar, encodeScalar, h0, h5, h6, h7, octet_of_toNat]
                    rw [if_neg (by omega), if_neg (by omega), if_neg (by omega)]
                    rfl

/-- Whole-string decoding; `none` on any ill-formed sequence. The fuel is the
byte count, and every character consumes at least one byte. -/
def decodeFuel : ℕ → Bytes → Option Text
  | _, [] => some []
  | 0, _ :: _ => none
  | n + 1, b :: bs => do
      let (c, r) ← decodeChar (b :: bs)
      let t ← decodeFuel n r
      some (c :: t)

def decode (bs : Bytes) : Option Text := decodeFuel bs.length bs

theorem decodeFuel_sound {n : ℕ} {bs : Bytes} {t : Text} (h : decodeFuel n bs = some t) :
    encode t = bs := by
  induction n generalizing bs t with
  | zero =>
      cases bs with
      | nil => cases h; rfl
      | cons b bs => cases h
  | succ n ih =>
      cases bs with
      | nil => cases h; rfl
      | cons b bs =>
          simp only [decodeFuel, Option.bind_eq_bind, Option.bind_eq_some_iff, Option.some.injEq] at h
          obtain ⟨⟨c, r⟩, hc, t', ht, rfl⟩ := h
          rw [encode_cons, ih ht, ← decodeChar_sound hc]

theorem decodeFuel_encode (t : Text) : ∀ {n : ℕ}, (encode t).length ≤ n →
    decodeFuel n (encode t) = some t := by
  induction t with
  | nil => intro n _; cases n <;> rfl
  | cons c t ih =>
      intro n hn
      have hpos := encodeChar_length_pos c
      rw [encode_cons] at hn ⊢
      have hlen := hn
      rw [List.length_append] at hlen
      cases n with
      | zero => omega
      | succ n =>
          cases hb : encodeChar c ++ encode t with
          | nil => exact absurd (List.append_eq_nil_iff.mp hb).1 (encodeChar_ne_nil c)
          | cons b bs =>
              simp only [decodeFuel, ← hb, decodeChar_encodeChar, Option.bind_eq_bind, Option.bind_some,
                ih (show (encode t).length ≤ n by omega)]

@[simp] theorem decode_encode (t : Text) : decode (encode t) = some t :=
  decodeFuel_encode t le_rfl

theorem decode_sound {bs : Bytes} {t : Text} (h : decode bs = some t) : encode t = bs :=
  decodeFuel_sound h

theorem encode_injective {s t : Text} (h : encode s = encode t) : s = t := by
  have := congrArg decode h
  simpa using this

/-- UTF-8 is a prefix code: encodings nest only when the texts do. -/
theorem prefix_of_encode_prefix {s t : Text} (h : encode s <+: encode t) : s <+: t := by
  induction s generalizing t with
  | nil => exact List.nil_prefix
  | cons c s ih =>
      cases t with
      | nil =>
          have hn := List.prefix_nil.mp h
          exact absurd (List.append_eq_nil_iff.mp hn).1 (encodeChar_ne_nil c)
      | cons d t =>
          obtain ⟨r, hr⟩ := h
          rw [encode_cons, encode_cons, List.append_assoc] at hr
          have hd := congrArg decodeChar hr
          rw [decodeChar_encodeChar, decodeChar_encodeChar] at hd
          obtain ⟨rfl, hrest⟩ := Prod.mk.inj (Option.some.inj hd)
          exact List.cons_prefix_cons.mpr ⟨rfl, ih ⟨r, hrest⟩⟩

/-- `&t[..n]`: the prefix of exactly `n` bytes, undefined past the end and
inside a character. -/
def sliceTo : Text → ℕ → Option Text
  | _, 0 => some []
  | [], _ + 1 => none
  | c :: t, n + 1 =>
      if (encodeChar c).length ≤ n + 1 then
        (sliceTo t (n + 1 - (encodeChar c).length)).map (c :: ·)
      else none

/-- `str::is_char_boundary`. -/
def isCharBoundary (t : Text) (n : ℕ) : Bool := (sliceTo t n).isSome

theorem sliceTo_append (p t : Text) : sliceTo (p ++ t) (encode p).length = some p := by
  induction p with
  | nil => cases t <;> rfl
  | cons c p ih =>
      have hpos := encodeChar_length_pos c
      obtain ⟨n, hn⟩ : ∃ n, (encode (c :: p)).length = n + 1 :=
        Nat.exists_eq_succ_of_ne_zero (by rw [encode_cons, List.length_append]; omega)
      have hsub : n + 1 - (encodeChar c).length = (encode p).length := by
        rw [← hn, encode_cons, List.length_append, Nat.add_sub_cancel_left]
      have hle : (encodeChar c).length ≤ n + 1 := by
        rw [← hn, encode_cons, List.length_append]
        omega
      rw [hn, List.cons_append, sliceTo, if_pos hle, hsub, ih, Option.map_some]

/-- `&t[n..]`. -/
def sliceFrom (t : Text) (n : ℕ) : Option Text := (sliceTo t n).map fun p => t.drop p.length

theorem sliceFrom_append (p t : Text) : sliceFrom (p ++ t) (encode p).length = some t := by
  rw [sliceFrom, sliceTo_append, Option.map_some, List.drop_left]

/-- `t.find(c)`: the byte offset of the first occurrence. -/
def findChar (c : Char) (t : Text) : Option ℕ :=
  if c ∈ t then some (encode (t.takeWhile (· ≠ c))).length else none

end FipsDropbox.Utf8
