import Mathlib.Data.List.SplitOn
import FipsDropbox.Lib.Utf8

/-!
# Form-encoded queries

`formPairs` reads a query as `application/x-www-form-urlencoded`: pairs between `&`, the
first `=` of each ends its name, `+` is a blank, `%XX` is an octet, and the octets are
UTF-8 in which every ill-formed sequence is one U+FFFD.
-/
namespace FipsDropbox.Percent
open Utf8

def replacement : Char := '\ufffd'

/-- The second octets that a lead of three allows. -/
def secondOfThree (a b : ℕ) : Bool :=
  (a = 0xE0 && 0xA0 ≤ b && b ≤ 0xBF) || (0xE1 ≤ a && a ≤ 0xEC && 0x80 ≤ b && b ≤ 0xBF) ||
    (a = 0xED && 0x80 ≤ b && b ≤ 0x9F) || (0xEE ≤ a && a ≤ 0xEF && 0x80 ≤ b && b ≤ 0xBF)

def secondOfFour (a b : ℕ) : Bool :=
  (a = 0xF0 && 0x90 ≤ b && b ≤ 0xBF) || (0xF1 ≤ a && a ≤ 0xF3 && 0x80 ≤ b && b ≤ 0xBF) ||
    (a = 0xF4 && 0x80 ≤ b && b ≤ 0x8F)

/-- How much of an ill-formed string one replacement stands for. -/
def subpart : Bytes → ℕ
  | a :: b :: d :: _ =>
      if secondOfThree a.toNat b.toNat then 2
      else if secondOfFour a.toNat b.toNat then (if (payload d).isSome then 3 else 2)
      else 1
  | [a, b] => if secondOfThree a.toNat b.toNat || secondOfFour a.toNat b.toNat then 2 else 1
  | _ => 1

/-- `String::from_utf8_lossy`; the fuel is the byte count. -/
def lossyFuel : ℕ → Bytes → Text
  | _, [] => []
  | 0, _ :: _ => []
  | n + 1, b :: bs =>
      match decodeChar (b :: bs) with
      | some (c, r) => c :: lossyFuel n r
      | none => replacement :: lossyFuel n ((b :: bs).drop (subpart (b :: bs)))

def fromUtf8Lossy (bs : Bytes) : Text := lossyFuel bs.length bs

def isAscii (b : UInt8) : Bool := b.toNat < 0x80

theorem subpart_pos (bs : Bytes) : 0 < subpart bs := by
  unfold subpart
  split
  · split_ifs <;> decide
  · split_ifs <;> decide
  · decide

theorem second_high {a b : ℕ} (h : secondOfThree a b = true ∨ secondOfFour a b = true) : 0x80 ≤ b := by
  simp only [secondOfThree, secondOfFour, Bool.or_eq_true, Bool.and_eq_true, decide_eq_true_eq] at h
  omega

theorem not_ascii_of_second {a b : UInt8}
    (h : secondOfThree a.toNat b.toNat = true ∨ secondOfFour a.toNat b.toNat = true) : isAscii b = false :=
  decide_eq_false (Nat.not_lt_of_le (second_high h))

theorem not_ascii_of_payload {b : UInt8} (h : (payload b).isSome = true) : isAscii b = false := by
  obtain ⟨n, hn⟩ := Option.isSome_iff_exists.mp h
  obtain ⟨hlt, rfl⟩ := payload_some hn
  have hval : (octet (0x80 + n)).toNat = 0x80 + n := octet_toNat (by omega)
  exact decide_eq_false (by omega)

theorem subpart_tail (a : UInt8) (bs : Bytes) : ∀ b ∈ bs.take (subpart (a :: bs) - 1), isAscii b = false := by
  intro x hx
  cases bs with
  | nil => cases hx
  | cons b bs =>
      cases bs with
      | nil =>
          simp only [subpart, Bool.or_eq_true] at hx
          split_ifs at hx with h
          · obtain rfl := List.mem_singleton.mp hx
            exact not_ascii_of_second h
          · cases hx
      | cons d bs =>
          simp only [subpart] at hx
          split_ifs at hx with h3 h4 hd
          · obtain rfl := List.mem_singleton.mp hx
            exact not_ascii_of_second (.inl h3)
          · rcases List.mem_pair.mp hx with rfl | rfl
            · exact not_ascii_of_second (.inr h4)
            · exact not_ascii_of_payload hd
          · obtain rfl := List.mem_singleton.mp hx
            exact not_ascii_of_second (.inr h4)
          · cases hx

/-- A string that does not start with a character starts with no ASCII octet. -/
theorem not_ascii_of_ill_formed {a : UInt8} {bs : Bytes} (h : decodeChar (a :: bs) = none) :
    ∀ b ∈ (a :: bs).take (subpart (a :: bs)), isAscii b = false := by
  have ha : isAscii a = false := by
    refine decide_eq_false fun hlow => ?_
    rw [decodeChar_one hlow] at h
    cases h
  obtain ⟨n, hn⟩ := Nat.exists_eq_succ_of_ne_zero (subpart_pos (a :: bs)).ne'
  have htail := subpart_tail a bs
  rw [hn] at htail ⊢
  intro b hb
  rcases List.mem_cons.mp hb with rfl | hb
  · exact ha
  · exact htail b hb

theorem countP_encodeChar (c : Char) :
    (encodeChar c).countP isAscii = if c.toNat < 0x80 then 1 else 0 := by
  split_ifs with h
  · have hval : (octet c.toNat).toNat = c.toNat := octet_toNat (by omega)
    have hascii : isAscii (octet c.toNat) = true := decide_eq_true (by omega)
    rw [encodeChar_low h, List.countP_singleton, hascii]
    rfl
  · refine List.countP_eq_zero.mpr fun b hb => ?_
    have hhigh := encodeChar_high (Nat.le_of_not_lt h) b hb
    simp only [isAscii, decide_eq_true_eq]
    omega

theorem decodeChar_shorter {bs r : Bytes} {c : Char} (h : decodeChar bs = some (c, r)) : r.length < bs.length := by
  have hpos := encodeChar_length_pos c
  rw [decodeChar_sound h, List.length_append]
  omega

/-- Reading leaves the ASCII octets as they are, and makes no others. -/
theorem countP_lossyFuel {n : ℕ} {bs : Bytes} (h : bs.length ≤ n) :
    (lossyFuel n bs).countP (fun c => c.toNat < 0x80) = bs.countP isAscii := by
  induction n generalizing bs with
  | zero =>
      obtain rfl := List.length_eq_zero_iff.mp (Nat.le_zero.mp h)
      rfl
  | succ n ih =>
      cases bs with
      | nil => rfl
      | cons a bs =>
          rw [lossyFuel]
          cases hd : decodeChar (a :: bs) with
          | some p =>
              obtain ⟨c, r⟩ := p
              have hsplit := decodeChar_sound hd
              have hlen : r.length ≤ n := Nat.le_of_lt_succ ((decodeChar_shorter hd).trans_le h)
              dsimp only
              rw [hsplit, List.countP_append, countP_encodeChar, List.countP_cons, ih hlen, Nat.add_comm]
              simp only [decide_eq_true_eq]
          | none =>
              have hpos := subpart_pos (a :: bs)
              have hlen : ((a :: bs).drop (subpart (a :: bs))).length ≤ n := by
                rw [List.length_drop]
                omega
              have hzero : ((a :: bs).take (subpart (a :: bs))).countP isAscii = 0 :=
                List.countP_eq_zero.mpr fun b hb => by rw [not_ascii_of_ill_formed hd b hb]; exact Bool.false_ne_true
              have hrep : decide (replacement.toNat < 0x80) = false := rfl
              dsimp only
              rw [List.countP_cons, hrep, ih hlen]
              conv_rhs => rw [← List.take_append_drop (subpart (a :: bs)) (a :: bs), List.countP_append, hzero]
              simp

/-- Where nothing was replaced the octets are those of the text. -/
theorem encode_lossyFuel {n : ℕ} {bs : Bytes} (h : bs.length ≤ n) (hno : replacement ∉ lossyFuel n bs) :
    encode (lossyFuel n bs) = bs := by
  induction n generalizing bs with
  | zero =>
      obtain rfl := List.length_eq_zero_iff.mp (Nat.le_zero.mp h)
      rfl
  | succ n ih =>
      cases bs with
      | nil => rfl
      | cons a bs =>
          rw [lossyFuel] at hno ⊢
          cases hd : decodeChar (a :: bs) with
          | some p =>
              obtain ⟨c, r⟩ := p
              rw [hd] at hno
              have hsplit := decodeChar_sound hd
              have hlen : r.length ≤ n := Nat.le_of_lt_succ ((decodeChar_shorter hd).trans_le h)
              dsimp only at hno ⊢
              rw [encode_cons, ih hlen fun hm => hno (List.mem_cons_of_mem _ hm), hsplit]
          | none =>
              rw [hd] at hno
              exact absurd List.mem_cons_self hno

theorem lossyFuel_encode (t : Text) {n : ℕ} (h : (encode t).length ≤ n) : lossyFuel n (encode t) = t := by
  induction t generalizing n with
  | nil => cases n <;> rfl
  | cons c t ih =>
      obtain ⟨b, bs, hb⟩ : ∃ b bs, encode (c :: t) = b :: bs :=
        List.exists_cons_of_ne_nil (List.append_ne_nil_of_left_ne_nil (encodeChar_ne_nil c) _)
      have hchar : decodeChar (b :: bs) = some (c, encode t) := hb ▸ decodeChar_encodeChar c (encode t)
      have hlen := decodeChar_shorter hchar
      rw [hb] at h ⊢
      obtain ⟨m, rfl⟩ := Nat.exists_eq_succ_of_ne_zero (show n ≠ 0 by omega)
      rw [lossyFuel, hchar]
      dsimp only
      rw [ih (by omega)]

@[simp] theorem fromUtf8Lossy_encode (t : Text) : fromUtf8Lossy (encode t) = t := lossyFuel_encode t le_rfl

theorem countP_fromUtf8Lossy (bs : Bytes) :
    (fromUtf8Lossy bs).countP (fun c => c.toNat < 0x80) = bs.countP isAscii := countP_lossyFuel le_rfl

theorem encode_fromUtf8Lossy {bs : Bytes} (h : replacement ∉ fromUtf8Lossy bs) :
    encode (fromUtf8Lossy bs) = bs := encode_lossyFuel le_rfl h

def hexValue (b : UInt8) : Option ℕ :=
  let n := b.toNat
  if 48 ≤ n ∧ n ≤ 57 then some (n - 48)
  else if 65 ≤ n ∧ n ≤ 70 then some (n - 55)
  else if 97 ≤ n ∧ n ≤ 102 then some (n - 87)
  else none

/-- The octet that two hexadecimal digits spell. -/
def hexPair (h l : UInt8) : Option UInt8 := do
  let x ← hexValue h
  let y ← hexValue l
  some (octet (16 * x + y))

/-- `%XX` is an octet; a `%` before anything else stands for itself. -/
def percentDecode : Bytes → Bytes
  | b :: h :: l :: r =>
      if b = 0x25 then
        match hexPair h l with
        | some v => v :: percentDecode r
        | none => b :: percentDecode (h :: l :: r)
      else b :: percentDecode (h :: l :: r)
  | bs => bs

def plusToSpace (bs : Bytes) : Bytes := bs.map fun b => if b = 0x2B then 0x20 else b

def component (bs : Bytes) : Text := fromUtf8Lossy (percentDecode (plusToSpace bs))

def pairOf (bs : Bytes) : Text × Text :=
  (component (bs.takeWhile (· ≠ 0x3D)), component ((bs.dropWhile (· ≠ 0x3D)).drop 1))

/-- `form_urlencoded::parse`. -/
def formPairs (query : Bytes) : List (Text × Text) := ((query.splitOn 0x26).filter (· ≠ [])).map pairOf

@[simp] theorem percentDecode_nil : percentDecode [] = [] := rfl

theorem percentDecode_plain {b : UInt8} (h : b ≠ 0x25) (r : Bytes) :
    percentDecode (b :: r) = b :: percentDecode r := by
  rcases r with _ | ⟨h', _ | ⟨l, r⟩⟩
  · rfl
  · rfl
  · rw [percentDecode, if_neg h]

theorem percentDecode_escape {h l v : UInt8} (hv : hexPair h l = some v) (r : Bytes) :
    percentDecode (0x25 :: h :: l :: r) = v :: percentDecode r := by
  rw [percentDecode, if_pos rfl, hv]

theorem percentDecode_plain_append {bs : Bytes} (h : ∀ b ∈ bs, b ≠ 0x25) (r : Bytes) :
    percentDecode (bs ++ r) = bs ++ percentDecode r := by
  induction bs with
  | nil => rfl
  | cons b bs ih =>
      rw [List.cons_append, percentDecode_plain (h b List.mem_cons_self),
        ih fun c hc => h c (List.mem_cons_of_mem _ hc), List.cons_append]

theorem plusToSpace_of_not_mem {bs : Bytes} (h : 0x2B ∉ bs) : plusToSpace bs = bs := by
  rw [plusToSpace]
  conv_rhs => rw [← List.map_id bs]
  refine List.map_congr_left fun b hb => if_neg ?_
  rintro rfl
  exact h hb

theorem pairOf_equals {name : Bytes} (h : 0x3D ∉ name) (value : Bytes) :
    pairOf (name ++ 0x3D :: value) = (component name, component value) := by
  have hne : ∀ b ∈ name, decide (b ≠ 0x3D) = true := fun b hb => decide_eq_true fun he => h (he ▸ hb)
  rw [pairOf, List.takeWhile_append_of_pos hne, List.dropWhile_append_of_pos hne,
    List.takeWhile_cons_of_neg (by decide), List.dropWhile_cons_of_neg (by decide), List.append_nil]
  rfl

/-- A query of one pair whose parts hold no separators. -/
theorem formPairs_pair {name value : Bytes} (hname : 0x26 ∉ name ∧ 0x3D ∉ name) (hvalue : 0x26 ∉ value) :
    formPairs (name ++ 0x3D :: value) = [(component name, component value)] := by
  have hfree : 0x26 ∉ name ++ 0x3D :: value := by
    simp only [List.mem_append, List.mem_cons, not_or]
    exact ⟨hname.1, by decide, hvalue⟩
  have hsplit : (name ++ 0x3D :: value).splitOn 0x26 = [name ++ 0x3D :: value] := by
    have h := List.splitOn_intercalate (0x26 : UInt8) (List.forall_mem_singleton.mpr hfree)
      (List.cons_ne_nil (name ++ 0x3D :: value) [])
    rwa [List.intercalate_singleton] at h
  have hkeep : [name ++ 0x3D :: value].filter (· ≠ []) = [name ++ 0x3D :: value] := by
    refine List.filter_eq_self.mpr (List.forall_mem_singleton.mpr (decide_eq_true ?_))
    exact List.append_ne_nil_of_right_ne_nil _ (List.cons_ne_nil _ _)
  rw [formPairs, hsplit, hkeep, List.map_singleton, pairOf_equals hname.2]

end FipsDropbox.Percent
