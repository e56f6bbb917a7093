import Mathlib.Algebra.Ring.Nat
import FipsDropbox.Lib.Sha256

/-!
# AES-256-GCM

The block cipher of FIPS 197 with a 256-bit key, and Galois/counter mode with a
nonce of twelve bytes. Field elements are polynomials over GF(2) in the bits of a
natural number.
-/
namespace FipsDropbox
open Utf8

namespace Aes

def xtime (b : ℕ) : ℕ := if b < 0x80 then 2 * b else (2 * b) ^^^ 0x11b

/-- Multiplication in GF(2^8), from the highest bit of `b` down. -/
def times (a b : ℕ) : ℕ :=
  (List.range 8).foldr (fun i acc => xtime acc ^^^ if b.testBit i then a else 0) 0

def power (a : ℕ) : ℕ → ℕ
  | 0 => 1
  | n + 1 => times a (power a n)

def rotl8 (n b : ℕ) : ℕ := (b <<< n ||| b >>> (8 - n)) % 0x100

/-- The inverse is the 254th power, with 0 for 0. -/
def subByte (b : ℕ) : ℕ :=
  let s := power b 254
  s ^^^ rotl8 1 s ^^^ rotl8 2 s ^^^ rotl8 3 s ^^^ rotl8 4 s ^^^ 0x63

def xorAll (xs ys : List ℕ) : List ℕ := List.zipWith (· ^^^ ·) xs ys

/-- Words of the key schedule, the last one first. -/
def expand : ℕ → ℕ → List (List ℕ) → List (List ℕ)
  | 0, _, ws => ws
  | n + 1, i, ws =>
      let last := ws.headD []
      let mixed :=
        if i % 8 = 0 then xorAll ((last.rotateLeft).map subByte) [power 2 (i / 8 - 1), 0, 0, 0]
        else if i % 8 = 4 then last.map subByte
        else last
      expand n (i + 1) (xorAll (ws.getD 7 []) mixed :: ws)

def wordsOf : List ℕ → List (List ℕ)
  | a :: b :: c :: d :: r => [a, b, c, d] :: wordsOf r
  | _ => []

def schedule (key : List ℕ) : List (List ℕ) := (expand 52 8 (wordsOf key).reverse).reverse

def roundKey (ws : List (List ℕ)) (r : ℕ) : List ℕ := ((ws.drop (4 * r)).take 4).flatten

/-- Columns of four bytes; row `r` moves by `r` columns. -/
def shiftRows (s : List ℕ) : List ℕ :=
  (List.range 16).map fun k => s.getD (4 * ((k / 4 + k % 4) % 4) + k % 4) 0

def mixColumn : List ℕ → List ℕ
  | [a, b, c, d] =>
      [times 2 a ^^^ times 3 b ^^^ c ^^^ d, a ^^^ times 2 b ^^^ times 3 c ^^^ d,
        a ^^^ b ^^^ times 2 c ^^^ times 3 d, times 3 a ^^^ b ^^^ c ^^^ times 2 d]
  | column => column

def mixColumns (s : List ℕ) : List ℕ := (wordsOf s).flatMap mixColumn

def rounds (ws : List (List ℕ)) : ℕ → List ℕ → List ℕ
  | 0, s => xorAll (shiftRows (s.map subByte)) (roundKey ws 14)
  | n + 1, s => rounds ws n (xorAll (mixColumns (shiftRows (s.map subByte))) (roundKey ws (13 - n)))

def cipher (key block : Bytes) : Bytes :=
  let ws := schedule (key.map UInt8.toNat)
  (rounds ws 13 (xorAll (block.map UInt8.toNat) (roundKey ws 0))).map UInt8.ofNat

end Aes

namespace Gcm

/-- Multiplication in GF(2^128), bit 0 of the standard being the highest one here. -/
def timesFrom (x : ℕ) : ℕ → ℕ → ℕ → ℕ
  | 0, z, _ => z
  | n + 1, z, v =>
      timesFrom x n (if x.testBit n then z ^^^ v else z)
        (if v.testBit 0 then (v >>> 1) ^^^ (0xe1 <<< 120) else v >>> 1)

def times (x y : ℕ) : ℕ := timesFrom x 128 0 y

def ofBytes (bs : Bytes) : ℕ := bs.foldl (fun n b => n * 256 + b.toNat) 0

def pad16 (bs : Bytes) : Bytes := bs ++ List.replicate ((16 - bs.length % 16) % 16) 0

def ghashFrom (h : ℕ) : ℕ → ℕ → Bytes → ℕ
  | 0, y, _ => y
  | n + 1, y, bs => ghashFrom h n (times (y ^^^ ofBytes (bs.take 16)) h) (bs.drop 16)

def ghash (h : ℕ) (bs : Bytes) : ℕ := ghashFrom h (bs.length / 16) 0 bs

section
variable (E : Bytes → Bytes) (nonce : Bytes)

def counterBlock (n : ℕ) : Bytes := nonce ++ Sha256.bigEndian 4 (n % 2 ^ 32)

def keyByte (i : ℕ) : UInt8 := (E (counterBlock nonce (2 + i / 16))).getD (i % 16) 0

def counterMode (text : Bytes) : Bytes := text.mapIdx fun i b => b ^^^ keyByte E nonce i

def tagOf (aad ciphertext : Bytes) : Bytes :=
  let h := ofBytes (E (List.replicate 16 0))
  let lengths := Sha256.bigEndian 8 (8 * aad.length) ++ Sha256.bigEndian 8 (8 * ciphertext.length)
  let s := ghash h (pad16 aad ++ pad16 ciphertext ++ lengths)
  Sha256.bigEndian 16 (s ^^^ ofBytes (E (counterBlock nonce 1)))

def encrypt (aad plaintext : Bytes) : Bytes × Bytes :=
  (counterMode E nonce plaintext, tagOf E nonce aad (counterMode E nonce plaintext))

def decrypt (aad ciphertext tag : Bytes) : Option Bytes :=
  if tagOf E nonce aad ciphertext = tag then some (counterMode E nonce ciphertext) else none

theorem counterMode_length (text : Bytes) : (counterMode E nonce text).length = text.length :=
  List.length_mapIdx

theorem counterMode_counterMode (text : Bytes) : counterMode E nonce (counterMode E nonce text) = text := by
  rw [counterMode, counterMode, List.mapIdx_mapIdx]
  apply List.ext_getElem
  · exact List.length_mapIdx
  · intro i _ _
    rw [List.getElem_mapIdx, Function.comp_apply, UInt8.xor_assoc, UInt8.xor_self, UInt8.xor_zero]

theorem decrypt_encrypt (aad plaintext : Bytes) :
    decrypt E nonce aad (encrypt E nonce aad plaintext).1 (encrypt E nonce aad plaintext).2 =
      some plaintext := by
  simp only [decrypt, encrypt, if_true, counterMode_counterMode]

theorem encrypt_length (aad plaintext : Bytes) :
    (encrypt E nonce aad plaintext).1.length = plaintext.length ∧
      (encrypt E nonce aad plaintext).2.length = 16 := by
  simp only [encrypt, tagOf, counterMode_length, Sha256.bigEndian_length, and_self]

end

end Gcm
end FipsDropbox
