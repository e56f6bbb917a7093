import FipsDropbox.Lib.Strings

/-!
# SHA-256

The hash function of FIPS 180-4 on byte strings, with 32-bit words as natural
numbers below `2 ^ 32`. It is the concrete digest at which statements about an
arbitrary digest function are instantiated.
-/
namespace FipsDropbox.Sha256
open Utf8

def modulus : ℕ := 4294967296

def add (x y : ℕ) : ℕ := (x + y) % modulus

def rotr (n x : ℕ) : ℕ := (x >>> n ||| x <<< (32 - n)) % modulus

def bigSigma0 (x : ℕ) : ℕ := rotr 2 x ^^^ rotr 13 x ^^^ rotr 22 x
def bigSigma1 (x : ℕ) : ℕ := rotr 6 x ^^^ rotr 11 x ^^^ rotr 25 x
def smallSigma0 (x : ℕ) : ℕ := rotr 7 x ^^^ rotr 18 x ^^^ x >>> 3
def smallSigma1 (x : ℕ) : ℕ := rotr 17 x ^^^ rotr 19 x ^^^ x >>> 10

def choose (x y z : ℕ) : ℕ := x &&& y ^^^ (modulus - 1 - x) &&& z
def majority (x y z : ℕ) : ℕ := x &&& y ^^^ x &&& z ^^^ y &&& z

def roundConstants : List ℕ :=
  [0x428a2f98, 0x71374491, 0xb5c0fbcf, 0xe9b5dba5, 0x3956c25b, 0x59f111f1, 0x923f82a4, 0xab1c5ed5,
   0xd807aa98, 0x12835b01, 0x243185be, 0x550c7dc3, 0x72be5d74, 0x80deb1fe, 0x9bdc06a7, 0xc19bf174,
   0xe49b69c1, 0xefbe4786, 0x0fc19dc6, 0x240ca1cc, 0x2de92c6f, 0x4a7484aa, 0x5cb0a9dc, 0x76f988da,
   0x983e5152, 0xa831c66d, 0xb00327c8, 0xbf597fc7, 0xc6e00bf3, 0xd5a79147, 0x06ca6351, 0x14292967,
   0x27b70a85, 0x2e1b2138, 0x4d2c6dfc, 0x53380d13, 0x650a7354, 0x766a0abb, 0x81c2c92e, 0x92722c85,
   0xa2bfe8a1, 0xa81a664b, 0xc24b8b70, 0xc76c51a3, 0xd192e819, 0xd6990624, 0xf40e3585, 0x106aa070,
   0x19a4c116, 0x1e376c08, 0x2748774c, 0x34b0bcb5, 0x391c0cb3, 0x4ed8aa4a, 0x5b9cca4f, 0x682e6ff3,
   0x748f82ee, 0x78a5636f, 0x84c87814, 0x8cc70208, 0x90befffa, 0xa4506ceb, 0xbef9a3f7, 0xc67178f2]

/-- The eight working variables, or the eight words of the running hash. -/
structure State where
  a : ℕ
  b : ℕ
  c : ℕ
  d : ℕ
  e : ℕ
  f : ℕ
  g : ℕ
  h : ℕ

def initial : State :=
  ⟨0x6a09e667, 0xbb67ae85, 0x3c6ef372, 0xa54ff53a, 0x510e527f, 0x9b05688c, 0x1f83d9ab, 0x5be0cd19⟩

def round (s : State) (k w : ℕ) : State :=
  let t1 := add (add (add s.h (bigSigma1 s.e)) (choose s.e s.f s.g)) (add k w)
  let t2 := add (bigSigma0 s.a) (majority s.a s.b s.c)
  ⟨add t1 t2, s.a, s.b, s.c, add s.d t1, s.e, s.f, s.g⟩

/-- The window holds the sixteen schedule words from the current round on. -/
def nextWord (window : List ℕ) : ℕ :=
  add (add (smallSigma1 (window.getD 14 0)) (window.getD 9 0))
    (add (smallSigma0 (window.getD 1 0)) (window.getD 0 0))

def rounds : List ℕ → List ℕ → State → State
  | [], _, s => s
  | k :: ks, window, s =>
      rounds ks (window.tail ++ [nextWord window]) (round s k (window.headD 0))

def compress (s : State) (block : List ℕ) : State :=
  let t := rounds roundConstants block s
  ⟨add s.a t.a, add s.b t.b, add s.c t.c, add s.d t.d, add s.e t.e, add s.f t.f, add s.g t.g,
    add s.h t.h⟩

/-- Big-endian words; the padded length is a multiple of four. -/
def words : Bytes → List ℕ
  | a :: b :: c :: d :: r =>
      (((a.toNat * 256 + b.toNat) * 256 + c.toNat) * 256 + d.toNat) :: words r
  | _ => []

def bigEndian : ℕ → ℕ → Bytes
  | 0, _ => []
  | n + 1, x => bigEndian n (x / 256) ++ [octet (x % 256)]

def pad (m : Bytes) : Bytes :=
  m ++ octet 0x80 :: List.replicate ((119 - m.length % 64) % 64) (octet 0) ++ bigEndian 8 (m.length * 8)

def blocks : ℕ → List ℕ → State → State
  | 0, _, s => s
  | n + 1, ws, s => blocks n (ws.drop 16) (compress s (ws.take 16))

def finish (s : State) : Bytes :=
  [s.a, s.b, s.c, s.d, s.e, s.f, s.g, s.h].flatMap (bigEndian 4)

def hash (m : Bytes) : Bytes :=
  let ws := words (pad m)
  finish (blocks (ws.length / 16) ws initial)

@[simp] theorem bigEndian_length (n x : ℕ) : (bigEndian n x).length = n := by
  induction n generalizing x with
  | zero => rfl
  | succ n ih => simp [bigEndian, ih]

theorem hash_length (m : Bytes) : (hash m).length = 32 := by
  simp [hash, finish]

def xorPad (key : Bytes) (pad : UInt8) : Bytes :=
  (key ++ List.replicate (64 - key.length) 0).map (· ^^^ pad)

def hmac (key m : Bytes) : Bytes :=
  let key := if 64 < key.length then hash key else key
  hash (xorPad key 0x5c ++ hash (xorPad key 0x36 ++ m))

/-- The XOR of the iterates of the HMAC from `u` on. -/
def iterates (key : Bytes) : ℕ → Bytes → Bytes → Bytes
  | 0, _, acc => acc
  | n + 1, u, acc => iterates key n (hmac key u) (List.zipWith (· ^^^ ·) acc (hmac key u))

def pbkdf2Block (password salt : Bytes) (iterations i : ℕ) : Bytes :=
  let u := hmac password (salt ++ bigEndian 4 i)
  iterates password (iterations - 1) u u

def pbkdf2 (password salt : Bytes) (iterations n : ℕ) : Bytes :=
  (List.range n).map fun j => (pbkdf2Block password salt iterations (j / 32 + 1)).getD (j % 32) 0

theorem pbkdf2_length (password salt : Bytes) (iterations n : ℕ) :
    (pbkdf2 password salt iterations n).length = n := by
  rw [pbkdf2, List.length_map, List.length_range]

end FipsDropbox.Sha256
