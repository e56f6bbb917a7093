import FipsDropbox.Lib.AesGcm

/-!
# crates/cng

The Windows primitives are parameters. Each call processes exactly the number of
bytes that its 32-bit length argument gives, and the wrappers cast lengths to
`u32`.
-/
namespace FipsDropbox
open Utf8

/-- `[u8; n]`. -/
abbrev Octets (n : ℕ) := { bs : Bytes // bs.length = n }

/-- `BCryptHash` over SHA-256, `BCryptEncrypt` and `BCryptDecrypt` in GCM mode (no
plaintext where the tag does not match), and `BCryptDeriveKeyPBKDF2`. -/
structure Bcrypt where
  hash : Bytes → Octets 32
  gcmEncrypt : Octets 32 → Octets 12 → Bytes → Bytes → Bytes × Octets 16
  gcmDecrypt : Octets 32 → Octets 12 → Bytes → Bytes → Octets 16 → Option Bytes
  pbkdf2 : Bytes → Bytes → ℕ → (n : ℕ) → Octets n

/-- Decryption undoes encryption under equal key, nonce and additional data, and a
ciphertext is as long as its plaintext. -/
structure Bcrypt.Documented (B : Bcrypt) : Prop where
  opens : ∀ key nonce aad plaintext, B.gcmDecrypt key nonce aad
    (B.gcmEncrypt key nonce aad plaintext).1 (B.gcmEncrypt key nonce aad plaintext).2 = some plaintext
  length : ∀ key nonce aad plaintext, (B.gcmEncrypt key nonce aad plaintext).1.length = plaintext.length

/-- The bytes a call sees of a buffer whose length was cast to `u32`. -/
def asU32 (data : Bytes) : Bytes := data.take (data.length % 2 ^ 32)

theorem asU32_of_lt {data : Bytes} (h : data.length < 2 ^ 32) : asU32 data = data := by
  rw [asU32, Nat.mod_eq_of_lt h, List.take_length]

theorem length_asU32 (data : Bytes) : (asU32 data).length = data.length % 2 ^ 32 := by
  rw [asU32, List.length_take]
  exact min_eq_left (Nat.mod_le _ _)

theorem asU32_short (data : Bytes) : (asU32 data).length < 2 ^ 32 := by
  rw [length_asU32]
  exact Nat.mod_lt _ (by decide)

@[simp] theorem asU32_asU32 (data : Bytes) : asU32 (asU32 data) = asU32 data := asU32_of_lt (asU32_short data)

theorem asU32_eq_iff {data : Bytes} : asU32 data = data ↔ data.length < 2 ^ 32 := by
  constructor
  · intro h
    rw [← h]
    exact asU32_short data
  · exact asU32_of_lt

namespace Cng

/-- `cng::sha256`. -/
def sha256 (B : Bcrypt) (data : Bytes) : Octets 32 := B.hash (asU32 data)

theorem sha256_of_lt (B : Bcrypt) {data : Bytes} (h : data.length < 2 ^ 32) :
    sha256 B data = B.hash data := by
  rw [sha256, asU32_of_lt h]

/-- `cng::aes_256_gcm_encrypt`; the ciphertext is cut to the bytes written. -/
def aes256GcmEncrypt (B : Bcrypt) (key : Octets 32) (nonce : Octets 12) (aad plaintext : Bytes) :
    Bytes × Octets 16 := B.gcmEncrypt key nonce (asU32 aad) (asU32 plaintext)

/-- `cng::aes_256_gcm_decrypt`. -/
def aes256GcmDecrypt (B : Bcrypt) (key : Octets 32) (nonce : Octets 12) (aad ciphertext : Bytes)
    (tag : Octets 16) : Option Bytes := B.gcmDecrypt key nonce (asU32 aad) (asU32 ciphertext) tag

theorem decrypt_encrypt {B : Bcrypt} (D : B.Documented) (key : Octets 32) (nonce : Octets 12) (aad : Bytes)
    {plaintext : Bytes} (h : plaintext.length < 2 ^ 32) :
    aes256GcmDecrypt B key nonce aad (aes256GcmEncrypt B key nonce aad plaintext).1
      (aes256GcmEncrypt B key nonce aad plaintext).2 = some plaintext := by
  have hlen : (aes256GcmEncrypt B key nonce aad plaintext).1.length < 2 ^ 32 := by
    rw [aes256GcmEncrypt, asU32_of_lt h, D.length]
    exact h
  rw [aes256GcmDecrypt, asU32_of_lt hlen, aes256GcmEncrypt, asU32_of_lt h, D.opens]

/-- `cng::pbkdf2_hmac_sha256`. -/
def pbkdf2HmacSha256 (B : Bcrypt) (password salt : Bytes) (iterations outLen : ℕ) : Octets outLen :=
  B.pbkdf2 (asU32 password) (asU32 salt) iterations outLen

end Cng

/-- `hex::encode` of a digest. -/
def hexDigest (d : Octets 32) : Text := hexEncode d.val

theorem hexDigest_injective {d e : Octets 32} (h : hexDigest d = hexDigest e) : d = e :=
  Subtype.ext (hexEncode_injective h)

namespace Bcrypt.Reference

def hash (data : Bytes) : Octets 32 := ⟨Sha256.hash data, Sha256.hash_length data⟩

def gcmEncrypt (key : Octets 32) (nonce : Octets 12) (aad plaintext : Bytes) : Bytes × Octets 16 :=
  ((Gcm.encrypt (Aes.cipher key.val) nonce.val aad plaintext).1,
    ⟨(Gcm.encrypt (Aes.cipher key.val) nonce.val aad plaintext).2,
      (Gcm.encrypt_length (Aes.cipher key.val) nonce.val aad plaintext).2⟩)

def gcmDecrypt (key : Octets 32) (nonce : Octets 12) (aad ciphertext : Bytes) (tag : Octets 16) :
    Option Bytes := Gcm.decrypt (Aes.cipher key.val) nonce.val aad ciphertext tag.val

def pbkdf2 (password salt : Bytes) (iterations n : ℕ) : Octets n :=
  ⟨Sha256.pbkdf2 password salt iterations n, Sha256.pbkdf2_length password salt iterations n⟩

end Bcrypt.Reference

/-- The primitives of FIPS 180-4, FIPS 197, SP 800-38D and SP 800-132. -/
def Bcrypt.reference : Bcrypt :=
  ⟨Reference.hash, Reference.gcmEncrypt, Reference.gcmDecrypt, Reference.pbkdf2⟩

theorem Bcrypt.reference_documented : Bcrypt.reference.Documented where
  opens key nonce aad plaintext := by
    simp only [reference, Reference.gcmDecrypt, Reference.gcmEncrypt, Gcm.decrypt_encrypt]
  length key nonce aad plaintext := by
    simp only [reference, Reference.gcmEncrypt, Gcm.encrypt_length]

end FipsDropbox
