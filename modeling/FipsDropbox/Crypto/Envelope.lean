import FipsDropbox.Crypto.Host
import FipsDropbox.Lib.Exec

/-!
# crates/crypto

Hashing, the AEAD envelope, the wrapping of data keys under the KEK, and the two
secrets of a share. A failing call into CNG is the host's choice.
-/
namespace FipsDropbox.Crypto
open Utf8 Exec

inductive CngError where
  | status
  | authTagMismatch

inductive CryptoError where
  | cng (e : CngError)
  | invalidKeyLength
  | decryptionFailed

abbrev DataKey := Octets 32

structure Sealed where
  nonce : Octets 12
  ciphertext : Bytes
  tag : Octets 16

/-- Compares in full, whatever it finds. -/
def constantTimeEq (a b : Bytes) : Bool :=
  if a.length ≠ b.length then false
  else (a.zip b).foldl (fun diff p => diff ||| (p.1 ^^^ p.2)) 0 = 0

def base64Digit (n : ℕ) : Char :=
  "ABCDEFGHIJKLMNOPQRSTUVWXYZabcdefghijklmnopqrstuvwxyz0123456789-_".toList.getD n 'A'

/-- `URL_SAFE_NO_PAD`. -/
def urlSafeBase64 : Bytes → Text
  | a :: b :: c :: r =>
      base64Digit (a.toNat / 4) :: base64Digit (a.toNat % 4 * 16 + b.toNat / 16) ::
        base64Digit (b.toNat % 16 * 4 + c.toNat / 64) :: base64Digit (c.toNat % 64) :: urlSafeBase64 r
  | [a, b] =>
      [base64Digit (a.toNat / 4), base64Digit (a.toNat % 4 * 16 + b.toNat / 16),
        base64Digit (b.toNat % 16 * 4)]
  | [a] => [base64Digit (a.toNat / 4), base64Digit (a.toNat % 4 * 16)]
  | [] => []

def alphabet : Text := "23456789ABCDEFGHJKMNPQRSTUVWXYZ".toList

/-- The loop of `access_code` from index `i` on. -/
def accessCodeFrom (i : ℕ) : Bytes → Text
  | [] => []
  | b :: bs =>
      (if 0 < i ∧ i % 3 = 0 then ['-'] else []) ++
        alphabet.getD (b.toNat % alphabet.length) '2' :: accessCodeFrom (i + 1) bs

section
variable {σ : Type} (env : Env) (B : Bcrypt)

def check (c : Call) : Exec σ CryptoError Unit := failIf (env.fails c) (.cng .status)

/-- `rand::bytes`, `rand::fill`, `rand::nonce_12`. -/
def Rand.bytes (d : Draw) (n : ℕ) : Exec σ CryptoError (Octets n) := orErr (.cng .status) (env.random d n)

/-- `hash::sha256`. -/
def Hash.sha256 (c : Call) (data : Bytes) : Exec σ CryptoError (Octets 32) := do
  check env c
  pure (Cng.sha256 B data)

/-- `kdf::derive_key_from_password`. -/
def Kdf.deriveKeyFromPassword (c : Call) (password : Text) (salt : Bytes) (iterations : ℕ) :
    Exec σ CryptoError (Octets 32) := do
  check env c
  pure (Cng.pbkdf2HmacSha256 B (encode password) salt iterations 32)

def Kdf.pbkdf2MinIterations : ℕ := 600000

def DataKey.generate : Exec σ CryptoError DataKey := Rand.bytes env .dataKey 32

def Aead.seal (key : DataKey) (aad plaintext : Bytes) : Exec σ CryptoError Sealed := do
  let nonce ← Rand.bytes env .sealNonce 12
  check env .sealBlob
  let out := Cng.aes256GcmEncrypt B key nonce aad plaintext
  pure ⟨nonce, out.1, out.2⟩

def Aead.openSealed (key : DataKey) (aad : Bytes) (box : Sealed) : Exec σ CryptoError Bytes := do
  check env .openBlob
  orErr (.cng .authTagMismatch) (Cng.aes256GcmDecrypt B key box.nonce aad box.ciphertext box.tag)

/-- `KekManager::wrap_dek`: nonce, tag, ciphertext. -/
def Kek.wrapDek (kek : Octets 32) (dek : DataKey) : Exec σ CryptoError Bytes := do
  let nonce ← Rand.bytes env .wrapNonce 12
  check env .wrapDek
  let out := Cng.aes256GcmEncrypt B kek nonce [] dek.val
  pure (nonce.val ++ out.2.val ++ out.1)

/-- The nonce, tag and ciphertext of a wrapped key of the right length. -/
def Kek.unwrapParts (wrapped : Bytes) : Option Sealed :=
  if h : wrapped.length = 12 + 16 + 32 then
    some {
      nonce := ⟨wrapped.take 12, by rw [List.length_take, h]; rfl⟩
      ciphertext := (wrapped.drop 28).take 32
      tag := ⟨(wrapped.drop 12).take 16, by rw [List.length_take, List.length_drop, h]; rfl⟩ }
  else none

def DataKey.ofBytes (bs : Bytes) : Option DataKey := if h : bs.length = 32 then some ⟨bs, h⟩ else none

/-- `KekManager::unwrap_dek`. -/
def Kek.unwrapDek (kek : Octets 32) (wrapped : Bytes) : Exec σ CryptoError DataKey := do
  let box ← orErr .invalidKeyLength (Kek.unwrapParts wrapped)
  check env .unwrapDek
  let pt ← orErr (.cng .authTagMismatch) (Cng.aes256GcmDecrypt B kek box.nonce [] box.ciphertext box.tag)
  orErr .invalidKeyLength (DataKey.ofBytes pt)

/-- `token::url_token`. -/
def Token.urlToken : Exec σ CryptoError Text := do
  let raw ← Rand.bytes env .urlToken 16
  pure (urlSafeBase64 raw.val)

/-- `token::access_code`. -/
def Token.accessCode : Exec σ CryptoError Text := do
  let raw ← Rand.bytes env .accessCode 15
  pure (accessCodeFrom 0 raw.val)

end

theorem foldl_diff_eq_zero (d : UInt8) (ps : List (UInt8 × UInt8)) :
    ps.foldl (fun diff p => diff ||| (p.1 ^^^ p.2)) d = 0 ↔ d = 0 ∧ ∀ p ∈ ps, p.1 = p.2 := by
  induction ps generalizing d with
  | nil => simp
  | cons p ps ih =>
      rw [List.foldl_cons, ih, UInt8.or_eq_zero_iff, UInt8.xor_eq_zero_iff, List.forall_mem_cons, and_assoc]

theorem zip_equal_iff {a b : Bytes} (h : a.length = b.length) :
    (∀ p ∈ a.zip b, p.1 = p.2) ↔ a = b := by
  induction a generalizing b with
  | nil =>
      obtain rfl := List.length_eq_zero_iff.mp h.symm
      simp
  | cons x a ih =>
      cases b with
      | nil => cases h
      | cons y b =>
          rw [List.zip_cons_cons, List.forall_mem_cons, ih (Nat.succ.inj h), List.cons.injEq]

theorem constantTimeEq_iff (a b : Bytes) : constantTimeEq a b = true ↔ a = b := by
  unfold constantTimeEq
  split_ifs with h
  · constructor
    · exact nofun
    · intro hab
      exact absurd (congrArg List.length hab) h
  · simp only [decide_eq_true_eq, foldl_diff_eq_zero, true_and]
    exact zip_equal_iff (not_not.mp h)

section
variable {σ : Type} {env : Env} {B : Bcrypt}

theorem check_ok_iff {c : Call} {s t : σ} {u : Unit} :
    check env c s = (.ok u, t) ↔ env.fails c = false ∧ s = t := failIf_ok_iff

theorem sha256_ok_iff {c : Call} {data : Bytes} {s t : σ} {d : Octets 32} :
    Hash.sha256 env B c data s = (.ok d, t) ↔ env.fails c = false ∧ Cng.sha256 B data = d ∧ s = t := by
  simp only [Hash.sha256, bind_ok_iff, check_ok_iff, pure_ok_iff]
  constructor
  · rintro ⟨_, _, ⟨hc, rfl⟩, hd⟩
    exact ⟨hc, hd⟩
  · rintro ⟨hc, hd⟩
    exact ⟨(), s, ⟨hc, rfl⟩, hd⟩

variable (env B) in
/-- A hash whose error is converted: it is computed, or the call fails. -/
theorem adapt_sha256_cases {ε : Type} (f : CryptoError → ε) (c : Call) (data : Bytes) (s : σ) :
    (env.fails c = false ∧ adapt f (Hash.sha256 env B c data) s = (.ok (Cng.sha256 B data), s)) ∨
      (env.fails c = true ∧ adapt f (Hash.sha256 env B c data) s = (.err (f (.cng .status)), s)) := by
  cases hc : env.fails c with
  | false => exact .inl ⟨rfl, adapt_ok_iff.mpr (sha256_ok_iff.mpr ⟨hc, rfl, rfl⟩)⟩
  | true =>
      have hcheck : check env c s = (.err (.cng .status), s) := by
        rw [check, hc]
        rfl
      exact .inr ⟨rfl, by simp only [adapt, Hash.sha256, bind_err hcheck]⟩

theorem openSealed_ok_iff {key : DataKey} {aad : Bytes} {box : Sealed} {s t : σ} {pt : Bytes} :
    Aead.openSealed env B key aad box s = (.ok pt, t) ↔ env.fails .openBlob = false ∧
      Cng.aes256GcmDecrypt B key box.nonce aad box.ciphertext box.tag = some pt ∧ s = t := by
  simp only [Aead.openSealed, bind_ok_iff, check_ok_iff, orErr_ok_iff]
  constructor
  · rintro ⟨_, _, ⟨hc, rfl⟩, hd⟩
    exact ⟨hc, hd⟩
  · rintro ⟨hc, hd⟩
    exact ⟨(), s, ⟨hc, rfl⟩, hd⟩

/-- A wrapped key of the right length whose ciphertext opens to 32 bytes. -/
def Kek.Unwraps (B : Bcrypt) (kek : Octets 32) (wrapped : Bytes) (dek : DataKey) : Prop :=
  ∃ box bytes, Kek.unwrapParts wrapped = some box ∧
    Cng.aes256GcmDecrypt B kek box.nonce [] box.ciphertext box.tag = some bytes ∧
    DataKey.ofBytes bytes = some dek

theorem unwrapDek_ok_iff {kek : Octets 32} {wrapped : Bytes} {s t : σ} {dek : DataKey} :
    Kek.unwrapDek env B kek wrapped s = (.ok dek, t) ↔
      env.fails .unwrapDek = false ∧ Kek.Unwraps B kek wrapped dek ∧ s = t := by
  simp only [Kek.unwrapDek, bind_ok_iff, check_ok_iff, orErr_ok_iff]
  constructor
  · rintro ⟨box, _, ⟨hbox, rfl⟩, _, _, ⟨hc, rfl⟩, bytes, _, ⟨hbytes, rfl⟩, hdek, hst⟩
    exact ⟨hc, ⟨box, bytes, hbox, hbytes, hdek⟩, hst⟩
  · rintro ⟨hc, ⟨box, bytes, hbox, hbytes, hdek⟩, hst⟩
    exact ⟨box, s, ⟨hbox, rfl⟩, (), s, ⟨hc, rfl⟩, bytes, s, ⟨hbytes, rfl⟩, hdek, hst⟩

/-! Calls into CNG have no effect on the state of their caller. -/

section
variable {R : σ → σ → Prop} (F : Frame R)
include F

theorem moves_sha256 (c : Call) (data : Bytes) : Moves R (Hash.sha256 env B c data) :=
  F.bind (F.failIf _ _) fun _ => F.pure _

theorem moves_deriveKey (c : Call) (password : Text) (salt : Bytes) (iterations : ℕ) :
    Moves R (Kdf.deriveKeyFromPassword env B c password salt iterations) :=
  F.bind (F.failIf _ _) fun _ => F.pure _

theorem moves_random (d : Draw) (n : ℕ) : Moves R (Rand.bytes env d n) := F.orErr _ _

theorem moves_seal (key : DataKey) (aad plaintext : Bytes) : Moves R (Aead.seal env B key aad plaintext) :=
  F.bind (moves_random F _ _) fun _ => F.bind (F.failIf _ _) fun _ => F.pure _

theorem moves_openSealed (key : DataKey) (aad : Bytes) (box : Sealed) :
    Moves R (Aead.openSealed env B key aad box) :=
  F.bind (F.failIf _ _) fun _ => F.orErr _ _

theorem moves_wrapDek (kek : Octets 32) (dek : DataKey) : Moves R (Kek.wrapDek env B kek dek) :=
  F.bind (moves_random F _ _) fun _ => F.bind (F.failIf _ _) fun _ => F.pure _

theorem moves_unwrapDek (kek : Octets 32) (wrapped : Bytes) : Moves R (Kek.unwrapDek env B kek wrapped) :=
  F.bind (F.orErr _ _) fun _ => F.bind (F.failIf _ _) fun _ => F.bind (F.orErr _ _) fun _ => F.orErr _ _

theorem moves_urlToken : Moves R (Token.urlToken env) := F.bind (moves_random F _ _) fun _ => F.pure _

theorem moves_accessCode : Moves R (Token.accessCode env) := F.bind (moves_random F _ _) fun _ => F.pure _

end

theorem calm_sha256 (c : Call) (data : Bytes) : Calm (Hash.sha256 env B c data : Exec σ CryptoError _) :=
  calm_bind (calm_failIf _ _) fun _ => calm_pure _

/-- What `seal` made under a key, decryption undoes under it and the same data. -/
theorem decrypt_seal (D : B.Documented) {key : DataKey} {aad plaintext : Bytes} {s s' : σ} {box : Sealed}
    (h : Aead.seal env B key aad plaintext s = (.ok box, s')) (hlen : plaintext.length < 2 ^ 32) :
    Cng.aes256GcmDecrypt B key box.nonce aad box.ciphertext box.tag = some plaintext := by
  obtain ⟨nonce, s1, -, h⟩ := bind_ok_iff.mp h
  obtain ⟨-, s2, -, h⟩ := bind_ok_iff.mp h
  obtain ⟨hbox, -⟩ := Prod.mk.inj h
  cases hbox
  exact Cng.decrypt_encrypt D key nonce aad hlen

theorem unwrapParts_layout {nonce : Octets 12} {tag : Octets 16} {ct : Bytes} (h : ct.length = 32) :
    Kek.unwrapParts (nonce.val ++ tag.val ++ ct) = some ⟨nonce, ct, tag⟩ := by
  obtain ⟨n, hn⟩ := nonce
  obtain ⟨g, hg⟩ := tag
  have hlen : (n ++ g ++ ct).length = 12 + 16 + 32 := by simp [hn, hg, h]
  have htake : (n ++ g ++ ct).take 12 = n := by
    rw [List.append_assoc, List.take_append_of_le_length (by omega), List.take_of_length_le (by omega)]
  have hdrop : (n ++ g ++ ct).drop 12 = g ++ ct := by
    rw [List.append_assoc, ← hn, List.drop_left]
  have htag : ((n ++ g ++ ct).drop 12).take 16 = g := by rw [hdrop, ← hg, List.take_left]
  have hct : ((n ++ g ++ ct).drop 28).take 32 = ct := by
    rw [← List.drop_drop (i := 16) (j := 12), hdrop, ← hg, List.drop_left, ← h, List.take_length]
  simp only [Kek.unwrapParts, dif_pos hlen, htake, htag, hct]

/-- What `wrap_dek` made unwraps under the same KEK. -/
theorem unwraps_wrapDek (D : B.Documented) {kek : Octets 32} {dek : DataKey} {s s' : σ} {wrapped : Bytes}
    (h : Kek.wrapDek env B kek dek s = (.ok wrapped, s')) : Kek.Unwraps B kek wrapped dek := by
  obtain ⟨nonce, s1, -, h⟩ := bind_ok_iff.mp h
  obtain ⟨-, s2, -, h⟩ := bind_ok_iff.mp h
  obtain ⟨hw, -⟩ := Prod.mk.inj h
  cases hw
  obtain ⟨dek, hdek⟩ := dek
  have hshort : dek.length < 2 ^ 32 := by omega
  have hct : (Cng.aes256GcmEncrypt B kek nonce [] dek).1.length = 32 := by
    rw [Cng.aes256GcmEncrypt, asU32_of_lt hshort, D.length, hdek]
  exact ⟨_, dek, unwrapParts_layout hct, Cng.decrypt_encrypt D kek nonce [] hshort, dif_pos hdek⟩

end
end FipsDropbox.Crypto
