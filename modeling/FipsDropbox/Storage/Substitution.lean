import FipsDropbox.Lib.Ciphers
import FipsDropbox.Storage.PrintRuns

/-!
# Prints under an attacker on the storage

An attacker without the KEK rewrites files and rows between insertions as he likes. The
wrapped keys are not bound to a row, so he can move them about; what a file opens to is
still what was sealed under the identifier of the row that is read.
-/
namespace FipsDropbox
open Utf8 Ciphers

/-- AES-256-GCM of the host as a scheme. -/
def Bcrypt.scheme (B : Bcrypt) : Scheme (Octets 32) (Octets 12) Bytes (Octets 16) :=
  ⟨B.gcmEncrypt, B.gcmDecrypt⟩

theorem Bcrypt.Documented.correct {B : Bcrypt} (D : B.Documented) : B.scheme.Correct :=
  fun e => D.opens e.key e.nonce e.aad e.plaintext

namespace Storage.PrintStore
open Exec Crypto

abbrev GcmEncryption := Encryption (Octets 32) (Octets 12) Bytes

abbrev GcmBox := Box (Octets 12) Bytes (Octets 16)

structure Insertion where
  env : Env
  new : NewPrint

namespace Insertion
variable (kek : Octets 32) (i : Insertion)

def id : Uuid := i.env.newId .print

def wrapping (dek : DataKey) : List GcmEncryption :=
  match i.env.random .wrapNonce 12 with
  | some nonce => if i.env.fails .wrapDek then [] else [⟨kek, nonce, [], dek.val⟩]
  | none => []

/-- The encryptions of an insertion, as far as it gets: the bytes that the cipher sees of the
plaintext, bound to the new identifier, and then the data key. -/
def encryptions : List GcmEncryption :=
  match i.env.random .dataKey 32, i.env.random .sealNonce 12 with
  | some dek, some nonce =>
      if i.env.fails .hashPlaintext || i.env.fails .sealBlob then []
      else ⟨dek, nonce, i.id.val, asU32 i.new.plaintext⟩ :: i.wrapping kek dek
  | _, _ => []

def run (B : Bcrypt) (s : Store) : Store :=
  (insert i.env B kek i.new.filename i.new.plaintext i.new.uploadedBy i.new.cuiAttested s).2

end Insertion

/-- The decryptions that `read_blob` may be led to: of the wrapped key of a row under the KEK,
and of the file of a row under the key that this gives. -/
inductive Presents (B : Bcrypt) (kek : Octets 32) (s : Store) : Octets 32 → GcmBox → Prop
  | wrapped {row : PrintRow} {box : Sealed} (member : row ∈ s.db.prints.rows)
      (parts : Kek.unwrapParts row.dekWrapped = some box) :
      Presents B kek s kek ⟨box.nonce, [], box.ciphertext, box.tag⟩
  | blob {row : PrintRow} {print : Print} {ct : Bytes} {dek : DataKey} (member : row ∈ s.db.prints.rows)
      (reads : rowToPrint row = .ok print) (file : s.blobs print.blobPath = some ct)
      (unwraps : Kek.Unwraps B kek print.dekWrapped dek) :
      Presents B kek s dek ⟨print.nonce, print.id.val, asU32 ct, print.tag⟩

/-- The stores that insertions and an attacker reach together. -/
inductive Attacked (B : Bcrypt) (kek : Octets 32) : List Insertion → Store → Prop
  | start (s : Store) : Attacked B kek [] s
  | insert {is : List Insertion} {s : Store} (i : Insertion) (reached : Attacked B kek is s)
      (fresh : ∀ j ∈ is, j.id ≠ i.id) : Attacked B kek (i :: is) (i.run kek B s)
  | rewrite {is : List Insertion} {s : Store} (t : Store) (reached : Attacked B kek is s) :
      Attacked B kek is t

/-- The attacker knows neither the KEK nor a data key that was drawn. -/
structure Secret (kek : Octets 32) (known : Octets 32 → Prop) (is : List Insertion) : Prop where
  kek : ¬ known kek
  dek : ∀ i ∈ is, ∀ dek, i.env.random .dataKey 32 = some dek → ¬ known dek

section
variable {B : Bcrypt} {kek : Octets 32} {known : Octets 32 → Prop} {is : List Insertion} {i : Insertion}

theorem asU32_octets {n : ℕ} (bs : Octets n) (h : n < 2 ^ 32) : asU32 bs.val = bs.val :=
  asU32_of_lt (by rw [bs.property]; exact h)

/-- An encryption of an insertion: of its plaintext, or of the data key that it drew. -/
theorem Insertion.mem_encryptions {e : GcmEncryption} (he : e ∈ i.encryptions kek) :
    (e.aad = i.id.val ∧ e.plaintext = asU32 i.new.plaintext) ∨
      (e.aad = [] ∧ ∃ dek, i.env.random .dataKey 32 = some dek ∧ e.plaintext = dek.val) := by
  unfold Insertion.encryptions at he
  split at he
  next dek nonce hdek hnonce =>
    split_ifs at he
    · cases he
    · rcases List.mem_cons.mp he with rfl | hwrap
      · exact .inl ⟨rfl, rfl⟩
      · unfold Insertion.wrapping at hwrap
        split at hwrap
        · split_ifs at hwrap
          · cases hwrap
          · obtain rfl := List.mem_singleton.mp hwrap
            exact .inr ⟨rfl, dek, hdek, rfl⟩
        · cases hwrap
  next => cases he

theorem unwrapParts_length {wrapped : Bytes} {box : Sealed} (h : Kek.unwrapParts wrapped = some box) :
    box.ciphertext.length = 32 := by
  unfold Kek.unwrapParts at h
  split_ifs at h with hlen
  obtain rfl := Option.some.inj h
  rw [List.length_take, List.length_drop, hlen]
  rfl

theorem sealPrint_encryptions (D : B.Documented) {s t : Store} {p : SealedPrint}
    (h : sealPrint i.env B kek i.new.plaintext s = (.ok p, t)) :
    ∃ blob wrap box, i.encryptions kek = [blob, wrap] ∧
      blob.box B.scheme = ⟨p.box.nonce, i.id.val, p.box.ciphertext, p.box.tag⟩ ∧
      Kek.unwrapParts p.dekWrapped = some box ∧
      wrap.box B.scheme = ⟨box.nonce, [], box.ciphertext, box.tag⟩ := by
  simp only [sealPrint, DataKey.generate, Aead.seal, Kek.wrapDek, Rand.bytes, bind_ok_iff, adapt_ok_iff,
    sha256_ok_iff, orErr_ok_iff, check_ok_iff, failIf_ok_iff, pure_ok_iff] at h
  obtain ⟨_, _, ⟨hdigest, rfl, rfl⟩, dek, _, ⟨hdek, rfl⟩, _, _, ⟨nonce, _, ⟨hnonce, rfl⟩, _, _,
    ⟨hseal, rfl⟩, rfl, rfl⟩, _, _, ⟨nonce', _, ⟨hnonce', rfl⟩, _, _, ⟨hwrap, rfl⟩, rfl, rfl⟩, _, _,
    ⟨-, rfl⟩, rfl, -⟩ := h
  have hlen : (Cng.aes256GcmEncrypt B kek nonce' [] dek.val).1.length = 32 := by
    rw [Cng.aes256GcmEncrypt, D.length, asU32_octets dek (by decide), dek.property]
  have hwrapped : i.wrapping kek dek = [⟨kek, nonce', [], dek.val⟩] := by
    simp only [Insertion.wrapping, hnonce', hwrap, Bool.false_eq_true, if_false]
  refine ⟨⟨dek, nonce, i.id.val, asU32 i.new.plaintext⟩, ⟨kek, nonce', [], dek.val⟩, _, ?_, ?_,
    unwrapParts_layout hlen, ?_⟩
  · simp only [Insertion.encryptions, hdek, hnonce, hdigest, hseal, hwrapped, Bool.or_self, Bool.false_eq_true,
      if_false]
  · have haad : asU32 (i.env.newId .print).val = i.id.val := asU32_octets i.id (by decide)
    simp only [Encryption.box, Bcrypt.scheme, Cng.aes256GcmEncrypt, haad]
  · simp only [Encryption.box, Bcrypt.scheme, Cng.aes256GcmEncrypt, asU32_octets dek (by decide : 32 < 2 ^ 32)]
    rfl

theorem Attacked.once {s : Store} (h : Attacked B kek is s) : (is.map Insertion.id).Nodup := by
  induction h with
  | start s => exact List.nodup_nil
  | insert i _ fresh ih =>
      refine List.nodup_cons.mpr ⟨?_, ih⟩
      intro hid
      obtain ⟨j, hj, heq⟩ := List.mem_map.mp hid
      exact fresh j hj heq
  | rewrite t _ ih => exact ih

theorem rowToPrint_columns {row : PrintRow} {print : Print} (h : rowToPrint row = .ok print) :
    print.id.val = row.id ∧ print.blobPath = row.blobPath ∧ print.dekWrapped = row.dekWrapped ∧
      print.nonce.val = row.nonce ∧ print.tag.val = row.tag := by
  unfold rowToPrint at h
  cases hid : uuidFrom 0 "id" row.id with
  | error e =>
      rw [hid] at h
      cases h
  | ok id =>
      rw [← of_uuidFrom_ok hid]
      cases hsha : octetsFrom 32 3 "sha256_plaintext" row.sha256Plaintext <;>
        cases hnonce : octetsFrom 12 6 "nonce" row.nonce <;> cases htag : octetsFrom 16 7 "tag" row.tag <;>
        cases hby : uuidFrom 8 "uploaded_by" row.uploadedBy <;> rw [hid, hsha, hnonce, htag, hby] at h <;> cases h
      exact ⟨rfl, rfl, rfl, of_octetsFrom_ok hnonce, of_octetsFrom_ok htag⟩

/-- The encryptions under the KEK without additional data carry data keys only. -/
theorem Secret.carries (h : Secret kek known is) {e : GcmEncryption}
    (he : e ∈ is.flatMap (Insertion.encryptions kek)) (haad : e.aad = []) {dek : DataKey}
    (hdek : DataKey.ofBytes e.plaintext = some dek) : ¬ known dek := by
  obtain ⟨i, hi, hei⟩ := List.mem_flatMap.mp he
  rcases Insertion.mem_encryptions hei with ⟨hid, -⟩ | ⟨-, drawn, hdrawn, hplain⟩
  · have hlen : e.aad.length = 16 := by rw [hid, i.id.property]
    rw [haad] at hlen
    cases hlen
  · rw [hplain, DataKey.ofBytes, dif_pos drawn.property] at hdek
    obtain rfl := Option.some.inj hdek
    exact h.dek i hi _ hdrawn

/-- Without forgeries, what is readable was sealed under the identifier that is read. -/
theorem sealed_of_openable (D : B.Documented) (hsecret : Secret kek known is) {t : Store}
    (hideal : B.scheme.Unforged known (is.flatMap (Insertion.encryptions kek)) (Presents B kek t)) {A : Uuid}
    {print : Print} {p : Bytes} (h : Openable B kek t A print p) :
    ∃ i ∈ is, i.id = A ∧ p = asU32 i.new.plaintext := by
  obtain ⟨row, hfind, hprint⟩ := h.found
  obtain ⟨hrow, hid⟩ := Table.find_some hfind
  obtain ⟨ct, dek, hct, hunwraps, hopen⟩ := h.opens
  obtain ⟨box, bytes, hparts, hbytes, hdek⟩ := hunwraps
  obtain ⟨hpid, -, hwrapped, -⟩ := rowToPrint_columns hprint
  have hprintA : print.id.val = A.val := hpid.trans (of_decide_eq_true hid)
  have hwopen : B.scheme.openBox kek ⟨box.nonce, [], box.ciphertext, box.tag⟩ = some bytes := by
    have hlen : box.ciphertext.length < 2 ^ 32 := by
      have := unwrapParts_length hparts
      omega
    rw [Cng.aes256GcmDecrypt, asU32_of_lt hlen] at hbytes
    exact hbytes
  have hbopen : B.scheme.openBox dek ⟨print.nonce, print.id.val, asU32 ct, print.tag⟩ = some p := by
    rw [Cng.aes256GcmDecrypt, asU32_octets print.id (by decide)] at hopen
    exact hopen
  obtain ⟨e, he, -, haad, hplain⟩ := hideal.envelope D.correct hsecret.kek
    (fun e he _ haad key hkey => hsecret.carries he haad hkey) (.wrapped hrow (hwrapped ▸ hparts)) (.blob hrow hprint hct ⟨box, bytes, hparts, hbytes, hdek⟩)
    hwopen hdek hbopen
  obtain ⟨i, hi, hei⟩ := List.mem_flatMap.mp he
  rcases Insertion.mem_encryptions hei with ⟨hid', hplain'⟩ | ⟨hnil, -⟩
  · exact ⟨i, hi, Subtype.ext (hid'.symm.trans (haad.trans hprintA)), hplain.symm.trans hplain'⟩
  · have hlen : print.id.val.length = 0 := by
      rw [show print.id.val = e.aad from haad.symm, hnil]
      rfl
    rw [print.id.property] at hlen
    cases hlen

/-- Whatever an attacker without the keys makes of rows and files between the insertions, what
`read_blob` returns for a print is what the only insertion under its identifier sealed. -/
theorem readBlob_authentic (D : B.Documented) {t : Store} (hreached : Attacked B kek is t)
    (hsecret : Secret kek known is)
    (hideal : B.scheme.Unforged known (is.flatMap (Insertion.encryptions kek)) (Presents B kek t)) {env : Env} {A : Uuid}
    {p : Bytes} {t' : Store} (hread : readBlob env B kek A t = (.ok p, t')) :
    ∃ i ∈ is, i.id = A ∧ (∀ j ∈ is, j.id = A → j = i) ∧ p = asU32 i.new.plaintext ∧
      (i.new.plaintext.length < 2 ^ 32 → p = i.new.plaintext) := by
  obtain ⟨-, ⟨print, hopen⟩, -⟩ := readBlob_ok_iff.mp hread
  obtain ⟨i, hi, hid, hp⟩ := sealed_of_openable D hsecret hideal hopen
  refine ⟨i, hi, hid, ?_, hp, ?_⟩
  · intro j hj hjid
    exact List.inj_on_of_nodup_map hreached.once hj hi (hjid.trans hid.symm)
  · intro hshort
    rw [hp, asU32_of_lt hshort]

end

def attackedHost (n : UInt8) : Env where
  now _ := .unixEpoch
  random _ k := some ⟨List.replicate k n, List.length_replicate⟩
  newId _ := ⟨List.replicate 16 n, List.length_replicate⟩
  fails _ := false
  partialWrite := none

def attackedInsertion (n : UInt8) : Insertion :=
  ⟨attackedHost n, ⟨"hinge.stl".toList, [n, n, n], ⟨List.replicate 16 21, List.length_replicate⟩, true⟩⟩

def attackedKek : Octets 32 := ⟨List.replicate 32 99, List.length_replicate⟩

def drawnKey : Octets 32 := ⟨List.replicate 32 1, List.length_replicate⟩

def drawnNonce : Octets 12 := ⟨List.replicate 12 1, List.length_replicate⟩

def blobEncryption : GcmEncryption := ⟨drawnKey, drawnNonce, List.replicate 16 1, [1, 1, 1]⟩

def keyEncryption : GcmEncryption := ⟨attackedKek, drawnNonce, [], drawnKey.val⟩

section
variable (B : Bcrypt)

def blobBox : GcmBox := blobEncryption.box B.scheme

def keyBox : GcmBox := keyEncryption.box B.scheme

def forgedRow : PrintRow where
  id := List.replicate 16 1
  filename := "renamed".toList
  sizeBytes := -1
  sha256Plaintext := (Cng.sha256 B [1, 1, 1]).val
  blobPath := "moved".toList
  dekWrapped := drawnNonce.val ++ (keyBox B).tag.val ++ (keyBox B).ciphertext
  nonce := drawnNonce.val
  tag := (blobBox B).tag.val
  uploadedBy := List.replicate 16 22
  uploadedAt := 0
  cuiAttested := 0

def robbedRow : PrintRow := { forgedRow B with id := List.replicate 16 2, dekWrapped := [] }

def forgedStore : Store where
  db := { Db.empty with prints := ⟨[forgedRow B, robbedRow B], by simp [forgedRow, robbedRow]⟩ }
  blobs path := if path = "moved".toList then some (blobBox B).ciphertext else none

def forgedPrint : Print where
  id := ⟨List.replicate 16 1, List.length_replicate⟩
  filename := "renamed".toList
  sizeBytes := UInt64.ofInt (-1)
  sha256Plaintext := Cng.sha256 B [1, 1, 1]
  blobPath := "moved".toList
  dekWrapped := (forgedRow B).dekWrapped
  nonce := drawnNonce
  tag := (blobBox B).tag
  uploadedBy := ⟨List.replicate 16 22, List.length_replicate⟩
  uploadedAt := millisToDt 0
  cuiAttested := false

end

section
variable {B : Bcrypt} (D : B.Documented)
include D

theorem decrypt_box (e : GcmEncryption) (haad : e.aad.length < 2 ^ 32) (hplain : e.plaintext.length < 2 ^ 32) :
    Cng.aes256GcmDecrypt B e.key e.nonce e.aad (e.box B.scheme).ciphertext (e.box B.scheme).tag =
      some e.plaintext := by
  have hct : (e.box B.scheme).ciphertext.length < 2 ^ 32 := by
    rw [Encryption.box, show (B.scheme.encrypt e.key e.nonce e.aad e.plaintext).1.length = _ from
      D.length e.key e.nonce e.aad e.plaintext]
    exact hplain
  rw [Cng.aes256GcmDecrypt, asU32_of_lt haad, asU32_of_lt hct]
  exact D.correct e

theorem forgedRow_parts :
    Kek.unwrapParts (forgedRow B).dekWrapped = some ⟨drawnNonce, (keyBox B).ciphertext, (keyBox B).tag⟩ :=
  unwrapParts_layout (D.length attackedKek drawnNonce [] drawnKey.val)

theorem forgedRow_unwraps {dek : DataKey} :
    Kek.Unwraps B attackedKek (forgedRow B).dekWrapped dek ↔ dek = drawnKey := by
  have hopen : Cng.aes256GcmDecrypt B attackedKek drawnNonce [] (keyBox B).ciphertext (keyBox B).tag =
      some drawnKey.val := decrypt_box D keyEncryption (by decide) (by decide)
  have hdrawn : DataKey.ofBytes drawnKey.val = some drawnKey := dif_pos drawnKey.property
  constructor
  · rintro ⟨box, bytes, hparts, hbytes, hdek⟩
    obtain rfl := Option.some.inj ((forgedRow_parts D).symm.trans hparts)
    obtain rfl := Option.some.inj (hopen.symm.trans hbytes)
    exact Option.some.inj (hdek.symm.trans hdrawn)
  · rintro rfl
    exact ⟨_, _, forgedRow_parts D, hopen, hdrawn⟩

omit D in
theorem forgedRow_print : rowToPrint (forgedRow B) = .ok (forgedPrint B) := by
  simp only [rowToPrint, forgedRow, octetsFrom_val]
  rfl

theorem forgedStore_opens :
    Openable B attackedKek (forgedStore B) (attackedInsertion 1).id (forgedPrint B) [1, 1, 1] where
  found := ⟨forgedRow B, rfl, forgedRow_print⟩
  opens := by
    refine ⟨(blobBox B).ciphertext, drawnKey, rfl, (forgedRow_unwraps D).mpr rfl, ?_⟩
    exact decrypt_box D blobEncryption (by decide) (by decide)
  digest := rfl

theorem forgedStore_unforged {known : Octets 32 → Prop} :
    B.scheme.Unforged known
      ([attackedInsertion 2, attackedInsertion 1].flatMap (Insertion.encryptions attackedKek))
      (Presents B attackedKek (forgedStore B)) := by
  rintro key b - hb -
  have hmade : ∀ e ∈ [blobEncryption, keyEncryption],
      e ∈ [attackedInsertion 2, attackedInsertion 1].flatMap (Insertion.encryptions attackedKek) :=
    fun e he => List.mem_flatMap.mpr ⟨attackedInsertion 1, by simp, he⟩
  have hrows : ∀ row ∈ (forgedStore B).db.prints.rows, row = forgedRow B ∨ row = robbedRow B := by
    intro row hrow
    simpa [forgedStore] using hrow
  cases hb with
  | wrapped member parts =>
      rcases hrows _ member with rfl | rfl
      · obtain rfl := Option.some.inj ((forgedRow_parts D).symm.trans parts)
        exact ⟨keyEncryption, hmade _ (by simp), rfl, rfl⟩
      · cases parts
  | @blob _ print ct _ member reads file unwraps =>
      rcases hrows _ member with rfl | rfl
      · cases forgedRow_print.symm.trans reads
        obtain rfl := (forgedRow_unwraps D).mp unwraps
        obtain rfl : (blobBox B).ciphertext = ct := Option.some.inj file
        have hlen : (blobBox B).ciphertext.length = 3 := D.length drawnKey drawnNonce (List.replicate 16 1) [1, 1, 1]
        refine ⟨blobEncryption, hmade _ (by simp), rfl, ?_⟩
        rw [asU32_of_lt (by omega)]
        rfl
      · obtain ⟨-, -, hwrapped, -⟩ := rowToPrint_columns reads
        obtain ⟨box, _, hparts, -⟩ := unwraps
        rw [hwrapped] at hparts
        cases hparts

end

theorem forgedStore_attacked :
    Attacked .reference attackedKek [attackedInsertion 2, attackedInsertion 1] (forgedStore .reference) :=
  .rewrite (forgedStore .reference)
    (.insert (attackedInsertion 2) (.insert (attackedInsertion 1) (.start .fresh) (by simp)) (by decide))

theorem readBlob_authentic_forged :
    readBlob (attackedHost 0) .reference attackedKek (attackedInsertion 1).id (forgedStore .reference) =
        (.ok [1, 1, 1], forgedStore .reference) ∧
      ∃ i ∈ [attackedInsertion 2, attackedInsertion 1], i.id = (attackedInsertion 1).id ∧
        (∀ j ∈ [attackedInsertion 2, attackedInsertion 1], j.id = (attackedInsertion 1).id → j = i) ∧
        [1, 1, 1] = asU32 i.new.plaintext ∧
        (i.new.plaintext.length < 2 ^ 32 → [1, 1, 1] = i.new.plaintext) := by
  have D := Bcrypt.reference_documented
  have hread : readBlob (attackedHost 0) .reference attackedKek (attackedInsertion 1).id (forgedStore .reference) =
      (.ok [1, 1, 1], forgedStore .reference) :=
    readBlob_ok_iff.mpr ⟨fun _ _ => rfl, ⟨forgedPrint .reference, forgedStore_opens D⟩, rfl⟩
  have hsecret : Secret attackedKek (fun key => key.val.head? = some 0) [attackedInsertion 2, attackedInsertion 1] := by
    refine ⟨by decide, ?_⟩
    intro i hi dek hdek
    rcases List.mem_pair.mp hi with rfl | rfl <;> cases hdek <;> decide
  exact ⟨hread, readBlob_authentic D forgedStore_attacked hsecret (forgedStore_unforged D) hread⟩

end Storage.PrintStore
end FipsDropbox
