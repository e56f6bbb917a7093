import FipsDropbox.Storage.PrintRuns

/-!
# Files of 2^32 bytes and more

Hash, encryption and decryption all cast the length of a file to `u32`, and the ciphertext
is cut to the bytes written. So they agree on the part of a long file that they see, and the
check after the decryption finds nothing wrong with it.
-/
namespace FipsDropbox.Storage
open Utf8 Exec Crypto

namespace PrintStore

structure Lands (env : Env) (s : Store) (uploadedBy : Uuid) : Prop where
  begins : Begins env
  writes : env.fails .writeBlob = false
  accepted : ¬ Refuses env s uploadedBy

/-- All of the plaintext is under the identifier, and under its digest. -/
structure KeepsWhole (B : Bcrypt) (kek : Octets 32) (s : Store) (id : Uuid) (plaintext : Bytes) : Prop where
  digest : ∃ row print, s.db.prints.find (fun r => r.id = id.val) = some row ∧ rowToPrint row = .ok print ∧
    print.sha256Plaintext = B.hash plaintext
  reads : ReadsBack B kek s id plaintext

/-- An insertion keeps the whole plaintext, and refuses one too long for the calls. -/
structure NoTruncation (env : Env) (B : Bcrypt) (kek : Octets 32) (new : NewPrint) (s : Store) : Prop where
  whole : ∀ print s', insert env B kek new.filename new.plaintext new.uploadedBy new.cuiAttested s =
    (.ok print, s') → KeepsWhole B kek s' print.id new.plaintext
  rejected : 2 ^ 32 ≤ new.plaintext.length →
    ∃ e s', insert env B kek new.filename new.plaintext new.uploadedBy new.cuiAttested s = (.err e, s')

section
variable {env : Env} {B : Bcrypt} {kek : Octets 32} {new : NewPrint} {s : Store}

/-- Nothing that is made of a plaintext depends on what the casts cut off. -/
theorem sealPrint_asU32 (plaintext : Bytes) : sealPrint env B kek (asU32 plaintext) = sealPrint env B kek plaintext := by
  simp only [sealPrint, Hash.sha256, Cng.sha256, Aead.seal, Cng.aes256GcmEncrypt, asU32_asU32]

theorem insert_cases (D : B.Documented) (kek : Octets 32) (env : Env) (new : NewPrint) (s : Store) :
    (Lands env s new.uploadedBy ∧ ∃ print s',
      insert env B kek new.filename new.plaintext new.uploadedBy new.cuiAttested s = (.ok print, s') ∧
      Stored B kek s' print.id new.filename (asU32 new.plaintext)) ∨
    (¬ Lands env s new.uploadedBy ∧ ∃ e s',
      insert env B kek new.filename new.plaintext new.uploadedBy new.cuiAttested s = (.err e, s')) := by
  rw [insert_eq]
  rcases sealPrint_cases env B kek new.plaintext s with ⟨hbegins, p, hseal⟩ | ⟨hno, e, hseal⟩
  · have hshort : sealPrint env B kek (asU32 new.plaintext) s = (.ok p, s) := by rw [sealPrint_asU32, hseal]
    have hholds := sealPrint_holds D (asU32_short new.plaintext) hshort
    rw [bind_ok hseal]
    rcases storePrint_cases env new.filename new.plaintext.length new.uploadedBy new.cuiAttested p s with
      ⟨hwrite, hrun⟩ | ⟨-, hrefused, e, hrun⟩ | ⟨hwrite, haccepted, print, prints, hid, hins, hrun⟩
    · exact .inr ⟨fun h => Bool.false_ne_true (h.writes.symm.trans hwrite), _, _, hrun⟩
    · exact .inr ⟨fun h => h.accepted hrefused, e, _, hrun⟩
    · refine .inl ⟨⟨hbegins, hwrite, haccepted⟩, print, _, hrun, ?_⟩
      rw [hid]
      exact hholds.stored ((Table.mem_of_insert hins).mpr (.inr rfl)) (if_pos rfl)
  · exact .inr ⟨fun h => hno h.begins, e, s, bind_err hseal _⟩

theorem Stored.keepsWhole_iff {id : Uuid} {filename : Text} {plaintext : Bytes}
    (h : Stored B kek s id filename (asU32 plaintext)) :
    KeepsWhole B kek s id plaintext ↔ plaintext.length < 2 ^ 32 := by
  constructor
  · intro hwhole
    have hquiet : ∀ c ∈ readBlobCalls, (sampleHost 0).fails c = false := fun _ _ => rfl
    have hsame := (h.readsBack _ hquiet).symm.trans (hwhole.reads _ hquiet)
    exact asU32_eq_iff.mp (Outcome.ok.inj (congrArg Prod.fst hsame))
  · intro hlen
    rw [asU32_of_lt hlen] at h
    obtain ⟨print, ⟨⟨row, hfind, hprint⟩, -, -⟩, -, hsha⟩ := h.openable
    exact ⟨⟨row, print, hfind, hprint, hsha.trans (Cng.sha256_of_lt B hlen)⟩, h.readsBack⟩

/-- An insertion that lands is whole below 2^32 bytes, and never from there on. -/
theorem noTruncation_iff (D : B.Documented) :
    NoTruncation env B kek new s ↔ new.plaintext.length < 2 ^ 32 ∨ ¬ Lands env s new.uploadedBy := by
  rcases insert_cases D kek env new s with ⟨hlands, print, s', hrun, hstored⟩ | ⟨hno, e, s', hrun⟩
  · rw [or_iff_left (not_not_intro hlands)]
    constructor
    · exact fun h => hstored.keepsWhole_iff.mp (h.whole print s' hrun)
    · intro hlen
      refine ⟨fun print' t hrun' => ?_, fun hlong => absurd hlen (Nat.not_lt_of_le hlong)⟩
      cases hrun.symm.trans hrun'
      exact hstored.keepsWhole_iff.mpr hlen
  · refine iff_of_true ⟨fun print t hrun' => ?_, fun _ => ⟨e, s', hrun⟩⟩ (.inr hno)
    cases hrun.symm.trans hrun'

end

def zeros (n : ℕ) : NewPrint := { samplePrint with plaintext := List.replicate n 0 }

theorem noTruncation_iff_sample :
    NoTruncation (sampleHost 1) .reference sampleKek samplePrint sampleStore ↔
      samplePrint.plaintext.length < 2 ^ 32 ∨ ¬ Lands (sampleHost 1) sampleStore samplePrint.uploadedBy :=
  noTruncation_iff Bcrypt.reference_documented

theorem lands_sample : Lands (sampleHost 1) sampleStore samplePrint.uploadedBy where
  begins := ⟨rfl, rfl, rfl, rfl, rfl, rfl, rfl⟩
  writes := rfl
  accepted := by
    rw [Refuses]
    decide

/-- 4 GiB are accepted, and what is read back is empty. -/
theorem four_gib_lost :
    (∃ print s', insert (sampleHost 1) .reference sampleKek (zeros (2 ^ 32)).filename (zeros (2 ^ 32)).plaintext
        (zeros (2 ^ 32)).uploadedBy (zeros (2 ^ 32)).cuiAttested sampleStore = (.ok print, s') ∧
      ReadsBack .reference sampleKek s' print.id []) ∧
    ¬ NoTruncation (sampleHost 1) .reference sampleKek (zeros (2 ^ 32)) sampleStore := by
  have hlength : (zeros (2 ^ 32)).plaintext.length = 2 ^ 32 := List.length_replicate
  have hseen : asU32 (zeros (2 ^ 32)).plaintext = [] := by
    rw [asU32, hlength, Nat.mod_self, List.take_zero]
  rcases insert_cases Bcrypt.reference_documented sampleKek (sampleHost 1) (zeros (2 ^ 32)) sampleStore with
    ⟨-, print, s', hrun, hstored⟩ | ⟨hno, -⟩
  · rw [hseen] at hstored
    refine ⟨⟨print, s', hrun, hstored.readsBack⟩, fun h => ?_⟩
    obtain ⟨e, t, hrefused⟩ := h.rejected hlength.ge
    cases hrun.symm.trans hrefused
  · exact absurd lands_sample hno

end PrintStore
end FipsDropbox.Storage
