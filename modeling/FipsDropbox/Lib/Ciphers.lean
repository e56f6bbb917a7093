import Mathlib.Data.List.Basic

/-!
# Authenticated encryption

A scheme is a pair of functions. The ideal assumption is about the decryptions that an
adversary brings about: one that succeeds under a key the adversary does not know is of
the output of an encryption that was made.
-/
namespace FipsDropbox.Ciphers

structure Scheme (Key Nonce Text Tag : Type) where
  encrypt : Key → Nonce → Text → Text → Text × Tag
  decrypt : Key → Nonce → Text → Text → Tag → Option Text

/-- What a decryption is given beside the key. -/
structure Box (Nonce Text Tag : Type) where
  nonce : Nonce
  aad : Text
  ciphertext : Text
  tag : Tag

/-- What an encryption is given. -/
structure Encryption (Key Nonce Text : Type) where
  key : Key
  nonce : Nonce
  aad : Text
  plaintext : Text

variable {Key Nonce Text Tag : Type}

def Scheme.openBox (S : Scheme Key Nonce Text Tag) (key : Key) (b : Box Nonce Text Tag) : Option Text :=
  S.decrypt key b.nonce b.aad b.ciphertext b.tag

def Encryption.box (S : Scheme Key Nonce Text Tag) (e : Encryption Key Nonce Text) : Box Nonce Text Tag where
  nonce := e.nonce
  aad := e.aad
  ciphertext := (S.encrypt e.key e.nonce e.aad e.plaintext).1
  tag := (S.encrypt e.key e.nonce e.aad e.plaintext).2

def Scheme.Correct (S : Scheme Key Nonce Text Tag) : Prop :=
  ∀ e : Encryption Key Nonce Text, S.openBox e.key (e.box S) = some e.plaintext

/-- Under a key that is not known, no presented box opens but those of the encryptions made. -/
def Scheme.Unforged (S : Scheme Key Nonce Text Tag) (known : Key → Prop)
    (made : List (Encryption Key Nonce Text)) (presented : Key → Box Nonce Text Tag → Prop) : Prop :=
  ∀ key b, ¬ known key → presented key b → (S.openBox key b).isSome = true →
    ∃ e ∈ made, e.key = key ∧ e.box S = b

variable {S : Scheme Key Nonce Text Tag} {known : Key → Prop} {made : List (Encryption Key Nonce Text)}
  {presented : Key → Box Nonce Text Tag → Prop}

theorem Scheme.Unforged.opened (h : S.Unforged known made presented) (correct : S.Correct) {key : Key}
    {b : Box Nonce Text Tag} {text : Text} (hkey : ¬ known key) (hb : presented key b)
    (hopen : S.openBox key b = some text) :
    ∃ e ∈ made, e.key = key ∧ e.aad = b.aad ∧ e.plaintext = text := by
  have hsome : (S.openBox key b).isSome = true := by rw [hopen, Option.isSome_some]
  obtain ⟨e, he, rfl, rfl⟩ := h key b hkey hb hsome
  refine ⟨e, he, rfl, rfl, ?_⟩
  exact Option.some.inj ((correct e).symm.trans hopen)

/-- A key in a box under another key: where the encryptions under the outer key only carry
keys that are not known, what the inner box opens to was encrypted under its own data. -/
theorem Scheme.Unforged.envelope (h : S.Unforged known made presented) (correct : S.Correct)
    {unpack : Text → Option Key} {outer inner : Key} {w b : Box Nonce Text Tag} {packed text : Text}
    (houter : ¬ known outer)
    (hcarry : ∀ e ∈ made, e.key = outer → e.aad = w.aad → ∀ key, unpack e.plaintext = some key → ¬ known key)
    (hw : presented outer w) (hb : presented inner b) (hwopen : S.openBox outer w = some packed)
    (hunpack : unpack packed = some inner) (hopen : S.openBox inner b = some text) :
    ∃ e ∈ made, e.key = inner ∧ e.aad = b.aad ∧ e.plaintext = text := by
  obtain ⟨e, he, hkey, haad, rfl⟩ := h.opened correct houter hw hwopen
  have hinner : ¬ known inner := hcarry e he hkey haad inner hunpack
  exact h.opened correct hinner hb hopen

end FipsDropbox.Ciphers
