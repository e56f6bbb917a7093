import FipsDropbox.Audit.Log

/-!
# Tamper evidence of the chain

Two lists that `verify_chain` accepts under one last hash are the same list, or
two canonical byte strings in them collide, or one of them hashes to the genesis
value.
-/
namespace FipsDropbox.Audit
open Utf8

/-- The JSON of an event with its hash cleared determines every other field. -/
def SerdeJson.CanonicalInjective (serde : SerdeJson) : Prop :=
  ∀ e e' b, canonical serde e = some b → canonical serde e' = some b →
    e.chained e.prevHash [] = e'.chained e'.prevHash []

theorem SerdeJson.Injective.canonical {serde : SerdeJson} (h : serde.Injective) :
    serde.CanonicalInjective := by
  intro e e' b he he'
  obtain ⟨t, ht, rfl⟩ := Option.map_eq_some_iff.mp he
  obtain ⟨t', ht', htt⟩ := Option.map_eq_some_iff.mp he'
  obtain rfl := encode_injective htt
  exact h _ _ _ ht ht'

/-- Two different canonical byte strings, one from each list, with one digest. -/
def CanonicalCollision (serde : SerdeJson) (digest : Bytes → Octets 32) (xs ys : List Event) : Prop :=
  ∃ x ∈ xs, ∃ y ∈ ys, ∃ b c, canonical serde x = some b ∧ canonical serde y = some c ∧ b ≠ c ∧
    digest b = digest c

def ZeroDigest (serde : SerdeJson) (digest : Bytes → Octets 32) (xs : List Event) : Prop :=
  ∃ x ∈ xs, ∃ b, canonical serde x = some b ∧ (digest b).val = List.replicate 32 0

theorem hexDigest_genesis {d : Octets 32} (h : hexDigest d = genesisHash) :
    d.val = List.replicate 32 0 := by
  have hz : genesisHash = hexEncode (List.replicate 32 0) := by decide
  exact hexEncode_injective (h.trans hz)

variable {serde : SerdeJson} {B : Bcrypt}

theorem canonicalCollision_of_chain {xs ys : List Event} (h : (chain serde B).Collision xs ys) :
    CanonicalCollision serde (Cng.sha256 B) xs ys := by
  obtain ⟨x, hx, y, hy, b, c, hb, hc, hne, hd⟩ := h
  exact ⟨x, hx, y, hy, b, c, hb, hc, hne, hexDigest_injective hd⟩

theorem zeroDigest_of_chain {xs : List Event} (h : (chain serde B).Preimage genesisHash xs) :
    ZeroDigest serde (Cng.sha256 B) xs := by
  obtain ⟨x, hx, b, hb, hd⟩ := h
  exact ⟨x, hx, b, hb, hexDigest_genesis hd⟩

/-- An event is its canonical JSON together with its hash. -/
theorem event_of_canonical (hinj : serde.CanonicalInjective) (x y : Event) (b : Bytes)
    (hx : canonical serde x = some b) (hy : canonical serde y = some b) (hh : x.hash = y.hash) : x = y := by
  have h := congrArg (fun e : Event => e.chained e.prevHash y.hash) (hinj x y b hx hy)
  have hself : x.chained x.prevHash y.hash = x := by rw [← hh, Event.chained_self]
  exact hself.symm.trans h

theorem linked_unique (hinj : serde.CanonicalInjective) {xs ys : List Event}
    (hx : (chain serde B).Linked genesisHash xs) (hy : (chain serde B).Linked genesisHash ys)
    (ht : (chain serde B).tip genesisHash xs = (chain serde B).tip genesisHash ys) :
    xs = ys ∨ CanonicalCollision serde (Cng.sha256 B) xs ys ∨
      ZeroDigest serde (Cng.sha256 B) (xs ++ ys) := by
  rcases HashChain.linked_unique (event_of_canonical hinj) hx hy ht with h | h | h
  · exact .inl h
  · exact .inr (.inl (canonicalCollision_of_chain h))
  · exact .inr (.inr (zeroDigest_of_chain h))

theorem linked_suffix (hinj : serde.CanonicalInjective) {head : Text} {xs ys : List Event}
    (hx : (chain serde B).Linked genesisHash xs) (hy : (chain serde B).Linked head ys)
    (ht : (chain serde B).tip genesisHash xs = (chain serde B).tip head ys) :
    (∃ zs, xs = zs ++ ys ∧ (chain serde B).Linked genesisHash zs ∧ (chain serde B).tip genesisHash zs = head) ∨
      CanonicalCollision serde (Cng.sha256 B) xs ys ∨ ZeroDigest serde (Cng.sha256 B) ys := by
  rcases HashChain.linked_suffix (event_of_canonical hinj) hx hy ht with h | h | h
  · exact .inl h
  · exact .inr (.inl (canonicalCollision_of_chain h))
  · exact .inr (.inr (zeroDigest_of_chain h))

/-- Below the length that `u32` holds, the digest is the one of the whole string. -/
theorem broken_of_short {xs ys : List Event}
    (hshort : ∀ e ∈ xs ++ ys, ∀ b, canonical serde e = some b → b.length < 2 ^ 32)
    (h : CanonicalCollision serde (Cng.sha256 B) xs ys ∨ ZeroDigest serde (Cng.sha256 B) (xs ++ ys)) :
    CanonicalCollision serde B.hash xs ys ∨ ZeroDigest serde B.hash (xs ++ ys) := by
  rcases h with ⟨x, hx, y, hy, b, c, hb, hc, hne, hd⟩ | ⟨x, hx, b, hb, hd⟩
  · refine .inl ⟨x, hx, y, hy, b, c, hb, hc, hne, ?_⟩
    rwa [Cng.sha256_of_lt B (hshort x (by simp [hx]) b hb),
      Cng.sha256_of_lt B (hshort y (by simp [hy]) c hc)] at hd
  · refine .inr ⟨x, hx, b, hb, ?_⟩
    rwa [Cng.sha256_of_lt B (hshort x hx b hb)] at hd

/-- No insertion, deletion, reordering or edit survives verification against a
known head; `crypto::hash::sha256` is `B.hash` on strings that `u32` can measure. -/
theorem verifyChain_tamper_evident (hinj : serde.CanonicalInjective) {xs ys : List Event}
    {v w : ChainVerification} (hx : verifyChain serde B xs = .ok v) (hv : v.valid = true)
    (hy : verifyChain serde B ys = .ok w) (hw : w.valid = true)
    (hlast : xs.getLast?.map Event.hash = ys.getLast?.map Event.hash) :
    (xs = ys ∨ CanonicalCollision serde (Cng.sha256 B) xs ys ∨
      ZeroDigest serde (Cng.sha256 B) (xs ++ ys)) ∧
    ((∀ e ∈ xs ++ ys, ∀ b, canonical serde e = some b → b.length < 2 ^ 32) →
      xs = ys ∨ CanonicalCollision serde B.hash xs ys ∨ ZeroDigest serde B.hash (xs ++ ys)) := by
  have ht : (chain serde B).tip genesisHash xs = (chain serde B).tip genesisHash ys := by
    rw [HashChain.tip_eq_getLast, HashChain.tip_eq_getLast]
    exact congrArg (·.getD genesisHash) hlast
  have h := linked_unique hinj (verifyFrom_valid hx hv) (verifyFrom_valid hy hw) ht
  exact ⟨h, fun hshort => h.imp_right (broken_of_short hshort)⟩

def stored (prev : Text) (name : String) : Event :=
  (sealAfter .reference .reference prev (sampleEvent name)).getD (sampleEvent name)

theorem sealAfter_stored (prev : Text) (name : String) :
    sealAfter .reference .reference prev (sampleEvent name) = some (stored prev name) := by
  obtain ⟨e, he⟩ := sealAfter_plain_some (B := .reference) SerdeJson.reference_documented
    (sampleEvent_plain name) prev
  rw [stored, he, Option.getD_some]

/-- Two stored events, as in the source's round-trip test. -/
def storedPair : List Event :=
  [stored genesisHash "auth.login", stored (stored genesisHash "auth.login").hash "share.created"]

theorem storedPair_linked : (chain .reference .reference).Linked genesisHash storedPair :=
  ⟨sealAfter_prevHash (sealAfter_stored _ _), (sealAfter_some (sealAfter_stored _ _)).2,
    sealAfter_prevHash (sealAfter_stored _ _), (sealAfter_some (sealAfter_stored _ _)).2, trivial⟩

theorem storedPair_verifies : verifyChain .reference .reference storedPair = .ok ⟨true, none, 2⟩ :=
  (verifyChain_iff_linked storedPair).mpr storedPair_linked

theorem verifyChain_tamper_evident_pair :
    (storedPair = storedPair ∨
      CanonicalCollision .reference (Cng.sha256 .reference) storedPair storedPair ∨
      ZeroDigest .reference (Cng.sha256 .reference) (storedPair ++ storedPair)) ∧
    ((∀ e ∈ storedPair ++ storedPair, ∀ b, canonical .reference e = some b → b.length < 2 ^ 32) →
      storedPair = storedPair ∨ CanonicalCollision .reference Bcrypt.reference.hash storedPair storedPair ∨
        ZeroDigest .reference Bcrypt.reference.hash (storedPair ++ storedPair)) :=
  verifyChain_tamper_evident SerdeJson.reference_injective.canonical storedPair_verifies rfl
    storedPair_verifies rfl rfl

end FipsDropbox.Audit
