import FipsDropbox.Audit.Chain

/-!
# The verdict of `verify_chain`

The answer is the one at the first event that breaks the chain. An event whose
`prev_hash` is right but which has no JSON ends the walk with the serializer's
error, so for such an event there is no verdict at all.
-/
namespace FipsDropbox.Audit
open Utf8

variable (serde : SerdeJson) (B : Bcrypt)

/-- Event `i` does not point at its predecessor's hash, the genesis value for the
first, or its own hash is not the digest of its canonical JSON. -/
def Breaks (digest : Bytes → Octets 32) (events : List Event) (i : ℕ) : Prop :=
  ∃ e, events[i]? = some e ∧
    ¬ (e.prevHash = (chain serde B).before genesisHash events i ∧
      ∃ b, canonical serde e = some b ∧ hexDigest (digest b) = e.hash)

def Unspelled (g : Text) (events : List Event) (i : ℕ) : Prop :=
  ∃ e, events[i]? = some e ∧ e.prevHash = (chain serde B).before g events i ∧ canonical serde e = none

/-- What is reported of the events checked so far when event `k` is the first to break. -/
def brokenAt (k : ℕ) : ChainVerification := ⟨false, some k, k⟩

variable {serde B}

theorem breaks_eq (events : List Event) :
    Breaks serde B (Cng.sha256 B) events = (chain serde B).Broken genesisHash events := rfl

theorem unspelled_cons_succ (g : Text) (e : Event) (events : List Event) (i : ℕ) :
    Unspelled serde B g (e :: events) (i + 1) ↔ Unspelled serde B e.hash events i := by
  by_cases hi : i < events.length
  · simp only [Unspelled, List.getElem?_cons_succ, (chain serde B).before_cons_succ g e events i hi]
    rfl
  · have hnone : events[i]? = none := List.getElem?_eq_none (Nat.le_of_not_lt hi)
    simp only [Unspelled, List.getElem?_cons_succ, hnone, reduceCtorEq, false_and, exists_false]

theorem unspelled_cons_zero (g : Text) (e : Event) (events : List Event) :
    Unspelled serde B g (e :: events) 0 ↔ e.prevHash = g ∧ canonical serde e = none := by
  simp only [Unspelled, List.getElem?_cons_zero, Option.some.injEq, exists_eq_left', HashChain.before]

theorem verifyFrom_unspelled {g : Text} {e : Event} (rest : List Event) (i : ℕ) (hp : e.prevHash = g)
    (hc : canonical serde e = none) : verifyFrom serde B g i (e :: rest) = .error .serde := by
  have hv : serde.toVec (e.chained e.prevHash []) = none := hc
  rw [verifyFrom, if_neg (not_not.mpr hp), hv]

theorem verifyFrom_head {g : Text} {e : Event} (rest : List Event) (i : ℕ)
    (h : ¬ (e.prevHash = g ∧ (chain serde B).Sealed e)) :
    (e.prevHash = g ∧ canonical serde e = none ∧ verifyFrom serde B g i (e :: rest) = .error .serde) ∨
      ¬ (e.prevHash = g ∧ canonical serde e = none) ∧
        verifyFrom serde B g i (e :: rest) = .ok (brokenAt i) := by
  by_cases hp : e.prevHash = g
  · cases hc : canonical serde e with
    | none => exact .inl ⟨hp, rfl, verifyFrom_unspelled rest i hp hc⟩
    | some b =>
        have hv : serde.toVec (e.chained e.prevHash []) = some b := hc
        have hd : hexDigest (Cng.sha256 B b) ≠ e.hash := fun hd => h ⟨hp, b, hc, hd⟩
        refine .inr ⟨fun hn => Option.some_ne_none b hn.2, ?_⟩
        rw [verifyFrom, if_neg (not_not.mpr hp), hv]
        dsimp only
        rw [if_pos hd]
        rfl
  · refine .inr ⟨fun hn => hp hn.1, ?_⟩
    rw [verifyFrom, if_pos hp]
    rfl

theorem verifyFrom_next {g : Text} {e : Event} {rest : List Event} (i : ℕ) (hp : e.prevHash = g)
    (hs : (chain serde B).Sealed e) :
    verifyFrom serde B g i (e :: rest) = verifyFrom serde B e.hash (i + 1) rest := by
  obtain ⟨b, hb, hd⟩ := hs
  have hv : serde.toVec (e.chained e.prevHash []) = some b := hb
  have hd' : hexDigest (Cng.sha256 B b) = e.hash := hd
  rw [verifyFrom, if_neg (not_not.mpr hp), hv]
  dsimp only
  rw [if_neg (not_not.mpr hd')]

/-- The loop stops at the first event that breaks the chain. -/
theorem verifyFrom_least {g : Text} {events : List Event} {k : ℕ} (i : ℕ)
    (h : IsLeast {j | (chain serde B).Broken g events j} k) :
    (Unspelled serde B g events k ∧ verifyFrom serde B g i events = .error .serde) ∨
      (¬ Unspelled serde B g events k ∧ verifyFrom serde B g i events = .ok (brokenAt (i + k))) := by
  induction events generalizing g i k with
  | nil => exact absurd h.1 ((chain serde B).not_broken_nil g k)
  | cons e rest ih =>
      rcases (chain serde B).least_broken_cons h with ⟨rfl, hb⟩ | ⟨j, rfl, hp, hs, hj⟩
      · rw [unspelled_cons_zero]
        rcases verifyFrom_head rest i hb with ⟨hp, hc, hv⟩ | ⟨hn, hv⟩
        · exact .inl ⟨⟨hp, hc⟩, hv⟩
        · exact .inr ⟨hn, hv⟩
      · rw [unspelled_cons_succ, verifyFrom_next i hp hs]
        rw [show i + (j + 1) = i + 1 + j by omega]
        exact ih (i + 1) hj

theorem unspelled_take {g : Text} {events events' : List Event} {k : ℕ}
    (heq : events'.take (k + 1) = events.take (k + 1)) :
    Unspelled serde B g events' k ↔ Unspelled serde B g events k := by
  have hget (i : ℕ) (hi : i ≤ k) : events'[i]? = events[i]? := by
    rw [← List.getElem?_take_of_lt (Nat.lt_succ_of_le hi), heq,
      List.getElem?_take_of_lt (Nat.lt_succ_of_le hi)]
  have hbefore : (chain serde B).before g events' k = (chain serde B).before g events k := by
    cases k with
    | zero => rfl
    | succ k => simp only [HashChain.before, hget k (Nat.le_succ k)]
  simp only [Unspelled, hget k le_rfl, hbefore]

theorem verifyChain_local {events events' : List Event} {k : ℕ}
    (h : IsLeast {i | Breaks serde B (Cng.sha256 B) events i} k)
    (heq : events'.take (k + 1) = events.take (k + 1)) :
    verifyChain serde B events' = verifyChain serde B events := by
  rw [breaks_eq] at h
  have h' := (chain serde B).least_broken_take h heq
  have hu : Unspelled serde B genesisHash events' k ↔ Unspelled serde B genesisHash events k := unspelled_take heq
  rcases verifyFrom_least 0 h with ⟨hs, hv⟩ | ⟨hs, hv⟩ <;>
    rcases verifyFrom_least 0 h' with ⟨hs', hv'⟩ | ⟨hs', hv'⟩
  · rw [verifyChain, verifyChain, hv, hv']
  · exact absurd (hu.mpr hs) hs'
  · exact absurd (hu.mp hs') hs
  · rw [verifyChain, verifyChain, hv, hv']

/-- `verify_chain` is exact for the chain conditions over `digest`. -/
structure ExactVerdict (serde : SerdeJson) (B : Bcrypt) (digest : Bytes → Octets 32) (events : List Event) :
    Prop where
  accepts : verifyChain serde B events = .ok ⟨true, none, events.length⟩ ↔
    ∀ i, ¬ Breaks serde B digest events i
  rejects : (∃ i, Breaks serde B digest events i) → ∃ k, IsLeast {i | Breaks serde B digest events i} k ∧
    (Unspelled serde B genesisHash events k → verifyChain serde B events = .error .serde) ∧
    (¬ Unspelled serde B genesisHash events k → verifyChain serde B events = .ok ⟨false, some k, k⟩)
  prefixLocal : ∀ k, IsLeast {i | Breaks serde B digest events i} k → ∀ events' : List Event,
    events'.take (k + 1) = events.take (k + 1) → verifyChain serde B events' = verifyChain serde B events

theorem exactVerdict (events : List Event) : ExactVerdict serde B (Cng.sha256 B) events where
  accepts := by
    rw [breaks_eq]
    exact (verifyChain_iff_linked events).trans ((chain serde B).linked_iff_not_broken genesisHash events)
  rejects h := by
    classical
    rw [breaks_eq] at h ⊢
    have hleast : IsLeast {i | (chain serde B).Broken genesisHash events i} (Nat.find h) :=
      ⟨Nat.find_spec h, fun i hi => Nat.find_min' h hi⟩
    refine ⟨Nat.find h, hleast, ?_⟩
    rcases verifyFrom_least 0 hleast with ⟨hu, hv⟩ | ⟨hu, hv⟩
    · exact ⟨fun _ => hv, fun hn => absurd hu hn⟩
    · refine ⟨fun hn => absurd hn hu, fun _ => ?_⟩
      rw [verifyChain, hv, Nat.zero_add]
      rfl
  prefixLocal _ h _ heq := verifyChain_local h heq

theorem breaks_of_short {events : List Event}
    (hshort : ∀ e ∈ events, ∀ b, canonical serde e = some b → b.length < 2 ^ 32) :
    Breaks serde B (Cng.sha256 B) events = Breaks serde B B.hash events := by
  funext i
  refine propext (exists_congr fun e => and_congr_right fun he => not_congr (and_congr_right fun _ => ?_))
  refine exists_congr fun b => and_congr_right fun hb => ?_
  rw [Cng.sha256_of_lt B (hshort e (List.mem_of_getElem? he) b hb)]

/-- The verdict is exact for the digest that `crypto::hash::sha256` computes, and so
for SHA-256 itself where no canonical JSON is longer than `u32` can say. -/
theorem verifyChain_exact (serde : SerdeJson) (B : Bcrypt) (events : List Event) :
    ExactVerdict serde B (Cng.sha256 B) events ∧
      ((∀ e ∈ events, ∀ b, canonical serde e = some b → b.length < 2 ^ 32) →
        ExactVerdict serde B B.hash events) := by
  refine ⟨exactVerdict events, fun hshort => ?_⟩
  have h : ExactVerdict serde B (Cng.sha256 B) events := exactVerdict events
  constructor
  · rw [← breaks_of_short hshort]
    exact h.accepts
  · rw [← breaks_of_short hshort]
    exact h.rejects
  · rw [← breaks_of_short hshort]
    exact h.prefixLocal

def beforeYearZero : Event where
  ts := ⟨-62167219200 * nanosPerSecond - 1, 0, by decide⟩
  event := "auth.login".toList
  actor := ⟨none, "127.0.0.1".toList, "test".toList⟩
  target := .object []
  outcome := .success
  «meta» := .object []
  prevHash := genesisHash
  hash := []

theorem beforeYearZero_unspelled : canonical .reference beforeYearZero = none := by
  have hformat : Rfc3339.format beforeYearZero.ts = none := by decide
  have hstring : SerdeJson.reference.toString (beforeYearZero.chained beforeYearZero.prevHash []) = none := by
    simp only [SerdeJson.reference, Event.chained, hformat, Option.map_none, ite_self]
  rw [canonical, SerdeJson.toVec, hstring, Option.map_none]

/-- Its hash is the digest of nothing, yet there is no verdict on it. -/
theorem verifyChain_no_verdict :
    IsLeast {i | Breaks .reference .reference Bcrypt.reference.hash [beforeYearZero] i} 0 ∧
      verifyChain .reference .reference [beforeYearZero] = .error .serde := by
  refine ⟨⟨⟨beforeYearZero, rfl, ?_⟩, fun _ _ => Nat.zero_le _⟩, ?_⟩
  · rintro ⟨-, b, hb, -⟩
    rw [beforeYearZero_unspelled] at hb
    cases hb
  · exact verifyFrom_unspelled [] 0 rfl beforeYearZero_unspelled

end FipsDropbox.Audit
