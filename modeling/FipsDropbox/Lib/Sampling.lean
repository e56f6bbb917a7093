import Mathlib.Data.Int.CardIntervalMod
import Mathlib.Data.List.GetD
import Mathlib.Probability.Distributions.Uniform

/-!
# Uniform draws

How often a function takes each of its values, and so how likely each is when the argument
is uniform. A letter chosen by the remainder of a draw is met one of two numbers of times,
and over a string of draws these numbers multiply.
-/
namespace FipsDropbox.Sampling
open scoped ENNReal

section
variable {α β γ : Type*}

/-- The arguments that `f` takes to `b`. -/
def draws (f : α → β) (b : β) : Set α := {a | f a = b}

/-- The values of `f` are those with `P`, each taken at least `lo` and at most `hi` times. -/
structure Spread (f : α → β) (P : β → Prop) (lo hi : ℕ) : Prop where
  inside : ∀ a, P (f a)
  least : ∀ b, P b → lo ≤ (draws f b).ncard
  most : ∀ b, P b → (draws f b).ncard ≤ hi

namespace Spread
variable {f : α → β} {P : β → Prop} {lo hi : ℕ}

theorem outside (h : Spread f P lo hi) {b : β} (hb : ¬ P b) : draws f b = ∅ := by
  apply Set.eq_empty_of_forall_notMem
  rintro a rfl
  exact hb (h.inside a)

theorem comp (h : Spread f P lo hi) {g : β → γ} (hg : g.Injective) :
    Spread (fun a => g (f a)) (fun c => ∃ b, P b ∧ g b = c) lo hi := by
  have hdraws (b : β) : draws (fun a => g (f a)) (g b) = draws f b := Set.ext fun a => hg.eq_iff
  refine ⟨fun a => ⟨f a, h.inside a, rfl⟩, ?_, ?_⟩
  · rintro _ ⟨b, hb, rfl⟩
    rw [hdraws]
    exact h.least b hb
  · rintro _ ⟨b, hb, rfl⟩
    rw [hdraws]
    exact h.most b hb

end Spread

theorem draws_map_nil (f : α → β) : draws (List.map f) [] = {[]} := by
  ext as
  exact List.map_eq_nil_iff

theorem draws_map_cons (f : α → β) (b : β) (bs : List β) :
    draws (List.map f) (b :: bs) = (fun p : α × List α => p.1 :: p.2) '' (draws f b ×ˢ draws (List.map f) bs) := by
  ext as
  constructor
  · intro h
    obtain ⟨a, as, rfl, ha, has⟩ := List.map_eq_cons_iff.mp h
    exact ⟨(a, as), ⟨ha, has⟩, rfl⟩
  · rintro ⟨⟨a, as⟩, ⟨rfl, rfl⟩, rfl⟩
    rfl

theorem ncard_draws_map_cons (f : α → β) (b : β) (bs : List β) :
    (draws (List.map f) (b :: bs)).ncard = (draws f b).ncard * (draws (List.map f) bs).ncard := by
  have hcons : Function.Injective fun p : α × List α => p.1 :: p.2 := by
    rintro ⟨a, as⟩ ⟨a', as'⟩ h
    obtain ⟨rfl, rfl⟩ := List.cons.inj h
    rfl
  rw [draws_map_cons, Set.ncard_image_of_injective _ hcons, Set.ncard_prod]

/-- The numbers of the letters multiply. -/
theorem Spread.ncard_map {f : α → β} {P : β → Prop} {lo hi : ℕ} (h : Spread f P lo hi) {bs : List β}
    (hbs : ∀ b ∈ bs, P b) :
    lo ^ bs.length ≤ (draws (List.map f) bs).ncard ∧ (draws (List.map f) bs).ncard ≤ hi ^ bs.length := by
  induction bs with
  | nil => simp [draws_map_nil]
  | cons b bs ih =>
      obtain ⟨hleast, hmost⟩ := ih fun b' hb' => hbs b' (List.mem_cons_of_mem _ hb')
      have hb := hbs b List.mem_cons_self
      rw [ncard_draws_map_cons, List.length_cons, Nat.pow_succ', Nat.pow_succ']
      exact ⟨Nat.mul_le_mul (h.least b hb) hleast, Nat.mul_le_mul (h.most b hb) hmost⟩

theorem Spread.map {f : α → β} {P : β → Prop} {lo hi : ℕ} (h : Spread f P lo hi) (n : ℕ) :
    Spread (fun as : { as : List α // as.length = n } => as.val.map f)
      (fun bs => bs.length = n ∧ ∀ b ∈ bs, P b) (lo ^ n) (hi ^ n) := by
  have hdraws {bs : List β} (hn : bs.length = n) :
      (draws (fun as : { as : List α // as.length = n } => as.val.map f) bs).ncard =
        (draws (List.map f) bs).ncard := by
    rw [← Set.ncard_image_of_injective _ Subtype.val_injective]
    congr 1
    ext as
    constructor
    · rintro ⟨as, rfl, rfl⟩
      rfl
    · rintro rfl
      exact ⟨⟨as, (List.length_map f).symm.trans hn⟩, rfl, rfl⟩
  refine ⟨?_, ?_, ?_⟩
  · rintro ⟨as, rfl⟩
    refine ⟨List.length_map f, ?_⟩
    intro b hb
    obtain ⟨a, -, rfl⟩ := List.mem_map.mp hb
    exact h.inside a
  · rintro bs ⟨rfl, hbs⟩
    rw [hdraws rfl]
    exact (h.ncard_map hbs).1
  · rintro bs ⟨rfl, hbs⟩
    rw [hdraws rfl]
    exact (h.ncard_map hbs).2

theorem ncard_remainder (N : ℕ) {m k : ℕ} (hk : k < m) :
    (draws (fun n : Fin N => n.val % m) k).ncard = N / m + if k < N % m then 1 else 0 := by
  have hrange : Fin.val '' draws (fun n : Fin N => n.val % m) k =
      ((Finset.range N).filter fun n => n ≡ k [MOD m] : Finset ℕ) := by
    ext n
    simp only [draws, Set.mem_image, Set.mem_ofPred_eq, Finset.coe_filter, Finset.mem_range, Nat.ModEq,
      Nat.mod_eq_of_lt hk]
    constructor
    · rintro ⟨n, hn, rfl⟩
      exact ⟨n.isLt, hn⟩
    · rintro ⟨hlt, hn⟩
      exact ⟨⟨n, hlt⟩, hn, rfl⟩
  rw [← Set.ncard_image_of_injective _ Fin.val_injective, hrange, Set.ncard_coe_finset,
    ← Nat.count_eq_card_filter_range, Nat.count_modEq_card _ (Nat.zero_lt_of_lt hk), Nat.mod_eq_of_lt hk]

theorem getD_eq_iff {letters : List β} (hnodup : letters.Nodup) {fallback : β} {n k : ℕ} (hn : n < letters.length)
    (hk : k < letters.length) : letters.getD n fallback = letters[k] ↔ n = k := by
  rw [List.getD_eq_getElem _ _ hn, hnodup.getElem_inj_iff]

/-- A letter chosen by the remainder of one of `N` draws. -/
theorem spread_letter {N : ℕ} (e : α ≃ Fin N) {letters : List β} (hnodup : letters.Nodup)
    (hne : 0 < letters.length) (fallback : β) :
    Spread (fun a => letters.getD ((e a).val % letters.length) fallback) (· ∈ letters)
      (N / letters.length) (N / letters.length + 1) := by
  have hcount : ∀ b ∈ letters, ∃ k : ℕ,
      (draws (fun a => letters.getD ((e a).val % letters.length) fallback) b).ncard =
        N / letters.length + if k < N % letters.length then 1 else 0 := by
    intro b hb
    obtain ⟨k, hk, rfl⟩ := List.getElem_of_mem hb
    have hdraws : e '' draws (fun a => letters.getD ((e a).val % letters.length) fallback) letters[k] =
        draws (fun n : Fin N => n.val % letters.length) k := by
      rw [e.image_eq_preimage_symm]
      ext n
      simp only [draws, Set.mem_preimage, Set.mem_ofPred_eq, Equiv.apply_symm_apply,
        getD_eq_iff hnodup (Nat.mod_lt n.val hne) hk]
    refine ⟨k, ?_⟩
    rw [← ncard_remainder N hk, ← hdraws, Set.ncard_image_of_injective _ e.injective]
  refine ⟨?_, ?_, ?_⟩
  · intro a
    rw [List.getD_eq_getElem _ _ (Nat.mod_lt _ hne)]
    exact List.getElem_mem _
  · intro b hb
    obtain ⟨k, hk⟩ := hcount b hb
    rw [hk]
    exact Nat.le_add_right _ _
  · intro b hb
    obtain ⟨k, hk⟩ := hcount b hb
    rw [hk]
    split_ifs <;> omega

end

section
variable {α β : Type*} [Fintype α] [Nonempty α] {f : α → β} {P : β → Prop} {lo hi : ℕ}

theorem map_uniform_apply (f : α → β) (b : β) :
    (PMF.uniformOfFintype α).map f b = (draws f b).ncard / (Fintype.card α : ℝ≥0∞) := by
  classical
  have hevent : (PMF.uniformOfFintype α).map f b = (PMF.uniformOfFintype α).toOuterMeasure (draws f b) := by
    rw [← PMF.toOuterMeasure_apply_singleton, PMF.toOuterMeasure_map_apply]
    rfl
  rw [hevent, PMF.toOuterMeasure_uniformOfFintype_apply, ← Nat.card_eq_fintype_card, Nat.card_coe_set_eq]

/-- No value is more likely than the largest number of draws makes it. -/
theorem Spread.prob_le (h : Spread f P lo hi) (b : β) :
    (PMF.uniformOfFintype α).map f b ≤ hi / (Fintype.card α : ℝ≥0∞) := by
  rw [map_uniform_apply]
  apply ENNReal.div_le_div_right
  by_cases hb : P b
  · exact Nat.cast_le.mpr (h.most b hb)
  · rw [h.outside hb, Set.ncard_empty]
    exact Nat.cast_le.mpr (Nat.zero_le hi)

/-- The share of `n` in `N`, for each of `k` draws. -/
theorem natCast_pow_div (n N k : ℕ) : ((n ^ k : ℕ) : ℝ≥0∞) / ((N ^ k : ℕ) : ℝ≥0∞) = (n / N) ^ k := by
  rw [Nat.cast_pow, Nat.cast_pow, ENNReal.div_eq_inv_mul, ENNReal.div_eq_inv_mul, mul_pow, ENNReal.inv_pow]

theorem ratio_pow_lt {n N k m : ℕ} (hN : 0 < N) (h : n ^ k * 2 ^ m < N ^ k) :
    ((n : ℝ≥0∞) / N) ^ k < (2 ^ m)⁻¹ := by
  have hpos : ((N ^ k : ℕ) : ℝ≥0∞) ≠ 0 := Nat.cast_ne_zero.mpr (Nat.pow_pos hN).ne'
  have hcast : ((n ^ k : ℕ) : ℝ≥0∞) * 2 ^ m < ((N ^ k : ℕ) : ℝ≥0∞) := by exact_mod_cast h
  rw [← natCast_pow_div, ENNReal.div_lt_iff (.inl hpos) (.inl (ENNReal.natCast_ne_top _)), ← ENNReal.div_eq_inv_mul,
    ENNReal.lt_div_iff_mul_lt (.inl (by simp)) (.inl (by simp))]
  exact hcast

end
end FipsDropbox.Sampling
