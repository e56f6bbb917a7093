import Mathlib.Data.List.Forall2
import Mathlib.Data.Set.Basic
import Mathlib.Logic.Basic

/-!
# Runs

Inputs one after the other, each at the state that the ones before it have left.
-/
namespace FipsDropbox.Runs
variable {σ ι : Type*} {step : σ → ι → σ} {P Q : σ → ι → Prop} {s : σ} {is : List ι}

/-- A property of every input and the state it finds. -/
def Throughout (step : σ → ι → σ) (P : σ → ι → Prop) : σ → List ι → Prop
  | _, [] => True
  | s, i :: is => P s i ∧ Throughout step P (step s i) is

/-- Under an invariant, one property follows from another in every run. -/
theorem Throughout.imp (h : Throughout step P s is) (I : σ → Prop) (hs : I s)
    (hkeep : ∀ s i, I s → P s i → I (step s i)) (himp : ∀ s i, I s → P s i → Q s i) :
    Throughout step Q s is := by
  induction is generalizing s with
  | nil => trivial
  | cons i is ih => exact ⟨himp s i hs h.1, ih h.2 (hkeep s i hs h.1)⟩

theorem Throughout.and (h : Throughout step P s is) (h' : Throughout step Q s is) :
    Throughout step (fun s i => P s i ∧ Q s i) s is := by
  induction is generalizing s with
  | nil => trivial
  | cons i is ih => exact ⟨⟨h.1, h'.1⟩, ih h.2 h'.2⟩

theorem Throughout.and_forall {R : ι → Prop} (h : Throughout step P s is) (hR : ∀ i ∈ is, R i) :
    Throughout step (fun s i => P s i ∧ R i) s is := by
  induction is generalizing s with
  | nil => trivial
  | cons i is ih =>
      exact ⟨⟨h.1, hR i List.mem_cons_self⟩, ih h.2 fun j hj => hR j (List.mem_cons_of_mem i hj)⟩

/-- What every step keeps under its property holds at the end of every run. -/
theorem Throughout.keeps (h : Throughout step P s is) (I : σ → Prop) (hs : I s)
    (hkeep : ∀ s i, I s → P s i → I (step s i)) : I (is.foldl step s) := by
  induction is generalizing s with
  | nil => exact hs
  | cons i is ih => exact ih h.2 (hkeep s i hs h.1)

/-- What is there after a run was there before it, or was gained in one of its steps. -/
theorem gained {ρ : Type*} {H : σ → Set ρ} {G : σ → ι → Set ρ} (hstep : ∀ s i, H (step s i) ⊆ H s ∪ G s i)
    (is : List ι) {s : σ} {r : ρ} (hr : r ∈ H (is.foldl step s)) :
    r ∈ H s ∨ ∃ before i after, is = before ++ i :: after ∧ r ∈ G (before.foldl step s) i := by
  induction is generalizing s with
  | nil => exact .inl hr
  | cons i is ih =>
      rcases ih hr with hs | ⟨before, j, after, rfl, hj⟩
      · rcases hstep s i hs with hs | hi
        · exact .inl hs
        · exact .inr ⟨[], i, is, rfl, hi⟩
      · exact .inr ⟨i :: before, j, after, rfl, hj⟩

section
variable {α β : Type*} {R : α → β → Prop} {as : List α} {bs : List β}

theorem exists_right (h : List.Forall₂ R as bs) : ∀ a ∈ as, ∃ b ∈ bs, R a b := by
  induction h with
  | nil => exact fun a ha => absurd ha List.not_mem_nil
  | cons hR _ ih =>
      refine List.forall_mem_cons.mpr ⟨⟨_, List.mem_cons_self, hR⟩, fun a ha => ?_⟩
      obtain ⟨b, hb, hab⟩ := ih a ha
      exact ⟨b, List.mem_cons_of_mem _ hb, hab⟩

theorem exists_left (h : List.Forall₂ R as bs) : ∀ b ∈ bs, ∃ a ∈ as, R a b := exists_right h.flip

/-- No more steps of a kind than steps of the kind of their partners. -/
theorem countP_le_of_forall₂ (h : List.Forall₂ R as bs) {p : α → Bool} {q : β → Bool}
    (hpq : ∀ a, ∀ b ∈ bs, R a b → p a = true → q b = true) : as.countP p ≤ bs.countP q := by
  induction h with
  | nil => exact Nat.le_refl _
  | @cons a b as bs hR _ ih =>
      have hrest := ih fun a' b' hb' => hpq a' b' (List.mem_cons_of_mem b hb')
      have hhead := hpq a b List.mem_cons_self hR
      rw [List.countP_cons, List.countP_cons]
      by_cases hp : p a = true
      · rw [if_pos hp, if_pos (hhead hp)]
        omega
      · rw [if_neg hp]
        omega

end

end FipsDropbox.Runs
