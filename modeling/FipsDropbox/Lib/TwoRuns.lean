import FipsDropbox.Lib.Exec

/-!
# Two runs from one state

Two computations are alike when they leave one state and end alike, up to a relation of
their values. Alikeness follows the structure of the computations, so what depends on a
secret is confined to the values that are related and not equal.
-/
namespace FipsDropbox

/-- Outcomes that differ at most in related values. -/
inductive Outcome.Alike {ε α β : Type} (A : α → β → Prop) : Outcome ε α → Outcome ε β → Prop
  | ok {a : α} {b : β} (h : A a b) : Alike A (.ok a) (.ok b)
  | err (e : ε) : Alike A (.err e) (.err e)
  | panic : Alike A .panic .panic

namespace Exec
variable {σ τ ε ε' α β γ δ : Type} {A : α → β → Prop} {C : γ → δ → Prop}

def Alike (A : α → β → Prop) (m : Exec σ ε α) (n : Exec σ ε β) : Prop :=
  ∀ s, Outcome.Alike A (m s).1 (n s).1 ∧ (n s).2 = (m s).2

theorem alike_refl (m : Exec σ ε α) : Alike Eq m m := by
  intro s
  refine ⟨?_, rfl⟩
  cases (m s).1 with
  | ok a => exact .ok rfl
  | err e => exact .err e
  | panic => exact .panic

theorem alike_pure {a : α} {b : β} (h : A a b) : Alike A (pure a : Exec σ ε α) (pure b) :=
  fun _ => ⟨.ok h, rfl⟩

/-- The three ways in which two runs end. -/
theorem Alike.ends {m : Exec σ ε α} {n : Exec σ ε β} (h : Alike A m n) (s : σ) :
    (∃ a b s', m s = (.ok a, s') ∧ n s = (.ok b, s') ∧ A a b) ∨
    (∃ e s', m s = (.err e, s') ∧ n s = (.err e, s')) ∨
    ∃ s', m s = (.panic, s') ∧ n s = (.panic, s') := by
  obtain ⟨hout, hstate⟩ := h s
  rcases hm : m s with ⟨o, s'⟩
  rcases hn : n s with ⟨o', t'⟩
  rw [hm, hn] at hout hstate
  obtain rfl : t' = s' := hstate
  cases hout with
  | ok hab => exact .inl ⟨_, _, t', rfl, rfl, hab⟩
  | err e => exact .inr (.inl ⟨e, t', rfl, rfl⟩)
  | panic => exact .inr (.inr ⟨t', rfl, rfl⟩)

theorem Alike.bind {m : Exec σ ε α} {n : Exec σ ε β} {k : α → Exec σ ε γ} {l : β → Exec σ ε δ}
    (hm : Alike A m n) (hk : ∀ a b, A a b → Alike C (k a) (l b)) : Alike C (m >>= k) (n >>= l) := by
  intro s
  rcases hm.ends s with ⟨a, b, s', hm, hn, hab⟩ | ⟨e, s', hm, hn⟩ | ⟨s', hm, hn⟩
  · rw [bind_ok hm, bind_ok hn]
    exact hk a b hab s'
  · rw [bind_err hm, bind_err hn]
    exact ⟨.err e, rfl⟩
  · rw [bind_panic hm, bind_panic hn]
    exact ⟨.panic, rfl⟩

/-- A common first part. -/
theorem Alike.after (m : Exec σ ε α) {k : α → Exec σ ε γ} {l : α → Exec σ ε δ}
    (hk : ∀ a, Alike C (k a) (l a)) : Alike C (m >>= k) (m >>= l) := by
  refine (alike_refl m).bind ?_
  rintro a b rfl
  exact hk a

theorem Alike.adapt {f : ε → ε'} {m : Exec σ ε α} {n : Exec σ ε β} (h : Alike A m n) :
    Alike A (adapt f m) (adapt f n) := by
  intro s
  rcases h.ends s with ⟨a, b, s', hm, hn, hab⟩ | ⟨e, s', hm, hn⟩ | ⟨s', hm, hn⟩ <;>
    simp only [Exec.adapt, hm, hn]
  · exact ⟨.ok hab, trivial⟩
  · exact ⟨.err (f e), trivial⟩
  · exact ⟨.panic, trivial⟩

theorem Alike.zoom {get : τ → σ} {set : σ → τ → τ} {m : Exec σ ε α} {n : Exec σ ε β} (h : Alike A m n) :
    Alike A (zoom get set m) (zoom get set n) := by
  intro t
  refine ⟨(h (get t)).1, ?_⟩
  simp only [Exec.zoom, (h (get t)).2]

theorem Alike.locked {L : Lock σ} {e : ε} {m : Exec σ ε α} {n : Exec σ ε β} (h : Alike A m n) :
    Alike A (locked L e m) (locked L e n) := by
  intro s
  cases hp : L.poisoned s with
  | true =>
      simp only [Exec.locked, hp, if_true]
      exact ⟨.err e, trivial⟩
  | false =>
      rcases h.ends s with ⟨a, b, s', hm, hn, hab⟩ | ⟨e', s', hm, hn⟩ | ⟨s', hm, hn⟩ <;>
        simp only [Exec.locked, hp, hm, hn, Bool.false_eq_true, if_false]
      · exact ⟨.ok hab, trivial⟩
      · exact ⟨.err e', trivial⟩
      · exact ⟨.panic, trivial⟩

theorem Alike.task {e : ε} {m : Exec σ ε α} {n : Exec σ ε β} (h : Alike A m n) :
    Alike A (task e m) (task e n) := by
  intro s
  rcases h.ends s with ⟨a, b, s', hm, hn, hab⟩ | ⟨e', s', hm, hn⟩ | ⟨s', hm, hn⟩ <;>
    simp only [Exec.task, hm, hn]
  · exact ⟨.ok hab, trivial⟩
  · exact ⟨.err e', trivial⟩
  · exact ⟨.err e, trivial⟩

end Exec
end FipsDropbox
