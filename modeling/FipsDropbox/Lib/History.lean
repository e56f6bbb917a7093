import Mathlib.Data.List.Basic
import Mathlib.Data.Set.Function

/-!
# Histories

A history is a list of entries, the newest first. `Since` is the past operator of
temporal logic: an entry has been made, and nothing that ends it after that.
-/
namespace FipsDropbox.History
variable {ε : Type} {ends : ε → Prop} {e x : ε} {h : List ε}

def Since (ends : ε → Prop) (e : ε) (h : List ε) : Prop :=
  ∃ newer older, h = newer ++ e :: older ∧ ∀ x ∈ newer, ¬ ends x

theorem Since.mem (hs : Since ends e h) : e ∈ h := by
  obtain ⟨newer, older, rfl, -⟩ := hs
  simp

@[simp] theorem not_since_nil : ¬ Since ends e [] := fun hs => List.not_mem_nil hs.mem

theorem since_new (older : List ε) : Since ends e (e :: older) := ⟨[], older, rfl, by simp⟩

theorem since_cons : Since ends e (x :: h) ↔ x = e ∨ (Since ends e h ∧ ¬ ends x) := by
  constructor
  · rintro ⟨newer, older, hsplit, hno⟩
    cases newer with
    | nil => exact .inl (List.cons.inj hsplit).1
    | cons y newer =>
        obtain ⟨rfl, rfl⟩ := List.cons.inj hsplit
        exact .inr ⟨⟨newer, older, rfl, fun z hz => hno z (List.mem_cons_of_mem x hz)⟩, hno x List.mem_cons_self⟩
  · rintro (rfl | ⟨⟨newer, older, rfl, hno⟩, hx⟩)
    · exact since_new h
    · refine ⟨x :: newer, older, rfl, ?_⟩
      intro z hz
      rcases List.mem_cons.mp hz with rfl | hz
      · exact hx
      · exact hno z hz

section
variable {σ β : Type} {error : Type} {step : σ → ε → Except error σ} {q : ε → Bool} {g : ε → β} {p : σ → β}

/-- A part of the state that only entries of one kind write holds what the latest of them says. -/
theorem latest_of_foldlM {l : List ε} {s s' : σ} (h : l.foldlM step s = .ok s')
    (hstep : ∀ s e s', step s e = .ok s' → p s' = if q e then g e else p s) :
    p s' = ((l.reverse.find? q).map g).getD (p s) := by
  induction l generalizing s with
  | nil =>
      obtain rfl := Except.ok.inj h
      rfl
  | cons e l ih =>
      rw [List.foldlM_cons] at h
      cases hs : step s e with
      | error e' =>
          rw [hs] at h
          cases h
      | ok s₁ =>
          rw [hs] at h
          rw [ih h, hstep s e s₁ hs, List.reverse_cons, List.find?_append]
          cases l.reverse.find? q with
          | some x => rfl
          | none => cases hq : q e <;> simp [hq]

end
end FipsDropbox.History
