import Mathlib.Data.Int.Notation
import Mathlib.Data.List.Count
import Mathlib.Logic.Function.Basic

/-!
# A vault

Files are kept under keys for whoever has their secrets. A ticket says what its file is and
how often, until when and under which secrets it may be collected; it can be withdrawn. What
a run of the vault hands out was deposited, and no more often than its ticket says.
-/
namespace FipsDropbox.Vault

structure Ticket (S F : Type) where
  secrets : S
  file : F
  left : ℕ
  deadline : ℤ
  withdrawn : Bool

/-- One collection later. -/
def Ticket.collected {S F : Type} (t : Ticket S F) : Ticket S F := { t with left := t.left - 1 }

def Ticket.withdraw {S F : Type} (t : Ticket S F) : Ticket S F := { t with withdrawn := true }

abbrev Tickets (K S F : Type) := K → Option (Ticket S F)

inductive Event (K S F : Type) where
  | pass
  | deposit (key : K) (ticket : Ticket S F)
  /-- Without a file, the turn is gone all the same. -/
  | collect (key : K) (secrets : S) (time : ℤ) (file : Option F)
  | withdraw (key : K)

section
variable {K S F : Type} [DecidableEq K]

def empty : Tickets K S F := fun _ => none

def put (V : Tickets K S F) (k : K) (t : Ticket S F) : Tickets K S F := Function.update V k (some t)

/-- The steps of the vault. -/
inductive Step : Tickets K S F → Event K S F → Tickets K S F → Prop
  | pass (V : Tickets K S F) : Step V .pass V
  | deposit {V : Tickets K S F} {k : K} {t : Ticket S F} (hnew : V k = none) (hopen : t.withdrawn = false) :
      Step V (.deposit k t) (put V k t)
  | collect {V : Tickets K S F} {k : K} {t : Ticket S F} {time : ℤ} {file : Option F} (hkept : V k = some t)
      (hopen : t.withdrawn = false) (hleft : 0 < t.left) (htime : time < t.deadline)
      (hfile : ∀ f, file = some f → f = t.file) :
      Step V (.collect k t.secrets time file) (put V k t.collected)
  | withdraw {V : Tickets K S F} {k : K} {t : Ticket S F} (hkept : V k = some t) :
      Step V (.withdraw k) (put V k t.withdraw)

inductive Run : Tickets K S F → List (Event K S F) → Tickets K S F → Prop
  | nil (V : Tickets K S F) : Run V [] V
  | cons {V V' V'' : Tickets K S F} {e : Event K S F} {es : List (Event K S F)} (h : Step V e V')
      (hrest : Run V' es V'') : Run V (e :: es) V''

def collects (k : K) : Event K S F → Bool
  | .collect key .. => key = k
  | _ => false

def touches (k : K) : Event K S F → Bool
  | .pass => false
  | .deposit key _ | .collect key .. | .withdraw key => key = k

theorem collects_touches {k : K} {e : Event K S F} (h : collects k e = true) : touches k e = true := by
  cases e with
  | collect key => exact h
  | _ => cases h

/-- A ticket was deposited, and what is left of it is what was not collected. -/
structure Accounted (past : List (Event K S F)) (k : K) (t : Ticket S F) (first : Ticket S F) : Prop where
  deposited : .deposit k first ∈ past
  secrets : t.secrets = first.secrets
  file : t.file = first.file
  deadline : t.deadline = first.deadline
  left : t.left + past.countP (collects k) = first.left
  withdrawn : .withdraw k ∈ past → t.withdrawn = true
  collected : ∀ secrets time file, .collect k secrets time file ∈ past → secrets = first.secrets

/-- Whatever the vault has is accounted for, and what it does not have was never touched. -/
structure Accounts (past : List (Event K S F)) (V : Tickets K S F) : Prop where
  kept : ∀ k t, V k = some t → ∃ first, Accounted past k t first
  absent : ∀ k, V k = none → ∀ e ∈ past, touches k e = false

theorem accounts_empty : Accounts [] (empty : Tickets K S F) where
  kept k t h := by cases h
  absent k h e he := absurd he List.not_mem_nil

theorem put_same (V : Tickets K S F) (k : K) (t : Ticket S F) : put V k t k = some t := Function.update_self ..

theorem put_other {V : Tickets K S F} {k k' : K} (h : k' ≠ k) (t : Ticket S F) : put V k t k' = V k' :=
  Function.update_of_ne h ..

section
variable {past : List (Event K S F)} {V V' : Tickets K S F} {e : Event K S F} {k : K} {t first : Ticket S F}

theorem Accounted.other (h : Accounted past k t first) (he : touches k e = false) :
    Accounted (past ++ [e]) k t first where
  deposited := List.mem_append_left _ h.deposited
  secrets := h.secrets
  file := h.file
  deadline := h.deadline
  left := by
    have hno : collects k e = false := by
      rw [Bool.eq_false_iff]
      intro hc
      rw [collects_touches hc] at he
      cases he
    rw [List.countP_append, List.countP_singleton, hno, if_neg Bool.false_ne_true, Nat.add_zero]
    exact h.left
  withdrawn hm := by
    rcases List.mem_append.mp hm with hm | hm
    · exact h.withdrawn hm
    · rw [← List.mem_singleton.mp hm] at he
      simp [touches] at he
  collected secrets time file hm := by
    rcases List.mem_append.mp hm with hm | hm
    · exact h.collected secrets time file hm
    · rw [← List.mem_singleton.mp hm] at he
      simp [touches] at he

theorem Accounts.others (h : Accounts past V) (he : ∀ k', k' ≠ k → touches k' e = false)
    (hk : ∃ first, Accounted (past ++ [e]) k t first) : Accounts (past ++ [e]) (put V k t) where
  kept k' t' ht' := by
    by_cases hsame : k' = k
    · subst hsame
      rw [put_same] at ht'
      obtain rfl := Option.some.inj ht'
      exact hk
    · rw [put_other hsame] at ht'
      obtain ⟨first, hfirst⟩ := h.kept k' t' ht'
      exact ⟨first, hfirst.other (he k' hsame)⟩
  absent k' hnone e' he' := by
    by_cases hsame : k' = k
    · subst hsame
      rw [put_same] at hnone
      cases hnone
    · rw [put_other hsame] at hnone
      rcases List.mem_append.mp he' with hm | hm
      · exact h.absent k' hnone e' hm
      · rw [List.mem_singleton.mp hm]
        exact he k' hsame

/-- The step lemma. -/
theorem Accounts.step (h : Accounts past V) (hstep : Step V e V') : Accounts (past ++ [e]) V' := by
  cases hstep with
  | pass =>
      refine ⟨?_, ?_⟩
      · intro k t ht
        obtain ⟨first, hfirst⟩ := h.kept k t ht
        exact ⟨first, hfirst.other rfl⟩
      · intro k hnone e he
        rcases List.mem_append.mp he with hm | hm
        · exact h.absent k hnone e hm
        · rw [List.mem_singleton.mp hm]
          rfl
  | @deposit k t hnew hopen =>
      have huntouched := h.absent k hnew
      have hnone : past.countP (collects k) = 0 := by
        apply List.countP_eq_zero.mpr
        intro e he hc
        exact Bool.noConfusion ((huntouched e he).symm.trans (collects_touches hc))
      refine h.others (fun k' hne => by simpa [touches] using hne.symm) ⟨t, ?_⟩
      exact {
        deposited := List.mem_append_right _ (List.mem_singleton_self _)
        secrets := rfl
        file := rfl
        deadline := rfl
        left := by simp [hnone, collects]
        withdrawn := fun hm => by
          rcases List.mem_append.mp hm with hm | hm
          · have hno := huntouched _ hm
            simp [touches] at hno
          · cases List.mem_singleton.mp hm
        collected := fun secrets time file hm => by
          rcases List.mem_append.mp hm with hm | hm
          · have hno := huntouched _ hm
            simp [touches] at hno
          · cases List.mem_singleton.mp hm }
  | @collect k t time file hkept hopen hleft htime hfile =>
      obtain ⟨first, hfirst⟩ := h.kept k t hkept
      refine h.others (fun k' hne => by simpa [touches] using hne.symm) ⟨first, ?_⟩
      exact {
        deposited := List.mem_append_left _ hfirst.deposited
        secrets := hfirst.secrets
        file := hfirst.file
        deadline := hfirst.deadline
        left := by
          have hleft' := hfirst.left
          simp only [List.countP_append, List.countP_singleton, collects, decide_true, if_true, Ticket.collected]
          omega
        withdrawn := fun hm => by
          rcases List.mem_append.mp hm with hm | hm
          · exact hfirst.withdrawn hm
          · cases List.mem_singleton.mp hm
        collected := fun secrets time file hm => by
          rcases List.mem_append.mp hm with hm | hm
          · exact hfirst.collected secrets time file hm
          · cases List.mem_singleton.mp hm
            exact hfirst.secrets }
  | @withdraw k t hkept =>
      obtain ⟨first, hfirst⟩ := h.kept k t hkept
      refine h.others (fun k' hne => by simpa [touches] using hne.symm) ⟨first, ?_⟩
      exact {
        deposited := List.mem_append_left _ hfirst.deposited
        secrets := hfirst.secrets
        file := hfirst.file
        deadline := hfirst.deadline
        left := by
          rw [List.countP_append, List.countP_singleton]
          exact hfirst.left
        withdrawn := fun _ => rfl
        collected := fun secrets time file hm => by
          rcases List.mem_append.mp hm with hm | hm
          · exact hfirst.collected secrets time file hm
          · cases List.mem_singleton.mp hm }

end

theorem Accounts.run {past es : List (Event K S F)} {V V' : Tickets K S F} (h : Accounts past V) (hrun : Run V es V') :
    Accounts (past ++ es) V' := by
  induction hrun generalizing past with
  | nil V =>
      rw [List.append_nil]
      exact h
  | cons hstep hrest ih =>
      have hnext := ih (h.step hstep)
      rwa [List.append_assoc, List.singleton_append] at hnext

end
end FipsDropbox.Vault
