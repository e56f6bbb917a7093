import Mathlib.Data.List.Basic
import Mathlib.Data.List.Induction
import Mathlib.Order.Bounds.Basic

/-!
# Hash chains

Items of a chain carry a claimed digest of their own and the digest of the item
before them; `body` is what the digest is taken of. Nothing here assumes that
the digest is injective: two linked chains with one tip are equal unless a
collision, or a preimage of the genesis value, can be exhibited among their
items.
-/
namespace FipsDropbox

structure HashChain (α β δ : Type*) where
  prev : α → δ
  own : α → δ
  body : α → Option β
  digest : β → δ

namespace HashChain
variable {α β δ : Type*} (C : HashChain α β δ)

/-- The item's claimed digest is the digest of its body. -/
def Sealed (x : α) : Prop := ∃ b, C.body x = some b ∧ C.digest b = C.own x

/-- Each item is sealed and points at the tip before it, starting from `g`. -/
def Linked : δ → List α → Prop
  | _, [] => True
  | g, x :: xs => C.prev x = g ∧ C.Sealed x ∧ Linked (C.own x) xs

/-- The digest the next item has to point at. -/
def tip : δ → List α → δ
  | g, [] => g
  | _, x :: xs => tip (C.own x) xs

@[simp] theorem tip_nil (g : δ) : C.tip g [] = g := rfl

@[simp] theorem tip_append (g : δ) (xs ys : List α) : C.tip g (xs ++ ys) = C.tip (C.tip g xs) ys := by
  induction xs generalizing g with
  | nil => rfl
  | cons x xs ih => exact ih _

theorem tip_concat (g : δ) (xs : List α) (x : α) : C.tip g (xs ++ [x]) = C.own x := by
  rw [tip_append]
  rfl

theorem tip_eq_getLast (g : δ) (xs : List α) : C.tip g xs = (xs.getLast?.map C.own).getD g := by
  rcases List.eq_nil_or_concat' xs with rfl | ⟨ys, x, rfl⟩
  · rfl
  · rw [tip_concat, List.getLast?_concat]
    rfl

theorem linked_append (g : δ) (xs ys : List α) :
    C.Linked g (xs ++ ys) ↔ C.Linked g xs ∧ C.Linked (C.tip g xs) ys := by
  induction xs generalizing g with
  | nil => simp [Linked]
  | cons x xs ih => simp only [List.cons_append, Linked, tip, ih, and_assoc]

theorem linked_concat (g : δ) (xs : List α) (x : α) :
    C.Linked g (xs ++ [x]) ↔ C.Linked g xs ∧ C.prev x = C.tip g xs ∧ C.Sealed x := by
  simp only [linked_append, Linked, and_true]

/-- The digest item `i` has to point at: its predecessor's, and `g` for the first. -/
def before (g : δ) (xs : List α) : ℕ → δ
  | 0 => g
  | i + 1 => (xs[i]?).elim g C.own

/-- Item `i` is there and does not continue the chain. -/
def Broken (g : δ) (xs : List α) (i : ℕ) : Prop :=
  ∃ x, xs[i]? = some x ∧ ¬ (C.prev x = C.before g xs i ∧ C.Sealed x)

theorem not_broken_nil (g : δ) (i : ℕ) : ¬ C.Broken g [] i := by
  rintro ⟨x, hx, -⟩
  cases hx

theorem before_cons_succ (g : δ) (x : α) (xs : List α) (i : ℕ) (hi : i < xs.length) :
    C.before g (x :: xs) (i + 1) = C.before (C.own x) xs i := by
  cases i with
  | zero => rfl
  | succ i =>
      have hlt : i < xs.length := Nat.lt_of_succ_lt hi
      simp only [before, List.getElem?_cons_succ, List.getElem?_eq_getElem hlt, Option.elim_some]

theorem broken_cons_zero (g : δ) (x : α) (xs : List α) :
    C.Broken g (x :: xs) 0 ↔ ¬ (C.prev x = g ∧ C.Sealed x) := by
  simp only [Broken, List.getElem?_cons_zero, Option.some.injEq, exists_eq_left', before]

theorem broken_cons_succ (g : δ) (x : α) (xs : List α) (i : ℕ) :
    C.Broken g (x :: xs) (i + 1) ↔ C.Broken (C.own x) xs i := by
  by_cases hi : i < xs.length
  · simp only [Broken, List.getElem?_cons_succ, C.before_cons_succ g x xs i hi]
  · have hnone : xs[i]? = none := List.getElem?_eq_none (Nat.le_of_not_lt hi)
    simp only [Broken, List.getElem?_cons_succ, hnone, reduceCtorEq, false_and, exists_false]

/-- A chain is linked when no item breaks it. -/
theorem linked_iff_not_broken (g : δ) (xs : List α) : C.Linked g xs ↔ ∀ i, ¬ C.Broken g xs i := by
  induction xs generalizing g with
  | nil => exact iff_of_true trivial (C.not_broken_nil g)
  | cons x xs ih =>
      rw [Linked, ← and_assoc, ih]
      constructor
      · rintro ⟨hx, hrest⟩ (_ | i)
        · rwa [broken_cons_zero, not_not]
        · rw [broken_cons_succ]
          exact hrest i
      · intro h
        refine ⟨not_not.mp ((C.broken_cons_zero g x xs).not.mp (h 0)), fun i => ?_⟩
        exact (C.broken_cons_succ g x xs i).not.mp (h (i + 1))

/-- The first broken item is the head, or it is the first of the tail behind a sound head. -/
theorem least_broken_cons {g : δ} {x : α} {xs : List α} {k : ℕ}
    (h : IsLeast ({i | C.Broken g (x :: xs) i}) k) :
    k = 0 ∧ ¬ (C.prev x = g ∧ C.Sealed x) ∨
      ∃ j, k = j + 1 ∧ C.prev x = g ∧ C.Sealed x ∧ IsLeast ({i | C.Broken (C.own x) xs i}) j := by
  cases k with
  | zero => exact .inl ⟨rfl, (C.broken_cons_zero g x xs).mp h.1⟩
  | succ j =>
      have hhead : C.prev x = g ∧ C.Sealed x := by
        by_contra hb
        have hle : j + 1 ≤ 0 := h.2 ((C.broken_cons_zero g x xs).mpr hb)
        omega
      refine .inr ⟨j, rfl, hhead.1, hhead.2, (C.broken_cons_succ g x xs j).mp h.1, ?_⟩
      intro i hi
      exact Nat.le_of_succ_le_succ (h.2 ((C.broken_cons_succ g x xs i).mpr hi))

theorem broken_take (g : δ) (xs : List α) {i n : ℕ} (hi : i < n) :
    C.Broken g (xs.take n) i ↔ C.Broken g xs i := by
  have hbefore : C.before g (xs.take n) i = C.before g xs i := by
    cases i with
    | zero => rfl
    | succ i => simp only [before, List.getElem?_take_of_lt (Nat.lt_of_succ_lt hi)]
  rw [Broken, Broken, hbefore, List.getElem?_take_of_lt hi]

theorem least_broken_take {g : δ} {xs ys : List α} {k : ℕ} (h : IsLeast ({i | C.Broken g xs i}) k)
    (heq : ys.take (k + 1) = xs.take (k + 1)) : IsLeast ({i | C.Broken g ys i}) k := by
  have hiff (i : ℕ) (hi : i ≤ k) : C.Broken g ys i ↔ C.Broken g xs i := by
    rw [← C.broken_take g ys (Nat.lt_succ_of_le hi), heq, C.broken_take g xs (Nat.lt_succ_of_le hi)]
  refine ⟨(hiff k le_rfl).mpr h.1, fun i hi => ?_⟩
  by_contra hlt
  exact hlt (h.2 ((hiff i (Nat.le_of_not_le hlt)).mp hi))

/-- Two different bodies, one from each list, with one digest. -/
def Collision (xs ys : List α) : Prop :=
  ∃ x ∈ xs, ∃ y ∈ ys, ∃ b c, C.body x = some b ∧ C.body y = some c ∧ b ≠ c ∧ C.digest b = C.digest c

/-- A body in the list whose digest is the genesis value itself. -/
def Preimage (g : δ) (xs : List α) : Prop := ∃ x ∈ xs, ∃ b, C.body x = some b ∧ C.digest b = g

variable {C}

theorem Collision.mono {xs xs' ys ys' : List α} (h : C.Collision xs ys) (hx : xs ⊆ xs')
    (hy : ys ⊆ ys') : C.Collision xs' ys' := by
  obtain ⟨x, hmx, y, hmy, rest⟩ := h
  exact ⟨x, hx hmx, y, hy hmy, rest⟩

theorem Preimage.mono {g : δ} {xs ys : List α} (h : C.Preimage g xs) (hs : xs ⊆ ys) :
    C.Preimage g ys := by
  obtain ⟨x, hx, rest⟩ := h
  exact ⟨x, hs hx, rest⟩

theorem preimage_of_tip_eq {g : δ} {xs : List α} (h : C.Linked g xs) (hne : xs ≠ [])
    (ht : C.tip g xs = g) : C.Preimage g xs := by
  obtain ⟨ys, x, rfl⟩ := (List.eq_nil_or_concat' xs).resolve_left hne
  obtain ⟨-, -, b, hb, hd⟩ := (C.linked_concat g ys x).mp h
  rw [tip_concat] at ht
  exact ⟨x, by simp, b, hb, hd.trans ht⟩

section
variable (inj : ∀ x y b, C.body x = some b → C.body y = some b → C.own x = C.own y → x = y)
include inj

/-- The part of a chain that was linked after `p` is determined by the tip: backward
induction along both lists. `inj` says that an item is its body together with its
claimed digest. -/
theorem linked_suffix {g p : δ} {xs ys : List α} (hx : C.Linked g xs) (hy : C.Linked p ys)
    (ht : C.tip g xs = C.tip p ys) :
    (∃ zs, xs = zs ++ ys ∧ C.Linked g zs ∧ C.tip g zs = p) ∨ C.Collision xs ys ∨ C.Preimage g ys := by
  induction ys using List.reverseRecOn generalizing xs with
  | nil => exact .inl ⟨xs, (List.append_nil xs).symm, hx, ht⟩
  | append_singleton ys y ih =>
      obtain ⟨hys, hpy, c, hc, hdc⟩ := (C.linked_concat p ys y).mp hy
      rw [tip_concat] at ht
      rcases List.eq_nil_or_concat' xs with rfl | ⟨xs, x, rfl⟩
      · exact .inr (.inr ⟨y, by simp, c, hc, hdc.trans ht.symm⟩)
      · obtain ⟨hxs, hpx, b, hb, hdb⟩ := (C.linked_concat g xs x).mp hx
        rw [tip_concat] at ht
        by_cases hbc : b = c
        · subst hbc
          obtain rfl := inj x y b hb hc ht
          rcases ih hxs hys (hpx.symm.trans hpy) with ⟨zs, rfl, hzs⟩ | hcol | hpre
          · exact .inl ⟨zs, List.append_assoc zs ys [x], hzs⟩
          · exact .inr (.inl (hcol.mono (List.subset_append_left _ _) (List.subset_append_left _ _)))
          · exact .inr (.inr (hpre.mono (List.subset_append_left _ _)))
        · exact .inr (.inl ⟨x, by simp, y, by simp, b, c, hb, hc, hbc, hdb.trans (ht.trans hdc.symm)⟩)

theorem linked_unique {g : δ} {xs ys : List α} (hx : C.Linked g xs) (hy : C.Linked g ys)
    (ht : C.tip g xs = C.tip g ys) :
    xs = ys ∨ C.Collision xs ys ∨ C.Preimage g (xs ++ ys) := by
  rcases linked_suffix inj hx hy ht with ⟨zs, rfl, hzs, htip⟩ | hcol | hpre
  · by_cases hne : zs = []
    · exact .inl (by rw [hne, List.nil_append])
    · refine .inr (.inr ((preimage_of_tip_eq hzs hne htip).mono ?_))
      intro z hz
      simp [hz]
  · exact .inr (.inl hcol)
  · exact .inr (.inr (hpre.mono (List.subset_append_right _ _)))

end

end HashChain
end FipsDropbox
