import Mathlib.Data.FinEnum
import Mathlib.Data.Fintype.Vector
import FipsDropbox.Crypto.Envelope
import FipsDropbox.Lib.Sampling

/-!
# The strength of access codes

`access_code` as a function of its random bytes: which strings it returns, and how many byte
strings each of them comes from.
-/
namespace FipsDropbox.Crypto
open Utf8 Exec Sampling
open scoped ENNReal

/-- `n` groups of three letters of the alphabet, joined by `-`. -/
def Grouped (n : ℕ) (code : Text) : Prop :=
  ∃ groups : List Text, groups.length = n ∧ (∀ g ∈ groups, g.length = 3 ∧ ∀ c ∈ g, c ∈ alphabet) ∧
    code = ['-'].intercalate groups

/-- `access_code` as a function of its random bytes. -/
def Token.codeOf {n : ℕ} (raw : Octets n) : Text := accessCodeFrom 0 raw.val

def letterOf (b : UInt8) : Char := alphabet.getD (b.toNat % alphabet.length) '2'

/-- The separators of the loop, from index `i` on. -/
def dashed (i : ℕ) : Text → Text
  | [] => []
  | c :: cs => (if 0 < i ∧ i % 3 = 0 then ['-'] else []) ++ c :: dashed (i + 1) cs

theorem accessCodeFrom_eq (i : ℕ) (bs : Bytes) : accessCodeFrom i bs = dashed i (bs.map letterOf) := by
  induction bs generalizing i with
  | nil => rfl
  | cons b bs ih =>
      rw [accessCodeFrom, List.map_cons, dashed, ih]
      rfl

theorem dashed_injective (i : ℕ) : Function.Injective (dashed i) := by
  intro cs
  induction cs generalizing i with
  | nil =>
      intro ds h
      cases ds with
      | nil => rfl
      | cons d ds => simp [dashed] at h
  | cons c cs ih =>
      intro ds h
      cases ds with
      | nil => simp [dashed] at h
      | cons d ds =>
          obtain ⟨rfl, hrest⟩ := List.cons.inj (List.append_cancel_left h)
          rw [ih (i + 1) hrest]

theorem dashed_group {i : ℕ} (hi : i % 3 = 0) {g : Text} (hg : g.length = 3) (cs : Text) :
    dashed i (g ++ cs) = (if 0 < i then ['-'] else []) ++ (g ++ dashed (i + 3) cs) := by
  obtain ⟨a, b, c, rfl⟩ := List.length_eq_three.mp hg
  have hone : (i + 1) % 3 ≠ 0 := by omega
  have htwo : (i + 1 + 1) % 3 ≠ 0 := by omega
  simp [dashed, hi, hone, htwo]

theorem dashed_flatten {i : ℕ} (hi : i % 3 = 0) {g : Text} {groups : List Text}
    (h : ∀ g' ∈ g :: groups, g'.length = 3) :
    dashed i (g :: groups).flatten = (if 0 < i then ['-'] else []) ++ ['-'].intercalate (g :: groups) := by
  induction groups generalizing i g with
  | nil =>
      rw [List.flatten_cons, dashed_group hi (h g List.mem_cons_self), List.intercalate_singleton]
      exact congrArg _ (List.append_nil g)
  | cons g' groups ih =>
      have hrest := ih (i := i + 3) (by omega) fun x hx => h x (List.mem_cons_of_mem g hx)
      rw [List.flatten_cons, dashed_group hi (h g List.mem_cons_self), hrest,
        if_pos (Nat.add_pos_right i (by decide)), List.intercalate_cons_cons, List.append_assoc]

theorem exists_groups (n : ℕ) {cs : Text} (h : cs.length = 3 * n) :
    ∃ groups : List Text, groups.length = n ∧ (∀ g ∈ groups, g.length = 3) ∧ groups.flatten = cs := by
  induction n generalizing cs with
  | zero => exact ⟨[], rfl, by simp, (List.length_eq_zero_iff.mp h).symm⟩
  | succ n ih =>
      have hrest : (cs.drop 3).length = 3 * n := by
        rw [List.length_drop]
        omega
      obtain ⟨groups, hlength, hthree, hflatten⟩ := ih hrest
      refine ⟨cs.take 3 :: groups, by rw [List.length_cons, hlength], ?_, ?_⟩
      · intro g hg
        rcases List.mem_cons.mp hg with rfl | hg
        · rw [List.length_take]
          omega
        · exact hthree g hg
      · rw [List.flatten_cons, hflatten, List.take_append_drop]

/-- The codes of `n` groups are what the loop makes of `3 * n` letters. -/
theorem grouped_iff {n : ℕ} {code : Text} :
    Grouped n code ↔ ∃ cs : Text, (cs.length = 3 * n ∧ ∀ c ∈ cs, c ∈ alphabet) ∧ dashed 0 cs = code := by
  have hjoin : ∀ groups : List Text, (∀ g ∈ groups, g.length = 3) →
      dashed 0 groups.flatten = ['-'].intercalate groups := by
    intro groups hthree
    cases groups with
    | nil => rfl
    | cons g groups => exact dashed_flatten rfl hthree
  constructor
  · rintro ⟨groups, hlength, hgroups, rfl⟩
    refine ⟨groups.flatten, ⟨?_, ?_⟩, hjoin groups fun g hg => (hgroups g hg).1⟩
    · have hthree : ∀ l ∈ groups.map List.length, l = 3 := by
        intro l hl
        obtain ⟨g, hg, rfl⟩ := List.mem_map.mp hl
        exact (hgroups g hg).1
      rw [List.length_flatten, List.sum_eq_card_nsmul _ 3 hthree, List.length_map, hlength, smul_eq_mul, Nat.mul_comm]
    · intro c hc
      obtain ⟨g, hg, hc⟩ := List.mem_flatten.mp hc
      exact (hgroups g hg).2 c hc
  · rintro ⟨cs, ⟨hlength, hletters⟩, rfl⟩
    obtain ⟨groups, hn, hthree, rfl⟩ := exists_groups n hlength
    exact ⟨groups, hn, fun g hg => ⟨hthree g hg, fun c hc => hletters c (List.mem_flatten_of_mem hg hc)⟩,
      hjoin groups hthree⟩

def byteEquiv : UInt8 ≃ Fin 256 where
  toFun := UInt8.toFin
  invFun := UInt8.ofFin
  left_inv _ := rfl
  right_inv _ := rfl

instance (n : ℕ) : Fintype (Octets n) := inferInstanceAs (Fintype (List.Vector UInt8 n))

instance (n : ℕ) : Nonempty (Octets n) := ⟨⟨List.replicate n 0, List.length_replicate⟩⟩

theorem card_octets (n : ℕ) : Fintype.card (Octets n) = 256 ^ n := by
  have hvector : Fintype.card (List.Vector UInt8 n) = Fintype.card UInt8 ^ n := card_vector n
  rw [Fintype.card_congr byteEquiv, Fintype.card_fin] at hvector
  exact hvector

/-- 256 is eight times 31 and eight more, so that eight letters have nine bytes. -/
theorem letterOf_spread : Spread letterOf (· ∈ alphabet) 8 9 := by
  have h : Spread letterOf (· ∈ alphabet) (256 / alphabet.length) (256 / alphabet.length + 1) :=
    spread_letter byteEquiv (by decide) (by decide) '2'
  have hlength : alphabet.length = 31 := by decide
  rw [hlength] at h
  exact h

theorem codeOf_spread (n : ℕ) :
    Spread (Token.codeOf : Octets (3 * n) → Text) (Grouped n) (8 ^ (3 * n)) (9 ^ (3 * n)) := by
  have h := (letterOf_spread.map (3 * n)).comp (dashed_injective 0)
  have hshape : Grouped n = fun code => ∃ cs : Text, (cs.length = 3 * n ∧ ∀ c ∈ cs, c ∈ alphabet) ∧
      dashed 0 cs = code := funext fun code => propext grouped_iff
  have hcode : (Token.codeOf : Octets (3 * n) → Text) = fun raw => dashed 0 (raw.val.map letterOf) :=
    funext fun raw => accessCodeFrom_eq 0 raw.val
  rw [hshape, hcode]
  exact h

/-- The codes are the strings of five groups, none of them likelier than 2^-72. -/
theorem accessCode_strength :
    (∀ {σ : Type} (env : Env) (s : σ) (raw : Octets 15), env.random .accessCode 15 = some raw →
      Token.accessCode env s = (.ok (Token.codeOf raw), s)) ∧
    Spread (Token.codeOf : Octets 15 → Text) (Grouped 5) (8 ^ 15) (9 ^ 15) ∧
    (∀ code, ¬ Grouped 5 code → draws (Token.codeOf : Octets 15 → Text) code = ∅) ∧
    (∀ code, (PMF.uniformOfFintype (Octets 15)).map Token.codeOf code ≤ (9 / 256) ^ 15) ∧
    (9 / 256 : ℝ≥0∞) ^ 15 < (2 ^ 72)⁻¹ := by
  have hspread : Spread (Token.codeOf : Octets 15 → Text) (Grouped 5) (8 ^ 15) (9 ^ 15) := codeOf_spread 5
  refine ⟨?_, hspread, fun code => hspread.outside, ?_, ?_⟩
  · intro σ env s raw hraw
    have hrun : (Rand.bytes env .accessCode 15 : Exec σ CryptoError (Octets 15)) s = (.ok raw, s) :=
      orErr_ok_iff.mpr ⟨hraw, rfl⟩
    exact bind_ok hrun _
  · intro code
    have hprob := hspread.prob_le code
    rw [card_octets, natCast_pow_div] at hprob
    exact hprob
  · exact ratio_pow_lt (n := 9) (N := 256) (k := 15) (m := 72) (by decide) (by decide)

end FipsDropbox.Crypto
