import Mathlib.Data.Char
import Mathlib.Data.List.Lex
import FipsDropbox.Lib.Json

/-!
# Typed JSON values

A `JsonValue` is a tree whose objects are maps: each key once, keys in order.
`collect` builds it from a parsed tree and leaves a tree of that kind alone.
-/
namespace FipsDropbox
open Utf8
namespace Json

theorem keysSorted_iff (ms : List (Text × Json)) :
    keysSorted ms = true ↔ (ms.map Prod.fst).Pairwise (· < ·) := by
  induction ms with
  | nil => simp [keysSorted]
  | cons m ms ih =>
      obtain ⟨a, v⟩ := m
      cases ms with
      | nil => simp [keysSorted]
      | cons n ms =>
          obtain ⟨b, w⟩ := n
          simp only [keysSorted, Bool.and_eq_true, decide_eq_true_eq, ih, List.map_cons,
            List.pairwise_cons, List.mem_cons, forall_eq_or_imp]
          constructor
          · rintro ⟨hab, hb, hms⟩
            exact ⟨⟨hab, fun c hc => hab.trans (hb c hc)⟩, hb, hms⟩
          · rintro ⟨⟨hab, -⟩, hb, hms⟩
            exact ⟨hab, hb, hms⟩

theorem mem_keys_insert {k l : Text} {v : Json} {ms : List (Text × Json)}
    (h : l ∈ (insert k v ms).map Prod.fst) : l = k ∨ l ∈ ms.map Prod.fst := by
  induction ms with
  | nil => simpa [insert] using h
  | cons m ms ih =>
      unfold insert at h
      split_ifs at h
      · simpa using h
      · simp only [List.map_cons, List.mem_cons] at h ⊢
        rcases h with rfl | h
        · exact .inr (.inl rfl)
        · rcases ih h with rfl | h
          · exact .inl rfl
          · exact .inr (.inr h)
      · simp only [List.map_cons, List.mem_cons] at h ⊢
        tauto

theorem pairwise_insert {k : Text} {v : Json} {ms : List (Text × Json)}
    (h : (ms.map Prod.fst).Pairwise (· < ·)) : ((insert k v ms).map Prod.fst).Pairwise (· < ·) := by
  induction ms with
  | nil => simp [insert]
  | cons m ms ih =>
      obtain ⟨l, w⟩ := m
      obtain ⟨hl, hms⟩ := List.pairwise_cons.mp h
      unfold insert
      split_ifs with hkl hlk
      · refine List.pairwise_cons.mpr ⟨?_, h⟩
        intro c hc
        rcases List.mem_cons.mp hc with rfl | hc
        · exact hkl
        · exact hkl.trans (hl c hc)
      · refine List.pairwise_cons.mpr ⟨?_, ih hms⟩
        intro c hc
        rcases mem_keys_insert hc with rfl | hc
        · exact hlk
        · exact hl c hc
      · obtain rfl : k = l := le_antisymm (not_lt.mp hlk) (not_lt.mp hkl)
        exact List.pairwise_cons.mpr ⟨hl, hms⟩

theorem insert_last {k : Text} {v : Json} {ms : List (Text × Json)} (h : ∀ l ∈ ms.map Prod.fst, l < k) :
    insert k v ms = ms ++ [(k, v)] := by
  induction ms with
  | nil => rfl
  | cons m ms ih =>
      have hm : m.1 < k := h m.1 (by simp)
      unfold insert
      rw [if_neg (lt_asymm hm), if_pos hm, ih fun l hl => h l (List.mem_cons_of_mem _ hl)]
      rfl

/-- What holds of the new member and of all old ones holds after an insertion. -/
theorem forall_insert {P : Json → Prop} {k : Text} {v : Json} {ms : List (Text × Json)} (hv : P v)
    (h : ∀ m ∈ ms, P m.2) : ∀ m ∈ insert k v ms, P m.2 := by
  induction ms with
  | nil => simpa [insert] using hv
  | cons m ms ih =>
      obtain ⟨hm, hms⟩ := List.forall_mem_cons.mp h
      unfold insert
      split_ifs
      · exact List.forall_mem_cons.mpr ⟨hv, h⟩
      · exact List.forall_mem_cons.mpr ⟨hm, ih hms⟩
      · exact List.forall_mem_cons.mpr ⟨hv, hms⟩

/-- The value of the first member under a key. -/
def lookup (k : Text) (ms : List (Text × Json)) : Option Json := (ms.find? fun m => m.1 = k).map Prod.snd

theorem lookup_insert (l k : Text) (v : Json) (ms : List (Text × Json)) :
    lookup l (insert k v ms) = if k = l then some v else lookup l ms := by
  induction ms with
  | nil => by_cases h : k = l <;> simp [insert, lookup, h]
  | cons m ms ih =>
      obtain ⟨key, w⟩ := m
      have hcons : ∀ (x : Text) (u : Json) (ns : List (Text × Json)),
          lookup l ((x, u) :: ns) = if x = l then some u else lookup l ns := by
        intro x u ns
        by_cases h : x = l <;> simp [lookup, h]
      unfold insert
      by_cases hlt : k < key
      · rw [if_pos hlt, hcons]
      · rw [if_neg hlt]
        by_cases hgt : key < k
        · rw [if_pos hgt, hcons, ih, hcons]
          by_cases hl : key = l
          · have hk : k ≠ l := fun hk => lt_irrefl l (by rwa [hl, hk] at hgt)
            rw [if_pos hl, if_neg hk, if_pos hl]
          · rw [if_neg hl, if_neg hl]
        · obtain rfl : k = key := le_antisymm (not_lt.mp hgt) (not_lt.mp hlt)
          rw [if_neg hgt, hcons, hcons]
          by_cases hk : k = l
          · rw [if_pos hk, if_pos hk]
          · rw [if_neg hk, if_neg hk, if_neg hk]

theorem membersSorted_iff (ms : List (Text × Json)) :
    membersSorted ms = true ↔ ∀ m ∈ ms, sorted m.2 = true := by
  induction ms with
  | nil => simp [membersSorted]
  | cons m ms ih => simp [membersSorted, ih]

theorem membersFloatFree_iff (ms : List (Text × Json)) :
    membersFloatFree ms = true ↔ ∀ m ∈ ms, floatFree m.2 = true := by
  induction ms with
  | nil => simp [membersFloatFree]
  | cons m ms ih => simp [membersFloatFree, ih]

theorem membersDepth_le_iff {n : ℕ} (ms : List (Text × Json)) :
    membersDepth ms ≤ n ↔ ∀ m ∈ ms, depth m.2 ≤ n := by
  induction ms with
  | nil => simp [membersDepth]
  | cons m ms ih => simp [membersDepth, ih]

mutual
theorem sorted_collect : ∀ j : Json, sorted (collect j) = true
  | .null => rfl
  | .bool _ => rfl
  | .number _ => rfl
  | .string _ => rfl
  | .array xs => elemsSorted_collectElems xs
  | .object ms => by
      obtain ⟨hk, hm⟩ := sorted_collectMembers ms [] (by simp) (by simp)
      simp only [collect, sorted, Bool.and_eq_true]
      exact ⟨(keysSorted_iff _).mpr hk, (membersSorted_iff _).mpr hm⟩
theorem elemsSorted_collectElems : ∀ xs : List Json, elemsSorted (collectElems xs) = true
  | [] => rfl
  | x :: xs => by
      simp only [collectElems, elemsSorted, Bool.and_eq_true]
      exact ⟨sorted_collect x, elemsSorted_collectElems xs⟩
theorem sorted_collectMembers : ∀ ms acc : List (Text × Json), (acc.map Prod.fst).Pairwise (· < ·) →
    (∀ m ∈ acc, sorted m.2 = true) →
    ((collectMembers ms acc).map Prod.fst).Pairwise (· < ·) ∧
      ∀ m ∈ collectMembers ms acc, sorted m.2 = true
  | [], _, hk, hm => ⟨hk, hm⟩
  | (_, v) :: ms, _, hk, hm =>
      sorted_collectMembers ms _ (pairwise_insert hk)
        (forall_insert (P := fun j => sorted j = true) (sorted_collect v) hm)
end

mutual
theorem collect_of_sorted : ∀ j : Json, sorted j = true → collect j = j
  | .null, _ => rfl
  | .bool _, _ => rfl
  | .number _, _ => rfl
  | .string _, _ => rfl
  | .array xs, h => by rw [collect, collectElems_of_sorted xs h]
  | .object ms, h => by
      simp only [sorted, Bool.and_eq_true] at h
      have hms := collectMembers_of_sorted ms [] (by simpa using (keysSorted_iff ms).mp h.1) h.2
      rw [collect, hms, List.nil_append]
theorem collectElems_of_sorted : ∀ xs : List Json, elemsSorted xs = true → collectElems xs = xs
  | [], _ => rfl
  | x :: xs, h => by
      simp only [elemsSorted, Bool.and_eq_true] at h
      rw [collectElems, collect_of_sorted x h.1, collectElems_of_sorted xs h.2]
theorem collectMembers_of_sorted : ∀ ms acc : List (Text × Json),
    ((acc ++ ms).map Prod.fst).Pairwise (· < ·) → membersSorted ms = true →
    collectMembers ms acc = acc ++ ms
  | [], acc, _, _ => by simp [collectMembers]
  | (k, v) :: ms, acc, hk, h => by
      simp only [membersSorted, Bool.and_eq_true] at h
      have hlast : ∀ l ∈ acc.map Prod.fst, l < k := by
        intro l hl
        rw [List.map_append, List.pairwise_append] at hk
        exact hk.2.2 l hl k (by simp)
      rw [collectMembers, collect_of_sorted v h.1, insert_last hlast,
        collectMembers_of_sorted ms (acc ++ [(k, v)]) (by simpa using hk) h.2]
      simp
end

mutual
theorem floatFree_collect : ∀ j : Json, floatFree j = true → floatFree (collect j) = true
  | .null, _ => rfl
  | .bool _, _ => rfl
  | .number _, h => h
  | .string _, _ => rfl
  | .array xs, h => elemsFloatFree_collectElems xs h
  | .object ms, h => by
      have hms := forall_collectMembers_floatFree ms [] h (by simp)
      exact (membersFloatFree_iff _).mpr hms
theorem elemsFloatFree_collectElems : ∀ xs : List Json, elemsFloatFree xs = true →
    elemsFloatFree (collectElems xs) = true
  | [], _ => rfl
  | x :: xs, h => by
      simp only [collectElems, elemsFloatFree, Bool.and_eq_true] at h ⊢
      exact ⟨floatFree_collect x h.1, elemsFloatFree_collectElems xs h.2⟩
theorem forall_collectMembers_floatFree : ∀ ms acc : List (Text × Json), membersFloatFree ms = true →
    (∀ m ∈ acc, floatFree m.2 = true) → ∀ m ∈ collectMembers ms acc, floatFree m.2 = true
  | [], acc, _, hacc => hacc
  | (k, v) :: ms, acc, h, hacc => by
      simp only [membersFloatFree, Bool.and_eq_true] at h
      exact forall_collectMembers_floatFree ms _ h.2
        (forall_insert (P := fun j => floatFree j = true) (floatFree_collect v h.1) hacc)
end

mutual
theorem depth_collect : ∀ j : Json, depth (collect j) ≤ depth j
  | .null => le_rfl
  | .bool _ => le_rfl
  | .number _ => le_rfl
  | .string _ => le_rfl
  | .array xs => Nat.succ_le_succ (elemsDepth_collectElems xs)
  | .object ms => by
      have hms := forall_collectMembers_depth ms [] (membersDepth ms) le_rfl (by simp)
      exact Nat.succ_le_succ ((membersDepth_le_iff _).mpr hms)
theorem elemsDepth_collectElems : ∀ xs : List Json, elemsDepth (collectElems xs) ≤ elemsDepth xs
  | [] => le_rfl
  | x :: xs => max_le_max (depth_collect x) (elemsDepth_collectElems xs)
theorem forall_collectMembers_depth : ∀ (ms acc : List (Text × Json)) (n : ℕ), membersDepth ms ≤ n →
    (∀ m ∈ acc, depth m.2 ≤ n) → ∀ m ∈ collectMembers ms acc, depth m.2 ≤ n
  | [], acc, n, _, hacc => hacc
  | (k, v) :: ms, acc, n, h, hacc => by
      simp only [membersDepth, max_le_iff] at h
      exact forall_collectMembers_depth ms _ n h.2
        (forall_insert (P := fun j => depth j ≤ n) ((depth_collect v).trans h.1) hacc)
end

/-- A key that occurs once keeps its value. -/
theorem lookup_collectMembers {k : Text} {v : Json} {ms : List (Text × Json)}
    (hms : (ms.map Prod.fst).Nodup) (h : (k, v) ∈ ms) (acc : List (Text × Json)) :
    lookup k (collectMembers ms acc) = some (collect v) := by
  have hother : ∀ (ns acc : List (Text × Json)), k ∉ ns.map Prod.fst →
      lookup k (collectMembers ns acc) = lookup k acc := by
    intro ns
    induction ns with
    | nil => simp [collectMembers]
    | cons n ns ih =>
        intro acc hk
        simp only [List.map_cons, List.mem_cons, not_or] at hk
        rw [collectMembers, ih _ hk.2, lookup_insert, if_neg (Ne.symm hk.1)]
  induction ms generalizing acc with
  | nil => cases h
  | cons m ms ih =>
      obtain ⟨hm, hms⟩ := List.nodup_cons.mp hms
      rcases List.mem_cons.mp h with rfl | h
      · rw [collectMembers, hother _ _ hm, lookup_insert, if_pos rfl]
      · exact ih hms h _

end Json

/-- `serde_json::Value`. -/
structure JsonValue where
  tree : Json
  sorted : tree.sorted = true

namespace JsonValue

def collect (j : Json) : JsonValue := ⟨j.collect, j.sorted_collect⟩

@[simp] theorem collect_tree (v : JsonValue) : collect v.tree = v := by
  simp only [collect, Json.collect_of_sorted v.tree v.sorted]

/-- `json!` of an object with the given members. -/
def object (ms : List (Text × Json)) : JsonValue := collect (.object ms)

/-- `Value::get` with a text. -/
def get (v : JsonValue) (k : Text) : Option Json :=
  match v.tree with
  | .object ms => Json.lookup k ms
  | _ => none

theorem get_object {ms : List (Text × Json)} (hms : (ms.map Prod.fst).Nodup) {k : Text} {v : Json}
    (h : (k, v) ∈ ms) : (object ms).get k = some v.collect := Json.lookup_collectMembers hms h []

end JsonValue
end FipsDropbox
