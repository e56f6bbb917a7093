import Mathlib.Data.List.Nodup
import Mathlib.Order.Lattice

/-!
# Relational tables

Rows in insertion order under keys that are unique: `INSERT` is refused when a
key is taken, `UPDATE` and `DELETE` work on the rows of a condition and count
them. An update must leave the keys alone, so every table that can be built is
well keyed.
-/
namespace FipsDropbox

structure Table (α κ : Type) (keys : List (α → κ)) where
  rows : List α
  unique : ∀ key ∈ keys, (rows.map key).Nodup

namespace Table
variable {α κ : Type} {keys : List (α → κ)}

def empty : Table α κ keys := ⟨[], fun _ _ => List.nodup_nil⟩

def find (t : Table α κ keys) (p : α → Bool) : Option α := t.rows.find? p

/-- Some row has the key, as a foreign key wants of its parent. -/
def has [DecidableEq κ] (t : Table α κ keys) (key : α → κ) (k : κ) : Bool :=
  (t.find fun r => key r = k).isSome

theorem nodup_concat [DecidableEq κ] {t : Table α κ keys} {r : α}
    (h : ∀ key ∈ keys, key r ∉ t.rows.map key) : ∀ key ∈ keys, ((t.rows ++ [r]).map key).Nodup := by
  intro key hkey
  rw [List.map_append, List.map_cons, List.map_nil, List.nodup_append]
  refine ⟨t.unique key hkey, List.nodup_singleton _, ?_⟩
  intro a ha b hb
  obtain rfl := List.mem_singleton.mp hb
  exact fun hab => h key hkey (hab ▸ ha)

def insert [DecidableEq κ] (t : Table α κ keys) (r : α) : Option (Table α κ keys) :=
  if h : ∀ key ∈ keys, key r ∉ t.rows.map key then some ⟨t.rows ++ [r], nodup_concat h⟩ else none

theorem map_update_key {p : α → Bool} {f : α → α} {key : α → κ} (hf : ∀ r, key (f r) = key r)
    (rows : List α) : (rows.map fun r => if p r then f r else r).map key = rows.map key := by
  rw [List.map_map]
  apply List.map_congr_left
  intro r _
  rw [Function.comp_apply]
  split_ifs
  · exact hf r
  · rfl

/-- The number of rows changed, and the table after. -/
def update (t : Table α κ keys) (p : α → Bool) (f : α → α) (hf : ∀ key ∈ keys, ∀ r, key (f r) = key r) :
    ℕ × Table α κ keys :=
  (t.rows.countP p, ⟨t.rows.map fun r => if p r then f r else r,
    fun key hkey => (map_update_key (hf key hkey) t.rows).symm ▸ t.unique key hkey⟩)

/-- The number of rows deleted, and the table after. -/
def delete (t : Table α κ keys) (p : α → Bool) : ℕ × Table α κ keys :=
  (t.rows.countP p, ⟨t.rows.filter fun r => !p r,
    fun key hkey => (t.unique key hkey).sublist (List.filter_sublist.map key)⟩)

@[simp] theorem empty_rows : (empty : Table α κ keys).rows = [] := rfl

@[simp] theorem update_rows (t : Table α κ keys) (p : α → Bool) (f : α → α)
    (hf : ∀ key ∈ keys, ∀ r, key (f r) = key r) :
    (t.update p f hf).2.rows = t.rows.map fun r => if p r then f r else r := rfl

@[simp] theorem delete_rows (t : Table α κ keys) (p : α → Bool) :
    (t.delete p).2.rows = t.rows.filter fun r => !p r := rfl

theorem insert_some [DecidableEq κ] {t t' : Table α κ keys} {r : α} (h : t.insert r = some t') :
    (∀ key ∈ keys, key r ∉ t.rows.map key) ∧ t'.rows = t.rows ++ [r] := by
  unfold insert at h
  split_ifs at h with hfree
  obtain rfl := Option.some.inj h
  exact ⟨hfree, rfl⟩

/-- The new row and the old ones are there. -/
theorem mem_of_insert [DecidableEq κ] {t t' : Table α κ keys} {r r' : α} (h : t.insert r = some t') :
    r' ∈ t'.rows ↔ r' ∈ t.rows ∨ r' = r := by
  rw [(insert_some h).2, List.mem_append, List.mem_singleton]

theorem insert_none_iff [DecidableEq κ] {t : Table α κ keys} {r : α} :
    t.insert r = none ↔ ∃ key ∈ keys, key r ∈ t.rows.map key := by
  unfold insert
  split_ifs with h
  · simpa using h
  · simpa using h

theorem exists_insert [DecidableEq κ] {t : Table α κ keys} {r : α} (h : ∀ key ∈ keys, key r ∉ t.rows.map key) :
    ∃ t', t.insert r = some t' := ⟨_, dif_pos h⟩

/-- An update changes nothing exactly when it changes none of the rows it meets. -/
theorem update_eq_iff {t : Table α κ keys} {p : α → Bool} {f : α → α} {hf : ∀ key ∈ keys, ∀ r, key (f r) = key r} :
    (t.update p f hf).2 = t ↔ ∀ r ∈ t.rows, p r = true → f r = r := by
  obtain ⟨rows, unique⟩ := t
  have hrows : (update ⟨rows, unique⟩ p f hf).2 = ⟨rows, unique⟩ ↔
      rows.map (fun r => if p r then f r else r) = rows.map id := by
    rw [List.map_id, update, mk.injEq]
  rw [hrows, List.map_inj_left]
  apply forall₂_congr
  intro r _
  split_ifs with hp <;> simp [hp]

theorem update_none {t : Table α κ keys} {p : α → Bool} (f : α → α)
    (hf : ∀ key ∈ keys, ∀ r, key (f r) = key r) (h : ∀ r ∈ t.rows, p r = false) :
    t.update p f hf = (0, t) := by
  have hcount : t.rows.countP p = 0 := by
    rw [List.countP_eq_zero]
    intro r hr
    simp [h r hr]
  refine Prod.ext hcount (update_eq_iff.mpr ?_)
  intro r hr hp
  cases (h r hr).symm.trans hp

theorem delete_none {t : Table α κ keys} {p : α → Bool} (h : ∀ r ∈ t.rows, p r = false) : t.delete p = (0, t) := by
  obtain ⟨rows, unique⟩ := t
  have hcount : rows.countP p = 0 := by
    rw [List.countP_eq_zero]
    intro r hr
    simp [h r hr]
  have hrows : rows.filter (fun r => !p r) = rows := by
    apply List.filter_eq_self.mpr
    intro r hr
    simp [h r hr]
  refine Prod.ext hcount ?_
  rw [delete, mk.injEq]
  exact hrows

theorem mem_update_of_false {t : Table α κ keys} {p : α → Bool} (f : α → α)
    (hf : ∀ key ∈ keys, ∀ r, key (f r) = key r) {r : α} (hr : r ∈ t.rows) (h : p r = false) :
    r ∈ (t.update p f hf).2.rows := by
  rw [update_rows]
  exact List.mem_map.mpr ⟨r, hr, by simp [h]⟩

theorem mem_update_of_true {t : Table α κ keys} {p : α → Bool} (f : α → α)
    (hf : ∀ key ∈ keys, ∀ r, key (f r) = key r) {r : α} (hr : r ∈ t.rows) (h : p r = true) :
    f r ∈ (t.update p f hf).2.rows := by
  rw [update_rows]
  exact List.mem_map.mpr ⟨r, hr, by simp [h]⟩

theorem eq_of_key {t : Table α κ keys} {key : α → κ} (hkey : key ∈ keys) {r r' : α} (hr : r ∈ t.rows)
    (hr' : r' ∈ t.rows) (h : key r = key r') : r = r' :=
  List.inj_on_of_nodup_map (t.unique key hkey) hr hr' h

theorem find_some {t : Table α κ keys} {p : α → Bool} {r : α} (h : t.find p = some r) :
    r ∈ t.rows ∧ p r = true :=
  ⟨List.mem_of_find?_eq_some h, List.find?_some h⟩

theorem find_none {t : Table α κ keys} {p : α → Bool} : t.find p = none ↔ ∀ r ∈ t.rows, p r = false := by
  simp only [find, List.find?_eq_none, Bool.not_eq_true]

theorem has_of_mem [DecidableEq κ] {t : Table α κ keys} {key : α → κ} {r : α} (hr : r ∈ t.rows) {k : κ}
    (hk : key r = k) : t.has key k = true := by
  rw [has, Option.isSome_iff_ne_none]
  intro hnone
  have hrow := find_none.mp hnone r hr
  simp [hk] at hrow

theorem has_iff [DecidableEq κ] {t : Table α κ keys} {key : α → κ} {k : κ} :
    t.has key k = true ↔ ∃ r ∈ t.rows, key r = k := by
  constructor
  · intro h
    obtain ⟨r, hr⟩ := Option.isSome_iff_exists.mp h
    exact ⟨r, (find_some hr).1, of_decide_eq_true (find_some hr).2⟩
  · rintro ⟨r, hr, hk⟩
    exact has_of_mem hr hk

/-- The row of a condition that no other row meets. -/
theorem find_of_mem {t : Table α κ keys} {p : α → Bool} {r : α} (hr : r ∈ t.rows) (hp : p r = true)
    (h : ∀ r' ∈ t.rows, p r' = true → r' = r) : t.find p = some r := by
  cases hf : t.find p with
  | none =>
      rw [find_none.mp hf r hr] at hp
      cases hp
  | some r' => rw [h r' (find_some hf).1 (find_some hf).2]

theorem find_key [DecidableEq κ] {t : Table α κ keys} {key : α → κ} (hkey : key ∈ keys) {r : α}
    (hr : r ∈ t.rows) : t.find (fun r' => key r' = key r) = some r := by
  apply find_of_mem hr (by simp)
  intro r' hr' hp
  exact eq_of_key hkey hr' hr (by simpa using hp)

/-- The rows of a key are the one row that is found, if any. -/
theorem filter_key [DecidableEq κ] (t : Table α κ keys) {key : α → κ} (hkey : key ∈ keys) (k : κ) :
    t.rows.filter (fun r => key r = k) = (t.find fun r => key r = k).toList := by
  have hnodup : (t.rows.filter fun r => key r = k).Nodup := (List.Nodup.of_map key (t.unique key hkey)).filter _
  have hfind : t.find (fun r => key r = k) = (t.rows.filter fun r => key r = k).head? := List.head?_filter.symm
  rw [hfind]
  cases hf : t.rows.filter (fun r => key r = k) with
  | nil => rfl
  | cons r rs =>
      cases rs with
      | nil => rfl
      | cons r' rs =>
          have hr : r ∈ t.rows.filter (fun r => key r = k) := by simp [hf]
          have hr' : r' ∈ t.rows.filter (fun r => key r = k) := by simp [hf]
          obtain ⟨hr, hk⟩ := List.mem_filter.mp hr
          obtain ⟨hr', hk'⟩ := List.mem_filter.mp hr'
          have hsame := eq_of_key hkey hr hr' ((of_decide_eq_true hk).trans (of_decide_eq_true hk').symm)
          rw [hf, hsame] at hnodup
          simp at hnodup

/-- A condition on one key meets at most one row. -/
theorem countP_eq_one (t : Table α κ keys) {key : α → κ} (hkey : key ∈ keys) {p : α → Bool} {k : κ}
    (hp : ∀ r, p r = true → key r = k) : t.rows.countP p = 1 ↔ ∃ r ∈ t.rows, p r = true := by
  constructor
  · intro h
    exact List.countP_pos_iff.mp (by omega)
  · rintro ⟨r, hr, hpr⟩
    have hall : ∀ r' ∈ t.rows, p r' = true → r' = r := by
      intro r' hr' hpr'
      exact eq_of_key hkey hr' hr ((hp r' hpr').trans (hp r hpr).symm)
    have hnodup : (t.rows.filter p).Nodup := (List.Nodup.of_map key (t.unique key hkey)).filter p
    have hreplicate := List.eq_replicate_of_mem (l := t.rows.filter p) (a := r) fun r' hr' =>
      hall r' (List.mem_filter.mp hr').1 (List.mem_filter.mp hr').2
    rw [hreplicate, List.nodup_replicate] at hnodup
    have hpos : 0 < t.rows.countP p := List.countP_pos_iff.mpr ⟨r, hr, hpr⟩
    rw [List.countP_eq_length_filter] at hpos ⊢
    omega

section
variable {β : Type} [LinearOrder β]

/-- `ORDER BY key DESC LIMIT n`, in whatever order rows of one key come. -/
structure Latest (key : α → β) (n : ℕ) (rows out : List α) : Prop where
  length : out.length = min n rows.length
  ordered : out.Pairwise fun a b => key b ≤ key a
  rest : ∃ rest, (out ++ rest).Perm rows ∧ ∀ a ∈ out, ∀ b ∈ rest, key b ≤ key a

theorem latest_take (key : α → β) (n : ℕ) (rows : List α) :
    Latest key n rows ((rows.mergeSort fun a b => key b ≤ key a).take n) := by
  have hsorted : (rows.mergeSort fun a b => key b ≤ key a).Pairwise fun a b => key b ≤ key a := by
    have htrans : ∀ a b c : α, decide (key b ≤ key a) = true → decide (key c ≤ key b) = true →
        decide (key c ≤ key a) = true := by
      intro a b c hab hbc
      exact decide_eq_true (le_trans (of_decide_eq_true hbc) (of_decide_eq_true hab))
    have htotal : ∀ a b : α, (decide (key b ≤ key a) || decide (key a ≤ key b)) = true := by
      intro a b
      rw [Bool.or_eq_true, decide_eq_true_eq, decide_eq_true_eq]
      exact le_total (key b) (key a)
    simpa only [decide_eq_true_eq] using List.pairwise_mergeSort htrans htotal rows
  refine ⟨?_, hsorted.sublist (List.take_sublist _ _), (rows.mergeSort fun a b => key b ≤ key a).drop n, ?_, ?_⟩
  · rw [List.length_take, List.length_mergeSort]
  · rw [List.take_append_drop]
    exact List.mergeSort_perm rows _
  · rw [← List.take_append_drop n (rows.mergeSort fun a b => decide (key b ≤ key a)), List.pairwise_append] at hsorted
    exact hsorted.2.2

end

end Table
end FipsDropbox
