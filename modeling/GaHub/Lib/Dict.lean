import Mathlib.Data.List.Nodup
import Mathlib.Data.List.Basic
import Mathlib.Data.List.Induction
import Mathlib.Order.Basic

namespace Lib

universe u v

-- A dictionary that iterates in insertion order. Overwriting a key keeps its
-- place; a key that was removed and set again goes to the end.
@[ext] structure Dict (κ : Type u) (ν : Type v) where
  entries : List (κ × ν)
  nodup_keys : (entries.map Prod.fst).Nodup

namespace Dict

variable {κ : Type u} {ν : Type v}

instance [DecidableEq κ] [DecidableEq ν] : DecidableEq (Dict κ ν) := fun a b =>
  decidable_of_iff (a.entries = b.entries) Dict.ext_iff.symm

def keys (d : Dict κ ν) : List κ := d.entries.map Prod.fst

def values (d : Dict κ ν) : List ν := d.entries.map Prod.snd

def size (d : Dict κ ν) : Nat := d.entries.length

def empty : Dict κ ν := ⟨[], List.nodup_nil⟩

instance : Inhabited (Dict κ ν) := ⟨empty⟩

theorem keys_nodup (d : Dict κ ν) : d.keys.Nodup := d.nodup_keys

@[simp] theorem keys_empty : (empty : Dict κ ν).keys = [] := rfl

@[simp] theorem size_empty : (empty : Dict κ ν).size = 0 := rfl

def filter (p : κ × ν → Bool) (d : Dict κ ν) : Dict κ ν :=
  ⟨d.entries.filter p, d.nodup_keys.sublist (List.filter_sublist.map Prod.fst)⟩

theorem size_eq_length_keys (d : Dict κ ν) : d.size = d.keys.length := by simp [size, keys]

theorem size_filter_le (p : κ × ν → Bool) (d : Dict κ ν) : (d.filter p).size ≤ d.size :=
  List.length_filter_le _ _

variable [DecidableEq κ]

def get? (d : Dict κ ν) (k : κ) : Option ν := d.entries.lookup k

private theorem map_fst_overwrite (es : List (κ × ν)) (k : κ) (v : ν) :
    (es.map fun e => if e.1 = k then (k, v) else e).map Prod.fst = es.map Prod.fst := by
  induction es with
  | nil => rfl
  | cons e es ih =>
      simp only [List.map_cons, ih]
      by_cases h : e.1 = k <;> simp [h]

def set (d : Dict κ ν) (k : κ) (v : ν) : Dict κ ν :=
  if h : k ∈ d.keys then
    ⟨d.entries.map fun e => if e.1 = k then (k, v) else e,
      (map_fst_overwrite d.entries k v).symm ▸ d.nodup_keys⟩
  else
    ⟨d.entries ++ [(k, v)], by
      rw [List.map_append]
      exact d.nodup_keys.append (List.nodup_singleton k) (List.disjoint_singleton.mpr h)⟩

def erase (d : Dict κ ν) (k : κ) : Dict κ ν := d.filter fun e => decide (e.1 ≠ k)

-- The dict a comprehension over pairs builds: a later pair overwrites an earlier one.
def ofList (es : List (κ × ν)) : Dict κ ν := es.foldl (fun d e => d.set e.1 e.2) empty

@[simp] theorem get?_empty (k : κ) : (empty : Dict κ ν).get? k = none := rfl

private theorem lookup_mem {es : List (κ × ν)} {k : κ} {v : ν} (h : es.lookup k = some v) :
    (k, v) ∈ es := by
  induction es with
  | nil => simp at h
  | cons e es ih =>
      obtain ⟨k', v'⟩ := e
      rw [List.lookup_cons] at h
      by_cases hk : k = k'
      · subst hk
        simp at h
        simp [h]
      · rw [beq_false_of_ne hk] at h
        exact List.mem_cons_of_mem _ (ih h)

private theorem lookup_eq_none {es : List (κ × ν)} {k : κ} :
    es.lookup k = none ↔ k ∉ es.map Prod.fst := by
  induction es with
  | nil => simp
  | cons e es ih =>
      obtain ⟨k', v'⟩ := e
      rw [List.lookup_cons]
      by_cases hk : k = k'
      · subst hk
        simp
      · rw [beq_false_of_ne hk]
        simp only [ih, List.map_cons, List.mem_cons, hk, false_or]

private theorem lookup_of_mem {es : List (κ × ν)} (hnd : (es.map Prod.fst).Nodup) {k : κ} {v : ν}
    (h : (k, v) ∈ es) : es.lookup k = some v := by
  induction es with
  | nil => simp at h
  | cons e es ih =>
      obtain ⟨k', v'⟩ := e
      rw [List.map_cons, List.nodup_cons] at hnd
      rw [List.lookup_cons]
      rcases List.mem_cons.mp h with he | hm
      · cases he
        simp
      · have hk : k ≠ k' := by
          rintro rfl
          exact hnd.1 (List.mem_map.mpr ⟨_, hm, rfl⟩)
        rw [beq_false_of_ne hk]
        exact ih hnd.2 hm

theorem mem_entries_iff {d : Dict κ ν} {k : κ} {v : ν} : (k, v) ∈ d.entries ↔ d.get? k = some v :=
  ⟨lookup_of_mem d.nodup_keys, lookup_mem⟩

theorem get?_eq_none_iff {d : Dict κ ν} {k : κ} : d.get? k = none ↔ k ∉ d.keys := lookup_eq_none

theorem mem_keys_iff {d : Dict κ ν} {k : κ} : k ∈ d.keys ↔ ∃ v, d.get? k = some v := by
  rw [← Option.ne_none_iff_exists', Ne, get?_eq_none_iff, not_not]

theorem mem_keys_of_get? {d : Dict κ ν} {k : κ} {v : ν} (h : d.get? k = some v) : k ∈ d.keys :=
  mem_keys_iff.mpr ⟨v, h⟩

theorem mem_values_iff {d : Dict κ ν} {v : ν} : v ∈ d.values ↔ ∃ k, d.get? k = some v := by
  simp only [values, List.mem_map, Prod.exists, exists_eq_right, mem_entries_iff]

private theorem get?_congr {d : Dict κ ν} {k : κ} {o : Option ν}
    (h : ∀ v, (k, v) ∈ d.entries ↔ o = some v) : d.get? k = o := by
  apply Option.ext
  intro v
  rw [← mem_entries_iff, h]

theorem get?_set (d : Dict κ ν) (k j : κ) (v : ν) :
    (d.set k v).get? j = if j = k then some v else d.get? j := by
  apply get?_congr
  intro w
  unfold set
  split
  · rename_i h
    obtain ⟨v₀, h₀⟩ := mem_keys_iff.mp h
    simp only [List.mem_map, Prod.exists]
    constructor
    · rintro ⟨a, b, hab, he⟩
      by_cases ha : a = k
      · simp only [ha, ite_true, Prod.mk.injEq] at he
        simp [he.1.symm, he.2]
      · simp only [ha, ite_false, Prod.mk.injEq] at he
        obtain ⟨rfl, rfl⟩ := he
        simp [ha, mem_entries_iff.mp hab]
    · intro he
      by_cases hj : j = k
      · simp only [hj, ite_true, Option.some.injEq] at he
        exact ⟨k, v₀, mem_entries_iff.mpr h₀, by simp [hj, he]⟩
      · simp only [hj, ite_false] at he
        exact ⟨j, w, mem_entries_iff.mpr he, by simp [hj]⟩
  · rename_i h
    simp only [List.mem_append, List.mem_singleton, Prod.mk.injEq, mem_entries_iff]
    by_cases hj : j = k
    · have hn : d.get? k = none := get?_eq_none_iff.mpr h
      simp [hj, hn, eq_comm]
    · simp [hj]

@[simp] theorem get?_set_self (d : Dict κ ν) (k : κ) (v : ν) : (d.set k v).get? k = some v := by
  simp [get?_set]

theorem get?_set_ne (d : Dict κ ν) {k j : κ} (v : ν) (h : j ≠ k) :
    (d.set k v).get? j = d.get? j := by
  simp [get?_set, h]

theorem get?_filter (p : κ × ν → Bool) (d : Dict κ ν) (k : κ) :
    (d.filter p).get? k = (d.get? k).filter fun v => p (k, v) := by
  apply get?_congr
  intro w
  simp only [filter, List.mem_filter, mem_entries_iff, Option.filter_eq_some_iff]

theorem get?_erase (d : Dict κ ν) (k j : κ) :
    (d.erase k).get? j = if j = k then none else d.get? j := by
  rw [erase, get?_filter]
  by_cases hj : j = k
  · subst hj
    cases d.get? j <;> simp
  · cases d.get? j <;> simp [hj]

@[simp] theorem get?_erase_self (d : Dict κ ν) (k : κ) : (d.erase k).get? k = none := by
  simp [get?_erase]

theorem get?_erase_ne (d : Dict κ ν) {k j : κ} (h : j ≠ k) : (d.erase k).get? j = d.get? j := by
  simp [get?_erase, h]

theorem keys_set (d : Dict κ ν) (k : κ) (v : ν) :
    (d.set k v).keys = if k ∈ d.keys then d.keys else d.keys ++ [k] := by
  unfold set
  split
  · exact map_fst_overwrite d.entries k v
  · simp [keys]

theorem keys_set_of_mem {d : Dict κ ν} {k : κ} (v : ν) (h : k ∈ d.keys) :
    (d.set k v).keys = d.keys := by
  rw [keys_set, if_pos h]

theorem keys_set_of_not_mem {d : Dict κ ν} {k : κ} (v : ν) (h : k ∉ d.keys) :
    (d.set k v).keys = d.keys ++ [k] := by
  rw [keys_set, if_neg h]

theorem entries_set_of_not_mem {d : Dict κ ν} {k : κ} (v : ν) (h : k ∉ d.keys) :
    (d.set k v).entries = d.entries ++ [(k, v)] := by
  rw [set, dif_neg h]

theorem size_set_le (d : Dict κ ν) (k : κ) (v : ν) : (d.set k v).size ≤ d.size + 1 := by
  rw [size_eq_length_keys, size_eq_length_keys]
  by_cases hk : k ∈ d.keys
  · rw [keys_set_of_mem v hk]
    omega
  · simp [keys_set_of_not_mem v hk]

theorem keys_erase (d : Dict κ ν) (k : κ) :
    (d.erase k).keys = d.keys.filter fun j => decide (j ≠ k) := by
  simp only [erase, filter, keys, List.filter_map, Function.comp_def]

theorem get?_foldl_entries {μ : Type*} (f : Dict κ μ → κ × ν → Dict κ μ) (g : κ → ν → Option μ → Option μ)
    (hother : ∀ d e k, k ≠ e.1 → (f d e).get? k = d.get? k)
    (hsame : ∀ d e, (f d e).get? e.1 = g e.1 e.2 (d.get? e.1)) (b : Dict κ ν) (d : Dict κ μ) (k : κ) :
    (b.entries.foldl f d).get? k = (b.get? k).elim (d.get? k) fun v => g k v (d.get? k) := by
  suffices h : ∀ (es : List (κ × ν)) (d : Dict κ μ), (es.map Prod.fst).Nodup →
      (es.foldl f d).get? k = (es.lookup k).elim (d.get? k) fun v => g k v (d.get? k) from
    h b.entries d b.nodup_keys
  intro es
  induction es with
  | nil => exact fun d _ => rfl
  | cons e es ih =>
      intro d hnd
      rw [List.map_cons, List.nodup_cons] at hnd
      rw [List.foldl_cons, ih _ hnd.2]
      obtain ⟨j, v⟩ := e
      by_cases hk : k = j
      · subst hk
        have hnone : es.lookup k = none := lookup_eq_none.mpr hnd.1
        simp only [hnone, Option.elim_none, List.lookup_cons_self, Option.elim_some]
        exact hsame d (k, v)
      · rw [hother d (j, v) k hk, List.lookup_cons, beq_false_of_ne hk]

theorem set_of_get? {d : Dict κ ν} {k : κ} {v : ν} (h : d.get? k = some v) : d.set k v = d := by
  have hk := mem_keys_of_get? h
  rw [set, dif_pos hk]
  apply Dict.ext
  refine (List.map_congr_left fun e he => ?_).trans (List.map_id' d.entries)
  by_cases hek : e.1 = k
  · have hv : d.get? k = some e.2 := mem_entries_iff.mp (hek ▸ he)
    rw [h] at hv
    simp [hek.symm, Option.some.inj hv]
  · simp [hek]

theorem ofList_concat (es : List (κ × ν)) (e : κ × ν) :
    ofList (es ++ [e]) = (ofList es).set e.1 e.2 := by
  simp [ofList]

theorem ofList_entries (d : Dict κ ν) : ofList d.entries = d := by
  have hnd := d.nodup_keys
  apply Dict.ext
  suffices h : ∀ es : List (κ × ν), (es.map Prod.fst).Nodup → (ofList es).entries = es from
    h d.entries hnd
  intro es
  induction es using List.reverseRecOn with
  | nil => exact fun _ => rfl
  | append_singleton es e ih =>
      intro hes
      rw [List.map_append, List.nodup_append] at hes
      have hnew : e.1 ∉ (ofList es).keys := by
        rw [keys, ih hes.1]
        exact fun hin => hes.2.2 e.1 hin e.1 (by simp) rfl
      rw [ofList_concat, set, dif_neg hnew]
      simp only [ih hes.1]

theorem get?_ofList (es : List (κ × ν)) (k : κ) :
    (ofList es).get? k = ((es.filter fun e => decide (e.1 = k)).getLast?).map Prod.snd := by
  induction es using List.reverseRecOn with
  | nil => rfl
  | append_singleton es e ih =>
      rw [ofList_concat, get?_set, List.filter_append]
      by_cases hk : e.1 = k
      · simp [hk]
      · simp [hk, Ne.symm hk, ih]

theorem erase_of_get?_none {d : Dict κ ν} {k : κ} (h : d.get? k = none) : d.erase k = d := by
  apply Dict.ext
  refine List.filter_eq_self.mpr fun e he => decide_eq_true fun hk => ?_
  have hin : k ∈ d.keys := hk ▸ List.mem_map_of_mem he
  exact get?_eq_none_iff.mp h hin

theorem mem_of_get?_foldl_set {d : Dict κ ν} {es : List (κ × ν)} {k : κ} {v : ν}
    (h : (es.foldl (fun d e => d.set e.1 e.2) d).get? k = some v) : (k, v) ∈ es ∨ d.get? k = some v := by
  induction es using List.reverseRecOn with
  | nil => exact Or.inr h
  | append_singleton es e ih =>
      rw [List.foldl_append] at h
      simp only [List.foldl_cons, List.foldl_nil, get?_set] at h
      split at h
      · rename_i hk
        cases h
        simp [hk]
      · exact (ih h).imp_left (List.mem_append_left _)

theorem get?_foldl_set_of_forall {d : Dict κ ν} {es : List (κ × ν)} {k : κ}
    (h : ∀ e ∈ es, e.1 = k → d.get? k = some e.2) :
    (es.foldl (fun d e => d.set e.1 e.2) d).get? k = d.get? k := by
  induction es using List.reverseRecOn with
  | nil => rfl
  | append_singleton es e ih =>
      rw [List.foldl_append]
      simp only [List.foldl_cons, List.foldl_nil, get?_set]
      split
      · rename_i hk
        exact (h e (by simp) hk.symm).symm
      · exact ih fun e' he' => h e' (List.mem_append_left _ he')

theorem size_foldl_set_le (d : Dict κ ν) (es : List (κ × ν)) :
    (es.foldl (fun d e => d.set e.1 e.2) d).size ≤ d.size + es.length := by
  induction es generalizing d with
  | nil => exact Nat.le_refl _
  | cons e es ih =>
      have hrest := ih (d.set e.1 e.2)
      have hone := size_set_le d e.1 e.2
      simp only [List.foldl_cons, List.length_cons]
      omega

theorem mem_of_get?_ofList {es : List (κ × ν)} {k : κ} {v : ν} (h : (ofList es).get? k = some v) :
    (k, v) ∈ es := by
  refine (mem_of_get?_foldl_set h).resolve_right fun hnone => ?_
  simp at hnone

-- When values grow along the list, the dict that keeps the last value of each
-- key answers "is there a pair above this bound" for any set of keys.
theorem exists_get?_ofList_iff [Preorder ν] {es : List (κ × ν)}
    (hmono : es.Pairwise fun x y => x.2 ≤ y.2) (p : κ → Prop) (q : ν → Prop)
    (hq : ∀ x y, x ≤ y → q x → q y) :
    (∃ k v, (ofList es).get? k = some v ∧ q v ∧ p k) ↔ ∃ e ∈ es, q e.2 ∧ p e.1 := by
  constructor
  · rintro ⟨k, v, h, hv, hk⟩
    exact ⟨(k, v), mem_of_get?_ofList h, hv, hk⟩
  · rintro ⟨e, he, hv, hk⟩
    suffices h : ∃ v, (ofList es).get? e.1 = some v ∧ e.2 ≤ v by
      obtain ⟨v, h, hle⟩ := h
      exact ⟨e.1, v, h, hq _ _ hle hv, hk⟩
    clear hv hk
    induction es using List.reverseRecOn with
    | nil => simp at he
    | append_singleton es f ih =>
        rw [List.pairwise_append] at hmono
        rw [ofList_concat, get?_set]
        rcases List.mem_append.mp he with he | he
        · by_cases hef : e.1 = f.1
          · exact ⟨f.2, by simp [hef], hmono.2.2 e he f (by simp)⟩
          · simpa [hef] using ih hmono.1 he
        · rw [List.mem_singleton] at he
          exact ⟨f.2, by simp [he], by simp [he]⟩

end Dict

end Lib
