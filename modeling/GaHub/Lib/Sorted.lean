import Mathlib.Data.List.Sort

namespace Lib

universe u

variable {α : Type u}

section Stable

variable {r : α → α → Prop} [DecidableRel r]

theorem filter_orderedInsert_of_pos [IsTrans α r] {p : α → Bool} {a : α} (ha : p a = true) {l : List α} (hl : l.Pairwise r) :
    (l.orderedInsert r a).filter p = (l.filter p).orderedInsert r a := by
  induction l with
  | nil => simp [ha]
  | cons b l ih =>
      obtain ⟨hb, hrest⟩ := List.pairwise_cons.mp hl
      by_cases hab : r a b
      · have hleast : ∀ c ∈ (b :: l).filter p, r a c := by
          intro c hc
          rcases List.mem_cons.mp (List.mem_of_mem_filter hc) with rfl | hin
          · exact hab
          · exact Trans.trans hab (hb c hin)
        rw [List.orderedInsert_cons_of_le _ _ hab, List.filter_cons_of_pos ha]
        cases hfilter : (b :: l).filter p with
        | nil => rfl
        | cons c rest =>
            rw [hfilter] at hleast
            rw [List.orderedInsert_cons_of_le _ _ (hleast c List.mem_cons_self)]
      · rw [List.orderedInsert_of_not_le _ _ hab, List.filter_cons, List.filter_cons, ih hrest]
        split
        · rw [List.orderedInsert_of_not_le _ _ hab]
        · rfl

theorem filter_orderedInsert_of_neg {p : α → Bool} {a : α} (ha : p a = false) (l : List α) :
    (l.orderedInsert r a).filter p = l.filter p := by
  induction l with
  | nil => simp [ha]
  | cons b l ih =>
      by_cases hab : r a b
      · rw [List.orderedInsert_cons_of_le _ _ hab, List.filter_cons_of_neg (by simp [ha])]
      · rw [List.orderedInsert_of_not_le _ _ hab, List.filter_cons, List.filter_cons, ih]

theorem filter_insertionSort [IsTrans α r] [Std.Total r] (p : α → Bool) (l : List α) :
    (l.insertionSort r).filter p = (l.filter p).insertionSort r := by
  induction l with
  | nil => rfl
  | cons a l ih =>
      rw [List.insertionSort_cons]
      cases ha : p a with
      | true =>
          rw [filter_orderedInsert_of_pos ha (List.pairwise_insertionSort r l), ih, List.filter_cons_of_pos ha,
            List.insertionSort_cons]
      | false => rw [filter_orderedInsert_of_neg ha, ih, List.filter_cons_of_neg (by simp [ha])]

end Stable

section Keys

-- A list in the order of an integer key, read backwards by asking for what is at most a key.
variable {key : α → Int} {l : List α}

def upTo (key : α → Int) (k : Int) (l : List α) : Nat := l.countP fun x => decide (key x ≤ k)

theorem upTo_le (k : Int) : upTo key k l ≤ l.length := List.countP_le_length

theorem upTo_cons_of_le {k : Int} {x : α} (hk : key x ≤ k) (l : List α) : upTo key k (x :: l) = upTo key k l + 1 :=
  List.countP_cons_of_pos (decide_eq_true hk)

theorem upTo_cons_of_lt {k : Int} {x : α} (hk : k < key x) {l : List α} (hl : ∀ y ∈ l, key x ≤ key y) :
    upTo key k (x :: l) = 0 := by
  refine List.countP_eq_zero.mpr fun y hy => ?_
  rw [decide_eq_true_eq]
  rcases List.mem_cons.mp hy with rfl | hin
  · omega
  · have hxy := hl y hin
    omega

theorem filter_eq_take (hl : l.Pairwise fun x y => key x ≤ key y) (k : Int) :
    l.filter (fun x => decide (key x ≤ k)) = l.take (upTo key k l) := by
  induction l with
  | nil => rfl
  | cons x l ih =>
      obtain ⟨hx, hrest⟩ := List.pairwise_cons.mp hl
      by_cases hk : key x ≤ k
      · rw [List.filter_cons_of_pos (by simpa using hk), ih hrest, upTo_cons_of_le hk, List.take_succ_cons]
      · have hzero := upTo_cons_of_lt (Int.not_le.mp hk) hx
        rw [hzero, List.take_zero]
        exact List.length_eq_zero_iff.mp (List.countP_eq_length_filter.symm.trans hzero)

theorem lt_upTo_iff (hl : l.Pairwise fun x y => key x ≤ key y) {i : Nat} {x : α} (hx : l[i]? = some x) (k : Int) :
    i < upTo key k l ↔ key x ≤ k := by
  induction l generalizing i with
  | nil => simp at hx
  | cons y l ih =>
      obtain ⟨hy, hrest⟩ := List.pairwise_cons.mp hl
      by_cases hk : key y ≤ k
      · rw [upTo_cons_of_le hk]
        cases i with
        | zero =>
            cases hx
            simp [hk]
        | succ i => rw [Nat.add_lt_add_iff_right, ih hrest hx]
      · have hlate : ¬key x ≤ k := by
          rcases List.mem_cons.mp (List.mem_of_getElem? hx) with rfl | hin
          · exact hk
          · have hxy := hy x hin
            omega
        rw [upTo_cons_of_lt (Int.not_le.mp hk) hy]
        simp [hlate]

theorem upTo_mono {j k : Int} (h : j ≤ k) : upTo key j l ≤ upTo key k l :=
  List.countP_mono_left fun x _ hx => by
    rw [decide_eq_true_eq] at hx ⊢
    omega

theorem upTo_perm {l' : List α} (h : l.Perm l') (k : Int) : upTo key k l = upTo key k l' := h.countP_eq _

theorem upTo_pred (key : α → Int) (k : Int) (l : List α) :
    upTo key k l = upTo key (k - 1) l + l.countP fun x => decide (key x = k) := by
  induction l with
  | nil => rfl
  | cons x l ih =>
      simp only [upTo, List.countP_cons, decide_eq_true_eq] at ih ⊢
      rw [ih]
      rcases Int.lt_trichotomy (key x) k with hlt | heq | hgt
      · rw [if_pos (show key x ≤ k by omega), if_pos (show key x ≤ k - 1 by omega), if_neg (show key x ≠ k by omega)]
        omega
      · rw [if_pos (show key x ≤ k by omega), if_neg (show ¬key x ≤ k - 1 by omega), if_pos heq]
        omega
      · rw [if_neg (show ¬key x ≤ k by omega), if_neg (show ¬key x ≤ k - 1 by omega), if_neg (show key x ≠ k by omega)]
        omega

-- A page of `n` elements that ends with the last element of a key starts before that key,
-- unless the key alone fills the page.
theorem page_start_lt (hl : l.Pairwise fun x y => key x ≤ key y) {i n : Nat} {x : α} (hx : l[i]? = some x) (hi : 0 < i)
    (hfew : n ≤ l.countP (fun y => decide (key y = key x)) → upTo key (key x) l ≤ n) : upTo key (key x) l - n < i := by
  have hbefore : ¬i < upTo key (key x - 1) l := fun h => by
    have hle := (lt_upTo_iff hl hx _).mp h
    omega
  have hsplit := upTo_pred key (key x) l
  omega

theorem page_start_stuck {n : Nat} {m k : Int} (hfull : n ≤ l.countP fun y => decide (key y = m))
    (hmore : n < upTo key m l) (hk : m ≤ k) : upTo key (m - 1) l ≤ upTo key k l - n ∧ 0 < upTo key k l - n := by
  have hsplit := upTo_pred key m l
  have hmono : upTo key m l ≤ upTo key k l := upTo_mono hk
  omega

theorem key_of_upTo_le (hl : l.Pairwise fun x y => key x ≤ key y) {i : Nat} {x : α} (hx : l[i]? = some x) {m : Int}
    (h : upTo key (m - 1) l ≤ i) : m ≤ key x := by
  by_contra hlt
  have hin := (lt_upTo_iff hl hx (m - 1)).mpr (by omega)
  omega

end Keys

end Lib
