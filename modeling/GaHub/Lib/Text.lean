import Mathlib.Data.List.Basic

namespace Lib

-- The white space of Python's `str.strip` and `str.isspace`.
def isSpace (c : Char) : Bool :=
  let n := c.toNat
  decide (9 ≤ n ∧ n ≤ 13 ∨ 28 ≤ n ∧ n ≤ 32 ∨ n = 133 ∨ n = 160 ∨ n = 5760 ∨ 8192 ≤ n ∧ n ≤ 8202 ∨
    n = 8232 ∨ n = 8233 ∨ n = 8239 ∨ n = 8287 ∨ n = 12288)

-- What is decided of a list is decided of its members alone.
theorem forall_mem_of_all {α : Type*} {p : α → Prop} [DecidablePred p] {l : List α}
    (h : (l.all fun a => decide (p a)) = true) : ∀ a ∈ l, p a :=
  fun a ha => of_decide_eq_true (List.all_eq_true.mp h a ha)

-- What holds of the characters with some codes, checked one by one.
theorem forall_codes {codes : List Nat} {ok : Char → Bool} (h : (codes.all fun n => ok (Char.ofNat n)) = true)
    {c : Char} (hc : c.toNat ∈ codes) : ok c := by
  have hok := List.all_eq_true.mp h c.toNat hc
  rwa [Char.ofNat_toNat] at hok

theorem mem_of_range {codes : List Nat} (low size : Nat) (h : (List.range' low size).all codes.contains = true) {n : Nat}
    (hlow : low ≤ n) (hhigh : n < low + size) : n ∈ codes :=
  List.contains_iff_mem.mp (List.all_eq_true.mp h n (List.mem_range'_1.mpr ⟨hlow, hhigh⟩))

def spaceCodes : List Nat :=
  [9, 10, 11, 12, 13, 28, 29, 30, 31, 32, 133, 160, 5760, 8192, 8193, 8194, 8195, 8196, 8197, 8198, 8199, 8200, 8201,
    8202, 8232, 8233, 8239, 8287, 12288]

theorem forall_space (ok : Char → Bool) (h : (spaceCodes.all fun n => ok (Char.ofNat n)) = true) {c : Char}
    (hc : isSpace c) : ok c := by
  refine forall_codes h ?_
  simp only [isSpace, decide_eq_true_eq] at hc
  generalize c.toNat = n at hc ⊢
  rcases hc with hc | hc | rfl | rfl | rfl | hc | rfl | rfl | rfl | rfl | rfl
  any_goals decide
  · exact mem_of_range 9 5 rfl hc.1 (by omega)
  · exact mem_of_range 28 5 rfl hc.1 (by omega)
  · exact mem_of_range 8192 11 rfl hc.1 (by omega)

def strip (s : String) : String :=
  .ofList ((s.toList.dropWhile isSpace).reverse.dropWhile isSpace).reverse

end Lib
