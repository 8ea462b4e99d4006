import Mathlib.Order.Monotone.Basic

namespace Lib

-- The halving of `[low, high)`: `before` tells that what is looked for is behind a place.
def bisect (before : Nat → Bool) (low high : Nat) : Nat :=
  if low < high then
    if before ((low + high) / 2) then bisect before ((low + high) / 2 + 1) high
    else bisect before low ((low + high) / 2)
  else low
termination_by high - low

section Bisect

variable {before : Nat → Bool} {low high : Nat}

theorem bisect_bounds (h : low ≤ high) : low ≤ bisect before low high ∧ bisect before low high ≤ high := by
  fun_induction bisect before low high with
  | case1 low high hlt hbefore ih =>
      have hrest := ih (by omega)
      exact ⟨by omega, hrest.2⟩
  | case2 low high hlt hbefore ih =>
      have hrest := ih (by omega)
      exact ⟨hrest.1, by omega⟩
  | case3 low high hge => exact ⟨Nat.le_refl low, h⟩

theorem bisect_spec (hmono : ∀ i j, i ≤ j → before j = true → before i = true) (low high : Nat) :
    (∀ i, low ≤ i → i < bisect before low high → before i = true) ∧
      ∀ i, bisect before low high ≤ i → i < high → before i = false := by
  fun_induction bisect before low high with
  | case1 low high hlt hbefore ih =>
      refine ⟨fun i hlow hi => ?_, ih.2⟩
      by_cases hmiddle : i ≤ (low + high) / 2
      · exact hmono i _ hmiddle hbefore
      · exact ih.1 i (by omega) hi
  | case2 low high hlt hbefore ih =>
      refine ⟨ih.1, fun i hi hhigh => ?_⟩
      by_cases hmiddle : i < (low + high) / 2
      · exact ih.2 i hi hmiddle
      · rw [Bool.eq_false_iff]
        exact fun htrue => hbefore (hmono _ i (Nat.le_of_not_lt hmiddle) htrue)
  | case3 low high hge =>
      refine ⟨fun i hlow hi => ?_, fun i hi hhigh => ?_⟩
      · omega
      · omega

end Bisect

end Lib
