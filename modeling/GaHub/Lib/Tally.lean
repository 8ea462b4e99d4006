import GaHub.Lib.Dict
import Mathlib.Algebra.BigOperators.Group.List.Basic
import Mathlib.Algebra.GroupWithZero.Nat

namespace Lib.Dict

section Count

variable {κ ν : Type*}

def tally (f : ν → Nat) (d : Dict κ ν) : Nat := (d.values.map f).sum

@[simp] theorem tally_empty (f : ν → Nat) : (empty : Dict κ ν).tally f = 0 := rfl

theorem tally_eq (f : ν → Nat) (d : Dict κ ν) : d.tally f = (d.entries.map fun e => f e.2).sum := by
  rw [tally, values, List.map_map]
  rfl

end Count

variable {κ ν : Type*} [DecidableEq κ]

theorem sum_overwrite (f : ν → Nat) {es : List (κ × ν)} (hnd : (es.map Prod.fst).Nodup) {k : κ} {old : ν} (v : ν)
    (h : (k, old) ∈ es) : ((es.map fun e => if e.1 = k then (k, v) else e).map fun e => f e.2).sum + f old =
      (es.map fun e => f e.2).sum + f v := by
  induction es with
  | nil => cases h
  | cons e es ih =>
      obtain ⟨hnot, hnd⟩ := List.nodup_cons.mp hnd
      simp only [List.map_cons, List.sum_cons]
      by_cases he : e.1 = k
      · have hsame : es.map (fun e => if e.1 = k then (k, v) else e) = es := by
          refine (List.map_congr_left fun e' he' => if_neg fun heq : e'.1 = k => hnot ?_).trans (List.map_id' es)
          rw [he, ← heq]
          exact List.mem_map_of_mem he'
        have hold : e.2 = old := by
          rcases List.mem_cons.mp h with heq | hmem
          · exact (congrArg Prod.snd heq).symm
          · exact absurd (he ▸ List.mem_map_of_mem (f := Prod.fst) hmem) hnot
        rw [if_pos he, hsame, hold]
        show f v + _ + f old = f old + _ + f v
        omega
      · have hmem : (k, old) ∈ es := by
          rcases List.mem_cons.mp h with heq | hmem
          · exact absurd (congrArg Prod.fst heq).symm he
          · exact hmem
        have hrest := ih hnd hmem
        rw [if_neg he]
        omega

theorem tally_set (f : ν → Nat) (d : Dict κ ν) (k : κ) {v : ν} {n : Nat} (hv : f v = ((d.get? k).map f).getD 0 + n) :
    (d.set k v).tally f = d.tally f + n := by
  rw [tally_eq, tally_eq]
  cases hget : d.get? k with
  | none =>
      rw [hget] at hv
      rw [entries_set_of_not_mem v (get?_eq_none_iff.mp hget), List.map_append, List.sum_append, List.map_singleton,
        List.sum_singleton, hv, Option.map_none, Option.getD_none, Nat.zero_add]
  | some old =>
      rw [hget, Option.map_some, Option.getD_some] at hv
      have hentries : (d.set k v).entries = d.entries.map fun e => if e.1 = k then (k, v) else e := by
        rw [set, dif_pos (mem_keys_of_get? hget)]
      have hsum := sum_overwrite f d.nodup_keys v (mem_entries_iff.mpr hget)
      rw [hentries]
      omega

end Lib.Dict
