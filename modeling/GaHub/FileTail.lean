import GaHub.Feishu

namespace GaHub.FileTail

open Archive Feishu Lib

-- What a number of lines asked for is brought to.
def clamp (limit maxLimit : Int) : Nat := (max 1 (min limit maxLimit)).toNat

def lastLines (n : Nat) (lines : List Text) : List Text := lines.drop (lines.length - n)

-- The lines of bytes as `read_tail_lines` decodes and splits them.
def textLines (data : Bytes) : List Text := splitlines (newlines (decode data))

-- A file that is not there, or is a directory, is `none`.
def readTailLines (file : Option Bytes) (limit : Int) (maxLimit : Int := 5000) : List Text :=
  match file with
  | none => []
  | some content =>
    if content = [] then []
    else
      let n := clamp limit maxLimit
      lastLines n (textLines (content.drop (tailStart n content content.length content.length)))

section Decoding

variable {b : Nat} {u v : Bytes}

theorem tail_front {i low high : Nat} (hi : i ≤ u.length) (hlow : 128 ≤ low) :
    ((u ++ 10 :: v)[i]?.filter fun b => decide (low ≤ b ∧ b ≤ high)) = u[i]?.filter fun b => decide (low ≤ b ∧ b ≤ high) := by
  rcases Nat.lt_or_eq_of_le hi with hlt | rfl
  · rw [List.getElem?_append_left hlt]
  · rw [List.getElem?_append_right (Nat.le_refl _), Nat.sub_self, List.getElem?_eq_none (Nat.le_refl u.length),
      List.getElem?_cons_zero, Option.filter_some, if_neg (by simp; omega)]
    rfl

theorem decodeOne_front (b : Nat) (u v : Bytes) : decodeOne (b :: (u ++ 10 :: v)) = decodeOne (b :: u) := by
  have hlow : 128 ≤ (if b = 0xE0 then 0xA0 else 0x80) := by split <;> omega
  have hlow' : 128 ≤ (if b = 0xF0 then 0x90 else 0x80) := by split <;> omega
  have hbase : 128 ≤ 0x80 := Nat.le_refl _
  have hzero : 0 ≤ u.length := Nat.zero_le _
  have hnone : ∀ low high : Nat, (none : Option Nat).filter (fun b => decide (low ≤ b ∧ b ≤ high)) = none := fun _ _ => rfl
  simp only [decodeOne]
  rw [tail_front hzero hlow, tail_front hzero hlow', tail_front hzero hbase]
  rcases u with _ | ⟨x, _ | ⟨y, u⟩⟩
  · simp only [List.getElem?_nil, hnone]
  · have hone : 1 ≤ [x].length := Nat.le_refl 1
    rw [tail_front hone hbase]
    simp only [List.getElem?_cons_succ, List.getElem?_nil, hnone]
    cases [x][0]?.filter fun c => decide ((if b = 0xF0 then 0x90 else 0x80) ≤ c ∧ c ≤ if b = 0xF4 then 0x8F else 0xBF) <;>
      rfl
  · have hone : 1 ≤ (x :: y :: u).length := by simp
    have htwo : 2 ≤ (x :: y :: u).length := by simp
    rw [tail_front hone hbase, tail_front htwo hbase]

theorem decode_feed (u v : Bytes) : decode (u ++ 10 :: v) = decode u ++ 10 :: decode v := by
  induction hn : u.length using Nat.strong_induction_on generalizing u with
  | h n ih =>
      cases u with
      | nil => exact decode_cons (n := 0) rfl
      | cons b u =>
          have hcount : 0 < (decodeOne (b :: u)).2 ∧ (decodeOne (b :: u)).2 ≤ (b :: u).length := by
            by_cases hb : b < 128
            · rw [decodeOne_ascii hb]
              exact ⟨Nat.one_pos, by simp⟩
            · exact (decodeOne_wide (Nat.le_of_not_lt hb) u).count
          obtain ⟨k, hk⟩ := Nat.exists_eq_succ_of_ne_zero (Nat.ne_of_gt hcount.1)
          have hle : k ≤ u.length := by
            have hbound := hcount.2
            rw [List.length_cons] at hbound
            omega
          have hfront := decodeOne_front b u v
          rw [List.cons_append, decode_cons (hfront ▸ hk), decode_cons hk, hfront, List.drop_append_of_le_length hle,
            ih (u.drop k).length (by rw [← hn, List.length_drop, List.length_cons]; omega) _ rfl]
          rfl

theorem count_decode (v : Bytes) : v.count 10 ≤ (decode v).count 10 := by
  induction hn : v.count 10 generalizing v with
  | zero => exact Nat.zero_le _
  | succ n ih =>
      obtain ⟨u, w, rfl, hu⟩ := List.eq_append_cons_of_mem (List.count_pos_iff.mp (by omega : 0 < v.count 10))
      rw [List.count_append, List.count_eq_zero.mpr hu, List.count_cons_self] at hn
      have hrest := ih w (by omega)
      rw [decode_feed, List.count_append, List.count_cons_self]
      omega

end Decoding

section Lines

variable {n : Nat} {u v : Bytes}

theorem lastLines_append (front : List Text) {lines : List Text} (h : n ≤ lines.length) :
    lastLines n (front ++ lines) = lastLines n lines := by
  rw [lastLines, lastLines, List.length_append, List.drop_append, List.drop_eq_nil_of_le (by omega), List.nil_append]
  congr 1
  omega

theorem newlines_feed (s t : Text) : ∃ y, newlines (s ++ 10 :: t) = y ++ 10 :: newlines t := by
  have hfeed : newlines (10 :: t) = 10 :: newlines t := by
    rw [newlines]
    · exact fun _ h => absurd h (by decide)
    · decide
  rcases newlines_append s (10 :: t) with heq | ⟨t', y, ht, heq, hy⟩
  · exact ⟨newlines s, by rw [heq, hfeed]⟩
  · refine ⟨y, ?_⟩
    rw [heq, hy, ← (List.cons.inj ht).2, List.append_assoc]
    rfl

theorem textLines_feed (v : Bytes) : ∃ lines, v.count 10 ≤ lines.length ∧
    ∀ u, ∃ front, textLines (u ++ 10 :: v) = front ++ lines := by
  refine ⟨(keep isBreak (newlines (decode v))).map (body isBreak), ?_, fun u => ?_⟩
  · rw [List.length_map]
    exact Nat.le_trans (count_decode v) (Nat.le_trans (count_newlines _) (count_le_keep rfl _))
  · obtain ⟨y, hy⟩ := newlines_feed (decode u) (decode v)
    refine ⟨(keep isBreak (y ++ [10])).map (body isBreak), ?_⟩
    rw [textLines, splitlines_eq (not_mem_newlines _), decode_feed, hy, keep_append (show isBreak 10 = true from rfl),
      List.map_append]

-- The bytes that are read decide the last lines: they begin at the front of the file, or there is a line feed in them
-- with as many behind it as lines are asked for.
theorem lastLines_tail (content : Bytes) :
    lastLines n (textLines (content.drop (tailStart n content content.length content.length))) =
      lastLines n (textLines content) := by
  rcases @tailStart_spec n content content.length content.length (Nat.le_refl _) with hzero | hmany
  · rw [hzero, List.drop_zero]
  · generalize tailStart n content content.length content.length = start at hmany
    obtain ⟨x, v, hdata, hx⟩ := List.eq_append_cons_of_mem
      (List.count_pos_iff.mp (by omega : 0 < (content.drop start).count 10))
    have hwhole : content = (content.take start ++ x) ++ 10 :: v := by
      rw [List.append_assoc, ← hdata, List.take_append_drop]
    rw [hdata, List.count_append, List.count_eq_zero.mpr hx, List.count_cons_self] at hmany
    obtain ⟨lines, hcount, hlines⟩ := textLines_feed v
    obtain ⟨front, hfront⟩ := hlines x
    obtain ⟨front', hfront'⟩ := hlines (content.take start ++ x)
    rw [hdata, hfront, lastLines_append front (by omega), hwhole, hfront', lastLines_append front' (by omega)]

-- Whatever bytes the file has, and wherever its last blocks begin, the lines read are the last ones of all its lines.
theorem tail_eq_full (content : Bytes) (limit maxLimit : Int) :
    readTailLines (some content) limit maxLimit = lastLines (clamp limit maxLimit) (textLines content) := by
  simp only [readTailLines]
  by_cases hnil : content = []
  · rw [if_pos hnil, hnil]
    exact List.drop_nil.symm
  · rw [if_neg hnil]
    exact lastLines_tail content

-- Asked for no line it still returns the last one.
theorem limit_zero_reads_one : readTailLines (some [97, 10, 98]) 0 = [[98]] ∧
    lastLines 0 (textLines [97, 10, 98]) = [] := by
  decide

end Lines

end GaHub.FileTail
