import GaHub.Archive.Marks

namespace GaHub.Archive

-- How a text lies in its bytes: ASCII code points are their bytes, and the bytes of all others are not ASCII.
inductive Blocks : List (Nat × Nat) → Bytes → Prop where
  | nil : Blocks [] []
  | ascii {c : Nat} {ps : List (Nat × Nat)} {bs : Bytes} (hc : c < 128) (h : Blocks ps bs) :
      Blocks ((c, 1) :: ps) (c :: bs)
  | wide {c : Nat} {block : Bytes} {ps : List (Nat × Nat)} {bs : Bytes} (hc : 128 ≤ c) (hne : block ≠ [])
      (hblock : ∀ b ∈ block, 128 ≤ b) (h : Blocks ps bs) : Blocks ((c, block.length) :: ps) (block ++ bs)

section Decoding

-- A piece of bytes none of which is ASCII.
structure Wide (bs : Bytes) (piece : Nat × Nat) : Prop where
  count : 0 < piece.2 ∧ piece.2 ≤ bs.length
  code : 128 ≤ piece.1
  bytes : ∀ b ∈ bs.take piece.2, 128 ≤ b

theorem Wide.one {b c : Nat} {rest : Bytes} (hb : 128 ≤ b) (hc : 128 ≤ c) : Wide (b :: rest) (c, 1) :=
  ⟨⟨Nat.one_pos, by simp⟩, hc, by simpa using hb⟩

theorem Wide.next {bs : Bytes} {c d n b : Nat} (h : Wide bs (c, n)) (hb : bs[n]? = some b) (hlow : 128 ≤ b)
    (hd : 128 ≤ d) : Wide bs (d, n + 1) := by
  obtain ⟨hlen, hget⟩ := List.getElem?_eq_some_iff.mp hb
  refine ⟨⟨Nat.succ_pos n, hlen⟩, hd, fun e he => ?_⟩
  rw [List.take_add_one, hb, List.mem_append] at he
  rcases he with he | he
  · exact h.bytes e he
  · have heq : e = b := by simpa using he
    rwa [heq]

theorem tail_some {bs : Bytes} {i low high b : Nat}
    (h : (bs[i]?.filter fun b => decide (low ≤ b ∧ b ≤ high)) = some b) :
    bs[i]? = some b ∧ low ≤ b ∧ b ≤ high := by
  obtain ⟨hget, hb⟩ := Option.filter_eq_some_iff.mp h
  exact ⟨hget, of_decide_eq_true hb⟩

theorem decodeOne_ascii {b : Nat} (hb : b < 128) (rest : Bytes) : decodeOne (b :: rest) = (b, 1) :=
  if_pos hb

theorem decodeOne_wide {b : Nat} (hb : 128 ≤ b) (rest : Bytes) : Wide (b :: rest) (decodeOne (b :: rest)) := by
  have hone : ∀ c, 128 ≤ c → Wide (b :: rest) (c, 1) := fun c hc => .one hb hc
  have htwo : ∀ x, rest[0]? = some x → 128 ≤ x → ∀ c, 128 ≤ c → Wide (b :: rest) (c, 2) := fun x hx hlow c hc =>
    (hone c hc).next (by simpa using hx) hlow hc
  have hthree : ∀ x y, rest[0]? = some x → 128 ≤ x → rest[1]? = some y → 128 ≤ y → ∀ c, 128 ≤ c →
      Wide (b :: rest) (c, 3) := fun x y hx hlow hy hlow' c hc =>
    (htwo x hx hlow c hc).next (by simpa using hy) hlow' hc
  have hfour : ∀ x y z, rest[0]? = some x → 128 ≤ x → rest[1]? = some y → 128 ≤ y → rest[2]? = some z → 128 ≤ z →
      ∀ c, 128 ≤ c → Wide (b :: rest) (c, 4) := fun x y z hx hlow hy hlow' hz hlow'' c hc =>
    (hthree x y hx hlow hy hlow' c hc).next (by simpa using hz) hlow'' hc
  have hbad : 128 ≤ 0xFFFD := by decide
  simp only [decodeOne]
  rw [if_neg (not_lt.mpr hb)]
  split
  · split
    · rename_i x hx
      obtain ⟨hget, hlow, _⟩ := tail_some hx
      exact htwo x hget hlow _ (by omega)
    · exact hone _ hbad
  · split
    · split
      · rename_i x y hx hy
        obtain ⟨hget, hlow, _⟩ := tail_some hx
        obtain ⟨hget', hlow', _⟩ := tail_some hy
        have hlow₂ : 128 ≤ x := by split at hlow <;> omega
        refine hthree x y hget hlow₂ hget' hlow' _ ?_
        split at hlow <;> omega
      · rename_i x hx _
        obtain ⟨hget, hlow, _⟩ := tail_some hx
        exact htwo x hget (by split at hlow <;> omega) _ hbad
      · exact hone _ hbad
    · split
      · split
        · rename_i x y z hx hy hz
          obtain ⟨hget, hlow, _⟩ := tail_some hx
          obtain ⟨hget', hlow', _⟩ := tail_some hy
          obtain ⟨hget'', hlow'', _⟩ := tail_some hz
          have hlow₂ : 128 ≤ x := by split at hlow <;> omega
          refine hfour x y z hget hlow₂ hget' hlow' hget'' hlow'' _ ?_
          split at hlow <;> omega
        · rename_i x y hx hy _
          obtain ⟨hget, hlow, _⟩ := tail_some hx
          obtain ⟨hget', hlow', _⟩ := tail_some hy
          exact hthree x y hget (by split at hlow <;> omega) hget' hlow' _ hbad
        · rename_i x hx _
          obtain ⟨hget, hlow, _⟩ := tail_some hx
          exact htwo x hget (by split at hlow <;> omega) _ hbad
        · exact hone _ hbad
      · exact hone _ hbad

theorem pieces_skip (skip : Nat) (bs : Bytes) : pieces skip bs = pieces 0 (bs.drop skip) := by
  induction skip generalizing bs with
  | zero => rfl
  | succ skip ih =>
      cases bs with
      | nil => rfl
      | cons b bs => exact ih bs

theorem pieces_cons (b : Nat) (rest : Bytes) : pieces 0 (b :: rest) =
    decodeOne (b :: rest) :: pieces 0 (rest.drop ((decodeOne (b :: rest)).2 - 1)) := by
  rw [← pieces_skip]
  rfl

theorem pieces_blocks (data : Bytes) : Blocks (pieces 0 data) data := by
  induction hn : data.length using Nat.strong_induction_on generalizing data with
  | h n ih =>
      cases data with
      | nil => exact .nil
      | cons b rest =>
          by_cases hb : b < 128
          · rw [pieces_cons, decodeOne_ascii hb]
            exact .ascii hb (ih rest.length (by simp [← hn]) rest rfl)
          · have hwide := decodeOne_wide (Nat.le_of_not_lt hb) rest
            rw [pieces_cons]
            generalize decodeOne (b :: rest) = piece at hwide
            obtain ⟨c, k⟩ := piece
            obtain ⟨m, rfl⟩ := Nat.exists_eq_succ_of_ne_zero (Nat.ne_of_gt hwide.count.1)
            have hsplit : b :: rest = (b :: rest).take (m + 1) ++ rest.drop m :=
              (List.take_append_drop (m + 1) (b :: rest)).symm
            have hcount : ((b :: rest).take (m + 1)).length = m + 1 :=
              List.length_take_of_le (by simpa using hwide.count.2)
            have hrest : Blocks (pieces 0 (rest.drop m)) (rest.drop m) :=
              ih (rest.drop m).length (by simp only [← hn, List.length_drop, List.length_cons]; omega) _ rfl
            have hblocks : Blocks ((c, ((b :: rest).take (m + 1)).length) :: pieces 0 (rest.drop m))
                ((b :: rest).take (m + 1) ++ rest.drop m) :=
              .wide hwide.code (by simp) (by simpa using hwide.bytes) hrest
            rw [← hsplit, hcount] at hblocks
            simpa using hblocks

end Decoding

section Blocks

variable {ps : List (Nat × Nat)} {bs : Bytes}

def codes (ps : List (Nat × Nat)) : Text := ps.map Prod.fst

-- How many bytes the first code points take.
def offset (ps : List (Nat × Nat)) (i : Nat) : Nat := ((ps.take i).map Prod.snd).sum

theorem blocks_isPrefixOf (h : Blocks ps bs) (word : Text) (hword : ∀ c ∈ word, c < 128) :
    word.isPrefixOf (codes ps) = word.isPrefixOf bs := by
  induction h generalizing word with
  | nil => rfl
  | ascii hc _ ih =>
      cases word with
      | nil => rfl
      | cons d word =>
          simp only [codes, List.map_cons, List.isPrefixOf]
          rw [← ih word fun c hc => hword c (List.mem_cons_of_mem _ hc)]
          rfl
  | @wide c block ps bs hc hne hblock _ _ =>
      cases word with
      | nil => rfl
      | cons d word =>
          obtain ⟨b, block, rfl⟩ := List.exists_cons_of_ne_nil hne
          have hd := hword d List.mem_cons_self
          have hb := hblock b List.mem_cons_self
          have hcode : (d == c) = false := beq_false_of_ne (by omega)
          have hbyte : (d == b) = false := beq_false_of_ne (by omega)
          simp only [codes, List.map_cons, List.cons_append, List.isPrefixOf, hcode, hbyte, Bool.false_and]

theorem blocks_labelAt (h : Blocks ps bs) : labelAt (codes ps) = labelAt bs := by
  unfold labelAt
  rw [blocks_isPrefixOf h _ (by decide), blocks_isPrefixOf h _ (by decide)]

theorem blocks_hasLineEnd (h : Blocks ps bs) : hasLineEnd (codes ps) = hasLineEnd bs := by
  unfold hasLineEnd
  induction h with
  | nil => rfl
  | ascii hc _ ih => exact congrArg (_ || ·) ih
  | @wide c block ps bs hc hne hblock _ ih =>
      have hcode : (c == 10 || c == 13) = false := by
        simp only [Bool.or_eq_false_iff, beq_eq_false_iff_ne]
        omega
      have hbytes : block.any (fun c => c == 10 || c == 13) = false := by
        refine List.any_eq_false.mpr fun b hb => ?_
        have hlow := hblock b hb
        simp only [Bool.or_eq_true, beq_iff_eq]
        omega
      rw [List.any_append, hbytes, Bool.false_or, ← ih]
      exact congrArg (· || _) hcode

-- A header that counts in bytes: its line ends.
def ended (rest : Text) : Option Label := if hasLineEnd rest then labelAt rest else none

theorem blocks_ended (h : Blocks ps bs) : ended (codes ps) = ended bs := by
  unfold ended
  rw [blocks_hasLineEnd h, blocks_labelAt h]

theorem ended_head {c : Nat} {rest : Text} (hc : c ≠ 61) : ended (c :: rest) = none := by
  unfold ended
  split
  · exact Option.eq_none_iff_forall_ne_some.mpr fun _ h => hc (labelAt_head h)
  · rfl

theorem marks_wide {block : Bytes} (hblock : ∀ b ∈ block, 128 ≤ b) (at' : Nat) (after : Bytes) :
    marks ended at' false (block ++ after) = marks ended (at' + block.length) false after := by
  induction block generalizing at' with
  | nil => rfl
  | cons b block ih =>
      have hb : (b == 10) = false := beq_false_of_ne (by have := hblock b List.mem_cons_self; omega)
      have hstep := ih (fun d hd => hblock d (List.mem_cons_of_mem _ hd)) (at' + 1)
      have hlen : at' + 1 + block.length = at' + (b :: block).length := by simp only [List.length_cons]; omega
      rw [hlen] at hstep
      simpa only [List.cons_append, marks, hb, Bool.false_eq_true, if_false, Option.map_none, Option.toList_none,
        List.nil_append] using hstep

theorem offset_done (done ps : List (Nat × Nat)) : offset (done ++ ps) done.length = (done.map Prod.snd).sum := by
  simp [offset]

theorem blocks_marks (h : Blocks ps bs) (done : List (Nat × Nat)) (fresh : Bool) :
    (marks ended done.length fresh (codes ps)).map (fun m => (offset (done ++ ps) m.1, m.2)) =
      marks ended (done.map Prod.snd).sum fresh bs := by
  induction h generalizing done fresh with
  | nil => rfl
  | @ascii c ps bs hc h ih =>
      have hrest := ih (done ++ [(c, 1)]) (c == 10)
      have hended := blocks_ended (.ascii hc h)
      simp only [List.append_assoc, List.singleton_append, List.length_append, List.length_singleton,
        List.map_append, List.map_singleton, List.sum_append, List.sum_singleton] at hrest
      simp only [codes, List.map_cons] at hended
      simp only [codes, List.map_cons, marks, List.map_append] at hrest ⊢
      rw [hrest, hended]
      congr 1
      cases fresh with
      | false => rfl
      | true =>
          rw [if_pos rfl]
          cases ended (c :: bs) with
          | none => rfl
          | some label => simp [offset_done]
  | @wide c block ps bs hc hne hblock h ih =>
      have hrest := ih (done ++ [(c, block.length)]) false
      simp only [List.append_assoc, List.singleton_append, List.length_append, List.length_singleton,
        List.map_append, List.map_singleton, List.sum_append, List.sum_singleton] at hrest
      obtain ⟨b, block, rfl⟩ := List.exists_cons_of_ne_nil hne
      have hb := hblock b List.mem_cons_self
      have hcode : (c == 10) = false := beq_false_of_ne (by omega)
      have hbyte : (b == 10) = false := beq_false_of_ne (by omega)
      have hskip := marks_wide (fun d hd => hblock d (List.mem_cons_of_mem _ hd))
        ((done.map Prod.snd).sum + 1) bs
      have hnone : ∀ d (rest : Text), d ≠ 61 → (if fresh then ended (d :: rest) else none) = none := by
        intro d rest hd
        rw [ended_head hd, ite_self]
      have hlen : (done.map Prod.snd).sum + 1 + block.length = (done.map Prod.snd).sum + (b :: block).length := by
        simp only [List.length_cons]
        omega
      simp only [codes, List.map_cons, List.cons_append, marks, hnone c _ (by omega), hcode,
        hnone b _ (by omega), hbyte, hskip, hlen, Option.map_none, Option.toList_none, List.nil_append] at hrest ⊢
      exact hrest

theorem offset_all (h : Blocks ps bs) : offset ps (codes ps).length = bs.length := by
  induction h with
  | nil => rfl
  | ascii hc _ ih | wide hc hne hblock _ ih =>
      simp only [offset, codes, List.length_map, List.length_cons, List.take_succ_cons, List.map_cons, List.sum_cons,
        List.length_append] at ih ⊢
      omega

theorem offset_lt (h : Blocks ps bs) {i j : Nat} (hij : i < j) (hj : j ≤ (codes ps).length) :
    offset ps i < offset ps j := by
  have hsizes : ∀ e ∈ ps, 0 < e.2 := by
    clear hij hj
    induction h with
    | nil => simp
    | ascii hc _ ih => simpa using ih
    | wide hc hne _ _ ih =>
        refine List.forall_mem_cons.mpr ⟨List.length_pos_iff.mpr hne, ih⟩
  have hlen : j ≤ ps.length := by simpa [codes] using hj
  obtain ⟨k, rfl⟩ := Nat.exists_eq_add_of_lt hij
  have hmem : ps[i] ∈ ps := List.getElem_mem (by omega)
  have hsum : offset ps (i + k + 1) = offset ps i + (((ps.drop i).take (k + 1)).map Prod.snd).sum := by
    simp only [offset, Nat.add_assoc, List.take_add, List.map_append, List.sum_append]
  have hdrop : ps.drop i = ps[i] :: ps.drop (i + 1) := List.drop_eq_getElem_cons (by omega)
  rw [hsum, hdrop, List.take_succ_cons, List.map_cons, List.sum_cons]
  have hpos := hsizes _ hmem
  omega

end Blocks

end GaHub.Archive
