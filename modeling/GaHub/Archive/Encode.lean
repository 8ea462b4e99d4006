import GaHub.Archive.Decode

namespace GaHub.Archive

-- A code point that UTF-8 has bytes for.
def Scalar (c : Nat) : Prop := c < 0x110000 ∧ ¬(0xD800 ≤ c ∧ c ≤ 0xDFFF)

instance (c : Nat) : Decidable (Scalar c) := inferInstanceAs (Decidable (c < 0x110000 ∧ ¬(0xD800 ≤ c ∧ c ≤ 0xDFFF)))

def encodeOne (c : Nat) : Bytes :=
  if c < 0x80 then [c]
  else if c < 0x800 then [0xC0 + c / 64, 0x80 + c % 64]
  else if c < 0x10000 then [0xE0 + c / 4096, 0x80 + c / 64 % 64, 0x80 + c % 64]
  else [0xF0 + c / 262144, 0x80 + c / 4096 % 64, 0x80 + c / 64 % 64, 0x80 + c % 64]

-- `encode("utf-8")`
def encode (t : Text) : Bytes := t.flatMap encodeOne

section Encoding

variable {c b n : Nat} {t s : Text} {bs : Bytes}

theorem encode_append (s t : Text) : encode (s ++ t) = encode s ++ encode t := List.flatMap_append

theorem encodeOne_ne_nil (c : Nat) : encodeOne c ≠ [] := by
  simp only [encodeOne]
  repeat' split
  all_goals exact List.cons_ne_nil _ _

theorem decodeOne_encodeOne (h : Scalar c) (rest : Bytes) :
    decodeOne (encodeOne c ++ rest) = (c, (encodeOne c).length) := by
  obtain ⟨hmax, hsurrogate⟩ := h
  by_cases hone : c < 0x80
  · simp only [encodeOne, if_pos hone, List.cons_append, List.nil_append, decodeOne, List.length_singleton]
  by_cases htwo : c < 0x800
  · have hlead : ¬0xC0 + c / 64 < 0x80 := by omega
    have hrange : 0xC2 ≤ 0xC0 + c / 64 ∧ 0xC0 + c / 64 ≤ 0xDF := by omega
    have hb : 0x80 ≤ 0x80 + c % 64 ∧ 0x80 + c % 64 ≤ 0xBF := by omega
    simp only [encodeOne, if_neg hone, if_pos htwo, List.cons_append, List.nil_append, decodeOne, if_neg hlead,
      if_pos hrange, List.getElem?_cons_zero, Option.filter_some, decide_eq_true hb, if_true, List.length_cons,
      List.length_nil]
    rw [Prod.mk.injEq]
    exact ⟨by omega, rfl⟩
  by_cases hthree : c < 0x10000
  · have hlead : ¬0xE0 + c / 4096 < 0x80 := by omega
    have hnot : ¬(0xC2 ≤ 0xE0 + c / 4096 ∧ 0xE0 + c / 4096 ≤ 0xDF) := by omega
    have hrange : 0xE0 ≤ 0xE0 + c / 4096 ∧ 0xE0 + c / 4096 ≤ 0xEF := by omega
    have hb : (if 0xE0 + c / 4096 = 0xE0 then 0xA0 else 0x80) ≤ 0x80 + c / 64 % 64 ∧
        0x80 + c / 64 % 64 ≤ if 0xE0 + c / 4096 = 0xED then 0x9F else 0xBF := by
      constructor <;> split <;> omega
    have hd : 0x80 ≤ 0x80 + c % 64 ∧ 0x80 + c % 64 ≤ 0xBF := by omega
    simp only [encodeOne, if_neg hone, if_neg htwo, if_pos hthree, List.cons_append, List.nil_append, decodeOne,
      if_neg hlead, if_neg hnot, if_pos hrange, List.getElem?_cons_zero, List.getElem?_cons_succ, Option.filter_some,
      decide_eq_true hb, decide_eq_true hd, if_true, List.length_cons, List.length_nil]
    rw [Prod.mk.injEq]
    exact ⟨by omega, rfl⟩
  · have hlead : ¬0xF0 + c / 262144 < 0x80 := by omega
    have hnot : ¬(0xC2 ≤ 0xF0 + c / 262144 ∧ 0xF0 + c / 262144 ≤ 0xDF) := by omega
    have hnot' : ¬(0xE0 ≤ 0xF0 + c / 262144 ∧ 0xF0 + c / 262144 ≤ 0xEF) := by omega
    have hrange : 0xF0 ≤ 0xF0 + c / 262144 ∧ 0xF0 + c / 262144 ≤ 0xF4 := by omega
    have hb : (if 0xF0 + c / 262144 = 0xF0 then 0x90 else 0x80) ≤ 0x80 + c / 4096 % 64 ∧
        0x80 + c / 4096 % 64 ≤ if 0xF0 + c / 262144 = 0xF4 then 0x8F else 0xBF := by
      constructor <;> split <;> omega
    have hd : 0x80 ≤ 0x80 + c / 64 % 64 ∧ 0x80 + c / 64 % 64 ≤ 0xBF := by omega
    have he : 0x80 ≤ 0x80 + c % 64 ∧ 0x80 + c % 64 ≤ 0xBF := by omega
    simp only [encodeOne, if_neg hone, if_neg htwo, if_neg hthree, List.cons_append, List.nil_append, decodeOne,
      if_neg hlead, if_neg hnot, if_neg hnot', if_pos hrange, List.getElem?_cons_zero, List.getElem?_cons_succ,
      Option.filter_some, decide_eq_true hb, decide_eq_true hd, decide_eq_true he, if_true, List.length_cons,
      List.length_nil]
    rw [Prod.mk.injEq]
    exact ⟨by omega, rfl⟩

theorem decode_cons (h : (decodeOne (b :: bs)).2 = n + 1) :
    decode (b :: bs) = (decodeOne (b :: bs)).1 :: decode (bs.drop n) := by
  rw [decode, pieces_cons, h]
  rfl

theorem decode_encodeOne (h : Scalar c) (rest : Bytes) : decode (encodeOne c ++ rest) = c :: decode rest := by
  obtain ⟨b, bs, hcons⟩ := List.exists_cons_of_ne_nil (encodeOne_ne_nil c)
  have hone := decodeOne_encodeOne h rest
  rw [hcons, List.cons_append, List.length_cons] at hone
  rw [hcons, List.cons_append, decode_cons (congrArg Prod.snd hone), hone, List.drop_left]

theorem decode_encode (h : ∀ c ∈ t, Scalar c) : decode (encode t) = t := by
  induction t with
  | nil => rfl
  | cons c t ih =>
      have hcons : encode (c :: t) = encodeOne c ++ encode t := rfl
      rw [hcons, decode_encodeOne (h c List.mem_cons_self), ih fun d hd => h d (List.mem_cons_of_mem _ hd)]

theorem encodeOne_tail (c : Nat) : ∀ b ∈ (encodeOne c).drop 1, 0x80 ≤ b ∧ b < 0xC0 := by
  intro b hb
  simp only [encodeOne] at hb
  split at hb
  · cases hb
  · split at hb
    · simp only [List.drop_succ_cons, List.drop_zero, List.mem_singleton] at hb
      omega
    · split at hb
      · simp only [List.drop_succ_cons, List.drop_zero, List.mem_cons, List.not_mem_nil, or_false] at hb
        omega
      · simp only [List.drop_succ_cons, List.drop_zero, List.mem_cons, List.not_mem_nil, or_false] at hb
        omega

theorem decode_tails (hbs : ∀ b ∈ bs, 0x80 ≤ b ∧ b < 0xC0) (rest : Bytes) :
    decode (bs ++ rest) = List.replicate bs.length 0xFFFD ++ decode rest := by
  induction bs with
  | nil => rfl
  | cons b bs ih =>
      obtain ⟨hlow, hhigh⟩ := hbs b List.mem_cons_self
      have hone : decodeOne (b :: (bs ++ rest)) = (0xFFFD, 1) := by
        simp only [decodeOne]
        rw [if_neg (by omega), if_neg (by omega), if_neg (by omega), if_neg (by omega)]
      rw [List.cons_append, decode_cons (congrArg Prod.snd hone), hone, List.drop_zero,
        ih fun d hd => hbs d (List.mem_cons_of_mem _ hd)]
      rfl

theorem count_encodeOne (c : Nat) : (encodeOne c).count 10 = if c = 10 then 1 else 0 := by
  have hzero : ∀ bs : Bytes, (∀ b ∈ bs, 0x80 ≤ b) → bs.count 10 = 0 := fun bs hbs =>
    List.count_eq_zero.mpr fun hmem => absurd (hbs 10 hmem) (by decide)
  by_cases hone : c < 0x80
  · rw [encodeOne, if_pos hone, List.count_singleton]
    simp only [beq_iff_eq]
  · have hne : ¬c = 10 := by omega
    rw [if_neg hne]
    refine hzero _ fun b hb => ?_
    simp only [encodeOne, if_neg hone] at hb
    split at hb
    · simp only [List.mem_cons, List.not_mem_nil, or_false] at hb
      omega
    · split at hb
      · simp only [List.mem_cons, List.not_mem_nil, or_false] at hb
        omega
      · simp only [List.mem_cons, List.not_mem_nil, or_false] at hb
        omega

theorem count_encode (t : Text) : (encode t).count 10 = t.count 10 := by
  induction t with
  | nil => rfl
  | cons c t ih =>
      have hcons : encode (c :: t) = encodeOne c ++ encode t := rfl
      rw [hcons, List.count_append, ih, count_encodeOne, List.count_cons, Nat.add_comm]
      congr 1
      by_cases h : c = 10
      · simp [h]
      · simp [h]

theorem decode_drop (h : ∀ c ∈ t, Scalar c) (k : Nat) : ∃ p q m, t = p ++ q ∧
    decode ((encode t).drop k) = List.replicate m 0xFFFD ++ q ∧ ((encode t).drop k).count 10 = q.count 10 := by
  induction t generalizing k with
  | nil => exact ⟨[], [], 0, rfl, by rw [encode, List.flatMap_nil, List.drop_nil]; rfl, by simp [encode]⟩
  | cons c t ih =>
      have hcons : encode (c :: t) = encodeOne c ++ encode t := rfl
      have hrest : ∀ d ∈ t, Scalar d := fun d hd => h d (List.mem_cons_of_mem _ hd)
      rw [hcons, List.drop_append]
      by_cases hle : (encodeOne c).length ≤ k
      · obtain ⟨p, q, m, rfl, hdecode, hcount⟩ := ih hrest (k - (encodeOne c).length)
        rw [List.drop_eq_nil_of_le hle, List.nil_append]
        exact ⟨c :: p, q, m, rfl, hdecode, hcount⟩
      · rw [Nat.sub_eq_zero_of_le (Nat.le_of_not_le hle), List.drop_zero]
        cases k with
        | zero =>
            refine ⟨[], c :: t, 0, rfl, ?_, ?_⟩
            · rw [List.drop_zero, decode_encodeOne (h c List.mem_cons_self), decode_encode hrest]
              rfl
            · rw [List.drop_zero, ← hcons, count_encode]
        | succ k =>
            have htails : ∀ b ∈ (encodeOne c).drop (k + 1), 0x80 ≤ b ∧ b < 0xC0 := by
              intro b hb
              rw [Nat.add_comm, ← List.drop_drop] at hb
              exact encodeOne_tail c b (List.mem_of_mem_drop hb)
            refine ⟨[c], t, ((encodeOne c).drop (k + 1)).length, rfl, ?_, ?_⟩
            · rw [decode_tails htails, decode_encode hrest]
            · rw [List.count_append, count_encode, List.count_eq_zero.mpr, Nat.zero_add]
              exact fun hmem => absurd (htails 10 hmem).1 (by decide)

end Encoding

end GaHub.Archive
