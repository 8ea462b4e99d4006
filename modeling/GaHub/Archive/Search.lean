import GaHub.Archive.Encode
import Mathlib.Data.List.Infix

namespace GaHub.Archive

-- `bytes.lower`, which knows ASCII only.
def lowerByte (b : Nat) : Nat := if 65 ≤ b ∧ b ≤ 90 then b + 32 else b

def lower (bs : Bytes) : Bytes := bs.map lowerByte

-- `query.encode("utf-8", errors="ignore")`
def encodeQuery (query : Text) : Bytes := encode (query.filter fun c => decide (Scalar c))

-- What one `handle.read` after the other returns, until one returns nothing.
def readsFrom (size : Nat) : Nat → Bytes → List Bytes
  | 0, _ => []
  | fuel + 1, rest => if rest = [] then [] else rest.take size :: readsFrom size fuel (rest.drop size)

def reads (size : Nat) (content : Bytes) : List Bytes := readsFrom size content.length content

def scanChunks (needle : Bytes) : Bytes → List Bytes → Bool
  | _, [] => false
  | carry, chunk :: rest =>
    let overlap := needle.length - 1
    let haystack := carry ++ lower chunk
    if needle <:+: haystack then true
    else scanChunks needle (if overlap = 0 then [] else haystack.drop (haystack.length - overlap)) rest

def SEARCH_READ_CHUNK_BYTES : Nat := 256 * 1024

-- A file that cannot be opened is `none`.
def archiveContainsQuery (file : Option Bytes) (query : Text) (size : Nat := SEARCH_READ_CHUNK_BYTES) : Bool :=
  let needle := lower (encodeQuery query)
  if needle = [] then true
  else match file with
    | none => false
    | some content => scanChunks needle [] (reads size content)

section Search

variable {needle carry seen rest : Bytes} {size : Nat}

theorem readsFrom_flatten (hsize : 0 < size) (fuel : Nat) (content : Bytes) (hfuel : content.length ≤ fuel) :
    (readsFrom size fuel content).flatten = content := by
  induction fuel generalizing content with
  | zero => exact (List.eq_nil_of_length_eq_zero (Nat.le_zero.mp hfuel)).symm
  | succ fuel ih =>
      rw [readsFrom]
      by_cases hnil : content = []
      · rw [if_pos hnil, hnil]
        rfl
      · have hlen := List.length_pos_iff.mpr hnil
        have hleft : (content.drop size).length ≤ fuel := by
          rw [List.length_drop]
          omega
        rw [if_neg hnil, List.flatten_cons, ih _ hleft, List.take_append_drop]

theorem infix_append_carry (hneedle : ¬needle <:+: seen) : needle <:+: seen ++ rest ↔
    needle <:+: seen.drop (seen.length - (needle.length - 1)) ++ rest := by
  have hsplit : seen = seen.take (seen.length - (needle.length - 1)) ++ seen.drop (seen.length - (needle.length - 1)) :=
    (List.take_append_drop _ _).symm
  constructor
  · intro h
    rcases List.infix_append_iff.mp h with hleft | hright | ⟨front, back, hcut, hfront, hback⟩
    · exact absurd hleft hneedle
    · exact List.infix_append_of_infix_right hright
    · refine List.infix_append_iff.mpr (.inr (.inr ⟨front, back, hcut, ?_, hback⟩))
      by_cases hwhole : back = []
      · rw [hwhole, List.append_nil] at hcut
        rw [hcut] at hneedle
        exact absurd hfront.isInfix hneedle
      · have hpos := List.length_pos_iff.mpr hwhole
        have hle := hfront.length_le
        refine List.suffix_of_suffix_length_le hfront (List.drop_suffix _ _) ?_
        rw [hcut, List.length_append, List.length_drop]
        omega
  · intro h
    rw [hsplit, List.append_assoc]
    exact List.infix_append_of_infix_right h

theorem carry_eq (seen : Bytes) (overlap : Nat) :
    (if overlap = 0 then [] else seen.drop (seen.length - overlap)) = seen.drop (seen.length - overlap) := by
  split
  · rename_i hzero
    rw [hzero, Nat.sub_zero, List.drop_length]
  · rfl

theorem scanChunks_iff (chunks : List Bytes) (hcarry : carry.length < needle.length) :
    scanChunks needle carry chunks = true ↔ needle <:+: carry ++ lower chunks.flatten := by
  induction chunks generalizing carry with
  | nil =>
      have hshort : ¬needle <:+: carry ++ lower ([] : List Bytes).flatten := by
        intro h
        have hle := h.length_le
        rw [List.length_append] at hle
        simp only [List.flatten_nil, lower, List.map_nil, List.length_nil] at hle
        omega
      exact iff_of_false Bool.false_ne_true hshort
  | cons chunk rest ih =>
      have hwhole : carry ++ lower (chunk :: rest).flatten = (carry ++ lower chunk) ++ lower rest.flatten := by
        rw [List.flatten_cons, lower, List.map_append, ← List.append_assoc]
        rfl
      rw [scanChunks, carry_eq, hwhole]
      by_cases hhere : needle <:+: carry ++ lower chunk
      · rw [if_pos hhere]
        exact iff_of_true rfl (List.infix_append_of_infix_left hhere)
      · rw [if_neg hhere, infix_append_carry hhere]
        refine ih ?_
        rw [List.length_drop]
        omega

-- The search by chunks finds what a search of the whole file would.
theorem archive_contains_iff (hsize : 0 < size) (content : Bytes) (query : Text) :
    archiveContainsQuery (some content) query size = true ↔ lower (encodeQuery query) <:+: lower content := by
  unfold archiveContainsQuery
  by_cases hnil : lower (encodeQuery query) = []
  · rw [if_pos hnil, hnil]
    exact iff_of_true rfl (List.nil_infix)
  · rw [if_neg hnil]
    show scanChunks _ [] (reads size content) = true ↔ _
    have hcarry : ([] : Bytes).length < (lower (encodeQuery query)).length := List.length_pos_iff.mpr hnil
    rw [scanChunks_iff _ hcarry, reads, readsFrom_flatten hsize _ _ (Nat.le_refl _), List.nil_append]

-- A query of nine bytes, found across four chunks of three.
theorem archive_contains_chunked :
    archiveContainsQuery (some (encode (text "ab NATIVE Log\n"))) (text "native lo") 3 = true :=
  (archive_contains_iff (by decide) _ _).mpr (by decide)

end Search

end GaHub.Archive
