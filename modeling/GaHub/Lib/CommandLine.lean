import Mathlib.Data.List.Forall2
import Mathlib.Data.List.Flatten

namespace Lib.CommandLine

def isBlank (c : Char) : Bool := c = ' ' || c = '\t'

def backslashes (n : Nat) : List Char := List.replicate n '\\'

-- How the C runtime splits a command line. `arg` is what there is of the argument that has begun, `slashes` how many
-- backslashes have been seen last: before a quote each two are one and a single one more makes the quote a character.
def scan (quoted : Bool) (arg : Option (List Char)) (slashes : Nat) : List Char → List (List Char)
  | [] => if arg.isNone && slashes = 0 then [] else [arg.getD [] ++ backslashes slashes]
  | c :: s =>
    if c = '\\' then scan quoted arg (slashes + 1) s
    else if c = '"' then
      if slashes % 2 = 1 then scan quoted (some (arg.getD [] ++ backslashes (slashes / 2) ++ ['"'])) 0 s
      else scan (!quoted) (some (arg.getD [] ++ backslashes (slashes / 2))) 0 s
    else if isBlank c && !quoted then
      if arg.isNone && slashes = 0 then scan false none 0 s
      else (arg.getD [] ++ backslashes slashes) :: scan false none 0 s
    else scan quoted (some (arg.getD [] ++ backslashes slashes ++ [c])) 0 s

def split (line : List Char) : List (List Char) := scan false none 0 line

-- What `list2cmdline` writes for an argument behind some backslashes it holds back.
def escape (needquote : Bool) (slashes : Nat) : List Char → List Char
  | [] => backslashes (if needquote then slashes + slashes else slashes)
  | c :: s =>
    if c = '\\' then escape needquote (slashes + 1) s
    else if c = '"' then backslashes (slashes * 2) ++ '\\' :: '"' :: escape needquote 0 s
    else backslashes slashes ++ c :: escape needquote 0 s

-- `list2cmdline([arg])`
def list2cmdline (arg : List Char) : List Char :=
  if arg = [] ∨ arg.any isBlank then '"' :: escape true 0 arg ++ ['"'] else escape false 0 arg

section Scan

theorem scan_cons (quoted : Bool) (arg : Option (List Char)) (slashes : Nat) (c : Char) (s : List Char) :
    scan quoted arg slashes (c :: s) =
      if c = '\\' then scan quoted arg (slashes + 1) s
      else if c = '"' then
        if slashes % 2 = 1 then scan quoted (some (arg.getD [] ++ backslashes (slashes / 2) ++ ['"'])) 0 s
        else scan (!quoted) (some (arg.getD [] ++ backslashes (slashes / 2))) 0 s
      else if isBlank c && !quoted then
        if arg.isNone && slashes = 0 then scan false none 0 s
        else (arg.getD [] ++ backslashes slashes) :: scan false none 0 s
      else scan quoted (some (arg.getD [] ++ backslashes slashes ++ [c])) 0 s := rfl

theorem escape_nil (needquote : Bool) (slashes : Nat) :
    escape needquote slashes [] = backslashes (if needquote then slashes + slashes else slashes) := rfl

theorem escape_cons (needquote : Bool) (slashes : Nat) (c : Char) (s : List Char) :
    escape needquote slashes (c :: s) =
      if c = '\\' then escape needquote (slashes + 1) s
      else if c = '"' then backslashes (slashes * 2) ++ '\\' :: '"' :: escape needquote 0 s
      else backslashes slashes ++ c :: escape needquote 0 s := rfl

variable {quoted : Bool} {arg : Option (List Char)} {a b s rest : List Char} {n slashes : Nat}

theorem scan_backslashes (n : Nat) (s : List Char) :
    scan quoted arg slashes (backslashes n ++ s) = scan quoted arg (slashes + n) s := by
  induction n generalizing slashes with
  | zero => rfl
  | succ n ih =>
      rw [backslashes, List.replicate_succ, List.cons_append, scan_cons, if_pos rfl]
      exact ih.trans (by rw [Nat.add_right_comm, Nat.add_assoc])

theorem scan_quote_even (quoted : Bool) (arg : Option (List Char)) (n : Nat) (s : List Char) :
    scan quoted arg (n + n) ('"' :: s) = scan (!quoted) (some (arg.getD [] ++ backslashes n)) 0 s := by
  rw [scan_cons, if_neg (by decide), if_pos rfl, if_neg (by omega)]
  congr 4
  omega

theorem scan_quote_odd (quoted : Bool) (arg : Option (List Char)) (n : Nat) (s : List Char) :
    scan quoted arg (n + n + 1) ('"' :: s) = scan quoted (some (arg.getD [] ++ backslashes n ++ ['"'])) 0 s := by
  rw [scan_cons, if_neg (by decide), if_pos rfl, if_pos (by omega)]
  congr 5
  omega

theorem scan_char {c : Char} (hslash : c ≠ '\\') (hquote : c ≠ '"') (hblank : quoted = false → isBlank c = false)
    (s : List Char) : scan quoted arg slashes (c :: s) =
      scan quoted (some (arg.getD [] ++ backslashes slashes ++ [c])) 0 s := by
  have hinside : (isBlank c && !quoted) = false := by
    cases quoted with
    | true => rw [Bool.not_true, Bool.and_false]
    | false => rw [hblank rfl, Bool.false_and]
  rw [scan_cons, if_neg hslash, if_neg hquote, hinside]
  rfl

theorem scan_end (a : List Char) (n : Nat) (hrest : rest = [] ∨ ∃ s, rest = ' ' :: s) :
    scan false (some a) n rest = (a ++ backslashes n) :: split rest.tail := by
  rcases hrest with rfl | ⟨s, rfl⟩
  · rfl
  · rw [scan_cons, if_neg (by decide), if_neg (by decide), if_pos (by decide)]
    rfl

theorem scan_front (quoted : Bool) (a : List Char) (n : Nat) (s : List Char) :
    ∃ b rest, scan quoted (some a) n s = (a ++ b) :: rest := by
  induction s generalizing quoted a n with
  | nil => exact ⟨backslashes n, [], rfl⟩
  | cons c s ih =>
      by_cases hslash : c = '\\'
      · rw [hslash, scan_cons, if_pos rfl]
        exact ih quoted a (n + 1)
      · by_cases hquote : c = '"'
        · rw [hquote, scan_cons, if_neg (by decide), if_pos rfl]
          split
          · obtain ⟨b, rest, heq⟩ := ih quoted (a ++ backslashes (n / 2) ++ ['"']) 0
            exact ⟨backslashes (n / 2) ++ ['"'] ++ b, rest, by rw [Option.getD_some, heq]; simp⟩
          · obtain ⟨b, rest, heq⟩ := ih (!quoted) (a ++ backslashes (n / 2)) 0
            exact ⟨backslashes (n / 2) ++ b, rest, by rw [Option.getD_some, heq]; simp⟩
        · rw [scan_cons, if_neg hslash, if_neg hquote]
          split
          · exact ⟨backslashes n, _, rfl⟩
          · obtain ⟨b, rest, heq⟩ := ih quoted (a ++ backslashes n ++ [c]) 0
            exact ⟨backslashes n ++ [c] ++ b, rest, by rw [Option.getD_some, heq]; simp⟩

theorem backslashes_succ (n : Nat) (s : List Char) : backslashes (n + 1) ++ s = backslashes n ++ '\\' :: s := by
  rw [backslashes, List.replicate_succ', List.append_assoc]
  rfl

theorem scan_escape (a s rest : List Char) (n : Nat) : scan true (some a) 0 (escape true n s ++ '"' :: rest) =
    scan false (some (a ++ (backslashes n ++ s))) 0 rest := by
  induction s generalizing a n with
  | nil =>
      rw [escape_nil, if_pos rfl, scan_backslashes, Nat.zero_add, scan_quote_even, List.append_nil]
      rfl
  | cons c s ih =>
      rw [escape_cons]
      split
      · rename_i hslash
        rw [ih, hslash, backslashes_succ]
      · rename_i hslash
        split
        · rename_i hquote
          have hcount : 0 + n * 2 + 1 = n + n + 1 := by omega
          rw [List.append_assoc, scan_backslashes, List.cons_append, scan_cons, if_pos rfl, hcount, List.cons_append,
            scan_quote_odd, ih, hquote]
          simp [backslashes]
        · rename_i hquote
          rw [List.append_assoc, scan_backslashes, List.cons_append,
            scan_char hslash hquote (fun h => by cases h), ih]
          simp [backslashes]

theorem scan_escape_bare (a s : List Char) (n : Nat) (hblank : s.any isBlank = false)
    (hrest : rest = [] ∨ ∃ s, rest = ' ' :: s) :
    scan false (some a) 0 (escape false n s ++ rest) = (a ++ (backslashes n ++ s)) :: split rest.tail := by
  induction s generalizing a n with
  | nil =>
      rw [escape_nil, if_neg (by decide), scan_backslashes, Nat.zero_add, scan_end a n hrest, List.append_nil]
  | cons c s ih =>
      rw [List.any_cons, Bool.or_eq_false_iff] at hblank
      rw [escape_cons]
      split
      · rename_i hslash
        rw [ih a (n + 1) hblank.2, hslash, backslashes_succ]
      · rename_i hslash
        split
        · rename_i hquote
          have hcount : 0 + n * 2 + 1 = n + n + 1 := by omega
          rw [List.append_assoc, scan_backslashes, List.cons_append, scan_cons, if_pos rfl, hcount, List.cons_append,
            scan_quote_odd, ih _ _ hblank.2, hquote]
          simp [backslashes]
        · rename_i hquote
          rw [List.append_assoc, scan_backslashes, List.cons_append,
            scan_char hslash hquote (fun _ => hblank.1), ih _ _ hblank.2]
          simp [backslashes]

theorem scan_started (s : List Char) : scan quoted none (n + 1) s = scan quoted (some []) (n + 1) s := by
  induction s generalizing n with
  | nil => rfl
  | cons c s ih =>
      by_cases hslash : c = '\\'
      · rw [scan_cons, scan_cons, if_pos hslash, if_pos hslash]
        exact ih
      · rw [scan_cons, scan_cons, if_neg hslash, if_neg hslash]
        rfl

theorem scan_none {c : Char} (hblank : isBlank c = false) (s : List Char) :
    scan false none 0 (c :: s) = scan false (some []) 0 (c :: s) := by
  by_cases hslash : c = '\\'
  · rw [scan_cons, scan_cons, if_pos hslash, if_pos hslash]
    exact scan_started s
  · rw [scan_cons, scan_cons, if_neg hslash, if_neg hslash, hblank]
    rfl

end Scan

section Lines

variable {word word' arg s : List Char} {words args : List (List Char)}

def Reads (word arg : List Char) : Prop :=
  ∀ rest, (rest = [] ∨ ∃ s, rest = ' ' :: s) → split (word ++ rest) = arg :: split rest.tail

theorem reads_quoted (s : List Char) : Reads ('"' :: escape true 0 s ++ ['"']) s := by
  intro rest hrest
  have hopen : scan false none 0 ('"' :: (escape true 0 s ++ ['"'] ++ rest)) =
      scan true (some []) 0 (escape true 0 s ++ ['"'] ++ rest) := rfl
  rw [split, List.cons_append, List.cons_append, hopen, List.append_assoc, List.singleton_append, scan_escape,
    scan_end _ _ hrest]
  simp [backslashes]

theorem escape_slashes (needquote : Bool) (n : Nat) (s : List Char) : ∃ t, escape needquote (n + 1) s = '\\' :: t := by
  induction s generalizing n with
  | nil =>
      rw [escape_nil]
      split
      · exact ⟨backslashes (n + (n + 1)), congrArg backslashes (Nat.add_right_comm n 1 (n + 1))⟩
      · exact ⟨backslashes n, rfl⟩
  | cons c s ih =>
      rw [escape_cons]
      split
      · exact ih (n + 1)
      · split
        · exact ⟨backslashes (n * 2 + 1) ++ '\\' :: '"' :: escape needquote 0 s, by rw [Nat.succ_mul]; rfl⟩
        · exact ⟨backslashes n ++ c :: escape needquote 0 s, rfl⟩

theorem escape_head (needquote : Bool) {c : Char} (hblank : isBlank c = false) (s : List Char) :
    ∃ d t, escape needquote 0 (c :: s) = d :: t ∧ isBlank d = false := by
  rw [escape_cons]
  split
  · obtain ⟨t, ht⟩ := escape_slashes needquote 0 s
    exact ⟨'\\', t, ht, rfl⟩
  · split
    · exact ⟨'\\', _, rfl, rfl⟩
    · exact ⟨c, _, rfl, hblank⟩

theorem reads_bare (hne : s ≠ []) (hblank : s.any isBlank = false) : Reads (escape false 0 s) s := by
  intro rest hrest
  obtain ⟨c, s, rfl⟩ := List.exists_cons_of_ne_nil hne
  have hfirst := (Bool.or_eq_false_iff.mp hblank).1
  obtain ⟨d, t, hescape, hd⟩ := escape_head false hfirst s
  have hread := scan_escape_bare [] (c :: s) 0 hblank hrest
  rw [hescape] at hread
  rw [split, hescape, List.cons_append, scan_none hd]
  exact hread

theorem intercalate_cons (word : List Char) (words : List (List Char)) :
    ∃ rest, List.intercalate [' '] (word :: words) = word ++ rest ∧ (rest = [] ∨ ∃ s, rest = ' ' :: s) ∧
      rest.tail = List.intercalate [' '] words := by
  cases words with
  | nil => exact ⟨[], by rw [List.intercalate_singleton, List.append_nil], .inl rfl, rfl⟩
  | cons word' words => exact ⟨' ' :: List.intercalate [' '] (word' :: words), rfl, .inr ⟨_, rfl⟩, rfl⟩

end Lines

section Quotes

variable {a s : List Char} {n : Nat}

theorem escape_bare (hs : '"' ∉ s) (n : Nat) : escape false n s = backslashes n ++ s := by
  induction s generalizing n with
  | nil => exact (List.append_nil _).symm
  | cons c s ih =>
      rw [List.mem_cons, not_or] at hs
      rw [escape_cons, if_neg (Ne.symm hs.1)]
      split
      · rename_i hslash
        rw [ih hs.2, hslash, backslashes_succ]
      · rw [ih hs.2]
        rfl

theorem not_mem_escape (hs : '"' ∉ s) (needquote : Bool) (n : Nat) : '"' ∉ escape needquote n s := by
  have hslashes : ∀ m, '"' ∉ backslashes m := fun m hmem => absurd (List.eq_of_mem_replicate hmem) (by decide)
  induction s generalizing n with
  | nil => exact hslashes _
  | cons c s ih =>
      rw [List.mem_cons, not_or] at hs
      rw [escape_cons, if_neg (Ne.symm hs.1)]
      split
      · exact ih hs.2 (n + 1)
      · rw [List.mem_append, List.mem_cons]
        rintro (hmem | hmem | hmem)
        · exact hslashes n hmem
        · exact hs.1 hmem
        · exact ih hs.2 0 hmem

theorem scan_text (hs : '"' ∉ s) (a : List Char) (n : Nat) : ∃ b m, backslashes n ++ s = b ++ backslashes m ∧
    ¬['\\'] <:+ b ∧ ∀ rest, scan true (some a) n (s ++ rest) = scan true (some (a ++ b)) m rest := by
  induction s generalizing a n with
  | nil =>
      refine ⟨[], n, List.append_nil _, fun h => ?_, fun rest => by rw [List.append_nil]; rfl⟩
      cases List.suffix_nil.mp h
  | cons c s ih =>
      rw [List.mem_cons, not_or] at hs
      by_cases hslash : c = '\\'
      · obtain ⟨b, m, hsplit, hlast, hscan⟩ := ih hs.2 a (n + 1)
        refine ⟨b, m, by rw [← hsplit, hslash, backslashes_succ], hlast, fun rest => ?_⟩
        rw [← hscan, hslash, List.cons_append, scan_cons, if_pos rfl]
      · obtain ⟨b, m, hsplit, hlast, hscan⟩ := ih hs.2 (a ++ backslashes n ++ [c]) 0
        refine ⟨backslashes n ++ c :: b, m, ?_, fun h => ?_, fun rest => ?_⟩
        · rw [List.append_assoc, List.cons_append, ← hsplit]
          rfl
        · rcases List.eq_nil_or_concat b with rfl | ⟨front, d, rfl⟩
          · exact hslash (List.singleton_suffix_append_singleton_iff.mp h).symm
          · rw [List.concat_eq_append] at h hlast
            rw [← List.cons_append, ← List.append_assoc, List.singleton_suffix_append_singleton_iff] at h
            exact hlast (List.singleton_suffix_append_singleton_iff.mpr h)
        · rw [List.cons_append, scan_char hslash (Ne.symm hs.1) (fun h => by cases h), Option.getD_some, hscan]
          simp

end Quotes

end Lib.CommandLine
