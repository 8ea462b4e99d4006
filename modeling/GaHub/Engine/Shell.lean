import GaHub.Lib.CommandLine

namespace GaHub.Engine.Shell

open Lib Lib.CommandLine

abbrev Text := List Char

-- The platform: whether `os.name` is "nt", and the variables the shell is looked for in.
structure Host where
  nt : Bool
  ComSpec : Option Text
  SystemRoot : Option Text
  deriving DecidableEq

def CMD_METACHARACTERS : Text := ['&', '|', '<', '>', '^']

def cmdQuote (part : Text) : Text :=
  if part ≠ [] ∧ ¬part.any fun ch => isBlank ch || CMD_METACHARACTERS.contains ch then part
  else
    let quoted := list2cmdline part
    if ['"'] <+: quoted ∧ ['"'] <:+ quoted then quoted
    else '"' :: quoted ++ ['"']

-- `os.path.join` of Windows, for a second part that is relative.
def join (root part : Text) : Text :=
  match root.getLast? with
  | none => part
  | some c => if c = '\\' ∨ c = '/' ∨ c = ':' then root ++ part else root ++ '\\' :: part

def comspec (host : Host) : Text :=
  match host.ComSpec.filter (· ≠ []) with
  | some path => path
  | none => join (join (host.SystemRoot.getD "C:\\Windows".toList) "System32".toList) "cmd.exe".toList

-- What `Popen` is given: a list of arguments, or a command line with the program to start.
inductive Launch where
  | list (cmd : List Text)
  | line (text executable : Text)
  deriving DecidableEq

def shellLaunch (host : Host) (cmd : List Text) : Launch :=
  if !host.nt then .list cmd
  else
    let inner := List.intercalate [' '] (cmd.map cmdQuote)
    .line (comspec host ++ " /c \"".toList ++ inner ++ ['"']) (comspec host)

section Shell

-- The text between its first character and its last quote, and what is behind that quote.
def stripQuotes : Text → Text
  | '"' :: text =>
    match text.reverse.dropWhile (· ≠ '"') with
    | [] => text
    | _ :: before => before.reverse ++ (text.reverse.takeWhile (· ≠ '"')).reverse
  | text => text

-- There is nothing outside of quotes that the shell has a meaning for.
def plain (quoted : Bool) : Text → Bool
  | [] => true
  | c :: s =>
    if c = '"' then plain (!quoted) s
    else (quoted || !CMD_METACHARACTERS.contains c) && plain quoted s

-- What `cmd.exe /c` starts a program with: no command line where it reads shell syntax.
def shell (text : Text) : Option Text :=
  if plain false (stripQuotes text) then some (stripQuotes text) else none

def received : Launch → Option (List Text)
  | .list cmd => some cmd
  | .line text executable => (shell (text.drop (executable.length + " /c ".length))).map split

end Shell

section Quoting

variable {part s : Text} {cmd : List Text}

-- What the arguments may be made of.
def Allowed (part : Text) : Prop := part ≠ [] ∧ ∀ c ∈ ['"', '%', '\n', '\r'], c ∉ part

def Exposed (part : Text) : Prop :=
  part.any isBlank = false ∧ (∃ c ∈ part, c ∈ CMD_METACHARACTERS) ∧ ['\\'] <:+ part

instance (part : Text) : Decidable (Allowed part) :=
  @instDecidableAnd _ _ inferInstance (List.decidableBAll (fun c => c ∉ part) _)

instance (part : Text) : Decidable (Exposed part) :=
  @instDecidableAnd _ _ inferInstance
    (@instDecidableAnd _ _ (List.decidableBEx (fun c => c ∈ CMD_METACHARACTERS) part) inferInstance)

theorem Allowed.no_quote (h : Allowed part) : '"' ∉ part := h.2 '"' (by decide)

theorem cmdQuote_cases (h : Allowed part) :
    cmdQuote part = part ∧ part.any isBlank = false ∧ (∀ c ∈ part, c ∉ CMD_METACHARACTERS) ∨
      cmdQuote part = '"' :: escape true 0 part ++ ['"'] ∧ part.any isBlank = true ∨
      cmdQuote part = '"' :: part ++ ['"'] ∧ part.any isBlank = false ∧ ∃ c ∈ part, c ∈ CMD_METACHARACTERS := by
  have hspecial : (part.any fun ch => isBlank ch || CMD_METACHARACTERS.contains ch) = true ↔
      part.any isBlank = true ∨ ∃ c ∈ part, c ∈ CMD_METACHARACTERS := by
    simp only [List.any_eq_true, Bool.or_eq_true, List.contains_iff_mem]
    constructor
    · rintro ⟨c, hc, hblank | hmeta⟩
      · exact .inl ⟨c, hc, hblank⟩
      · exact .inr ⟨c, hc, hmeta⟩
    · rintro (⟨c, hc, hblank⟩ | ⟨c, hc, hmeta⟩)
      · exact ⟨c, hc, .inl hblank⟩
      · exact ⟨c, hc, .inr hmeta⟩
  rw [cmdQuote]
  by_cases hblank : part.any isBlank = true
  · refine .inr (.inl ⟨?_, hblank⟩)
    have hline : list2cmdline part = '"' :: escape true 0 part ++ ['"'] := if_pos (.inr hblank)
    rw [if_neg fun hplain => hplain.2 (hspecial.mpr (.inl hblank)), hline]
    exact if_pos ⟨List.prefix_append ['"'] _, List.suffix_append _ ['"']⟩
  · have hnone := Bool.eq_false_iff.mpr hblank
    by_cases hmeta : ∃ c ∈ part, c ∈ CMD_METACHARACTERS
    · refine .inr (.inr ⟨?_, hnone, hmeta⟩)
      have hline : list2cmdline part = part := by
        rw [list2cmdline, if_neg (not_or.mpr ⟨h.1, hblank⟩), escape_bare h.no_quote]
        rfl
      rw [if_neg fun hplain => hplain.2 (hspecial.mpr (.inr hmeta)), hline]
      exact if_neg fun hquoted => h.no_quote (hquoted.1.subset List.mem_cons_self)
    · refine .inl ⟨if_pos ⟨h.1, fun hany => ?_⟩, hnone, fun c hc hmem => hmeta ⟨c, hc, hmem⟩⟩
      rcases hspecial.mp hany with hany | hany
      · exact hblank hany
      · exact hmeta hany

end Quoting

section Passing

variable {part s : Text} {cmd : List Text}

theorem plain_quoted (hs : '"' ∉ s) (rest : Text) : plain true (s ++ '"' :: rest) = plain false rest := by
  induction s with
  | nil => rfl
  | cons c s ih =>
      rw [List.mem_cons, not_or] at hs
      rw [List.cons_append, plain, if_neg (Ne.symm hs.1), Bool.true_or, Bool.true_and]
      exact ih hs.2

theorem plain_bare (hs : '"' ∉ s) (hmeta : ∀ c ∈ s, c ∉ CMD_METACHARACTERS) (rest : Text) :
    plain false (s ++ rest) = plain false rest := by
  induction s with
  | nil => rfl
  | cons c s ih =>
      rw [List.mem_cons, not_or] at hs
      have hc : CMD_METACHARACTERS.contains c = false := by
        rw [Bool.eq_false_iff, Ne, List.contains_iff_mem]
        exact hmeta c List.mem_cons_self
      rw [List.cons_append, plain, if_neg (Ne.symm hs.1), hc]
      exact ih hs.2 fun d hd => hmeta d (List.mem_cons_of_mem c hd)

theorem plain_cmdQuote (h : Allowed part) (rest : Text) : plain false (cmdQuote part ++ rest) = plain false rest := by
  rcases cmdQuote_cases h with ⟨hpart, -, hmeta⟩ | ⟨hpart, -⟩ | ⟨hpart, -⟩
  · rw [hpart, plain_bare h.no_quote hmeta]
  · rw [hpart, List.cons_append, List.cons_append, List.append_assoc]
    exact plain_quoted (not_mem_escape h.no_quote true 0) rest
  · rw [hpart, List.cons_append, List.cons_append, List.append_assoc]
    exact plain_quoted h.no_quote rest

theorem plain_inner (h : ∀ part ∈ cmd, Allowed part) : plain false (List.intercalate [' '] (cmd.map cmdQuote)) = true := by
  induction cmd with
  | nil => rfl
  | cons part cmd ih =>
      have hrest := ih fun part' hpart => h part' (List.mem_cons_of_mem part hpart)
      obtain ⟨rest, hline, hblank, htail⟩ := intercalate_cons (cmdQuote part) (cmd.map cmdQuote)
      rw [List.map_cons, hline, plain_cmdQuote (h part List.mem_cons_self)]
      rcases hblank with rfl | ⟨s, rfl⟩
      · rfl
      · rw [← htail] at hrest
        exact hrest

theorem stripQuotes_wrapped (inner : Text) : stripQuotes ('"' :: inner ++ ['"']) = inner := by
  have hreverse : (inner ++ ['"']).reverse = '"' :: inner.reverse := List.reverse_concat
  show (match (inner ++ ['"']).reverse.dropWhile (· ≠ '"') with
    | [] => inner ++ ['"']
    | _ :: before => before.reverse ++ ((inner ++ ['"']).reverse.takeWhile (· ≠ '"')).reverse) = inner
  rw [hreverse]
  simp

theorem received_line (host : Host) (hnt : host.nt = true) (h : ∀ part ∈ cmd, Allowed part) :
    received (shellLaunch host cmd) = some (split (List.intercalate [' '] (cmd.map cmdQuote))) := by
  have hline : shellLaunch host cmd = .line (comspec host ++ " /c \"".toList ++
      List.intercalate [' '] (cmd.map cmdQuote) ++ ['"']) (comspec host) := by
    rw [shellLaunch, hnt]
    rfl
  have hdrop : (comspec host ++ " /c \"".toList ++ List.intercalate [' '] (cmd.map cmdQuote) ++ ['"']).drop
      ((comspec host).length + " /c ".length) = '"' :: List.intercalate [' '] (cmd.map cmdQuote) ++ ['"'] := by
    rw [List.append_assoc, List.append_assoc, List.drop_append, Nat.add_sub_cancel_left,
      List.drop_eq_nil_of_le (Nat.le_add_right _ _)]
    rfl
  rw [hline]
  show (shell _).map split = _
  rw [hdrop, shell, stripQuotes_wrapped, if_pos (plain_inner h)]
  rfl

end Passing

section Reading

variable {part rest : Text} {cmd : List Text}

theorem split_byHand (h : Allowed part) : ∃ b m, part = b ++ backslashes m ∧ ¬['\\'] <:+ b ∧
    ∀ rest, split ('"' :: part ++ ['"'] ++ rest) = scan true (some b) m ('"' :: rest) := by
  obtain ⟨b, m, hsplit, hlast, hscan⟩ := scan_text h.no_quote [] 0
  refine ⟨b, m, hsplit, hlast, fun rest => ?_⟩
  rw [List.cons_append, List.cons_append, List.append_assoc]
  exact hscan ('"' :: rest)

theorem reads_cmdQuote (h : Allowed part) (hsafe : ¬Exposed part) : Reads (cmdQuote part) part := by
  rcases cmdQuote_cases h with ⟨hpart, hblank, -⟩ | ⟨hpart, -⟩ | ⟨hpart, hblank, hmeta⟩
  · rw [hpart]
    have hbare := reads_bare h.1 hblank
    rwa [escape_bare h.no_quote] at hbare
  · rw [hpart]
    exact reads_quoted part
  · rw [hpart]
    obtain ⟨b, m, hsplit, -, hscan⟩ := split_byHand h
    cases m with
    | zero =>
        intro rest hrest
        have hb : part = b := hsplit.trans (List.append_nil b)
        have hquote := scan_quote_even true (some b) 0 rest
        rw [hscan, hquote, Bool.not_true, scan_end _ _ hrest, hb]
        simp [backslashes]
    | succ m =>
        refine absurd ⟨hblank, hmeta, ?_⟩ hsafe
        rw [hsplit, backslashes, List.replicate_succ', ← List.append_assoc]
        exact List.suffix_append _ _

theorem exposed_misread (h : Allowed part) (hexposed : Exposed part) (hrest : rest = [] ∨ ∃ s, rest = ' ' :: s) :
    ∃ x l, split (cmdQuote part ++ rest) = x :: l ∧ x ≠ part := by
  obtain ⟨hblank, hmeta, hslash⟩ := hexposed
  rcases cmdQuote_cases h with ⟨-, -, hnone⟩ | ⟨-, hsome⟩ | ⟨hpart, -⟩
  · obtain ⟨c, hc, hmem⟩ := hmeta
    exact absurd hmem (hnone c hc)
  · exact absurd (hblank.symm.trans hsome) Bool.false_ne_true
  · obtain ⟨b, m, hsplit, hlast, hscan⟩ := split_byHand h
    rw [hpart, hscan]
    obtain ⟨j, rfl | rfl⟩ : ∃ j, m = j + j ∨ m = j + j + 1 := ⟨m / 2, by omega⟩
    · have hj : j ≠ 0 := by
        rintro rfl
        rw [hsplit] at hslash
        exact hlast ((List.append_nil b) ▸ hslash)
      have hquote := scan_quote_even true (some b) j rest
      rw [hquote, Bool.not_true, scan_end _ _ hrest]
      refine ⟨_, _, rfl, fun heq => hj ?_⟩
      have hlen := congrArg List.length (heq.trans hsplit)
      simp only [backslashes, Option.getD_some, List.length_append, List.length_replicate] at hlen
      omega
    · have hquote := scan_quote_odd true (some b) j rest
      obtain ⟨t, l, hfront⟩ := scan_front true (b ++ backslashes j ++ ['"']) 0 rest
      rw [hquote, Option.getD_some, hfront]
      refine ⟨_, l, rfl, fun heq => h.no_quote ?_⟩
      rw [← heq]
      simp

theorem split_inner_iff (h : ∀ part ∈ cmd, Allowed part) :
    split (List.intercalate [' '] (cmd.map cmdQuote)) = cmd ↔ ∀ part ∈ cmd, ¬Exposed part := by
  induction cmd with
  | nil => exact iff_of_true rfl (by rintro _ ⟨⟩)
  | cons part cmd ih =>
      have hpart := h part List.mem_cons_self
      have hcmd := ih fun part' hmem => h part' (List.mem_cons_of_mem part hmem)
      obtain ⟨rest, hline, hrest, htail⟩ := intercalate_cons (cmdQuote part) (cmd.map cmdQuote)
      rw [List.map_cons, hline, List.forall_mem_cons]
      by_cases hexposed : Exposed part
      · obtain ⟨x, l, hread, hne⟩ := exposed_misread hpart hexposed hrest
        rw [hread]
        exact iff_of_false (fun heq => hne (List.cons.inj heq).1) fun hall => hall.1 hexposed
      · rw [reads_cmdQuote hpart hexposed rest hrest, htail, ← hcmd]
        exact ⟨fun heq => ⟨hexposed, (List.cons.inj heq).2⟩, fun hall => congrArg (part :: ·) hall.2⟩

-- The program receives the very arguments exactly when none of those quoted by hand ends with a backslash; where no
-- shell is in between it always does.
theorem received_iff (host : Host) (h : ∀ part ∈ cmd, Allowed part) :
    received (shellLaunch host cmd) = some cmd ↔ (host.nt = true → ∀ part ∈ cmd, ¬Exposed part) := by
  cases hnt : host.nt with
  | false =>
      have hlist : shellLaunch host cmd = .list cmd := by
        rw [shellLaunch, hnt]
        rfl
      rw [hlist]
      exact iff_of_true rfl fun hfalse => absurd hfalse Bool.false_ne_true
  | true =>
      rw [received_line host hnt h, Option.some_inj, split_inner_iff h]
      exact ⟨fun hall _ => hall, fun hall => hall rfl⟩

theorem received_iff_ampersand :
    received (shellLaunch ⟨true, none, none⟩ ["C:\\my app\\python.exe".toList, "--dir=R&D".toList, "a b\\".toList]) =
      some ["C:\\my app\\python.exe".toList, "--dir=R&D".toList, "a b\\".toList] :=
  (received_iff _ (by decide)).mpr fun _ => by decide

-- A directory with an ampersand in its name: the closing quote is taken for a part of it, and so is what follows.
theorem directory_misread :
    let cmd := ["python.exe".toList, "R&D\\".toList, "--port".toList]
    (∀ part ∈ cmd, Allowed part) ∧
      received (shellLaunch ⟨true, none, none⟩ cmd) = some ["python.exe".toList, "R&D\" --port".toList] := by
  decide

end Reading

end GaHub.Engine.Shell
