import GaHub.Lib.Regex
import GaHub.Lib.Text
import Mathlib.Data.List.DropRight
import Mathlib.Data.List.Induction
import Mathlib.Data.List.Infix
import Mathlib.Data.List.TakeWhile
import Mathlib.Data.Rat.Init

namespace GaHub.Retry

open Lib Lib.Regex

-- The classes of Unicode that an expression asks for. They are known on ASCII, and white space is
-- no word character.
structure CharClasses where
  isWord : Char → Bool
  decimal : Char → Option Nat
  word_ascii : ∀ c, c.toNat < 128 → isWord c = (c.isAlphanum || c == '_')
  word_space : ∀ c, isWord c = true → isSpace c = false
  decimal_ascii : ∀ c, c.toNat < 128 → decimal c = if c.isDigit then some (c.toNat - 48) else none

structure RecoverableErrorMatch where
  code : String
  label : String
  marker : List Char
  delayScale : ℚ := 1
  maxAttempts : Option Nat := none
  deriving DecidableEq

structure RecoverableErrorPattern where
  code : String
  label : String
  pattern : Regex
  delayScale : ℚ := 1

def finalMarkerWindowChars : Nat := 500

def retryableHttpStatuses : List Nat :=
  [408, 409, 425, 429, 500, 502, 503, 504, 520, 521, 522, 523, 524, 525, 526, 527, 529]

section Expressions

-- `re.IGNORECASE`: an ASCII letter also stands for what folds to it.
def sameCase (c d : Char) : Bool :=
  c.toLower == d.toLower || (c.toLower == 'i' && (d.toNat == 0x130 || d.toNat == 0x131)) ||
    (c.toLower == 's' && d.toNat == 0x17F) || (c.toLower == 'k' && d.toNat == 0x212A)

def ci (s : String) : Regex := word sameCase s.toList

def inLine (c : Char) : Bool := c != '\r' && c != '\n'

def isBlank (c : Char) : Bool := c == ' ' || c == '\t'

def isJoint (c : Char) : Bool := isSpace c || c == '_' || c == '-'

def errorMarkerRe : Regex := cat [lit "!!!", many isSpace, ci "Error:"]

variable (classes : CharClasses)

def httpStatusTailRe : Regex :=
  cat [lit "!!!", many isSpace, ci "Error:", many isSpace, ci "HTTP", plus isSpace,
    group (times (fun c => (classes.decimal c).isSome) 3), wordBreak classes.isWord]

-- `[^\r\n]*\s*\Z`
def lineTail : Regex := cat [many inLine, many isSpace, atEnd]

def errorRe (message : List Regex) : Regex :=
  cat [lit "!!!", many isSpace, ci "Error:", many isSpace, cat message, lineTail]

def excErrorRe (name : List Regex) : Regex :=
  errorRe [opt (ci "requests."), opt (ci "exceptions."), cat name, wordBreak classes.isWord]

def rateLimit : RecoverableErrorPattern where
  code := "rate_limit"
  label := "RateLimitError"
  pattern := cat [lit "!!!", many isSpace, ci "Error:", many isSpace,
    any [cat [many inLine, ci "rate", opt (set isJoint), ci "limit", many inLine],
      cat [ci "HTTP", plus isSpace, lit "429", wordBreak classes.isWord, many inLine]],
    many isSpace, atEnd]
  delayScale := 8

def httpRetryable : RecoverableErrorPattern where
  code := "http_retryable"
  label := "HTTPError"
  pattern := errorRe [ci "HTTP", plus isSpace,
    any [lit "408", lit "409", lit "425", lit "500", lit "502", lit "503", lit "504",
      cat [lit "52", set fun c => decide ('0' ≤ c ∧ c ≤ '7')], lit "529"],
    wordBreak classes.isWord]
  delayScale := 2

def upstreamFailure : RecoverableErrorPattern where
  code := "upstream_failure"
  label := "UpstreamFailure"
  pattern := errorRe [ci "upstream", many isJoint, opt (ci "request"), many isJoint,
    any [cat [ci "fail", opt (any [ci "ed", ci "ure"])], ci "fault"]]
  delayScale := 2

def sseError : RecoverableErrorPattern where
  code := "sse_error"
  label := "SSEError"
  pattern := errorRe [ci "SSE", wordBreak classes.isWord]
  delayScale := 4

def timeout : RecoverableErrorPattern where
  code := "timeout"
  label := "Timeout"
  pattern := excErrorRe classes [opt (any [ci "Read", ci "Connect", ci "Write"]), ci "Timeout"]
  delayScale := 3 / 2

def connectionError : RecoverableErrorPattern where
  code := "connection_error"
  label := "ConnectionError"
  pattern := excErrorRe classes [any [ci "ConnectionError", ci "ProtocolError", ci "ChunkedEncodingError"]]
  delayScale := 5 / 2

def jsonDecodeError : RecoverableErrorPattern where
  code := "json_decode_error"
  label := "JSONDecodeError"
  pattern := excErrorRe classes [opt (ci "json."), ci "JSONDecodeError"]

def sslError : RecoverableErrorPattern where
  code := "ssl_error"
  label := "SSLError"
  pattern := excErrorRe classes [ci "SSLError"]
  delayScale := 4

def recoverableErrorPatterns : List RecoverableErrorPattern :=
  [rateLimit classes, httpRetryable classes, upstreamFailure, sseError classes, timeout classes,
    connectionError classes, jsonDecodeError classes, sslError classes]

-- `re.fullmatch(r"!!![ \t]*Error:[^\r\n]*", ...)`
def errorLineRe : Regex := cat [lit "!!!", many isBlank, ci "Error:", many inLine, atEnd]

end Expressions

section Classify

variable (classes : CharClasses)

def rstrip (text : List Char) : List Char := text.rdropWhile isSpace

def number (digits : List Char) : Nat :=
  digits.foldl (fun n c => 10 * n + (classes.decimal c).getD 0) 0

def statusOf (text : List Char) : Option Nat :=
  ((httpStatusTailRe classes).exec text).map fun found => number classes (found.groups.headD [])

def classifyUnknownError (content : List Char) : Option RecoverableErrorMatch :=
  let finalLine := ((rstrip content).rtakeWhile fun c => c != '\n').dropWhile isBlank
  if (errorLineRe.exec finalLine).isNone then none
  else if (statusOf classes finalLine).isSome then none
  else some {
    code := "unknown_error"
    label := "UnknownError"
    marker := finalLine.take finalMarkerWindowChars
    maxAttempts := some 1 }

def classifyByPattern (text : List Char) : Option RecoverableErrorMatch :=
  (recoverableErrorPatterns classes).findSome? fun spec =>
    (spec.pattern.search text).map fun (_, found) =>
      { code := spec.code, label := spec.label, marker := found.text, delayScale := spec.delayScale }

def classifyRecoverableError (content : List Char) : Option RecoverableErrorMatch :=
  let text := rstrip content
  let finalText := text.drop (text.length - finalMarkerWindowChars)
  if finalText.isEmpty then none
  else
    match (errorMarkerRe.finditer finalText).getLast? with
    | none => classifyUnknownError classes content
    | some start =>
      let errorText := finalText.drop start
      if (statusOf classes errorText).any fun status => !retryableHttpStatuses.contains status then none
      else (classifyByPattern classes errorText).or (classifyUnknownError classes content)

end Classify

section Marker

def IsMarker (text : List Char) : Prop :=
  ∃ w e, text = '!' :: '!' :: '!' :: (w ++ e) ∧ (∀ c ∈ w, isSpace c) ∧
    List.Forall₂ (fun c d => sameCase c d = true) "Error:".toList e

theorem mem_ends_marker {prev : Option Char} {text : List Char} {groups : List (List Char)} {q : Cursor} :
    q ∈ errorMarkerRe.ends { prev := prev, rest := text, groups := groups } ↔
      ∃ read rest, IsMarker read ∧ text = read ++ rest ∧ q = Cursor.past { prev := prev, rest := text, groups := groups } read rest := by
  simp only [errorMarkerRe, cat, ci, mem_ends_seq, mem_ends_lit, mem_ends_many, mem_ends_word, mem_ends_eps]
  constructor
  · rintro ⟨_, ⟨_, htext, rfl⟩, _, ⟨w, _, hw, hspace, rfl⟩, _, ⟨e, rest, he, hsame, rfl⟩, rfl⟩
    refine ⟨'!' :: '!' :: '!' :: (w ++ e), rest, ⟨w, e, rfl, hspace, hsame⟩, ?_, ?_⟩
    · simp only [Cursor.past_rest] at htext hw he
      rw [htext, hw, he]
      simp
    · simp [Cursor.past_past]
  · rintro ⟨_, rest, ⟨w, e, rfl, hspace, hsame⟩, rfl, rfl⟩
    refine ⟨_, ⟨w ++ e ++ rest, rfl, rfl⟩, _, ⟨w, e ++ rest, by simp, hspace, rfl⟩, _, ⟨e, rest, rfl, hsame, rfl⟩, ?_⟩
    simp [Cursor.past_past]

theorem marker_isSome {prev : Option Char} {text : List Char} :
    (errorMarkerRe.matchAt prev text).isSome ↔ ∃ read rest, IsMarker read ∧ text = read ++ rest := by
  rw [matchAt_isSome]
  simp only [Meets, mem_ends_marker]
  constructor
  · rintro ⟨_, read, rest, hread, htext, -⟩
    exact ⟨read, rest, hread, htext⟩
  · rintro ⟨read, rest, hread, htext⟩
    exact ⟨_, read, rest, hread, htext, rfl⟩

theorem marker_read {prev : Option Char} {text : List Char} {found : Found}
    (h : errorMarkerRe.matchAt prev text = some found) : IsMarker found.text ∧ found.text <+: text := by
  obtain ⟨q, hq, rfl⟩ := Option.map_eq_some_iff.mp h
  obtain ⟨read, rest, hread, rfl, rfl⟩ := mem_ends_marker.mp (List.mem_of_head? hq)
  have htake : (read ++ rest).take ((read ++ rest).length - rest.length) = read := by
    rw [List.length_append, Nat.add_sub_cancel, List.take_left]
  simp only [Cursor.past_rest, htake]
  exact ⟨hread, List.prefix_append read rest⟩

theorem IsMarker.line {read a b : List Char} (h : IsMarker read) : read ≠ a ++ '\n' :: '!' :: b := by
  obtain ⟨w, e, rfl, hspace, hsame⟩ := h
  intro heq
  have hw : '!' ∉ w := fun hmem => absurd (hspace _ hmem) (by decide)
  have he : '!' ∉ e := by
    intro hmem
    obtain ⟨c, hc, hsame⟩ := forall₂_exists hsame hmem
    have hletters : "Error:".toList.all fun c => !sameCase c '!' := by decide
    have hno := List.all_eq_true.mp hletters c hc
    simp [hsame] at hno
  -- the three exclamation marks of the marker are at its head
  match a, heq with
  | [], heq => simp at heq
  | [_], heq => simp at heq
  | [_, _], heq => simp at heq
  | _ :: _ :: _ :: a, heq =>
    have htail : w ++ e = a ++ '\n' :: '!' :: b := by simpa using (List.cons.inj (List.cons.inj (List.cons.inj heq).2).2).2
    have hmem : '!' ∈ w ++ e := by rw [htail]; simp
    exact (List.mem_append.mp hmem).elim hw he

theorem marker_inside {prev : Option Char} {v rest : List Char} {found : Found} (hv : v.getLast? = some '\n')
    (h : errorMarkerRe.matchAt prev (v ++ '!' :: rest) = some found) : found.text.length ≤ v.length := by
  obtain ⟨hread, htext⟩ := marker_read h
  by_contra hlt
  obtain ⟨u, rfl⟩ := List.getLast?_eq_some_iff.mp hv
  obtain ⟨tail, htail⟩ := htext
  obtain ⟨a, ha, -⟩ | ⟨a, ha, hrest⟩ := List.append_eq_append_iff.mp htail
  · rw [ha, List.length_append] at hlt
    omega
  · cases a with
    | nil =>
      rw [ha, List.append_nil] at hlt
      omega
    | cons c a =>
      obtain ⟨rfl, -⟩ := List.cons.inj hrest
      exact hread.line (a := u) (b := a) (by rw [ha]; simp)

end Marker

-- `!!!Error: HTTP <code>`, followed by a body.
def statusLine (d₁ d₂ d₃ : Char) (body : List Char) : List Char :=
  '!' :: '!' :: '!' :: 'E' :: 'r' :: 'r' :: 'o' :: 'r' :: ':' :: ' ' :: 'H' :: 'T' :: 'T' :: 'P' :: ' ' ::
    d₁ :: d₂ :: d₃ :: body

section Line

variable (classes : CharClasses) {d₁ d₂ d₃ : Char} (h₁ : d₁.isDigit) (h₂ : d₂.isDigit) (h₃ : d₃.isDigit)
  {body : List Char}

theorem digit_ascii {c : Char} (h : c.isDigit) : c.toNat < 128 := by
  simp only [Char.isDigit, Bool.and_eq_true, decide_eq_true_eq, UInt32.le_iff_toNat_le] at h
  have hle : c.val.toNat ≤ 57 := h.2
  exact Nat.lt_of_le_of_lt hle (by decide)

theorem digit_decimal {c : Char} (h : c.isDigit) : classes.decimal c = some (c.toNat - 48) := by
  rw [classes.decimal_ascii c (digit_ascii h), if_pos h]

theorem digit_word {c : Char} (h : c.isDigit) : classes.isWord c = true := by
  rw [classes.word_ascii c (digit_ascii h)]
  simp [Char.isAlphanum, h]

theorem digit_space {c : Char} (h : c.isDigit) : isSpace c = false := by
  by_contra hspace
  have hno := forall_space (fun c => !c.isDigit) (by decide) (by simpa using hspace)
  simp [h] at hno

include h₁ h₂ h₃

theorem statusOf_line : statusOf classes (statusLine d₁ d₂ d₃ body) =
    if body.head?.any classes.isWord then none else some (number classes [d₁, d₂, d₃]) := by
  have hbang : "!!!".toList = ['!', '!', '!'] := rfl
  have herror : "Error:".toList = ['E', 'r', 'r', 'o', 'r', ':'] := rfl
  have hhttp : "HTTP".toList = ['H', 'T', 'T', 'P'] := rfl
  have hends : (httpStatusTailRe classes).ends { prev := none, rest := statusLine d₁ d₂ d₃ body } =
      if body.head?.any classes.isWord then []
      else [{ prev := some d₃, rest := body, groups := [[d₁, d₂, d₃]] }] := by
    have hthree : body.length + 1 + 1 + 1 - body.length = 3 := by omega
    simp only [httpStatusTailRe, statusLine, cat, lit, ci, plus, atLeast, times, hbang, herror, hhttp, word]
    simp +decide only [ends_seq_assoc, ends_eps_seq, ends_set_seq, ends_group_seq, ends_many_seq_stop, ends_many_seq,
      if_true, if_false, digit_space h₁]
    simp [ends, digit_decimal, h₁, h₂, h₃, wordBreak, digit_word, hthree]
  rw [statusOf, exec, matchAt, hends]
  split <;> rfl

theorem marker_line (hbody : ∀ prev u v, body = u ++ v → errorMarkerRe.matchAt prev v = none) :
    (∀ prev, (errorMarkerRe.matchAt prev (statusLine d₁ d₂ d₃ body)).isSome) ∧
      ∀ prev u v, statusLine d₁ d₂ d₃ body = u ++ v → u ≠ [] → errorMarkerRe.matchAt prev v = none := by
  constructor
  · intro prev
    refine marker_isSome.mpr ⟨"!!!Error:".toList, ' ' :: 'H' :: 'T' :: 'T' :: 'P' :: ' ' :: d₁ :: d₂ :: d₃ :: body, ?_, rfl⟩
    exact ⟨[], "Error:".toList, rfl, by simp, List.forall₂_same.mpr (List.all_eq_true.mp (by decide))⟩
  · intro prev u v huv hu
    by_contra hsome
    obtain ⟨read, rest, ⟨w, e, rfl, -, -⟩, rfl⟩ := marker_isSome.mp (Option.isSome_iff_ne_none.mpr hsome)
    have hbang : ∀ {d : Char}, d.isDigit → '!' ≠ d := by
      rintro d hd rfl
      cases hd
    obtain ⟨c, u, rfl⟩ := List.exists_cons_of_ne_nil hu
    have hsuffix : _ <:+ _ := ⟨u, (List.cons.inj huv).2.symm⟩
    -- of the tails of the line only those inside of the body can begin with exclamation marks
    have hin : '!' :: '!' :: '!' :: (w ++ e) ++ rest <:+ body := by
      simpa [List.suffix_cons_iff, hbang h₁, hbang h₂, hbang h₃] using hsuffix
    obtain ⟨a, ha⟩ := hin
    exact hsome (hbody prev a _ ha.symm)

end Line

section Window

theorem rstrip_append {u v : List Char} {d : Char} (hd : isSpace d = false) :
    rstrip (u ++ d :: v) = u ++ d :: rstrip v := by
  induction v using List.reverseRecOn with
  | nil => simp [rstrip, hd]
  | append_singleton v c ih =>
    have hleft : rstrip (u ++ d :: (v ++ [c])) = if isSpace c then rstrip (u ++ d :: v) else u ++ d :: (v ++ [c]) := by
      rw [← List.cons_append, ← List.append_assoc, rstrip, List.rdropWhile_concat]
      rfl
    rw [hleft, ih, rstrip, rstrip, List.rdropWhile_concat]
    split <;> rfl

theorem rstrip_front (text : List Char) : rstrip text <+: text := List.rdropWhile_prefix isSpace text

theorem rstrip_head (classes : CharClasses) (body : List Char) :
    (rstrip body).head?.any classes.isWord = body.head?.any classes.isWord := by
  cases body with
  | nil => rfl
  | cons c body =>
    by_cases hspace : isSpace c
    · have hword : classes.isWord c = false := by
        by_contra hword
        simp [classes.word_space c (by simpa using hword)] at hspace
      obtain ⟨tail, htail⟩ := rstrip_front (c :: body)
      cases hstrip : rstrip (c :: body) with
      | nil => simp [hword]
      | cons d rest =>
        rw [hstrip] at htail
        obtain ⟨rfl, -⟩ := List.cons.inj htail
        rfl
    · have hstrip := rstrip_append (u := []) (v := body) (d := c) (by simpa using hspace)
      rw [List.nil_append, List.nil_append] at hstrip
      rw [hstrip]
      rfl

theorem lastLine {before line : List Char} (hbefore : before = [] ∨ before.getLast? = some '\n')
    (hline : ∀ c ∈ line, c ≠ '\n') : (before ++ line).rtakeWhile (fun c => c != '\n') = line := by
  have hnil : before.reverse.takeWhile (fun c => c != '\n') = [] := by
    obtain rfl | hlast := hbefore
    · rfl
    · obtain ⟨u, rfl⟩ := List.getLast?_eq_some_iff.mp hlast
      simp
  rw [List.rtakeWhile, List.reverse_append, List.takeWhile_append_of_pos (by simpa using hline), hnil]
  simp

end Window

section Decide

variable (classes : CharClasses) {d₁ d₂ d₃ : Char} (h₁ : d₁.isDigit) (h₂ : d₂.isDigit) (h₃ : d₃.isDigit)
  {before body : List Char} (hbefore : before = [] ∨ before.getLast? = some '\n')
  (hbody : ∀ c ∈ body, inLine c)

theorem statusLine_eq (d₁ d₂ d₃ : Char) (body : List Char) :
    statusLine d₁ d₂ d₃ body = "!!!Error: HTTP ".toList ++ [d₁, d₂] ++ d₃ :: body := rfl

include h₃ in
theorem rstrip_line : rstrip (before ++ statusLine d₁ d₂ d₃ body) = before ++ statusLine d₁ d₂ d₃ (rstrip body) := by
  rw [statusLine_eq, statusLine_eq, ← List.append_assoc, rstrip_append (digit_space h₃), List.append_assoc]

include h₁ h₂ h₃ hbody in
theorem statusLine_inLine : ∀ c ∈ statusLine d₁ d₂ d₃ body, inLine c := by
  have hdigit : ∀ {c : Char}, c.isDigit → inLine c := by
    intro c hc
    have hspace := digit_space hc
    have hr : c ≠ '\r' := by rintro rfl; cases hspace
    have hn : c ≠ '\n' := by rintro rfl; cases hspace
    simp [inLine, hr, hn]
  have hhead : "!!!Error: HTTP ".toList.all inLine := by decide
  intro c hc
  rw [statusLine_eq] at hc
  simp only [List.mem_append, List.mem_cons, List.not_mem_nil, or_false] at hc
  obtain (hc | rfl | rfl) | rfl | hc := hc
  · exact List.all_eq_true.mp hhead c hc
  · exact hdigit h₁
  · exact hdigit h₂
  · exact hdigit h₃
  · exact hbody c hc

include h₁ h₂ h₃ hbody in
theorem errorLineRe_line : (errorLineRe.exec (statusLine d₁ d₂ d₃ body)).isSome := by
  have hrest : ∀ c ∈ ' ' :: 'H' :: 'T' :: 'T' :: 'P' :: ' ' :: d₁ :: d₂ :: d₃ :: body, inLine c :=
    fun c hc => statusLine_inLine h₁ h₂ h₃ hbody c (List.mem_append_right "!!!Error:".toList hc)
  refine matchAt_isSome.mpr (.seq (mem_ends_lit.mpr ⟨_, rfl, rfl⟩) ?_)
  refine .seq (mem_ends_many.mpr ⟨[], _, rfl, by simp, rfl⟩) ?_
  refine .seq (mem_ends_word.mpr ⟨"Error:".toList, _, rfl, List.forall₂_same.mpr (List.all_eq_true.mp (by decide)), rfl⟩) ?_
  refine .seq (mem_ends_many.mpr ⟨_, [], (List.append_nil _).symm, hrest, rfl⟩) ?_
  exact .seq (mem_ends_check.mpr ⟨rfl, rfl⟩) (meets_eps _)

include h₁ h₂ h₃ hbefore hbody in
theorem classifyUnknownError_line :
    (classifyUnknownError classes (before ++ statusLine d₁ d₂ d₃ body)).isSome = body.head?.any classes.isWord := by
  have hstrip : ∀ c ∈ rstrip body, inLine c := fun c hc => hbody c ((rstrip_front body).subset hc)
  have hline : ∀ c ∈ statusLine d₁ d₂ d₃ (rstrip body), c ≠ '\n' := by
    rintro c hc rfl
    exact absurd (statusLine_inLine h₁ h₂ h₃ hstrip _ hc) (by decide)
  have hfinal : ((rstrip (before ++ statusLine d₁ d₂ d₃ body)).rtakeWhile fun c => c != '\n').dropWhile isBlank =
      statusLine d₁ d₂ d₃ (rstrip body) := by
    rw [rstrip_line h₃, lastLine hbefore hline]
    rfl
  have herror : (errorLineRe.exec (statusLine d₁ d₂ d₃ (rstrip body))).isNone = false := by
    simpa using errorLineRe_line h₁ h₂ h₃ hstrip
  simp only [classifyUnknownError, hfinal, herror, statusOf_line classes h₁ h₂ h₃, rstrip_head]
  cases body.head?.any classes.isWord <;> rfl

end Decide

section Pattern

variable (classes : CharClasses)

def digit (n : Nat) : Char := Char.ofNat (48 + n)

-- Every status that is retried is one of those the patterns name.
theorem retryable_status : ∀ n ∈ retryableHttpStatuses,
    [digit (n / 100), digit (n / 10 % 10), digit (n % 10)] = "429".toList ∨
      [digit (n / 100), digit (n / 10 % 10), digit (n % 10)] ∈
        ["408", "409", "425", "500", "502", "503", "504", "529"].map String.toList ∨
      digit (n / 100) = '5' ∧ digit (n / 10 % 10) = '2' ∧ '0' ≤ digit (n % 10) ∧ digit (n % 10) ≤ '7' := by
  decide

theorem retryable_digits {d₁ d₂ d₃ : Char} (h₁ : d₁.isDigit) (h₂ : d₂.isDigit) (h₃ : d₃.isDigit)
    (h : number classes [d₁, d₂, d₃] ∈ retryableHttpStatuses) :
    [d₁, d₂, d₃] = "429".toList ∨
      [d₁, d₂, d₃] ∈ ["408", "409", "425", "500", "502", "503", "504", "529"].map String.toList ∨
      d₁ = '5' ∧ d₂ = '2' ∧ '0' ≤ d₃ ∧ d₃ ≤ '7' := by
  have hdigit : ∀ {c : Char}, c.isDigit → ∃ n < 10, c = digit n ∧ classes.decimal c = some n := by
    intro c hc
    have hrange : 48 ≤ c.toNat ∧ c.toNat ≤ 57 := by
      simpa [Char.isDigit, UInt32.le_iff_toNat_le] using hc
    refine ⟨c.toNat - 48, by omega, ?_, digit_decimal classes hc⟩
    rw [digit, show 48 + (c.toNat - 48) = c.toNat by omega, Char.ofNat_toNat]
  obtain ⟨a, hlta, ha, hdeca⟩ := hdigit h₁
  obtain ⟨b, hltb, hb, hdecb⟩ := hdigit h₂
  obtain ⟨c, hltc, hc, hdecc⟩ := hdigit h₃
  simp only [number, List.foldl_cons, List.foldl_nil, hdeca, hdecb, hdecc, Option.getD_some] at h
  -- the digits are read back off the number
  have hread := retryable_status _ h
  rw [show (10 * (10 * (10 * 0 + a) + b) + c) / 100 = a by omega,
    show (10 * (10 * (10 * 0 + a) + b) + c) / 10 % 10 = b by omega,
    show (10 * (10 * (10 * 0 + a) + b) + c) % 10 = c by omega] at hread
  rwa [ha, hb, hc]

variable {d₁ d₂ d₃ : Char} {body : List Char}

theorem marker_meets {rest : List Regex}
    (h : (cat rest).Meets { prev := some ' ', rest := 'H' :: 'T' :: 'T' :: 'P' :: ' ' :: d₁ :: d₂ :: d₃ :: body }) :
    (cat (lit "!!!" :: many isSpace :: ci "Error:" :: many isSpace :: rest)).Meets
      { prev := none, rest := statusLine d₁ d₂ d₃ body } := by
  refine .seq (mem_ends_lit.mpr ⟨_, rfl, rfl⟩) ?_
  refine .seq (mem_ends_many.mpr ⟨[], _, rfl, by simp, rfl⟩) ?_
  refine .seq (mem_ends_word.mpr ⟨"Error:".toList, _, rfl, List.forall₂_same.mpr (List.all_eq_true.mp (by decide)), rfl⟩) ?_
  exact .seq (mem_ends_many.mpr ⟨[' '], _, rfl, List.all_eq_true.mp (by decide), rfl⟩) h

theorem http_meets {rest : List Regex} (h : (cat rest).Meets { prev := some ' ', rest := d₁ :: d₂ :: d₃ :: body }) :
    (cat (ci "HTTP" :: plus isSpace :: rest)).Meets
      { prev := some ' ', rest := 'H' :: 'T' :: 'T' :: 'P' :: ' ' :: d₁ :: d₂ :: d₃ :: body } := by
  refine .seq (mem_ends_word.mpr ⟨"HTTP".toList, _, rfl, List.forall₂_same.mpr (List.all_eq_true.mp (by decide)), rfl⟩) (.assoc (.assoc ?_))
  refine .seq (mem_ends_set.mpr ⟨' ', _, rfl, by decide, rfl⟩) (.skip ?_)
  exact .seq (mem_ends_many.mpr ⟨[], _, rfl, by simp, rfl⟩) h

theorem wordBreak_meets {rest : Regex} (h₃ : d₃.isDigit) (hword : body.head?.any classes.isWord = false)
    (h : rest.Meets { prev := some d₃, rest := body }) :
    (seq (wordBreak classes.isWord) rest).Meets { prev := some d₃, rest := body } := by
  refine .seq (mem_ends_check.mpr ⟨?_, rfl⟩) h
  rw [hword, Option.any_some, digit_word classes h₃]
  rfl

theorem lineTail_meets {prev : Option Char} (hbody : ∀ c ∈ body, inLine c) :
    (cat [many inLine, many isSpace, atEnd]).Meets { prev := prev, rest := body } := by
  refine .seq (mem_ends_many.mpr ⟨body, [], (List.append_nil body).symm, hbody, rfl⟩) ?_
  refine .seq (mem_ends_many.mpr ⟨[], [], rfl, by simp, rfl⟩) ?_
  exact .seq (mem_ends_check.mpr ⟨rfl, rfl⟩) (meets_eps _)

theorem rateLimit_meets (h₃ : d₃.isDigit) (hword : body.head?.any classes.isWord = false)
    (hbody : ∀ c ∈ body, inLine c) (h : [d₁, d₂, d₃] = "429".toList) :
    (rateLimit classes).pattern.Meets { prev := none, rest := statusLine d₁ d₂ d₃ body } := by
  refine marker_meets (.any (List.mem_cons_of_mem _ List.mem_cons_self) (.cat (http_meets ?_)))
  refine .seq (m := { prev := some d₃, rest := body }) (mem_ends_lit.mpr ⟨body, congrArg (· ++ body) h, ?_⟩) ?_
  · rw [← h]
    rfl
  · exact wordBreak_meets classes h₃ hword (lineTail_meets hbody)

theorem httpRetryable_meets (h₃ : d₃.isDigit) (hword : body.head?.any classes.isWord = false)
    (hbody : ∀ c ∈ body, inLine c)
    (h : [d₁, d₂, d₃] ∈ ["408", "409", "425", "500", "502", "503", "504", "529"].map String.toList ∨
      d₁ = '5' ∧ d₂ = '2' ∧ '0' ≤ d₃ ∧ d₃ ≤ '7') :
    (httpRetryable classes).pattern.Meets { prev := none, rest := statusLine d₁ d₂ d₃ body } := by
  refine marker_meets (.cat (http_meets ?_))
  have htail : (cat [wordBreak classes.isWord, lineTail]).Meets { prev := some d₃, rest := body } :=
    wordBreak_meets classes h₃ hword (.cat (lineTail_meets hbody))
  refine .seq (m := { prev := some d₃, rest := body }) (mem_ends_any.mpr ?_) htail
  obtain hcode | ⟨rfl, rfl, hlow, hhigh⟩ := h
  · obtain ⟨code, hmem, hcode⟩ := List.mem_map.mp hcode
    refine ⟨lit code, ?_, mem_ends_lit.mpr ⟨body, congrArg (· ++ body) hcode.symm, ?_⟩⟩
    · simp only [List.mem_cons, List.not_mem_nil, or_false] at hmem
      obtain rfl | rfl | rfl | rfl | rfl | rfl | rfl | rfl := hmem <;> simp
    · rw [hcode]
      rfl
  · refine ⟨cat [lit "52", set fun c => decide ('0' ≤ c ∧ c ≤ '7')], by simp, ?_⟩
    refine mem_ends_cat_cons.mpr ⟨{ prev := some '2', rest := d₃ :: body }, mem_ends_lit.mpr ⟨_, rfl, rfl⟩, ?_⟩
    refine mem_ends_cat_cons.mpr ⟨{ prev := some d₃, rest := body }, ?_, mem_ends_eps.mpr rfl⟩
    exact mem_ends_set.mpr ⟨d₃, body, rfl, by simp [hlow, hhigh], rfl⟩

theorem classifyByPattern_line (h₁ : d₁.isDigit) (h₂ : d₂.isDigit) (h₃ : d₃.isDigit)
    (hword : body.head?.any classes.isWord = false) (hbody : ∀ c ∈ body, inLine c)
    (h : number classes [d₁, d₂, d₃] ∈ retryableHttpStatuses) :
    (classifyByPattern classes (statusLine d₁ d₂ d₃ body)).isSome := by
  have hfound : ∃ spec ∈ recoverableErrorPatterns classes,
      spec.pattern.Meets { prev := none, rest := statusLine d₁ d₂ d₃ body } := by
    obtain hlimit | hretry := retryable_digits classes h₁ h₂ h₃ h
    · exact ⟨rateLimit classes, by simp [recoverableErrorPatterns], rateLimit_meets classes h₃ hword hbody hlimit⟩
    · exact ⟨httpRetryable classes, by simp [recoverableErrorPatterns],
        httpRetryable_meets classes h₃ hword hbody hretry⟩
  obtain ⟨spec, hspec, hmeets⟩ := hfound
  have hsearch : (spec.pattern.search (statusLine d₁ d₂ d₃ body)).isSome :=
    searchFrom_isSome (u := []) (matchAt_isSome.mpr hmeets)
  rw [classifyByPattern, List.findSome?_isSome_iff]
  exact ⟨spec, hspec, by simpa using hsearch⟩

end Pattern

section Status

variable (classes : CharClasses) {d₁ d₂ d₃ : Char} (h₁ : d₁.isDigit) (h₂ : d₂.isDigit) (h₃ : d₃.isDigit)
  {before body : List Char} (hbefore : before = [] ∨ before.getLast? = some '\n')
  (hbody : ∀ c ∈ body, inLine c) (hmarker : errorMarkerRe.search body = none)

include hmarker in
theorem marker_front {b : List Char} (hb : b <+: body) (prev : Option Char) (u v : List Char) (huv : b = u ++ v) :
    errorMarkerRe.matchAt prev v = none := by
  by_contra hsome
  obtain ⟨read, rest, hread, rfl⟩ := marker_isSome.mp (Option.isSome_iff_ne_none.mpr hsome)
  obtain ⟨tail, rfl⟩ := hb
  have hnone := searchFrom_eq_none.mp hmarker u (read ++ rest ++ tail) (by rw [huv, List.append_assoc])
  have hfound : (errorMarkerRe.matchAt (u.getLast?.or none) (read ++ rest ++ tail)).isSome :=
    marker_isSome.mpr ⟨read, rest ++ tail, hread, List.append_assoc _ _ _⟩
  rw [hnone] at hfound
  cases hfound

include h₁ h₂ h₃ hbefore hmarker in
theorem finditer_line : (errorMarkerRe.finditer (before ++ statusLine d₁ d₂ d₃ (rstrip body))).getLast? =
    some before.length := by
  obtain ⟨hline, hbehind⟩ := marker_line h₁ h₂ h₃ (marker_front hmarker (rstrip_front body))
  have hlast : (errorMarkerRe.finditer (before ++ statusLine d₁ d₂ d₃ (rstrip body))).getLast? =
      some (0 + before.length) := by
    refine findStarts_getLast hline hbehind (by rfl) (by rw [List.length_append]; omega) ?_
    intro prev u v found huv hv hfound
    refine marker_inside ?_ hfound
    obtain hnil | hlast := hbefore
    · rw [hnil] at huv
      exact absurd (List.append_eq_nil_iff.mp huv.symm).2 hv
    · rwa [huv, List.getLast?_append_of_ne_nil _ hv] at hlast
  rwa [Nat.zero_add] at hlast

include h₁ h₂ h₃ hmarker in
theorem finditer_tail {n : Nat} (hn : 0 < n) (hle : n ≤ (statusLine d₁ d₂ d₃ (rstrip body)).length) :
    errorMarkerRe.finditer ((statusLine d₁ d₂ d₃ (rstrip body)).drop n) = [] :=
  findStarts_behind (marker_line h₁ h₂ h₃ (marker_front hmarker (rstrip_front body))).2 hn hle

include h₁ h₂ h₃ hbefore hbody hmarker

theorem classify_short (hlen : (statusLine d₁ d₂ d₃ (rstrip body)).length ≤ finalMarkerWindowChars) :
    (classifyRecoverableError classes (before ++ statusLine d₁ d₂ d₃ body)).isSome ↔
      body.head?.any classes.isWord ∨ number classes [d₁, d₂, d₃] ∈ retryableHttpStatuses := by
  have hunknown := classifyUnknownError_line classes h₁ h₂ h₃ hbefore hbody
  have hstrip : ∀ c ∈ rstrip body, inLine c := fun c hc => hbody c ((rstrip_front body).subset hc)
  simp only [classifyRecoverableError, rstrip_line h₃]
  generalize hn : (before ++ statusLine d₁ d₂ d₃ (rstrip body)).length - finalMarkerWindowChars = n
  have hle : n ≤ before.length := by
    rw [List.length_append] at hn
    omega
  have hrest : before.drop n = [] ∨ (before.drop n).getLast? = some '\n' := by
    by_cases hnil : before.drop n = []
    · exact .inl hnil
    · right
      rw [List.getLast?_drop, if_neg (by rw [List.drop_eq_nil_iff] at hnil; omega)]
      exact hbefore.resolve_left fun h => hnil (by rw [h, List.drop_nil])
  have hne : (before.drop n ++ statusLine d₁ d₂ d₃ (rstrip body)).isEmpty = false := by simp [statusLine]
  rw [List.drop_append_of_le_length hle, finditer_line h₁ h₂ h₃ hrest hmarker, hne]
  simp only [List.drop_left, statusOf_line classes h₁ h₂ h₃, rstrip_head]
  by_cases hword : body.head?.any classes.isWord
  · simp [hword, Option.isSome_or, hunknown]
  · by_cases hcode : number classes [d₁, d₂, d₃] ∈ retryableHttpStatuses
    · have hpattern := classifyByPattern_line classes h₁ h₂ h₃ (by rw [rstrip_head]; simpa using hword) hstrip hcode
      simp [hword, hcode, Option.isSome_or, hpattern]
    · simp [hword, hcode]

theorem classify_long (hlen : finalMarkerWindowChars < (statusLine d₁ d₂ d₃ (rstrip body)).length) :
    (classifyRecoverableError classes (before ++ statusLine d₁ d₂ d₃ body)).isSome ↔
      body.head?.any classes.isWord := by
  have hunknown := classifyUnknownError_line classes h₁ h₂ h₃ hbefore hbody
  simp only [classifyRecoverableError, rstrip_line h₃]
  have hcut : (before ++ statusLine d₁ d₂ d₃ (rstrip body)).drop
        ((before ++ statusLine d₁ d₂ d₃ (rstrip body)).length - finalMarkerWindowChars) =
      (statusLine d₁ d₂ d₃ (rstrip body)).drop
        ((statusLine d₁ d₂ d₃ (rstrip body)).length - finalMarkerWindowChars) := by
    rw [List.length_append, Nat.add_sub_assoc (Nat.le_of_lt hlen), List.drop_length_add_append]
  have hpos : 0 < finalMarkerWindowChars := by decide
  have hne : ((statusLine d₁ d₂ d₃ (rstrip body)).drop
      ((statusLine d₁ d₂ d₃ (rstrip body)).length - finalMarkerWindowChars)).isEmpty = false := by
    rw [List.isEmpty_eq_false_iff, ne_eq, List.drop_eq_nil_iff]
    omega
  rw [hcut, finditer_tail h₁ h₂ h₃ hmarker (by omega) (Nat.sub_le _ _), hne, List.getLast?_nil]
  simp only [Bool.false_eq_true, if_false, hunknown]

end Status

theorem search_marker_eq_none {body : List Char} (h : '!' ∉ body) : errorMarkerRe.search body = none := by
  refine searchFrom_eq_none.mpr fun u v huv => ?_
  by_contra hsome
  obtain ⟨_, rest, ⟨w, e, rfl, -, -⟩, rfl⟩ := marker_isSome.mp (Option.isSome_iff_ne_none.mpr hsome)
  exact h (by rw [huv]; simp)

-- The status decides exactly in these cases: where the code ends as a word, it decides unless it is
-- one that may be retried and the line is longer than the window; where a word goes on after it, the
-- line is retried whatever the code.
theorem classify_status_iff (classes : CharClasses) (d₁ d₂ d₃ : Char) (before body : List Char)
    (h₁ : d₁.isDigit) (h₂ : d₂.isDigit) (h₃ : d₃.isDigit) (hbefore : before = [] ∨ before.getLast? = some '\n')
    (hbody : ∀ c ∈ body, inLine c) (hmarker : errorMarkerRe.search body = none) :
    ((classifyRecoverableError classes (before ++ statusLine d₁ d₂ d₃ body)).isSome ↔
        number classes [d₁, d₂, d₃] ∈ retryableHttpStatuses) ↔
      if body.head?.any classes.isWord then number classes [d₁, d₂, d₃] ∈ retryableHttpStatuses
      else number classes [d₁, d₂, d₃] ∉ retryableHttpStatuses ∨
        (rstrip (statusLine d₁ d₂ d₃ body)).length ≤ finalMarkerWindowChars := by
  have hstrip : rstrip (statusLine d₁ d₂ d₃ body) = statusLine d₁ d₂ d₃ (rstrip body) := by
    rw [statusLine_eq, rstrip_append (digit_space h₃), statusLine_eq]
  rw [hstrip]
  by_cases hlen : (statusLine d₁ d₂ d₃ (rstrip body)).length ≤ finalMarkerWindowChars
  · rw [classify_short classes h₁ h₂ h₃ hbefore hbody hmarker hlen]
    by_cases hword : body.head?.any classes.isWord
    · simp [hword]
    · simp [hword, hlen]
  · rw [classify_long classes h₁ h₂ h₃ hbefore hbody hmarker (Nat.not_le.mp hlen)]
    by_cases hword : body.head?.any classes.isWord
    · simp [hword]
    · simp [hword, hlen]

section Examples

-- The classes where a text is ASCII.
def asciiClasses : CharClasses where
  isWord c := c.isAlphanum || c == '_'
  decimal c := if c.isDigit then some (c.toNat - 48) else none
  word_ascii _ _ := rfl
  word_space c h := by
    by_contra hspace
    have hno := forall_space (fun c => !(c.isAlphanum || c == '_')) (by decide) (by simpa using hspace)
    simp only [h] at hno
    cases hno
  decimal_ascii _ _ := rfl

theorem classify_status_unavailable :
    ((classifyRecoverableError asciiClasses ("so far\n".toList ++ statusLine '5' '0' '3' " busy".toList)).isSome ↔
        number asciiClasses ['5', '0', '3'] ∈ retryableHttpStatuses) ↔
      if " busy".toList.head?.any asciiClasses.isWord then number asciiClasses ['5', '0', '3'] ∈ retryableHttpStatuses
      else number asciiClasses ['5', '0', '3'] ∉ retryableHttpStatuses ∨
        (rstrip (statusLine '5' '0' '3' " busy".toList)).length ≤ finalMarkerWindowChars :=
  classify_status_iff asciiClasses '5' '0' '3' "so far\n".toList " busy".toList (by decide) (by decide) (by decide)
    (.inr (by decide)) (forall_mem_of_all (by decide)) (search_marker_eq_none (by decide))

def longBody (n : Nat) : List Char := ' ' :: List.replicate n 'x'

theorem mem_longBody {n : Nat} {c : Char} (hc : c ∈ longBody n) : c = ' ' ∨ c = 'x' := by
  obtain rfl | hmem := List.mem_cons.mp hc
  · exact .inl rfl
  · exact .inr (List.eq_of_mem_replicate hmem)

theorem longBody_inLine (n : Nat) : ∀ c ∈ longBody n, inLine c := by
  intro c hc
  obtain rfl | rfl := mem_longBody hc <;> rfl

theorem search_longBody (n : Nat) : errorMarkerRe.search (longBody n) = none :=
  search_marker_eq_none fun hmem => by
    obtain h | h := mem_longBody hmem <;> cases h

theorem rstrip_longBody {n : Nat} (hn : 0 < n) : rstrip (longBody n) = longBody n := by
  obtain ⟨m, rfl⟩ := Nat.exists_eq_succ_of_ne_zero (Nat.ne_of_gt hn)
  rw [longBody, List.replicate_succ', ← List.cons_append]
  exact List.rdropWhile_concat_neg _ _ _ (by decide)

theorem classify_longBody {n : Nat} (hn : finalMarkerWindowChars ≤ n) :
    classifyRecoverableError asciiClasses ([] ++ statusLine '5' '0' '3' (longBody n)) = none := by
  have hpos : 0 < finalMarkerWindowChars := by decide
  have hlen : finalMarkerWindowChars < (statusLine '5' '0' '3' (rstrip (longBody n))).length := by
    rw [rstrip_longBody (Nat.lt_of_lt_of_le hpos hn)]
    simp only [statusLine, longBody, List.length_cons, List.length_replicate]
    omega
  have hsome := classify_long asciiClasses (by decide) (by decide) (by decide) (.inl rfl) (longBody_inLine n)
    (search_longBody n) hlen
  rw [← Option.not_isSome_iff_eq_none, hsome]
  simp [longBody, asciiClasses]

-- A status that may be retried, with a body that does not fit into the window.
theorem long_body_not_retried : (∀ c ∈ longBody 500, inLine c) ∧ errorMarkerRe.search (longBody 500) = none ∧
    number asciiClasses ['5', '0', '3'] ∈ retryableHttpStatuses ∧
    classifyRecoverableError asciiClasses ([] ++ statusLine '5' '0' '3' (longBody 500)) = none :=
  ⟨longBody_inLine 500, search_longBody 500, by decide, classify_longBody (Nat.le_refl _)⟩

end Examples

end GaHub.Retry
