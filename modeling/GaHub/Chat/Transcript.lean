import GaHub.Chat
import GaHub.Lib.Regex
import GaHub.Lib.Text
import Mathlib.Data.List.TakeWhile

namespace GaHub.Chat.Transcript

open Lib Lib.Regex

inductive NodeKind where
  | text
  | code
  | tool
  | summary
  | thinking
  | turn
  | pending
  deriving DecidableEq

structure Span where
  start : Nat
  stop : Nat
  deriving DecidableEq

structure TranscriptNode where
  kind : NodeKind
  start : Nat
  stop : Nat
  raw : List Char
  name : Option (List Char) := none
  headerEnd : Option Nat := none
  turn : Option Nat := none
  complete : Bool := true
  opaqueSpans : List Span := []
  repairs : List Nat := []
  deriving DecidableEq

section Expressions

-- The flag `i`, without `u`: a letter outside of ASCII never stands for one inside.
def sameCase (c d : Char) : Bool := c.toLower == d.toLower

def ci (s : String) : Regex := word sameCase s.toList

def isBlank (c : Char) : Bool := c == ' ' || c == '\t'

def isTick (c : Char) : Bool := c == Char.ofNat 96

def isNameChar (c : Char) : Bool := c.isAlphanum || c == '_' || c == '.' || c == '-'

def inLine (c : Char) : Bool := c != '\r' && c != '\n'

-- The sign that a tool call begins with, which may carry a variation selector.
def toolSign : Regex := cat [lit "🛠", opt (set fun c => c == Char.ofNat 0xFE0F)]

def toolHeaderRe : Regex :=
  cat [toolSign, many isSpace, ci "Tool", many isSpace, set fun c => c == ':' || c == '：', many isSpace,
    set isTick, group (plus isNameChar), set isTick,
    opt (cat [many isBlank, lit "📥", many isBlank, ci "args:"])]

def compactRe : Regex := cat [toolSign, many isSpace, group (plus isNameChar), many isSpace, lit "("]

def turnRe : Regex :=
  cat [opt (lit "**"), ci "LLM Running (Turn ", group (plus Char.isDigit), ci ") ...", opt (lit "**")]

def edgeRe : Regex :=
  cat [many isBlank, group (any [atLeast isTick 3, atLeast (fun c => c == '~') 3]), group (many inLine),
    any [cat [opt (lit "\r"), lit "\n"], atEnd]]

def metaRe : Regex :=
  cat [lit "<", group (any [ci "summary", ci "thinking", ci "think", ci "analysis"]), lit ">"]

def argsRe : Regex := any [cat [lit "📥", many isSpace, lit "args:"], plus isTick, atEnd]

def wrapperRe : Regex := cat [set isTick, opt (set isTick), opt (set isTick), atEnd]

def pendingRe : Regex :=
  cat [any [
    cat [toolSign, many isSpace, begun [ci "T", ci "o", ci "o", ci "l", cat [ci ":", many isSpace],
      cat [set isTick, many fun c => c.isAlphanum || c == '_' || c == '.']]],
    cat [lit "<", begun [ci "s", ci "u", ci "m", ci "m", ci "a", ci "r", ci "y"]]], atEnd]

end Expressions

-- `depth` counts the open parentheses; what stands in quotes does not count.
def balancedCall : List Char → Nat → Nat → Bool → Bool → Option Nat
  | [], _, _, _, _ => none
  | ch :: rest, i, depth, escaped, quoted =>
    if escaped then balancedCall rest (i + 1) depth false quoted
    else if quoted && ch == '\\' then balancedCall rest (i + 1) depth true quoted
    else if ch == '"' then balancedCall rest (i + 1) depth false !quoted
    else if quoted then balancedCall rest (i + 1) depth false quoted
    else if ch == '(' then balancedCall rest (i + 1) (depth + 1) false quoted
    else if ch == ')' then
      if depth - 1 = 0 then some (i + 1) else balancedCall rest (i + 1) (depth - 1) false quoted
    else balancedCall rest (i + 1) depth false quoted

def linesOf : List Char → List (List Char)
  | [] => []
  | c :: rest =>
    if c = '\n' then [c] :: linesOf rest
    else
      match linesOf rest with
      | [] => [[c]]
      | line :: lines => (c :: line) :: lines

-- `line.replace(/\r?\n$/, '')`
def chomp (line : List Char) : List Char :=
  match line.reverse with
  | '\n' :: '\r' :: text => text.reverse
  | '\n' :: text => text.reverse
  | _ => line

structure Block where
  stop : Nat
  complete : Bool
  repair : Option Nat := none
  deriving DecidableEq

section Fence

variable (length : Nat) (char : Char) (size : Nat) (tool : Bool)

def closeRe : Regex := cat [many isBlank, atLeast (fun c => c == char) size, many isBlank, atEnd]

def gluedRe : Regex :=
  cat [check fun prev _ => !prev.any isTick, times isTick size, many isBlank, atEnd]

def fenceLines : List (List Char) → Nat → Block
  | [], _ => { stop := length, complete := false }
  | line :: lines, pos =>
    let stop := pos + line.length
    if ((closeRe char size).exec (chomp line)).isSome then { stop := stop, complete := true }
    else
      let glued := if tool && isTick char then (gluedRe size).search (chomp line) else none
      match glued with
      | some (index, _) =>
        if 0 < index then { stop := stop, complete := true, repair := some (pos + index) }
        else fenceLines lines stop
      | none => fenceLines lines stop

end Fence

-- It is called where `edgeRe` matches.
def fence (source : List Char) (start : Nat) (tool : Bool) : Block :=
  match edgeRe.exec (source.drop start) with
  | none => { stop := source.length, complete := false }
  | some openTag =>
    let run := openTag.groups.headD []
    let pos := start + openTag.text.length
    fenceLines source.length (run.headD (Char.ofNat 96)) run.length tool (linesOf (source.drop pos)) pos

structure Blocks where
  stop : Nat
  complete : Bool
  opaqueSpans : List Span
  repairs : List Nat
  deriving DecidableEq

def toolBlocks (source : List Char) : Nat → Nat → List Span → List Nat → Blocks
  | 0, stop, spans, repairs => { stop := stop, complete := true, opaqueSpans := spans, repairs := repairs }
  | fuel + 1, stop, spans, repairs =>
    let next := stop + ((source.drop stop).takeWhile isSpace).length
    let edge := (edgeRe.exec (source.drop next)).filter fun edge =>
      let run := edge.groups.headD []
      run.head?.any isTick && decide (4 ≤ run.length)
    if edge.isSome then
      let block := fence source next true
      let spans := spans ++ [⟨next, block.stop⟩]
      let repairs := repairs ++ block.repair.toList
      if block.complete then toolBlocks source fuel block.stop spans repairs
      else { stop := block.stop, complete := false, opaqueSpans := spans, repairs := repairs }
    else if decide (next < source.length) && (wrapperRe.exec (source.drop next)).isSome then
      { stop := source.length, complete := false,
        opaqueSpans := spans ++ [⟨next, source.length⟩], repairs := repairs }
    else { stop := stop, complete := true, opaqueSpans := spans, repairs := repairs }

-- A header counts where its call goes on as one, or where the text breaks off in `args:`.
def toolHeader (rest : List Char) : Option Found :=
  match toolHeaderRe.exec rest with
  | none => none
  | some header =>
    let suffix := (rest.drop header.text.length).dropWhile isSpace
    if !suffix.isEmpty && suffix.isPrefixOf "📥 args:".toList then some { header with text := rest }
    else if (argsRe.exec suffix).isSome then some header
    else none

-- Of the letters outside of ASCII only the Kelvin sign has a lower case inside.
def toLowerCase (text : List Char) : List Char :=
  text.map fun c => if c = Char.ofNat 0x212A then 'k' else c.toLower

def pendingTag (rest : List Char) : Bool :=
  rest.head? == some '<' &&
    ["<thinking>", "<think>", "<analysis>"].any fun tag => (toLowerCase rest).isPrefixOf tag.toList

def number (digits : List Char) : Nat := digits.foldl (fun n c => 10 * n + (c.toNat - 48)) 0

structure Scan where
  pos : Nat := 0
  textStart : Nat := 0
  nodes : List TranscriptNode := []
  deriving DecidableEq

namespace Scan

variable (source : List Char) (s : Scan)

def slice (start stop : Nat) : List Char := (source.take stop).drop start

def flush : Scan :=
  if s.textStart < s.pos then
    let text : TranscriptNode :=
      { kind := .text, start := s.textStart, stop := s.pos, raw := slice source s.textStart s.pos }
    { s with nodes := s.nodes ++ [text] }
  else s

-- `flush`, `push`, and on from the end of the node.
def emit (node : TranscriptNode) : Scan where
  pos := node.stop
  textStart := node.stop
  nodes := (s.flush source).nodes ++ [node]

def node (kind : NodeKind) (stop : Nat) (complete : Bool) : TranscriptNode where
  kind := kind
  start := s.pos
  stop := stop
  raw := slice source s.pos stop
  complete := complete

def lineStart : Bool := s.pos == 0 || source[s.pos - 1]? == some '\n'

def adjacentTool : Bool := s.nodes.getLast?.any fun node => node.kind == .tool && node.stop == s.pos

-- The name of a call, where its header ends, and where the call itself ends if it does.
def call : Option (Option (List Char) × Nat × Option Nat) :=
  let rest := source.drop s.pos
  match toolHeader rest with
  | some header =>
    let stop := s.pos + header.text.length
    some (header.groups.head?, stop, some stop)
  | none =>
    match if s.lineStart source || s.adjacentTool then compactRe.exec rest else none with
    | some compact =>
      let stop := s.pos + compact.text.length
      some (compact.groups.head?, stop, balancedCall (source.drop stop) stop 1 false false)
    | none => none

def toolNode (name : Option (List Char)) (headerEnd : Nat) (callEnd : Option Nat) : TranscriptNode :=
  let blocks := match callEnd with
    | some stop => toolBlocks source source.length stop [] []
    | none => { stop := source.length, complete := false, opaqueSpans := [], repairs := [] }
  { s.node source .tool blocks.stop blocks.complete with
    name := name, headerEnd := some headerEnd, opaqueSpans := blocks.opaqueSpans, repairs := blocks.repairs }

def metaNode (tag : Found) : TranscriptNode :=
  let rest := source.drop s.pos
  let name := tag.groups.headD []
  let kind := if toLowerCase name = "summary".toList then NodeKind.summary else .thinking
  match (word sameCase ("</".toList ++ name ++ ">".toList)).search (rest.drop tag.text.length) with
  | some (index, close) => s.node source kind (s.pos + tag.text.length + index + close.text.length) true
  | none => s.node source kind source.length false

def turnNode (turn : Found) : TranscriptNode :=
  { s.node source .turn (s.pos + turn.text.length) true with turn := turn.groups.head?.map number }

-- One turn of the loop. A pending node ends at the end of the text, so the loop ends with it.
def step : Scan :=
  let rest := source.drop s.pos
  match turnRe.exec rest with
  | some turn => s.emit source (s.turnNode source turn)
  | none =>
    match metaRe.exec rest with
    | some tag => s.emit source (s.metaNode source tag)
    | none =>
      match s.call source with
      | some (name, headerEnd, callEnd) => s.emit source (s.toolNode source name headerEnd callEnd)
      | none =>
        if s.lineStart source && (edgeRe.exec rest).isSome then
          let block := fence source s.pos false
          s.emit source (s.node source .code block.stop block.complete)
        else if pendingTag rest || (pendingRe.exec rest).isSome then
          s.emit source (s.node source .pending source.length false)
        else { s with pos := s.pos + 1 }

def loop : Nat → Scan → Scan
  | 0, s => s
  | fuel + 1, s => if s.pos < source.length then loop fuel (s.step source) else s

end Scan

def scan (source : List Char) : Scan := Scan.loop source source.length {}

def scanTranscript (source : String) : List TranscriptNode :=
  ((scan source.toList).flush source.toList).nodes

def turnStarts (nodes : List TranscriptNode) : List Nat :=
  (nodes.filter fun node => node.kind == .turn).map TranscriptNode.start

-- What is kept apart inside of a node: ranges in order without overlap, and in each at most one repair.
structure Inner (low : Nat) (spans : List Span) (repairs : List Nat) (high : Nat) : Prop where
  inside : ∀ span ∈ spans, low ≤ span.start ∧ span.start < span.stop ∧ span.stop ≤ high
  apart : spans.Pairwise fun a b => a.stop ≤ b.start
  within : ∀ repair ∈ repairs, ∃ span ∈ spans, span.start < repair ∧ repair < span.stop
  sorted : repairs.Pairwise (· < ·)

-- The ranges of a node that are not read as text.
def TranscriptNode.ranges (node : TranscriptNode) : List Span :=
  match node.kind with
  | .code => [⟨node.start, node.stop⟩]
  | .tool => node.opaqueSpans
  | _ => []

def isDigit (c : Char) : Bool := c.isDigit

def isFence (c : Char) : Bool := isBlank c || isTick c || c == '~'

def digitBefore (source : List Char) (place : Nat) : Bool := (source.take place).getLast?.any isDigit

-- Ranges that follow each other up to `stop`, each the beginning of a fence, and none right behind a
-- digit that is outside of the ranges.
def Guarded (source : List Char) : Nat → List Span → Nat → Prop
  | start, [], stop => start = stop
  | start, span :: spans, stop =>
    start ≤ span.start ∧ (span.start = start ∨ digitBefore source span.start = false) ∧
      (source.drop span.start).head?.any isFence ∧ span.start < span.stop ∧ Guarded source span.stop spans stop

-- A node that begins at a place of the text and holds what stands there.
structure TranscriptNode.Sound (source : List Char) (start : Nat) (node : TranscriptNode) : Prop where
  start_eq : node.start = start
  start_lt : node.start < node.stop
  stop_le : node.stop ≤ source.length
  raw_eq : node.raw = Scan.slice source node.start node.stop
  inner : Inner node.start node.opaqueSpans node.repairs node.stop
  guarded : ∃ place ≥ node.start, (node.ranges = [] ∨ digitBefore source place = false) ∧
    Guarded source place node.ranges node.stop

namespace Inner

variable {low high : Nat} {spans : List Span} {repairs : List Nat}

theorem nil (low high : Nat) : Inner low [] [] high :=
  ⟨by simp, List.Pairwise.nil, by simp, List.Pairwise.nil⟩

theorem repair_lt (h : Inner low spans repairs high) {repair : Nat} (hrepair : repair ∈ repairs) : repair < high := by
  obtain ⟨span, hspan, -, hlt⟩ := h.within repair hrepair
  exact Nat.lt_of_lt_of_le hlt (h.inside span hspan).2.2

theorem concat (h : Inner low spans repairs high) {start stop : Nat} {repair : Option Nat} (hlow : low ≤ high)
    (hstart : high ≤ start) (hstop : start < stop) (hrepair : ∀ r ∈ repair, start < r ∧ r < stop) :
    Inner low (spans ++ [⟨start, stop⟩]) (repairs ++ repair.toList) stop where
  inside := by
    intro span hspan
    obtain hold | hnew := List.mem_append.mp hspan
    · obtain ⟨hlow, hlt, hhigh⟩ := h.inside span hold
      exact ⟨hlow, hlt, by omega⟩
    · rw [List.mem_singleton.mp hnew]
      exact ⟨Nat.le_trans hlow hstart, hstop, Nat.le_refl stop⟩
  apart := by
    refine List.pairwise_append.mpr ⟨h.apart, by simp, ?_⟩
    intro a ha b hb
    rw [List.mem_singleton.mp hb]
    exact Nat.le_trans (h.inside a ha).2.2 hstart
  within := by
    intro r hr
    obtain hold | hnew := List.mem_append.mp hr
    · obtain ⟨span, hspan, hr⟩ := h.within r hold
      exact ⟨span, List.mem_append_left _ hspan, hr⟩
    · exact ⟨⟨start, stop⟩, by simp, hrepair r (Option.mem_toList.mp hnew)⟩
  sorted := by
    refine List.pairwise_append.mpr ⟨h.sorted, by cases repair <;> simp, ?_⟩
    intro a ha b hb
    have hlt := h.repair_lt ha
    have hb := (hrepair b (Option.mem_toList.mp hb)).1
    omega

end Inner

section Progress

variable {source : List Char}

def spaceCodes : List Nat :=
  [9, 10, 11, 12, 13, 32, 160, 5760, 8192, 8193, 8194, 8195, 8196, 8197, 8198, 8199, 8200, 8201, 8202, 8232, 8233,
    8239, 8287, 12288, 65279]

theorem forall_space (ok : Char → Bool) (h : (spaceCodes.all fun n => ok (Char.ofNat n)) = true) {c : Char}
    (hc : isSpace c) : ok c := by
  refine forall_codes h ?_
  simp only [isSpace, decide_eq_true_eq] at hc
  generalize c.toNat = n at hc ⊢
  rcases hc with hc | rfl | rfl | rfl | hc | rfl | rfl | rfl | rfl | rfl | rfl
  any_goals decide
  · exact mem_of_range 9 5 rfl hc.1 (by omega)
  · exact mem_of_range 8192 11 rfl hc.1 (by omega)

theorem Guarded.concat {start stop : Nat} {spans : List Span} (h : Guarded source start spans stop) (span : Span)
    (hle : stop ≤ span.start) (hdigit : span.start = stop ∨ digitBefore source span.start = false)
    (hfence : (source.drop span.start).head?.any isFence) (hlt : span.start < span.stop) :
    Guarded source start (spans ++ [span]) span.stop := by
  induction spans generalizing start with
  | nil =>
    obtain rfl : start = stop := h
    exact ⟨hle, hdigit, hfence, hlt, rfl⟩
  | cons first spans ih =>
    obtain ⟨hstart, hbefore, hopens, hfirst, hrest⟩ := h
    exact ⟨hstart, hbefore, hopens, hfirst, ih hrest⟩

theorem not_digit_of_space {c : Char} (hc : isSpace c) : isDigit c = false := by
  simpa using forall_space (fun c => !isDigit c) (by decide) hc

theorem digitBefore_behind {pos : Nat} {u rest : List Char} {c : Char} (h : source.drop pos = u ++ c :: rest)
    (hc : isDigit c = false) : digitBefore source (pos + (u.length + 1)) = false := by
  have htake : source.take (pos + (u.length + 1)) = source.take pos ++ (u ++ [c]) := by
    rw [List.take_add, h, show u ++ c :: rest = (u ++ [c]) ++ rest by simp, List.take_left' (by simp)]
  simp [digitBefore, htake, hc]

theorem spaces_before (source : List Char) (stop : Nat) {next : Nat}
    (hnext : stop + ((source.drop stop).takeWhile isSpace).length = next) :
    next = stop ∨ digitBefore source next = false := by
  obtain hnil | ⟨white, c, hwhite⟩ := List.eq_nil_or_concat' ((source.drop stop).takeWhile isSpace)
  · rw [hnil] at hnext
    exact .inl hnext.symm
  · right
    have hspace : isSpace c = true := by
      have hmem : c ∈ (source.drop stop).takeWhile isSpace := by simp [hwhite]
      exact List.mem_takeWhile_imp hmem
    have hdrop : source.drop stop = white ++ c :: (source.drop stop).dropWhile isSpace := by
      conv_lhs => rw [← List.takeWhile_append_dropWhile (p := isSpace) (l := source.drop stop), hwhite]
      simp
    rw [← hnext, hwhite, List.length_append]
    exact digitBefore_behind hdrop (not_digit_of_space hspace)

theorem linesOf_flatten (text : List Char) : (linesOf text).flatten = text := by
  induction text with
  | nil => rfl
  | cons c text ih =>
    simp only [linesOf]
    split
    · rw [List.flatten_cons, ih]
      rfl
    · split
      next hnil =>
        rw [hnil] at ih
        simp [← ih]
      next line lines hlines =>
        rw [hlines] at ih
        simpa using ih

theorem chomp_length_le (line : List Char) : (chomp line).length ≤ line.length := by
  have hlen : line.reverse.length = line.length := List.length_reverse
  unfold chomp
  split
  next text h =>
    rw [h] at hlen
    simp only [List.length_cons] at hlen
    rw [List.length_reverse]
    omega
  next text h =>
    rw [h] at hlen
    simp only [List.length_cons] at hlen
    rw [List.length_reverse]
    omega
  next => exact Nat.le_refl _

theorem search_lt {r : Regex} (hr : r.nullable = false) {text : List Char} {index : Nat} {found : Found}
    (h : r.search text = some (index, found)) : index < text.length ∧ index + found.text.length ≤ text.length := by
  obtain ⟨u, v, rfl, rfl, hmatch, -⟩ := searchFrom_eq_some h
  obtain ⟨hpos, hle, -⟩ := matchAt_spec hr hmatch
  rw [List.length_append]
  omega

theorem fenceLines_spec {length : Nat} {char : Char} {size : Nat} {tool : Bool} {lines : List (List Char)} {pos : Nat}
    (h : pos + lines.flatten.length = length) :
    pos ≤ (fenceLines length char size tool lines pos).stop ∧
      (fenceLines length char size tool lines pos).stop ≤ length ∧
      (0 < size → ∀ r ∈ (fenceLines length char size tool lines pos).repair,
        pos ≤ r ∧ r < (fenceLines length char size tool lines pos).stop) := by
  induction lines generalizing pos with
  | nil =>
    simp only [fenceLines]
    exact ⟨by simp at h; omega, Nat.le_refl _, by simp⟩
  | cons line lines ih =>
    rw [List.flatten_cons, List.length_append, ← Nat.add_assoc] at h
    obtain ⟨hpos, hstop, hrepair⟩ := ih h
    have hnext : pos ≤ (fenceLines length char size tool lines (pos + line.length)).stop ∧
        (fenceLines length char size tool lines (pos + line.length)).stop ≤ length ∧
        (0 < size → ∀ r ∈ (fenceLines length char size tool lines (pos + line.length)).repair,
          pos ≤ r ∧ r < (fenceLines length char size tool lines (pos + line.length)).stop) := by
      refine ⟨by omega, hstop, fun hsize r hr => ?_⟩
      obtain ⟨hlow, hhigh⟩ := hrepair hsize r hr
      exact ⟨by omega, hhigh⟩
    simp only [fenceLines]
    split
    · exact ⟨by simp, by simp; omega, by simp⟩
    split
    next index found hglued =>
      split
      · refine ⟨by simp, by simp; omega, ?_⟩
        intro hsize r hr
        obtain rfl : pos + index = r := by simpa using hr
        split at hglued
        · obtain ⟨size, rfl⟩ := Nat.exists_eq_succ_of_ne_zero (Nat.ne_of_gt hsize)
          have hindex := (search_lt (by rfl) hglued).1
          have hle := chomp_length_le line
          simp only
          omega
        · cases hglued
      · exact hnext
    next => exact hnext

theorem lt_of_exec {r : Regex} (hr : r.nullable = false) {pos : Nat} {found : Found}
    (h : r.exec (source.drop pos) = some found) :
    pos < source.length ∧ 0 < found.text.length ∧ found.text.length ≤ source.length - pos := by
  obtain ⟨hpos, hle, -⟩ := matchAt_spec hr h
  rw [List.length_drop] at hle
  exact ⟨by omega, hpos, hle⟩

theorem fence_spec {start : Nat} (tool : Bool) {openTag : Found} (h : edgeRe.exec (source.drop start) = some openTag) :
    start < (fence source start tool).stop ∧ (fence source start tool).stop ≤ source.length ∧
      (0 < (openTag.groups.headD []).length → ∀ r ∈ (fence source start tool).repair,
        start < r ∧ r < (fence source start tool).stop) := by
  obtain ⟨hstart, hlen, hle⟩ := lt_of_exec (by rfl) h
  simp only [fence, h]
  have hlines : start + openTag.text.length +
      (linesOf (source.drop (start + openTag.text.length))).flatten.length = source.length := by
    rw [linesOf_flatten, List.length_drop]
    omega
  obtain ⟨hpos, hstop, hrepair⟩ := fenceLines_spec hlines
  refine ⟨Nat.lt_of_lt_of_le (by omega) hpos, hstop, fun hsize r hr => ?_⟩
  obtain ⟨hlow, hhigh⟩ := hrepair hsize r hr
  exact ⟨by omega, hhigh⟩

theorem edge_fence {text : List Char} {openTag : Found} (h : edgeRe.exec text = some openTag) :
    text.head?.any isFence := by
  obtain ⟨-, -, c, rest, rfl, hc⟩ := matchAt_spec (by rfl) h
  simpa [edgeRe, cat, any, atLeast, times, first, nullable, isFence, Bool.or_assoc] using hc

theorem wrapper_fence {text : List Char} (h : (wrapperRe.exec text).isSome) : text.head?.any isFence := by
  obtain ⟨found, hfound⟩ := Option.isSome_iff_exists.mp h
  obtain ⟨-, -, c, rest, rfl, hc⟩ := matchAt_spec (by rfl) hfound
  have htick : isTick c = true := by simpa [wrapperRe, cat, opt, first, nullable] using hc
  simp [isFence, htick]

theorem toolBlocks_spec (fuel : Nat) {low first stop : Nat} {spans : List Span} {repairs : List Nat}
    (hlow : low ≤ stop) (hstop : stop ≤ source.length) (h : Inner low spans repairs stop)
    (hguard : Guarded source first spans stop) :
    stop ≤ (toolBlocks source fuel stop spans repairs).stop ∧
      (toolBlocks source fuel stop spans repairs).stop ≤ source.length ∧
      Inner low (toolBlocks source fuel stop spans repairs).opaqueSpans
        (toolBlocks source fuel stop spans repairs).repairs (toolBlocks source fuel stop spans repairs).stop ∧
      Guarded source first (toolBlocks source fuel stop spans repairs).opaqueSpans
        (toolBlocks source fuel stop spans repairs).stop := by
  induction fuel generalizing stop spans repairs with
  | zero => exact ⟨Nat.le_refl stop, hstop, h, hguard⟩
  | succ fuel ih =>
    simp only [toolBlocks]
    generalize hnext : stop + ((source.drop stop).takeWhile isSpace).length = next
    have hdigit := spaces_before source stop hnext
    split
    next hedge =>
      obtain ⟨openTag, hopen⟩ := Option.isSome_iff_exists.mp hedge
      obtain ⟨hexec, htag⟩ := Option.filter_eq_some_iff.mp hopen
      have hsize : 0 < (openTag.groups.headD []).length := by
        have hfour := of_decide_eq_true (Bool.and_eq_true_iff.mp htag).2
        omega
      obtain ⟨hlt, hle, hrepair⟩ := fence_spec true hexec
      have hinner := h.concat hlow (by omega) hlt (hrepair hsize)
      have hguard' := hguard.concat ⟨next, (fence source next true).stop⟩ (by simp only; omega) hdigit
        (edge_fence hexec) hlt
      split
      · obtain ⟨hstop', hle', hinner', hguarded⟩ := ih (by omega) hle hinner hguard'
        exact ⟨by omega, hle', hinner', hguarded⟩
      · exact ⟨by simp only; omega, hle, hinner, hguard'⟩
    next =>
      split
      next hwrap =>
        obtain ⟨hlt, hexec⟩ := Bool.and_eq_true_iff.mp hwrap
        have hlt := of_decide_eq_true hlt
        have hle : stop ≤ next := by omega
        have hinner := h.concat hlow hle hlt (show ∀ r ∈ (none : Option Nat), next < r ∧ r < source.length by simp)
        rw [Option.toList_none, List.append_nil] at hinner
        have hguard' := hguard.concat ⟨next, source.length⟩ hle hdigit (wrapper_fence hexec) hlt
        exact ⟨by simp only; omega, Nat.le_refl _, hinner, hguard'⟩
      next => exact ⟨Nat.le_refl stop, hstop, h, hguard⟩

theorem balancedCall_stop {rest : List Char} {i depth : Nat} {escaped quoted : Bool} {stop : Nat}
    (h : balancedCall rest i depth escaped quoted = some stop) :
    ∃ u tail, rest = u ++ ')' :: tail ∧ stop = i + u.length + 1 := by
  induction rest generalizing i depth escaped quoted with
  | nil => simp [balancedCall] at h
  | cons ch rest ih =>
    have hnext : ∀ {depth escaped quoted}, balancedCall rest (i + 1) depth escaped quoted = some stop →
        ∃ u tail, ch :: rest = u ++ ')' :: tail ∧ stop = i + u.length + 1 := by
      intro depth escaped quoted h
      obtain ⟨u, tail, rfl, hstop⟩ := ih h
      exact ⟨ch :: u, tail, rfl, by simp only [List.length_cons]; omega⟩
    simp only [balancedCall] at h
    split at h
    · exact hnext h
    split at h
    · exact hnext h
    split at h
    · exact hnext h
    split at h
    · exact hnext h
    split at h
    · exact hnext h
    split at h
    next hclose =>
      split at h
      · obtain rfl := eq_of_beq hclose
        cases h
        exact ⟨[], rest, rfl, rfl⟩
      · exact hnext h
    · exact hnext h

namespace Scan

variable (s : Scan)

@[simp] theorem node_start (kind : NodeKind) (stop : Nat) (complete : Bool) :
    (s.node source kind stop complete).start = s.pos := rfl

@[simp] theorem node_stop (kind : NodeKind) (stop : Nat) (complete : Bool) :
    (s.node source kind stop complete).stop = stop := rfl

@[simp] theorem node_kind (kind : NodeKind) (stop : Nat) (complete : Bool) :
    (s.node source kind stop complete).kind = kind := rfl

@[simp] theorem emit_pos (node : TranscriptNode) : (s.emit source node).pos = node.stop := rfl

theorem node_sound {s : Scan} {kind : NodeKind} {stop : Nat} {complete : Bool} (hlt : s.pos < stop)
    (hle : stop ≤ source.length) (hkind : kind ≠ .code) : (s.node source kind stop complete).Sound source s.pos := by
  have hranges : (s.node source kind stop complete).ranges = [] := by
    cases kind <;> first | rfl | exact absurd rfl hkind
  exact ⟨rfl, hlt, hle, rfl, Inner.nil _ _, stop, Nat.le_of_lt hlt, .inl hranges, by rw [hranges]; rfl⟩

theorem lineStart_before {s : Scan} (h : s.lineStart source) : digitBefore source s.pos = false := by
  simp only [lineStart, Bool.or_eq_true, beq_iff_eq] at h
  obtain hzero | hfeed := h
  · simp [digitBefore, hzero]
  · obtain ⟨hlt, hget⟩ := List.getElem?_eq_some_iff.mp hfeed
    by_cases hzero : s.pos = 0
    · simp [digitBefore, hzero]
    · have htake : source.take s.pos = source.take (s.pos - 1) ++ ['\n'] := by
        rw [← hget, List.take_append_getElem hlt]
        congr 1
        omega
      simp [digitBefore, htake, show isDigit '\n' = false by rfl]

theorem codeNode_sound {s : Scan} {block : Block} (hstart : s.lineStart source) {openTag : Found}
    (hopen : edgeRe.exec (source.drop s.pos) = some openTag) (hlt : s.pos < block.stop)
    (hle : block.stop ≤ source.length) : (s.node source .code block.stop block.complete).Sound source s.pos :=
  ⟨rfl, hlt, hle, rfl, Inner.nil _ _, s.pos, Nat.le_refl _, .inr (lineStart_before hstart),
    Nat.le_refl _, .inl rfl, edge_fence hopen, hlt, rfl⟩

theorem turnNode_sound {s : Scan} {turn : Found} (h : turnRe.exec (source.drop s.pos) = some turn) :
    (s.turnNode source turn).Sound source s.pos := by
  obtain ⟨hpos, hlen, hle⟩ := lt_of_exec (by rfl) h
  exact ⟨rfl, show s.pos < s.pos + turn.text.length by omega,
    show s.pos + turn.text.length ≤ source.length by omega, rfl, Inner.nil _ _,
    s.pos + turn.text.length, Nat.le_add_right _ _, .inl rfl, rfl⟩

theorem metaNode_kind (tag : Found) : (s.metaNode source tag).kind ≠ .turn := by
  simp only [metaNode]
  split <;> (rw [node_kind]; split <;> simp)

theorem metaNode_sound {s : Scan} {tag : Found} (h : metaRe.exec (source.drop s.pos) = some tag) :
    (s.metaNode source tag).Sound source s.pos := by
  obtain ⟨hpos, hlen, hle⟩ := lt_of_exec (by rfl) h
  simp only [metaNode]
  split
  next index close hclose =>
    have hin := (search_lt (by rfl) hclose).2
    rw [List.length_drop, List.length_drop] at hin
    exact node_sound (by omega) (by omega) (by split <;> simp)
  next => exact node_sound hpos (Nat.le_refl _) (by split <;> simp)

theorem not_last_of_digit {r : Regex} (hr : ([48, 49, 50, 51, 52, 53, 54, 55, 56, 57].all fun n =>
    !r.last (Char.ofNat n)) = true) {c : Char} (hc : r.last c) : isDigit c = false := by
  by_contra hdigit
  have hcode : c.toNat ∈ [48, 49, 50, 51, 52, 53, 54, 55, 56, 57] := by
    simp only [isDigit, Char.isDigit, Bool.and_eq_true, decide_eq_true_eq, Bool.not_eq_false] at hdigit
    obtain ⟨hlow, hhigh⟩ := hdigit
    have hlow' : 48 ≤ c.toNat := hlow
    have hhigh' : c.toNat ≤ 57 := hhigh
    simp only [List.mem_cons, List.not_mem_nil]
    omega
  have hno := List.all_eq_true.mp hr c.toNat hcode
  rw [Char.ofNat_toNat] at hno
  simp [hc] at hno

theorem toolHeader_spec {rest : List Char} {header : Found} (h : toolHeader rest = some header) :
    0 < header.text.length ∧ header.text.length ≤ rest.length ∧ (header.text = rest ∨
      ∃ u c tail, rest = u ++ c :: tail ∧ header.text = u ++ [c] ∧ isDigit c = false) := by
  simp only [toolHeader] at h
  split at h
  · simp at h
  next found hfound =>
    obtain ⟨hlen, hle, -⟩ := matchAt_spec (by rfl) hfound
    split at h
    · cases h
      exact ⟨Nat.lt_of_lt_of_le hlen hle, Nat.le_refl _, .inl rfl⟩
    split at h
    · cases h
      obtain ⟨u, c, tail, hrest, htext, hlast⟩ := matchAt_last (by rfl) hfound
      exact ⟨hlen, hle, .inr ⟨u, c, tail, hrest, htext, not_last_of_digit (r := toolHeaderRe) (by decide) hlast⟩⟩
    · simp at h

theorem call_stop {s : Scan} {name : Option (List Char)} {headerEnd : Nat} {callEnd : Option Nat}
    (hpos : s.pos < source.length) (h : s.call source = some (name, headerEnd, callEnd)) :
    ∀ stop ∈ callEnd, s.pos < stop ∧ stop ≤ source.length ∧
      (stop = source.length ∨ digitBefore source stop = false) := by
  intro stop hstop
  simp only [call] at h
  split at h
  next header hheader =>
    obtain ⟨hlen, hle, hlast⟩ := toolHeader_spec hheader
    rw [List.length_drop] at hle
    cases h
    cases hstop
    refine ⟨by omega, by omega, ?_⟩
    obtain hall | ⟨u, c, tail, hrest, htext, hdigit⟩ := hlast
    · left
      rw [hall, List.length_drop]
      omega
    · right
      rw [htext, List.length_append]
      exact digitBefore_behind hrest hdigit
  next =>
    split at h
    next compact hcompact =>
      split at hcompact
      · obtain ⟨-, hlen, hle⟩ := lt_of_exec (by rfl) hcompact
        cases h
        obtain ⟨u, rest, hdrop, hlength⟩ := balancedCall_stop hstop
        have hbound := congrArg List.length hdrop
        simp only [List.length_drop, List.length_append, List.length_cons] at hbound
        refine ⟨by omega, by omega, .inr ?_⟩
        rw [hlength, Nat.add_assoc]
        exact digitBefore_behind hdrop (by rfl)
      · cases hcompact
    next => simp at h

theorem toolBlocks_end (fuel : Nat) :
    (toolBlocks source fuel source.length [] []).opaqueSpans = [] := by
  have hexec : edgeRe.exec [] = none := by decide
  cases fuel with
  | zero => rfl
  | succ fuel => simp [toolBlocks, hexec]

theorem toolNode_sound {s : Scan} (hpos : s.pos < source.length) {name : Option (List Char)} {headerEnd : Nat}
    {callEnd : Option Nat} (h : ∀ stop ∈ callEnd, s.pos < stop ∧ stop ≤ source.length ∧
      (stop = source.length ∨ digitBefore source stop = false)) :
    (s.toolNode source name headerEnd callEnd).Sound source s.pos := by
  cases callEnd with
  | none => exact ⟨rfl, hpos, Nat.le_refl _, rfl, Inner.nil _ _, source.length, Nat.le_of_lt hpos, .inl rfl, rfl⟩
  | some stop =>
    obtain ⟨hlow, hhigh, hbefore⟩ := h stop rfl
    obtain ⟨hstop, hle, hinner, hguard⟩ :=
      toolBlocks_spec source.length (Nat.le_of_lt hlow) hhigh (Inner.nil s.pos stop) (show Guarded source stop [] stop from rfl)
    refine ⟨rfl, Nat.lt_of_lt_of_le hlow hstop, hle, rfl, hinner, stop, Nat.le_of_lt hlow, ?_, hguard⟩
    obtain rfl | hdigit := hbefore
    · exact .inl (toolBlocks_end source.length)
    · exact .inr hdigit

-- What a turn of the loop can do: it marks a header, it marks something else and gets past it, or
-- it goes on by one character.
theorem step_cases {s : Scan} (hpos : s.pos < source.length) :
    (∃ turn, turnRe.exec (source.drop s.pos) = some turn ∧
      s.step source = s.emit source (s.turnNode source turn)) ∨
    turnRe.exec (source.drop s.pos) = none ∧
      ((∃ node, node.kind ≠ .turn ∧ node.Sound source s.pos ∧ s.step source = s.emit source node) ∨
        s.step source = { s with pos := s.pos + 1 }) := by
  cases hturn : turnRe.exec (source.drop s.pos) with
  | some turn => exact .inl ⟨turn, rfl, by simp only [step, hturn]⟩
  | none =>
    refine .inr ⟨rfl, ?_⟩
    simp only [step, hturn]
    split
    next tag htag => exact .inl ⟨_, metaNode_kind s tag, metaNode_sound htag, rfl⟩
    split
    next name headerEnd callEnd hcall =>
      exact .inl ⟨_, by simp [toolNode], toolNode_sound hpos (call_stop hpos hcall), rfl⟩
    split
    next hedge =>
      obtain ⟨hstart, hopen⟩ := Bool.and_eq_true_iff.mp hedge
      obtain ⟨openTag, hopen⟩ := Option.isSome_iff_exists.mp hopen
      obtain ⟨hlt, hle, -⟩ := fence_spec false hopen
      exact .inl ⟨_, by simp, codeNode_sound hstart hopen hlt hle, rfl⟩
    split
    · exact .inl ⟨s.node source .pending source.length false, by simp,
        node_sound hpos (Nat.le_refl _) (by simp), rfl⟩
    · exact .inr rfl

theorem step_emits {s : Scan} (hpos : s.pos < source.length) :
    (∃ node, node.Sound source s.pos ∧ s.step source = s.emit source node) ∨
      s.step source = { s with pos := s.pos + 1 } := by
  obtain ⟨turn, hturn, hstep⟩ | ⟨-, ⟨node, -, hnode, hstep⟩ | hstep⟩ := step_cases hpos
  · exact .inl ⟨_, turnNode_sound hturn, hstep⟩
  · exact .inl ⟨node, hnode, hstep⟩
  · exact .inr hstep

theorem step_pos {s : Scan} (hpos : s.pos < source.length) : s.pos < (s.step source).pos := by
  obtain ⟨node, hnode, hstep⟩ | hstep := step_emits hpos
  · rw [hstep, emit_pos, ← hnode.start_eq]
    exact hnode.start_lt
  · rw [hstep]
    exact Nat.lt_succ_self s.pos

end Scan

end Progress

section Starts

variable {source : List Char}

namespace Scan

@[simp] theorem turnStarts_flush (s : Scan) : turnStarts (s.flush source).nodes = turnStarts s.nodes := by
  unfold flush
  split
  · simp [turnStarts]
  · rfl

theorem turnStarts_emit (s : Scan) (node : TranscriptNode) : turnStarts (s.emit source node).nodes =
    turnStarts s.nodes ++ if node.kind = .turn then [node.start] else [] := by
  have hflush : turnStarts (s.flush source).nodes = turnStarts s.nodes := turnStarts_flush s
  rw [← hflush]
  by_cases hkind : node.kind = .turn
  · simp [emit, turnStarts, hkind]
  · simp [emit, turnStarts, hkind]

theorem turnStarts_step {s : Scan} (hpos : s.pos < source.length) : turnStarts (s.step source).nodes =
    turnStarts s.nodes ++ if (turnRe.exec (source.drop s.pos)).isSome then [s.pos] else [] := by
  obtain ⟨turn, hturn, hstep⟩ | ⟨hturn, ⟨node, hkind, -, hstep⟩ | hstep⟩ := step_cases hpos
  · rw [hstep, turnStarts_emit, hturn]
    rfl
  · rw [hstep, turnStarts_emit, hturn]
    simp [hkind]
  · rw [hstep, hturn]
    simp

structure Marked (source : List Char) (s : Scan) : Prop where
  below : ∀ start ∈ turnStarts s.nodes, start < s.pos
  sorted : (turnStarts s.nodes).Pairwise (· < ·)
  header : ∀ start ∈ turnStarts s.nodes, (turnRe.exec (source.drop start)).isSome

theorem Marked.step {s : Scan} (h : Marked source s) (hpos : s.pos < source.length) :
    Marked source (s.step source) := by
  have hlt := step_pos hpos
  have hmem : ∀ start ∈ turnStarts (s.step source).nodes, start ∈ turnStarts s.nodes ∨
      start = s.pos ∧ (turnRe.exec (source.drop s.pos)).isSome := by
    intro start hstart
    rw [turnStarts_step hpos] at hstart
    refine (List.mem_append.mp hstart).imp_right fun hstart => ?_
    split at hstart
    next hheader => exact ⟨List.mem_singleton.mp hstart, hheader⟩
    next => simp at hstart
  constructor
  · intro start hstart
    obtain hold | ⟨rfl, -⟩ := hmem start hstart
    · exact Nat.lt_trans (h.below start hold) hlt
    · exact hlt
  · rw [turnStarts_step hpos]
    refine List.pairwise_append.mpr ⟨h.sorted, by split <;> simp, ?_⟩
    intro a ha b hb
    split at hb
    · rw [List.mem_singleton.mp hb]
      exact h.below a ha
    · simp at hb
  · intro start hstart
    obtain hold | ⟨rfl, hheader⟩ := hmem start hstart
    · exact h.header start hold
    · exact hheader

theorem Marked.loop {s : Scan} (h : Marked source s) (fuel : Nat) : Marked source (s.loop source fuel) := by
  induction fuel generalizing s with
  | zero => exact h
  | succ fuel ih =>
    simp only [Scan.loop]
    split
    next hpos => exact ih (h.step hpos)
    next => exact h

theorem loop_pos {s : Scan} {fuel : Nat} (h : source.length ≤ s.pos + fuel) :
    source.length ≤ (s.loop source fuel).pos := by
  induction fuel generalizing s with
  | zero => exact h
  | succ fuel ih =>
    simp only [Scan.loop]
    split
    next hpos =>
      have hstep := step_pos hpos
      exact ih (by omega)
    next hpos => exact Nat.not_lt.mp hpos

theorem turnStarts_loop (s : Scan) (fuel : Nat) : turnStarts s.nodes <+: turnStarts (s.loop source fuel).nodes := by
  induction fuel generalizing s with
  | zero => exact List.prefix_refl _
  | succ fuel ih =>
    simp only [Scan.loop]
    split
    next hpos =>
      refine List.IsPrefix.trans ?_ (ih (s.step source))
      rw [turnStarts_step hpos]
      exact List.prefix_append _ _
    next => exact List.prefix_refl _

end Scan

theorem scan_marked (source : List Char) : (scan source).Marked source :=
  Scan.Marked.loop ⟨by simp [turnStarts], by simp [turnStarts], by simp [turnStarts]⟩ _

theorem scan_done (source : List Char) : source.length ≤ (scan source).pos :=
  Scan.loop_pos (by simp)

end Starts

section Spaces

theorem exec_space {r : Regex} (hr : r.nullable = false)
    (hfirst : (spaceCodes.all fun n => !r.first (Char.ofNat n)) = true) {c : Char} (hc : isSpace c)
    (rest : List Char) : r.exec (c :: rest) = none :=
  matchAt_eq_none hr (by simpa using forall_space (fun c => !r.first c) hfirst hc)

theorem header_first {text : List Char} (h : (turnRe.exec text).isSome) :
    ∃ c rest, text = c :: rest ∧ isSpace c = false ∧ isTick c = false ∧ c ≠ '~' := by
  obtain ⟨found, hfound⟩ := Option.isSome_iff_exists.mp h
  obtain ⟨-, -, c, rest, rfl, hc⟩ := matchAt_spec (by rfl) hfound
  refine ⟨c, rest, rfl, ?_, ?_, ?_⟩
  · by_contra hspace
    simp [exec_space (r := turnRe) (by rfl) (by decide) (by simpa using hspace)] at h
  · by_contra htick
    simp only [isTick, beq_iff_eq, Bool.not_eq_false] at htick
    subst htick
    simp [show turnRe.first (Char.ofNat 96) = false by decide] at hc
  · rintro rfl
    simp [show turnRe.first '~' = false by decide] at hc

theorem isBlank_space {c : Char} (h : isBlank c) : isSpace c := by
  simp only [isBlank, Bool.or_eq_true, beq_iff_eq] at h
  obtain rfl | rfl := h
  · rfl
  · rfl

theorem edge_none {w text : List Char} (hw : ∀ c ∈ w, isSpace c) (h : (turnRe.exec text).isSome) :
    edgeRe.exec (w ++ text) = none := by
  obtain ⟨d, rest, rfl, hspace, htick, htilde⟩ := header_first h
  by_contra hne
  obtain ⟨q, hq⟩ := matchAt_isSome.mp (Option.isSome_iff_ne_none.mpr hne)
  obtain ⟨m, hm, hq⟩ := mem_ends_cat_cons.mp hq
  obtain ⟨u, rest', hrest, hu, rfl⟩ := mem_ends_many.mp hm
  obtain ⟨f, tail, hf, hfirst⟩ := cons_of_mem (by rfl) hq
  have hfence : isTick f = true ∨ f = '~' := by
    simpa [cat, any, atLeast, times, first, nullable] using hfirst
  have hsplit : w ++ d :: rest = u ++ f :: tail := by
    rw [← hf]
    exact hrest
  obtain ⟨a, rfl, ha⟩ | ⟨a, rfl, ha⟩ := List.append_eq_append_iff.mp hsplit
  · cases a with
    | nil =>
      obtain ⟨rfl, -⟩ := List.cons.inj ha
      exact hfence.elim (fun hf => by simp [htick] at hf) htilde
    | cons b a =>
      obtain ⟨rfl, -⟩ := List.cons.inj ha
      have hblank := isBlank_space (hu d (by simp))
      simp [hspace] at hblank
  · cases a with
    | nil =>
      obtain ⟨rfl, -⟩ := List.cons.inj ha
      exact hfence.elim (fun hf => by simp [htick] at hf) htilde
    | cons b a =>
      obtain ⟨rfl, -⟩ := List.cons.inj ha
      have hmem : isSpace f = true := hw f (by simp)
      have hno := forall_space (fun c => !(isTick c || c == '~')) (by decide) hmem
      simp only [Bool.not_eq_true', Bool.or_eq_false_iff, beq_eq_false_iff_ne] at hno
      exact hfence.elim (fun hf => by simp [hno.1] at hf) hno.2

variable {source : List Char}

theorem step_space {s : Scan} {c : Char} {rest : List Char} (hrest : source.drop s.pos = c :: rest) (hc : isSpace c)
    (hedge : edgeRe.exec (c :: rest) = none) : s.step source = { s with pos := s.pos + 1 } := by
  have hlt : (c == '<') = false := by
    simpa using forall_space (fun c => !(c == '<')) (by decide) hc
  have hcall : s.call source = none := by
    simp only [Scan.call, toolHeader, hrest, exec_space (r := toolHeaderRe) (by rfl) (by decide) hc]
    split
    next compact hcompact =>
      split at hcompact
      · rw [exec_space (by rfl) (by decide) hc] at hcompact
        cases hcompact
      · cases hcompact
    next => rfl
  have hpending : pendingTag (c :: rest) = false := by
    simp [pendingTag, show c ≠ '<' by simpa using hlt]
  simp [Scan.step, hrest, exec_space (r := turnRe) (by rfl) (by decide) hc,
    exec_space (r := metaRe) (by rfl) (by decide) hc, hcall, hedge, hpending,
    exec_space (r := pendingRe) (by rfl) (by decide) hc]

theorem loop_spaces {w text : List Char} (hsource : source = w ++ text) (hw : ∀ c ∈ w, isSpace c)
    (htext : (turnRe.exec text).isSome) {u v : List Char} (huv : w = u ++ v) {fuel : Nat} (hfuel : v.length < fuel) :
    (turnStarts (Scan.loop source fuel { pos := u.length }).nodes).head? = some w.length := by
  obtain ⟨h, rest, rfl, -⟩ := header_first htext
  induction v generalizing u fuel with
  | nil =>
    obtain ⟨fuel, rfl⟩ := Nat.exists_eq_succ_of_ne_zero (Nat.ne_of_gt hfuel)
    rw [List.append_nil] at huv
    subst huv
    have hpos : w.length < source.length := by simp [hsource]
    simp only [Scan.loop, if_pos hpos]
    obtain ⟨tail, htail⟩ := Scan.turnStarts_loop (Scan.step source { pos := w.length }) fuel
    rw [← htail, Scan.turnStarts_step hpos]
    simp only [hsource, List.drop_left, htext, if_true]
    rfl
  | cons c v ih =>
    obtain ⟨fuel, rfl⟩ := Nat.exists_eq_succ_of_ne_zero (Nat.ne_of_gt (Nat.zero_lt_of_lt hfuel))
    have hpos : u.length < source.length := by simp [hsource, huv]
    have hdrop : source.drop u.length = c :: (v ++ h :: rest) := by simp [hsource, huv]
    have hedge := edge_none (w := c :: v) (fun d hd => hw d (by rw [huv]; exact List.mem_append_right u hd)) htext
    simp only [Scan.loop, if_pos hpos]
    rw [step_space hdrop (hw c (by simp [huv])) hedge]
    have := ih (u := u ++ [c]) (by simp [huv]) (Nat.lt_of_succ_lt_succ hfuel)
    rwa [List.length_append] at this

end Spaces

end GaHub.Chat.Transcript
