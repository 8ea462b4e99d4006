import GaHub.Archive.Encode
import GaHub.Lib.Rows
import GaHub.Lib.Text

namespace GaHub.Feishu

open Lib Archive

-- What `json.loads` makes of an object: its `event_id`, the id made of its task, type and time, and the rest.
structure Payload where
  eventId : Text
  fallback : Text := []
  body : Text
  deriving DecidableEq

def CHAT_MARKERS : List Text := ["__GA_FRONTEND_EVENT__", "__GAHUB_FEISHU_CHAT__"].map text

def MAXLEN : Nat := 1000

def BLOCK_SIZE : Nat := 64 * 1024

section Lines

-- Where `str.splitlines` ends a line.
def isBreak (c : Nat) : Bool := c ∈ [10, 11, 12, 13, 28, 29, 30, 133, 8232, 8233]

def splitlinesKeep : Text → List Text
  | [] => []
  | 13 :: 10 :: s => [13, 10] :: splitlinesKeep s
  | c :: s =>
    if isBreak c then [c] :: splitlinesKeep s
    else match splitlinesKeep s with
      | [] => [[c]]
      | l :: ls => (c :: l) :: ls

def bare (l : Text) : Text := if [13, 10] <:+ l then l.dropLast.dropLast else body isBreak l

def splitlines (s : Text) : List Text := (splitlinesKeep s).map bare

-- `replace("\r\n", "\n").replace("\r", "\n")`
def newlines : Text → Text
  | [] => []
  | 13 :: 10 :: s => 10 :: newlines s
  | 13 :: s => 10 :: newlines s
  | c :: s => c :: newlines s

def splitCompleteLines (s : Text) : Text × Text :=
  match (splitlinesKeep s).getLast? with
  | none => ([], [])
  | some l => if l.getLast? = some 10 ∨ l.getLast? = some 13 then (s, []) else ((splitlinesKeep s).dropLast.flatten, l)

-- Where the blocks read from the end begin, of which there is one for each step.
def tailStart (n : Nat) (log : Bytes) : Nat → Nat → Nat
  | 0, position => position
  | fuel + 1, position =>
    if 0 < position ∧ (log.drop position).count 10 ≤ n then tailStart n log fuel (position - BLOCK_SIZE) else position

def tailLines (n : Nat) (log : Bytes) : List Text :=
  let lines := splitlinesKeep (newlines (decode (log.drop (tailStart n log log.length log.length))))
  lines.drop (lines.length - n)

end Lines

section Events

variable (loads : Text → Option Payload)

def find (w : Text) : Text → Option Nat
  | [] => none
  | c :: s => if w <+: c :: s then some 0 else (find w s).map (· + 1)

def earlier (line : Text) (best : Option (Nat × Text)) (candidate : Text) : Option (Nat × Text) :=
  match find candidate line, best with
  | none, best => best
  | some i, none => some (i, candidate)
  | some i, some (j, marker) => if i < j then some (i, candidate) else some (j, marker)

def markerAt (line : Text) : Option (Nat × Text) := CHAT_MARKERS.foldl (earlier line) none

def strip (s : Text) : Text := ((s.dropWhile (· ∈ spaceCodes)).reverse.dropWhile (· ∈ spaceCodes)).reverse

def eventOf (line : Text) : Option Payload :=
  match markerAt line with
  | none => none
  | some (i, marker) => loads (strip (line.drop (i + marker.length)))

def identified (p : Payload) : Payload := if p.eventId = [] then { p with eventId := p.fallback } else p

-- The set of ids and the `deque(maxlen=1000)` of them.
structure Memory where
  seen : List Text := []
  order : List Text := []

-- `while len(seen) > maxlen`, each time with the oldest id of the queue.
def evict (seen : List Text) : List Text → Memory
  | [] => ⟨seen, []⟩
  | old :: order => if seen.length > MAXLEN then evict (seen.filter (· ≠ old)) order else ⟨seen, old :: order⟩

-- A full queue lets its oldest id go by itself.
def Memory.remember (m : Memory) (id : Text) : Memory :=
  evict (m.seen ++ [id]) ((if m.order.length = MAXLEN then m.order.tail else m.order) ++ [id])

def accept (m : Memory) : List Payload → Memory × List Payload
  | [] => (m, [])
  | p :: ps =>
    if (identified p).eventId ∈ m.seen then accept m ps
    else
      let rest := accept (m.remember (identified p).eventId) ps
      (rest.1, identified p :: rest.2)

def publishChatEvents (m : Memory) (s : Text) : Memory × List Payload :=
  accept m ((splitlines s).filterMap (eventOf loads))

end Events

section Polls

variable (loads : Text → Option Payload)

structure Cursor where
  offset : Nat
  pending : Text

-- `polled` is how long the log was when the last poll had read it.
structure State where
  log : Bytes := []
  cursor : Option Cursor := none
  memory : Memory := {}
  published : List Payload := []
  polled : Nat := 0

-- `max(1, min(int(n or 300), 5000))`
def lineCount (n : Nat) : Nat := max 1 (min (if n = 0 then 300 else n) 5000)

-- The size is what `fstat` has said, and the log is what is read after that.
def readIncremental (cursor : Option Cursor) (n size : Nat) (log : Bytes) : Cursor × Text :=
  match cursor.filter fun cur => cur.offset ≤ size with
  | none =>
    let (complete, pending) := splitCompleteLines (tailLines (lineCount n) log).flatten
    (⟨size, pending⟩, complete)
  | some cur =>
    let (complete, pending) := splitCompleteLines (cur.pending ++ newlines (decode (log.drop cur.offset)))
    (⟨log.length, pending⟩, complete)

-- Bytes are appended, or a poll reads the log while some are.
inductive Act where
  | append (bytes : Bytes)
  | poll (n : Nat) (during : Bytes)

def step (s : State) : Act → State
  | .append bytes => { s with log := s.log ++ bytes }
  | .poll n during =>
    let log := s.log ++ during
    let (cursor, complete) := readIncremental s.cursor n s.log.length log
    let (memory, payloads) := publishChatEvents loads s.memory complete
    ⟨log, some cursor, memory, s.published ++ payloads, log.length⟩

def run (s : State) (acts : List Act) : State := acts.foldl (step loads) s

end Polls

section Statement

variable (loads : Text → Option Payload)

def isNewline (c : Nat) : Bool := c = 10 || c = 13

def events (t : Text) : List Payload := (rowsFrom isNewline [] t).1.filterMap (eventOf loads)

-- The text that some first bytes of its encoding hold.
def upTo : Nat → Text → Text
  | _, [] => []
  | k, c :: t => if (encodeOne c).length ≤ k then c :: upTo (k - (encodeOne c).length) t else []

structure Written (t : Text) : Prop where
  scalar : ∀ c ∈ t, Scalar c
  ids : ∀ p ∈ events loads t, p.eventId ≠ []
  distinct : ((events loads t).map Payload.eventId).Nodup

-- From the first poll on, what has been published is the events of the lines that have become complete since.
def Mirrored (t : Text) (first s : State) : Prop :=
  s.published = first.published ++ (events loads (upTo s.polled t)).drop (events loads (upTo first.polled t)).length

-- The remembered ids are those of the queue, the most recent ones.
def Remembers (s : State) : Prop :=
  (∀ id, id ∈ s.memory.seen ↔ id ∈ s.memory.order) ∧
    s.memory.order = (s.published.map Payload.eventId).drop (s.published.length - MAXLEN)

-- No line with a marker has a line separator of another kind in it.
def Unbroken (t : Text) : Prop :=
  ∀ r, r ∈ (rowsFrom isNewline [] t).1 ∨ r = (rowsFrom isNewline [] t).2 → (∃ c ∈ r, isBreak c) → markerAt r = none

-- Each poll reads up to the end of a character, and nothing is appended during the first one.
def Orderly (t : Text) : State → List Act → Prop
  | _, [] => True
  | s, .append bytes :: acts => Orderly t (step loads s (.append bytes)) acts
  | s, .poll n during :: acts => (∃ t', t' <+: t ∧ s.log ++ during = encode t') ∧ (s.cursor.isNone → during = []) ∧
      Orderly t (step loads s (.poll n during)) acts

end Statement

section Splitting

variable {s t f p c : Text} {read : Text → Option Payload}

def isLF (c : Nat) : Bool := c = 10

theorem splitlinesKeep_eq (h : 13 ∉ s) : splitlinesKeep s = keep isBreak s := by
  induction s using splitlinesKeep.induct with
  | case1 => rfl
  | case2 s ih => exact absurd List.mem_cons_self h
  | case3 c s hne hbreak ih =>
      rw [splitlinesKeep, if_pos hbreak, keep_end hbreak, ih fun hmem => h (List.mem_cons_of_mem _ hmem)]
      exact hne
  | case4 c s hne hbreak hnil ih =>
      have htail := ih fun hmem => h (List.mem_cons_of_mem _ hmem)
      rw [splitlinesKeep, keep, if_neg hbreak, if_neg hbreak, ← htail, hnil]
      exact hne
  | case5 c s hne hbreak l ls hcons ih =>
      have htail := ih fun hmem => h (List.mem_cons_of_mem _ hmem)
      rw [splitlinesKeep, keep, if_neg hbreak, if_neg hbreak, ← htail, hcons]
      exact hne

theorem bare_eq {l : Text} (h : 13 ∉ l) : bare l = body isBreak l := by
  rw [bare, if_neg fun hsuffix => h (hsuffix.subset List.mem_cons_self)]

theorem splitlines_eq (h : 13 ∉ s) : splitlines s = (keep isBreak s).map (body isBreak) := by
  rw [splitlines, splitlinesKeep_eq h]
  refine List.map_congr_left fun l hl => bare_eq fun hmem => h ?_
  rw [← @flatten_keep _ isBreak s]
  exact List.mem_flatten_of_mem hl hmem

theorem not_mem_newlines (s : Text) : 13 ∉ newlines s := by
  induction s using newlines.induct with
  | case1 => exact List.not_mem_nil
  | case2 s ih => exact fun h => (List.mem_cons.mp h).elim (by decide) ih
  | case3 s hne ih =>
      rw [newlines]
      · exact fun h => (List.mem_cons.mp h).elim (by decide) ih
      · exact hne
  | case4 c s hne hne' ih =>
      rw [newlines]
      · exact fun h => (List.mem_cons.mp h).elim (fun heq => hne' heq.symm) ih
      · exact hne
      · exact hne'

theorem splitComplete_spec (h : 13 ∉ s) : (splitCompleteLines s).1 ++ (splitCompleteLines s).2 = s ∧
    (splitlines (splitCompleteLines s).1 = (rowsFrom isBreak [] s).1 ∧
        (splitCompleteLines s).2 = (rowsFrom isBreak [] s).2 ∨
      ∃ r c, (rowsFrom isBreak [] s).1 = splitlines (splitCompleteLines s).1 ++ [r] ∧
        (splitCompleteLines s).2 = r ++ [c] ∧ isBreak c = true ∧ c ≠ 10) := by
  obtain ⟨lines, hkeep, hrows, hlines⟩ := @keep_rows _ isBreak [] (by rintro _ ⟨⟩) s
  have hfrag := (@rowsFrom_inside _ isBreak [] (by rintro _ ⟨⟩) s).2
  rw [List.nil_append] at hkeep
  have hjoin := @flatten_keep _ isBreak s
  have hsub : ∀ ls ls' : List Text, keep isBreak s = ls ++ ls' → splitlines ls.flatten = ls.map (body isBreak) := by
    intro ls ls' heq
    rw [splitlines_eq, keep_first heq]
    intro hmem
    refine h ?_
    rw [← hjoin, heq, List.flatten_append]
    exact List.mem_append_left _ hmem
  rw [splitCompleteLines, splitlinesKeep_eq h]
  by_cases hempty : (rowsFrom isBreak [] s).2 = []
  · rw [if_pos hempty, List.append_nil] at hkeep
    rw [hkeep]
    cases lines using List.reverseRecOn with
    | nil =>
        rw [hkeep] at hjoin
        obtain rfl : [] = s := hjoin
        exact ⟨rfl, .inl ⟨rfl, rfl⟩⟩
    | append_singleton lines l _ =>
        obtain ⟨r, c, hc, rfl⟩ := hlines l (List.mem_append_right _ (List.mem_singleton_self _))
        rw [List.map_append, List.map_singleton, body_end hc] at hrows
        simp only [List.getLast?_concat, List.dropLast_concat, Option.some.injEq]
        by_cases hlf : c = 10 ∨ c = 13
        · rw [if_pos hlf]
          refine ⟨List.append_nil s, .inl ⟨?_, hempty.symm⟩⟩
          have hall := hsub (lines ++ [r ++ [c]]) [] (by rw [hkeep, List.append_nil])
          rw [← hkeep, hjoin, hkeep, List.map_append, List.map_singleton, body_end hc, hrows] at hall
          exact hall
        · rw [if_neg hlf]
          refine ⟨?_, .inr ⟨r, c, ?_, rfl, hc, fun heq => hlf (.inl heq)⟩⟩
          · rw [hkeep, List.flatten_append, List.flatten_singleton] at hjoin
            exact hjoin
          · rw [hsub lines _ hkeep]
            exact hrows.symm
  · rw [if_neg hempty] at hkeep
    rw [hkeep]
    simp only [List.getLast?_concat, List.dropLast_concat]
    have hlast : ∀ c, isBreak c = true → (rowsFrom isBreak [] s).2.getLast? ≠ some c := by
      intro c hc heq
      have hnot := hfrag c (List.mem_of_getLast? heq)
      rw [hc] at hnot
      cases hnot
    rw [if_neg (not_or.mpr ⟨hlast 10 (by decide), hlast 13 (by decide)⟩)]
    refine ⟨?_, .inl ⟨?_, rfl⟩⟩
    · rw [hkeep, List.flatten_append, List.flatten_singleton] at hjoin
      exact hjoin
    · rw [hsub lines _ hkeep, hrows]

end Splitting

section Chunks

variable {f p x t : Text} {β : Type} {read : Text → Option β}

theorem isBreak_of_isLF {c : Nat} (h : isLF c = true) : isBreak c = true := by
  obtain rfl : c = 10 := of_decide_eq_true h
  rfl

structure Pend (f p : Text) : Prop where
  left : Left isBreak f p
  plain : 13 ∉ p
  inside : ∀ d ∈ f, isLF d = false
  last : (∀ d ∈ p, isBreak d = false) ∨ ∃ r c, p = r ++ [c] ∧ (∀ d ∈ r, isBreak d = false) ∧ isBreak c = true

theorem Pend.nil : Pend [] [] := ⟨⟨List.suffix_refl [], fun _ => rfl⟩, List.not_mem_nil, by rintro _ ⟨⟩, .inl (by rintro _ ⟨⟩)⟩

theorem Pend.rows (h : Pend f p) (hclean : Clean isBreak read (rowsFrom isLF f x)) :
    (rowsFrom isBreak [] (p ++ x)).1.filterMap read = (rowsFrom isLF f x).1.filterMap read ∧
      Left isBreak (rowsFrom isLF f x).2 (rowsFrom isBreak [] (p ++ x)).2 := by
  rcases h.last with hfree | ⟨r, c, rfl, hfree, hc⟩
  · rw [rowsFrom_frag hfree, List.nil_append]
    exact rowsFrom_finer (fun _ => isBreak_of_isLF) h.left hclean
  · -- the line that waited is within one that has nothing to read in it
    rw [List.append_assoc, rowsFrom_frag hfree, List.nil_append, List.singleton_append, rowsFrom_end hc]
    have hmem : c ∈ f := h.left.1.subset (by simp)
    have hempty : Left isBreak f [] := ⟨List.nil_suffix, fun hall => by
      rw [hall c hmem] at hc
      cases hc⟩
    obtain ⟨hrows, hleft⟩ := rowsFrom_finer (fun _ => isBreak_of_isLF) hempty hclean
    obtain ⟨y, hy⟩ := @rowsFrom_first _ isLF f x
    have hnone : read r = none := by
      refine hclean _ hy ⟨c, List.mem_append_left y hmem, hc⟩ r ?_
      have hr : r <:+: f := (List.prefix_append r [c]).isInfix.trans h.left.1.isInfix
      exact hr.trans (List.prefix_append f y).isInfix
    refine ⟨?_, hleft⟩
    simp only [List.filterMap_cons, hnone, hrows]

theorem Pend.chunk (h : Pend f p) (hx : 13 ∉ x) (hclean : Clean isBreak read (rowsFrom isLF f x)) :
    (splitlines (splitCompleteLines (p ++ x)).1).filterMap read = (rowsFrom isLF f x).1.filterMap read ∧
      Pend (rowsFrom isLF f x).2 (splitCompleteLines (p ++ x)).2 := by
  have hplain : 13 ∉ p ++ x := by
    rw [List.mem_append]
    exact not_or.mpr ⟨h.plain, hx⟩
  obtain ⟨hrows, hleft⟩ := h.rows hclean
  obtain ⟨hjoin, hsplit⟩ := splitComplete_spec hplain
  have hbreaks := @rowsFrom_inside _ isBreak [] (by rintro _ ⟨⟩) (p ++ x)
  have hinside := (@rowsFrom_inside _ isLF f h.inside x).2
  have hkept : 13 ∉ (splitCompleteLines (p ++ x)).2 := fun hmem =>
    hplain (hjoin ▸ List.mem_append_right _ hmem)
  rcases hsplit with ⟨hlines, hpend⟩ | ⟨r, c, hlines, hpend, hc, hne⟩
  · rw [hlines, hpend]
    exact ⟨hrows, hleft, hpend ▸ hkept, hinside, .inl hbreaks.2⟩
  · -- the last line ends in another separator, and is within the row that is not complete
    have hr : ∀ d ∈ r, isBreak d = false := hbreaks.1 r (by rw [hlines]; simp)
    have hsuffix : r ++ [c] <:+ (rowsFrom isLF f x).2 := by
      obtain ⟨z, rfl⟩ := h.left.1
      have hlf : ∀ d ∈ r ++ [c], isLF d = false := by
        intro d hd
        refine Bool.eq_false_iff.mpr fun hd10 => ?_
        rcases List.mem_append.mp hd with hd | hd
        · have hnot := hr d hd
          rw [isBreak_of_isLF hd10] at hnot
          cases hnot
        · obtain rfl := List.mem_singleton.mp hd
          exact hne (of_decide_eq_true hd10)
      have hwhole : rowsFrom isLF (z ++ p) x =
          rowsFrom isLF [] ((z ++ (splitCompleteLines (p ++ x)).1) ++ ((r ++ [c]) ++ [])) := by
        rw [List.append_nil, List.append_assoc, ← hpend, hjoin, ← List.append_assoc, rowsFrom_frag h.inside,
          List.nil_append]
      rw [hwhole, rowsFrom_append, rowsFrom_frag hlf]
      exact List.suffix_append _ _
    have hmem : c ∈ (rowsFrom isLF f x).2 := hsuffix.subset (by simp)
    have hnone : read r = none := by
      refine hclean _ (.inr rfl) ⟨c, hmem, hc⟩ r ?_
      exact (List.prefix_append r [c]).isInfix.trans hsuffix.isInfix
    rw [hlines, List.filterMap_append, List.filterMap_cons, hnone, List.filterMap_nil, List.append_nil] at hrows
    refine ⟨hrows, ⟨hpend ▸ hsuffix, fun hall => ?_⟩, hkept, hinside, .inr ⟨r, c, hpend, hr, hc⟩⟩
    rw [hall c hmem] at hc
    cases hc

theorem rowsFrom_newlines (hread : read [] = none) (f x : Text) :
    (rowsFrom isLF f (newlines x)).1.filterMap read = (rowsFrom isNewline f x).1.filterMap read ∧
      (∀ r ∈ (rowsFrom isLF f (newlines x)).1, r ∈ (rowsFrom isNewline f x).1) ∧
      (rowsFrom isLF f (newlines x)).2 = (rowsFrom isNewline f x).2 := by
  induction x using newlines.induct generalizing f with
  | case1 => exact ⟨rfl, fun _ => id, rfl⟩
  | case2 s ih =>
      obtain ⟨hrows, hsub, hlast⟩ := ih []
      rw [newlines, rowsFrom_end (show isLF 10 = true from rfl), rowsFrom_end (show isNewline 13 = true from rfl),
        rowsFrom_end (show isNewline 10 = true from rfl)]
      refine ⟨?_, List.forall_mem_cons.mpr ⟨List.mem_cons_self, fun r hr => ?_⟩, hlast⟩
      · simp only [List.filterMap_cons, hread, hrows]
      · exact List.mem_cons_of_mem _ (List.mem_cons_of_mem _ (hsub r hr))
  | case3 s hne ih =>
      obtain ⟨hrows, hsub, hlast⟩ := ih []
      rw [newlines, rowsFrom_end (show isLF 10 = true from rfl), rowsFrom_end (show isNewline 13 = true from rfl)]
      · refine ⟨?_, List.forall_mem_cons.mpr ⟨List.mem_cons_self, fun r hr => List.mem_cons_of_mem _ (hsub r hr)⟩, hlast⟩
        simp only [List.filterMap_cons, hrows]
      · exact hne
  | case4 c s hne hne' ih =>
      rw [newlines]
      · by_cases hlf : c = 10
        · subst hlf
          obtain ⟨hrows, hsub, hlast⟩ := ih []
          rw [rowsFrom_end (show isLF 10 = true from rfl), rowsFrom_end (show isNewline 10 = true from rfl)]
          refine ⟨?_, List.forall_mem_cons.mpr ⟨List.mem_cons_self, fun r hr => List.mem_cons_of_mem _ (hsub r hr)⟩,
            hlast⟩
          simp only [List.filterMap_cons, hrows]
        · have hnot : isLF c = false := decide_eq_false hlf
          have hnot' : isNewline c = false := by
            simp only [isNewline, Bool.or_eq_false_iff, decide_eq_false_iff_not]
            exact ⟨hlf, hne'⟩
          rw [rowsFrom_other hnot, rowsFrom_other hnot']
          exact ih _
      · exact hne
      · exact hne'

theorem Pend.next (h : Pend f p) (hread : read [] = none) (hclean : Clean isBreak read (rowsFrom isNewline f x)) :
    (splitlines (splitCompleteLines (p ++ newlines x)).1).filterMap read = (rowsFrom isNewline f x).1.filterMap read ∧
      Pend (rowsFrom isNewline f x).2 (splitCompleteLines (p ++ newlines x)).2 := by
  obtain ⟨hrows, hsub, hlast⟩ := rowsFrom_newlines hread f x
  have hclean' : Clean isBreak read (rowsFrom isLF f (newlines x)) := fun r hr =>
    hclean r (hr.imp (hsub r) fun heq => heq.trans hlast)
  obtain ⟨hread', hpend⟩ := h.chunk (not_mem_newlines x) hclean'
  exact ⟨hread'.trans hrows, hlast ▸ hpend⟩

end Chunks

section Tail

variable {n : Nat} {log : Bytes} {t p q : Text}

theorem tailStart_spec (fuel position : Nat) (hfuel : position ≤ fuel) :
    tailStart n log fuel position = 0 ∨ n < (log.drop (tailStart n log fuel position)).count 10 := by
  induction fuel generalizing position with
  | zero => exact .inl (Nat.le_zero.mp hfuel)
  | succ fuel ih =>
      rw [tailStart]
      split
      · refine ih _ ?_
        have hblock : 0 < BLOCK_SIZE := by decide
        omega
      · rename_i hstop
        rcases Nat.eq_zero_or_pos position with hzero | hpos
        · exact .inl hzero
        · exact .inr (Nat.lt_of_not_le fun hle => hstop ⟨hpos, hle⟩)

theorem newlines_append (p q : Text) : newlines (p ++ q) = newlines p ++ newlines q ∨
    ∃ q' y, q = 10 :: q' ∧ newlines (p ++ q) = newlines p ++ newlines q' ∧ newlines p = y ++ [10] := by
  induction p using newlines.induct with
  | case1 => exact .inl rfl
  | case2 s ih =>
      simp only [List.cons_append, newlines]
      rcases ih with heq | ⟨q', y, hq, heq, hy⟩
      · exact .inl (by rw [heq])
      · exact .inr ⟨q', 10 :: y, hq, by rw [heq], by rw [hy]; rfl⟩
  | case3 s hne ih =>
      have hhere : newlines (13 :: s) = 10 :: newlines s := by
        rw [newlines]
        exact hne
      rw [List.cons_append, hhere]
      cases s with
      | nil =>
          cases q with
          | nil => exact .inl rfl
          | cons d q =>
              by_cases hd : d = 10
              · subst hd
                exact .inr ⟨q, [], rfl, rfl, rfl⟩
              · have hthere : newlines (13 :: d :: q) = 10 :: newlines (d :: q) := by
                  rw [newlines]
                  exact fun s heq => hd (List.cons.inj heq).1
                exact .inl hthere
      | cons d s =>
          have hthere : newlines (13 :: (d :: s ++ q)) = 10 :: newlines (d :: s ++ q) := by
            rw [newlines]
            rintro s' heq
            exact hne s (by rw [(List.cons.inj heq).1])
          rw [hthere]
          rcases ih with heq | ⟨q', y, hq, heq, hy⟩
          · exact .inl (by rw [heq]; rfl)
          · exact .inr ⟨q', 10 :: y, hq, by rw [heq]; rfl, by rw [hy]; rfl⟩
  | case4 c s hne hne' ih =>
      have hcons : ∀ s, newlines (c :: s) = c :: newlines s := fun s => by
        rw [newlines]
        · exact fun _ heq => absurd heq hne'
        · exact hne'
      rw [List.cons_append, hcons, hcons]
      rcases ih with heq | ⟨q', y, hq, heq, hy⟩
      · exact .inl (by rw [heq]; rfl)
      · exact .inr ⟨q', c :: y, hq, by rw [heq]; rfl, by rw [hy]; rfl⟩

theorem newlines_replaced (m : Nat) (q : Text) :
    newlines (List.replicate m 0xFFFD ++ q) = List.replicate m 0xFFFD ++ newlines q := by
  induction m with
  | zero => rfl
  | succ m ih =>
      rw [List.replicate_succ, List.cons_append, List.cons_append, ← ih, newlines]
      · exact fun _ heq => absurd heq (by decide)
      · decide

theorem count_newlines (q : Text) : q.count 10 ≤ (newlines q).count 10 := by
  induction q using newlines.induct with
  | case1 => exact Nat.le_refl _
  | case2 s ih =>
      simp only [newlines, List.count_cons]
      simp only [beq_self_eq_true, if_true]
      have hne : ¬((13 : Nat) == 10) = true := by decide
      rw [if_neg hne]
      omega
  | case3 s hne ih =>
      rw [newlines]
      · rw [List.count_cons, List.count_cons, if_neg (show ¬((13 : Nat) == 10) = true by decide)]
        omega
      · exact hne
  | case4 c s hne hne' ih =>
      rw [newlines]
      · rw [List.count_cons, List.count_cons]
        omega
      · exact hne
      · exact hne'

theorem tailLines_spec (ht : ∀ c ∈ t, Scalar c) (hn : 1 ≤ n) :
    tailLines n (encode t) = (keep isBreak (newlines t)).drop ((keep isBreak (newlines t)).length - n) := by
  have hplain : ∀ m q, 13 ∉ newlines (List.replicate m 0xFFFD ++ q) := fun m q => not_mem_newlines _
  obtain ⟨p, q, m, rfl, hdecode, hcount⟩ := decode_drop ht (tailStart n (encode t) (encode t).length (encode t).length)
  rw [tailLines, hdecode, splitlinesKeep_eq (hplain m q), newlines_replaced]
  rcases tailStart_spec (encode (p ++ q)).length (encode (p ++ q)).length (Nat.le_refl _) with hzero | hmany
  · rw [hzero, List.drop_zero, decode_encode ht] at hdecode
    rw [hdecode, newlines_replaced]
  · rw [hcount] at hmany
    have hlong := Nat.lt_of_lt_of_le hmany (Nat.le_trans (count_newlines q)
      (count_le_keep (show isBreak 10 = true from rfl) (newlines q)))
    cases hkeep : keep isBreak (newlines q) with
    | nil =>
        rw [hkeep] at hlong
        exact absurd hlong (Nat.not_lt_zero _)
    | cons l rest =>
        rw [hkeep, List.length_cons] at hlong
        obtain ⟨hjoin, hrest, hend, -⟩ := keep_cons hkeep
        obtain ⟨r, c, rfl, hc, -⟩ := hend fun hnil => by
          rw [hnil, List.length_nil] at hlong
          omega
        have hjunk : ∀ d ∈ List.replicate m 0xFFFD, isBreak d = false := fun d hd => List.eq_of_mem_replicate hd ▸ rfl
        rw [keep_front hjunk hkeep]
        -- whatever is before, the last lines are these
        obtain ⟨y, d, hd, hwhole⟩ : ∃ y d, isBreak d = true ∧ newlines (p ++ q) = y ++ d :: rest.flatten := by
          rcases newlines_append p q with heq | ⟨q', y, rfl, heq, hy⟩
          · exact ⟨newlines p ++ r, c, hc, by rw [heq, hjoin]; simp⟩
          · have hten : newlines (10 :: q') = 10 :: newlines q' := by
              rw [newlines]
              · exact fun _ h => absurd h (by decide)
              · decide
            rw [hten, keep_end (show isBreak 10 = true from rfl)] at hkeep
            refine ⟨y, 10, rfl, ?_⟩
            rw [heq, hy, ← (List.cons.inj hkeep).2, flatten_keep, List.append_assoc]
            rfl
        rw [hwhole, keep_append hd, hrest, List.length_append, List.length_cons, List.drop_append]
        have hpast : (keep isBreak (y ++ [d])).length ≤ (keep isBreak (y ++ [d])).length + rest.length - n := by omega
        rw [List.drop_eq_nil_of_le hpast, List.nil_append]
        have hleft : rest.length + 1 - n = (rest.length - n) + 1 := by omega
        have hright : (keep isBreak (y ++ [d])).length + rest.length - n - (keep isBreak (y ++ [d])).length =
            rest.length - n := by omega
        rw [hleft, hright, List.drop_succ_cons]

theorem splitComplete_suffix {before ls : List Text} (h : keep isBreak (newlines t) = before ++ ls)
    (hne : ls = [] → before = []) :
    (splitCompleteLines ls.flatten).2 = (splitCompleteLines (newlines t)).2 ∧
      splitlines (splitCompleteLines ls.flatten).1 <:+ splitlines (splitCompleteLines (newlines t)).1 := by
  have hself := keep_suffix h
  have hplain := not_mem_newlines t
  have hmem : ∀ l ∈ before ++ ls, 13 ∉ l := by
    intro l hl hin
    refine hplain ?_
    rw [← @flatten_keep _ isBreak (newlines t), h]
    exact List.mem_flatten_of_mem hl hin
  have hflat : ∀ ls' : List Text, (∀ l ∈ ls', l ∈ before ++ ls) → 13 ∉ ls'.flatten := by
    intro ls' hsub hin
    obtain ⟨l, hl, hin⟩ := List.mem_flatten.mp hin
    exact hmem l (hsub l hl) hin
  rw [splitCompleteLines, splitCompleteLines, splitlinesKeep_eq hplain, h,
    splitlinesKeep_eq (hflat ls fun l hl => List.mem_append_right _ hl), hself]
  cases ls using List.reverseRecOn with
  | nil =>
      rw [hne rfl]
      exact ⟨rfl, List.suffix_refl _⟩
  | append_singleton ls l _ =>
      rw [← List.append_assoc, List.getLast?_concat, List.getLast?_concat, List.dropLast_concat, List.dropLast_concat]
      simp only
      split
      · refine ⟨rfl, ?_⟩
        rw [splitlines_eq hplain, splitlines_eq (hflat _ fun l hl => List.mem_append_right _ hl), h, hself]
        simp only [List.map_append]
        exact List.suffix_append _ _
      · have hfirst := keep_first (h.trans (List.append_assoc before ls [l]).symm)
        refine ⟨rfl, ?_⟩
        rw [splitlines_eq (hflat ls fun l hl => List.mem_append_right _ (List.mem_append_left _ hl)),
          splitlines_eq (hflat (before ++ ls) fun l' hl => ?_), keep_first hself, hfirst, List.map_append]
        · exact List.suffix_append _ _
        · rw [← List.append_assoc]
          exact List.mem_append_left _ hl

end Tail

section Memory

variable {m : Memory} {ids seen order : List Text} {id : Text}

-- Up to the length of the queue all ids are remembered. Then the oldest one stays in the set for good, while the queue
-- lets it go and one more.
def Remembered (m : Memory) (ids : List Text) : Prop :=
  ids.length ≤ MAXLEN ∧ m.seen = ids ∧ m.order = ids ∨
    ∃ x y rest, ids = x :: y ++ rest ∧ y ≠ [] ∧ rest.length + 1 = MAXLEN ∧ m.seen = x :: rest ∧ m.order = rest

theorem evict_of_le (h : seen.length ≤ MAXLEN) (order : List Text) : evict seen order = ⟨seen, order⟩ := by
  cases order with
  | nil => rfl
  | cons old order => rw [evict, if_neg (Nat.not_lt_of_le h)]

theorem evict_one {x y : Text} {rest : List Text} (hlen : rest.length + 1 = MAXLEN) (hnodup : (x :: y :: rest).Nodup) :
    evict (x :: y :: rest) (y :: rest) = ⟨x :: rest, rest⟩ := by
  have hyx : x ≠ y := fun heq => (List.nodup_cons.mp hnodup).1 (heq ▸ List.mem_cons_self)
  have hy : y ∉ rest := (List.nodup_cons.mp (List.nodup_cons.mp hnodup).2).1
  have hfilter : (x :: y :: rest).filter (· ≠ y) = x :: rest := by
    rw [List.filter_cons, List.filter_cons, if_pos (decide_eq_true hyx), if_neg (by simp)]
    exact congrArg (x :: ·) (List.filter_eq_self.mpr fun a ha => decide_eq_true fun heq => hy (heq ▸ ha))
  rw [evict, if_pos (by simp only [List.length_cons]; omega), hfilter]
  exact evict_of_le (by rw [List.length_cons]; omega) rest

theorem Remembered.next (h : Remembered m ids) (hnodup : (ids ++ [id]).Nodup) :
    Remembered (m.remember id) (ids ++ [id]) := by
  obtain ⟨seen, order⟩ := m
  rcases h with ⟨hle, hseen, horder⟩ | ⟨x, y, rest, rfl, hy, hlen, hseen, horder⟩
  · obtain rfl : seen = ids := hseen
    obtain rfl : order = seen := horder
    rw [Memory.remember]
    rcases Nat.lt_or_eq_of_le hle with hlt | heq
    · refine .inl ⟨by rw [List.length_append]; exact hlt, ?_⟩
      rw [if_neg (Nat.ne_of_lt hlt), evict_of_le (by rw [List.length_append]; exact hlt)]
      exact ⟨rfl, rfl⟩
    · -- the queue is full for the first time
      rw [if_pos heq]
      match order, heq with
      | x :: z :: rest, heq =>
          have hlen : (rest ++ [id]).length + 1 = MAXLEN := by
            rw [List.length_append, List.length_singleton]
            exact heq
          have hone := evict_one hlen hnodup
          refine .inr ⟨x, [z], rest ++ [id], rfl, List.cons_ne_nil _ _, hlen, ?_⟩
          exact ⟨congrArg Memory.seen hone, congrArg Memory.order hone⟩
  · obtain rfl : seen = x :: rest := hseen
    obtain rfl : order = rest := horder
    match order, hlen with
    | z :: rest, hlen =>
        have hlen' : (rest ++ [id]).length + 1 = MAXLEN := by
          rw [List.length_append, List.length_singleton]
          exact hlen
        have hnodup' : (x :: z :: (rest ++ [id])).Nodup := by
          refine hnodup.sublist ?_
          rw [List.cons_append, List.cons_append, List.append_assoc]
          exact List.Sublist.cons_cons x (List.sublist_append_right y _)
        have hone := evict_one hlen' hnodup'
        have hshort : (z :: rest).length ≠ MAXLEN := by omega
        refine .inr ⟨x, y ++ [z], rest ++ [id], by simp, by simp, hlen', ?_⟩
        rw [Memory.remember, if_neg hshort]
        exact ⟨congrArg Memory.seen hone, congrArg Memory.order hone⟩

theorem Remembered.subset (h : Remembered m ids) : m.seen ⊆ ids := by
  rcases h with ⟨-, hseen, -⟩ | ⟨x, y, rest, rfl, -, -, hseen, -⟩
  · rw [hseen]
    exact fun _ => id
  · rw [hseen]
    intro a ha
    rcases List.mem_cons.mp ha with rfl | ha
    · exact List.mem_cons_self
    · exact List.mem_append_right _ ha

theorem accept_spec (h : Remembered m ids) {ps : List Payload} (hids : ∀ p ∈ ps, p.eventId ≠ [])
    (hnodup : (ids ++ ps.map Payload.eventId).Nodup) :
    (accept m ps).2 = ps ∧ Remembered (accept m ps).1 (ids ++ ps.map Payload.eventId) := by
  induction ps generalizing m ids with
  | nil => exact ⟨rfl, by rw [List.map_nil, List.append_nil]; exact h⟩
  | cons p ps ih =>
      have hsame : identified p = p := if_neg (hids p List.mem_cons_self)
      rw [List.map_cons, List.append_cons] at hnodup
      have hnext := (List.nodup_append.mp hnodup).1
      have hnew : p.eventId ∉ m.seen := fun hmem =>
        (List.nodup_append.mp hnext).2.2 _ (h.subset hmem) _ (List.mem_singleton_self _) rfl
      obtain ⟨hout, hmemory⟩ := ih (h.next hnext) (fun q hq => hids q (List.mem_cons_of_mem _ hq)) hnodup
      rw [accept, hsame, if_neg hnew]
      refine ⟨congrArg (p :: ·) hout, ?_⟩
      rw [List.map_cons, List.append_cons]
      exact hmemory

theorem remembers_iff {s : State} (h : Remembered s.memory (s.published.map Payload.eventId))
    (hnodup : (s.published.map Payload.eventId).Nodup) : Remembers s ↔ s.published.length ≤ MAXLEN := by
  rcases h with ⟨hle, hseen, horder⟩ | ⟨x, y, rest, hids, hy, hlen, hseen, horder⟩
  · rw [List.length_map] at hle
    refine ⟨fun _ => hle, fun _ => ⟨fun id => by rw [hseen, horder], ?_⟩⟩
    rw [horder, Nat.sub_eq_zero_of_le hle, List.drop_zero]
  · have hlong : MAXLEN < s.published.length := by
      rw [← List.length_map, hids, List.length_append, List.length_cons]
      have hpos := List.length_pos_iff.mpr hy
      omega
    refine ⟨fun hremembers => ?_, fun hle => absurd hlong (Nat.not_lt_of_le hle)⟩
    have hmem := (hremembers.1 x).mp (by rw [hseen]; exact List.mem_cons_self)
    rw [horder] at hmem
    rw [hids, List.cons_append] at hnodup
    exact absurd (List.mem_append_right y hmem) (List.nodup_cons.mp hnodup).1

end Memory

section Runs

variable {loads : Text → Option Payload} {s : State} {t t' : Text} {act : Act}

theorem find_eq_none {w : Text} (hw : w ≠ []) (line : Text) : find w line = none ↔ ¬w <:+: line := by
  induction line with
  | nil => exact ⟨fun _ hin => hw (List.infix_nil.mp hin), fun _ => rfl⟩
  | cons c line ih =>
      rw [find, List.infix_cons_iff, not_or]
      split
      · rename_i hfront
        exact ⟨fun h => absurd h (by simp), fun h => absurd hfront h.1⟩
      · rename_i hfront
        rw [Option.map_eq_none_iff, ih]
        exact ⟨fun h => ⟨hfront, h⟩, fun h => h.2⟩

theorem markerAt_eq_none (line : Text) : markerAt line = none ↔ ∀ w ∈ CHAT_MARKERS, ¬w <:+: line := by
  have hne : ∀ w ∈ CHAT_MARKERS, w ≠ [] := by decide
  simp only [markerAt]
  generalize CHAT_MARKERS = markers at hne
  have hgrow : ∀ (l : List Text) (best : Nat × Text), l.foldl (earlier line) (some best) ≠ none := by
    intro l
    induction l with
    | nil => exact fun _ h => by cases h
    | cons w l ih =>
        intro best
        rw [List.foldl_cons]
        unfold earlier
        split
        · exact ih best
        · rename_i hbest
          cases hbest
        · split
          · exact ih _
          · exact ih _
  induction markers with
  | nil => exact ⟨fun _ => by rintro _ ⟨⟩, fun _ => rfl⟩
  | cons w markers ih =>
      have hrest : ∀ v ∈ markers, v ≠ [] := fun v hv => hne v (List.mem_cons_of_mem _ hv)
      rw [List.foldl_cons, List.forall_mem_cons, ← find_eq_none (hne w List.mem_cons_self)]
      cases h : find w line with
      | none =>
          have hsame : earlier line none w = none := by simp only [earlier, h]
          have hmarkers := ih hrest
          rw [hsame]
          exact ⟨fun hnone => ⟨rfl, hmarkers.mp hnone⟩, fun hall => hmarkers.mpr hall.2⟩
      | some i =>
          have hsome : earlier line none w = some (i, w) := by simp only [earlier, h]
          rw [hsome]
          exact ⟨fun hnone => absurd hnone (hgrow markers _), fun hall => by cases hall.1⟩

theorem eventOf_nil : eventOf loads [] = none := rfl

theorem clean_of_unbroken (h : Unbroken t) : Clean isBreak (eventOf loads) (rowsFrom isNewline [] t) := by
  intro r hr hbreak g hg
  have hnone := h r hr hbreak
  have hpart : markerAt g = none := (markerAt_eq_none g).mpr fun w hw hin =>
    (markerAt_eq_none r).mp hnone w hw (hin.trans hg)
  rw [eventOf, hpart]

def frag (t : Text) : Text := (rowsFrom isNewline [] t).2

theorem events_append (t x : Text) :
    events loads (t ++ x) = events loads t ++ (rowsFrom isNewline (frag t) x).1.filterMap (eventOf loads) := by
  rw [events, rowsFrom_append, List.filterMap_append]
  rfl

theorem events_front (h : t <+: t') : events loads t <+: events loads t' := by
  obtain ⟨x, rfl⟩ := h
  rw [events_append]
  exact List.prefix_append _ _

theorem upTo_encode (h : t <+: t') : upTo (encode t).length t' = t := by
  obtain ⟨w, rfl⟩ := h
  induction t with
  | nil =>
      cases w with
      | nil => rfl
      | cons c w =>
          have hpos := List.length_pos_iff.mpr (encodeOne_ne_nil c)
          rw [List.nil_append, upTo, if_neg (show ¬(encodeOne c).length ≤ (encode []).length from Nat.not_le_of_lt hpos)]
  | cons c t ih =>
      have hlen : (encode (c :: t)).length = (encodeOne c).length + (encode t).length := List.length_append
      rw [List.cons_append, upTo, hlen, if_pos (Nat.le_add_right _ _), Nat.add_sub_cancel_left, ih]

structure Read (loads : Text → Option Payload) (T : Text) (s : State) (t : Text) : Prop where
  below : t <+: T
  log : encode t <+: s.log
  polled : s.polled = (encode t).length
  cursor : ∃ pending, s.cursor = some ⟨(encode t).length, pending⟩ ∧ Pend (frag t) pending
  published : s.published <:+ events loads t
  memory : Remembered s.memory (s.published.map Payload.eventId)

theorem Written.nodup {T : Text} (h : Written loads T) (hbelow : t <+: T) {ps : List Payload}
    (hps : ps <:+ events loads t) : (ps.map Payload.eventId).Nodup :=
  h.distinct.sublist ((hps.sublist.trans (events_front hbelow).sublist).map _)

theorem Read.poll {T : Text} {n : Nat} {during : Bytes} (hwritten : Written loads T) (hunbroken : Unbroken T)
    (h : Read loads T s t) (hbelow : t' <+: T) (hlog : s.log ++ during = encode t') :
    t <+: t' ∧ Read loads T (step loads s (.poll n during)) t' ∧ (step loads s (.poll n during)).published =
      s.published ++ (events loads t').drop (events loads t).length := by
  have hbytes : encode t <+: encode t' := hlog ▸ h.log.trans (List.prefix_append _ _)
  have hfront : t <+: t' := by
    rcases List.prefix_or_prefix_of_prefix h.below hbelow with hle | hle
    · exact hle
    · obtain ⟨w, rfl⟩ := hle
      cases w with
      | nil => rw [List.append_nil]
      | cons c w =>
          have hlen := hbytes.length_le
          have hpos := List.length_pos_iff.mpr (encodeOne_ne_nil c)
          have hcons : encode (c :: w) = encodeOne c ++ encode w := rfl
          rw [encode_append, hcons, List.length_append, List.length_append] at hlen
          omega
  obtain ⟨x, rfl⟩ := hfront
  obtain ⟨pending, hcursor, hpend⟩ := h.cursor
  obtain ⟨w, hw⟩ := hbelow
  have hscalar : ∀ c ∈ x, Scalar c := fun c hc => hwritten.scalar c (by rw [← hw]; simp [hc])
  have hclean : Clean isBreak (eventOf loads) (rowsFrom isNewline (frag t) x) := by
    have hwhole := @clean_of_unbroken loads _ hunbroken
    rw [← hw] at hwhole
    exact hwhole.front.append
  obtain ⟨hread, hnext⟩ := hpend.next eventOf_nil hclean
  have hsize : (encode t).length ≤ s.log.length := h.log.length_le
  have hchunk : decode ((s.log ++ during).drop (encode t).length) = x := by
    rw [hlog, encode_append, List.drop_left, decode_encode hscalar]
  have hreads : readIncremental s.cursor n s.log.length (s.log ++ during) =
      (⟨(s.log ++ during).length, (splitCompleteLines (pending ++ newlines x)).2⟩,
        (splitCompleteLines (pending ++ newlines x)).1) := by
    simp only [readIncremental, hcursor, Option.filter_some, decide_eq_true hsize, if_true, hchunk]
  have hnew : (events loads (t ++ x)).drop (events loads t).length =
      (rowsFrom isNewline (frag t) x).1.filterMap (eventOf loads) := by
    rw [events_append, List.drop_left]
  have hids : ∀ p ∈ (rowsFrom isNewline (frag t) x).1.filterMap (eventOf loads), p.eventId ≠ [] := by
    intro p hp
    refine hwritten.ids p ((events_front ⟨w, hw⟩).subset ?_)
    rw [events_append]
    exact List.mem_append_right _ hp
  have hsuffix : s.published ++ (rowsFrom isNewline (frag t) x).1.filterMap (eventOf loads) <:+
      events loads (t ++ x) := by
    obtain ⟨z, hz⟩ := h.published
    rw [events_append, ← hz, List.append_assoc]
    exact List.suffix_append _ _
  have hnodup := hwritten.nodup ⟨w, hw⟩ hsuffix
  rw [List.map_append] at hnodup
  obtain ⟨hout, hmemory⟩ := accept_spec h.memory hids hnodup
  have hstep : step loads s (.poll n during) = ⟨s.log ++ during,
      some ⟨(s.log ++ during).length, (splitCompleteLines (pending ++ newlines x)).2⟩,
      (accept s.memory ((rowsFrom isNewline (frag t) x).1.filterMap (eventOf loads))).1,
      s.published ++ (rowsFrom isNewline (frag t) x).1.filterMap (eventOf loads), (s.log ++ during).length⟩ := by
    simp only [step, hreads, publishChatEvents, hread, hout]
  rw [hstep, hnew]
  refine ⟨List.prefix_append t x, ⟨⟨w, hw⟩, hlog ▸ List.prefix_refl _, congrArg List.length hlog,
    ⟨(splitCompleteLines (pending ++ newlines x)).2, ?_, ?_⟩, hsuffix, ?_⟩, rfl⟩
  · rw [hlog]
  · have hfrag : frag (t ++ x) = (rowsFrom isNewline (frag t) x).2 := by rw [frag, rowsFrom_append]; rfl
    rw [hfrag]
    exact hnext
  · show Remembered _ ((s.published ++ _).map Payload.eventId)
    rw [List.map_append]
    exact hmemory

theorem read_first {T : Text} {n : Nat} (hwritten : Written loads T) (hunbroken : Unbroken T)
    (hcursor : s.cursor = none) (hmemory : s.memory = {}) (hpublished : s.published = []) (hbelow : t <+: T)
    (hlog : s.log = encode t) : Read loads T (step loads s (.poll n [])) t := by
  have hscalar : ∀ c ∈ t, Scalar c := fun c hc => hwritten.scalar c (hbelow.subset hc)
  have hcount : 1 ≤ lineCount n := Nat.le_max_left _ _
  obtain ⟨w, hw⟩ := hbelow
  have hclean : Clean isBreak (eventOf loads) (rowsFrom isNewline [] t) := by
    have hwhole := @clean_of_unbroken loads _ hunbroken
    rw [← hw] at hwhole
    exact hwhole.front
  obtain ⟨hread, hpend⟩ := Pend.nil.next eventOf_nil hclean
  rw [List.nil_append] at hread hpend
  have htail := tailLines_spec hscalar hcount
  obtain ⟨hpending, hlines⟩ := splitComplete_suffix
    (List.take_append_drop ((keep isBreak (newlines t)).length - lineCount n) (keep isBreak (newlines t))).symm (by
      intro hnil
      have hlen := congrArg List.length hnil
      rw [List.length_drop, List.length_nil] at hlen
      rw [List.take_eq_nil_iff]
      omega)
  rw [← htail] at hpending hlines
  have hsuffix : (splitlines (splitCompleteLines (tailLines (lineCount n) (encode t)).flatten).1).filterMap
      (eventOf loads) <:+ events loads t := by
    rw [events, ← hread]
    exact hlines.filterMap _
  generalize hps : (splitlines (splitCompleteLines (tailLines (lineCount n) (encode t)).flatten).1).filterMap
    (eventOf loads) = ps at hsuffix
  have hids : ∀ p ∈ ps, p.eventId ≠ [] := fun p hp =>
    hwritten.ids p ((events_front ⟨w, hw⟩).subset (hsuffix.subset hp))
  have hnodup := hwritten.nodup ⟨w, hw⟩ hsuffix
  have hstart : Remembered ({} : Memory) [] := .inl ⟨Nat.zero_le _, rfl, rfl⟩
  obtain ⟨hout, hnext⟩ := accept_spec hstart hids hnodup
  have hstep : step loads s (.poll n []) = ⟨encode t, some ⟨(encode t).length, (splitCompleteLines (newlines t)).2⟩,
      (accept {} ps).1, ps, (encode t).length⟩ := by
    simp only [step, readIncremental, hcursor, Option.filter_none, hlog, List.append_nil, hmemory, hpublished,
      publishChatEvents, hps, hout, hpending, List.nil_append]
  rw [hstep]
  exact ⟨⟨w, hw⟩, List.prefix_refl _, rfl, ⟨_, rfl, hpend⟩, hsuffix, hnext⟩

theorem Read.append {T : Text} (bytes : Bytes) (h : Read loads T s t) :
    Read loads T (step loads s (.append bytes)) t where
  below := h.below
  log := h.log.trans (List.prefix_append _ _)
  polled := h.polled
  cursor := h.cursor
  published := h.published
  memory := h.memory

theorem Read.run {T : Text} {acts : List Act} (hwritten : Written loads T) (hunbroken : Unbroken T)
    (h : Read loads T s t) (horderly : Orderly loads T s acts) : ∃ t', t <+: t' ∧ Read loads T (run loads s acts) t' ∧
      (run loads s acts).published = s.published ++ (events loads t').drop (events loads t).length := by
  induction acts generalizing s t with
  | nil => exact ⟨t, List.prefix_refl t, h, by rw [List.drop_length, List.append_nil]; rfl⟩
  | cons act acts ih =>
      cases act with
      | append bytes => exact ih (h.append bytes) horderly
      | poll n during =>
          obtain ⟨⟨t₁, hbelow, hlog⟩, -, hrest⟩ := horderly
          obtain ⟨hfront, hread, hpublished⟩ := h.poll hwritten hunbroken hbelow hlog
          obtain ⟨t₂, hfront', hread', hpublished'⟩ := ih hread hrest
          refine ⟨t₂, hfront.trans hfront', hread', ?_⟩
          obtain ⟨new, hnew⟩ := @events_front loads _ _ hfront
          obtain ⟨new', hnew'⟩ := @events_front loads _ _ hfront'
          have hfold : GaHub.Feishu.run loads s (.poll n during :: acts) =
              GaHub.Feishu.run loads (step loads s (.poll n during)) acts := rfl
          rw [hfold, hpublished', hpublished, ← hnew', List.drop_left, ← hnew, List.drop_left, List.append_assoc,
            List.append_assoc, List.drop_left]

theorem run_appends {acts : List Act} (hacts : ∀ act ∈ acts, ∃ bytes, act = .append bytes) (s : State) :
    (run loads s acts).cursor = s.cursor ∧ (run loads s acts).memory = s.memory ∧
      (run loads s acts).published = s.published := by
  induction acts generalizing s with
  | nil => exact ⟨rfl, rfl, rfl⟩
  | cons act acts ih =>
      obtain ⟨bytes, rfl⟩ := hacts act List.mem_cons_self
      exact ih (fun act' hact => hacts act' (List.mem_cons_of_mem _ hact)) (step loads s (.append bytes))

theorem orderly_append {T : Text} {before after : List Act} (h : Orderly loads T s (before ++ after)) :
    Orderly loads T (run loads s before) after := by
  induction before generalizing s with
  | nil => exact h
  | cons act before ih =>
      cases act with
      | append bytes => exact ih h
      | poll n during => exact ih h.2.2

-- In an orderly run of a log whose marker lines are not broken, each event is published once and intact, and the ids
-- are remembered as long as there have been no more of them than the queue holds.
theorem mirrored_of_orderly (loads : Text → Option Payload) {T : Text} {before after : List Act} {n : Nat}
    {during : Bytes} (hbefore : ∀ act ∈ before, ∃ bytes, act = .append bytes) (hwritten : Written loads T)
    (hunbroken : Unbroken T) (horderly : Orderly loads T {} (before ++ .poll n during :: after)) :
    Mirrored loads T (run loads {} (before ++ [.poll n during])) (run loads {} (before ++ .poll n during :: after)) ∧
      (Remembers (run loads {} (before ++ .poll n during :: after)) ↔
        (run loads {} (before ++ .poll n during :: after)).published.length ≤ MAXLEN) := by
  obtain ⟨hcursor, hmemory, hpublished⟩ := @run_appends loads before hbefore {}
  obtain ⟨⟨t, hbelow, hlog⟩, hfirst, hrest⟩ := orderly_append horderly
  obtain rfl : during = [] := hfirst (by rw [hcursor]; rfl)
  rw [List.append_nil] at hlog
  have hread := read_first (n := n) hwritten hunbroken hcursor hmemory hpublished hbelow hlog
  obtain ⟨t', -, hread', hall⟩ := hread.run hwritten hunbroken hrest
  have hone : run loads {} (before ++ [.poll n []]) = step loads (run loads {} before) (.poll n []) := by
    rw [run, List.foldl_append]
    rfl
  have hrun : run loads {} (before ++ .poll n [] :: after) =
      run loads (step loads (run loads {} before) (.poll n [])) after := by
    rw [run, List.foldl_append]
    rfl
  rw [hone, hrun]
  refine ⟨?_, remembers_iff hread'.memory (hwritten.nodup hread'.below hread'.published)⟩
  rw [Mirrored, hread'.polled, hread.polled, upTo_encode hread'.below, upTo_encode hread.below]
  exact hall

end Runs

section Samples

def sampleLine (id : String) : Text :=
  text "__GA_FRONTEND_EVENT__ " ++ text ("\x7b\"event_id\": \"" ++ id ++ "\"\x7d") ++ [10]

-- `json.loads` on the objects with some ids, as they are written in a sample line.
def sampleLoads (ids : List String) (raw : Text) : Option Payload :=
  (ids.find? fun id => raw = text ("\x7b\"event_id\": \"" ++ id ++ "\"\x7d")).map fun id => ⟨text id, [], raw⟩

theorem mirrored_one_line :
    ((∀ act ∈ ([] : List Act), ∃ bytes, act = .append bytes) ∧ Written (sampleLoads ["1"]) (sampleLine "1") ∧
      Unbroken (sampleLine "1") ∧ Orderly (sampleLoads ["1"]) (sampleLine "1") {}
        ([] ++ Act.poll 0 [] :: [.append (encode (sampleLine "1")), .poll 0 []])) ∧
    Mirrored (sampleLoads ["1"]) (sampleLine "1") (run (sampleLoads ["1"]) {} ([] ++ [Act.poll 0 []]))
      (run (sampleLoads ["1"]) {} ([] ++ Act.poll 0 [] :: [.append (encode (sampleLine "1")), .poll 0 []])) ∧
    (Remembers (run (sampleLoads ["1"]) {} ([] ++ Act.poll 0 [] :: [.append (encode (sampleLine "1")), .poll 0 []])) ↔
      (run (sampleLoads ["1"]) {}
        ([] ++ Act.poll 0 [] :: [.append (encode (sampleLine "1")), .poll 0 []])).published.length ≤ MAXLEN) := by
  have hbefore : ∀ act ∈ ([] : List Act), ∃ bytes, act = .append bytes := by rintro _ ⟨⟩
  have hwritten : Written (sampleLoads ["1"]) (sampleLine "1") :=
    ⟨by decide, by decide, by decide⟩
  have hunbroken : Unbroken (sampleLine "1") := by
    intro r hr
    refine (by decide : ∀ r ∈ (rowsFrom isNewline [] (sampleLine "1")).1 ++
      [(rowsFrom isNewline [] (sampleLine "1")).2], (∃ c ∈ r, isBreak c) → markerAt r = none) r ?_
    rw [List.mem_append, List.mem_singleton]
    exact hr
  have horderly : Orderly (sampleLoads ["1"]) (sampleLine "1") {}
      ([] ++ Act.poll 0 [] :: [.append (encode (sampleLine "1")), .poll 0 []]) :=
    ⟨⟨[], List.nil_prefix, rfl⟩, fun _ => rfl, ⟨_, List.prefix_refl _, by decide⟩, fun _ => rfl, trivial⟩
  exact ⟨⟨hbefore, hwritten, hunbroken, horderly⟩,
    mirrored_of_orderly (sampleLoads ["1"]) hbefore hwritten hunbroken horderly⟩

-- The second poll ends within the id, of which both bytes are replaced.
def cutLoads : Text → Option Payload := sampleLoads ["é", "\uFFFD\uFFFD"]

def cutActs : List Act :=
  [.append ((encode (sampleLine "é")).take 37), .poll 0 [], .append ((encode (sampleLine "é")).drop 37), .poll 0 []]

theorem cut_character : ¬∀ (loads : Text → Option Payload) (T : Text) (before after : List Act) (n : Nat)
    (during : Bytes), (∀ act ∈ before, ∃ bytes, act = .append bytes) → Written loads T →
    (run loads {} (before ++ .poll n during :: after)).log <+: encode T →
      Mirrored loads T (run loads {} (before ++ [.poll n during])) (run loads {} (before ++ .poll n during :: after)) ∧
        Remembers (run loads {} (before ++ .poll n during :: after)) := by
  intro h
  have hwritten : Written cutLoads (sampleLine "é") := ⟨by decide, by decide, by decide⟩
  have hmirrored := (h cutLoads (sampleLine "é") [] cutActs 0 [] (by rintro _ ⟨⟩) hwritten (by decide)).1
  rw [Mirrored] at hmirrored
  revert hmirrored
  decide

end Samples

end GaHub.Feishu
