import GaHub.Chat.Transcript

namespace GaHub.Chat.Transcript

-- The nodes between two places of the text, each of which begins where the one before ends.
def Tiles (source : List Char) : Nat → List TranscriptNode → Nat → Prop
  | start, [], stop => start = stop
  | start, node :: nodes, stop => node.Sound source start ∧ Tiles source node.stop nodes stop

namespace Tiles

variable {source : List Char} {start stop : Nat} {nodes : List TranscriptNode}

theorem concat (h : Tiles source start nodes stop) {node : TranscriptNode} (hnode : node.Sound source stop) :
    Tiles source start (nodes ++ [node]) node.stop := by
  induction nodes generalizing start with
  | nil =>
    obtain rfl : start = stop := h
    exact ⟨hnode, rfl⟩
  | cons first nodes ih => exact ⟨h.1, ih h.2⟩

theorem sound (h : Tiles source start nodes stop) {node : TranscriptNode} (hnode : node ∈ nodes) :
    node.Sound source node.start := by
  induction nodes generalizing start with
  | nil => simp at hnode
  | cons first nodes ih =>
    obtain rfl | hnode := List.mem_cons.mp hnode
    · have hsound := h.1
      rwa [← hsound.start_eq] at hsound
    · exact ih h.2 hnode

theorem adjacent (h : Tiles source start nodes stop) : nodes.IsChain fun a b => a.stop = b.start := by
  induction nodes generalizing start with
  | nil => simp
  | cons first nodes ih =>
    cases nodes with
    | nil => simp
    | cons second nodes => exact List.IsChain.cons_cons h.2.1.start_eq.symm (ih h.2)

theorem start_eq (h : Tiles source start nodes stop) {node : TranscriptNode} (hnode : node ∈ nodes.head?) :
    node.start = start := by
  cases nodes with
  | nil => simp at hnode
  | cons first nodes =>
    obtain rfl : first = node := by simpa using hnode
    exact h.1.start_eq

theorem stop_eq (h : Tiles source start nodes stop) {node : TranscriptNode} (hnode : node ∈ nodes.getLast?) :
    node.stop = stop := by
  induction nodes generalizing start with
  | nil => simp at hnode
  | cons first nodes ih =>
    cases nodes with
    | nil =>
      obtain rfl : first = node := by simpa using hnode
      exact h.2
    | cons second nodes =>
      rw [List.getLast?_cons_cons] at hnode
      exact ih h.2 hnode

theorem le (h : Tiles source start nodes stop) : start ≤ stop := by
  induction nodes generalizing start with
  | nil => exact Nat.le_of_eq h
  | cons first nodes ih =>
    have hlt := h.1.start_lt
    rw [h.1.start_eq] at hlt
    exact Nat.le_trans (Nat.le_of_lt hlt) (ih h.2)

theorem slice_append {low mid high : Nat} (hlow : low ≤ mid) (hhigh : mid ≤ high) :
    Scan.slice source low mid ++ Scan.slice source mid high = Scan.slice source low high := by
  have hdrop : ∀ start, Scan.slice source start high = (source.drop start).take (high - start) :=
    fun start => List.drop_take
  rw [hdrop, hdrop]
  simp only [Scan.slice, List.drop_take]
  have hsplit : high - low = mid - low + (high - mid) := by omega
  rw [hsplit, List.take_add, List.drop_drop]
  congr 3
  omega

theorem raw (h : Tiles source start nodes stop) :
    (nodes.map TranscriptNode.raw).flatten = Scan.slice source start stop := by
  induction nodes generalizing start with
  | nil =>
    obtain rfl : start = stop := h
    simp [Scan.slice]
  | cons first nodes ih =>
    have hlt := h.1.start_lt
    rw [List.map_cons, List.flatten_cons, ih h.2, h.1.raw_eq, slice_append (Nat.le_of_lt hlt) (le h.2), h.1.start_eq]

end Tiles

namespace Scan

variable {source : List Char}

-- What is found tiles the text up to `textStart`, where the text that is still held back begins.
structure Covered (source : List Char) (s : Scan) : Prop where
  tiles : Tiles source 0 s.nodes s.textStart
  held : s.textStart ≤ s.pos
  inside : s.pos ≤ source.length

theorem Covered.flush {s : Scan} (h : Covered source s) : Tiles source 0 (s.flush source).nodes s.pos := by
  unfold Scan.flush
  split
  next hlt => exact h.tiles.concat ⟨rfl, hlt, h.inside, rfl, Inner.nil _ _, s.pos, h.held, .inl rfl, rfl⟩
  next hlt =>
    have heq : s.textStart = s.pos := Nat.le_antisymm h.held (Nat.not_lt.mp hlt)
    exact heq ▸ h.tiles

theorem Covered.emit {s : Scan} (h : Covered source s) {node : TranscriptNode} (hnode : node.Sound source s.pos) :
    Covered source (s.emit source node) where
  tiles := h.flush.concat hnode
  held := Nat.le_refl _
  inside := hnode.stop_le

theorem Covered.step {s : Scan} (h : Covered source s) (hpos : s.pos < source.length) :
    Covered source (s.step source) := by
  obtain ⟨node, hnode, hstep⟩ | hstep := step_emits hpos
  · rw [hstep]
    exact h.emit hnode
  · rw [hstep]
    exact ⟨h.tiles, Nat.le_succ_of_le h.held, hpos⟩

theorem Covered.loop {s : Scan} (h : Covered source s) (fuel : Nat) : Covered source (s.loop source fuel) := by
  induction fuel generalizing s with
  | zero => exact h
  | succ fuel ih =>
    simp only [Scan.loop]
    split
    next hpos => exact ih (h.step hpos)
    next => exact h

theorem loop_stable {s : Scan} {fuel : Nat} (h : source.length ≤ s.pos + fuel) (more : Nat) :
    s.loop source (fuel + more) = s.loop source fuel := by
  induction fuel generalizing s with
  | zero =>
    have hdone : ¬s.pos < source.length := Nat.not_lt.mpr h
    cases more <;> simp [loop, hdone]
  | succ fuel ih =>
    rw [Nat.succ_add]
    simp only [loop]
    split
    next hpos =>
      have hstep := step_pos hpos
      exact ih (by omega)
    next => rfl

end Scan

section Blocks

variable {source : List Char}

theorem toolBlocks_stable {fuel stop : Nat} {spans : List Span} {repairs : List Nat}
    (h : source.length ≤ stop + fuel) (hstop : stop ≤ source.length) (more : Nat) :
    toolBlocks source (fuel + more) stop spans repairs = toolBlocks source fuel stop spans repairs := by
  induction fuel generalizing stop spans repairs with
  | zero =>
    obtain rfl : stop = source.length := by omega
    have hexec : edgeRe.exec [] = none := by decide
    cases more with
    | zero => rfl
    | succ more => simp [toolBlocks, hexec]
  | succ fuel ih =>
    rw [Nat.succ_add]
    simp only [toolBlocks]
    generalize hnext : stop + ((source.drop stop).takeWhile isSpace).length = next
    split
    next hedge =>
      obtain ⟨openTag, hopen⟩ := Option.isSome_iff_exists.mp hedge
      obtain ⟨hlt, hle, -⟩ := fence_spec true (Option.filter_eq_some_iff.mp hopen).1
      split
      · exact ih (by omega) hle
      · rfl
    next => rfl

end Blocks

structure Lossless (source : List Char) (nodes : List TranscriptNode) : Prop where
  nonempty : ∀ node ∈ nodes, node.start < node.stop
  first : ∀ node ∈ nodes.head?, node.start = 0
  adjacent : nodes.IsChain fun a b => a.stop = b.start
  last : ∀ node ∈ nodes.getLast?, node.stop = source.length
  raw : (nodes.map TranscriptNode.raw).flatten = source
  inner : ∀ node ∈ nodes, Inner node.start node.opaqueSpans node.repairs node.stop

theorem scan_tiles (source : String) : Tiles source.toList 0 (scanTranscript source) source.toList.length := by
  have hstart : Scan.Covered source.toList {} := ⟨rfl, Nat.le_refl 0, Nat.zero_le _⟩
  have hcovered := hstart.loop source.toList.length
  have hdone := Nat.le_antisymm hcovered.inside (scan_done source.toList)
  have htiles := hcovered.flush
  rwa [hdone] at htiles

-- The loops of the scan end by their own tests: more turns than the text has characters change nothing.
theorem scanTranscript_lossless (source : String) :
    (∀ fuel ≥ source.toList.length, Scan.loop source.toList fuel {} = scan source.toList ∧
      source.toList.length ≤ (scan source.toList).pos) ∧
    (∀ fuel ≥ source.toList.length, ∀ stop ≤ source.toList.length, ∀ spans repairs,
      toolBlocks source.toList fuel stop spans repairs =
        toolBlocks source.toList source.toList.length stop spans repairs) ∧
    Lossless source.toList (scanTranscript source) := by
  have htiles := scan_tiles source
  refine ⟨?_, ?_, ?_⟩
  · intro fuel hfuel
    obtain ⟨more, rfl⟩ := Nat.exists_eq_add_of_le hfuel
    exact ⟨Scan.loop_stable (by simp) more, scan_done source.toList⟩
  · intro fuel hfuel stop hstop spans repairs
    obtain ⟨more, rfl⟩ := Nat.exists_eq_add_of_le hfuel
    exact toolBlocks_stable (by omega) hstop more
  · constructor
    · exact fun node hnode => (htiles.sound hnode).start_lt
    · exact fun node hnode => htiles.start_eq hnode
    · exact htiles.adjacent
    · exact fun node hnode => htiles.stop_eq hnode
    · rw [htiles.raw]
      simp [Scan.slice]
    · exact fun node hnode => (htiles.sound hnode).inner

end GaHub.Chat.Transcript
