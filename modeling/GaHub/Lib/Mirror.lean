import Mathlib.Data.List.Basic

namespace Lib

universe u

-- A bounded queue that its only producer never waits for: where it is full, the oldest value makes room. The values
-- put and those the consumer took are kept beside it.
structure Mirror (α : Type u) where
  queue : List α := []
  put : List α := []
  taken : List α := []
  deriving DecidableEq

namespace Mirror

variable {α : Type u} (m : Mirror α)

-- `put_nowait`
def offer (capacity : Nat) (a : α) : Option (Mirror α) :=
  if m.queue.length < capacity then some { m with queue := m.queue ++ [a], put := m.put ++ [a] } else none

-- `get_nowait` by the producer
def evict : Mirror α := { m with queue := m.queue.tail }

def take : Mirror α := { m with queue := m.queue.tail, taken := m.taken ++ m.queue.head?.toList }

-- The values that are in the queue or were taken from it, in the order the consumer sees them.
def seen : List α := m.taken ++ m.queue

variable {m} {n : Mirror α} {capacity : Nat} {a : α}

theorem offer_some (h : m.offer capacity a = some n) :
    m.queue.length < capacity ∧ n = { m with queue := m.queue ++ [a], put := m.put ++ [a] } := by
  unfold offer at h
  split at h
  · exact ⟨‹_›, (Option.some.inj h).symm⟩
  · cases h

theorem offer_none (h : m.offer capacity a = none) : capacity ≤ m.queue.length := by
  unfold offer at h
  split at h
  · cases h
  · exact Nat.le_of_not_lt ‹_›

-- The consumer sees what was put, in order and without what made room, and no more waits for it than there is room for.
structure Sound (capacity : Nat) (m : Mirror α) : Prop where
  bounded : m.queue.length ≤ capacity
  sublist : m.seen.Sublist m.put

theorem Sound.start : Sound capacity ({} : Mirror α) := ⟨Nat.zero_le _, List.Sublist.refl _⟩

theorem Sound.offer (hm : m.Sound capacity) (h : m.offer capacity a = some n) : n.Sound capacity := by
  obtain ⟨hroom, rfl⟩ := offer_some h
  constructor
  · simp only [List.length_append, List.length_singleton]
    omega
  · simp only [seen, ← List.append_assoc]
    exact hm.sublist.append (List.Sublist.refl [a])

theorem Sound.evict (hm : m.Sound capacity) : m.evict.Sound capacity := by
  constructor
  · have hbounded := hm.bounded
    simp only [Mirror.evict, List.length_tail]
    omega
  · exact ((List.Sublist.refl m.taken).append (List.tail_sublist m.queue)).trans hm.sublist

@[simp] theorem take_seen : m.take.seen = m.seen := by
  cases h : m.queue <;> simp [take, seen, h]

@[simp] theorem take_put : m.take.put = m.put := rfl

theorem take_length : m.take.queue.length ≤ m.queue.length := by simp [take]

theorem Sound.take (hm : m.Sound capacity) : m.take.Sound capacity :=
  ⟨Nat.le_trans take_length hm.bounded, by rw [take_seen, take_put]; exact hm.sublist⟩

theorem offer_last (h : m.offer capacity a = some n) : n.put.getLast? = some a ∧ n.seen.getLast? = some a := by
  obtain ⟨-, rfl⟩ := offer_some h
  simp [seen, ← List.append_assoc]

theorem evict_room (hcapacity : 0 < capacity) (h : m.queue.length ≤ capacity) : m.evict.queue.length < capacity := by
  simp only [evict, List.length_tail]
  omega

end Mirror

end Lib
