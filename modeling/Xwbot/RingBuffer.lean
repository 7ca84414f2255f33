import Mathlib

/-!
# Queues in a ring of cells

The cells of a block are taken as a ring.  A queue lies in the cells from the
head on, over the end of the block if it must, and the tail is the cell behind
it.  One cell is never used, so that the head meets the tail only when the
queue is empty.  The rules move the head and the tail by any part that does not
cross the end of the block.
-/

namespace Xwbot.RingBuffer

universe u

variable {α : Type u} {cells queue part : List α} {head tail k n i : Nat}

/-- The cell that a position stands for.  Positions cross the end once at most. -/
def wrap (n i : Nat) : Nat :=
  if i < n then i else i - n

/-- The queue lies in the ring from the head up to the tail. -/
structure Holds (cells : List α) (head tail : Nat) (queue : List α) : Prop where
  headInside : head < cells.length
  room : queue.length < cells.length
  ends : tail = wrap cells.length (head + queue.length)
  stored : ∀ i < queue.length, queue[i]? = cells[wrap cells.length (head + i)]?

theorem wrap_lt (inside : i < 2 * n) : wrap n i < n := by
  unfold wrap
  split <;> omega

/-- A position lies before the end, or over it. -/
theorem wrap_cases (n i : Nat) : i < n ∧ wrap n i = i ∨ n ≤ i ∧ wrap n i = i - n := by
  unfold wrap
  split <;> omega

/-- A position may be wrapped before it is moved on. -/
theorem wrap_wrap_add (inside : i + k < 2 * n) : wrap n (wrap n i + k) = wrap n (i + k) := by
  unfold wrap
  split_ifs <;> omega

/-- A ring is empty wherever the head meets the tail. -/
theorem Holds.empty (inside : head < cells.length) : Holds cells head head [] := by
  constructor
  · exact inside
  · exact Nat.zero_lt_of_lt inside
  · simp [wrap, inside]
  · intro i impossible
    exact absurd impossible (Nat.not_lt_zero i)

theorem Holds.tail_lt (holds : Holds cells head tail queue) : tail < cells.length := by
  have inside := holds.headInside
  have room := holds.room
  rw [holds.ends]
  exact wrap_lt (by omega)

/-- The length of the queue, from the two positions. -/
theorem Holds.length_eq (holds : Holds cells head tail queue) :
    queue.length = if head ≤ tail then tail - head else cells.length - head + tail := by
  have inside := holds.headInside
  have room := holds.room
  have ends := holds.ends
  unfold wrap at ends
  split_ifs at ends ⊢ <;> omega

/-- What lies at the head is the first part of the queue. -/
theorem Holds.front (holds : Holds cells head tail queue) (within : k ≤ queue.length)
    (uncut : head + k ≤ cells.length) : (cells.drop head).take k = queue.take k := by
  apply List.ext_getElem?
  intro i
  by_cases early : i < k
  · have stored := holds.stored i (by omega)
    rw [wrap, if_pos (by omega)] at stored
    rw [List.getElem?_take_of_lt early, List.getElem?_take_of_lt early, stored, List.getElem?_drop]
  · rw [List.getElem?_eq_none (by simp; omega), List.getElem?_eq_none (by simp; omega)]

/-- The head moves over a part of the queue. -/
theorem Holds.drop (holds : Holds cells head tail queue) (within : k ≤ queue.length) :
    Holds cells (wrap cells.length (head + k)) tail (queue.drop k) := by
  have inside := holds.headInside
  have room := holds.room
  constructor
  · exact wrap_lt (by omega)
  · rw [List.length_drop]
    omega
  · rw [List.length_drop, wrap_wrap_add (by omega), holds.ends]
    congr 1
    omega
  · intro i early
    rw [List.length_drop] at early
    rw [List.getElem?_drop, holds.stored (k + i) (by omega), wrap_wrap_add (by omega),
      Nat.add_assoc]

/-- The tail moves over a part that was written there, into cells that agree otherwise. -/
theorem Holds.append {cells' : List α} (holds : Holds cells head tail queue)
    (fits : queue.length + part.length < cells.length) (size : cells'.length = cells.length)
    (written : ∀ k, cells'[k]? =
      if tail ≤ k ∧ k < tail + part.length then part[k - tail]? else cells[k]?)
    (uncut : tail + part.length ≤ cells.length) :
    Holds cells' head (wrap cells.length (tail + part.length)) (queue ++ part) := by
  have inside := holds.headInside
  have ends := holds.ends
  constructor
  · rw [size]
    exact inside
  · rw [size, List.length_append]
    exact fits
  · rw [size, ends, wrap_wrap_add (by omega), List.length_append, Nat.add_assoc]
  · intro i early
    rw [List.length_append] at early
    rw [size, written]
    have tailAt := wrap_cases cells.length (head + queue.length)
    have cellAt := wrap_cases cells.length (head + i)
    rw [← ends] at tailAt
    by_cases old : i < queue.length
    · rw [List.getElem?_append_left old, holds.stored i old, if_neg (by omega)]
    · rw [List.getElem?_append_right (by omega), if_pos (by omega)]
      congr 1
      omega

end Xwbot.RingBuffer
