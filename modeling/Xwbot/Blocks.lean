import Mathlib

/-!
# Input in blocks of one size

A function that takes blocks of one size may get its input in parts of any length.  A buffer keeps
what does not fill a block yet, and a block is processed as soon as it is full.  The buffer depends
on the whole input and not on its parts, and whole blocks may go past it.
-/

namespace Xwbot.Blocks

universe u v

variable {σ : Type u} {α : Type v} {process : σ → List α → σ} {size : ℕ}

/-- One block after the other, for so many blocks. -/
def inBlocks (process : σ → List α → σ) (size : ℕ) : ℕ → σ → List α → σ
  | 0, state, _ => state
  | blocks + 1, state, input =>
      inBlocks process size blocks (process state (input.take size)) (input.drop size)

/-- What was processed, and the beginning of the next block. -/
@[ext]
structure Buffer (σ : Type u) (α : Type v) (size : ℕ) where
  state : σ
  pending : List α
  room : pending.length < size

namespace Buffer

variable {b : Buffer σ α size} {l l' : List α}

/-- Nothing was put in. -/
def empty (positive : 0 < size) (state : σ) : Buffer σ α size :=
  ⟨state, [], positive⟩

theorem positive (b : Buffer σ α size) : 0 < size :=
  Nat.zero_lt_of_lt b.room

theorem room_concat (b : Buffer σ α size) (a : α) (unfilled : b.pending.length + 1 ≠ size) :
    (b.pending ++ [a]).length < size := by
  have room := b.room
  rw [List.length_append, List.length_singleton]
  omega

/-- One more item. -/
def push (process : σ → List α → σ) (b : Buffer σ α size) (a : α) : Buffer σ α size :=
  if filled : b.pending.length + 1 = size then
    empty b.positive (process b.state (b.pending ++ [a]))
  else ⟨b.state, b.pending ++ [a], b.room_concat a filled⟩

/-- A part of the input. -/
def absorb (process : σ → List α → σ) (b : Buffer σ α size) (l : List α) : Buffer σ α size :=
  l.foldl (push process) b

@[simp]
theorem absorb_nil : b.absorb process [] = b :=
  rfl

theorem absorb_cons (a : α) : b.absorb process (a :: l) = (b.push process a).absorb process l :=
  rfl

/-- **Parts.**  Two parts are as good as one. -/
theorem absorb_append : b.absorb process (l ++ l') = (b.absorb process l).absorb process l' :=
  List.foldl_append

theorem absorb_concat (a : α) :
    b.absorb process (l ++ [a]) = (b.absorb process l).push process a :=
  List.foldl_concat _ _ _ _

/-- What does not fill the block is kept. -/
theorem absorb_of_lt (short : (b.pending ++ l).length < size) :
    b.absorb process l = ⟨b.state, b.pending ++ l, short⟩ := by
  induction l generalizing b with
  | nil => exact Buffer.ext rfl (List.append_nil _).symm
  | cons a rest ih =>
      rw [List.length_append, List.length_cons] at short
      have unfilled : b.pending.length + 1 ≠ size := by omega
      have next : b.push process a = ⟨b.state, b.pending ++ [a], b.room_concat a unfilled⟩ :=
        dif_neg unfilled
      rw [absorb_cons, next, ih]
      · exact Buffer.ext rfl (List.append_assoc _ _ _)
      · simp only [List.length_append, List.length_singleton]
        omega

/-- What fills the block has it processed. -/
theorem absorb_of_eq (full : (b.pending ++ l).length = size) (nonempty : l ≠ []) :
    b.absorb process l = empty b.positive (process b.state (b.pending ++ l)) := by
  rcases List.eq_nil_or_concat l with rfl | ⟨front, a, rfl⟩
  · exact absurd rfl nonempty
  · have short : (b.pending ++ front).length < size := by
      simp only [List.length_append, List.concat_eq_append, List.length_singleton] at full ⊢
      omega
    have last : (b.pending ++ front).length + 1 = size := by
      simp only [List.length_append, List.concat_eq_append, List.length_singleton] at full ⊢
      omega
    rw [List.concat_eq_append, absorb_concat, absorb_of_lt short, push]
    simp only [dif_pos last, List.append_assoc]

/-- Whole blocks need no buffer. -/
theorem absorb_inBlocks {state : σ} (positive : 0 < size) (blocks : ℕ)
    (long : blocks * size ≤ l.length) : (empty positive state).absorb process l =
      (empty positive (inBlocks process size blocks state l)).absorb process
        (l.drop (blocks * size)) := by
  induction blocks generalizing state l with
  | zero => rw [Nat.zero_mul, List.drop_zero, inBlocks]
  | succ blocks ih =>
      rw [Nat.succ_mul] at long
      have first :
          ((empty positive state : Buffer σ α size).pending ++ l.take size).length = size := by
        rw [empty, List.nil_append, List.length_take]
        omega
      have nonempty : l.take size ≠ [] := by
        rw [← List.length_pos_iff_ne_nil, List.length_take]
        omega
      have rest : blocks * size ≤ (l.drop size).length := by
        rw [List.length_drop]
        omega
      conv_lhs => rw [← List.take_append_drop size l]
      rw [absorb_append, absorb_of_eq first nonempty]
      change (empty positive (process state (l.take size))).absorb process (l.drop size) = _
      rw [ih rest, inBlocks, List.drop_drop, Nat.succ_mul, Nat.add_comm size]

/-- **Blocks.**  An input of whole blocks leaves nothing in the buffer. -/
theorem absorb_blocks {state : σ} (positive : 0 < size) (blocks : ℕ)
    (whole : l.length = blocks * size) : (empty positive state).absorb process l =
      empty positive (inBlocks process size blocks state l) := by
  rw [absorb_inBlocks positive blocks (Nat.le_of_eq whole.symm),
    List.drop_of_length_le (Nat.le_of_eq whole)]
  rfl

/-- How much of a block an input leaves. -/
theorem length_pending_absorb : (b.absorb process l).pending.length =
    (b.pending.length + l.length) % size := by
  induction l generalizing b with
  | nil => exact (Nat.mod_eq_of_lt b.room).symm
  | cons a rest ih =>
      rw [absorb_cons, ih, push, List.length_cons]
      split
      · next filled =>
          rw [empty, List.length_nil, Nat.zero_add, ← Nat.add_assoc, Nat.add_right_comm, filled,
            Nat.add_mod_left]
      · rw [List.length_append, List.length_singleton, Nat.add_right_comm, Nat.add_assoc]

end Buffer

end Xwbot.Blocks
