import Mathlib

/-!
# Ways a run can end early

A C program that dereferences NULL or a freed object has no further behaviour
to speak of.  The model lets such a step fail with the reason, and every
operation that calls a failing one fails as well.
-/

namespace Xwbot

/-- Why the program does not get past a step. -/
inductive Fault where
  /-- `BUG()`, which writes to an unmapped address. -/
  | bug
  /-- `exit(-1)`. -/
  | exit
  /-- A NULL pointer is dereferenced. -/
  | segv
  /-- The parser's stack pointer leaves its slots. -/
  | stack
  /-- An object is used after it was freed. -/
  | freed
  /-- A loop does not end. -/
  | hang
  /-- A buffer of fixed size is written behind its end. -/
  | overflow
  /-- A buffer is read behind its end. -/
  | overread
  /-- An `int` computation leaves the range of `int`. -/
  | intOverflow
  deriving DecidableEq, Repr

universe u v

variable {ε : Type v} {α : Type u} {β : Type u}

/-- A sequence succeeds exactly when both of its parts do. -/
theorem bind_eq_ok_iff {first : Except ε α} {next : α → Except ε β} {result : β} :
    first >>= next = .ok result ↔ ∃ middle, first = .ok middle ∧ next middle = .ok result := by
  cases first with
  | error fault => simp [Bind.bind, Except.bind]
  | ok middle => simp [Bind.bind, Except.bind]

theorem map_eq_ok_iff {f : α → β} {x : Except ε α} {result : β} :
    x.map f = .ok result ↔ ∃ value, x = .ok value ∧ f value = result := by
  cases x with
  | error fault => simp [Except.map]
  | ok value => simp [Except.map]

@[simp]
theorem ok_bind (middle : α) (next : α → Except ε β) :
    (Except.ok middle >>= next : Except ε β) = next middle :=
  rfl

@[simp]
theorem error_bind (fault : ε) (next : α → Except ε β) :
    (Except.error fault >>= next) = .error fault :=
  rfl

end Xwbot
