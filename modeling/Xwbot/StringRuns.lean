import Xwbot.XString

/-!
# Runs of operations on a growing string

After every operation the buffer has room and holds the bytes added since it was last emptied.  A
NUL stands behind them after every operation that writes one, but `x_string_clear` writes none.
-/

namespace Xwbot.XString

/-- `x_string_trunc`: the buffer is NULL again, and the numbers are 0. -/
def trunc (_ : XString) : XString :=
  zero

/-- `x_string_rew`. -/
def rew (s : XString) : XString :=
  { s with pos := 0, pos_le := Nat.zero_le _ }

@[simp]
theorem bytes_rew (s : XString) : s.rew.bytes = [] := by
  simp [bytes, rew]

theorem terminated_write (m : Memory) (s : XString) (bs : List Byte) :
    (s.write m bs).Terminated := by
  obtain ⟨block, cbuf_eq, length_eq, -⟩ := checkCapacity_block m s bs.length
  have room := checkCapacity_room m s bs.length
  refine ⟨_, by simp only [write, cbuf_eq, Option.map_some]; rfl, ?_⟩
  simp only [write]
  rw [List.getElem?_set_self]
  simp only [List.length_append, List.length_take, List.length_drop]
  omega

/-- The first byte of the buffer, or the one that the allocator leaves there. -/
def firstByte (m : Memory) (s : XString) : Byte :=
  (s.cbuf.getD []).head?.getD (m.fill [] 0)

/-- `x_string_clear` leaves the first byte, whatever it is. -/
theorem clear_first (m : Memory) (s : XString) :
    ∃ rest, (s.clear m).cbuf = some (s.firstByte m :: rest) := by
  unfold clear firstByte
  simp only
  split
  · next same =>
      obtain ⟨block, cbuf_eq, length_eq⟩ := exists_block (s := s) (by rw [same]; decide)
      cases block with
      | nil =>
          rw [same] at length_eq
          cases length_eq
      | cons c rest => exact ⟨rest, by rw [cbuf_eq]; rfl⟩
  · cases old : s.cbuf.getD [] with
    | nil => exact ⟨_, rfl⟩
    | cons c rest => exact ⟨_, rfl⟩

theorem terminated_clear_iff (m : Memory) (s : XString) :
    (s.clear m).Terminated ↔ s.firstByte m = 0 := by
  obtain ⟨rest, cbuf_eq⟩ := clear_first m s
  constructor
  · rintro ⟨block, block_eq, nul⟩
    rw [cbuf_eq, Option.some.injEq] at block_eq
    subst block_eq
    exact Option.some.inj nul
  · intro nul
    exact ⟨_, cbuf_eq, congrArg some nul⟩

/-! ## Runs -/

/-- The operations on one string. -/
inductive StringOp where
  /-- `x_string_putc` -/
  | putc (c : Byte)
  /-- `x_string_write` -/
  | write (bs : List Byte)
  /-- `x_string_clear` -/
  | clear
  /-- `x_string_trunc` -/
  | trunc
  /-- `x_string_rew` -/
  | rew
  deriving DecidableEq, Repr

namespace StringOp

/-- One operation. -/
def step (m : Memory) (s : XString) : StringOp → XString
  | putc c => s.putc m c
  | write bs => s.write m bs
  | clear => s.clear m
  | trunc => s.trunc
  | rew => s.rew

/-- The bytes that the operation adds. -/
def added : StringOp → List Byte
  | putc c => [c]
  | write bs => bs
  | clear => []
  | trunc => []
  | rew => []

/-- What the string is to hold after the operation. -/
def content (old : List Byte) : StringOp → List Byte
  | putc c => old ++ [c]
  | write bs => old ++ bs
  | clear => []
  | trunc => []
  | rew => []

/-- A NUL is to stand behind the content after the operation. -/
def terminates : StringOp → Bool
  | putc _ => true
  | write _ => true
  | clear => true
  | trunc => false
  | rew => false

end StringOp

/-- A string after operations. -/
def after (m : Memory) (ops : List StringOp) : XString :=
  ops.foldl (StringOp.step m) zero

/-- The bytes added since the last operation that emptied the string. -/
def contents (ops : List StringOp) : List Byte :=
  ops.foldl StringOp.content []

/-- How many bytes the operations add. -/
def total (ops : List StringOp) : Nat :=
  (ops.map fun op => op.added.length).sum

theorem after_concat (m : Memory) (ops : List StringOp) (op : StringOp) :
    after m (ops ++ [op]) = op.step m (after m ops) :=
  List.foldl_concat _ _ _ _

theorem contents_concat (ops : List StringOp) (op : StringOp) :
    contents (ops ++ [op]) = op.content (contents ops) :=
  List.foldl_concat _ _ _ _

theorem total_concat (ops : List StringOp) (op : StringOp) :
    total (ops ++ [op]) = total ops + op.added.length := by
  simp [total]

/-- What holds of a string after operations that add `n` bytes. -/
structure Sized (s : XString) (n : Nat) : Prop where
  capacity : s.capacity ≤ 2 * n + 34
  pos : s.pos ≤ n
  room : s.cbuf.isSome → s.pos < s.capacity

theorem Sized.zero : Sized zero 0 :=
  ⟨by decide, le_rfl, by simp [XString.zero]⟩

/-- Room is made for bytes, and one byte of it stays free. -/
theorem Sized.grow (m : Memory) {s : XString} {n : Nat} (sized : Sized s n) (extra : Nat) :
    (s.checkCapacity m extra).capacity ≤ 2 * (n + extra) + 34 := by
  have capacity := sized.capacity
  have pos := sized.pos
  unfold checkCapacity
  split
  · simp only [strBufsiz]
    omega
  · omega

theorem Sized.step (m : Memory) {s : XString} {n : Nat} (sized : Sized s n) (op : StringOp) :
    Sized (op.step m s) (n + op.added.length) := by
  have pos := sized.pos
  cases op with
  | putc c =>
      have room := checkCapacity_room m s 1
      have same := checkCapacity_pos m s 1
      exact ⟨sized.grow m 1, by simp only [StringOp.step, putc, StringOp.added,
        List.length_singleton]; omega, fun _ => by simp only [StringOp.step, putc]; omega⟩
  | write bs =>
      have room := checkCapacity_room m s bs.length
      have same := checkCapacity_pos m s bs.length
      exact ⟨sized.grow m bs.length, by simp only [StringOp.step, write, StringOp.added]; omega,
        fun _ => by simp only [StringOp.step, write]; omega⟩
  | clear =>
      have positive : 0 < strBufsiz := by decide
      exact ⟨by simp only [StringOp.step, clear, strBufsiz]; omega, Nat.zero_le _, fun _ =>
        positive⟩
  | trunc => exact ⟨Nat.zero_le _, Nat.zero_le _, by simp [StringOp.step, trunc, XString.zero]⟩
  | rew =>
      exact ⟨sized.capacity, Nat.zero_le _, fun some => Nat.zero_lt_of_lt (sized.room some)⟩

/-- **A run**: the sizes, and the bytes in the buffer. -/
theorem after_spec (m : Memory) (ops : List StringOp) :
    Sized (after m ops) (total ops) ∧ (after m ops).bytes = contents ops := by
  induction ops using List.reverseRecOn with
  | nil => exact ⟨.zero, rfl⟩
  | append_singleton ops op ih =>
      rw [after_concat, contents_concat, total_concat]
      refine ⟨ih.1.step m op, ?_⟩
      rw [← ih.2]
      cases op with
      | putc c => exact bytes_putc m _ c
      | write bs => exact bytes_write m _ bs
      | clear => exact bytes_clear m _
      | trunc => rfl
      | rew => exact bytes_rew _

/-- The string after an operation that follows others: its buffer has room, with a capacity that
fits its 32-bit field, it holds the bytes added since it was last emptied, and a NUL stands behind
them unless the operation only drops or rewinds the buffer. -/
structure Sound (m : Memory) (before : List StringOp) (op : StringOp) : Prop where
  capacity : (after m (before ++ [op])).capacity < 2 ^ 32
  room : (after m (before ++ [op])).cbuf.isSome →
    (after m (before ++ [op])).pos < (after m (before ++ [op])).capacity
  bytes : (after m (before ++ [op])).bytes = contents (before ++ [op])
  terminated : op.terminates → (after m (before ++ [op])).Terminated

/-- Only a NUL behind the content may be missing, and only after `x_string_clear`. -/
theorem sound_step_iff (m : Memory) {before : List StringOp} {op : StringOp}
    (small : total (before ++ [op]) < 2 ^ 30) :
    Sound m before op ↔ (op = .clear → (after m before).firstByte m = 0) := by
  rcases after_spec m (before ++ [op]) with ⟨sized, bytes⟩
  have terminated : (op.terminates → (after m (before ++ [op])).Terminated) ↔
      (op = .clear → (after m before).firstByte m = 0) := by
    rw [after_concat]
    cases op with
    | putc c => simpa [StringOp.step] using fun _ => terminated_putc m _ c
    | write bs => simpa [StringOp.step] using fun _ => terminated_write m _ bs
    | clear => simpa [StringOp.step, StringOp.terminates] using terminated_clear_iff m _
    | trunc => simp [StringOp.terminates]
    | rew => simp [StringOp.terminates]
  constructor
  · intro sound
    exact terminated.mp sound.terminated
  · intro nul
    have capacity := sized.capacity
    exact ⟨by omega, sized.room, bytes, terminated.mpr nul⟩

/-- **Runs of string operations.**  After every operation the representation is right if and only
if each `x_string_clear` finds a NUL in front of the buffer. -/
theorem sound_iff (m : Memory) (ops : List StringOp) (small : total ops < 2 ^ 30) :
    (∀ before op, before ++ [op] <+: ops → Sound m before op) ↔
      ∀ before, before ++ [.clear] <+: ops → (after m before).firstByte m = 0 := by
  have within : ∀ before op, before ++ [op] <+: ops → total (before ++ [op]) < 2 ^ 30 := by
    rintro before op ⟨behind, rfl⟩
    rw [total, List.map_append, List.sum_append] at small
    exact Nat.lt_of_le_of_lt (Nat.le_add_right _ _) small
  constructor
  · intro sound before inside
    exact (sound_step_iff m (within before .clear inside)).mp (sound before .clear inside) rfl
  · intro nul before op inside
    rw [sound_step_iff m (within before op inside)]
    rintro rfl
    exact nul before inside

/-- A string that is emptied before anything was written, and then filled. -/
theorem sound_iff_fresh :
    total [.clear, .putc (ch 'a')] < 2 ^ 30 ∧
      ∀ before op, before ++ [op] <+: [.clear, .putc (ch 'a')] → Sound (.filled 0) before op := by
  refine ⟨by decide, (sound_iff (.filled 0) _ (by decide)).mpr ?_⟩
  intro before inside
  cases before with
  | nil => rfl
  | cons op rest =>
      have later := (List.cons_prefix_cons.mp inside).2
      cases rest with
      | nil => cases (List.cons_prefix_cons.mp later).1
      | cons op rest => simp at later

/-- A reader still sees the old content of a string that was emptied. -/
theorem not_sound_old_content :
    ¬∀ ops : List StringOp, total ops < 2 ^ 30 →
      ∀ before op, before ++ [op] <+: ops → Sound (.filled 0) before op := by
  intro claimed
  have sound := claimed [.putc (ch 'a'), .clear] (by decide) [.putc (ch 'a')] .clear
    (List.prefix_refl _)
  have nul := (terminated_clear_iff _ _).mp (sound.terminated rfl)
  exact absurd nul (by decide)

end Xwbot.XString
