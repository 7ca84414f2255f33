import Xwbot.Text

/-!
# Growing strings

`x_string` is a buffer with a capacity and a write position.  Only the writing
functions put a terminator behind the last byte: `x_string_clear` moves the
position back to the start and leaves the bytes of the buffer as they are, so
a reader of `cbuf` still sees the old content.

What the allocator leaves in memory that nobody has written is not part of the
program.  `Memory` stands for it, and every result below holds for any choice.
-/

namespace Xwbot

/-- The contents of memory that the program reads without having written it. -/
structure Memory where
  /-- Byte `i` of the block that `x_realloc` returns for the block `old`. -/
  fill : List Byte → Nat → Byte
  /-- The bytes from the end of a block up to the next NUL behind it. -/
  beyond : List Byte → Text

namespace Memory

/-- Every unwritten byte has the same value, and a NUL follows every block. -/
def filled (c : Byte) : Memory where
  fill _ _ := c
  beyond _ := []

/-- `x_realloc`: the old bytes are kept as far as they fit. -/
def realloc (m : Memory) (old : List Byte) (n : Nat) : List Byte :=
  old.take n ++ (List.range (n - old.length)).map fun i => m.fill old (old.length + i)

@[simp]
theorem length_realloc (m : Memory) (old : List Byte) (n : Nat) :
    (m.realloc old n).length = n := by
  simp only [realloc, List.length_append, List.length_take, List.length_map, List.length_range]
  omega

/-- What a reader of a C string finds from the start of a block on. -/
def cstr (m : Memory) (block : List Byte) : Text :=
  (block ++ m.beyond block).takeWhile (· ≠ 0)

end Memory

/-- `X_STR_BUFSIZ`. -/
def strBufsiz : Nat := 0x20

/-- `X_STR_MEMLEN_ALIGN`, by which `x_local_malloc` and `x_local_realloc` round a size up. -/
def strMemlenAlign (n : Nat) : Nat :=
  (n + (strBufsiz - 1)) / strBufsiz * strBufsiz

/-- The largest `int`. -/
def intMax : Nat :=
  2147483647

theorem le_strMemlenAlign (n : Nat) : n ≤ strMemlenAlign n := by
  unfold strMemlenAlign strBufsiz
  omega

theorem lt_strMemlenAlign_iff (n : Nat) : n < strMemlenAlign n ↔ n % strBufsiz ≠ 0 := by
  unfold strMemlenAlign strBufsiz
  omega

/-- `x_string`.  The buffer is NULL or a block of `capacity` bytes. -/
structure XString where
  capacity : Nat
  pos : Nat
  cbuf : Option (List Byte)
  size_eq : (cbuf.getD []).length = capacity
  pos_le : pos ≤ capacity

namespace XString

/-- A zero-initialised string. -/
def zero : XString :=
  ⟨0, 0, none, rfl, le_rfl⟩

/-- `__x_string_check_capacity`. -/
def checkCapacity (m : Memory) (s : XString) (extra : Nat) : XString :=
  if s.capacity ≤ s.pos + extra + 1 then
    { capacity := s.capacity + strBufsiz + extra + 1
      pos := s.pos
      cbuf := some (m.realloc (s.cbuf.getD []) (s.capacity + strBufsiz + extra + 1))
      size_eq := by simp
      pos_le := s.pos_le.trans (by omega) }
  else
    s

@[simp]
theorem checkCapacity_pos (m : Memory) (s : XString) (extra : Nat) :
    (s.checkCapacity m extra).pos = s.pos := by
  unfold checkCapacity
  split <;> rfl

/-- There is room for the extra bytes and the terminator behind them. -/
theorem checkCapacity_room (m : Memory) (s : XString) (extra : Nat) :
    (s.checkCapacity m extra).pos + extra + 1 < (s.checkCapacity m extra).capacity := by
  have pos_le := s.pos_le
  rw [checkCapacity_pos]
  unfold checkCapacity
  split
  · simp only [strBufsiz]
    omega
  · omega

/-- `x_string_clear`. -/
def clear (m : Memory) (s : XString) : XString :=
  { capacity := strBufsiz
    pos := 0
    cbuf :=
      if s.capacity = strBufsiz then s.cbuf
      else some (m.realloc (s.cbuf.getD []) strBufsiz)
    size_eq := by
      split
      · next same => rw [s.size_eq, same]
      · simp
    pos_le := Nat.zero_le _ }

/-- `x_string_putc`. -/
def putc (m : Memory) (s : XString) (c : Byte) : XString :=
  let t := s.checkCapacity m 1
  { capacity := t.capacity
    pos := t.pos + 1
    cbuf := t.cbuf.map fun block => (block.set t.pos c).set (t.pos + 1) 0
    size_eq := by
      rw [← t.size_eq]
      cases t.cbuf <;> simp
    pos_le := by
      have room : t.pos + 1 + 1 < t.capacity := checkCapacity_room m s 1
      omega }

/-- `x_string_write`. -/
def write (m : Memory) (s : XString) (bs : List Byte) : XString :=
  let t := s.checkCapacity m bs.length
  { capacity := t.capacity
    pos := t.pos + bs.length
    cbuf := t.cbuf.map fun block =>
      (block.take t.pos ++ bs ++ block.drop (t.pos + bs.length)).set (t.pos + bs.length) 0
    size_eq := by
      have room : t.pos + bs.length + 1 < t.capacity := checkCapacity_room m s bs.length
      have size_eq := t.size_eq
      cases h : t.cbuf with
      | none =>
          rw [h] at size_eq
          exact size_eq
      | some block =>
          rw [h, Option.getD_some] at size_eq
          simp only [Option.map_some, Option.getD_some, List.length_set, List.length_append,
            List.length_take, List.length_drop]
          omega
    pos_le := by
      have room : t.pos + bs.length + 1 < t.capacity := checkCapacity_room m s bs.length
      omega }

/-- The bytes added since the string was last emptied. -/
def bytes (s : XString) : List Byte :=
  (s.cbuf.getD []).take s.pos

/-- Reading `cbuf` as a C string; nothing can be read through NULL. -/
def cstr (m : Memory) (s : XString) : Option Text :=
  s.cbuf.map m.cstr

/-- A NUL stands behind the last byte. -/
def Terminated (s : XString) : Prop :=
  ∃ block, s.cbuf = some block ∧ block[s.pos]? = some 0

/-- The buffer starts with a byte other than NUL, whether or not that byte still
belongs to the content. -/
def Dirty (s : XString) : Prop :=
  ∃ c rest, s.cbuf = some (c :: rest) ∧ c ≠ 0

/-! ## Laws of the operations -/

theorem exists_block {s : XString} (h : 0 < s.capacity) :
    ∃ block, s.cbuf = some block ∧ block.length = s.capacity := by
  have size_eq := s.size_eq
  cases cbuf_eq : s.cbuf with
  | none =>
      rw [cbuf_eq] at size_eq
      simp only [Option.getD_none, List.length_nil] at size_eq
      omega
  | some block =>
      rw [cbuf_eq] at size_eq
      exact ⟨block, rfl, size_eq⟩

/-- Growing the buffer keeps its content, and afterwards there is a buffer. -/
theorem checkCapacity_block (m : Memory) (s : XString) (extra : Nat) :
    ∃ block, (s.checkCapacity m extra).cbuf = some block ∧
      block.length = (s.checkCapacity m extra).capacity ∧
      block.take s.pos = s.bytes := by
  have room := checkCapacity_room m s extra
  obtain ⟨block, cbuf_eq, length_eq⟩ :=
    exists_block (s := s.checkCapacity m extra) (by omega)
  refine ⟨block, cbuf_eq, length_eq, ?_⟩
  have pos_le := s.pos_le
  have size_eq := s.size_eq
  unfold checkCapacity at cbuf_eq
  split at cbuf_eq
  · have block_eq := Option.some.inj cbuf_eq
    subst block_eq
    rw [bytes, Memory.realloc, List.take_append_of_le_length, List.take_take]
    · congr 1
      omega
    · rw [List.length_take]
      omega
  · rw [bytes, cbuf_eq, Option.getD_some]

@[simp]
theorem bytes_zero : zero.bytes = [] :=
  rfl

@[simp]
theorem bytes_clear (m : Memory) (s : XString) : (s.clear m).bytes = [] := by
  simp [bytes, clear]

@[simp]
theorem bytes_putc (m : Memory) (s : XString) (c : Byte) :
    (s.putc m c).bytes = s.bytes ++ [c] := by
  obtain ⟨block, cbuf_eq, length_eq, take_eq⟩ := checkCapacity_block m s 1
  have room := checkCapacity_room m s 1
  rw [checkCapacity_pos] at room
  simp only [bytes, putc, cbuf_eq, Option.map_some, Option.getD_some, checkCapacity_pos]
  rw [List.take_set_of_le (by omega), List.take_add_one, List.take_set_of_le (by omega)]
  rw [take_eq, bytes, List.getElem?_set_self (by omega), Option.toList_some]

@[simp]
theorem bytes_write (m : Memory) (s : XString) (bs : List Byte) :
    (s.write m bs).bytes = s.bytes ++ bs := by
  obtain ⟨block, cbuf_eq, length_eq, take_eq⟩ := checkCapacity_block m s bs.length
  have room := checkCapacity_room m s bs.length
  rw [checkCapacity_pos] at room
  simp only [bytes, write, cbuf_eq, Option.map_some, Option.getD_some, checkCapacity_pos]
  rw [List.take_set_of_le (by omega), List.take_append_of_le_length, List.take_of_length_le]
  · rw [take_eq, bytes]
  · rw [List.length_append, List.length_take]
    omega
  · rw [List.length_append, List.length_take]
    omega

theorem terminated_putc (m : Memory) (s : XString) (c : Byte) : (s.putc m c).Terminated := by
  obtain ⟨block, cbuf_eq, length_eq, -⟩ := checkCapacity_block m s 1
  have room := checkCapacity_room m s 1
  refine ⟨(block.set (s.checkCapacity m 1).pos c).set ((s.checkCapacity m 1).pos + 1) 0,
    by simp only [putc, cbuf_eq, Option.map_some], ?_⟩
  simp only [putc]
  rw [List.getElem?_set_self]
  rw [List.length_set]
  omega

/-- A reader of a terminated buffer sees the content, up to its first NUL. -/
theorem cstr_of_terminated (m : Memory) {s : XString} (h : s.Terminated) :
    s.cstr m = some (s.bytes.takeWhile (· ≠ 0)) := by
  obtain ⟨block, cbuf_eq, nul⟩ := h
  obtain ⟨pos_lt, nul⟩ := List.getElem?_eq_some_iff.mp nul
  rw [cstr, bytes, cbuf_eq, Option.map_some, Option.getD_some, Memory.cstr]
  have split_eq : block = block.take s.pos ++ 0 :: block.drop (s.pos + 1) := by
    rw [← nul, List.getElem_cons_drop, List.take_append_drop]
  congr 1
  conv_lhs => rw [split_eq]
  rw [List.append_assoc, List.cons_append, List.takeWhile_append]
  split
  · next all_kept =>
      rw [List.takeWhile_cons_of_neg (by simp), List.append_nil]
      exact (List.takeWhile_prefix _).eq_of_length all_kept |>.symm
  · rfl

@[simp]
theorem length_bytes (s : XString) : s.bytes.length = s.pos := by
  have size_eq := s.size_eq
  have pos_le := s.pos_le
  rw [bytes, List.length_take]
  omega

theorem cbuf_isSome_clear (m : Memory) (s : XString) : (s.clear m).cbuf.isSome := by
  obtain ⟨block, cbuf_eq, -⟩ := exists_block (s := s.clear m) (by simp [clear, strBufsiz])
  simp [cbuf_eq]

theorem cbuf_isSome_putc (m : Memory) (s : XString) (c : Byte) : (s.putc m c).cbuf.isSome := by
  obtain ⟨block, cbuf_eq, -⟩ := terminated_putc m s c
  simp [cbuf_eq]

/-! ## Several bytes -/

/-- Add bytes one at a time. -/
def puts (m : Memory) (s : XString) (bs : List Byte) : XString :=
  bs.foldl (putc m) s

@[simp]
theorem puts_nil (m : Memory) (s : XString) : s.puts m [] = s :=
  rfl

@[simp]
theorem puts_cons (m : Memory) (s : XString) (c : Byte) (rest : List Byte) :
    s.puts m (c :: rest) = (s.putc m c).puts m rest :=
  rfl

@[simp]
theorem bytes_puts (m : Memory) (s : XString) (bs : List Byte) :
    (s.puts m bs).bytes = s.bytes ++ bs := by
  induction bs generalizing s with
  | nil => simp
  | cons c rest ih => rw [puts_cons, ih, bytes_putc, List.append_assoc, List.singleton_append]

theorem cbuf_isSome_puts (m : Memory) {s : XString} (h : s.cbuf.isSome) (bs : List Byte) :
    (s.puts m bs).cbuf.isSome := by
  induction bs generalizing s with
  | nil => exact h
  | cons c rest ih => exact ih (cbuf_isSome_putc m s c)

theorem terminated_puts (m : Memory) (s : XString) {bs : List Byte} (nonempty : bs ≠ []) :
    (s.puts m bs).Terminated := by
  induction bs generalizing s with
  | nil => exact absurd rfl nonempty
  | cons c rest ih =>
      cases rest with
      | nil => exact terminated_putc m s c
      | cons d rest => exact ih (s.putc m c) (by simp)

/-- A reader sees exactly the bytes that were added to an emptied string, if any
were. -/
theorem cstr_puts (m : Memory) {s : XString} (empty : s.bytes = []) {bs : List Byte}
    (nonempty : bs ≠ []) (noNul : 0 ∉ bs) : (s.puts m bs).cstr m = some bs := by
  rw [cstr_of_terminated m (terminated_puts m s nonempty), bytes_puts, empty, List.nil_append,
    List.takeWhile_eq_self_iff.mpr]
  intro c member
  exact decide_eq_true fun zero : c = 0 => noNul (zero ▸ member)

/-! ## Old content behind an emptied string -/

theorem Dirty.realloc (m : Memory) {s : XString} (h : s.Dirty) {n : Nat} (positive : 0 < n) :
    ∃ c rest, m.realloc (s.cbuf.getD []) n = c :: rest ∧ c ≠ 0 := by
  obtain ⟨c, rest, cbuf_eq, nonzero⟩ := h
  obtain ⟨k, rfl⟩ := Nat.exists_eq_succ_of_ne_zero positive.ne'
  rw [cbuf_eq, Option.getD_some, Memory.realloc, List.take_succ_cons]
  exact ⟨c, _, rfl, nonzero⟩

/-- `x_string_clear` leaves the first byte of the buffer in place. -/
theorem Dirty.clear (m : Memory) {s : XString} (h : s.Dirty) : (s.clear m).Dirty := by
  unfold Dirty XString.clear
  simp only
  split
  · exact h
  · obtain ⟨c, rest, block_eq, nonzero⟩ := h.realloc m (n := strBufsiz) (by decide)
    exact ⟨c, rest, by rw [block_eq], nonzero⟩

theorem Dirty.putc (m : Memory) {s : XString} (h : s.Dirty) {c : Byte} (nonzero : c ≠ 0) :
    (s.putc m c).Dirty := by
  have grown : (s.checkCapacity m 1).Dirty := by
    unfold checkCapacity
    split
    · obtain ⟨x, rest, block_eq, x_ne⟩ :=
        h.realloc m (n := s.capacity + strBufsiz + 1 + 1) (by omega)
      exact ⟨x, rest, by simp only [block_eq], x_ne⟩
    · exact h
  obtain ⟨x, rest, cbuf_eq, x_ne⟩ := grown
  simp only [Dirty, XString.putc, cbuf_eq, Option.map_some, Option.some.injEq]
  cases (s.checkCapacity m 1).pos with
  | zero => exact ⟨c, _, rfl, nonzero⟩
  | succ pos => exact ⟨x, _, rfl, x_ne⟩

theorem Dirty.puts (m : Memory) {s : XString} (h : s.Dirty) {bs : List Byte} (noNul : 0 ∉ bs) :
    (s.puts m bs).Dirty := by
  induction bs generalizing s with
  | nil => exact h
  | cons c rest ih =>
      rw [List.mem_cons, not_or] at noNul
      exact ih (h.putc m (Ne.symm noNul.1)) noNul.2

/-- A reader of such a buffer does not see the empty string. -/
theorem Dirty.cstr_ne (m : Memory) {s : XString} (h : s.Dirty) : s.cstr m ≠ some [] := by
  obtain ⟨c, rest, cbuf_eq, nonzero⟩ := h
  simp [XString.cstr, cbuf_eq, Memory.cstr, nonzero]

end XString

end Xwbot
