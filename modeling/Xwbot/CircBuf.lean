import Xwbot.RingBuffer
import Xwbot.Runs
import Xwbot.Wire
import Xwbot.XString

/-!
# The circular buffer

The audio output keeps samples between the decoder and the sound card in a
buffer of a fixed number of bytes.  One byte more is allocated than the buffer
holds; the allocator rounds that up and keeps it in an `int`, so the largest
buffers get no storage.  A transfer goes in two copies when it crosses the end
of the storage.

A history puts next to the buffer what was written to it and what its
successful reads returned.
-/

namespace Xwbot

open Runs

/-- `circular_buffer_t`.  The pointers are offsets from `start`; behind NULL there is no byte that
can be used. -/
structure CircBuf where
  storage : List Byte
  /-- The offset of `end`. -/
  limit : Nat
  head : Nat
  tail : Nat
  deriving DecidableEq, Repr

namespace CircBuf

/-- A pointer behind a copy: `if (p >= cb->end) p = cb->start` -/
def advance (cb : CircBuf) (p : Nat) (len : Int) : Nat :=
  if cb.limit ≤ p + len.toNat then 0 else p + len.toNat

end CircBuf

/-- `x_malloc(n)`: a block with whatever the heap holds.  The rounded size is kept in an `int`, and
there is no block of a negative size. -/
def localMalloc (heap : Nat → Byte) (n : Nat) : List Byte :=
  if strMemlenAlign n ≤ intMax then (List.range n).map heap else []

/-- `circbuf_init`, which computes the size of the storage in `int`. -/
def circbufInit (heap : Nat → Byte) (size : Nat) : Except Fault CircBuf :=
  if intMax < size + 1 then .error .intOverflow
  else .ok { storage := localMalloc heap (size + 1), limit := size + 1, head := 0, tail := 0 }

/-- The bytes between the two pointers. -/
def circbufLength (cb : CircBuf) : Int :=
  if cb.head ≤ cb.tail then
    cb.tail - cb.head
  else
    let l1 : Int := cb.limit - cb.head
    let l2 : Int := cb.tail
    l1 + l2

/-- The source side of `memcpy(dst, block + i, len)`. -/
def copyFrom (block : List Byte) (i : Nat) (len : Int) : Except Fault (List Byte) :=
  if 0 ≤ len ∧ i + len ≤ block.length then .ok (slice block i len.toNat) else .error .overread

/-- `while (buf_size > 0)` of `circbuf_read`, with what was copied to `buf` so far. -/
def readLoop : Nat → CircBuf → Int → List Byte → Except Fault (CircBuf × List Byte)
  | 0, _, _, _ => .error .hang
  | fuel + 1, cb, bufSize, buf =>
      if 0 < bufSize then do
        let len := min (cb.limit - cb.head : Int) bufSize
        let bytes ← copyFrom cb.storage cb.head len
        readLoop fuel { cb with head := cb.advance cb.head len } (bufSize - len) (buf ++ bytes)
      else .ok (cb, buf)

/-- Returns the buffer, the result and what was copied to `buf`. -/
def circbufRead (cb : CircBuf) (bufSize : Int) : Except Fault (CircBuf × Int × List Byte) := do
  let size : Int := cb.tail - cb.head
  let size := if size < 0 then size + cb.limit else size
  if size < bufSize then
    .ok (cb, -1, [])
  else
    let result ← readLoop (bufSize.toNat + 1) cb bufSize []
    .ok (result.1, 0, result.2)

/-- `while (size > 0)` of `circbuf_write`, with the rest of `buf`. -/
def writeLoop : Nat → CircBuf → Int → List Byte → Except Fault CircBuf
  | 0, _, _, _ => .error .hang
  | fuel + 1, cb, size, buf =>
      if 0 < size then do
        let len := min (cb.limit - cb.tail : Int) size
        let bytes ← copyFrom buf 0 len
        let storage ← copyTo cb.storage cb.tail bytes
        writeLoop fuel { cb with storage, tail := cb.advance cb.tail len } (size - len)
          (buf.drop len.toNat)
      else .ok cb

/-- The return value is left out: the function has no `return`. -/
def circbufWrite (cb : CircBuf) (buf : List Byte) (size : Int) : Except Fault CircBuf :=
  writeLoop (size.toNat + 1) cb size buf

/-- What a caller of `circbuf_write` hands over. -/
structure Chunk where
  buf : List Byte
  size : Int
  /-- The caller's buffer has the bytes it announces. -/
  enough : size ≤ buf.length

/-- The bytes of a chunk. -/
def Chunk.bytes (chunk : Chunk) : List Byte :=
  chunk.buf.take chunk.size.toNat

/-- The calls that use the buffer. -/
inductive CircCall where
  | write (chunk : Chunk)
  | read (bufSize : Int)

/-- The buffer, what was written to it and what its successful reads returned. -/
structure CircHistory where
  cb : CircBuf
  written : List Byte
  returned : List Byte
  deriving DecidableEq, Repr

namespace CircHistory

/-- The number of bytes that were written and not read yet. -/
def unread (history : CircHistory) : Int :=
  history.written.length - history.returned.length

/-- One call. -/
def exec (history : CircHistory) : CircCall → Except Fault CircHistory
  | .write chunk => do
      let cb ← circbufWrite history.cb chunk.buf chunk.size
      .ok { history with cb, written := history.written ++ chunk.bytes }
  | .read bufSize => do
      let (cb, result, bytes) ← circbufRead history.cb bufSize
      .ok { history with cb, returned := history.returned ++ (if result = 0 then bytes else []) }

/-- A write is not larger than the capacity minus the unread count. -/
def Fits (capacity : Nat) (history : CircHistory) : CircCall → Prop
  | .write chunk => chunk.size ≤ capacity - history.unread
  | .read _ => True

instance decidableFits (capacity : Nat) (history : CircHistory) :
    ∀ call, Decidable (history.Fits capacity call)
  | .write chunk => inferInstanceAs (Decidable (chunk.size ≤ capacity - history.unread))
  | .read _ => inferInstanceAs (Decidable True)

/-- Nothing was written yet. -/
def start (heap : Nat → Byte) (capacity : Nat) : Except Fault CircHistory := do
  let cb ← circbufInit heap capacity
  .ok { cb, written := [], returned := [] }

end CircHistory

variable {cb : CircBuf} {queue buf : List Byte} {n fuel : Nat} {size : Int}

namespace CircBuf

/-- The buffer has its storage, which holds a queue. -/
structure Holds (cb : CircBuf) (queue : List Byte) : Prop where
  ring : RingBuffer.Holds cb.storage cb.head cb.tail queue
  whole : cb.limit = cb.storage.length

theorem advance_eq (whole : cb.limit = cb.storage.length) (p k : Nat) (uncut : p + k ≤ cb.limit) :
    cb.advance p (k : Int) = RingBuffer.wrap cb.storage.length (p + k) := by
  rw [advance, Int.toNat_natCast]
  rw [whole] at uncut ⊢
  rcases RingBuffer.wrap_cases cb.storage.length (p + k) with ⟨early, spot⟩ | ⟨late, spot⟩
  · rw [spot, if_neg (by omega)]
  · rw [spot, if_pos late]
    omega

end CircBuf

theorem circbufLength_eq (holds : cb.Holds queue) : circbufLength cb = queue.length := by
  have inside := holds.ring.headInside
  rw [holds.ring.length_eq]
  simp only [circbufLength, holds.whole]
  split_ifs <;> omega

/-- `circbuf_read` computes the number of unread bytes as `circbuf_length` does. -/
theorem size_eq (holds : cb.Holds queue) :
    (if (cb.tail : Int) - cb.head < 0 then (cb.tail : Int) - cb.head + cb.limit
      else (cb.tail : Int) - cb.head) = queue.length := by
  have inside := holds.ring.headInside
  rw [holds.ring.length_eq, holds.whole]
  split_ifs <;> omega

theorem copyFrom_eq_ok {block : List Byte} {i k : Nat} (inside : i + k ≤ block.length) :
    copyFrom block i (k : Int) = .ok ((block.drop i).take k) := by
  rw [copyFrom, if_pos (by omega), slice, Int.toNat_natCast]

/-- The length of a copy: up to the end of the storage, or all that is left. -/
theorem exists_len {cb : CircBuf} {p : Nat} (inside : p < cb.limit) (some : 0 < n) :
    ∃ k : Nat, min (cb.limit - p : Int) n = k ∧ 0 < k ∧ k ≤ n ∧ p + k ≤ cb.limit := by
  refine ⟨min (cb.limit - p) n, ?_, ?_, ?_, ?_⟩ <;> omega

/-- The loop takes the first bytes of the queue. -/
theorem readLoop_spec (holds : cb.Holds queue) (within : n ≤ queue.length) (steps : n < fuel) :
    ∃ cb', readLoop fuel cb n buf = .ok (cb', buf ++ queue.take n) ∧
      cb'.Holds (queue.drop n) ∧ cb'.limit = cb.limit := by
  induction fuel generalizing cb queue n buf with
  | zero => omega
  | succ fuel ih =>
      rw [readLoop]
      by_cases some : 0 < n
      · rcases exists_len (holds.whole ▸ holds.ring.headInside) some with
          ⟨k, len, progress, most, uncut⟩
        have inside : cb.head + k ≤ cb.storage.length := holds.whole ▸ uncut
        have moved : CircBuf.Holds { cb with head := cb.advance cb.head (k : Int) }
            (queue.drop k) := by
          refine ⟨?_, holds.whole⟩
          rw [CircBuf.advance_eq holds.whole cb.head k uncut]
          exact holds.ring.drop (by omega)
        have rest : ((n : Int) - k) = (n - k : Nat) := by
          omega
        have shorter : n - k ≤ (queue.drop k).length := by
          rw [List.length_drop]
          omega
        rcases @ih _ _ (buf ++ queue.take k) _ moved shorter (by omega) with
          ⟨cb', looped, behind, kept⟩
        refine ⟨cb', ?_, ?_, kept⟩
        · rw [if_pos (by omega), len]
          dsimp only
          rw [copyFrom_eq_ok inside, ok_bind, holds.ring.front (by omega) inside, rest, looped,
            List.append_assoc, ← List.take_add, Nat.add_sub_cancel' most]
        · rw [List.drop_drop, Nat.add_sub_cancel' most] at behind
          exact behind
      · have none : n = 0 := by
          omega
        subst none
        refine ⟨cb, ?_, ?_, rfl⟩
        · simp
        · rw [List.drop_zero]
          exact holds

/-- The loop appends the bytes to the queue. -/
theorem writeLoop_spec (holds : cb.Holds queue) (room : queue.length + n < cb.limit)
    (enough : n ≤ buf.length) (steps : n < fuel) :
    ∃ cb', writeLoop fuel cb n buf = .ok cb' ∧ cb'.Holds (queue ++ buf.take n) ∧
      cb'.limit = cb.limit := by
  induction fuel generalizing cb queue n buf with
  | zero => omega
  | succ fuel ih =>
      rw [writeLoop]
      by_cases some : 0 < n
      · rcases exists_len (holds.whole ▸ holds.ring.tail_lt) some with
          ⟨k, len, progress, most, uncut⟩
        have inside : cb.tail + k ≤ cb.storage.length := holds.whole ▸ uncut
        have part : (buf.take k).length = k := by
          rw [List.length_take]
          omega
        have written : copyTo cb.storage cb.tail (buf.take k) =
            .ok (splice cb.storage cb.tail (buf.take k)) := by
          rw [copyTo, part]
          exact if_pos inside
        have sameLength : (splice cb.storage cb.tail (buf.take k)).length =
            cb.storage.length := by
          apply length_splice
          rw [part]
          exact inside
        have moved : CircBuf.Holds
            { cb with storage := splice cb.storage cb.tail (buf.take k)
                      tail := cb.advance cb.tail (k : Int) } (queue ++ buf.take k) := by
          have cells : ∀ j, (splice cb.storage cb.tail (buf.take k))[j]? =
              if cb.tail ≤ j ∧ j < cb.tail + (buf.take k).length then (buf.take k)[j - cb.tail]?
              else cb.storage[j]? :=
            fun j => getElem?_splice (by rw [part]; exact inside)
          have fits : queue.length + (buf.take k).length < cb.storage.length := by
            rw [part, ← holds.whole]
            omega
          have appended := holds.ring.append fits sameLength cells (by rw [part]; exact inside)
          rw [part] at appended
          refine ⟨?_, holds.whole.trans sameLength.symm⟩
          rw [CircBuf.advance_eq holds.whole cb.tail k uncut]
          exact appended
        have rest : ((n : Int) - k) = (n - k : Nat) := by
          omega
        have roomLeft : (queue ++ buf.take k).length + (n - k) < cb.limit := by
          rw [List.length_append, part]
          omega
        have left : n - k ≤ (buf.drop k).length := by
          rw [List.length_drop]
          omega
        rcases ih moved roomLeft left (by omega) with ⟨cb', looped, behind, kept⟩
        refine ⟨cb', ?_, ?_, kept⟩
        · rw [if_pos (by omega), len]
          dsimp only
          rw [copyFrom_eq_ok (by omega), ok_bind, List.drop_zero, written, ok_bind, rest,
            Int.toNat_natCast, looped]
        · rw [List.append_assoc, ← List.take_add, Nat.add_sub_cancel' most] at behind
          exact behind
      · have none : n = 0 := by
          omega
        subst none
        refine ⟨cb, ?_, ?_, rfl⟩
        · simp
        · rw [List.take_zero, List.append_nil]
          exact holds

/-- A read of more than there is leaves the buffer as it is. -/
theorem circbufRead_short (holds : cb.Holds queue) (short : queue.length < size) :
    circbufRead cb size = .ok (cb, -1, []) := by
  simp only [circbufRead]
  rw [size_eq holds, if_pos short]

/-- Any other read returns the first bytes of the queue. -/
theorem circbufRead_spec (holds : cb.Holds queue) (within : size ≤ queue.length) :
    ∃ cb', circbufRead cb size = .ok (cb', 0, queue.take size.toNat) ∧
      cb'.Holds (queue.drop size.toNat) ∧ cb'.limit = cb.limit := by
  simp only [circbufRead]
  rw [size_eq holds, if_neg (by omega)]
  by_cases negative : size < 0
  · have none : size.toNat = 0 := by
      omega
    refine ⟨cb, ?_, ?_, rfl⟩
    · rw [none, readLoop, if_neg (by omega)]
      rfl
    · rw [none, List.drop_zero]
      exact holds
  · have some : size.toNat ≤ queue.length := by
      omega
    rcases readLoop_spec holds some (Nat.lt_succ_self size.toNat) with
      ⟨cb', looped, behind, kept⟩
    rw [Int.toNat_of_nonneg (by omega)] at looped
    refine ⟨cb', ?_, behind, kept⟩
    rw [looped]
    rfl

/-- A write that fits appends its bytes. -/
theorem circbufWrite_spec (holds : cb.Holds queue) (chunk : Chunk)
    (room : queue.length + chunk.size < cb.limit) :
    ∃ cb', circbufWrite cb chunk.buf chunk.size = .ok cb' ∧ cb'.Holds (queue ++ chunk.bytes) ∧
      cb'.limit = cb.limit := by
  have enough := chunk.enough
  unfold circbufWrite Chunk.bytes
  by_cases negative : chunk.size < 0
  · have none : chunk.size.toNat = 0 := by
      omega
    refine ⟨cb, ?_, ?_, rfl⟩
    · rw [none, writeLoop, if_neg (by omega)]
    · rw [none, List.take_zero, List.append_nil]
      exact holds
  · have some : chunk.size.toNat ≤ chunk.buf.length := by
      omega
    have looped := writeLoop_spec holds (by omega) some (Nat.lt_succ_self chunk.size.toNat)
    rw [Int.toNat_of_nonneg (by omega)] at looped
    exact looped

namespace CircHistory

/-- **Queue invariant.**  The buffer holds what was written and not returned yet. -/
def Queued (capacity : Nat) (history : CircHistory) : Prop :=
  ∃ queue, history.cb.Holds queue ∧ history.written = history.returned ++ queue ∧
    history.cb.limit = capacity + 1

variable {heap : Nat → Byte} {capacity : Nat} {history : CircHistory} {call : CircCall}

/-- The capacities for which there is storage. -/
theorem strMemlenAlign_succ_le_intMax_iff :
    strMemlenAlign (capacity + 1) ≤ intMax ↔ capacity < 2147483616 := by
  unfold strMemlenAlign strBufsiz intMax
  omega

theorem queued_start (heap : Nat → Byte) (small : capacity < 2147483616) :
    ∃ history, start heap capacity = .ok history ∧ history.Queued capacity := by
  have int : ¬intMax < capacity + 1 := by
    unfold intMax
    omega
  have storage : localMalloc heap (capacity + 1) = (List.range (capacity + 1)).map heap :=
    if_pos (strMemlenAlign_succ_le_intMax_iff.mpr small)
  refine ⟨_, by rw [start, circbufInit, if_neg int, ok_bind], [], ⟨?_, ?_⟩, rfl, rfl⟩
  · apply RingBuffer.Holds.empty
    simp [storage]
  · simp [storage]

/-- Without storage there is no place for the first byte. -/
theorem exec_of_noStorage (large : 2147483616 ≤ capacity)
    (started : start heap capacity = .ok history) :
    history.exec (.write ⟨[0], 1, by decide⟩) = .error .overflow := by
  rcases bind_eq_ok_iff.mp started with ⟨cb, made, same⟩
  cases same
  rw [circbufInit] at made
  split at made
  · cases made
  · cases made
    have storage : localMalloc heap (capacity + 1) = [] :=
      if_neg fun fits => Nat.not_lt.mpr large (strMemlenAlign_succ_le_intMax_iff.mp fits)
    have len : min ((capacity + 1 : Nat) - (0 : Nat) : Int) 1 = 1 := by omega
    rw [CircHistory.exec, circbufWrite, storage]
    change (writeLoop 2 _ 1 [0] >>= _) = _
    rw [writeLoop, if_pos (by decide), len]
    rfl

/-- **Step lemma.**  A call that fits succeeds and keeps the invariant. -/
theorem Queued.exec (queued : history.Queued capacity) (fits : history.Fits capacity call) :
    Lands (Queued capacity) (fun _ => False) (history.exec call) := by
  rcases queued with ⟨queue, holds, split, limit⟩
  have unread : history.unread = queue.length := by
    rw [CircHistory.unread, split, List.length_append]
    omega
  cases call with
  | write chunk =>
      have room : chunk.size ≤ capacity - history.unread := fits
      rcases circbufWrite_spec holds chunk (by omega) with ⟨cb', wrote, behind, kept⟩
      simp only [CircHistory.exec, wrote, ok_bind]
      refine ⟨queue ++ chunk.bytes, behind, ?_, kept.trans limit⟩
      rw [split, List.append_assoc]
  | read bufSize =>
      by_cases short : queue.length < bufSize
      · simp only [CircHistory.exec, circbufRead_short holds short, ok_bind]
        refine ⟨queue, holds, ?_, limit⟩
        rw [split]
        simp
      · rcases circbufRead_spec holds (Int.not_lt.mp short) with ⟨cb', result, behind, kept⟩
        simp only [CircHistory.exec, result, ok_bind]
        refine ⟨queue.drop bufSize.toNat, behind, ?_, kept.trans limit⟩
        rw [if_pos trivial, List.append_assoc, List.take_append_drop]
        exact split

end CircHistory

/-- What the buffer promises for a capacity.  In whatever order it is written and read, with no
write larger than what is free: no call fails, what the successful reads returned is a prefix of
what was written, and the length is the number of bytes written and not read.  A read of more than
that returns -1 and changes nothing, and any other returns the next bytes. -/
def CircFifo (heap : Nat → Byte) (capacity : Nat) : Prop :=
  ∃ started, CircHistory.start heap capacity = .ok started ∧ ∀ calls,
    Along CircHistory.exec (CircHistory.Fits capacity) started calls →
      ∃ history, run CircHistory.exec started calls = .ok history ∧
        history.returned <+: history.written ∧ circbufLength history.cb = history.unread ∧
        (∀ bufSize, history.unread < bufSize →
          circbufRead history.cb bufSize = .ok (history.cb, -1, [])) ∧
        ∀ bufSize ≤ history.unread, ∃ cb', circbufRead history.cb bufSize =
          .ok (cb', 0, slice history.written history.returned.length bufSize.toNat)

theorem CircHistory.Queued.fifo {capacity : Nat} {history : CircHistory}
    (queued : history.Queued capacity) : history.returned <+: history.written ∧
      circbufLength history.cb = history.unread ∧
      (∀ bufSize, history.unread < bufSize →
        circbufRead history.cb bufSize = .ok (history.cb, -1, [])) ∧
      ∀ bufSize ≤ history.unread, ∃ cb', circbufRead history.cb bufSize =
        .ok (cb', 0, slice history.written history.returned.length bufSize.toNat) := by
  rcases queued with ⟨queue, holds, split, limit⟩
  have unread : history.unread = queue.length := by
    rw [CircHistory.unread, split, List.length_append]
    omega
  refine ⟨?_, ?_, ?_, ?_⟩
  · rw [split]
    exact List.prefix_append history.returned queue
  · rw [circbufLength_eq holds, unread]
  · intro bufSize more
    exact circbufRead_short holds (unread ▸ more)
  · intro bufSize within
    rcases circbufRead_spec holds (unread ▸ within) with ⟨cb', result, -, -⟩
    refine ⟨cb', ?_⟩
    rw [result, split, slice, List.drop_left]

theorem not_circFifo_of_large {heap : Nat → Byte} {capacity : Nat}
    (large : 2147483616 ≤ capacity) : ¬CircFifo heap capacity := by
  rintro ⟨started, start, fifo⟩
  have fits : Along CircHistory.exec (CircHistory.Fits capacity) started
      [.write ⟨[0], 1, by decide⟩] := by
    refine ⟨?_, fun _ _ => trivial⟩
    rcases bind_eq_ok_iff.mp start with ⟨cb, -, same⟩
    cases same
    simp only [CircHistory.Fits, CircHistory.unread, List.length_nil]
    omega
  rcases fifo _ fits with ⟨history, reached, -⟩
  rw [run_cons, CircHistory.exec_of_noStorage large start] at reached
  cases reached

/-- **The circular buffer is a queue**, exactly if there is storage for its capacity. -/
theorem circFifo_iff (heap : Nat → Byte) (capacity : Nat) :
    CircFifo heap capacity ↔ capacity < 2147483616 := by
  constructor
  · intro fifo
    by_contra large
    exact not_circFifo_of_large (Nat.not_lt.mp large) fifo
  · intro small
    rcases CircHistory.queued_start heap small with ⟨started, start, queued⟩
    refine ⟨started, start, fun calls fits => ?_⟩
    have lands : Lands (CircHistory.Queued capacity) (fun _ => False)
        (run CircHistory.exec started calls) :=
      fits.lands (fun history call queued fits => CircHistory.Queued.exec queued fits) queued
    rcases lands_false_iff.mp lands with ⟨history, reached, queued⟩
    exact ⟨history, reached, queued.fifo⟩

/-- For the first capacity whose size is rounded up to `2 ^ 31` there is no storage. -/
theorem not_circFifo_first : ¬∀ heap capacity, capacity ≤ intMax → CircFifo heap capacity := by
  intro fifo
  exact not_circFifo_of_large le_rfl (fifo (fun _ => 0) 2147483616 (by decide))

end Xwbot
