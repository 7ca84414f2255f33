import Xwbot.Fault
import Xwbot.Text

/-!
# Fields of a received buffer

A packet is a buffer of bytes of which the first ones were received.  A field
is read at an offset, and a read that reaches behind the received bytes fails.
Numbers of more than one byte are in network order.
-/

namespace Xwbot

variable {l block part : List Byte} {i k n : Nat} {bytes : List Byte}

/-- The number in network order at an offset. -/
def be16 (l : List Byte) (i : Nat) : Nat :=
  (l.getD i 0).toNat * 256 + (l.getD (i + 1) 0).toNat

/-- The number of 32 bits in network order at an offset. -/
def be32 (l : List Byte) (i : Nat) : Nat :=
  be16 l i * 65536 + be16 l (i + 2)

/-- The bytes of a 16-bit number in network order. -/
def htons (n : Nat) : List Byte :=
  [(n / 256).toUInt8, n.toUInt8]

/-- The bytes of a 32-bit number in network order. -/
def htonl (n : Nat) : List Byte :=
  [(n / 16777216).toUInt8, (n / 65536).toUInt8, (n / 256).toUInt8, n.toUInt8]

/-- The bytes from an offset on. -/
def slice (l : List Byte) (i k : Nat) : List Byte :=
  (l.drop i).take k

/-- `buf[i]` -/
def readU8 (l : List Byte) (i : Nat) : Except Fault Byte :=
  match l[i]? with
  | some byte => .ok byte
  | none => .error .overread

/-- `ntohs(*(uint16_t *) (buf + i))` -/
def readU16 (l : List Byte) (i : Nat) : Except Fault Nat :=
  if i + 2 ≤ l.length then .ok (be16 l i) else .error .overread

/-- The source side of `x_memcpy(dst, buf + i, k)`. -/
def readBytes (l : List Byte) (i k : Nat) : Except Fault (List Byte) :=
  if i + k ≤ l.length then .ok (slice l i k) else .error .overread

/-- The block with other contents from a place on. -/
def splice (block : List Byte) (i : Nat) (part : List Byte) : List Byte :=
  block.take i ++ (part ++ block.drop (i + part.length))

/-- `memcpy(block + i, part, n)` for `n` bytes. -/
def copyTo (block : List Byte) (i : Nat) (part : List Byte) : Except Fault (List Byte) :=
  if i + part.length ≤ block.length then .ok (splice block i part) else .error .overflow

/-- The content of a block after `x_realloc(block, n)`.  What is new holds whatever the heap
holds. -/
def realloc (heap : Nat → Byte) (block : List Byte) (n : Nat) : List Byte :=
  (List.range n).map fun i => block.getD i (heap i)

@[simp]
theorem length_htons (n : Nat) : (htons n).length = 2 :=
  rfl

@[simp]
theorem length_htonl (n : Nat) : (htonl n).length = 4 :=
  rfl

theorem be16_lt (l : List Byte) (i : Nat) : be16 l i < 65536 := by
  have high := (l.getD i 0).toNat_lt
  have low := (l.getD (i + 1) 0).toNat_lt
  unfold be16
  omega

theorem readU8_eq_ok_iff {byte : Byte} : readU8 l i = .ok byte ↔ l[i]? = some byte := by
  unfold readU8
  cases l[i]? <;> simp

theorem readU16_eq_ok_iff : readU16 l i = .ok n ↔ i + 2 ≤ l.length ∧ n = be16 l i := by
  unfold readU16
  split
  · rename_i inside
    simp [inside, eq_comm]
  · rename_i outside
    simp [outside]

theorem readBytes_eq_ok_iff :
    readBytes l i k = .ok bytes ↔ i + k ≤ l.length ∧ bytes = slice l i k := by
  unfold readBytes
  split
  · rename_i inside
    simp [inside, eq_comm]
  · rename_i outside
    simp [outside]

theorem length_slice (inside : i + k ≤ l.length) : (slice l i k).length = k := by
  rw [slice, List.length_take, List.length_drop]
  omega

/-- What is read of a buffer was in it. -/
theorem slice_isInfix (l : List Byte) (i k : Nat) : slice l i k <:+: l :=
  (List.take_prefix k _).isInfix.trans (List.drop_suffix i l).isInfix

/-- What is written in network order is read back. -/
theorem be16_append (before : List Byte) (small : n < 65536) (behind : List Byte) :
    be16 (before ++ (htons n ++ behind)) before.length = n := by
  have high : ((n / 256).toUInt8).toNat = n / 256 := by
    rw [Nat.toUInt8_eq, UInt8.toNat_ofNat', Nat.mod_eq_of_lt (by omega)]
  have low : (n.toUInt8).toNat = n % 256 := by
    rw [Nat.toUInt8_eq, UInt8.toNat_ofNat']
  simp only [be16, htons, List.cons_append, List.nil_append, List.getD_eq_getElem?_getD,
    List.getElem?_append_right (Nat.le_refl _), List.getElem?_append_right (Nat.le_add_right _ 1),
    Nat.sub_self, Nat.add_sub_cancel_left, List.getElem?_cons_zero, List.getElem?_cons_succ,
    Option.getD_some, high, low]
  omega

/-- A part of known place and length. -/
theorem slice_append (before part behind : List Byte) :
    slice (before ++ (part ++ behind)) before.length part.length = part := by
  rw [slice, List.drop_left, List.take_left]

theorem length_splice (inside : i + part.length ≤ block.length) :
    (splice block i part).length = block.length := by
  simp only [splice, List.length_append, List.length_take, List.length_drop]
  omega

theorem getElem?_splice (inside : i + part.length ≤ block.length) :
    (splice block i part)[k]? =
      if i ≤ k ∧ k < i + part.length then part[k - i]? else block[k]? := by
  have before : (block.take i).length = i := by
    rw [List.length_take]
    omega
  unfold splice
  by_cases early : k < i
  · rw [List.getElem?_append_left (by omega), List.getElem?_take_of_lt early, if_neg (by omega)]
  · rw [List.getElem?_append_right (by omega), before]
    by_cases late : k < i + part.length
    · rw [List.getElem?_append_left (by omega), if_pos ⟨by omega, late⟩]
    · rw [List.getElem?_append_right (by omega), List.getElem?_drop, if_neg (by omega)]
      congr 1
      omega

/-- A copy to a known place. -/
theorem copyTo_append (before part : List Byte) {behind : List Byte}
    (fits : part.length ≤ behind.length) :
    copyTo (before ++ behind) before.length part =
      .ok (before ++ (part ++ behind.drop part.length)) := by
  have inside : before.length + part.length ≤ (before ++ behind).length := by
    rw [List.length_append]
    omega
  rw [copyTo, if_pos inside, splice, List.take_left, List.drop_append, List.drop_eq_nil_of_le
    (Nat.le_add_right _ _), List.nil_append, Nat.add_sub_cancel_left]

/-- A copy behind what was copied to a block before. -/
theorem copyTo_drop (block before : List Byte) {part : List Byte}
    (fits : before.length + part.length ≤ block.length) :
    copyTo (before ++ block.drop before.length) before.length part =
      .ok ((before ++ part) ++ block.drop (before ++ part).length) := by
  have room : part.length ≤ (block.drop before.length).length := by
    rw [List.length_drop]
    omega
  rw [copyTo_append before part room, List.drop_drop, List.length_append, List.append_assoc]

@[simp]
theorem length_realloc (heap : Nat → Byte) (block : List Byte) (n : Nat) :
    (realloc heap block n).length = n := by
  simp [realloc]

@[simp]
theorem realloc_length (heap : Nat → Byte) (block : List Byte) :
    realloc heap block block.length = block := by
  apply List.ext_getElem
  · simp
  · intro i _ inside
    simp [realloc, inside]

/-- A block that grows keeps its content. -/
theorem realloc_eq_append (heap : Nat → Byte) {block : List Byte} (larger : block.length ≤ n) :
    ∃ fresh, realloc heap block n = block ++ fresh := by
  refine ⟨(realloc heap block n).drop block.length, ?_⟩
  have kept : (realloc heap block n).take block.length = block := by
    apply List.ext_getElem
    · simp [larger]
    · intro i _ inside
      simp [realloc, inside]
  calc realloc heap block n
      = (realloc heap block n).take block.length ++ (realloc heap block n).drop block.length :=
        (List.take_append_drop _ _).symm
    _ = block ++ (realloc heap block n).drop block.length := by rw [kept]

end Xwbot
