import Xwbot.Crypt.Sha1

/-!
# MD5 in parts

A part of a message fills up the block, goes past it in whole blocks, and leaves the rest in it.
A state that was finished goes on with what was padded.
-/

namespace Xwbot.Crypt

open Blocks Machines

/-- `md5_state_t` -/
structure Md5Context where
  count₀ : UInt32
  count₁ : UInt32
  abcd : Md5State
  buf : Vector Byte 64

/-- A call. -/
inductive Md5Call where
  /-- `md5_init` -/
  | init
  /-- `md5_append` -/
  | append (data : List Byte)
  /-- `md5_finish` -/
  | finish
  deriving DecidableEq, Repr

namespace Md5Context

/-- `md5_init` -/
def init (pms : Md5Context) : Md5Context :=
  { pms with count₀ := 0, count₁ := 0, abcd := md5Init }

/-- `memcpy(pms->buf + offset, p, copy)` -/
def copy (pms : Md5Context) (offset : Nat) (p : List Byte) : Except Fault Md5Context :=
  if offset + p.length ≤ 64 then
    .ok { pms with
      buf := (p.zipIdx offset).foldl (fun buf entry => buf.setIfInBounds entry.2 entry.1) pms.buf }
  else .error .overflow

/-- `(pms->count[0] >> 3) & 63` -/
def offset (pms : Md5Context) : Nat :=
  ((pms.count₀ >>> 3) &&& 63).toNat

/-- The message length goes up by `nbytes`. -/
def addLength (pms : Md5Context) (nbytes : Nat) : Md5Context :=
  let nbits := (nbytes * 8).toUInt32
  let count₀ := pms.count₀ + nbits
  let count₁ := pms.count₁ + (nbytes / 536870912).toUInt32
  { pms with
    count₀ := count₀
    count₁ := if count₀ < nbits then count₁ + 1 else count₁ }

/-- The full blocks, and the final partial block. -/
def fullBlocks (pms : Md5Context) (p : List Byte) : Except Fault Md5Context :=
  if 64 ≤ p.length then
    fullBlocks { pms with abcd := md5Process pms.abcd (p.take 64) } (p.drop 64)
  else pms.copy 0 p
termination_by p.length
decreasing_by
  rw [List.length_drop]
  omega

/-- An initial partial block, and what is behind it. -/
def appendPartial (pms : Md5Context) (offset : Nat) (data : List Byte) :
    Except Fault Md5Context := do
  let p := data.take (64 - offset)
  let pms ← pms.copy offset p
  if offset + p.length < 64 then .ok pms
  else
    fullBlocks { pms with abcd := md5Process pms.abcd pms.buf.toList } (data.drop p.length)

/-- `md5_append`; `nbytes << 3` is an `int`. -/
def append (pms : Md5Context) (data : List Byte) : Except Fault Md5Context :=
  if 2147483648 ≤ data.length * 8 then .error .intOverflow
  else if data = [] then .ok pms
  else do
    let offset := pms.offset
    let pms := pms.addLength data.length
    if offset ≠ 0 then pms.appendPartial offset data else pms.fullBlocks data

/-- `data[i]` and `digest[i]`, four for a word. -/
def wordBytes (word : UInt32) : List Byte :=
  [word.toUInt8, (word >>> 8).toUInt8, (word >>> 16).toUInt8, (word >>> 24).toUInt8]

/-- `md5_finish` -/
def finish (pms : Md5Context) : Except Fault (Md5Context × List Byte) := do
  let data := wordBytes pms.count₀ ++ wordBytes pms.count₁
  let zeros := (((55 : UInt32) - (pms.count₀ >>> 3)) &&& 63).toNat
  let pms ← pms.append (0x80 :: List.replicate zeros 0)
  let pms ← pms.append data
  let h := pms.abcd
  .ok (pms, wordBytes h.a ++ wordBytes h.b ++ wordBytes h.c ++ wordBytes h.d)

/-- One call, and the digest if one was written. -/
def step (pms : Md5Context) : Md5Call → Except Fault (Md5Context × Option (List Byte))
  | .init => .ok (pms.init, none)
  | .append data => do
      let pms ← pms.append data
      .ok (pms, none)
  | .finish => do
      let (pms, digest) ← pms.finish
      .ok (pms, some digest)

end Md5Context

/-! ## The machine that keeps the message -/

/-- What `md5_finish` appends to a message. -/
def md5Padding (message : List Byte) : List Byte :=
  0x80 :: (List.replicate ((119 - message.length % 64) % 64) 0 ++
    (lowFirst (8 * message.length) ++ lowFirst (8 * message.length / 4294967296)))

/-- One call.  A part has less than 2^28 bytes, and what was finished goes on with its padding. -/
def md5Expected (message : List Byte) : Md5Call → Except Fault (List Byte × Option (List Byte))
  | .init => .ok ([], none)
  | .append data =>
      if data.length < 2 ^ 28 then .ok (message ++ data, none) else .error .intOverflow
  | .finish => .ok (message ++ md5Padding message, some (md5 message))

namespace Md5Context

attribute [local irreducible] md5Process

variable {pms : Md5Context} {message p : List Byte}

/-! ## The block -/

/-- The block and the hash, and nothing of the length. -/
structure Same (pms pms' : Md5Context) : Prop where
  count₀ : pms'.count₀ = pms.count₀
  count₁ : pms'.count₁ = pms.count₁

theorem copy_spec {offset : Nat} (fits : offset + p.length ≤ 64) :
    ∃ pms', pms.copy offset p = .ok pms' ∧ pms.Same pms' ∧ pms'.abcd = pms.abcd ∧
      pms'.buf.toList.take (offset + p.length) = pms.buf.toList.take offset ++ p := by
  refine ⟨_, if_pos fits, ⟨rfl, rfl⟩, rfl, ?_⟩
  have length : pms.buf.toList.length = 64 := pms.buf.length_toList
  have place : (pms.buf.toList.take offset ++ p).length = offset + p.length := by
    rw [List.length_append, List.length_take]
    omega
  rw [toList_foldl_setIfInBounds _ _ _ fits, ← place, List.take_left]

/-- The buffer with nothing in it. -/
def fresh (abcd : Md5State) : Buffer Md5State Byte 64 :=
  Buffer.empty block_pos abcd

/-- The full blocks are processed, and the rest is kept. -/
theorem fullBlocks_spec (pms : Md5Context) (p : List Byte) :
    ∃ pms', pms.fullBlocks p = .ok pms' ∧ pms.Same pms' ∧
      pms'.abcd = ((fresh pms.abcd).absorb md5Process p).state ∧
      pms'.buf.toList.take (p.length % 64) = ((fresh pms.abcd).absorb md5Process p).pending := by
  induction pms, p using fullBlocks.induct with
  | case1 pms p long ih =>
      have first : (fresh pms.abcd).absorb md5Process p =
          (fresh (md5Process pms.abcd (p.take 64))).absorb md5Process (p.drop 64) :=
        Buffer.absorb_inBlocks _ 1 (by rwa [Nat.one_mul])
      have rest : (p.drop 64).length % 64 = p.length % 64 := by
        rw [List.length_drop]
        omega
      rcases ih with ⟨pms', result, same, state, pending⟩
      rw [rest] at pending
      refine ⟨pms', ?_, ⟨same.count₀, same.count₁⟩, ?_, ?_⟩
      · rw [fullBlocks, if_pos long, result]
      · rw [first, state]
      · rw [first, pending]
  | case2 pms p short =>
      have room : ((fresh pms.abcd).pending ++ p).length < 64 := Nat.lt_of_not_le short
      have fits : 0 + p.length ≤ 64 := by omega
      rcases pms.copy_spec fits with ⟨pms', result, same, state, holds⟩
      refine ⟨pms', ?_, same, ?_, ?_⟩
      · rw [fullBlocks, if_neg short, result]
      · rw [state, Buffer.absorb_of_lt room]
        rfl
      · rw [Nat.zero_add, List.take_zero, List.nil_append] at holds
        rw [Nat.mod_eq_of_lt (Nat.lt_of_not_le short), holds, Buffer.absorb_of_lt room]
        rfl

/-! ## A part -/

/-- The buffer after a message. -/
def buffer (message : List Byte) : Buffer Md5State Byte 64 :=
  (fresh md5Init).absorb md5Process message

/-- A state that took a message. -/
structure Holds (pms : Md5Context) (message : List Byte) : Prop where
  state : pms.abcd = (buffer message).state
  pending : pms.buf.toList.take (message.length % 64) = (buffer message).pending
  count₀ : pms.count₀.toNat = 8 * message.length % 4294967296
  count₁ : pms.count₁.toNat = 8 * message.length / 4294967296 % 4294967296

theorem holds_init (pms : Md5Context) : pms.init.Holds [] where
  state := rfl
  pending := List.take_zero
  count₀ := rfl
  count₁ := rfl

theorem toNat_and_63 (word : UInt32) : (word &&& 63).toNat = word.toNat % 64 := by
  rw [UInt32.toNat_and]
  exact Nat.and_two_pow_sub_one_eq_mod _ 6

/-- The length in bytes. -/
theorem Holds.toNat_shift (holds : pms.Holds message) :
    (pms.count₀ >>> 3).toNat = message.length % 536870912 := by
  have count := holds.count₀
  have shift : (pms.count₀ >>> 3).toNat = pms.count₀.toNat / 8 := by
    simp [Nat.shiftRight_eq_div_pow]
  omega

theorem Holds.offset_eq (holds : pms.Holds message) : pms.offset = message.length % 64 := by
  rw [offset, toNat_and_63, holds.toNat_shift]
  omega

theorem length_pending (message : List Byte) :
    (buffer message).pending.length = message.length % 64 := by
  rw [buffer, Buffer.length_pending_absorb]
  exact congrArg (· % 64) (Nat.zero_add _)

/-- The length wraps with the 64 bits. -/
theorem Holds.addLength_spec (holds : pms.Holds message) {nbytes : Nat}
    (small : nbytes < 268435456) :
    (pms.addLength nbytes).count₀.toNat = 8 * (message.length + nbytes) % 4294967296 ∧
      (pms.addLength nbytes).count₁.toNat =
        8 * (message.length + nbytes) / 4294967296 % 4294967296 := by
  have low := holds.count₀
  have high := holds.count₁
  have bits : (nbytes * 8).toUInt32.toNat = nbytes * 8 := by
    rw [Nat.toUInt32_eq, UInt32.toNat_ofNat']
    omega
  have above : nbytes / 536870912 = 0 := by omega
  have sum : (pms.count₀ + (nbytes * 8).toUInt32).toNat =
      (pms.count₀.toNat + nbytes * 8) % 4294967296 := by
    rw [UInt32.toNat_add, bits]
  have zero : (0 : Nat).toUInt32.toNat = 0 := rfl
  have one : (1 : UInt32).toNat = 1 := rfl
  unfold addLength
  dsimp only
  rw [above]
  refine ⟨by omega, ?_⟩
  split
  · next carry =>
      rw [UInt32.lt_iff_toNat_lt, sum, bits] at carry
      rw [UInt32.toNat_add, UInt32.toNat_add, zero, one]
      omega
  · next stays =>
      rw [UInt32.lt_iff_toNat_lt, sum, bits] at stays
      rw [UInt32.toNat_add, zero]
      omega

theorem buffer_append (message data : List Byte) :
    buffer (message ++ data) = (buffer message).absorb md5Process data :=
  Buffer.absorb_append

/-- A part that fills up the block, with what follows it. -/
theorem Holds.appendPartial_spec (holds : pms.Holds message) (data : List Byte)
    {next : Md5Context} (buf : next.buf = pms.buf) (abcd : next.abcd = pms.abcd) :
    ∃ pms', next.appendPartial (message.length % 64) data = .ok pms' ∧ next.Same pms' ∧
      pms'.abcd = (buffer (message ++ data)).state ∧
      pms'.buf.toList.take ((message ++ data).length % 64) = 
        (buffer (message ++ data)).pending := by
  have part : (data.take (64 - message.length % 64)).length =
      min (64 - message.length % 64) data.length :=
    List.length_take
  have fits : message.length % 64 + (data.take (64 - message.length % 64)).length ≤ 64 := by omega
  rcases next.copy_spec fits with ⟨filled, copies, same, state, block⟩
  rw [buf, holds.pending] at block
  rw [appendPartial, copies, ok_bind]
  have pending := length_pending message
  split
  · next room =>
      have whole : data.take (64 - message.length % 64) = data :=
        List.take_of_length_le (by omega)
      rw [whole] at room block
      have short : ((buffer message).pending ++ data).length < 64 := by
        rw [List.length_append, pending]
        exact room
      have place : (message ++ data).length % 64 = message.length % 64 + data.length := by
        rw [List.length_append]
        omega
      refine ⟨filled, rfl, same, ?_, ?_⟩
      · rw [buffer_append, Buffer.absorb_of_lt short, state, abcd, holds.state]
      · rw [buffer_append, Buffer.absorb_of_lt short, place, block]
  · next full =>
      have last : message.length % 64 + (data.take (64 - message.length % 64)).length = 64 := by
        omega
      have length : filled.buf.toList.length = 64 := filled.buf.length_toList
      have size : ((buffer message).pending ++ data.take (64 - message.length % 64)).length =
          64 := by
        rw [List.length_append, pending, last]
      have nonempty : data.take (64 - message.length % 64) ≠ [] := by
        rw [← List.length_pos_iff_ne_nil]
        omega
      rw [last, List.take_of_length_le (Nat.le_of_eq length)] at block
      have passed : buffer (message ++ data) =
          (fresh (md5Process filled.abcd filled.buf.toList)).absorb md5Process
            (data.drop (data.take (64 - message.length % 64)).length) := by
        have drop : data.drop (data.take (64 - message.length % 64)).length =
            data.drop (64 - message.length % 64) := by
          congr 1
          omega
        conv_lhs => rw [← List.take_append_drop (64 - message.length % 64) data]
        rw [buffer_append, Buffer.absorb_append, Buffer.absorb_of_eq size nonempty, drop, state,
          abcd, holds.state, block]
        rfl
      have place : (message ++ data).length % 64 =
          (data.drop (data.take (64 - message.length % 64)).length).length % 64 := by
        rw [List.length_append, List.length_drop]
        omega
      rcases fullBlocks_spec { filled with abcd := md5Process filled.abcd filled.buf.toList }
        (data.drop (data.take (64 - message.length % 64)).length) with
        ⟨pms', result, same', state', pending'⟩
      refine ⟨pms', result, ⟨same'.count₀.trans same.count₀, same'.count₁.trans same.count₁⟩, ?_,
        ?_⟩
      · rw [passed, state']
      · rw [passed, place, pending']

/-- A part of the message. -/
theorem Holds.append_spec (holds : pms.Holds message) (data : List Byte)
    (small : data.length < 268435456) :
    ∃ pms', pms.append data = .ok pms' ∧ pms'.Holds (message ++ data) := by
  rw [append, if_neg (by omega)]
  rcases eq_or_ne data [] with rfl | some
  · rw [if_pos rfl, List.append_nil]
    exact ⟨pms, rfl, holds⟩
  rcases holds.addLength_spec small with ⟨count₀, count₁⟩
  rw [← List.length_append] at count₀ count₁
  have pending := length_pending message
  rw [if_neg some, holds.offset_eq]
  dsimp only
  rcases eq_or_ne (message.length % 64) 0 with whole | rest
  · rw [if_neg (not_not.mpr whole)]
    rcases fullBlocks_spec (pms.addLength data.length) data with ⟨pms', result, same, state, left⟩
    have start : buffer message = fresh pms.abcd := by
      apply Buffer.ext
      · exact holds.state.symm
      · exact List.length_eq_zero_iff.mp (pending.trans whole)
    have place : (message ++ data).length % 64 = data.length % 64 := by
      rw [List.length_append]
      omega
    refine ⟨pms', result, ?_, ?_, by rw [same.count₀, count₀], by rw [same.count₁, count₁]⟩
    · rw [buffer_append, start]
      exact state
    · rw [buffer_append, start, place]
      exact left
  · rw [if_pos rest]
    have buf : (pms.addLength data.length).buf = pms.buf := rfl
    rcases holds.appendPartial_spec data buf rfl with ⟨pms', result, same, state, left⟩
    exact ⟨pms', result, state, left, by rw [same.count₀, count₀], by rw [same.count₁, count₁]⟩

/-! ## The digest -/

theorem wordBytes_eq (word : UInt32) : wordBytes word = lowFirst word.toNat := by
  rw [wordBytes, toUInt8_shiftRight, toUInt8_shiftRight, toUInt8_shiftRight]
  rfl

/-- The length before the padding. -/
theorem Holds.length_eq (holds : pms.Holds message) : wordBytes pms.count₀ ++ wordBytes pms.count₁ =
    lowFirst (8 * message.length) ++ lowFirst (8 * message.length / 4294967296) := by
  rw [wordBytes_eq, wordBytes_eq, holds.count₀, holds.count₁]
  simp only [lowFirst, htonl_mod]

/-- How many zeros pad a message. -/
theorem Holds.zeros_eq (holds : pms.Holds message) :
    (((55 : UInt32) - (pms.count₀ >>> 3)) &&& 63).toNat = (119 - message.length % 64) % 64 := by
  have fiftyFive : (55 : UInt32).toNat = 55 := rfl
  rw [toNat_and_63, UInt32.toNat_sub, holds.toNat_shift, fiftyFive]
  omega

theorem md5_eq (message : List Byte) (abcd : Md5State)
    (state : abcd = (buffer (message ++ md5Padding message)).state) :
    wordBytes abcd.a ++ wordBytes abcd.b ++ wordBytes abcd.c ++ wordBytes abcd.d = md5 message := by
  have eight : ∀ n, (lowFirst n ++ lowFirst (n / 4294967296)).length = 8 := fun _ => rfl
  have blocks := length_padded eight message
  have whole : (message ++ md5Padding message).length =
      (message ++ md5Padding message).length / 64 * 64 := by
    have same : (message ++ md5Padding message).length % 64 = 0 := blocks
    omega
  rw [buffer, fresh, Buffer.absorb_blocks _ _ whole, inBlocks_eq_overBlocks] at state
  rw [state]
  simp only [wordBytes_eq]
  rfl

theorem Holds.finish_spec (holds : pms.Holds message) : ∃ pms',
    pms.finish = .ok (pms', md5 message) ∧ pms'.Holds (message ++ md5Padding message) := by
  have zeros := holds.zeros_eq
  rcases holds.append_spec (0x80 :: List.replicate ((119 - message.length % 64) % 64) 0)
    (by rw [List.length_cons, List.length_replicate]; omega) with ⟨next, first, holds₁⟩
  have eight : (lowFirst (8 * message.length) ++
      lowFirst (8 * message.length / 4294967296)).length = 8 :=
    rfl
  rcases holds₁.append_spec (lowFirst (8 * message.length) ++
    lowFirst (8 * message.length / 4294967296)) (by omega) with ⟨pms', second, holds₂⟩
  rw [List.append_assoc] at holds₂
  have holds' : pms'.Holds (message ++ md5Padding message) := holds₂
  refine ⟨pms', ?_, holds'⟩
  rw [finish]
  dsimp only
  rw [zeros, holds.length_eq, first, ok_bind, second, ok_bind, md5_eq _ _ holds'.state]

/-! ## Any calls -/

theorem step_simulates : Simulates Holds step md5Expected := by
  intro pms message call holds
  cases call with
  | init => exact .ok _ pms.holds_init
  | append data =>
      rw [step, md5Expected]
      rcases Nat.lt_or_ge data.length (2 ^ 28) with small | long
      · rcases holds.append_spec data small with ⟨pms', result, holds'⟩
        rw [if_pos small, result]
        exact .ok _ holds'
      · rw [if_neg (Nat.not_lt.mpr long), append, if_pos (by omega)]
        exact .error _
  | finish =>
      rcases holds.finish_spec with ⟨pms', result, holds'⟩
      rw [step, md5Expected, result]
      exact .ok _ holds'

/-- **Parts.**  Whatever was called before, a state that is made new answers any further calls as
the machine that keeps the message does. -/
theorem answers_md5 (pms : Md5Context) (calls : List Md5Call) :
    answers step pms (.init :: calls) = answers md5Expected [] (.init :: calls) := by
  have left : answers step pms (.init :: calls) =
      (answers step pms.init calls >>= fun rest => .ok (none :: rest)) :=
    rfl
  have right : answers md5Expected [] (.init :: calls) =
      (answers md5Expected [] calls >>= fun rest => .ok (none :: rest)) :=
    rfl
  rw [left, right, step_simulates.answers_eq pms.holds_init]

end Md5Context

end Xwbot.Crypt
