import Xwbot.Blocks
import Xwbot.Crypt
import Xwbot.Machines

/-!
# SHA-1 in parts

A context takes a message in parts and fills a block with it.  When the digest was asked for, no
more of the message may follow, and a message whose length in bits has no 64 bits spoils the
context.  Whatever is called, the answers are those of a machine that keeps the whole message.
-/

namespace Xwbot.Crypt

open Blocks Machines

/-- `shaSuccess` -/
def shaSuccess : Nat :=
  0

/-- `shaStateError` -/
def shaStateError : Nat :=
  3

/-- `SHA1Context`.  `Corrupted` is 0 or a code. -/
structure Sha1Context where
  hash : Sha1State
  lengthLow : UInt32
  lengthHigh : UInt32
  messageBlockIndex : Nat
  messageBlock : Vector Byte 64
  computed : Bool
  corrupted : Nat

/-- A call, and what it returns. -/
inductive Sha1Call where
  /-- `SHA1Reset` -/
  | reset
  /-- `SHA1Input` -/
  | input (messageArray : List Byte)
  /-- `SHA1Result` -/
  | result
  deriving DecidableEq, Repr

/-- The code that is returned, and the digest if it was written. -/
structure Sha1Answer where
  code : Nat
  messageDigest : Option (List Byte)
  deriving DecidableEq, Repr

namespace Sha1Context

/-- `SHA1Reset` -/
def reset (context : Sha1Context) : Sha1Context :=
  { context with
    hash := sha1Reset
    lengthLow := 0
    lengthHigh := 0
    messageBlockIndex := 0
    computed := false
    corrupted := 0 }

/-- `context->Message_Block[context->Message_Block_Index++] = byte` -/
def put (context : Sha1Context) (byte : Byte) : Except Fault Sha1Context :=
  if inside : context.messageBlockIndex < 64 then
    .ok { context with
      messageBlock := context.messageBlock.set context.messageBlockIndex byte inside
      messageBlockIndex := context.messageBlockIndex + 1 }
  else .error .overflow

/-- Several bytes. -/
def puts : Sha1Context → List Byte → Except Fault Sha1Context
  | context, [] => .ok context
  | context, byte :: rest => do
      let context ← context.put byte
      puts context rest

/-- `SHA1ProcessMessageBlock` -/
def processMessageBlock (context : Sha1Context) : Sha1Context :=
  { context with
    hash := sha1Process context.hash context.messageBlock.toList
    messageBlockIndex := 0 }

/-- Eight more bits. -/
def addLength (context : Sha1Context) : Sha1Context :=
  let low := context.lengthLow + 8
  if low = 0 then
    let high := context.lengthHigh + 1
    { context with
      lengthLow := low
      lengthHigh := high
      corrupted := if high = 0 then 1 else context.corrupted }
  else { context with lengthLow := low }

/-- One byte of `SHA1Input`. -/
def inputByte (context : Sha1Context) (byte : Byte) : Except Fault Sha1Context := do
  let context ← context.put byte
  let context := context.addLength
  .ok (if context.messageBlockIndex = 64 then context.processMessageBlock else context)

/-- The loop of `SHA1Input`. -/
def inputBytes : Sha1Context → List Byte → Except Fault Sha1Context
  | context, [] => .ok context
  | context, byte :: rest =>
      if context.corrupted ≠ 0 then .ok context
      else do
        let context ← context.inputByte byte
        inputBytes context rest

/-- `SHA1Input` -/
def input (context : Sha1Context) (messageArray : List Byte) :
    Except Fault (Sha1Context × Sha1Answer) :=
  if messageArray = [] then .ok (context, ⟨shaSuccess, none⟩)
  else if context.computed then
    .ok ({ context with corrupted := shaStateError }, ⟨shaStateError, none⟩)
  else if context.corrupted ≠ 0 then .ok (context, ⟨context.corrupted, none⟩)
  else do
    let context ← inputBytes context messageArray
    .ok (context, ⟨shaSuccess, none⟩)

/-- `while (context->Message_Block_Index < stop)` with zeros. -/
def putZeros (context : Sha1Context) (stop : Nat) : Except Fault Sha1Context :=
  context.puts (List.replicate (stop - context.messageBlockIndex) 0)

/-- The bytes of a word, the high ones first. -/
def wordBytes (word : UInt32) : List Byte :=
  [(word >>> 24).toUInt8, (word >>> 16).toUInt8, (word >>> 8).toUInt8, word.toUInt8]

/-- `Message_Block[56]` to `Message_Block[63]` -/
def storeLength (context : Sha1Context) : Sha1Context :=
  { context with
    messageBlock := ((wordBytes context.lengthHigh ++ wordBytes context.lengthLow).zipIdx 56).foldl
      (fun block entry => block.setIfInBounds entry.2 entry.1) context.messageBlock }

/-- `SHA1PadMessage` -/
def padMessage (context : Sha1Context) : Except Fault Sha1Context := do
  if 55 < context.messageBlockIndex then
    let context ← context.put 0x80
    let context ← context.putZeros 64
    let context ← context.processMessageBlock.putZeros 56
    .ok context.storeLength.processMessageBlock
  else
    let context ← context.put 0x80
    let context ← context.putZeros 56
    .ok context.storeLength.processMessageBlock

/-- `Message_Digest[i]` for all `i`. -/
def messageDigest (context : Sha1Context) : List Byte :=
  let h := context.hash
  wordBytes h.a ++ wordBytes h.b ++ wordBytes h.c ++ wordBytes h.d ++ wordBytes h.e

/-- `SHA1Result` -/
def result (context : Sha1Context) : Except Fault (Sha1Context × Sha1Answer) :=
  if context.corrupted ≠ 0 then .ok (context, ⟨context.corrupted, none⟩)
  else if context.computed then .ok (context, ⟨shaSuccess, some context.messageDigest⟩)
  else do
    let context ← context.padMessage
    let context := { context with
      messageBlock := Vector.replicate 64 0, lengthLow := 0, lengthHigh := 0, computed := true }
    .ok (context, ⟨shaSuccess, some context.messageDigest⟩)

/-- One call. -/
def step (context : Sha1Context) : Sha1Call → Except Fault (Sha1Context × Sha1Answer)
  | .reset => .ok (context.reset, ⟨shaSuccess, none⟩)
  | .input messageArray => context.input messageArray
  | .result => context.result

end Sha1Context

/-! ## The machine that keeps the message -/

/-- What a context stands for. -/
inductive Sha1Stage where
  | collects (message : List Byte)
  | computed (digest : List Byte)
  | corrupted (code : Nat)
  deriving DecidableEq, Repr

namespace Sha1Stage

/-- One call.  A message of 2^61 bytes is too long, which the next call tells. -/
def step : Sha1Stage → Sha1Call → Sha1Stage × Sha1Answer
  | _, .reset => (collects [], ⟨shaSuccess, none⟩)
  | stage, .input [] => (stage, ⟨shaSuccess, none⟩)
  | collects message, .input more =>
      (if (message ++ more).length < 2 ^ 61 then collects (message ++ more) else corrupted 1,
        ⟨shaSuccess, none⟩)
  | computed _, .input _ => (corrupted shaStateError, ⟨shaStateError, none⟩)
  | corrupted code, .input _ => (corrupted code, ⟨code, none⟩)
  | collects message, .result => (computed (sha1 message), ⟨shaSuccess, some (sha1 message)⟩)
  | computed digest, .result => (computed digest, ⟨shaSuccess, some digest⟩)
  | corrupted code, .result => (corrupted code, ⟨code, none⟩)

theorem step_collects (message : List Byte) (byte : Byte) (rest : List Byte) :
    (collects message).step (.input (byte :: rest)) =
      (if (message ++ byte :: rest).length < 2 ^ 61 then collects (message ++ byte :: rest)
        else corrupted 1, ⟨shaSuccess, none⟩) :=
  rfl

theorem step_corrupted (code : Nat) (byte : Byte) (rest : List Byte) :
    (corrupted code).step (.input (byte :: rest)) = (corrupted code, ⟨code, none⟩) :=
  rfl

end Sha1Stage

/-! ## Words and bytes -/

theorem toUInt8_congr {a b : Nat} (same : a % 256 = b % 256) : a.toUInt8 = b.toUInt8 := by
  apply UInt8.toNat_inj.mp
  simpa using same

theorem toUInt8_shiftRight (word k : UInt32) :
    (word >>> k).toUInt8 = (word.toNat / 2 ^ (k.toNat % 32)).toUInt8 := by
  apply UInt8.toNat_inj.mp
  simp [Nat.shiftRight_eq_div_pow]

theorem wordBytes_eq (word : UInt32) : Sha1Context.wordBytes word = htonl word.toNat := by
  rw [Sha1Context.wordBytes, toUInt8_shiftRight, toUInt8_shiftRight, toUInt8_shiftRight]
  rfl

/-- The low 32 bits of a number are written. -/
theorem htonl_mod (n : Nat) : htonl (n % 4294967296) = htonl n := by
  rw [htonl, htonl, toUInt8_congr (a := n % 4294967296 / 16777216) (b := n / 16777216) (by omega),
    toUInt8_congr (a := n % 4294967296 / 65536) (b := n / 65536) (by omega),
    toUInt8_congr (a := n % 4294967296 / 256) (b := n / 256) (by omega),
    toUInt8_congr (a := n % 4294967296) (b := n) (by omega)]

/-- A number of 64 bits in two words. -/
theorem wordBytes_append {high low : UInt32} {n : Nat}
    (counts : high.toNat * 4294967296 + low.toNat = n) :
    Sha1Context.wordBytes high ++ Sha1Context.wordBytes low =
      htonl (n / 4294967296) ++ htonl n := by
  have small := low.toNat_lt
  have first : high.toNat = n / 4294967296 := by omega
  have second : low.toNat = n % 4294967296 := by omega
  rw [wordBytes_eq, wordBytes_eq, first, second, htonl_mod]

theorem inBlocks_eq_overBlocks {σ : Type} (process : σ → List Byte → σ) (blocks : Nat) (state : σ)
    (message : List Byte) :
    inBlocks process 64 blocks state message = overBlocks process blocks state message := by
  induction blocks generalizing state message with
  | zero => rfl
  | succ blocks ih => exact ih _ _

/-- A padded message has whole blocks. -/
theorem length_padded {lengthBytes : Nat → List Byte} (eight : ∀ n, (lengthBytes n).length = 8)
    (message : List Byte) : (padded lengthBytes message).length % 64 = 0 := by
  rw [padded]
  simp only [List.length_append, List.length_cons, List.length_replicate, eight]
  omega

attribute [local irreducible] sha1Process

/-! ## The block -/

/-- A block has bytes. -/
theorem block_pos : 0 < 64 := Nat.zero_lt_succ 63

/-- Bytes that are stored one behind the other. -/
theorem toList_foldl_setIfInBounds {n : Nat} (l : List Byte) (i : Nat) (block : Vector Byte n)
    (fits : i + l.length ≤ n) :
    ((l.zipIdx i).foldl (fun block entry => block.setIfInBounds entry.2 entry.1) block).toList =
      block.toList.take i ++ l ++ block.toList.drop (i + l.length) := by
  induction l generalizing i block with
  | nil => simp
  | cons byte rest ih =>
      rw [List.length_cons] at fits
      have length := block.length_toList
      rw [List.zipIdx_cons, List.foldl_cons, ih _ _ (by omega), Vector.toList_setIfInBounds,
        List.take_add_one, List.take_set_of_le (Nat.le_refl _), List.getElem?_set_self (by omega),
        List.drop_set_of_lt (by omega)]
      simp [Nat.add_assoc, Nat.add_comm 1]

namespace Sha1Context

variable {context context' : Sha1Context} {message l l' : List Byte}

/-- The length in bits. -/
def bits (context : Sha1Context) : Nat :=
  context.lengthHigh.toNat * 4294967296 + context.lengthLow.toNat

/-- The part of the block that is filled. -/
def filled (context : Sha1Context) : List Byte :=
  context.messageBlock.toList.take context.messageBlockIndex

theorem length_toList (context : Sha1Context) : context.messageBlock.toList.length = 64 :=
  context.messageBlock.length_toList

theorem filled_set (inside : context.messageBlockIndex < 64) (byte : Byte) :
    (context.messageBlock.set context.messageBlockIndex byte inside).toList.take
      (context.messageBlockIndex + 1) = context.filled ++ [byte] := by
  have length := context.length_toList
  rw [Vector.toList_set, List.take_add_one, List.take_set_of_le (Nat.le_refl _),
    List.getElem?_set_self (by omega), Option.toList_some]
  rfl

/-- Bytes were put behind the others, and nothing else happened. -/
structure Fills (context : Sha1Context) (l : List Byte) (context' : Sha1Context) : Prop where
  filled : context'.filled = context.filled ++ l
  index : context'.messageBlockIndex = context.messageBlockIndex + l.length
  hash : context'.hash = context.hash
  bits : context'.bits = context.bits
  computed : context'.computed = context.computed
  corrupted : context'.corrupted = context.corrupted

theorem Fills.nil (context : Sha1Context) : context.Fills [] context :=
  ⟨(List.append_nil _).symm, rfl, rfl, rfl, rfl, rfl⟩

theorem Fills.trans {next : Sha1Context} (first : context.Fills l next)
    (second : next.Fills l' context') : context.Fills (l ++ l') context' where
  filled := by rw [second.filled, first.filled, List.append_assoc]
  index := by rw [second.index, first.index, List.length_append, Nat.add_assoc]
  hash := second.hash.trans first.hash
  bits := second.bits.trans first.bits
  computed := second.computed.trans first.computed
  corrupted := second.corrupted.trans first.corrupted

theorem put_spec (byte : Byte) (inside : context.messageBlockIndex < 64) :
    ∃ context', context.put byte = .ok context' ∧ context.Fills [byte] context' :=
  ⟨_, dif_pos inside, filled_set inside byte, rfl, rfl, rfl, rfl, rfl⟩

/-- Bytes that fit are put behind the others. -/
theorem puts_spec (l : List Byte) (fits : context.messageBlockIndex + l.length ≤ 64) :
    ∃ context', context.puts l = .ok context' ∧ context.Fills l context' := by
  induction l generalizing context with
  | nil => exact ⟨context, rfl, Fills.nil context⟩
  | cons byte rest ih =>
      rw [List.length_cons] at fits
      rcases context.put_spec byte (by omega) with ⟨next, first, fills⟩
      have room : next.messageBlockIndex + rest.length ≤ 64 := by
        rw [fills.index, List.length_singleton]
        omega
      rcases ih room with ⟨context', second, fills'⟩
      exact ⟨context', by rw [puts, first, ok_bind, second], fills.trans fills'⟩

theorem putZeros_spec (stop : Nat) (before : context.messageBlockIndex ≤ stop) (fits : stop ≤ 64) :
    ∃ context', context.putZeros stop = .ok context' ∧
      context.Fills (List.replicate (stop - context.messageBlockIndex) 0) context' := by
  apply puts_spec
  rw [List.length_replicate]
  omega

/-- The length takes the last eight bytes of the block. -/
theorem toList_storeLength (context : Sha1Context) : context.storeLength.messageBlock.toList =
    context.messageBlock.toList.take 56 ++
      (wordBytes context.lengthHigh ++ wordBytes context.lengthLow) := by
  have behind : context.messageBlock.toList.drop
      (56 + (wordBytes context.lengthHigh ++ wordBytes context.lengthLow).length) = [] :=
    List.drop_of_length_le (Nat.le_of_eq context.length_toList)
  rw [storeLength, toList_foldl_setIfInBounds _ _ _ (by rfl), behind, List.append_nil]

/-! ## Collecting -/

/-- The buffer after a message. -/
def buffer (message : List Byte) : Buffer Sha1State Byte 64 :=
  (Buffer.empty block_pos sha1Reset).absorb sha1Process message

/-- The block of a context holds what the blocks before it left of a message. -/
structure Buffers (context : Sha1Context) (message : List Byte) : Prop where
  state : context.hash = (buffer message).state
  pending : context.filled = (buffer message).pending
  inside : context.messageBlockIndex < 64
  computed : context.computed = false

/-- A context that took a message and no more. -/
structure Collects (context : Sha1Context) (message : List Byte) : Prop
    extends context.Buffers message where
  length : context.bits = 8 * message.length
  corrupted : context.corrupted = 0

theorem bits_reset (context : Sha1Context) : context.reset.bits = 0 := by
  simp [bits, reset]

theorem collects_reset (context : Sha1Context) : context.reset.Collects [] where
  state := rfl
  pending := List.take_zero
  inside := Nat.zero_lt_succ 63
  computed := rfl
  length := bits_reset context
  corrupted := rfl

theorem Buffers.length_eq (buffers : context.Buffers message) :
    (buffer message).pending.length = context.messageBlockIndex := by
  have length := context.length_toList
  have inside := buffers.inside
  rw [← buffers.pending, filled, List.length_take]
  omega

/-- How much of the block is filled. -/
theorem Collects.index_eq (collects : context.Collects message) :
    context.messageBlockIndex = message.length % 64 := by
  have pending := congrArg List.length collects.pending
  have length := context.length_toList
  have inside := collects.inside
  rw [filled, List.length_take, buffer, Buffer.length_pending_absorb] at pending
  change _ = (0 + message.length) % 64 at pending
  omega

/-- The last block. -/
theorem hash_storeLength (atLength : context.messageBlockIndex = 56) :
    context.storeLength.processMessageBlock.hash = sha1Process context.hash
      (context.filled ++ (wordBytes context.lengthHigh ++ wordBytes context.lengthLow)) := by
  have block := context.toList_storeLength
  rw [filled, atLength, ← block]
  unfold processMessageBlock
  dsimp only
  unfold storeLength
  rfl

/-- A block that is full. -/
structure Processes (context context' : Sha1Context) : Prop where
  hash : context'.hash = sha1Process context.hash context.filled
  filled : context'.filled = []
  index : context'.messageBlockIndex = 0
  bits : context'.bits = context.bits
  computed : context'.computed = context.computed
  corrupted : context'.corrupted = context.corrupted

theorem processMessageBlock_spec (full : context.messageBlockIndex = 64) :
    context.Processes context.processMessageBlock where
  hash := by
    have block : context.filled = context.messageBlock.toList := by
      rw [filled, full, List.take_of_length_le (Nat.le_of_eq context.length_toList)]
    rw [block]
    rfl
  filled := List.take_zero
  index := rfl
  bits := rfl
  computed := rfl
  corrupted := rfl

theorem corrupted_storeLength (context : Sha1Context) :
    context.storeLength.processMessageBlock.corrupted = context.corrupted := by
  unfold processMessageBlock
  dsimp only
  unfold storeLength
  rfl

attribute [local irreducible] storeLength processMessageBlock

/-- The message and what pads it. -/
def paddedMessage (message : List Byte) : List Byte :=
  padded (fun n => htonl (n / 4294967296) ++ htonl n) message

/-- What pads a message. -/
def padding (message : List Byte) : List Byte :=
  0x80 :: (List.replicate ((119 - message.length % 64) % 64) 0 ++
    (htonl (8 * message.length / 4294967296) ++ htonl (8 * message.length)))

theorem buffer_paddedMessage (message : List Byte) : buffer (paddedMessage message) =
    (buffer message).absorb sha1Process (padding message) :=
  Buffer.absorb_append

/-- The block with the length is the last one. -/
theorem hash_last (full : context.messageBlockIndex = 56)
    (length : context.bits = 8 * message.length) :
    context.storeLength.processMessageBlock.hash = sha1Process context.hash (context.filled ++
      (htonl (8 * message.length / 4294967296) ++ htonl (8 * message.length))) := by
  rw [hash_storeLength full, wordBytes_append length]

/-- There is room for the length behind the message. -/
theorem Collects.padMessage_of_le (collects : context.Collects message)
    (room : context.messageBlockIndex ≤ 55) : ∃ context', context.padMessage = .ok context' ∧
      context'.corrupted = 0 ∧ context'.hash = (buffer (paddedMessage message)).state := by
  have index := collects.index_eq
  rcases context.put_spec 0x80 collects.inside with ⟨context₁, first, fills₁⟩
  have index₁ : context₁.messageBlockIndex = context.messageBlockIndex + 1 := fills₁.index
  rcases context₁.putZeros_spec 56 (by omega) (by decide) with ⟨context₂, second, fills₂⟩
  have fills := fills₁.trans fills₂
  have result : context.padMessage = .ok context₂.storeLength.processMessageBlock := by
    rw [padMessage, if_neg (Nat.not_lt.mpr room), first, ok_bind, second, ok_bind]
  have full : context₂.messageBlockIndex = 56 := by
    rw [fills₂.index, List.length_replicate]
    omega
  have length : context₂.bits = 8 * message.length := by
    rw [fills.bits, collects.length]
  refine ⟨_, result, ?_, ?_⟩
  · rw [corrupted_storeLength, fills.corrupted, collects.corrupted]
  · have zeros : 56 - context₁.messageBlockIndex = (119 - message.length % 64) % 64 := by omega
    have block : context₂.filled ++
        (htonl (8 * message.length / 4294967296) ++ htonl (8 * message.length)) =
          (buffer message).pending ++ padding message := by
      rw [fills.filled, collects.pending, zeros, padding]
      simp only [List.append_assoc, List.cons_append, List.nil_append]
    have size : ((buffer message).pending ++ padding message).length = 64 := by
      rw [List.length_append, collects.length_eq, padding]
      simp only [List.length_cons, List.length_append, List.length_replicate, length_htonl]
      omega
    rw [hash_last full length, block, fills.hash, collects.state, buffer_paddedMessage,
      Buffer.absorb_of_eq size (List.cons_ne_nil _ _)]
    rfl

/-- The length needs a block of its own. -/
theorem Collects.padMessage_of_lt (collects : context.Collects message)
    (short : 55 < context.messageBlockIndex) : ∃ context', context.padMessage = .ok context' ∧
      context'.corrupted = 0 ∧ context'.hash = (buffer (paddedMessage message)).state := by
  have index := collects.index_eq
  have inside := collects.inside
  rcases context.put_spec 0x80 inside with ⟨context₁, first, fills₁⟩
  have index₁ : context₁.messageBlockIndex = context.messageBlockIndex + 1 := fills₁.index
  rcases context₁.putZeros_spec 64 (by omega) (by decide) with ⟨context₂, second, fills₂⟩
  have fills := fills₁.trans fills₂
  have index₂ : context₂.messageBlockIndex = 64 := by
    rw [fills₂.index, List.length_replicate]
    omega
  have processes := processMessageBlock_spec index₂
  rcases context₂.processMessageBlock.putZeros_spec 56
    (by rw [processes.index]; decide) (by decide) with ⟨context₃, third, fills₃⟩
  have result : context.padMessage = .ok context₃.storeLength.processMessageBlock := by
    rw [padMessage, if_pos short, first, ok_bind, second, ok_bind, third, ok_bind]
  have full : context₃.messageBlockIndex = 56 := by
    rw [fills₃.index, List.length_replicate, processes.index]
  have length : context₃.bits = 8 * message.length := by
    rw [fills₃.bits, processes.bits, fills.bits, collects.length]
  refine ⟨_, result, ?_, ?_⟩
  · rw [corrupted_storeLength, fills₃.corrupted, processes.corrupted, fills.corrupted,
      collects.corrupted]
  · have parts : padding message = 0x80 :: List.replicate (64 - context₁.messageBlockIndex) 0 ++
        (List.replicate 56 0 ++
          (htonl (8 * message.length / 4294967296) ++ htonl (8 * message.length))) := by
      have zeros : (119 - message.length % 64) % 64 = 64 - context₁.messageBlockIndex + 56 := by
        omega
      rw [padding, zeros, ← List.replicate_append_replicate]
      simp only [List.append_assoc, List.cons_append]
    have size : ((buffer message).pending ++
        0x80 :: List.replicate (64 - context₁.messageBlockIndex) 0).length = 64 := by
      rw [List.length_append, collects.length_eq, List.length_cons, List.length_replicate]
      omega
    have block : context₂.filled = (buffer message).pending ++
        0x80 :: List.replicate (64 - context₁.messageBlockIndex) 0 := by
      rw [fills.filled, collects.pending]
      rfl
    rw [hash_last full length, fills₃.hash, fills₃.filled, processes.hash, processes.filled,
      processes.index, block, fills.hash, collects.state, buffer_paddedMessage, parts,
      Buffer.absorb_append, Buffer.absorb_of_eq size (List.cons_ne_nil _ _),
        Buffer.absorb_of_eq rfl]
    · rfl
    · exact List.append_ne_nil_of_left_ne_nil (List.cons_ne_nil _ _) _

theorem Collects.padMessage_spec (collects : context.Collects message) :
    ∃ context', context.padMessage = .ok context' ∧ context'.corrupted = 0 ∧
      context'.hash = (buffer (paddedMessage message)).state := by
  rcases Nat.lt_or_ge 55 context.messageBlockIndex with short | room
  · exact collects.padMessage_of_lt short
  · exact collects.padMessage_of_le room

/-- The digest of the blocks of the padded message. -/
theorem messageDigest_eq (hash : context.hash = (buffer (paddedMessage message)).state) :
    context.messageDigest = sha1 message := by
  have whole : (paddedMessage message).length = (paddedMessage message).length / 64 * 64 := by
    have eight : ∀ n, (htonl (n / 4294967296) ++ htonl n).length = 8 := fun _ => rfl
    have blocks := length_padded eight message
    rw [← paddedMessage] at blocks
    omega
  rw [buffer, Buffer.absorb_blocks _ _ whole, inBlocks_eq_overBlocks] at hash
  rw [messageDigest, hash]
  simp only [wordBytes_eq]
  rfl

/-! ## One byte more -/

/-- Nothing but the length was counted. -/
structure Counts (context context' : Sha1Context) : Prop where
  hash : context'.hash = context.hash
  filled : context'.filled = context.filled
  index : context'.messageBlockIndex = context.messageBlockIndex
  computed : context'.computed = context.computed

theorem counts_addLength (context : Sha1Context) : context.Counts context.addLength := by
  unfold addLength
  dsimp only
  split
  · exact ⟨rfl, rfl, rfl, rfl⟩
  · exact ⟨rfl, rfl, rfl, rfl⟩

theorem add_eq_zero (x y : UInt32) : x + y = 0 ↔ (x.toNat + y.toNat) % 4294967296 = 0 := by
  rw [← UInt32.toNat_inj, UInt32.toNat_add]
  rfl

/-- The length goes on while 64 bits hold it. -/
theorem bits_addLength (eights : context.bits % 8 = 0)
    (small : context.bits + 8 < 2 ^ 64) :
    context.addLength.bits = context.bits + 8 ∧
      context.addLength.corrupted = context.corrupted := by
  have low := context.lengthLow.toNat_lt
  have high := context.lengthHigh.toNat_lt
  have sum : (context.lengthLow + 8).toNat = (context.lengthLow.toNat + 8) % 4294967296 :=
    UInt32.toNat_add _ _
  have carry : (context.lengthHigh + 1).toNat = (context.lengthHigh.toNat + 1) % 4294967296 :=
    UInt32.toNat_add _ _
  unfold bits at eights small ⊢
  unfold addLength
  dsimp only
  split
  · next wraps =>
      have wraps' := (add_eq_zero _ _).mp wraps
      have eight : (8 : UInt32).toNat = 8 := rfl
      have holds : ¬context.lengthHigh + 1 = 0 := by
        have one : (1 : UInt32).toNat = 1 := rfl
        rw [add_eq_zero]
        omega
      refine ⟨?_, if_neg holds⟩
      dsimp only
      omega
  · next stays =>
      have stays' := mt (add_eq_zero _ _).mpr stays
      have eight : (8 : UInt32).toNat = 8 := rfl
      refine ⟨?_, rfl⟩
      dsimp only
      omega

/-- The length that 64 bits do not hold spoils the context. -/
theorem corrupted_addLength (long : 2 ^ 64 ≤ context.bits + 8)
    (eights : context.bits % 8 = 0) : context.addLength.corrupted = 1 := by
  have low := context.lengthLow.toNat_lt
  have high := context.lengthHigh.toNat_lt
  have eight : (8 : UInt32).toNat = 8 := rfl
  have one : (1 : UInt32).toNat = 1 := rfl
  unfold bits at eights long
  have wraps : context.lengthLow + 8 = 0 := by
    rw [add_eq_zero]
    omega
  have spoils : context.lengthHigh + 1 = 0 := by
    rw [add_eq_zero]
    omega
  unfold addLength
  dsimp only
  rw [if_pos wraps, if_pos spoils]

/-- One byte more in the block, which is processed when it is full. -/
theorem Buffers.inputByte_spec (buffers : context.Buffers message) (byte : Byte) :
    ∃ context' next : Sha1Context, context.inputByte byte = .ok context' ∧
      context'.Buffers (message ++ [byte]) ∧ next.bits = context.bits ∧
      next.corrupted = context.corrupted ∧ context'.bits = next.addLength.bits ∧
      context'.corrupted = next.addLength.corrupted := by
  rcases context.put_spec byte buffers.inside with ⟨next, first, fills⟩
  have counts := next.counts_addLength
  have index : next.addLength.messageBlockIndex = context.messageBlockIndex + 1 :=
    counts.index.trans fills.index
  have pending : next.addLength.filled = (buffer message).pending ++ [byte] := by
    rw [counts.filled, fills.filled, buffers.pending]
  have state : next.addLength.hash = (buffer message).state := by
    rw [counts.hash, fills.hash, buffers.state]
  have computed : next.addLength.computed = false := by
    rw [counts.computed, fills.computed, buffers.computed]
  have push : buffer (message ++ [byte]) = (buffer message).push sha1Process byte :=
    Buffer.absorb_concat byte
  have length := buffers.length_eq
  rcases Nat.lt_or_ge (context.messageBlockIndex + 1) 64 with room | filled
  · have stays : context.inputByte byte = .ok next.addLength := by
      rw [inputByte, first, ok_bind]
      dsimp only
      rw [if_neg (by omega)]
    have unfilled : ¬(buffer message).pending.length + 1 = 64 := by omega
    refine ⟨_, next, stays, ⟨?_, ?_, by omega, computed⟩, fills.bits, fills.corrupted, rfl, rfl⟩
    · rw [push, Buffer.push, dif_neg unfilled, state]
    · rw [push, Buffer.push, dif_neg unfilled, pending]
  · have full : next.addLength.messageBlockIndex = 64 := by
      have inside := buffers.inside
      omega
    have processes := processMessageBlock_spec full
    have passes : context.inputByte byte = .ok next.addLength.processMessageBlock := by
      rw [inputByte, first, ok_bind]
      dsimp only
      rw [if_pos full]
    have last : (buffer message).pending.length + 1 = 64 := by omega
    refine ⟨_, next, passes, ⟨?_, ?_, ?_, ?_⟩, fills.bits, fills.corrupted,
      processes.bits, processes.corrupted⟩
    · rw [push, Buffer.push, dif_pos last, processes.hash, state, pending]
      rfl
    · rw [push, Buffer.push, dif_pos last, processes.filled]
      rfl
    · rw [processes.index]
      decide
    · rw [processes.computed, computed]

/-- The message goes on while 64 bits hold its length. -/
theorem Collects.inputByte_spec (collects : context.Collects message) (byte : Byte)
    (small : message.length + 1 < 2 ^ 61) :
    ∃ context', context.inputByte byte = .ok context' ∧ context'.Collects (message ++ [byte]) := by
  rcases collects.toBuffers.inputByte_spec byte with
    ⟨context', next, result, buffers, bits, corrupted, bits', corrupted'⟩
  have length := collects.length
  rcases next.bits_addLength (by omega) (by omega) with ⟨more, same⟩
  refine ⟨context', result, buffers, ?_, ?_⟩
  · rw [bits', more, bits, length, List.length_append, List.length_singleton, Nat.mul_add]
  · rw [corrupted', same, corrupted, collects.corrupted]

/-- A message whose length needs more than 64 bits. -/
theorem Collects.inputByte_long (collects : context.Collects message) (byte : Byte)
    (long : 2 ^ 61 ≤ message.length + 1) :
    ∃ context', context.inputByte byte = .ok context' ∧ context'.corrupted = 1 ∧
      context'.computed = false := by
  rcases collects.toBuffers.inputByte_spec byte with
    ⟨context', next, result, buffers, bits, corrupted, bits', corrupted'⟩
  have length := collects.length
  exact ⟨context', result, by rw [corrupted', next.corrupted_addLength (by omega) (by omega)],
    buffers.computed⟩

/-- A part of the message. -/
theorem Collects.inputBytes_spec (collects : context.Collects message) (more : List Byte)
    (small : (message ++ more).length < 2 ^ 61) :
    ∃ context', context.inputBytes more = .ok context' ∧ context'.Collects (message ++ more) := by
  induction more generalizing context message with
  | nil => exact ⟨context, rfl, by rwa [List.append_nil]⟩
  | cons byte rest ih =>
      have length : (message ++ byte :: rest).length = message.length + (rest.length + 1) :=
        List.length_append
      rcases collects.inputByte_spec byte (by omega) with ⟨next, first, collects'⟩
      rw [inputBytes, if_neg (not_not.mpr collects.corrupted), first, ok_bind, List.append_cons]
      rw [List.append_cons] at small
      exact ih collects' small

theorem inputBytes_of_corrupted (corrupted : context.corrupted ≠ 0) (more : List Byte) :
    context.inputBytes more = .ok context := by
  cases more with
  | nil => rfl
  | cons byte rest => rw [inputBytes, if_pos corrupted]

/-- The byte that makes the message too long is the last one. -/
theorem Collects.inputBytes_long (collects : context.Collects message) (more : List Byte)
    (small : message.length < 2 ^ 61)
    (long : 2 ^ 61 ≤ (message ++ more).length) :
    ∃ context', context.inputBytes more = .ok context' ∧ context'.corrupted = 1 ∧
      context'.computed = false := by
  induction more generalizing context message with
  | nil =>
      rw [List.append_nil] at long
      omega
  | cons byte rest ih =>
      rw [inputBytes, if_neg (not_not.mpr collects.corrupted)]
      rcases Nat.lt_or_ge (message.length + 1) (2 ^ 61) with more | last
      · rcases collects.inputByte_spec byte more with ⟨next, first, collects'⟩
        rw [first, ok_bind]
        rw [List.append_cons] at long
        exact ih collects' (by rwa [List.length_append, List.length_singleton]) long
      · rcases collects.inputByte_long byte last with ⟨next, first, corrupted, computed⟩
        rw [first, ok_bind, inputBytes_of_corrupted (by omega)]
        exact ⟨next, rfl, corrupted, computed⟩

/-! ## Any calls -/

/-- What a context stands for. -/
def Stands (context : Sha1Context) : Sha1Stage → Prop
  | .collects message => context.Collects message
  | .computed digest =>
      context.computed = true ∧ context.corrupted = 0 ∧ context.messageDigest = digest
  | .corrupted code => context.corrupted = code ∧ code ≠ 0 ∧
      (context.computed = true → code = shaStateError)

/-- A message that is collected has a length that 64 bits hold. -/
theorem Collects.length_lt (collects : context.Collects message) :
    message.length < 2 ^ 61 := by
  have length := collects.length
  have low := context.lengthLow.toNat_lt
  have high := context.lengthHigh.toNat_lt
  unfold bits at length
  omega

theorem input_spec {stage : Sha1Stage} (stands : context.Stands stage) (more : List Byte) :
    ∃ context', context.input more = .ok (context', (stage.step (.input more)).2) ∧
      context'.Stands (stage.step (.input more)).1 := by
  cases more with
  | nil =>
      refine ⟨context, ?_, ?_⟩
      · rw [input, if_pos rfl, Sha1Stage.step]
      · rwa [Sha1Stage.step]
  | cons byte rest =>
      rw [input, if_neg (List.cons_ne_nil _ _)]
      cases stage with
      | collects message =>
          have collects : context.Collects message := stands
          have computed : ¬context.computed = true := by
            rw [collects.computed]
            decide
          rw [if_neg computed, if_neg (not_not.mpr collects.corrupted), Sha1Stage.step_collects]
          rcases Nat.lt_or_ge (message ++ byte :: rest).length (2 ^ 61) with small | long
          · rcases collects.inputBytes_spec (byte :: rest) small with ⟨next, reads, collects'⟩
            rw [reads, ok_bind, if_pos small]
            exact ⟨next, rfl, collects'⟩
          · rcases collects.inputBytes_long (byte :: rest) collects.length_lt long with
              ⟨next, reads, corrupted, open'⟩
            rw [reads, ok_bind, if_neg (Nat.not_lt.mpr long)]
            exact ⟨next, rfl, corrupted, by decide, fun done => absurd done (by rw [open']; decide)⟩
      | computed digest =>
          rcases stands with ⟨computed, fine, holds⟩
          rw [if_pos computed]
          exact ⟨_, rfl, rfl, by decide, fun _ => rfl⟩
      | corrupted code =>
          rcases stands with ⟨rfl, broken, late⟩
          rcases Bool.eq_false_or_eq_true context.computed with computed | fresh
          · rw [if_pos computed]
            have code : (Sha1Stage.corrupted context.corrupted).step (.input (byte :: rest)) =
                (.corrupted shaStateError, ⟨shaStateError, none⟩) := by
              rw [late computed, Sha1Stage.step_corrupted]
            rw [code]
            exact ⟨_, rfl, rfl, by decide, fun _ => rfl⟩
          · rw [if_neg (by rw [fresh]; decide), if_pos broken]
            exact ⟨context, rfl, rfl, broken, late⟩

theorem result_spec {stage : Sha1Stage} (stands : context.Stands stage) :
    ∃ context', context.result = .ok (context', (stage.step .result).2) ∧
      context'.Stands (stage.step .result).1 := by
  cases stage with
  | collects message =>
      have collects : context.Collects message := stands
      rcases collects.padMessage_spec with ⟨next, pads, fine, hash⟩
      have computed : ¬context.computed = true := by
        rw [collects.computed]
        decide
      have digest := messageDigest_eq hash
      rw [result, if_neg (not_not.mpr collects.corrupted), if_neg computed, pads, ok_bind]
      exact ⟨_, congrArg _ (congrArg _ (congrArg _ (congrArg some digest))), rfl, fine, digest⟩
  | computed digest =>
      rcases stands with ⟨computed, fine, rfl⟩
      rw [result, if_neg (not_not.mpr fine), if_pos computed]
      exact ⟨context, rfl, computed, fine, rfl⟩
  | corrupted code =>
      rcases stands with ⟨rfl, broken, late⟩
      rw [result, if_pos broken]
      exact ⟨context, rfl, rfl, broken, late⟩

theorem step_simulates :
    Simulates Stands step (fun stage call => .ok (stage.step call)) := by
  intro context stage call stands
  cases call with
  | reset => exact .ok _ context.collects_reset
  | input more =>
      rcases input_spec stands more with ⟨next, result, holds⟩
      rw [step, result]
      exact .ok _ holds
  | result =>
      rcases result_spec stands with ⟨next, result, holds⟩
      rw [step, result]
      exact .ok _ holds

/-- **Parts.**  Whatever was called before, a context that is reset answers any further calls as
the machine that keeps the message does, and it never writes behind its block. -/
theorem answers_sha1 (context : Sha1Context) (calls : List Sha1Call) :
    answers step context (.reset :: calls) =
      .ok (answersOf Sha1Stage.step (.collects []) (.reset :: calls)) := by
  have first : answers step context (.reset :: calls) =
      (answers step context.reset calls >>= fun rest => .ok (⟨shaSuccess, none⟩ :: rest)) :=
    rfl
  rw [first, step_simulates.answers_eq (t := .collects []) context.collects_reset, answers_ok]
  rfl

end Sha1Context

end Xwbot.Crypt
