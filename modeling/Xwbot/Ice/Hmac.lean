import Xwbot.Crypt
import Xwbot.Ice.Stun

/-!
# The keyed digest

A key that is longer than a block of the digest is replaced by a digest of it.
The code takes MD5 for that, and SHA-1 for everything else.
-/

namespace Xwbot.Ice

/-- What `md5_finish` returns. -/
structure Md5Digest where
  bytes : List Byte
  sized : bytes.length = 16
  deriving DecidableEq, Repr

/-- `IPAD` -/
def ipad : Byte :=
  0x36

/-- `OPAD` -/
def opad : Byte :=
  0x5c

/-- `for (i = 0; i < 64; i++) k[i] ^= pad` -/
def xorPad (pad : Byte) (k : List Byte) : List Byte :=
  (k.take 64).map (· ^^^ pad) ++ k.drop 64

/-- `jingle_get_hmac_sha1(key, keylen, data, datalen)`.  The two arrays for the key have 65
bytes, of which 64 are taken. -/
def jingleGetHmacSha1 (sha1 : List Byte → Digest) (md5 : List Byte → Md5Digest)
    (key data : List Byte) : Except Fault Digest := do
  let key := if 64 < key.length then (md5 key).bytes else key
  let kIpad ← copyTo (List.replicate 65 0) 0 key
  let kOpad ← copyTo (List.replicate 65 0) 0 key
  let kIpad := xorPad ipad kIpad
  let kOpad := xorPad opad kOpad
  let messageDigest := sha1 (kIpad.take 64 ++ data)
  .ok (sha1 (kOpad.take 64 ++ messageDigest.bytes))

/-! ## HMAC -/

/-- A key of at most one block, filled up with zeros. -/
def keyBlock (key : List Byte) : List Byte :=
  key ++ List.replicate (64 - key.length) 0

/-- The digest of the data under a block. -/
def underBlock (sha1 : List Byte → Digest) (block data : List Byte) : Digest :=
  sha1 (block.map (· ^^^ opad) ++ (sha1 (block.map (· ^^^ ipad) ++ data)).bytes)

/-- HMAC with SHA-1, the blocks of which have 64 bytes: a longer key is digested first. -/
def hmacSha1 (sha1 : List Byte → Digest) (key data : List Byte) : Digest :=
  underBlock sha1 (keyBlock (if 64 < key.length then (sha1 key).bytes else key)) data

variable {sha1 : List Byte → Digest} {md5 : List Byte → Md5Digest} {key data : List Byte}

theorem length_keyBlock (short : key.length ≤ 64) : (keyBlock key).length = 64 := by
  rw [keyBlock, List.length_append, List.length_replicate]
  omega

theorem copyTo_keyBlock (short : key.length ≤ 64) :
    copyTo (List.replicate 65 0) 0 key = .ok (keyBlock key ++ [0]) := by
  have fits : key.length ≤ (List.replicate 65 (0 : Byte)).length := by
    rw [List.length_replicate]
    omega
  have copied := copyTo_append [] key fits
  have rest : List.replicate (65 - key.length) (0 : Byte) =
      List.replicate (64 - key.length) 0 ++ [0] := by
    rw [← List.replicate_succ']
    congr 1
    omega
  rw [List.nil_append, List.nil_append, List.drop_replicate, rest] at copied
  rw [keyBlock, List.append_assoc]
  exact copied

theorem take_xorPad (pad : Byte) (short : key.length ≤ 64) :
    (xorPad pad (keyBlock key ++ [0])).take 64 = (keyBlock key).map (· ^^^ pad) := by
  have length := length_keyBlock short
  have kept : (keyBlock key ++ [0]).take 64 = keyBlock key := by
    rw [← length, List.take_left]
  have size : ((keyBlock key).map (· ^^^ pad)).length = 64 := by
    rw [List.length_map, length]
  rw [xorPad, kept]
  conv_lhs => rw [← size, List.take_left]

/-- The code always returns a keyed digest, for a long key under another block. -/
theorem jingleGetHmacSha1_eq : jingleGetHmacSha1 sha1 md5 key data =
    .ok (underBlock sha1 (keyBlock (if 64 < key.length then (md5 key).bytes else key)) data) := by
  have short : (if 64 < key.length then (md5 key).bytes else key).length ≤ 64 := by
    split
    · rw [(md5 key).sized]
      omega
    · omega
  rw [jingleGetHmacSha1]
  dsimp only
  rw [copyTo_keyBlock short, ok_bind, ok_bind, take_xorPad ipad short, take_xorPad opad short]
  rfl

/-- What the code computes under a key is HMAC-SHA1, whatever the two digests are. -/
def Conforms (key : List Byte) : Prop :=
  ∀ (sha1 : List Byte → Digest) (md5 : List Byte → Md5Digest) (data : List Byte),
    jingleGetHmacSha1 sha1 md5 key data = .ok (hmacSha1 sha1 key data)

/-- The first byte and zeros. -/
def firstByte (message : List Byte) : Digest :=
  ⟨message.headD 0 :: List.replicate 19 0, rfl⟩

/-- Zeros behind the first byte with its last bit changed. -/
def otherByte (message : List Byte) : Md5Digest :=
  ⟨(message.headD 0 ^^^ 1) :: List.replicate 15 0, rfl⟩

/-- **Keyed digest.**  The code computes HMAC-SHA1 exactly under the keys that are not longer
than a block. -/
theorem conforms_iff : Conforms key ↔ key.length ≤ 64 := by
  constructor
  · intro conforms
    by_contra long
    have same := conforms firstByte otherByte []
    have longer : 64 < key.length := Nat.not_le.mp long
    rw [jingleGetHmacSha1_eq, hmacSha1, if_pos longer, if_pos longer] at same
    -- the first byte of the outer message is that of the block
    have bytes := congrArg (fun digest : Digest => digest.bytes.headD 0) (Except.ok.inj same)
    have heads : (key.headD 0 ^^^ 1) ^^^ opad = key.headD 0 ^^^ opad := bytes
    have unpadded := congrArg (· ^^^ opad) heads
    simp only [UInt8.xor_assoc, UInt8.xor_self, UInt8.xor_zero] at unpadded
    have bit := congrArg (key.headD 0 ^^^ ·) unpadded
    simp only [← UInt8.xor_assoc, UInt8.xor_self, UInt8.zero_xor] at bit
    cases bit
  · intro short sha1 md5 data
    rw [jingleGetHmacSha1_eq, hmacSha1, if_neg (Nat.not_lt.mpr short),
      if_neg (Nat.not_lt.mpr short)]

/-- The digest of the crypt plugin. -/
def pluginSha1 (message : List Byte) : Digest :=
  ⟨Crypt.sha1 message, Crypt.length_sha1 message⟩

/-- The other digest of the crypt plugin. -/
def pluginMd5 (message : List Byte) : Md5Digest :=
  ⟨Crypt.md5 message, Crypt.length_md5 message⟩

/-- With the digests of the plugin, a key of 65 bytes gives another result. -/
theorem not_conforms_long :
    jingleGetHmacSha1 pluginSha1 pluginMd5 (List.replicate 65 (ch 'k')) (lit "data") ≠
        .ok (hmacSha1 pluginSha1 (List.replicate 65 (ch 'k')) (lit "data")) ∧
      ¬Conforms (List.replicate 65 (ch 'k')) := by
  have differ : jingleGetHmacSha1 pluginSha1 pluginMd5 (List.replicate 65 (ch 'k'))
      (lit "data") ≠ .ok (hmacSha1 pluginSha1 (List.replicate 65 (ch 'k')) (lit "data")) := by
    decide +kernel
  exact ⟨differ, fun conforms => differ (conforms pluginSha1 pluginMd5 (lit "data"))⟩

end Xwbot.Ice
