import Xwbot.Wire

/-!
# The digests of the crypt plugin

SHA-1 and MD5 over byte strings.  The plugin takes a message in parts; here it
is one string, and the last block is filled as `SHA1PadMessage` and
`md5_finish` do.
-/

namespace Xwbot.Crypt

/-- `SHA1CircularShift(n, x)` and `ROTATE_LEFT(x, n)` -/
def rotateLeft (n x : UInt32) : UInt32 :=
  (x <<< n) ||| (x >>> (32 - n))

/-- The message with a bit, with zeros up to the last eight bytes of a block, and with its
length in bits. -/
def padded (lengthBytes : Nat → List Byte) (message : List Byte) : List Byte :=
  message ++ 0x80 :: (List.replicate ((119 - message.length % 64) % 64) 0 ++
    lengthBytes (8 * message.length))

/-- One block after the other. -/
def overBlocks {σ : Type} (process : σ → List Byte → σ) : Nat → σ → List Byte → σ
  | 0, state, _ => state
  | blocks + 1, state, message =>
      overBlocks process blocks (process state (message.take 64)) (message.drop 64)

/-- The bytes of a block, four to a word. -/
def words (word : Byte → Byte → Byte → Byte → UInt32) : List Byte → List UInt32
  | a :: b :: c :: d :: rest => word a b c d :: words word rest
  | _ => []

/-! ## SHA-1 -/

/-- `Intermediate_Hash` -/
structure Sha1State where
  a : UInt32
  b : UInt32
  c : UInt32
  d : UInt32
  e : UInt32
  deriving DecidableEq, Repr

/-- `SHA1Reset` -/
def sha1Reset : Sha1State :=
  ⟨0x67452301, 0xEFCDAB89, 0x98BADCFE, 0x10325476, 0xC3D2E1F0⟩

/-- The words `W[16]` to `W[79]`; the words so far are given from the last one back. -/
def schedule : Nat → List UInt32 → List UInt32
  | 0, back => back.reverse
  | left + 1, back =>
      let next := rotateLeft 1
        (back.getD 2 0 ^^^ back.getD 7 0 ^^^ back.getD 13 0 ^^^ back.getD 15 0)
      schedule left (next :: back)

/-- One of the 80 steps. -/
def sha1Step (t : Nat) (s : Sha1State) (w : UInt32) : Sha1State :=
  let mix : UInt32 :=
    if t < 20 then ((s.b &&& s.c) ||| (~~~s.b &&& s.d)) + 0x5A827999
    else if t < 40 then (s.b ^^^ s.c ^^^ s.d) + 0x6ED9EBA1
    else if t < 60 then ((s.b &&& s.c) ||| (s.b &&& s.d) ||| (s.c &&& s.d)) + 0x8F1BBCDC
    else (s.b ^^^ s.c ^^^ s.d) + 0xCA62C1D6
  ⟨rotateLeft 5 s.a + mix + s.e + w, s.a, rotateLeft 30 s.b, s.c, s.d⟩

/-- The steps from `t` on. -/
def sha1Steps : Nat → Sha1State → List UInt32 → Sha1State
  | _, s, [] => s
  | t, s, w :: rest => sha1Steps (t + 1) (sha1Step t s w) rest

/-- `SHA1ProcessMessageBlock` -/
def sha1Process (s : Sha1State) (block : List Byte) : Sha1State :=
  let first := words
    (fun a b c d => (a.toUInt32 <<< 24) ||| (b.toUInt32 <<< 16) ||| (c.toUInt32 <<< 8) |||
      d.toUInt32) block
  let r := sha1Steps 0 s (schedule 64 first.reverse)
  ⟨s.a + r.a, s.b + r.b, s.c + r.c, s.d + r.d, s.e + r.e⟩

/-- `SHA1Reset`, `SHA1Input` and `SHA1Result` -/
def sha1 (message : List Byte) : List Byte :=
  let input := padded (fun n => htonl (n / 4294967296) ++ htonl n) message
  let r := overBlocks sha1Process (input.length / 64) sha1Reset input
  htonl r.a.toNat ++ htonl r.b.toNat ++ htonl r.c.toNat ++ htonl r.d.toNat ++ htonl r.e.toNat

theorem length_sha1 (message : List Byte) : (sha1 message).length = 20 := by
  simp [sha1]

/-! ## MD5 -/

/-- `abcd` -/
structure Md5State where
  a : UInt32
  b : UInt32
  c : UInt32
  d : UInt32
  deriving DecidableEq, Repr

/-- `md5_init` -/
def md5Init : Md5State :=
  ⟨0x67452301, 0xefcdab89, 0x98badcfe, 0x10325476⟩

/-- `T1` to `T64` -/
def md5T : List UInt32 :=
  [0xd76aa478, 0xe8c7b756, 0x242070db, 0xc1bdceee, 0xf57c0faf, 0x4787c62a, 0xa8304613,
   0xfd469501, 0x698098d8, 0x8b44f7af, 0xffff5bb1, 0x895cd7be, 0x6b901122, 0xfd987193,
   0xa679438e, 0x49b40821,
   0xf61e2562, 0xc040b340, 0x265e5a51, 0xe9b6c7aa, 0xd62f105d, 0x02441453, 0xd8a1e681,
   0xe7d3fbc8, 0x21e1cde6, 0xc33707d6, 0xf4d50d87, 0x455a14ed, 0xa9e3e905, 0xfcefa3f8,
   0x676f02d9, 0x8d2a4c8a,
   0xfffa3942, 0x8771f681, 0x6d9d6122, 0xfde5380c, 0xa4beea44, 0x4bdecfa9, 0xf6bb4b60,
   0xbebfbc70, 0x289b7ec6, 0xeaa127fa, 0xd4ef3085, 0x04881d05, 0xd9d4d039, 0xe6db99e5,
   0x1fa27cf8, 0xc4ac5665,
   0xf4292244, 0x432aff97, 0xab9423a7, 0xfc93a039, 0x655b59c3, 0x8f0ccc92, 0xffeff47d,
   0x85845dd1, 0x6fa87e4f, 0xfe2ce6e0, 0xa3014314, 0x4e0811a1, 0xf7537e82, 0xbd3af235,
   0x2ad7d2bb, 0xeb86d391]

/-- The function, the word and the shift of a step. -/
def md5Op (i : Nat) (x y z : UInt32) : UInt32 × Nat × UInt32 :=
  if i < 16 then
    ((x &&& y) ||| (~~~x &&& z), i, [7, 12, 17, 22].getD (i % 4) 0)
  else if i < 32 then
    ((x &&& z) ||| (y &&& ~~~z), (5 * i + 1) % 16, [5, 9, 14, 20].getD (i % 4) 0)
  else if i < 48 then
    (x ^^^ y ^^^ z, (3 * i + 5) % 16, [4, 11, 16, 23].getD (i % 4) 0)
  else
    (y ^^^ (x ||| ~~~z), 7 * i % 16, [6, 10, 15, 21].getD (i % 4) 0)

/-- `SET`.  The names of the four words go round instead of the words. -/
def md5Step (xs : List UInt32) (i : Nat) (s : Md5State) (ti : UInt32) : Md5State :=
  let op := md5Op i s.b s.c s.d
  let t := s.a + op.1 + xs.getD op.2.1 0 + ti
  ⟨s.d, rotateLeft op.2.2 t + s.b, s.b, s.c⟩

/-- The steps from `i` on. -/
def md5Steps (xs : List UInt32) : Nat → Md5State → List UInt32 → Md5State
  | _, s, [] => s
  | i, s, ti :: rest => md5Steps xs (i + 1) (md5Step xs i s ti) rest

/-- `md5_process` -/
def md5Process (s : Md5State) (block : List Byte) : Md5State :=
  let xs := words
    (fun a b c d => a.toUInt32 + (b.toUInt32 <<< 8) + (c.toUInt32 <<< 16) +
      (d.toUInt32 <<< 24)) block
  let r := md5Steps xs 0 s md5T
  ⟨s.a + r.a, s.b + r.b, s.c + r.c, s.d + r.d⟩

/-- The bytes of a word, the low ones first. -/
def lowFirst (n : Nat) : List Byte :=
  (htonl n).reverse

/-- `md5_init`, `md5_append` and `md5_finish` -/
def md5 (message : List Byte) : List Byte :=
  let input := padded (fun n => lowFirst n ++ lowFirst (n / 4294967296)) message
  let r := overBlocks md5Process (input.length / 64) md5Init input
  lowFirst r.a.toNat ++ lowFirst r.b.toNat ++ lowFirst r.c.toNat ++ lowFirst r.d.toNat

theorem length_md5 (message : List Byte) : (md5 message).length = 16 := by
  simp [md5, lowFirst]

example : sha1 (lit "abc") = [0xa9, 0x99, 0x3e, 0x36, 0x47, 0x06, 0x81, 0x6a, 0xba, 0x3e, 0x25,
    0x71, 0x78, 0x50, 0xc2, 0x6c, 0x9c, 0xd0, 0xd8, 0x9d] := by
  decide +kernel

example : md5 (lit "abc") = [0x90, 0x01, 0x50, 0x98, 0x3c, 0xd2, 0x4f, 0xb0, 0xd6, 0x96, 0x3f,
    0x7d, 0x28, 0xe1, 0x7f, 0x72] := by
  decide +kernel

end Xwbot.Crypt
