import Xwbot.Wire
import Xwbot.Video.Vp8

/-!
# Theora frames in packets

The Theora plugin cuts an encoded packet into fragments that fit the path and
puts it together again in the buffer of the decoder context.  The place where
the next fragment goes is a static variable, and all contexts share it.  The
codec behind the buffer is not part of the model.

The host is little-endian: `ntohs` and `ntohl` exchange bytes.
-/

namespace Xwbot.Video.Theora

/-! ## Numbers in memory -/

/-- `htons` and `ntohs` -/
def swap16 (n : Nat) : Nat :=
  n % 256 * 256 + n / 256 % 256

/-- `htonl` and `ntohl` -/
def swap32 (n : Nat) : Nat :=
  swap16 n * 65536 + swap16 (n / 65536)

/-- `write16` of the plugin, which writes the low byte first. -/
def writeLow16 (n : Nat) : List Byte :=
  [n.toUInt8, (n / 256).toUInt8]

/-- `write32` of the plugin, which writes the low byte first. -/
def writeLow32 (n : Nat) : List Byte :=
  writeLow16 n ++ writeLow16 (n / 65536)

theorem toUInt8_eq_iff {n m : Nat} : n.toUInt8 = m.toUInt8 ↔ n % 256 = m % 256 := by
  rw [Nat.toUInt8_eq, Nat.toUInt8_eq, ← UInt8.toNat_inj, UInt8.toNat_ofNat', UInt8.toNat_ofNat']

/-- What the plugin writes is in network order. -/
theorem writeLow16_swap16 (n : Nat) : writeLow16 (swap16 n) = htons n := by
  have small : n / 256 % 256 < 256 := Nat.mod_lt _ (by decide)
  have first : (swap16 n).toUInt8 = (n / 256).toUInt8 := by
    rw [toUInt8_eq_iff, swap16]
    omega
  have second : (swap16 n / 256).toUInt8 = n.toUInt8 := by
    rw [toUInt8_eq_iff, swap16]
    generalize n / 256 % 256 = low at small
    omega
  rw [writeLow16, htons, first, second]

theorem writeLow16_mod (n : Nat) : writeLow16 (n % 65536) = writeLow16 n := by
  have first : (n % 65536).toUInt8 = n.toUInt8 := by
    rw [toUInt8_eq_iff]
    omega
  have second : (n % 65536 / 256).toUInt8 = (n / 256).toUInt8 := by
    rw [toUInt8_eq_iff]
    omega
  rw [writeLow16, writeLow16, first, second]

theorem writeLow32_swap32 (n : Nat) : writeLow32 (swap32 n) = htonl n := by
  have small : swap16 (n / 65536) < 65536 := by
    rw [swap16]
    omega
  have low : swap32 n % 65536 = swap16 (n / 65536) := by
    rw [swap32]
    omega
  have high : swap32 n / 65536 = swap16 n := by
    rw [swap32]
    omega
  rw [writeLow32, ← writeLow16_mod, low, high, writeLow16_swap16, writeLow16_swap16, htons, htons,
    htonl, Nat.div_div_eq_div_mul]
  rfl

/-! ## Sending -/

/-- `PATH_MTU_THEORA`: what is left of the path behind the headers. -/
def pathMtuTheora : Nat :=
  1300 - 12 - 6

/-- The header of a fragment: `mark` is the kind of fragment, `_len` its length. -/
def fragmentHeader (ident mark numpackets len : Nat) : List Byte :=
  let packbuf := writeLow32 (swap32 (ident * 256)) ++ writeLow16 (swap16 len)
  packbuf.modify 3 fun byte =>
    byte ||| (mark % 4 * 64 + numpackets % 16).toUInt8

/-- The loop of `__theora_send_fragmented_rtp` on the bytes behind `sent`. -/
def sendFragments (ident numpackets : Nat) : Nat → Nat → List Byte → List (List Byte)
  | 0, _, _ => []
  | fuel + 1, sent, rest =>
      if rest = [] then []
      else
        let len := if pathMtuTheora < rest.length then pathMtuTheora else rest.length
        let mark :=
          if pathMtuTheora < rest.length then if sent ≠ 0 then 2 else 1
          else if sent ≠ 0 then 3 else 0
        (fragmentHeader ident mark numpackets len ++ rest.take len) ::
          sendFragments ident numpackets fuel (sent + len) (rest.drop len)

/-- `__theora_send_fragmented_rtp`: the payloads. -/
def payloads (ident : Nat) (packet : List Byte) : List (List Byte) :=
  sendFragments ident (if pathMtuTheora < packet.length then 0 else 1) packet.length 0 packet

/-- `__theora_send_fragmented_rtp` with a next hop: the payloads with the hints that number them,
and the next number. -/
def theoraSendFragmentedRtp (seqno : UInt32) (stamp : Int) (ident : Nat) (packet : List Byte) :
    UInt32 × List RtpPacket :=
  let sent := payloads ident packet
  (seqno + sent.length.toUInt32,
    sent.mapIdx fun k bytes => ⟨bytes, seqno + k.toUInt32, stamp⟩)

@[simp]
theorem bytes_theoraSendFragmentedRtp (seqno : UInt32) (stamp : Int) (ident : Nat)
    (packet : List Byte) :
    (theoraSendFragmentedRtp seqno stamp ident packet).2.map RtpPacket.bytes =
      payloads ident packet := by
  apply List.ext_getElem
  · simp [theoraSendFragmentedRtp]
  · intro k _ _
    simp [theoraSendFragmentedRtp]

/-! ## Receiving -/

/-- The data type in the fourth byte of a payload. -/
def tdtOf (byte : Byte) : Byte :=
  (byte >>> 4) &&& 0x3

/-- The fragment type in the fourth byte of a payload. -/
def markOf (byte : Byte) : Byte :=
  (byte >>> 6) &&& 0x3

/-- The decoder contexts: the static position and the buffer of each context, whose length is
`bufsiz`. -/
structure Receivers where
  curpos : Nat
  buffer : Nat → List Byte

namespace Receivers

/-- No context has a buffer yet. -/
def start : Receivers :=
  ⟨0, fun _ => []⟩

/-- The buffer is grown if it must, and the bytes are copied to the position. -/
def append (heap : Nat → Byte) (s : Receivers) (cdc : Nat) (data : List Byte) : Receivers :=
  let plen := data.length
  let block := s.buffer cdc
  let block :=
    if block.length < s.curpos + plen then realloc heap block (s.curpos + plen) else block
  ⟨s.curpos + plen,
    Function.update s.buffer cdc (block.take s.curpos ++ data ++ block.drop (s.curpos + plen))⟩

/-- What the decoder of a context gets. -/
def packetin (s : Receivers) (cdc : Nat) : List Byte :=
  (s.buffer cdc).take s.curpos

/-- The cases of `x_theora_dispatch_frame_packet`: the packet that the decoder gets, if any. -/
def place (heap : Nat → Byte) (s : Receivers) (cdc : Nat) (mark : Byte) (data : List Byte) :
    Receivers × Option (List Byte) :=
  match mark with
  | 0 =>
      let s := { s with curpos := 0 }.append heap cdc data
      (s, some (s.packetin cdc))
  | 1 =>
      let cleared := List.replicate (s.buffer cdc).length 0
      let s : Receivers := ⟨0, Function.update s.buffer cdc cleared⟩
      (s.append heap cdc data, none)
  | 2 => (s.append heap cdc data, none)
  | _ =>
      let s := s.append heap cdc data
      (s, some (s.packetin cdc))

/-- `x_theora_dispatch_frame_packet` -/
def dispatchFramePacket (heap : Nat → Byte) (s : Receivers) (cdc : Nat) (pconf : List Byte)
    (mark : Byte) : Except Fault (Receivers × Option (List Byte)) := do
  let plen ← readU16 pconf 4
  let data ← readBytes pconf 6 plen
  .ok (s.place heap cdc mark data)

/-- `__on_theora_packet_received`: a configuration header does not touch the buffer. -/
def onTheoraPacketReceived (heap : Nat → Byte) (s : Receivers) (cdc : Nat) (data : List Byte) :
    Except Fault (Receivers × Option (List Byte)) :=
  match data[3]? with
  | none => .error .overread
  | some byte =>
      if tdtOf byte = 0 then s.dispatchFramePacket heap cdc data (markOf byte) else .ok (s, none)

/-- Payloads that arrive one after the other, each for a context, and what the decoders get. -/
def receive (heap : Nat → Byte) : Receivers → List (Nat × List Byte) →
    Except Fault (Receivers × List (Nat × List Byte))
  | s, [] => .ok (s, [])
  | s, (cdc, data) :: rest => do
      let (s, packet) ← s.onTheoraPacketReceived heap cdc data
      let (s, packets) ← receive heap s rest
      .ok (s, (packet.map fun packet => (cdc, packet)).toList ++ packets)

end Receivers

end Xwbot.Video.Theora
