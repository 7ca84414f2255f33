import Xwbot.Wire

/-!
# VP8 frames in packets

The VP8 plugin cuts an encoded frame into packets of at most `MTU` bytes, each
with a payload descriptor in front, and puts the frame together again on the
other side.  The decoder and the renderer behind it are not part of the model:
what they see is the buffer that became ready, and what they give back is how
many images were refused.
-/

namespace Xwbot.Video

/-- `MTU` -/
def mtu : Nat :=
  1300

/-- `DEFAULT_IOLIFECOUNT` -/
def defaultIoLifeCount : Int :=
  100

/-- `__UINT32_MAX__`: there is no picture id. -/
def noPictureId : UInt32 :=
  0xFFFFFFFF

/-- `enum frag_info` -/
inductive FragInfo where
  | notFragmented
  | firstFragment
  | middleFragment
  | lastFragment
  deriving DecidableEq, Repr

/-- The value of the enumerator. -/
def FragInfo.bits : FragInfo → Byte
  | .notFragmented => 0
  | .firstFragment => 1
  | .middleFragment => 2
  | .lastFragment => 3

/-- `vp8_descriptor_t` -/
structure Vp8Descriptor where
  nonReferenceFrame : Bool
  fragmentationInfo : FragInfo
  frameBeginning : Bool
  pictureId : UInt32
  deriving DecidableEq, Repr

/-! ## The payload descriptor -/

/-- `extract_bits` -/
def extractBits (byte bits shift : Byte) : Byte :=
  (byte >>> shift) &&& ((1 <<< bits) - 1)

/-- The fragmentation field of the first byte. -/
def fragInfo (byte : Byte) : FragInfo :=
  match extractBits byte 2 1 with
  | 0 => .notFragmented
  | 1 => .firstFragment
  | 2 => .middleFragment
  | _ => .lastFragment

/-- A truth value as a `u_int8_t`. -/
def bit (b : Bool) : Byte :=
  if b then 1 else 0

/-- The loop of `pack_vp8_descriptor`, which has room for so many bytes.  A picture id of
zero takes no byte. -/
def packPictureId : Nat → Nat → List Byte
  | 0, _ => []
  | room + 1, pictureId =>
      if 0 < pictureId then
        let byte := (pictureId % 128).toUInt8
        (if 0 < pictureId / 128 then byte ||| 0x80 else byte) ::
          packPictureId room (pictureId / 128)
      else []

/-- `pack_vp8_descriptor` -/
def packVp8Descriptor (descriptor : Vp8Descriptor) : Nat → List Byte
  | 0 => []
  | room + 1 =>
      (bit (descriptor.pictureId ≠ noPictureId) <<< 4 |||
        bit descriptor.nonReferenceFrame <<< 3 |||
        (descriptor.fragmentationInfo.bits &&& 0x3) <<< 1 |||
        bit descriptor.frameBeginning) ::
      if descriptor.pictureId = noPictureId then []
      else packPictureId room descriptor.pictureId.toNat

/-- The loop of `parse_vp8_packet`: the picture id and the bytes that it takes. -/
def parsePictureId (pictureId : UInt32) : List Byte → Option (UInt32 × Nat)
  | [] => none
  | byte :: rest =>
      let pictureId := pictureId ||| (byte &&& 0x7F).toUInt32
      if byte &&& 0x80 ≠ 0 then
        (parsePictureId pictureId rest).map fun parsed => (parsed.1, parsed.2 + 1)
      else some (pictureId, 1)

/-- `parse_vp8_packet`: the descriptor and its size. -/
def parseVp8Packet : List Byte → Option (Vp8Descriptor × Nat)
  | [] => none
  | byte :: rest =>
      let descriptor : Vp8Descriptor :=
        ⟨extractBits byte 1 3 ≠ 0, fragInfo byte, extractBits byte 1 0 ≠ 0, noPictureId⟩
      if extractBits byte 1 4 ≠ 0 then
        (parsePictureId 0 rest).map fun parsed =>
          ({ descriptor with pictureId := parsed.1 }, parsed.2 + 1)
      else some (descriptor, 1)

/-! ## Sending -/

/-- The counters of the encoder. -/
structure Sender where
  seqno : UInt32
  stamp : Int
  deriving DecidableEq, Repr

/-- What `_WRITE` passes to the next hop: the buffer, and the hints that number it. -/
structure RtpPacket where
  bytes : List Byte
  seqno : UInt32
  timestamp : Int
  deriving DecidableEq, Repr

/-- `packbuf[0] &= ~(0x3 << 1); packbuf[0] |= ((FIRST_FRAGMENT & 0x3) << 1)` -/
def markFirst : List Byte → List Byte
  | [] => []
  | byte :: rest =>
      (byte &&& ~~~((0x3 : Byte) <<< 1) ||| (FragInfo.firstFragment.bits &&& 0x3) <<< 1) :: rest

/-- The descriptor of the packets that follow the first one. -/
def laterDescriptor (info : FragInfo) : Vp8Descriptor :=
  ⟨false, info, false, noPictureId⟩

/-- The descriptor in front of the next packet.  `elapsed` is what the previous turn left over
after one more packet of its own size. -/
def nextHeader (hdr : List Byte) (elapsed bufoff : Nat) : List Byte :=
  if elapsed ≠ 0 then
    if bufoff = 0 then markFirst hdr
    else packVp8Descriptor (laterDescriptor .middleFragment) mtu
  else if bufoff ≠ 0 then packVp8Descriptor (laterDescriptor .lastFragment) mtu
  else hdr

/-- The loop of `__x_vp8_rtp_send` on the bytes behind `bufoff`. -/
def sendPackets (stamp : Int) : Nat → UInt32 → List Byte → Nat → Nat → List Byte →
    Except Fault (UInt32 × List RtpPacket)
  | 0, _, _, _, _, _ => .error .hang
  | fuel + 1, seqno, hdr, elapsed, bufoff, rest =>
      let hdr := nextHeader hdr elapsed bufoff
      let capacity := mtu - hdr.length
      let left := rest.length - capacity
      let sent := rest.length - left
      let packet := ⟨hdr ++ rest.take sent, seqno, stamp⟩
      if left ≠ 0 then do
        let (seqno, packets) ←
          sendPackets stamp fuel (seqno + 1) hdr (left - capacity) (bufoff + sent) (rest.drop sent)
        .ok (seqno, packet :: packets)
      else .ok (seqno + 1, [packet])

/-- The first descriptor of a frame. -/
def firstDescriptor (seqno : UInt32) : Vp8Descriptor :=
  ⟨false, .notFragmented, true, seqno &&& 127⟩

/-- `__x_vp8_rtp_send` with a next hop. -/
def xVp8RtpSend (sender : Sender) (frame : List Byte) :
    Except Fault (Sender × List RtpPacket) := do
  let hdr := packVp8Descriptor (firstDescriptor sender.seqno) mtu
  let capacity := mtu - hdr.length
  let (seqno, packets) ← sendPackets sender.stamp (frame.length + 1) sender.seqno hdr
    (frame.length - capacity) 0 frame
  .ok (⟨seqno, sender.stamp + 3600⟩, packets)

/-! ## Receiving -/

/-- The decoder's side: `bufsiz` is the length of the buffer. -/
structure Receiver where
  buffer : List Byte
  curpos : Nat
  initialized : Bool
  ioLifeCount : Int
  within : curpos ≤ buffer.length

/-- The test at the head of `__on_vpx_packet_received`. -/
def Receiver.Alive (r : Receiver) : Prop :=
  -defaultIoLifeCount ≤ r.ioLifeCount

instance (r : Receiver) : Decidable r.Alive :=
  inferInstanceAs (Decidable (_ ≤ _))

/-- The buffer after it was grown by a payload, which is copied to `curpos`. -/
def Receiver.appended (heap : Nat → Byte) (r : Receiver) (payload : List Byte) : List Byte :=
  let grown := realloc heap r.buffer (r.buffer.length + payload.length)
  grown.take r.curpos ++ payload ++ grown.drop (r.curpos + payload.length)

theorem Receiver.length_appended (heap : Nat → Byte) (r : Receiver) (payload : List Byte) :
    (r.appended heap payload).length = r.buffer.length + payload.length := by
  have within := r.within
  simp only [appended, List.length_append, List.length_take, List.length_drop, length_realloc]
  omega

/-- The end of `__on_vpx_packet_received`: the decoder gets the buffer, and each image that the
renderer refuses costs a life. -/
def Receiver.decode (refused : List Byte → Nat) (r : Receiver) : Receiver :=
  if r.initialized then { r with ioLifeCount := r.ioLifeCount - refused r.buffer } else r

/-- `__on_vpx_packet_received`: the receiver, and the buffer if it became ready. -/
def onVpxPacketReceived (heap : Nat → Byte) (refused : List Byte → Nat) (r : Receiver)
    (data : List Byte) : Receiver × Option (List Byte) :=
  if r.Alive then
    match parseVp8Packet data with
    | none => (r, none)
    | some (vp8d, off) =>
        let payload := data.drop off
        match vp8d.fragmentationInfo with
        | .notFragmented =>
            let r := { r with buffer := payload, curpos := 0, within := Nat.zero_le _ }
            (r.decode refused, some r.buffer)
        | .firstFragment =>
            ({ r with buffer := payload, curpos := payload.length, within := Nat.le_refl _ }, none)
        | .middleFragment =>
            let buffer := r.appended heap payload
            ({ r with buffer := buffer, curpos := buffer.length, within := Nat.le_refl _ }, none)
        | .lastFragment =>
            let buffer := r.appended heap payload
            let r := { r with buffer := buffer, curpos := 0, within := Nat.zero_le _ }
            (r.decode refused, some r.buffer)
  else (r, none)

/-- Packets that arrive one after the other, and what became ready on each. -/
def deliver (heap : Nat → Byte) (refused : List Byte → Nat) :
    Receiver → List (List Byte) → List (Option (List Byte))
  | _, [] => []
  | r, data :: rest =>
      let received := onVpxPacketReceived heap refused r data
      received.2 :: deliver heap refused received.1 rest

end Xwbot.Video
