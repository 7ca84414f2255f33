import Xwbot.Ice.Channel
import Xwbot.Video.Loss
import Xwbot.Video.Reassembly

/-!
# Frames through two streams

The encoder writes the packets of its frames to a stream, and the decoder is the object of payload
type 98 of another one.  The frames come out as they went in, each on its last packet, until the
renderer has refused too many images.
-/

namespace Xwbot.Video

open Runs Ice

variable {heap : Nat → Byte} {refused : List Byte → Nat} {r : Receiver} {sender sender' : Sender}
  {frame data : List Byte} {frames packets more : List (List Byte)} {sent : List RtpPacket}
  {stamp : Int} {seqno seqno' : UInt32}

/-! ## Sending -/

/-- The hints of a packet.  The counters are printed as numbers of 32 bits with a sign. -/
def RtpPacket.hints (packet : RtpPacket) : AttrList :=
  setattr (lit "seqno") (some (counterText ((packet.seqno.toNat : Int).bmod (2 ^ 32))))
    (setattr (lit "timestamp") (some (counterText (packet.timestamp.bmod (2 ^ 32))))
      (setattr (lit "pt") (some (lit "98")) []))

/-- `_WRITE` of a packet to the transport. -/
def RtpPacket.write (packet : RtpPacket) : List Byte × Option AttrList :=
  (packet.bytes, some packet.hints)

/-- The header of a packet on the wire. -/
def RtpPacket.header (packet : RtpPacket) (ssrc : Option Nat) : RtpHdr :=
  ⟨98, some (packet.seqno.toNat % 65536), some (packet.timestamp % 2 ^ 32).toNat, ssrc⟩

/-- The packets of frames that are encoded one after the other. -/
def sendFrames : Sender → List (List Byte) → Except Fault (Sender × List RtpPacket)
  | sender, [] => .ok (sender, [])
  | sender, frame :: rest => do
      let (sender, packets) ← xVp8RtpSend sender frame
      let (sender, more) ← sendFrames sender rest
      .ok (sender, packets ++ more)

/-- Every frame goes out with a picture id, and no remainder fills the second packet exactly. -/
def Sendable : Sender → List (List Byte) → Prop
  | _, [] => True
  | sender, frame :: rest =>
      (sender.seqno &&& 127 ≠ 0 ∧ frame.length ≠ 2 * mtu - 3) ∧
        ∀ sender' packets, xVp8RtpSend sender frame = .ok (sender', packets) →
          Sendable sender' rest

theorem hints_hints (packet : RtpPacket) : Hints (some packet.hints) 98
    ((packet.seqno.toNat : Int).bmod (2 ^ 32)) (packet.timestamp.bmod (2 ^ 32)) := by
  have counter : ∀ n : Int, IsCounter (n.bmod (2 ^ 32)) := by
    intro n
    have lower := @Int.le_bmod n (2 ^ 32) (by decide)
    have upper := @Int.bmod_lt n (2 ^ 32) (by decide)
    constructor
    · omega
    · omega
  have ninetyEight : decimal 98 = lit "98" := by decide
  constructor
  case small => decide
  case counters => exact ⟨counter _, counter _⟩
  case ptHint =>
    rw [ninetyEight]
    rfl
  case seqnoHint => rfl
  case stampHint => rfl

/-- The header that the transport makes of the hints. -/
theorem rtpHeader_hints (packet : RtpPacket) (ssrc : Option Nat) :
    IoStream.rtpHeader (some packet.hints) ssrc = .ok (packet.header ssrc) := by
  have seq := @Int.bmod_emod packet.seqno.toNat (2 ^ 32)
  have seq' : ((packet.seqno.toNat : Int).bmod (2 ^ 32) % 2 ^ 16).toNat =
      packet.seqno.toNat % 65536 := by
    omega
  have stamp : packet.timestamp.bmod (2 ^ 32) % 2 ^ 32 = packet.timestamp % 2 ^ 32 :=
    Int.bmod_emod
  rw [rtpHeader_of_hints (hints_hints packet), seq', stamp]
  rfl

/-! ## Receiving -/

theorem deliver_append : deliver heap refused r (packets ++ more) =
    deliver heap refused r packets ++
      deliver heap refused (receiveAll heap refused r packets) more := by
  induction packets generalizing r with
  | nil => rfl
  | cons data rest ih =>
      rw [List.cons_append, deliver, deliver, ih, List.cons_append]
      rfl

/-- The lives that a frame costs. -/
def cost (refused : List Byte → Nat) (initialized : Bool) (frame : List Byte) : Int :=
  if initialized then refused frame else 0

/-- Lives are lost for what becomes ready only. -/
theorem received_lives (heap : Nat → Byte) (refused : List Byte → Nat) (r : Receiver)
    (data : List Byte) :
    (onVpxPacketReceived heap refused r data).1.initialized = r.initialized ∧
      (onVpxPacketReceived heap refused r data).1.ioLifeCount = r.ioLifeCount -
        (onVpxPacketReceived heap refused r data).2.elim 0 (cost refused r.initialized) := by
  have decode : ∀ s : Receiver, s.initialized = r.initialized →
      s.ioLifeCount = r.ioLifeCount → (s.decode refused).initialized = r.initialized ∧
        (s.decode refused).ioLifeCount = r.ioLifeCount - cost refused r.initialized s.buffer := by
    intro s initialized lives
    refine ⟨(Receiver.initialized_decode refused s).trans initialized, ?_⟩
    rw [Receiver.decode, cost, ← initialized, ← lives]
    split
    · rfl
    · exact (sub_zero _).symm
  have kept : r.ioLifeCount = r.ioLifeCount - 0 := (sub_zero _).symm
  unfold onVpxPacketReceived
  split
  · split
    · exact ⟨rfl, kept⟩
    · next vp8d off _ =>
        dsimp only
        split
        · exact decode _ rfl rfl
        · exact ⟨rfl, kept⟩
        · exact ⟨rfl, kept⟩
        · exact decode _ rfl rfl
  · exact ⟨rfl, kept⟩

/-- The lives that are left behind some packets. -/
theorem receiveAll_lives (heap : Nat → Byte) (refused : List Byte → Nat) (r : Receiver)
    (packets : List (List Byte)) :
    (receiveAll heap refused r packets).initialized = r.initialized ∧
      (receiveAll heap refused r packets).ioLifeCount = r.ioLifeCount -
        (((deliver heap refused r packets).filterMap id).map (cost refused r.initialized)).sum := by
  induction packets generalizing r with
  | nil => exact ⟨rfl, (sub_zero _).symm⟩
  | cons data rest ih =>
      rcases received_lives heap refused r data with ⟨initialized, lives⟩
      rcases ih (onVpxPacketReceived heap refused r data).1 with ⟨initialized', lives'⟩
      refine ⟨initialized'.trans initialized, ?_⟩
      have split : receiveAll heap refused r (data :: rest) =
          receiveAll heap refused (onVpxPacketReceived heap refused r data).1 rest := rfl
      rw [split, lives', lives, initialized, deliver]
      cases (onVpxPacketReceived heap refused r data).2 with
      | none =>
          rw [Option.elim_none, sub_zero]
          rfl
      | some buffer =>
          have ready : ∀ l : List (Option (List Byte)), (some buffer :: l).filterMap id =
              buffer :: l.filterMap id := fun _ => rfl
          rw [Option.elim_some, ready, List.map_cons, List.sum_cons, sub_sub]

/-- Without lives nothing becomes ready any more. -/
theorem deliver_dead (dead : ¬r.Alive) :
    (deliver heap refused r packets).filterMap id = [] := by
  induction packets with
  | nil => rfl
  | cons data rest ih =>
      rw [deliver, received_dead dead]
      exact ih

/-! ## Frames -/

/-- The frames that become ready before the lives are used up. -/
def watched (cost : List Byte → Int) : Int → List (List Byte) → List (List Byte)
  | _, [] => []
  | lives, frame :: rest =>
      if -defaultIoLifeCount ≤ lives then frame :: watched cost (lives - cost frame) rest else []

/-- The packets of frames put the frames together again, one by one. -/
theorem watched_of_sendable (sendable : Sendable sender frames) :
    ∃ sender' sent, sendFrames sender frames = .ok (sender', sent) ∧
      (∀ packet ∈ sent, packet.bytes.length ≤ mtu) ∧
      ∀ heap refused (r : Receiver),
        (deliver heap refused r (sent.map RtpPacket.bytes)).filterMap id =
          watched (cost refused r.initialized) r.ioLifeCount frames := by
  induction frames generalizing sender with
  | nil => exact ⟨sender, [], rfl, nofun, fun _ _ _ => rfl⟩
  | cons frame rest ih =>
      rcases sendable with ⟨⟨present, marked⟩, later⟩
      rcases roundTrips_of_present present marked with ⟨sender', sent, sends, short, -, delivers⟩
      rcases ih (later sender' sent sends) with ⟨sender'', sent', sends', short', delivers'⟩
      refine ⟨sender'', sent ++ sent', ?_, ?_, ?_⟩
      · rw [sendFrames, sends]
        change (sendFrames sender' rest >>= _) = _
        rw [sends']
        rfl
      · intro packet member
        rcases List.mem_append.mp member with member | member
        · exact short packet member
        · exact short' packet member
      · intro heap refused r
        rw [watched]
        split
        · next alive =>
            have ready : (deliver heap refused r (sent.map RtpPacket.bytes)).filterMap id =
                [frame] := by
              rw [delivers heap refused r alive, List.filterMap_append]
              simp
            rcases receiveAll_lives heap refused r (sent.map RtpPacket.bytes) with
              ⟨initialized, lives⟩
            rw [ready, List.map_singleton, List.sum_singleton] at lives
            rw [List.map_append, deliver_append, List.filterMap_append, ready,
              delivers' heap refused, initialized, lives]
            rfl
        · next dead => exact deliver_dead dead

/-- **Frames.**  The frames that are written to a stream become ready at the decoder that a network
in order connects it to, as they were sent, until the lives are used up.  On the wire each packet
has the number and the time stamp that the encoder gave it. -/
theorem frames_arrive {p q : Platform} {attrs attrs' : AttrList}
    {owner sockv4 sockv4Ctl sockv4' sockv4Ctl' : Nat} {events arriving : List Ice.Event}
    {source target : Observed} (sendable : Sendable sender frames)
    (sends : sendFrames sender frames = .ok (sender', sent))
    (writes : events.flatMap (Ice.Event.writes 98) = sent.map RtpPacket.write)
    (connected : Connected 98 owner p attrs sockv4 sockv4Ctl events source
      (List.range sent.length) arriving)
    (received : run (observe q) (Observed.fresh attrs' sockv4' sockv4Ctl') arriving = .ok target) :
    List.Forall₂ (fun packet content =>
        ∃ ssrc, content = .rtp (RtpPacket.header packet ssrc) packet.bytes)
      sent (transmitted 98 source.past) ∧
    ∀ heap refused (r : Receiver),
      (deliver heap refused r (handed owner target.past)).filterMap id =
        watched (cost refused r.initialized) r.ioLifeCount frames := by
  have carried := carries_run connected.ready connected.sent
  rw [writes, List.forall₂_map_left_iff] at carried
  refine ⟨carried.imp ?_, ?_⟩
  · rintro packet content ⟨ssrc, hdr, made, rfl⟩
    rw [show packet.write.2 = some packet.hints from rfl, rtpHeader_hints] at made
    cases made
    exact ⟨ssrc, rfl⟩
  · have handed_eq : handed owner target.past = sent.map RtpPacket.bytes := by
      have arrives := media_arrives connected received
      have numbered : (List.range sent.length).map (fun i => (sent.map RtpPacket.bytes)[i]?) =
          (sent.map RtpPacket.bytes).map some := by
        apply List.ext_getElem
        · simp only [List.length_map, List.length_range]
        · intro i _ inside
          rw [List.getElem_map, List.getElem_map, List.getElem_range,
            List.getElem?_eq_getElem (by simpa using inside)]
      rw [writes, List.map_map] at arrives
      exact List.map_injective_iff.mpr (Option.some_injective _) (arrives.trans numbered)
    rcases watched_of_sendable sendable with ⟨_, _, sends', -, delivers⟩
    cases sends.symm.trans sends'
    rw [handed_eq]
    exact delivers

/-- Two frames, and the packets that carry them. -/
def clip : List (List Byte) :=
  [[1, 2, 3], [4, 5]]

def clipPackets : List RtpPacket :=
  [⟨[17, 1, 1, 2, 3], 1, 0⟩, ⟨[17, 2, 4, 5], 2, 3600⟩]

/-- A stream that becomes ready and is written the packets, and a sound between them. -/
def speaking : List Ice.Event :=
  exchange "5000" ++ [.channelEvent false (response 5000),
    .tryWrite [17, 1, 1, 2, 3] (some (RtpPacket.hints ⟨[17, 1, 1, 2, 3], 1, 0⟩)),
    typed "97" [9],
    .tryWrite [17, 2, 4, 5] (some (RtpPacket.hints ⟨[17, 2, 4, 5], 2, 3600⟩))]

/-- The other side, with a decoder. -/
def viewer : Ice.Receiver :=
  { listening with payloads := [(lit "98", 1)] }

/-- The packets on the wire. -/
def clipBytes (packet : RtpPacket) : List Byte :=
  rtpBytes 98 (packet.seqno.toNat % 65536) (packet.timestamp % 2 ^ 32).toNat 1000 packet.bytes

def viewing : List Ice.Event :=
  [.channelEvent false (viewer.read (clipBytes ⟨[17, 1, 1, 2, 3], 1, 0⟩)), .resendCandidates,
    .channelEvent false (viewer.read (clipBytes ⟨[17, 2, 4, 5], 2, 3600⟩))]

/-- Both frames become ready, unless the first one costs the last life. -/
theorem frames_arrive_clip : ∃ source target,
    run (observe IoStream.host) (Observed.fresh credentials 5 6) speaking = .ok source ∧
      run (observe IoStream.host) (Observed.fresh [] 7 8) viewing = .ok target ∧
      (deliver (fun _ => 0) (fun _ => 1) (Receiver.new true 0) (handed 1 target.past)).filterMap
        id = clip ∧
      (deliver (fun _ => 0) (fun _ => 1) (Receiver.new true (-100))
        (handed 1 target.past)).filterMap id = [[1, 2, 3]] := by
  have sends : ∃ o, run (observe IoStream.host) (Observed.fresh credentials 5 6) speaking = .ok o ∧
      transmitted 98 o.past = clipPackets.map fun packet =>
        .rtp (packet.header (some 1000)) packet.bytes := by
    rw [← lands_false_iff]
    decide +kernel
  have reads : ∃ o, run (observe IoStream.host) (Observed.fresh [] 7 8) viewing = .ok o ∧ True := by
    rw [← lands_false_iff]
    decide +kernel
  rcases sends with ⟨source, sent, contents⟩
  rcases reads with ⟨target, received, -⟩
  have fills : ∀ packet : RtpPacket, (clipBytes packet).length ≤ 0x800 →
      (Content.rtp (packet.header (some 1000)) packet.bytes).Fills
        (viewer.read (clipBytes packet)) := by
    intro packet fits
    exact Content.fills_append datagram_filled (viewer.read_bytes fits) (Nat.min_eq_left fits) fits
  have connected : Connected 98 1 IoStream.host credentials 5 6 speaking source [0, 1] viewing := by
    constructor
    case ready => decide +kernel
    case sent => exact sent
    case short => decide
    case network =>
      rw [contents]
      exact .cons ⟨_, rfl, fills ⟨[17, 1, 1, 2, 3], 1, 0⟩ (by decide)⟩
        (.cons ⟨_, rfl, fills ⟨[17, 2, 4, 5], 2, 3600⟩ (by decide)⟩ .nil)
    case offers =>
      intro ctl r member
      have offered : ∀ r : Received, r.payloads = viewer.payloads → r.Offers 98 1 := by
        intro r same
        unfold Received.Offers Received.found
        rw [same]
        decide
      apply offered
      simp only [viewing, List.mem_cons, Event.channelEvent.injEq, reduceCtorEq, List.not_mem_nil,
        or_false, false_or] at member
      rcases member with ⟨-, rfl⟩ | ⟨-, rfl⟩ <;> rfl
  have made : sendFrames ⟨1, 0⟩ clip = .ok (⟨3, 7200⟩, clipPackets) := by decide +kernel
  have sendable : Sendable ⟨1, 0⟩ clip := by
    refine ⟨⟨by decide, by decide⟩, fun sender' packets first => ?_⟩
    have second : xVp8RtpSend ⟨1, 0⟩ [1, 2, 3] = .ok (⟨2, 3600⟩, [⟨[17, 1, 1, 2, 3], 1, 0⟩]) := by
      decide +kernel
    cases first.symm.trans second
    exact ⟨⟨by decide, by decide⟩, fun _ _ _ => trivial⟩
  rcases frames_arrive sendable made (by decide) connected received with ⟨-, watches⟩
  exact ⟨source, target, sent, received, watches _ _ _, watches _ _ _⟩

end Xwbot.Video
